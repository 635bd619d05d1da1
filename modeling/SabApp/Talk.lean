import SabApp.Adpcm
import SabApp.G711

/-!
# What is said and what is heard (NetApi.c)

`SendTalk` codes the samples of a call into one frame, and the callbacks decode what a frame carries,
by its sub type. With ADPCM a frame carries the coder's state in front of each 320 samples, so that it
can be heard whatever was lost before it; a frame of several blocks is heard as if it were one.
-/

namespace SabApp

namespace Talk

open Adpcm G711
open Uvc (ALawDecode)

/-! ## ADPCM blocks -/

/-- An `adpcm_state` in bytes; `nouse` stays 0. -/
def stateBytes (st : State) : List UInt8 := le16 st.valprev.toUInt16.toNat ++ [st.index, 0]

def stateOf (bs : List UInt8) : State := ⟨(UInt16.ofNat (word16 bs 0)).toInt16, bs.getD 2 0⟩

theorem stateOf_stateBytes (st : State) (bs : List UInt8) : stateOf (stateBytes st ++ bs) = st := by
  have hlen : (stateBytes st).length = 4 := rfl
  have hword : word16 (stateBytes st) 0 = st.valprev.toUInt16.toNat := by
    rw [stateBytes, word16_append_left (Nat.le_refl 2), word16_le16 st.valprev.toUInt16.toNat_lt]
  rw [stateOf, word16_append_left (by rw [hlen]; decide), hword, UInt16.ofNat_toNat]
  rfl

/-- The head of a block: a mark, and the state that its codes go on from. -/
def blockHead (st : State) : List UInt8 := [0x00, 0x01, 0x52, 0x00] ++ stateBytes st

/-- The blocks of `SendTalk`, of 320 samples each. -/
def blocks : ℕ → List Int16 → State → Option (List UInt8 × State)
  | 0, _, st => some ([], st)
  | n + 1, rawbuf, st =>
    (adpcmCoder (rawbuf.take 320) st).bind fun r =>
      (blocks n (rawbuf.drop 320) r.2).map fun rest => (blockHead st ++ r.1 ++ rest.1, rest.2)

/-- The payload of a frame of `SendTalk`, and the coder's state after it. -/
def sendTalk (type : ℕ) (rawbuf : List Int16) (adstate : State) : Option (List UInt8 × State) :=
  if type = 1 then some (rawbuf.map ALawEncode, adstate)
  else if type = 3 then some (rawbuf.map ULawEncode, adstate)
  else if type = 2 then blocks (rawbuf.length / 320) rawbuf adstate
  else if type = 4 then some (rawbuf.flatMap fun x => le16 x.toUInt16.toNat, adstate)
  else some ([], adstate)

/-- What becomes of a frame's sound. -/
inductive Heard where
  /-- `ShowAudio` is given samples. -/
  | samples (xs : List Int16)
  /-- The callback returns. -/
  | silence
  /-- The step is read behind the table. -/
  | wild
  deriving DecidableEq

def samplesOf : List UInt8 → List Int16
  | a :: b :: bs => (UInt16.ofNat (word16 [a, b] 0)).toInt16 :: samplesOf bs
  | _ => []

/-- The decoders of the callbacks. -/
def hear (subType : ℕ) (payload : List UInt8) : Heard :=
  if subType = 1 then .samples (payload.map fun a => (ALawDecode a).toInt16)
  else if subType = 3 then .samples (payload.map fun u => (ULawDecode u).toInt16)
  else if subType = 2 then
    match adpcmDecoder (payload.drop 8) (stateOf (payload.drop 4)) with
    | none => .wild
    | some r => .samples r.1
  else if subType = 4 then .samples (samplesOf payload)
  else .silence

/-- No decoder gives more than two samples for a byte. -/
theorem hear_le {subType : ℕ} {payload : List UInt8} {xs : List Int16} (hsub : subType ≠ 4)
    (h : hear subType payload = .samples xs) : xs.length ≤ 2 * payload.length := by
  unfold hear at h
  split at h
  · cases h
    rw [List.length_map]
    omega
  split at h
  · cases h
    rw [List.length_map]
    omega
  split at h
  · split at h
    · cases h
    · rename_i r hr
      cases h
      obtain ⟨l, -, rfl⟩ := Option.map_eq_some_iff.mp hr
      dsimp only
      rw [decoderLoop_length, List.length_drop]
      omega
  · cases h

/-! ## Frames of one block -/

/-- The frames of a conversation, each of the samples of one call. -/
def frames (type : ℕ) : List (List Int16) → State → Option (List (List UInt8))
  | [], _ => some []
  | rawbuf :: rest, st =>
    (sendTalk type rawbuf st).bind fun r => (frames type rest r.2).map fun ps => r.1 :: ps

/-- A frame is heard, and what is heard is near to what was said, by the steps from the state that it carries on. -/
def Tells (said : List Int16) (payload : List UInt8) : Prop :=
  ∃ l ys, (stateOf (payload.drop 4)).load = some l ∧ hear 2 payload = .samples ys ∧ ys.length = said.length ∧
    Tracks l said ys

/-- A state that the coder leaves is in the table. -/
theorem save_index (l : Loop) : l.save.index.toNat ≤ 88 := by
  have hi : (UInt8.ofNat l.index).toNat = l.index := UInt8.toNat_ofNat_of_lt' (show _ < 256 by have := l.bound; omega)
  rw [Loop.save, hi]
  exact l.bound

theorem adpcmCoder_index {vals : List Int16} {st st' : State} {bytes : List UInt8}
    (h : adpcmCoder vals st = some (bytes, st')) : st'.index.toNat ≤ 88 := by
  unfold adpcmCoder at h
  obtain ⟨l, -, hl⟩ := Option.map_eq_some_iff.mp h
  have hst' : (coderLoop vals none l).2.save = st' := congrArg Prod.snd hl
  rw [← hst']
  exact save_index _

theorem drop_blockHead (st : State) (bs : List UInt8) : (blockHead st ++ bs).drop 8 = bs ∧
    stateOf ((blockHead st ++ bs).drop 4) = st :=
  ⟨rfl, stateOf_stateBytes st bs⟩

theorem hear_adpcm (payload : List UInt8) : hear 2 payload =
    match adpcmDecoder (payload.drop 8) (stateOf (payload.drop 4)) with
    | none => .wild
    | some r => .samples r.1 := rfl

/-- One block stands for itself. -/
theorem sendTalk_block {st : State} (h : st.index.toNat ≤ 88) {said : List Int16} (hlen : said.length = 320) :
    ∃ payload st', sendTalk 2 said st = some (payload, st') ∧ st'.index.toNat ≤ 88 ∧ Tells said payload := by
  obtain ⟨l, bytes, st', ys, st'', hload, hcode, hbytes, hdec, hys, htracks, -⟩ := adpcmDecoder_adpcmCoder h said
  have htake : said.take 320 = said := List.take_of_length_le (Nat.le_of_eq hlen)
  have hblocks : sendTalk 2 said st = some (blockHead st ++ bytes ++ [], st') := by
    show blocks (said.length / 320) said st = _
    rw [hlen]
    show blocks 1 said st = _
    rw [blocks, htake, hcode]
    rfl
  obtain ⟨hdrop, hstate⟩ := drop_blockHead st bytes
  have hcount : ys.length = said.length := by omega
  rw [List.take_of_length_le (Nat.le_of_eq hcount)] at htracks
  rw [List.append_nil] at hblocks
  exact ⟨blockHead st ++ bytes, st', hblocks, adpcmCoder_index hcode, l, ys, by rw [hstate, hload],
    by rw [hear_adpcm, hdrop, hstate, hdec], hcount, htracks⟩

/-- Two calls of silence. -/
def twoCalls : List (List Int16) := List.replicate 2 (List.replicate 320 0)

/-- A sample and what is heard of it, by the bound `e` on their distance. -/
def Within (e : ℕ → ℕ) (x y : Int16) : Prop := (y.toInt - x.toInt).natAbs ≤ e x.toInt.natAbs

theorem samplesOf_bytes (said : List Int16) : samplesOf (said.flatMap fun x => le16 x.toUInt16.toNat) = said := by
  induction said with
  | nil => rfl
  | cons x said ih =>
    have hx : (UInt16.ofNat (word16 (le16 x.toUInt16.toNat) 0)).toInt16 = x := by
      rw [word16_le16 x.toUInt16.toNat_lt, UInt16.ofNat_toNat]
      rfl
    rw [List.flatMap_cons]
    exact congrArg₂ List.cons hx ih

theorem forall₂_map {said : List Int16} {f : Int16 → Int16} {e : ℕ → ℕ} (h : ∀ x, Within e x (f x)) :
    List.Forall₂ (Within e) said (said.map f) := by
  induction said with
  | nil => exact .nil
  | cons x said ih => exact .cons (h x) ih

/-- What is said by one of the two laws is heard within its intervals, and what is said as it is, is heard as it is. -/
theorem hear_said (said : List Int16) (st : State) :
    (∃ payload ys, sendTalk 1 said st = some (payload, st) ∧ hear 1 payload = .samples ys ∧
        List.Forall₂ (Within fun n => max 8 (n / 32)) said ys) ∧
      (∃ payload ys, sendTalk 3 said st = some (payload, st) ∧ hear 3 payload = .samples ys ∧
        List.Forall₂ (Within fun n => (n + 132) / 32) said ys) ∧
      ∃ payload, sendTalk 4 said st = some (payload, st) ∧ hear 4 payload = .samples said := by
  refine ⟨⟨said.map ALawEncode, _, rfl, rfl, ?_⟩, ⟨said.map ULawEncode, _, rfl, rfl, ?_⟩, _, rfl, ?_⟩
  · rw [List.map_map]
    exact forall₂_map ALaw_near
  · rw [List.map_map]
    exact forall₂_map ULaw_near
  · show Heard.samples (samplesOf _) = _
    rw [samplesOf_bytes]

/-! ## Frames of several blocks -/

theorem blocks_length (n : ℕ) (rawbuf : List Int16) (hlen : 320 * n ≤ rawbuf.length) {st : State}
    (h : st.index.toNat ≤ 88) :
    ∃ payload st', blocks n rawbuf st = some (payload, st') ∧ payload.length = 168 * n := by
  induction n generalizing rawbuf st with
  | zero => exact ⟨[], st, rfl, rfl⟩
  | succ n ih =>
    obtain ⟨l, bytes, st', ys, st'', -, hcode, hbytes, -⟩ := adpcmDecoder_adpcmCoder h (rawbuf.take 320)
    rw [List.length_take_of_le (by omega)] at hbytes
    obtain ⟨rest, st₂, hrest, hrestlen⟩ := ih (rawbuf.drop 320) (by rw [List.length_drop]; omega)
      (adpcmCoder_index hcode)
    have hhead : (blockHead st).length = 8 := rfl
    refine ⟨blockHead st ++ bytes ++ rest, st₂, ?_, ?_⟩
    · rw [blocks, hcode, Option.bind_some, hrest]
      rfl
    · rw [List.length_append, List.length_append, hhead, hbytes, hrestlen]
      omega

theorem blocks_head {n : ℕ} {rawbuf : List Int16} {st st' : State} {payload : List UInt8}
    (h : blocks (n + 1) rawbuf st = some (payload, st')) : ∃ bs, payload = blockHead st ++ bs := by
  rw [blocks] at h
  obtain ⟨r, -, hr⟩ := Option.bind_eq_some_iff.mp h
  obtain ⟨rest, -, hrest⟩ := Option.map_eq_some_iff.mp hr
  have hpayload : blockHead st ++ r.1 ++ rest.1 = payload := congrArg Prod.fst hrest
  exact ⟨r.1 ++ rest.1, by rw [← hpayload, List.append_assoc]⟩

/-- **Several blocks**: the heads of the blocks behind the first are heard as codes, so that what is heard has the
length of what was said exactly if there was one block. -/
theorem hear_length {st : State} (h : st.index.toNat ≤ 88) {said : List Int16} (hlen : 320 ≤ said.length) :
    ∃ payload st' ys, sendTalk 2 said st = some (payload, st') ∧ hear 2 payload = .samples ys ∧
      ys.length + 16 = 336 * (said.length / 320) ∧
      (ys.length = 320 * (said.length / 320) ↔ said.length / 320 = 1) := by
  obtain ⟨payload, st', hblocks, hpayload⟩ := blocks_length (said.length / 320) said
    (Nat.mul_div_le said.length 320) h
  obtain ⟨n, hn⟩ := Nat.exists_eq_add_of_lt (Nat.div_pos hlen (by decide))
  rw [Nat.zero_add] at hn
  obtain ⟨bs, rfl⟩ := blocks_head (hn ▸ hblocks)
  obtain ⟨hdrop, hstate⟩ := drop_blockHead st bs
  obtain ⟨l, hl⟩ := State.load_eq h
  have hhead : (blockHead st).length = 8 := rfl
  have hys : (decoderLoop bs l).1.length = 2 * bs.length := by
    rw [decoderLoop_eq, List.length_map, Predictive.Codec.states_length, Predictive.unpack_length]
  rw [List.length_append, hhead] at hpayload
  refine ⟨blockHead st ++ bs, st', (decoderLoop bs l).1, hblocks, ?_, by omega, by omega⟩
  rw [hear_adpcm, hdrop, hstate, adpcmDecoder, hl]
  rfl

/-- The two in one call. -/
def longCall : List Int16 := List.replicate 640 0

theorem longCall_length : ∃ payload st' ys, sendTalk 2 longCall begin = some (payload, st') ∧
    hear 2 payload = .samples ys ∧ ys.length + 16 = 336 * (longCall.length / 320) ∧
    (ys.length = 320 * (longCall.length / 320) ↔ longCall.length / 320 = 1) :=
  hear_length (by decide) (by rw [longCall, List.length_replicate]; decide)

end Talk

end SabApp
