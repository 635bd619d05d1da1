import SabApp.Recording

/-!
# Recordings played again (NetApi.c)

`LocalRecordPlay` looks for the first key frame of a time in the table, and `localplayback` shows the
frames from there on. A read that fails sends it to the entry of the next key frame; behind the last
one stands an entry that no frame of this file made. The mark of the end, which the loop looks for
before each frame, is gone by then: every read that could set it is followed by a seek.
-/

namespace SabApp

namespace Recording

/-! ## The table read again -/

def tableNum (table : List UInt8) : ℤ := (UInt32.ofNat (word32 table 152)).toInt32.toInt

def tableOffset (table : List UInt8) (i : ℕ) : UInt32 := .ofNat (word32 table (288 + 20 * i + 8))

def tableTime (table : List UInt8) (i : ℕ) : UInt32 := .ofNat (word32 table (288 + 20 * i + 16))

theorem flatMap_range_split (g : ℕ → List UInt8) {i n : ℕ} (h : i < n) :
    ∃ post, (List.range n).flatMap g = (List.range i).flatMap g ++ g i ++ post := by
  obtain ⟨k, rfl⟩ := Nat.exists_eq_add_of_lt h
  refine ⟨((List.range k).map (i + 1 + ·)).flatMap g, ?_⟩
  rw [Nat.add_assoc, Nat.add_comm k, ← Nat.add_assoc, List.range_add, List.flatMap_append, List.range_succ,
    List.flatMap_append, List.flatMap_singleton]

theorem word32_middle (pre : List UInt8) {bs : List UInt8} (post : List UInt8) {i : ℕ} (h : i + 4 ≤ bs.length) :
    word32 (pre ++ bs ++ post) (pre.length + i) = word32 bs i := by
  rw [word32_append_left (by rw [List.length_append]; omega), word32_append_right (Nat.le_add_right _ _),
    Nat.add_sub_cancel_left]

theorem word32_le32_toNat (x : UInt32) : UInt32.ofNat (word32 (le32 x.toNat) 0) = x := by
  rw [word32_le32 x.toNat_lt, UInt32.ofNat_toNat]

namespace Info

variable (info : Info)

/-- What stands in front of the items. -/
def front : List UInt8 :=
  info.dev.1 ++ le32 info.begTime.toUInt32.toNat ++ le32 info.endTime.toUInt32.toNat ++ le32 info.max.toNat ++
    le32 (info.num % 4294967296).toNat ++ le32 info.ver.toNat ++ List.replicate 128 0

theorem front_length : info.front.length = 288 := by
  simp only [front, List.length_append, info.dev.2, le32_length, List.length_replicate]

theorem bytes_eq : info.bytes = info.front ++ info.itemBytes := rfl

/-- The item of a number is where the reader looks for it. -/
theorem item_word {i j : ℕ} (hi : i < maxItems) (hj : j ≤ 16) :
    word32 info.bytes (288 + 20 * i + j) = word32 (info.item i).bytes j := by
  obtain ⟨post, hpost⟩ := flatMap_range_split (fun i => (info.item i).bytes) hi
  have hlen : (info.front ++ (List.range i).flatMap fun i => (info.item i).bytes).length = 288 + 20 * i := by
    have hitem : ∀ i, (info.item i).bytes.length = 20 := by
      intro i
      simp only [Item.bytes, List.length_append, le32_length]
    rw [List.length_append, info.front_length, flatMap_range_length hitem, Nat.mul_comm]
  have hbytes : info.bytes = (info.front ++ (List.range i).flatMap fun i => (info.item i).bytes) ++
      (info.item i).bytes ++ post := by
    rw [info.bytes_eq, itemBytes, hpost]
    simp only [List.append_assoc]
  have h20 : (info.item i).bytes.length = 20 := by simp only [Item.bytes, List.length_append, le32_length]
  rw [hbytes, ← hlen]
  exact word32_middle _ _ (by omega)

theorem tableOffset_bytes {i : ℕ} (hi : i < maxItems) : tableOffset info.bytes i = (info.item i).offset := by
  have hword : word32 (info.item i).bytes 8 = word32 (le32 (info.item i).offset.toNat) 0 := rfl
  rw [tableOffset, info.item_word hi (by decide), hword, word32_le32_toNat]

theorem tableTime_bytes {i : ℕ} (hi : i < maxItems) : tableTime info.bytes i = (info.item i).timestamp := by
  have hword : word32 (info.item i).bytes 16 = word32 (le32 (info.item i).timestamp.toNat) 0 := rfl
  rw [tableTime, info.item_word hi (by decide), hword, word32_le32_toNat]

theorem tableNum_bytes (h₀ : 0 ≤ info.num) (h₁ : info.num ≤ maxItems) : tableNum info.bytes = info.num := by
  have hpre : (info.dev.1 ++ le32 info.begTime.toUInt32.toNat ++ le32 info.endTime.toUInt32.toNat ++
      le32 info.max.toNat).length = 152 := by
    simp only [List.length_append, info.dev.2, le32_length]
  have hbytes : info.bytes = (info.dev.1 ++ le32 info.begTime.toUInt32.toNat ++ le32 info.endTime.toUInt32.toNat ++
      le32 info.max.toNat) ++ le32 (info.num % 4294967296).toNat ++
        (le32 info.ver.toNat ++ List.replicate 128 0 ++ info.itemBytes) := by
    simp only [bytes, List.append_assoc]
  have hword : word32 info.bytes 152 = info.num.toNat := by
    have hmiddle := word32_middle (info.dev.1 ++ le32 info.begTime.toUInt32.toNat ++ le32 info.endTime.toUInt32.toNat ++
      le32 info.max.toNat) (le32 info.ver.toNat ++ List.replicate 128 0 ++ info.itemBytes)
      (show 0 + 4 ≤ (le32 (info.num % 4294967296).toNat).length from Nat.le_refl 4)
    rw [hpre] at hmiddle
    unfold maxItems at h₁
    rw [hbytes, hmiddle, word32_le32 (by omega)]
    omega
  unfold maxItems at h₁
  rw [tableNum, hword, toInt_toInt32, UInt32.toNat_ofNat_of_lt' (show _ < 4294967296 by omega), if_pos (by omega)]
  omega

end Info

/-! ## The player -/

/-- The header and the table are read, if they are there. -/
def readTable (f : File) : Option (List UInt8) × File :=
  let h := (f.seek 0).read 76
  if h.1.length ≠ 76 then (none, h.2)
  else
    let t := h.2.read 12288
    if t.1.length ≠ 12288 then (none, t.2) else (some t.1, t.2)

inductive Sought where
  /-- -1, from a file without its table. -/
  | short
  /-- -2, behind the last entry. -/
  | past
  /-- The offset. -/
  | found
  /-- The entry is behind the table. -/
  | wild
  deriving DecidableEq

/-- `fseek` refuses what is negative as an `int`. -/
def seekTo (f : File) (offset : UInt32) : File := if offset.toNat < 2147483648 then f.seek offset.toNat else f

def seekIframe (f : File) (no : ℕ) : Sought × File :=
  match readTable f with
  | (none, f) => (.short, f)
  | (some table, f) =>
    if (no : ℤ) > tableNum table then (.past, f)
    else if no ≥ maxItems then (.wild, f)
    else (.found, seekTo f (tableOffset table no))

/-- `playback`, and the memory that frames are read to. -/
structure Player where
  fd : File
  no : ℕ
  buf : List UInt8

/-- What comes of a turn of the loop. -/
inductive Turn where
  | shows (frame : List UInt8)
  | again
  /-- The frame of type 255 that announces the end. -/
  | announces (frame : List UInt8)
  /-- The loop is left. -/
  | leaves
  | wild
  deriving DecidableEq

namespace Player

/-- To the entry of the next key frame. -/
def skip (p : Player) : Turn × Player :=
  match seekIframe p.fd p.no with
  | (.past, f) => (.leaves, { p with fd := f })
  | (.wild, f) => (.wild, { p with fd := f })
  | (_, f) => (.again, { p with fd := f, no := p.no + 1 })

/-- `width * height * 2` is more than the buffer for pictures has, as an `int`. -/
def tooLarge (head : List UInt8) : Prop :=
  (Int32.ofNat (word16 head 16 * word16 head 18) * 2).toInt > 1024 * 1024 * 4

instance (head : List UInt8) : Decidable (tooLarge head) := inferInstanceAs (Decidable (_ < _))

def shownType (frame : List UInt8) : ℕ := byteAt frame 20

/-- A turn of `localplayback`, but for its wait. -/
def turn (p : Player) : Turn × Player :=
  if p.fd.eof then (.announces ((File.overlay p.buf 20 [255]).take (32 + word32 p.buf 0)), p)
  else
    let h := p.fd.read 32
    let p := { p with fd := h.2, buf := File.overlay p.buf 0 h.1 }
    if h.1.length ≠ 32 then p.skip
    else if tooLarge h.1 then p.skip
    else if word32 h.1 0 = 0 ∨ word32 h.1 0 > 500 * 1024 - 32 then p.skip
    else
      let b := p.fd.read (word32 h.1 0)
      let p := { p with fd := b.2, buf := File.overlay p.buf 32 b.1 }
      if b.1.length ≠ word32 h.1 0 then p.skip
      else (.shows (h.1 ++ b.1), if shownType h.1 = 1 then { p with no := p.no + 1 } else p)

/-- The frames shown, and how the loop is left, in `n` turns at most. -/
def play : ℕ → Player → List (List UInt8) × Option Turn
  | 0, _ => ([], none)
  | n + 1, p =>
    match p.turn with
    | (.shows frame, p) =>
      if shownType frame = 255 then ([frame], some .leaves)
      else
        let rest := play n p
        (frame :: rest.1, rest.2)
    | (.again, p) => play n p
    | (t, _) => ([], some t)

end Player

/-- The first entry of a time, if there is one; there is nothing where the table ends before. -/
def findEntry (table : List UInt8) (start : UInt32) : ℕ → ℕ → Option (Option ℕ)
  | 0, _ => some none
  | n + 1, i =>
    if i ≥ maxItems then none
    else if start ≤ tableTime table i then some (some i)
    else findEntry table start n (i + 1)

inductive Opened where
  /-- -1 -/
  | fails
  | plays (p : Player)
  | wild

/-- `LocalRecordPlay`, of a file that was opened. -/
def localRecordPlay (f : File) (start : UInt32) (buf : List UInt8) : Opened :=
  match readTable f with
  | (none, _) => .fails
  | (some table, f) =>
    match findEntry table start (tableNum table).toNat 0 with
    | none => .wild
    | some none => .plays ⟨f.seek dataStart, 0, buf⟩
    | some (some i) =>
      if (tableOffset table i).toNat < dataStart then .plays ⟨f.seek dataStart, 0, buf⟩
      else .plays ⟨seekTo f (tableOffset table i), i, buf⟩

/-! ## The end of a file -/

/-- A file that has its table. -/
def Complete (b : List UInt8) : Prop := dataStart ≤ b.length

theorem readTable_complete {f : File} (h : Complete f.bytes) :
    readTable f = (some ((f.bytes.drop 76).take 12288), ⟨f.bytes, dataStart, false⟩) := by
  unfold Complete dataStart at h
  have h76 : ((f.seek 0).got 76).length = 76 := by
    rw [File.got, List.length_take, List.length_drop]
    show min 76 (f.bytes.length - 0) = 76
    omega
  have htable : ((f.bytes.drop 76).take 12288).length = 12288 := by
    rw [List.length_take, List.length_drop]
    omega
  have hread : (f.seek 0).read 76 = ((f.seek 0).got 76, ⟨f.bytes, 76, false⟩) := by
    rw [File.read, h76]
    rfl
  have hread' : (⟨f.bytes, 76, false⟩ : File).read 12288 =
      ((f.bytes.drop 76).take 12288, ⟨f.bytes, 76 + 12288, false⟩) := by
    rw [File.read, File.got, htable]
    rfl
  rw [readTable, hread]
  dsimp only
  rw [if_neg (fun hne => hne h76), hread']
  dsimp only
  rw [if_neg (fun hne => hne htable)]
  rfl

theorem seekTo_same (f : File) (heof : f.eof = false) (offset : UInt32) :
    (seekTo f offset).bytes = f.bytes ∧ (seekTo f offset).eof = false := by
  unfold seekTo
  split
  · exact ⟨rfl, rfl⟩
  · exact ⟨rfl, heof⟩

namespace Player

/-- The file has its table, and the mark of the end is not set. -/
structure Live (p : Player) : Prop where
  complete : Complete p.fd.bytes
  unmarked : p.fd.eof = false

/-- What a failed read leads to. -/
theorem skip_cases {p : Player} (h : Complete p.fd.bytes) :
    (∃ p', p.skip = (.leaves, p')) ∨ (∃ p', p.skip = (.wild, p')) ∨
      ∃ f : File, f.bytes = p.fd.bytes ∧ f.eof = false ∧ p.no < maxItems ∧
        p.skip = (.again, { p with fd := f, no := p.no + 1 }) := by
  unfold skip seekIframe
  rw [readTable_complete h]
  dsimp only
  by_cases hpast : (p.no : ℤ) > tableNum ((p.fd.bytes.drop 76).take 12288)
  · rw [if_pos hpast]
    exact .inl ⟨_, rfl⟩
  · by_cases hwild : p.no ≥ maxItems
    · rw [if_neg hpast, if_pos hwild]
      exact .inr (.inl ⟨_, rfl⟩)
    · rw [if_neg hpast, if_neg hwild]
      obtain ⟨hbytes, heof⟩ :=
        seekTo_same ⟨p.fd.bytes, dataStart, false⟩ rfl (tableOffset ((p.fd.bytes.drop 76).take 12288) p.no)
      exact .inr (.inr ⟨_, hbytes, heof, Nat.lt_of_not_le hwild, rfl⟩)

/-- A read that gets what it asks for leaves the mark alone. -/
theorem read_unmarked {f : File} {n : ℕ} (heof : f.eof = false) (h : (f.read n).1.length = n) :
    (f.read n).2.eof = false := by
  show (f.eof || decide ((f.got n).length < n)) = false
  have hn : ¬(f.got n).length < n := by
    have : (f.got n).length = n := h
    omega
  rw [heof, decide_eq_false hn]
  rfl

/-- What a turn does to a file with its table: it goes on behind a frame, or to an entry of the table, or ends. -/
inductive Step (p : Player) : Turn × Player → Prop
  | shows (frame : List UInt8) (p' : Player) (live : p'.Live) (bytes : p'.fd.bytes = p.fd.bytes)
      (pos : p.fd.pos + 33 ≤ p'.fd.pos) (within : p'.fd.pos ≤ p.fd.bytes.length) (no : p.no ≤ p'.no) :
      Step p (.shows frame, p')
  | again (p' : Player) (live : p'.Live) (bytes : p'.fd.bytes = p.fd.bytes) (room : p.no < maxItems)
      (no : p'.no = p.no + 1) : Step p (.again, p')
  | leaves (p' : Player) : Step p (.leaves, p')
  | wild (p' : Player) : Step p (.wild, p')

theorem step_skip {p q : Player} (hbytes : q.fd.bytes = p.fd.bytes) (hno : q.no = p.no) (h : Complete p.fd.bytes) :
    Step p q.skip := by
  have hq : Complete q.fd.bytes := hbytes ▸ h
  rcases skip_cases hq with ⟨p', hskip⟩ | ⟨p', hskip⟩ | ⟨f, hf, heof, hroom, hskip⟩
  · rw [hskip]
    exact .leaves p'
  · rw [hskip]
    exact .wild p'
  · rw [hskip]
    exact .again _ ⟨by show Complete f.bytes; rw [hf]; exact hq, heof⟩ (hf.trans hbytes) (hno ▸ hroom)
      (by show q.no + 1 = _; rw [hno])

theorem got_pos {f : File} {n : ℕ} (h : (f.got n).length = n) (hn : 0 < n) : f.pos + n ≤ f.bytes.length := by
  rw [File.got, List.length_take, List.length_drop] at h
  omega

/-- **A turn**: whatever the file holds behind its table. -/
theorem step_turn {p : Player} (h : p.Live) : Step p p.turn := by
  unfold turn
  rw [h.unmarked, if_neg Bool.false_ne_true]
  dsimp only
  split
  · exact step_skip rfl rfl h.complete
  · rename_i hhead
    have hhead := Decidable.not_not.mp hhead
    split
    · exact step_skip rfl rfl h.complete
    · split
      · exact step_skip rfl rfl h.complete
      · rename_i hlen
        split
        · exact step_skip rfl rfl h.complete
        · rename_i hbody
          have hbody := Decidable.not_not.mp hbody
          have hm₁ := read_unmarked h.unmarked hhead
          have hm₂ := read_unmarked hm₁ hbody
          have hpos₁ : (p.fd.read 32).2.pos = p.fd.pos + 32 := congrArg (p.fd.pos + ·) hhead
          have hpos₂ : ((p.fd.read 32).2.read (word32 (p.fd.read 32).1 0)).2.pos =
              (p.fd.read 32).2.pos + word32 (p.fd.read 32).1 0 := congrArg ((p.fd.read 32).2.pos + ·) hbody
          have hwithin := got_pos hbody (by omega)
          have hbytes : (p.fd.read 32).2.bytes = p.fd.bytes := rfl
          rw [hbytes] at hwithin
          split
          · exact .shows _ _ ⟨h.complete, hm₂⟩ rfl (by dsimp only; omega) (by dsimp only; omega) (Nat.le_succ _)
          · exact .shows _ _ ⟨h.complete, hm₂⟩ rfl (by dsimp only; omega) (by dsimp only; omega) (Nat.le_refl _)

/-- What is left to do: the entries, and the bytes behind the position. -/
def left (p : Player) : ℕ := (maxItems - p.no) * (p.fd.bytes.length + 2) + (p.fd.bytes.length + 1 - p.fd.pos)

theorem left_shows {p p' : Player} (hbytes : p'.fd.bytes = p.fd.bytes) (hpos : p.fd.pos + 33 ≤ p'.fd.pos)
    (hwithin : p'.fd.pos ≤ p.fd.bytes.length) (hno : p.no ≤ p'.no) : p'.left < p.left := by
  unfold left
  rw [hbytes]
  have hmul : (maxItems - p'.no) * (p.fd.bytes.length + 2) ≤ (maxItems - p.no) * (p.fd.bytes.length + 2) :=
    Nat.mul_le_mul_right _ (by omega)
  omega

theorem left_again {p p' : Player} (hbytes : p'.fd.bytes = p.fd.bytes) (hroom : p.no < maxItems)
    (hno : p'.no = p.no + 1) :
    p'.left < p.left := by
  unfold left
  rw [hbytes, hno]
  have hsucc : maxItems - p.no = (maxItems - (p.no + 1)) + 1 := by omega
  rw [hsucc, Nat.succ_mul]
  omega

/-- **The end of a recording**: from any file with its table, the playback ends, and no frame announces that it does. -/
theorem play_ends {p : Player} (h : p.Live) {n : ℕ} (hn : p.left < n) :
    (p.play n).2 = some .leaves ∨ (p.play n).2 = some .wild := by
  induction n generalizing p with
  | zero => omega
  | succ n ih =>
    have hstep := step_turn h
    rw [play]
    generalize p.turn = r at hstep ⊢
    cases hstep with
    | shows frame p' live bytes pos within no =>
      dsimp only
      split
      · exact .inl rfl
      · exact ih live (by have := left_shows bytes pos within no; omega)
    | again p' live bytes room no => exact ih live (by have := left_again bytes room no; omega)
    | leaves p' => exact .inl rfl
    | wild p' => exact .inr rfl

/-- Behind a table of zeros. -/
def blank : Player := ⟨⟨List.replicate dataStart 0, dataStart, false⟩, 0, []⟩

theorem blank_live : blank.Live := by
  refine ⟨?_, rfl⟩
  show dataStart ≤ (List.replicate dataStart (0 : UInt8)).length
  exact Nat.le_of_eq List.length_replicate.symm

theorem play_ends_blank :
    (blank.play (blank.left + 1)).2 = some .leaves ∨ (blank.play (blank.left + 1)).2 = some .wild :=
  play_ends blank_live (Nat.lt_add_one blank.left)

/-- More turns than there are to do change nothing. -/
theorem play_enough {p : Player} (h : p.Live) {n m : ℕ} (hn : p.left < n) (hm : p.left < m) : p.play n = p.play m := by
  induction n generalizing p m with
  | zero => omega
  | succ n ih =>
    obtain ⟨m, rfl⟩ := Nat.exists_eq_succ_of_ne_zero (Nat.ne_of_gt (Nat.zero_lt_of_lt hm))
    have hstep := step_turn h
    rw [play, play]
    generalize p.turn = r at hstep ⊢
    cases hstep with
    | shows frame p' live bytes pos within no =>
      have hless := left_shows bytes pos within no
      dsimp only
      rw [ih live (m := m) (by omega) (by omega)]
    | again p' live bytes room no =>
      have hless := left_again bytes room no
      exact ih live (by omega) (by omega)
    | leaves p' => rfl
    | wild p' => rfl

end Player

end Recording

end SabApp
