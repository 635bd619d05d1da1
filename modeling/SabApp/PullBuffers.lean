import SabApp.Accesses
import SabApp.PullThreads

/-!
# What a pull stream receives (PullStream.c)

`PullThread` receives a head and then as many bytes as the head says into the buffer of its stream. `recvBuf` takes the
length as an `int`: where it is negative nothing is received, and the stream is closed. No other length is refused.
-/

namespace SabApp

namespace PullStream

open Traced

/-- What a `recv` brings; no bytes are the end of the stream. -/
inductive Received where
  | bytes (bs : List UInt8)
  | failed

/-- `recvBuf` for a positive length: what it returns, the bytes at `a`, and what is left of the stream. -/
def recvLoop : ℕ → ℕ → List Received → Traced Access (ℤ × List UInt8 × List Received)
  | _, 0, s => pure (0, [], s)
  | _, _ + 1, [] => pure (0, [], [])
  | _, _ + 1, .failed :: s => pure (-1, [], s)
  | a, n + 1, .bytes p :: s =>
    if p = [] then pure (0, [], s)
    else if p.length ≤ n + 1 then do
      emit (.write a p)
      let r ← recvLoop (a + p.length) (n + 1 - p.length) s
      pure (if r.1 < 0 then -1 else p.length + r.1, p ++ r.2.1, r.2.2)
    else do
      emit (.write a (p.take (n + 1)))
      pure (n + 1, p.take (n + 1), .bytes (p.drop (n + 1)) :: s)

def recvBuf (a : ℕ) (len : Int32) (s : List Received) : Traced Access (ℤ × List UInt8 × List Received) :=
  if len > 0 then recvLoop a len.toInt.toNat s else pure (0, [], s)

/-- What the thread finds before it receives: what `poll` returns, and `used` and `buffer` of the first entry. -/
structure Look where
  poll : ℤ
  used : Bool
  buffer : Bool

inductive PullEffect where
  /-- An access to the buffer. -/
  | net (x : Access)
  /-- `closeStream`. -/
  | close
  /-- `streamCallBack`, with the length and the bytes at the buffer. -/
  | callback (len : Int32) (frame : List UInt8)

namespace PullEffect

def InBuffer : PullEffect → Prop
  | net x => x.Within 0 netVideoBuf
  | _ => True

def shown? : PullEffect → Option PullEffect
  | net _ => none
  | e => some e

end PullEffect

/-- A turn from the first receive on; `none` is the end of the thread. -/
def receiveFrame (buffer : Mem) (s : List Received) : Traced PullEffect (Option (Mem × List Received)) := do
  let r ← (recvBuf 0 (Int32.ofNat headLen) s).relabel .net
  if r.1 ≠ headLen then
    emit .close
    pure none
  else
    let buffer := buffer.write 0 r.2.1
    let len := UInt32.ofNat (word32 (buffer.read 0 4) 0)
    let q ← (recvBuf headLen len.toInt32 r.2.2).relabel .net
    -- the comparison is one of unsigned numbers
    if UInt32.ofInt q.1 ≠ len then
      emit .close
      pure none
    else
      let buffer := buffer.write headLen q.2.1
      emit (.callback (len + UInt32.ofNat headLen).toInt32 (buffer.read 0 (headLen + len.toNat)))
      pure (some (buffer, q.2.2))

/-- The turns of `PullThread`, with what it finds in each. -/
def PullThread : List Look → Mem → List Received → Traced PullEffect Unit
  | [], _, _ => pure ()
  | l :: ls, buffer, s =>
    if l.poll < 0 then emit .close
    else if l.poll = 0 then PullThread ls buffer s
    else if ¬ l.used then PullThread ls buffer s
    else if ¬ l.buffer then PullThread ls buffer s
    else do
      match ← receiveFrame buffer s with
      | none => pure ()
      | some (buffer, s) => PullThread ls buffer s

/-- The pieces that arrive, up to the end of the stream or a failure. -/
def arrives : List Received → List (List UInt8)
  | .bytes (b :: bs) :: s => (b :: bs) :: arrives s
  | _ => []

/-- The turn comes to the receives. -/
def Look.Ready (l : Look) : Bool := l.poll > 0 ∧ l.used ∧ l.buffer

/-- Head and body of a frame arrive. -/
def FrameWhole (bs : List UInt8) : Prop :=
  headLen ≤ bs.length ∧ word32 bs 0 < 2147483648 ∧ headLen + word32 bs 0 ≤ bs.length

/-- What arrives of a frame has room in the buffer. -/
def FrameFits (bs : List UInt8) : Prop :=
  headLen ≤ bs.length → word32 bs 0 < 2147483648 → headLen + min (word32 bs 0) (bs.length - headLen) ≤ netVideoBuf

/-- Of each frame that is received. -/
def AllFit : List Look → List UInt8 → Prop
  | [], _ => True
  | l :: ls, bs =>
    if l.poll < 0 then True
    else if l.Ready then FrameFits bs ∧ (FrameWhole bs → AllFit ls (bs.drop (headLen + word32 bs 0)))
    else AllFit ls bs

/-- What the thread does but receive. -/
def shown (t : Traced PullEffect Unit) : List PullEffect := t.events.filterMap PullEffect.shown?

/-- A frame is handed on in every turn that comes to the receives, with the length that its head announces and the bytes
that came; or the thread ends after some of them. -/
def DeliversOrEnds (ls : List Look) (bs : List UInt8) (t : Traced PullEffect Unit) : Prop :=
  ∃ (fs : List (List UInt8)) (rest : List UInt8), bs = fs.flatten ++ rest ∧
    (∀ f ∈ fs, headLen ≤ f.length ∧ f.length = headLen + word32 f 0 ∧ (Int32.ofNat f.length).toInt = f.length) ∧
    (shown t = fs.map (fun f => .callback (Int32.ofNat f.length) f) ∧ fs.length = ls.countP Look.Ready ∨
      shown t = fs.map (fun f => .callback (Int32.ofNat f.length) f) ++ [.close])

/-- The thread stays in its buffer, and hands on whole frames or ends. -/
def BufferSafe (ls : List Look) (buffer : Mem) (s : List Received) : Prop :=
  (∀ e ∈ (PullThread ls buffer s).events, e.InBuffer) ∧ DeliversOrEnds ls (arrives s).flatten (PullThread ls buffer s)

/-! ## A block -/

theorem arrives_bytes {p : List UInt8} (h : p ≠ []) (s : List Received) : arrives (.bytes p :: s) = p :: arrives s := by
  cases p with
  | nil => exact absurd rfl h
  | cons b bs => rfl

/-- All of it arrives. -/
theorem recvLoop_whole : ∀ (s : List Received) {a n : ℕ}, n ≤ (arrives s).flatten.length →
    ∃ s', (arrives s').flatten = (arrives s).flatten.drop n ∧
      (recvLoop a n s).value = some (↑n, (arrives s).flatten.take n, s')
  | s, _, 0, _ => ⟨s, rfl, by unfold recvLoop; rfl⟩
  | [], _, n + 1, h => absurd h (Nat.not_succ_le_zero n)
  | .failed :: _, _, n + 1, h => absurd h (Nat.not_succ_le_zero n)
  | .bytes p :: s, a, n + 1, h => by
    by_cases hp : p = []
    · subst hp
      exact absurd h (Nat.not_succ_le_zero n)
    rw [arrives_bytes hp, List.flatten_cons, List.length_append] at h
    rw [arrives_bytes hp, List.flatten_cons, recvLoop, if_neg hp]
    by_cases hle : p.length ≤ n + 1
    · obtain ⟨s', hs', hv⟩ := recvLoop_whole s (a := a + p.length) (n := n + 1 - p.length) (by omega)
      refine ⟨s', ?_, ?_⟩
      · rw [hs', List.drop_append, List.drop_eq_nil_of_le hle, List.nil_append]
      · have hcount : ((p.length : ℤ) + ((n + 1 - p.length : ℕ) : ℤ)) = ((n + 1 : ℕ) : ℤ) := by omega
        rw [if_pos hle, bind_some (value_emit _), bind_some hv, List.take_append, List.take_of_length_le hle]
        simp only [value_pure, if_neg (Int.not_lt.mpr (Int.natCast_nonneg _)), hcount]
    · refine ⟨.bytes (p.drop (n + 1)) :: s, ?_, ?_⟩
      · have hrest : p.drop (n + 1) ≠ [] := fun he => hle (List.drop_eq_nil_iff.mp he)
        rw [arrives_bytes hrest, List.flatten_cons, List.drop_append_of_le_length (by omega)]
      · rw [if_neg hle, bind_some (value_emit _), List.take_append_of_le_length (by omega)]
        rfl

/-- The stream ends before, or a receive fails. -/
theorem recvLoop_short : ∀ (s : List Received) {a n : ℕ}, (arrives s).flatten.length < n →
    ∃ r, (recvLoop a n s).value = some r ∧ r.1 < n ∧ -1 ≤ r.1
  | _, _, 0, h => absurd h (Nat.not_lt_zero _)
  | [], _, n + 1, _ => ⟨_, rfl, by dsimp only; omega, by decide⟩
  | .failed :: _, _, n + 1, _ => ⟨_, rfl, by dsimp only; omega, Int.le_refl _⟩
  | .bytes p :: s, a, n + 1, h => by
    rw [recvLoop]
    by_cases hp : p = []
    · rw [if_pos hp]
      exact ⟨_, rfl, by dsimp only; omega, by dsimp only; omega⟩
    rw [arrives_bytes hp, List.flatten_cons, List.length_append] at h
    have hle : p.length ≤ n + 1 := by omega
    obtain ⟨r, hv, hlt, hge⟩ := recvLoop_short s (a := a + p.length) (n := n + 1 - p.length) (by omega)
    rw [if_neg hp, if_pos hle, bind_some (value_emit _), bind_some hv]
    refine ⟨_, rfl, ?_, ?_⟩ <;> dsimp only <;> split <;> omega

/-- As many bytes are written as arrive. -/
theorem recvLoop_within_iff {hi : ℕ} : ∀ (s : List Received) {a n : ℕ}, a ≤ hi →
    ((∀ x ∈ (recvLoop a n s).events, x.Within 0 hi) ↔ a + min n (arrives s).flatten.length ≤ hi)
  | s, a, 0, ha => by
    unfold recvLoop
    rw [Nat.zero_min]
    exact iff_of_true nofun ha
  | [], _, _ + 1, ha => iff_of_true nofun ha
  | .failed :: _, _, _ + 1, ha => iff_of_true nofun ha
  | .bytes p :: s, a, n + 1, ha => by
    rw [recvLoop]
    by_cases hp : p = []
    · subst hp
      exact iff_of_true nofun ha
    rw [if_neg hp, arrives_bytes hp, List.flatten_cons, List.length_append]
    by_cases hle : p.length ≤ n + 1
    · rw [if_pos hle, bind_some (value_emit _), events_emit, events_map, List.singleton_append, List.forall_mem_cons]
      constructor
      · rintro ⟨⟨-, hw⟩, hrest⟩
        have := (recvLoop_within_iff s hw).mp hrest
        omega
      · intro h
        have hw : a + p.length ≤ hi := by omega
        exact ⟨⟨Nat.zero_le a, hw⟩, (recvLoop_within_iff s hw).mpr (by omega)⟩
    · rw [if_neg hle]
      simp only [bind_some (value_emit _), events_emit, events_pure, List.append_nil, List.mem_singleton, forall_eq]
      simp only [Access.Within, List.length_take]
      omega

theorem toInt_of_lt {n : ℕ} (h : n < 2147483648) : (UInt32.ofNat n).toInt32.toInt = n := by
  rw [toInt_toInt32, UInt32.toNat_ofNat_of_lt' (Nat.lt_trans h (by decide)), if_pos h]

theorem ofInt_ne {x : ℤ} {n : ℕ} (hx : -1 ≤ x) (hlt : x < n) (hn : n < 2147483648) : UInt32.ofInt x ≠ UInt32.ofNat n := by
  intro he
  have hnat := congrArg UInt32.toNat he
  rw [UInt32.ofInt, UInt32.toNat_ofNat', UInt32.toNat_ofNat'] at hnat
  omega

theorem recvBuf_of_lt {n : ℕ} (h : n < 2147483648) (a : ℕ) (s : List Received) :
    recvBuf a (UInt32.ofNat n).toInt32 s = recvLoop a n s := by
  have hint := toInt_of_lt h
  unfold recvBuf
  cases n with
  | zero =>
    rw [if_neg (by decide)]
    unfold recvLoop
    rfl
  | succ n =>
    have hpos : (UInt32.ofNat (n + 1)).toInt32 > 0 := by
      rw [gt_iff_lt, Int32.lt_iff_toInt_lt, hint, Int32.toInt_zero]
      omega
    rw [if_pos hpos, hint, Int.toNat_natCast]

/-- A length that is negative as an `int`. -/
theorem recvBuf_negative {n : ℕ} (h : 2147483648 ≤ n) (hn : n < 4294967296) (a : ℕ) (s : List Received) :
    recvBuf a (UInt32.ofNat n).toInt32 s = pure (0, [], s) := by
  have hneg : ¬ (UInt32.ofNat n).toInt32 > 0 := by
    rw [gt_iff_lt, Int32.lt_iff_toInt_lt, Int32.toInt_zero, toInt_toInt32, UInt32.toNat_ofNat_of_lt' hn,
      if_neg (Nat.not_lt.mpr h)]
    omega
  rw [recvBuf, if_neg hneg]

/-! ## A frame -/

variable (buffer : Mem) {s : List Received}

theorem head_within (s : List Received) : ∀ x ∈ (recvLoop 0 headLen s).events, x.Within 0 netVideoBuf := by
  refine (recvLoop_within_iff s (Nat.zero_le _)).mpr ?_
  rw [Nat.zero_add]
  exact Nat.le_trans (Nat.min_le_left ..) (by decide)

/-- The head does not arrive. -/
theorem frame_short (h : (arrives s).flatten.length < headLen) :
    receiveFrame buffer s = ⟨some none, (recvLoop 0 headLen s).events.map .net ++ [.close]⟩ := by
  obtain ⟨r, hv, hlt, -⟩ := recvLoop_short s (a := 0) h
  have hr : ((recvBuf 0 (Int32.ofNat headLen) s).relabel PullEffect.net).value = some r := hv
  unfold receiveFrame
  rw [bind_some hr, if_pos (Int.ne_of_lt hlt)]
  rfl

/-- The head arrives: what is left to do. -/
theorem frame_head (h : headLen ≤ (arrives s).flatten.length) :
    ∃ s₁, (arrives s₁).flatten = (arrives s).flatten.drop headLen ∧ receiveFrame buffer s =
      let buffer := buffer.write 0 ((arrives s).flatten.take headLen)
      let len := UInt32.ofNat (word32 (arrives s).flatten 0)
      let rest : Traced PullEffect (Option (Mem × List Received)) := do
        let q ← (recvBuf headLen len.toInt32 s₁).relabel .net
        if UInt32.ofInt q.1 ≠ len then
          emit .close
          pure none
        else
          let buffer := buffer.write headLen q.2.1
          emit (.callback (len + UInt32.ofNat headLen).toInt32 (buffer.read 0 (headLen + len.toNat)))
          pure (some (buffer, q.2.2))
      ⟨rest.value, (recvLoop 0 headLen s).events.map .net ++ rest.events⟩ := by
  obtain ⟨s₁, hs₁, hv⟩ := recvLoop_whole s (a := 0) h
  have hr : ((recvBuf 0 (Int32.ofNat headLen) s).relabel PullEffect.net).value = some _ := hv
  have hread : (buffer.write 0 ((arrives s).flatten.take headLen)).read 0 4 = (arrives s).flatten.take 4 := by
    have hall := Mem.read_write buffer 0 ((arrives s).flatten.take headLen)
    rw [List.length_take_of_le h] at hall
    rw [Mem.read_take _ 0 (by decide : 4 ≤ headLen), hall, List.take_take]
    rfl
  have hword : word32 ((arrives s).flatten.take 4) 0 = word32 (arrives s).flatten 0 :=
    word32_take (Nat.le_refl 4) (Nat.le_trans (by decide) h)
  refine ⟨s₁, hs₁, ?_⟩
  conv => lhs; unfold receiveFrame
  rw [bind_some hr, if_neg (fun hne => hne rfl)]
  simp only [hread, hword]
  rfl

theorem frame_negative (h : headLen ≤ (arrives s).flatten.length) (hlen : ¬ word32 (arrives s).flatten 0 < 2147483648) :
    receiveFrame buffer s = ⟨some none, (recvLoop 0 headLen s).events.map .net ++ [.close]⟩ := by
  obtain ⟨s₁, -, hframe⟩ := frame_head buffer h
  have hlt := word32_lt (arrives s).flatten 0
  have hne : UInt32.ofInt 0 ≠ UInt32.ofNat (word32 (arrives s).flatten 0) := by
    intro he
    have hnat := congrArg UInt32.toNat he
    rw [UInt32.toNat_ofNat_of_lt' hlt] at hnat
    exact hlen (hnat ▸ by decide)
  rw [hframe]
  dsimp only
  have hnone : ((pure (0, [], s₁) : Traced Access (ℤ × List UInt8 × List Received)).relabel PullEffect.net).value =
      some (0, [], s₁) := rfl
  rw [recvBuf_negative (Nat.not_lt.mp hlen) hlt, bind_some hnone, if_pos hne]
  rfl

theorem frame_cut (h : headLen ≤ (arrives s).flatten.length) (hlen : word32 (arrives s).flatten 0 < 2147483648)
    (hcut : (arrives s).flatten.length < headLen + word32 (arrives s).flatten 0) :
    ∃ s₁, (arrives s₁).flatten = (arrives s).flatten.drop headLen ∧ receiveFrame buffer s =
      ⟨some none, (recvLoop 0 headLen s).events.map .net ++
        ((recvLoop headLen (word32 (arrives s).flatten 0) s₁).events.map .net ++ [.close])⟩ := by
  obtain ⟨s₁, hs₁, hframe⟩ := frame_head buffer h
  have hshort : (arrives s₁).flatten.length < word32 (arrives s).flatten 0 := by
    rw [hs₁, List.length_drop]
    omega
  obtain ⟨r, hv, hlt, hge⟩ := recvLoop_short s₁ (a := headLen) hshort
  refine ⟨s₁, hs₁, ?_⟩
  rw [hframe]
  dsimp only
  rw [recvBuf_of_lt hlen, bind_some (x := (recvLoop headLen (word32 (arrives s).flatten 0) s₁).relabel PullEffect.net) hv,
    if_pos (ofInt_ne hge hlt hlen)]
  rfl

theorem frame_whole (h : headLen + word32 (arrives s).flatten 0 ≤ (arrives s).flatten.length)
    (hlen : word32 (arrives s).flatten 0 < 2147483648) :
    ∃ s₁ s₂ data, (arrives s₁).flatten = (arrives s).flatten.drop headLen ∧
      (arrives s₂).flatten = (arrives s).flatten.drop (headLen + word32 (arrives s).flatten 0) ∧ receiveFrame buffer s =
        ⟨some (some (data, s₂)), (recvLoop 0 headLen s).events.map .net ++
          ((recvLoop headLen (word32 (arrives s).flatten 0) s₁).events.map .net ++
            [.callback (Int32.ofNat (headLen + word32 (arrives s).flatten 0))
              ((arrives s).flatten.take (headLen + word32 (arrives s).flatten 0))])⟩ := by
  have hhead : headLen ≤ (arrives s).flatten.length := Nat.le_trans (Nat.le_add_right ..) h
  obtain ⟨s₁, hs₁, hframe⟩ := frame_head buffer hhead
  have hbody : word32 (arrives s).flatten 0 ≤ (arrives s₁).flatten.length := by
    rw [hs₁, List.length_drop]
    omega
  obtain ⟨s₂, hs₂, hv⟩ := recvLoop_whole s₁ (a := headLen) hbody
  have hdata : (buffer.write 0 ((arrives s).flatten.take headLen)).write headLen
      ((arrives s₁).flatten.take (word32 (arrives s).flatten 0)) =
      buffer.write 0 ((arrives s).flatten.take (headLen + word32 (arrives s).flatten 0)) := by
    have happ := Mem.write_write_append buffer 0 ((arrives s).flatten.take headLen)
      ((arrives s₁).flatten.take (word32 (arrives s).flatten 0))
    rw [List.length_take_of_le hhead, Nat.zero_add] at happ
    rw [happ, hs₁, ← List.take_add]
  have hread : (buffer.write 0 ((arrives s).flatten.take (headLen + word32 (arrives s).flatten 0))).read 0
      (headLen + word32 (arrives s).flatten 0) = (arrives s).flatten.take (headLen + word32 (arrives s).flatten 0) := by
    have hall := Mem.read_write buffer 0 ((arrives s).flatten.take (headLen + word32 (arrives s).flatten 0))
    rwa [List.length_take_of_le h] at hall
  have hnat : (UInt32.ofNat (word32 (arrives s).flatten 0)).toNat = word32 (arrives s).flatten 0 :=
    UInt32.toNat_ofNat_of_lt' (word32_lt ..)
  have hcalled : (UInt32.ofNat (word32 (arrives s).flatten 0) + UInt32.ofNat headLen).toInt32 =
      Int32.ofNat (headLen + word32 (arrives s).flatten 0) := by
    rw [← UInt32.ofNat_add, Nat.add_comm]
    rfl
  have hsame : UInt32.ofInt (word32 (arrives s).flatten 0 : ℤ) = UInt32.ofNat (word32 (arrives s).flatten 0) := by
    apply UInt32.toNat_inj.mp
    rw [UInt32.ofInt, UInt32.toNat_ofNat', UInt32.toNat_ofNat']
    omega
  refine ⟨s₁, s₂, buffer.write 0 ((arrives s).flatten.take (headLen + word32 (arrives s).flatten 0)), hs₁, ?_, ?_⟩
  · rw [hs₂, hs₁, List.drop_drop]
  · rw [hframe]
    dsimp only
    rw [recvBuf_of_lt hlen, bind_some (x := (recvLoop headLen (word32 (arrives s).flatten 0) s₁).relabel PullEffect.net) hv,
      if_neg (not_not.mpr hsame)]
    simp only [hdata, hnat, hread, hcalled]
    rfl

/-- What a turn does from the first receive on. -/
theorem receiveFrame_spec (s : List Received) : ∃ nets : List Access,
    ((∀ x ∈ nets, x.Within 0 netVideoBuf) ↔ FrameFits (arrives s).flatten) ∧
    (¬ FrameWhole (arrives s).flatten ∧ receiveFrame buffer s = ⟨some none, nets.map .net ++ [.close]⟩ ∨
      FrameWhole (arrives s).flatten ∧ ∃ data s₂,
        (arrives s₂).flatten = (arrives s).flatten.drop (headLen + word32 (arrives s).flatten 0) ∧
        receiveFrame buffer s = ⟨some (some (data, s₂)), nets.map .net ++
          [.callback (Int32.ofNat (headLen + word32 (arrives s).flatten 0))
            ((arrives s).flatten.take (headLen + word32 (arrives s).flatten 0))]⟩) := by
  have hbody {s₁ : List Received} (hs₁ : (arrives s₁).flatten = (arrives s).flatten.drop headLen)
      (h : headLen ≤ (arrives s).flatten.length) (hlen : word32 (arrives s).flatten 0 < 2147483648) :
      (∀ x ∈ (recvLoop 0 headLen s).events ++ (recvLoop headLen (word32 (arrives s).flatten 0) s₁).events,
        x.Within 0 netVideoBuf) ↔ FrameFits (arrives s).flatten := by
    have hiff := recvLoop_within_iff s₁ (n := word32 (arrives s).flatten 0) (by decide : headLen ≤ netVideoBuf)
    rw [hs₁, List.length_drop] at hiff
    rw [List.forall_mem_append, and_iff_right (head_within s), hiff]
    exact ⟨fun hle _ _ => hle, fun hfits => hfits h hlen⟩
  by_cases h : headLen ≤ (arrives s).flatten.length
  swap
  · exact ⟨_, iff_of_true (head_within s) fun hle => absurd hle h,
      .inl ⟨fun hw => h hw.1, frame_short buffer (Nat.not_le.mp h)⟩⟩
  by_cases hlen : word32 (arrives s).flatten 0 < 2147483648
  swap
  · exact ⟨_, iff_of_true (head_within s) fun _ hlt => absurd hlt hlen,
      .inl ⟨fun hw => hlen hw.2.1, frame_negative buffer h hlen⟩⟩
  by_cases hall : headLen + word32 (arrives s).flatten 0 ≤ (arrives s).flatten.length
  · obtain ⟨s₁, s₂, data, hs₁, hs₂, hframe⟩ := frame_whole buffer hall hlen
    refine ⟨_, hbody hs₁ h hlen, .inr ⟨⟨h, hlen, hall⟩, data, s₂, hs₂, ?_⟩⟩
    rw [hframe, List.map_append, List.append_assoc]
  · obtain ⟨s₁, hs₁, hframe⟩ := frame_cut buffer h hlen (Nat.not_le.mp hall)
    refine ⟨_, hbody hs₁ h hlen, .inl ⟨fun hw => hall hw.2.2, ?_⟩⟩
    rw [hframe, List.map_append, List.append_assoc]

/-! ## The thread -/

section
variable {l : Look} (ls : List Look) (s)

theorem turn_closes (h : l.poll < 0) : PullThread (l :: ls) buffer s = emit .close := by
  rw [PullThread, if_pos h]

theorem turn_quiet (h : ¬ l.poll < 0) (hl : l.Ready = false) : PullThread (l :: ls) buffer s = PullThread ls buffer s := by
  have hquiet : ¬ (l.poll > 0 ∧ l.used ∧ l.buffer) := of_decide_eq_false hl
  rw [PullThread, if_neg h]
  by_cases h₀ : l.poll = 0
  · rw [if_pos h₀]
  by_cases hu : l.used
  · have hb : ¬ l.buffer := fun hb => hquiet ⟨by omega, hu, hb⟩
    rw [if_neg h₀, if_neg (not_not.mpr hu), if_pos hb]
  · rw [if_neg h₀, if_pos hu]

theorem turn_ready (hl : l.Ready = true) : PullThread (l :: ls) buffer s = (do
    match ← receiveFrame buffer s with
    | none => pure ()
    | some (buffer, s) => PullThread ls buffer s) := by
  obtain ⟨hp, hu, hb⟩ : l.poll > 0 ∧ l.used ∧ l.buffer := of_decide_eq_true hl
  rw [PullThread, if_neg (by omega), if_neg (by omega), if_neg (not_not.mpr hu), if_neg (not_not.mpr hb)]

end

theorem net_stays {nets : List Access} :
    (∀ e ∈ nets.map PullEffect.net, e.InBuffer) ↔ ∀ x ∈ nets, x.Within 0 netVideoBuf := by
  simp only [List.forall_mem_map]
  rfl

theorem turns_stay_iff : ∀ (ls : List Look) (buffer : Mem) (s : List Received),
    (∀ e ∈ (PullThread ls buffer s).events, e.InBuffer) ↔ AllFit ls (arrives s).flatten
  | [], _, _ => iff_of_true nofun trivial
  | l :: ls, buffer, s => by
    unfold AllFit
    by_cases hp : l.poll < 0
    · rw [turn_closes buffer s ls hp, if_pos hp]
      exact iff_of_true (fun e he => List.mem_singleton.mp he ▸ trivial) trivial
    rw [if_neg hp]
    cases hl : l.Ready with
    | false =>
      rw [turn_quiet buffer s ls hp hl]
      exact turns_stay_iff ls buffer s
    | true =>
      obtain ⟨nets, hnets, hframe⟩ := receiveFrame_spec buffer s
      rw [turn_ready buffer s ls hl, if_pos rfl, ← hnets, ← net_stays]
      rcases hframe with ⟨hw, hframe⟩ | ⟨hw, data, s₂, hs₂, hframe⟩
      · rw [bind_some (by rw [hframe]), hframe]
        dsimp only
        rw [events_pure, List.append_nil, List.forall_mem_append, List.forall_mem_singleton]
        exact and_congr_right fun _ => iff_of_true trivial fun h => absurd h hw
      · have hrest := turns_stay_iff ls data s₂
        rw [hs₂] at hrest
        rw [bind_some (by rw [hframe]), hframe]
        dsimp only
        rw [List.forall_mem_append, List.forall_mem_append, List.forall_mem_singleton, hrest]
        exact ⟨fun h => ⟨h.1.1, fun _ => h.2⟩, fun h => ⟨⟨h.1, trivial⟩, h.2 hw⟩⟩

theorem shown_nets (nets : List Access) : (nets.map PullEffect.net).filterMap PullEffect.shown? = [] := by
  induction nets with
  | nil => rfl
  | cons x nets ih => exact ih

/-- One more frame in front. -/
theorem DeliversOrEnds.cons {l : Look} {ls : List Look} {f bs : List UInt8} {t t' : Traced PullEffect Unit}
    (h : DeliversOrEnds ls bs t) (hl : l.Ready = true)
    (hf : headLen ≤ f.length ∧ f.length = headLen + word32 f 0 ∧ (Int32.ofNat f.length).toInt = f.length)
    (hshown : shown t' = .callback (Int32.ofNat f.length) f :: shown t) : DeliversOrEnds (l :: ls) (f ++ bs) t' := by
  obtain ⟨fs, rest, hbytes, hfs, hended⟩ := h
  refine ⟨f :: fs, rest, ?_, List.forall_mem_cons.mpr ⟨hf, hfs⟩, ?_⟩
  · rw [List.flatten_cons, List.append_assoc, ← hbytes]
  · have hcount : (l :: ls).countP Look.Ready = ls.countP Look.Ready + 1 := List.countP_cons_of_pos hl
    rw [hshown, List.map_cons, List.length_cons, hcount]
    rcases hended with ⟨hall, hn⟩ | hend
    · exact .inl ⟨congrArg _ hall, congrArg _ hn⟩
    · exact .inr (congrArg _ hend)

theorem whole_frame {bs : List UInt8} (hw : FrameWhole bs) (hfits : FrameFits bs) :
    let f := bs.take (headLen + word32 bs 0)
    headLen ≤ f.length ∧ f.length = headLen + word32 f 0 ∧ (Int32.ofNat f.length).toInt = f.length := by
  have hlength := List.length_take_of_le hw.2.2
  have hroom := hfits hw.1 hw.2.1
  have hsmall : headLen + word32 bs 0 < 2 ^ 31 := by
    have hmax : netVideoBuf < 2 ^ 31 := by decide
    have hall := hw.2.2
    omega
  dsimp only
  rw [hlength, word32_take (Nat.le_trans (by decide) (Nat.le_add_right headLen _)) hw.2.2]
  exact ⟨Nat.le_add_right .., rfl, Int32.toInt_ofNat_of_lt hsmall⟩

theorem turns_deliver : ∀ (ls : List Look) (buffer : Mem) (s : List Received), AllFit ls (arrives s).flatten →
    DeliversOrEnds ls (arrives s).flatten (PullThread ls buffer s)
  | [], _, _, _ => ⟨[], _, rfl, nofun, .inl ⟨rfl, rfl⟩⟩
  | l :: ls, buffer, s, hfit => by
    unfold AllFit at hfit
    by_cases hp : l.poll < 0
    · rw [turn_closes buffer s ls hp]
      exact ⟨[], _, rfl, nofun, .inr rfl⟩
    rw [if_neg hp] at hfit
    cases hl : l.Ready with
    | false =>
      have hcount : (l :: ls).countP Look.Ready = ls.countP Look.Ready := List.countP_cons_of_neg (by rw [hl]; decide)
      rw [hl, if_neg (by decide)] at hfit
      rw [turn_quiet buffer s ls hp hl, DeliversOrEnds, hcount]
      exact turns_deliver ls buffer s hfit
    | true =>
      rw [hl, if_pos rfl] at hfit
      obtain ⟨nets, -, hframe⟩ := receiveFrame_spec buffer s
      rw [turn_ready buffer s ls hl]
      rcases hframe with ⟨-, hframe⟩ | ⟨hw, data, s₂, hs₂, hframe⟩
      · refine ⟨[], _, rfl, nofun, .inr ?_⟩
        rw [bind_some (by rw [hframe]), hframe]
        dsimp only [shown]
        rw [events_pure, List.append_nil, List.filterMap_append, shown_nets]
        rfl
      · have hrest := hfit.2 hw
        rw [← hs₂] at hrest
        have hbytes := List.take_append_drop (headLen + word32 (arrives s).flatten 0) (arrives s).flatten
        rw [← hs₂] at hbytes
        rw [← hbytes]
        refine (turns_deliver ls data s₂ hrest).cons hl (whole_frame hw hfit.1) ?_
        rw [List.length_take_of_le hw.2.2, bind_some (by rw [hframe]), hframe]
        dsimp only [shown]
        rw [List.filterMap_append, List.filterMap_append, shown_nets]
        rfl

/-- **The buffer of a pull stream.** The thread stays in it, and hands on whole frames or ends, if and only if what arrives
of each frame has room. -/
theorem buffer_safe_iff (ls : List Look) (buffer : Mem) (s : List Received) :
    BufferSafe ls buffer s ↔ AllFit ls (arrives s).flatten :=
  ⟨fun h => (turns_stay_iff ls buffer s).mp h.1, fun h => ⟨(turns_stay_iff ls buffer s).mpr h, turns_deliver ls buffer s h⟩⟩

/-- A frame of `n` zeros. -/
def zeroFrame (n : ℕ) : List UInt8 := le32 n ++ List.replicate 28 0 ++ List.replicate n 0

theorem zeroFrame_length (n : ℕ) : (zeroFrame n).length = headLen + n := by
  simp [zeroFrame, headLen]
  omega

theorem zeroFrame_word {n : ℕ} (hn : n < 4294967296) : word32 (zeroFrame n) 0 = n := by
  rw [zeroFrame, List.append_assoc, word32_append_left (Nat.le_refl 4), word32_le32 hn]

/-- A frame one byte too long for the buffer. -/
theorem buffer_overrun : ¬ BufferSafe [⟨1, true, true⟩] (fun _ => 0) [.bytes (zeroFrame 819169)] := by
  have hne : zeroFrame 819169 ≠ [] := List.ne_nil_of_length_pos (by rw [zeroFrame_length]; decide)
  have harrive : (arrives [.bytes (zeroFrame 819169)]).flatten = zeroFrame 819169 := by
    rw [arrives_bytes hne]
    exact List.append_nil _
  rw [buffer_safe_iff, harrive]
  intro h
  have hfits := h.1 (by rw [zeroFrame_length]; omega) (by rw [zeroFrame_word (by decide)]; decide)
  rw [zeroFrame_word (by decide), zeroFrame_length, Nat.add_sub_cancel_left, Nat.min_self] at hfits
  exact absurd hfits (by decide)

end PullStream

end SabApp
