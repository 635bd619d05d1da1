import SabApp.PullSteps
import SabApp.Runs

/-!
# What the threads of one pull stream owe to another (PullStream.c)

A step is `Apart` if a thread goes on and takes its buffer as its own entry says, and no process touches the
entry, the socket or the buffer of a stream in another entry.
-/

namespace SabApp

namespace PullStream

/-- The descriptors that a process has, or will look up. -/
def Proc.Uses (s : Shared) (p : Proc) (f : ℕ) : Prop :=
  p.held = some f ∨ ∃ m, p.pending = some m ∧ (s.scMng m).sock = f

instance (s : Shared) (p : Proc) (f : ℕ) : Decidable (p.Uses s f) := inferInstanceAs (Decidable (_ ∨ ∃ _, _ ∧ _))

/-- No stream in another entry has the number that is written in this one. -/
def Shared.Current (s : Shared) (k : Fin 2) : Prop := ∀ j, s.home (s.scMng k).sock = some j → j = k

instance (s : Shared) (k : Fin 2) : Decidable (s.Current k) := inferInstanceAs (Decidable (∀ _, _ → _))

/-- The next step of a process leaves the streams in other entries alone and is not aborted, and where it is a
thread's, it goes on and takes its buffer as its own entry says. -/
structure Apart (s : Shared) (p : Proc) (o : Outcome) : Prop where
  own : ∀ k g pc, p = .pullThread k g pc →
    pullThread (s.scMng 0) (s.scMng k) pc o = pullThread (s.scMng k) (s.scMng k) pc o
  socket : ∀ f, p.descriptor s = some f → ∀ k, s.home f = some k → p.entry = some k
  written : ∀ b n, p.written = some (b, n) → n ≤ netVideoBuf ∧ ∀ k, (s.scMng k).buffer = some b → p.entry = some k
  freed : ∀ m b, p.frees = some m → (s.scMng m).buffer = some b → ∀ k, (s.scMng k).buffer = some b → p.entry = some k
  rows : ∃ r, react s p o = some r ∧ ∀ k, p.entry ≠ some k → r.1.scMng k = s.scMng k

namespace World

def Independent (w : World) : Act → Prop
  | .run i o => ∀ p, w.procs[i]? = some p → Apart w.shared p o
  | _ => True

/-- The guard on the next step of a process. -/
def Separate (w : World) : Proc → Outcome → Prop
  | .pullThread k _ .testUsed, _ => (w.shared.scMng 0).used = (w.shared.scMng k).used
  | .pullThread k _ .testBuffer, _ => (w.shared.scMng 0).buffer.isSome = (w.shared.scMng k).buffer.isSome
  | .pullThread k _ .body, .number len =>
    (w.shared.scMng k).buffer.isSome ∧ (len < 2 ^ 31 → headLen + len ≤ netVideoBuf)
  | .pullThread k _ .body, _ => (w.shared.scMng k).buffer.isSome
  | .pullThread k _ (.closing id (.findSc (some _) j)), _ =>
    (w.shared.scMng j).handle = id → j = k ∧ w.shared.Current j
  | .pullThread _ _ (.closing _ (.freeBuf _ m)), _ => w.shared.Freeable m
  | .closeStream id (.findSc (some _) j), _ => (w.shared.scMng j).handle = id → w.shared.Current j
  | .closeStream _ (.freeBuf _ m), _ => w.shared.Freeable m
  | .openStream _ (.take _ f k), _ => w.shared.Current k ∧ ∀ q ∈ w.procs, q.entry ≠ some k → ¬ q.Uses w.shared f
  | .openStream _ (.malloc _ _ k _ _), .number b =>
    (∀ j, (w.shared.scMng j).buffer = some b → j = k) ∧
      ∀ q ∈ w.procs, q.written.map Prod.fst = some b → q.entry = some k
  | .openStream _ (.undo k _), _ => w.shared.Freeable k
  | _, _ => True

def Within (w : World) : Act → Prop
  | .run i o => ∀ p ∈ w.procs[i]?, w.Separate p o
  | _ => True

instance (w : World) (p : Proc) (o : Outcome) : Decidable (w.Separate p o) := by
  unfold Separate
  split <;> infer_instance

instance (w : World) : ∀ a, Decidable (w.Within a)
  | .run i o => inferInstanceAs (Decidable (∀ p ∈ w.procs[i]?, w.Separate p o))
  | .openStream _ => isTrue trivial
  | .closeStream _ => isTrue trivial

end World

open Shared

/-! ## What the guard keeps -/

section
variable {s t : Shared} {p : Proc} {f : ℕ}

theorem Shrinks.current (h : Shrinks s t) {k : Fin 2} (hk : s.Current k) : t.Current k := by
  intro j hj
  rw [h.sock] at hj
  exact hk j (h.home _ j hj)

theorem Shrinks.uses (h : Shrinks s t) (hp : p.Uses t f) : p.Uses s f := by
  rcases hp with hp | ⟨m, hm, rfl⟩
  · exact .inl hp
  · exact .inr ⟨m, hm, (h.sock m).symm⟩

theorem Proc.Uses.of_descriptor (h : p.descriptor s = some f) : p.Uses s f := by
  cases p with
  | openStream ch pc => exact .inl h
  | closeStream id pc => exact .inr (Option.map_eq_some_iff.mp h)
  | pullThread k g pc =>
    cases pc with
    | top => exact .inr ⟨k, rfl, Option.some.inj h⟩
    | closing id pc => exact .inr (Option.map_eq_some_iff.mp h)
    | recvHead | recvBody => exact .inl h
    | testUsed | testBuffer | head | body | callback | giveUp | ended => cases h

/-- The entry of `scMng` that a process changes. -/
def Proc.found : Proc → Option (Fin 2)
  | .openStream _ pc => pc.entry
  | .closeStream _ pc => pc.found
  | .pullThread _ _ pc => pc.close?.bind ClosePc.found

theorem Proc.found_of_frees {m : Fin 2} (h : p.frees = some m) : p.found = some m := by
  have hclose : ∀ {c : ClosePc}, c.frees = some m → c.found = some m := by
    rintro ⟨⟩ hc <;> cases hc
    rfl
  cases p with
  | openStream ch pc => cases pc <;> cases h; rfl
  | closeStream id pc => exact hclose h
  | pullThread k g pc =>
    obtain ⟨c, hc, hm⟩ := Option.bind_eq_some_iff.mp h
    exact Option.bind_eq_some_iff.mpr ⟨c, hc, hclose hm⟩

structure Fits (s : Shared) (p : Proc) : Prop where
  uses : ∀ f, p.Uses s f → ∀ k, s.home f = some k → p.entry = some k
  written : ∀ b n, p.written = some (b, n) → n ≤ netVideoBuf ∧ ∀ k, (s.scMng k).buffer = some b → p.entry = some k
  found : ∀ m, p.found = some m → p.entry = some m
  pending : ∀ m, p.pending = some m → p.entry = some m
  /-- Handle 0 is the first entry's. -/
  first : ∀ id a, p = .closeStream id (.findSc a 1) → id ≠ 0

structure Rows (s : Shared) : Prop where
  handle : ∀ k, (s.scMng k).handle = 0 ∨ (s.scMng k).handle = k.val
  buffer : ∀ b j k, (s.scMng j).buffer = some b → (s.scMng k).buffer = some b → j = k

theorem Fits.current {k : Fin 2} (hp : Fits s p) (hk : p.pending = some k) : s.Current k := by
  intro j hj
  have := hp.uses _ (.inr ⟨k, hk, rfl⟩) j hj
  exact Option.some.inj (this.symm.trans (hp.pending k hk))

theorem Shrinks.fits (h : Shrinks s t) (hp : Fits s p) : Fits t p := by
  refine ⟨fun f hf k hk => ?_, fun b n hw => ?_, hp.found, hp.pending, hp.first⟩
  · exact hp.uses f (h.uses hf) k (h.home f k hk)
  · obtain ⟨hn, hb⟩ := hp.written b n hw
    exact ⟨hn, fun k hk => hb k (h.buffer k b hk)⟩

theorem Shrinks.rows (h : Shrinks s t) (hs : Rows s) : Rows t := by
  refine ⟨fun k => ?_, fun b j k hj hk => hs.buffer b j k (h.buffer j b hj) (h.buffer k b hk)⟩
  rcases h.handle k with hk | hk
  · rw [hk]
    exact hs.handle k
  · exact .inr hk

/-! ## Closing -/

section Closing

variable {id : ℤ} {pc q : ClosePc}

theorem Rows.entry (hs : Rows s) {m : Fin 2} (hid : (s.scMng m).handle = id) (h1 : m = 1 → id ≠ 0) :
    (Proc.closeStream id pc).entry = some m := by
  have hval : id = m.val := by
    rcases hs.handle m with h0 | hm
    · by_cases hm : m = 0
      · rw [← hid, h0, hm]
        rfl
      · exact absurd (hid.symm.trans h0) (h1 (by omega))
    · exact hid.symm.trans hm
  by_cases hm : m = 0
  · subst hm
    subst hval
    rfl
  · obtain rfl : m = 1 := by omega
    subst hval
    rfl

/-- The entry that it goes on with is its own, and has no other entry's socket. -/
theorem fits_of_close (hheld : p.held = none) (hwritten : p.written = none)
    (hcur : ∀ m, p.pending = some m → t.Current m ∧ p.entry = some m) (hfound : ∀ m, p.found = some m → p.entry = some m)
    (hfirst : ∀ id a, p = .closeStream id (.findSc a 1) → id ≠ 0) : Fits t p := by
  refine ⟨fun f hf k hk => ?_, fun b n hw => ?_, hfound, fun m hm => (hcur m hm).2, hfirst⟩
  · rcases hf with hf | ⟨m, hm, rfl⟩
    · rw [hheld] at hf
      cases hf
    · obtain ⟨hcur, hentry⟩ := hcur m hm
      rw [hcur k hk]
      exact hentry
  · rw [hwritten] at hw
    cases hw

theorem current_closeStream (h : s.closeStream id pc = some (t, q)) (hold : ∀ m, pc.pending = some m → s.Current m)
    (hc : ∀ a j, pc = .findSc (some a) j → (s.scMng j).handle = id → s.Current j) {m : Fin 2} (hm : q.pending = some m) :
    t.Current m := by
  apply (closeStream_shrinks h).1.current
  rcases closeStream_pending h hm with hpend | ⟨hid, a, rfl⟩
  · exact hold m hpend
  · exact hc a m rfl hid

/-- A `closeStream` finds the entry of its handle, and a thread's is to find its own. -/
theorem fits_closeStream (hp : Fits s (.closeStream id pc)) (hs : Rows s)
    (hc : ∀ a j, pc = .findSc (some a) j → (s.scMng j).handle = id → s.Current j)
    (h : s.closeStream id pc = some (t, q)) : Fits t (.closeStream id q) := by
  have hfound : ∀ m, q.found = some m → (Proc.closeStream id pc).entry = some m := by
    intro m hm
    rcases closeStream_found h hm with hf | ⟨hid, a, rfl⟩
    · exact hp.found m hf
    · apply hs.entry hid
      rintro rfl
      exact hp.first id (some a) rfl
  refine fits_of_close rfl rfl (fun m hm => ?_) hfound ?_
  · exact ⟨current_closeStream h (fun _ => hp.current) hc hm, hfound m (ClosePc.found_of_pending hm)⟩
  · rintro _ a ⟨⟩ rfl
    have h0 : (s.scMng 0).handle = 0 := by rcases hs.handle 0 with h0 | h0 <;> exact h0
    exact closeStream_first h h0

theorem fits_closing {k : Fin 2} {g : ℕ} (hp : Fits s (.pullThread k g (.closing id pc)))
    (hc : ∀ a j, pc = .findSc (some a) j → (s.scMng j).handle = id → j = k ∧ s.Current j)
    (h : s.closeStream id pc = some (t, q)) : Fits t (.pullThread k g (.close id q)) := by
  have hfound : ∀ m, q.found = some m → some k = some m := by
    intro m hm
    rcases closeStream_found h hm with hf | ⟨hid, a, rfl⟩
    · exact hp.found m hf
    · rw [(hc a m rfl hid).1]
  by_cases hq : q = .done
  · subst hq
    apply fits_of_close rfl rfl
    · rintro m ⟨⟩
    · rintro m ⟨⟩
    · rintro _ a ⟨⟩
  · have hclose : ThreadPc.close id q = .closing id q := by cases q <;> first | rfl | exact absurd rfl hq
    rw [hclose]
    refine fits_of_close rfl rfl (fun m hm => ?_) hfound (by rintro _ a ⟨⟩)
    have hcur := current_closeStream h (fun _ => hp.current) (fun a j hj hid => (hc a j hj hid).2) hm
    exact ⟨hcur, hfound m (ClosePc.found_of_pending hm)⟩

end Closing

end

/-! ## Receiving -/

section Receiving

variable {s : Shared} {tested : ScMng} {k : Fin 2} {g : ℕ} {pc q : ThreadPc} {o : Outcome}

theorem fits_thread (hcur : s.Current k) (hsock : ∀ f, q.sock = some f → ∀ j, s.home f = some j → j = k)
    (hw : ∀ b n, q.written = some (b, n) → n ≤ netVideoBuf ∧ ∀ j, (s.scMng j).buffer = some b → j = k)
    (hq : q.close? = none ∨ q.close? = some (.findAv 0)) : Fits s (.pullThread k g q) := by
  have hpend : ∀ m, (Proc.pullThread k g q).pending = some m → m = k := by
    intro m hm
    cases q with
    | closing id c => rcases hq with hq | hq <;> cases hq; cases hm
    | ended => cases hm
    | top | testUsed | testBuffer | head | recvHead | body | recvBody | callback | giveUp => exact (Option.some.inj hm).symm
  refine ⟨fun f hf j hj => ?_, fun b n hb => ?_, fun m hm => ?_, fun m hm => ?_, by rintro _ a ⟨⟩⟩
  · rcases hf with hf | ⟨m, hm, rfl⟩
    · rw [hsock f hf j hj]
      rfl
    · rw [hpend m hm] at hj
      rw [hcur j hj]
      rfl
  · obtain ⟨hn, hk⟩ := hw b n hb
    exact ⟨hn, fun j hj => by rw [hk j hj]; rfl⟩
  · obtain ⟨c, hc, hm⟩ := Option.bind_eq_some_iff.mp hm
    rcases hq with hq | hq
    · rw [hq] at hc
      cases hc
    · rw [hq] at hc
      cases hc
      cases hm
  · rw [hpend m hm]
    rfl

theorem pending_or (hpc : pc.close? = none) : pc = .ended ∨ (Proc.pullThread k g pc).pending = some k := by
  cases pc with
  | ended => exact .inl rfl
  | closing => cases hpc
  | top | testUsed | testBuffer | head | recvHead | body | recvBody | callback | giveUp => exact .inr rfl

theorem fits_pullThread (hp : Fits s (.pullThread k g pc)) (hs : Rows s) (hpc : pc.close? = none)
    (hlen : ∀ len, pc = .body → o = .number len → len < 2 ^ 31 → headLen + len ≤ netVideoBuf)
    (h : pullThread tested (s.scMng k) pc o = some q) : Fits s (.pullThread k g q) := by
  rcases pending_or (k := k) (g := g) hpc with rfl | hpend
  · cases h
    exact hp
  have hcur := hp.current hpend
  rcases pullThread_cases h with rfl | hq | rfl | ⟨b, len, rfl, rfl, hl, hb, rfl⟩
  · exact hp
  · apply fits_thread hcur _ _ hq.close
    · intro f hf
      rw [hq.sock] at hf
      cases hf
    · intro b n hw
      rw [hq.written] at hw
      cases hw
  · apply fits_thread hcur
    · rintro f ⟨⟩
      exact hcur
    · intro b n hw
      obtain ⟨b', hb, he⟩ := Option.map_eq_some_iff.mp hw
      cases he
      exact ⟨by decide, fun j hj => hs.buffer _ _ _ hj hb⟩
    · exact .inl rfl
  · apply fits_thread hcur
    · rintro f ⟨⟩
      exact hcur
    · rintro b' n ⟨⟩
      exact ⟨hlen len rfl rfl hl, fun j hj => hs.buffer _ _ _ hj hb⟩
    · exact .inl rfl

end Receiving

/-! ## Opening -/

section Opening

variable {s t : Shared} {ch : ℤ} {pc q : OpenPc} {o : Outcome} {new : List Proc}

theorem fits_open (hsock : ∀ f, q.sock = some f → ∀ j, t.home f = some j → q.entry = some j)
    (hseat : ∀ k g, q.seat = some (k, g) → t.Current k) : Fits t (.openStream ch q) := by
  have hentry : ∀ x, q.seat = some x → q.entry = some x.1 := by
    rintro ⟨k, g⟩ hk
    cases q <;> first | (cases hk; rfl) | cases hk
  refine ⟨fun f hf j hj => ?_, ?_, fun _ => id, fun m hm => ?_, by rintro _ a ⟨⟩⟩
  · rcases hf with hf | ⟨m, hm, rfl⟩
    · exact hsock f hf j hj
    · obtain ⟨⟨k, g⟩, hk, rfl⟩ := Option.map_eq_some_iff.mp hm
      rw [hseat k g hk j hj]
      exact hentry _ hk
  · rintro b n ⟨⟩
  · obtain ⟨x, hx, rfl⟩ := Option.map_eq_some_iff.mp hm
    exact hentry x hx

theorem Mild.fits (hm : Mild s t pc q o new) (hp : Fits s (.openStream ch pc)) :
    Fits t (.openStream ch q) ∧ ∀ p ∈ new, Fits t p := by
  have hcur : ∀ k g, pc.seat = some (k, g) → t.Current k := by
    intro k g hk
    exact hm.shrinks.current (hp.current (by rw [Proc.pending, hk]; rfl))
  refine ⟨fits_open (fun f hf j hj => ?_) fun k g hk => hcur k g (hm.seat _ hk), fun p hnew => ?_⟩
  · obtain ⟨hpc, he⟩ := hm.sock f hf j hj
    have hj : pc.entry = some j := hp.uses f (.inl hpc) j (hm.shrinks.home f j hj)
    rcases he with he | he
    · rw [he] at hj
      cases hj
    · rwa [he]
  · obtain ⟨k, g, rfl, hk⟩ := hm.new p hnew
    apply fits_thread (hcur k g hk)
    · rintro f ⟨⟩
    · rintro b n ⟨⟩
    · exact .inl rfl

/-- An entry is taken: the others have nothing to do with its socket. -/
theorem fits_take {a k : Fin 2} {f : ℕ} {r : ScMng} (ht : t = (s.adopt f k).setRow k r) (hcur : s.Current k)
    (hown : ∀ j, s.home f = some j → j = k) (hr : r.sock = (s.scMng k).sock ∧ r.buffer = (s.scMng k).buffer) :
    Fits t (.openStream ch (.malloc a f k (s.gen k + 1) (s.scMng k))) ∧
      ∀ q, (q.entry ≠ some k → ¬ q.Uses s f) → Fits s q → Fits t q := by
  have hhome : ∀ {f' j}, t.home f' = some j → f' = f ∧ j = k ∨ s.home f' = some j := by
    intro f' j hj
    rw [ht] at hj
    exact home_adopt hj
  have hrows : ∀ j, (t.scMng j).sock = (s.scMng j).sock ∧ (t.scMng j).buffer = (s.scMng j).buffer := by
    intro j
    rw [ht]
    by_cases hj : j = k
    · subst hj
      rwa [setRow_self]
    · rw [setRow_of_ne hj]
      exact ⟨rfl, rfl⟩
  refine ⟨fits_open ?_ ?_, fun q hq hf => ?_⟩
  · rintro f' ⟨⟩ j hj
    rcases hhome hj with ⟨-, rfl⟩ | hj
    · rfl
    · rw [hown j hj]
      rfl
  · rintro _ _ ⟨⟩ j hj
    rw [(hrows k).1] at hj
    rcases hhome hj with ⟨-, rfl⟩ | hj
    · rfl
    · exact hcur j hj
  · refine ⟨fun f' hu j hj => ?_, fun b n hb => ?_, hf.found, hf.pending, hf.first⟩
    · have hu : q.Uses s f' := by
        rcases hu with hu | ⟨m, hm, rfl⟩
        · exact .inl hu
        · exact .inr ⟨m, hm, (hrows m).1.symm⟩
      rcases hhome hj with ⟨rfl, rfl⟩ | hj
      · by_contra hne
        exact hq hne hu
      · exact hf.uses f' hu j hj
    · obtain ⟨hn, hk⟩ := hf.written b n hb
      exact ⟨hn, fun j hj => hk j (by rwa [(hrows j).2] at hj)⟩

theorem fits_malloc {k : Fin 2} {b : ℕ} {r : ScMng} {l : List ℕ} (ht : t = { s.setRow k r with live := l })
    (hr : r.sock = (s.scMng k).sock ∧ r.buffer = some b) {q : Proc}
    (hq : q.written.map Prod.fst = some b → q.entry = some k) (hf : Fits s q) : Fits t q := by
  have hhome : ∀ f, t.home f = s.home f := by
    intro f
    rw [ht]
    rfl
  refine ⟨fun f hu j hj => ?_, fun b' n hb => ?_, hf.found, hf.pending, hf.first⟩
  · rw [hhome] at hj
    refine hf.uses f ?_ j hj
    rcases hu with hu | ⟨m, hm, hsock⟩
    · exact .inl hu
    · refine .inr ⟨m, hm, ?_⟩
      rw [← hsock, ht]
      by_cases hmk : m = k
      · subst hmk
        exact hr.1.symm.trans (congrArg ScMng.sock (setRow_self ..).symm)
      · exact congrArg ScMng.sock (setRow_of_ne hmk _).symm
  · obtain ⟨hn, hk⟩ := hf.written b' n hb
    refine ⟨hn, fun j hj => ?_⟩
    rw [ht] at hj
    by_cases hjk : j = k
    · subst hjk
      simp only [setRow_self, hr.2] at hj
      cases hj
      exact hq (by rw [hb]; rfl)
    · simp only [setRow_of_ne hjk] at hj
      exact hk j hj

theorem fits_setSock {k : Fin 2} {f : ℕ} {r : ScMng} (ht : t = s.setRow k r) (hown : ∀ j, s.home f = some j → j = k)
    (hr : r.sock = f ∧ r.buffer = (s.scMng k).buffer) {q : Proc} (hf : Fits s q) : Fits t q := by
  subst ht
  refine ⟨fun f' hu j hj => ?_, fun b n hb => ?_, hf.found, hf.pending, hf.first⟩
  · rw [home_setRow] at hj
    rcases hu with hu | ⟨m, hm, rfl⟩
    · exact hf.uses f' (.inl hu) j hj
    · by_cases hmk : m = k
      · subst hmk
        rw [setRow_self, hr.1] at hj
        rw [hown j hj]
        exact hf.pending m hm
      · rw [setRow_of_ne hmk] at hj
        exact hf.uses _ (.inr ⟨m, hm, rfl⟩) j hj
  · obtain ⟨hn, hk⟩ := hf.written b n hb
    refine ⟨hn, fun j hj => ?_⟩
    by_cases hjk : j = k
    · subst hjk
      rw [setRow_self, hr.2] at hj
      exact hk j hj
    · rw [setRow_of_ne hjk] at hj
      exact hk j hj

theorem Rows.setRow (hs : Rows s) {k : Fin 2} {r : ScMng} (hh : r.handle = (s.scMng k).handle)
    (hb : ∀ b, r.buffer = some b → ∀ j, (s.scMng j).buffer = some b → j = k) : Rows (s.setRow k r) := by
  refine ⟨fun j => ?_, fun b i j hi hj => ?_⟩
  · by_cases hj : j = k
    · subst hj
      rw [setRow_self, hh]
      exact hs.handle j
    · rw [setRow_of_ne hj]
      exact hs.handle j
  · by_cases hik : i = k
    · by_cases hjk : j = k
      · rw [hik, hjk]
      · subst hik
        rw [setRow_self] at hi
        rw [setRow_of_ne hjk] at hj
        exact (hb b hi j hj).symm
    · rw [setRow_of_ne hik] at hi
      by_cases hjk : j = k
      · subst hjk
        rw [setRow_self] at hj
        exact hb b hj i hi
      · rw [setRow_of_ne hjk] at hj
        exact hs.buffer b i j hi hj

end Opening

/-! ## Runs -/

namespace World

variable {w : World} {p : Proc} {o : Outcome} {r : Shared × Proc × List Proc}

theorem fits_openStream {t : Shared} {ch : ℤ} {pc q : OpenPc} {new : List Proc} (hs : Rows w.shared)
    (hf : Fits w.shared (.openStream ch pc)) (hsep : w.Separate (.openStream ch pc) o)
    (h : w.shared.openStream ch pc o = some (t, q, new)) :
    Rows t ∧ Fits t (.openStream ch q) ∧ (∀ q ∈ new, Fits t q) ∧ ∀ q ∈ w.procs, Fits w.shared q → Fits t q := by
  have hown : ∀ f k, pc.sock = some f → pc.entry = some k → ∀ j, w.shared.home f = some j → j = k :=
    fun f k hsock hk j hj => Option.some.inj ((hf.uses f (.inl hsock) j hj).symm.trans hk)
  rcases openStream_cases h with hm | ⟨a, f, k, rfl, ht, rfl, rfl⟩ | ⟨a, f, k, g, r, b, rfl, rfl, ht, rfl, rfl⟩ |
    ⟨a, f, k, rfl, ht, rfl, rfl⟩
  · obtain ⟨hself, hnew⟩ := hm.fits hf
    exact ⟨hm.shrinks.rows hs, hself, hnew, fun q _ => hm.shrinks.fits⟩
  · obtain ⟨hcur, hothers⟩ := hsep
    obtain ⟨hself, hold⟩ := fits_take ht hcur (hown f k rfl rfl) ⟨rfl, rfl⟩
    refine ⟨?_, hself, by simp, fun q hq => hold q (hothers q hq)⟩
    have hadopt : Rows (w.shared.adopt f k) := ⟨hs.handle, hs.buffer⟩
    rw [ht]
    exact hadopt.setRow rfl fun b hb j hj => hs.buffer b j k hj hb
  · obtain ⟨hrow, hothers⟩ := hsep
    refine ⟨?_, ?_, by simp, fun q hq => fits_malloc ht ⟨rfl, rfl⟩ (hothers q hq)⟩
    · have hset : Rows (w.shared.setRow k { w.shared.scMng k with buffer := some b, param := some a }) :=
        hs.setRow rfl (by rintro b' ⟨⟩; exact hrow)
      rw [ht]
      exact ⟨hset.handle, hset.buffer⟩
    · have hf := fits_malloc ht ⟨rfl, rfl⟩ (by rintro ⟨⟩) hf
      exact ⟨hf.uses, hf.written, hf.found, hf.pending, by rintro _ c ⟨⟩⟩
  · refine ⟨?_, ?_, by simp, fun q _ => fits_setSock ht (hown f k rfl rfl) ⟨rfl, rfl⟩⟩
    · rw [ht]
      exact hs.setRow rfl fun b hb j hj => hs.buffer b j k hj hb
    · apply fits_open
      · rintro f' ⟨⟩
      · rintro k' g ⟨⟩

/-- A guarded step. -/
theorem fits_react (hs : Rows w.shared) (hf : Fits w.shared p) (hsep : w.Separate p o)
    (h : react w.shared p o = some r) :
    Rows r.1 ∧ Fits r.1 r.2.1 ∧ (∀ q ∈ r.2.2, Fits r.1 q) ∧ ∀ q ∈ w.procs, Fits w.shared q → Fits r.1 q := by
  rcases react_cases h with ⟨ch, pc, t, q, new, rfl, hopen, rfl⟩ | ⟨id, pc, t, q, rfl, hclose, rfl⟩ |
    ⟨k, g, id, pc, t, q, rfl, hclose, rfl⟩ | ⟨k, g, pc, q, rfl, hpc, hq, rfl⟩
  · exact fits_openStream hs hf hsep hopen
  · have hshrinks := (closeStream_shrinks hclose).1
    refine ⟨hshrinks.rows hs, fits_closeStream hf hs ?_ hclose, by simp, fun q _ => hshrinks.fits⟩
    rintro a j rfl
    exact hsep
  · have hshrinks := (closeStream_shrinks hclose).1
    refine ⟨hshrinks.rows hs, fits_closing hf ?_ hclose, by simp, fun q _ => hshrinks.fits⟩
    rintro a j rfl
    exact hsep
  · refine ⟨hs, fits_pullThread hf hs hpc ?_ hq, by simp, fun _ _ => id⟩
    rintro len rfl rfl
    exact hsep.2

theorem freeable_of_separate (hsep : w.Separate p o) {m : Fin 2} (hm : p.frees = some m) : w.shared.Freeable m := by
  cases p with
  | openStream ch pc => cases pc <;> cases hm; exact hsep
  | closeStream id pc => cases pc <;> cases hm; exact hsep
  | pullThread k g pc =>
    obtain ⟨c, hc, hm⟩ := Option.bind_eq_some_iff.mp hm
    cases pc <;> cases hc
    cases c <;> cases hm
    exact hsep

/-- A guarded step is not aborted, and changes no other entry than its own. -/
theorem rows_of_separate (hf : Fits w.shared p) (hsep : w.Separate p o) :
    ∃ r, react w.shared p o = some r ∧ ∀ k, p.entry ≠ some k → r.1.scMng k = w.shared.scMng k := by
  have hfound : ∀ {k}, p.entry ≠ some k → p.found ≠ some k := fun hk hm => hk (hf.found _ hm)
  cases p with
  | openStream ch pc =>
    obtain ⟨⟨t, q, new⟩, h⟩ := openStream_isSome fun m hm => freeable_of_separate (o := o) hsep hm
    exact ⟨_, by rw [react, h]; rfl, fun k hk => openStream_rows h hk⟩
  | closeStream id pc =>
    obtain ⟨⟨t, q⟩, h⟩ := closeStream_isSome fun m hm => freeable_of_separate hsep hm
    exact ⟨_, by rw [react, h]; rfl, fun k hk => (closeStream_shrinks h).2 k (hfound hk)⟩
  | pullThread k g pc =>
    by_cases hpc : pc.close? = none
    · have hbody : pc = .body → (w.shared.scMng k).buffer.isSome = true := by
        rintro rfl
        cases o with
        | number len => exact hsep.1
        | failed | idle | ok => exact hsep
      obtain ⟨q, h⟩ : ∃ q, pullThread (w.shared.scMng 0) (w.shared.scMng k) pc o = some q := pullThread_isSome hbody
      exact ⟨_, by rw [react_thread hpc, h]; rfl, fun _ _ => rfl⟩
    · cases pc with
      | closing id pc =>
        obtain ⟨⟨t, q⟩, h⟩ := closeStream_isSome fun m hm => freeable_of_separate hsep hm
        exact ⟨_, by rw [react, h]; rfl, fun k hk => (closeStream_shrinks h).2 k (hfound hk)⟩
      | top | testUsed | testBuffer | head | recvHead | body | recvBody | callback | giveUp | ended =>
        exact absurd rfl hpc

theorem apart_of_separate (hs : Rows w.shared) (hf : Fits w.shared p) (hsep : w.Separate p o) :
    Apart w.shared p o := by
  refine ⟨?_, fun f hf' => hf.uses f (.of_descriptor hf'), hf.written, fun m b hm hb k hk => ?_,
    rows_of_separate hf hsep⟩
  · rintro k g pc rfl
    cases pc with
    | testUsed => rw [pullThread, pullThread, show (w.shared.scMng 0).used = _ from hsep]
    | testBuffer => rw [pullThread, pullThread, show (w.shared.scMng 0).buffer.isSome = _ from hsep]
    | recvHead f b => cases b <;> cases o <;> rfl
    | body | recvBody => cases o <;> rfl
    | top | head | callback | giveUp | closing | ended => rfl
  · have hm := hf.found m (Proc.found_of_frees hm)
    rw [hm, hs.buffer b m k hb hk]

/-- While every step is guarded, the streams of the two entries leave each other alone. -/
theorem independent_of_within (acts : List Act) (h : Meets step Within init acts) : Meets step Independent init acts := by
  refine meets_of_meets (I := fun w => Rows w.shared ∧ w.All Fits) ?_ ?_ ?_ h
  · rintro w a t ⟨hs, hf⟩ hw hstep
    cases a with
    | openStream ch =>
      cases hstep
      refine ⟨hs, hf.spawn (fits_open ?_ ?_)⟩
      · rintro f ⟨⟩
      · rintro k g ⟨⟩
    | closeStream id =>
      cases hstep
      refine ⟨hs, hf.spawn ⟨?_, ?_, ?_, ?_, ?_⟩⟩
      · rintro f (hf | ⟨m, hm, -⟩)
        · cases hf
        · cases hm
      · rintro b n ⟨⟩
      · rintro m ⟨⟩
      · rintro m ⟨⟩
      · rintro _ a ⟨⟩
    | run i o =>
      apply Pool.inv_run hs hf hstep
      intro p r hp hr
      exact fits_react hs (hf p (List.mem_of_getElem? hp)) (hw p hp) hr
  · rintro w a ⟨hs, hf⟩ hw
    cases a with
    | run i o => exact fun p hp => apart_of_separate hs (hf p (List.mem_of_getElem? hp)) (hw p hp)
    | openStream | closeStream => trivial
  · exact ⟨⟨fun _ => .inl rfl, fun b j k hb => by cases hb⟩, fun p hp => by cases hp⟩

theorem independent_two_frames :
    Meets step Independent init (opening 0 0 5 1 ++ opening 2 1 6 2 ++ frame 3 ++ frame 1) :=
  independent_of_within _ (by decide)

/-- Two streams are open, and the first is closed: the thread of the other goes on polling, and receives no more. -/
def closedFirst : List Act :=
  opening 0 0 5 1 ++ opening 2 1 6 2 ++ [.closeStream 0] ++ List.replicate 9 (.run 4 .ok) ++ [.run 3 .ok]

theorem other_stops : ¬ ∀ acts, Meets step Independent init acts := by
  intro h
  have hlast := (h (closedFirst ++ [.run 3 .ok])).last rfl
  exact absurd ((hlast (.pullThread 1 1 .testUsed) rfl).own 1 1 .testUsed rfl) (by decide)

end World

end PullStream

end SabApp
