import SabApp.PullThreads

/-!
# What a step of the pull streams does (PullStream.c)

A step of `closeStream` or of a thread gives no stream a socket or a buffer (`Shrinks`), and neither does one of
`openStream`, but where it takes its entry, gets its buffer or writes its socket (`openStream_cases`).
-/

namespace SabApp

namespace PullStream

namespace ClosePc

/-- The entry of `scMng` that was found. -/
def found : ClosePc → Option (Fin 2)
  | .write _ m | .closeFd _ m | .shutFd _ m | .freeBuf _ m | .nullBuf _ m | .unuse _ m => some m
  | .findAv _ | .findSc _ _ | .avFree _ | .done => none

/-- The entry whose socket it still looks up. -/
def pending : ClosePc → Option (Fin 2)
  | .write _ m | .closeFd _ m | .shutFd _ m => some m
  | _ => none

def frees : ClosePc → Option (Fin 2)
  | .freeBuf _ m => some m
  | _ => none

end ClosePc

namespace OpenPc

def entry : OpenPc → Option (Fin 2)
  | .take _ _ k | .malloc _ _ k _ _ | .create _ _ k _ _ | .undo k _ | .setSock _ _ k | .setHandle _ k | .setAv _ k
  | .opened k => some k
  | .findFree _ | .socket _ | .connect _ _ | .search _ _ _ | .failed => none

def sock : OpenPc → Option ℕ
  | .connect _ f | .search _ f _ | .take _ f _ | .malloc _ f _ _ _ | .create _ f _ _ _ | .setSock _ f _ => some f
  | _ => none

/-- The entry on which it will start a thread, and how often it was taken. -/
def seat : OpenPc → Option (Fin 2 × ℕ)
  | .malloc _ _ k g _ | .create _ _ k g _ => some (k, g)
  | _ => none

def frees : OpenPc → Option (Fin 2)
  | .undo k _ => some k
  | _ => none

end OpenPc

namespace ThreadPc

def sock : ThreadPc → Option ℕ
  | .recvHead f _ | .recvBody f _ _ => some f
  | _ => none

/-- The block it receives into, and up to where. -/
def written : ThreadPc → Option (ℕ × ℕ)
  | .recvHead _ b => b.map fun b => (b, headLen)
  | .recvBody _ b len => some (b, headLen + len)
  | _ => none

def close? : ThreadPc → Option ClosePc
  | .closing _ pc => some pc
  | _ => none

end ThreadPc

namespace Proc

/-- The entry of the stream that a process works for. -/
def entry : Proc → Option (Fin 2)
  | .openStream _ pc => pc.entry
  | .closeStream id _ => if id = 0 then some 0 else if id = 1 then some 1 else none
  | .pullThread k _ _ => some k

/-- The descriptor that a process has. -/
def held : Proc → Option ℕ
  | .openStream _ pc => pc.sock
  | .closeStream _ _ => none
  | .pullThread _ _ pc => pc.sock

/-- The entry in which it looks up a descriptor, or the thread that it will start. -/
def pending : Proc → Option (Fin 2)
  | .openStream _ pc => pc.seat.map Prod.fst
  | .closeStream _ pc => pc.pending
  | .pullThread _ _ (.closing _ pc) => pc.pending
  | .pullThread _ _ .ended => none
  | .pullThread k _ _ => some k

/-- The descriptor that the next step works on. -/
def descriptor (s : Shared) : Proc → Option ℕ
  | .openStream _ pc => pc.sock
  | .closeStream _ pc => pc.pending.map fun m => (s.scMng m).sock
  | .pullThread _ _ (.closing _ pc) => pc.pending.map fun m => (s.scMng m).sock
  | .pullThread k _ .top => some (s.scMng k).sock
  | .pullThread _ _ pc => pc.sock

/-- The block that the next step writes into, and up to where. -/
def written : Proc → Option (ℕ × ℕ)
  | .pullThread _ _ pc => pc.written
  | _ => none

/-- The entry whose buffer the next step frees. -/
def frees : Proc → Option (Fin 2)
  | .openStream _ pc => pc.frees
  | .closeStream _ pc => pc.frees
  | .pullThread _ _ pc => pc.close?.bind ClosePc.frees

end Proc

namespace Shared

/-- The entry of the stream whose socket the descriptor is. -/
def home (s : Shared) (f : ℕ) : Option (Fin 2) :=
  match s.fds f with
  | some (.stream k _) => some k
  | _ => none

/-- The buffer of the entry has not been freed. -/
def Freeable (s : Shared) (k : Fin 2) : Prop := ∀ b ∈ (s.scMng k).buffer, b ∈ s.live

instance (s : Shared) (k : Fin 2) : Decidable (s.Freeable k) := inferInstanceAs (Decidable (∀ b ∈ _, b ∈ _))

end Shared

/-! ## What a step leaves alone -/

/-- No descriptor and no buffer comes to a stream, and no entry gets another socket or another handle than its own. -/
structure Shrinks (s t : Shared) : Prop where
  fds : ∀ f k g, t.fds f = some (.stream k g) → s.fds f = some (.stream k g)
  gen : t.gen = s.gen
  sock : ∀ k, (t.scMng k).sock = (s.scMng k).sock
  buffer : ∀ k b, (t.scMng k).buffer = some b → (s.scMng k).buffer = some b
  handle : ∀ k, (t.scMng k).handle = (s.scMng k).handle ∨ (t.scMng k).handle = k.val

namespace Shared

variable {s t : Shared}

@[simp] theorem setRow_self (k : Fin 2) (r : ScMng) : (s.setRow k r).scMng k = r := Function.update_self ..

theorem setRow_of_ne {j k : Fin 2} (h : j ≠ k) (r : ScMng) : (s.setRow k r).scMng j = s.scMng j := Function.update_of_ne h ..

@[simp] theorem home_setRow (k : Fin 2) (r : ScMng) (f : ℕ) : (s.setRow k r).home f = s.home f := rfl

theorem home_eq_some {f : ℕ} {k : Fin 2} : s.home f = some k ↔ ∃ g, s.fds f = some (.stream k g) := by
  unfold home
  split
  · next h => simp [h]
  · next h => exact ⟨fun hk => (by cases hk), fun ⟨g, hg⟩ => (h k g hg).elim⟩

theorem shrinks_of_fds (hfds : t.fds = s.fds) (hgen : t.gen = s.gen) (hrows : t.scMng = s.scMng) : Shrinks s t :=
  ⟨fun f k g h => by rwa [hfds] at h, hgen, fun k => by rw [hrows], fun k b h => by rwa [hrows] at h,
    fun k => .inl (by rw [hrows])⟩

theorem shrinks_refl : Shrinks s s := shrinks_of_fds rfl rfl rfl

theorem shrinks_update (f : ℕ) {o : Option Owner} (ho : o = none ∨ o = some .opening) :
    Shrinks s { s with fds := Function.update s.fds f o } := by
  refine ⟨fun f' k g h => ?_, rfl, fun _ => rfl, fun _ _ => id, fun _ => .inl rfl⟩
  by_cases hf : f' = f
  · subst hf
    simp only [Function.update_self] at h
    rcases ho with rfl | rfl <;> cases h
  · simpa only [Function.update_of_ne hf] using h

theorem shrinks_close (f : ℕ) : Shrinks s (s.close f) := shrinks_update f (.inl rfl)

theorem shrinks_setRow {k : Fin 2} {r : ScMng} (hs : r.sock = (s.scMng k).sock)
    (hb : ∀ b, r.buffer = some b → (s.scMng k).buffer = some b)
    (hh : r.handle = (s.scMng k).handle ∨ r.handle = k.val) : Shrinks s (s.setRow k r) := by
  refine ⟨fun _ _ _ => id, rfl, fun j => ?_, fun j b h => ?_, fun j => ?_⟩
  all_goals
    by_cases hj : j = k
    · subst hj
      simp_all
    · simp_all [setRow_of_ne hj]

theorem free_cases {b : Option ℕ} (h : s.free b = some t) : t.scMng = s.scMng ∧ Shrinks s t := by
  unfold free at h
  split at h
  · cases h
    exact ⟨rfl, shrinks_refl⟩
  · split at h
    · cases h
      exact ⟨rfl, shrinks_of_fds rfl rfl rfl⟩
    · cases h

theorem Freeable.isSome {k : Fin 2} (h : s.Freeable k) : ∃ t, s.free (s.scMng k).buffer = some t := by
  unfold Freeable at h
  unfold free
  cases hb : (s.scMng k).buffer with
  | none => exact ⟨s, rfl⟩
  | some b => exact ⟨_, if_pos (h b hb)⟩

end Shared

open Shared

section
variable {s t : Shared}

theorem Shrinks.home (h : Shrinks s t) (f : ℕ) (k : Fin 2) (hk : t.home f = some k) : s.home f = some k := by
  obtain ⟨g, hg⟩ := home_eq_some.mp hk
  exact home_eq_some.mpr ⟨g, h.fds f k g hg⟩

/-! ## Closing -/

section Closing

variable {id : ℤ} {pc q : ClosePc}

theorem closeStream_shrinks (h : s.closeStream id pc = some (t, q)) :
    Shrinks s t ∧ ∀ k, pc.found ≠ some k → t.scMng k = s.scMng k := by
  cases pc with
  | findAv j | write a m | shutFd a m | done => cases h; exact ⟨shrinks_refl, fun _ _ => rfl⟩
  | findSc a j =>
    have : t = s := by
      simp only [Shared.closeStream] at h
      split at h
      · split at h <;> cases h <;> rfl
      · split at h <;> cases h <;> rfl
    subst this
    exact ⟨shrinks_refl, fun _ _ => rfl⟩
  | closeFd a m => cases h; exact ⟨shrinks_close _, fun _ _ => rfl⟩
  | freeBuf a m =>
    obtain ⟨u, hu, hut⟩ := Option.map_eq_some_iff.mp h
    cases hut
    obtain ⟨hrows, hshrinks⟩ := free_cases hu
    exact ⟨hshrinks, fun k _ => by rw [hrows]⟩
  | nullBuf a m =>
    cases h
    refine ⟨shrinks_setRow rfl (fun b hb => by cases hb) (.inl rfl), fun k hk => ?_⟩
    exact setRow_of_ne (fun e => hk (by rw [e]; rfl)) _
  | unuse a m =>
    cases h
    exact ⟨shrinks_setRow rfl (fun b hb => hb) (.inl rfl), fun k hk => setRow_of_ne (fun e => hk (by rw [e]; rfl)) _⟩
  | avFree a => cases h; exact ⟨shrinks_of_fds rfl rfl rfl, fun _ _ => rfl⟩

/-- The entry it goes on with is the one it had, or has the handle that it looks for. -/
theorem closeStream_found (h : s.closeStream id pc = some (t, q)) {m : Fin 2} (hm : q.found = some m) :
    pc.found = some m ∨ (s.scMng m).handle = id ∧ ∃ a, pc = .findSc (some a) m := by
  cases pc with
  | findAv j =>
    cases h
    split at hm
    · cases hm
    · split at hm <;> cases hm
  | findSc a j =>
    simp only [Shared.closeStream] at h
    split at h
    · next hj =>
      split at h
      · cases h
        cases hm
        exact .inr ⟨hj, _, rfl⟩
      · cases h
        cases hm
    · split at h <;> cases h <;> cases hm
  | freeBuf a m =>
    obtain ⟨u, hu, hut⟩ := Option.map_eq_some_iff.mp h
    cases hut
    split at hm <;> exact .inl hm
  | write | closeFd | shutFd | nullBuf => cases h; exact .inl hm
  | unuse | avFree | done => cases h; cases hm

theorem ClosePc.found_of_pending {m : Fin 2} (h : pc.pending = some m) : pc.found = some m := by
  cases pc with
  | write | closeFd | shutFd => exact h
  | findAv | findSc | freeBuf | nullBuf | unuse | avFree | done => cases h

theorem closeStream_pending (h : s.closeStream id pc = some (t, q)) {m : Fin 2} (hm : q.pending = some m) :
    pc.pending = some m ∨ (s.scMng m).handle = id ∧ ∃ a, pc = .findSc (some a) m := by
  rcases closeStream_found h (ClosePc.found_of_pending hm) with hf | hf
  · left
    cases pc with
    | write | closeFd | shutFd => exact hf
    | freeBuf a m =>
      obtain ⟨u, hu, hut⟩ := Option.map_eq_some_iff.mp h
      cases hut
      split at hm <;> cases hm
    | nullBuf | unuse => cases h; cases hm
    | findAv | findSc | avFree | done => cases hf
  · exact .inr hf

theorem closeStream_first {a : Option (Fin 2)} (h : s.closeStream id pc = some (t, .findSc a 1)) :
    (s.scMng 0).handle ≠ id := by
  cases pc with
  | findAv j =>
    simp only [Shared.closeStream, Option.some.injEq, Prod.mk.injEq] at h
    obtain ⟨-, h⟩ := h
    split at h
    · simp at h
    · split at h <;> simp at h
  | findSc b j =>
    simp only [Shared.closeStream] at h
    split at h
    · split at h <;> simp at h
    · next hj =>
      split at h
      · next h0 => rwa [h0] at hj
      · simp at h
  | freeBuf a m =>
    obtain ⟨u, hu, hut⟩ := Option.map_eq_some_iff.mp h
    simp only [Prod.mk.injEq] at hut
    obtain ⟨-, hut⟩ := hut
    split at hut <;> cases hut
  | write | closeFd | shutFd | nullBuf | unuse | avFree | done => cases h

theorem closeStream_isSome (h : ∀ m, pc.frees = some m → s.Freeable m) :
    ∃ r, s.closeStream id pc = some r := by
  cases pc with
  | findSc a j =>
    simp only [Shared.closeStream]
    split
    · cases a <;> exact ⟨_, rfl⟩
    · split <;> exact ⟨_, rfl⟩
  | freeBuf a m =>
    obtain ⟨t, ht⟩ := (h m rfl).isSome
    exact ⟨_, by rw [Shared.closeStream, ht]; rfl⟩
  | findAv | write | closeFd | shutFd | nullBuf | unuse | avFree | done => exact ⟨_, rfl⟩

end Closing

end

/-! ## Receiving -/

section Receiving

variable {tested own : ScMng} {pc q : ThreadPc} {o : Outcome}

/-- The thread has no descriptor and no block yet, and if it closes, it is at the start of it. -/
structure ThreadPc.Fresh (q : ThreadPc) : Prop where
  sock : q.sock = none
  written : q.written = none
  close : q.close? = none ∨ q.close? = some (.findAv 0)

/-- What a thread receives from, and into, it finds in its entry when the receive starts. -/
theorem pullThread_cases (h : pullThread tested own pc o = some q) :
    q = pc ∨ q.Fresh ∨ q = .recvHead own.sock own.buffer ∨
      ∃ b len, pc = .body ∧ o = .number len ∧ len < 2 ^ 31 ∧ own.buffer = some b ∧ q = .recvBody own.sock b len := by
  cases pc with
  | top =>
    simp only [pullThread] at h
    split at h
    · cases o <;> cases h <;> exact .inr (.inl ⟨rfl, rfl, .inl rfl⟩)
    · cases h
      exact .inr (.inl ⟨rfl, rfl, .inl rfl⟩)
  | testUsed =>
    simp only [pullThread, Option.some.injEq] at h
    split at h <;> cases h <;> exact .inr (.inl ⟨rfl, rfl, .inl rfl⟩)
  | testBuffer =>
    simp only [pullThread, Option.some.injEq] at h
    split at h <;> cases h <;> exact .inr (.inl ⟨rfl, rfl, .inl rfl⟩)
  | head => cases h; exact .inr (.inr (.inl rfl))
  | recvHead f b =>
    cases b with
    | none => cases h; exact .inr (.inl ⟨rfl, rfl, .inl rfl⟩)
    | some b =>
      cases o with
      | idle => cases h; exact .inl rfl
      | failed | ok | number => cases h; exact .inr (.inl ⟨rfl, rfl, .inl rfl⟩)
  | body =>
    cases o with
    | number len =>
      simp only [pullThread] at h
      split at h
      · cases h
      next hb =>
      split at h
      · next hlen => cases h; exact .inr (.inr (.inr ⟨_, len, rfl, rfl, hlen, hb, rfl⟩))
      · split at h <;> cases h <;> exact .inr (.inl ⟨rfl, rfl, .inl rfl⟩)
    | failed | idle | ok =>
      obtain ⟨b, -, rfl⟩ := Option.map_eq_some_iff.mp h
      exact .inl rfl
  | recvBody f b len =>
    cases o with
    | idle => cases h; exact .inl rfl
    | failed | ok | number => cases h; exact .inr (.inl ⟨rfl, rfl, .inl rfl⟩)
  | callback => cases h; exact .inr (.inl ⟨rfl, rfl, .inl rfl⟩)
  | giveUp => cases h; exact .inr (.inl ⟨rfl, rfl, .inr rfl⟩)
  | closing | ended => cases h; exact .inl rfl

theorem pullThread_isSome (h : pc = .body → own.buffer.isSome = true) :
    ∃ q, pullThread tested own pc o = some q := by
  cases pc with
  | top =>
    simp only [pullThread]
    split
    · cases o <;> exact ⟨_, rfl⟩
    · exact ⟨_, rfl⟩
  | recvHead f b => cases b <;> cases o <;> exact ⟨_, rfl⟩
  | body =>
    obtain ⟨b, hb⟩ := Option.isSome_iff_exists.mp (h rfl)
    cases o with
    | number len =>
      simp only [pullThread, hb]
      split
      · exact ⟨_, rfl⟩
      · split <;> exact ⟨_, rfl⟩
    | failed | idle | ok => exact ⟨_, by simp only [pullThread, hb]; rfl⟩
  | recvBody f b len => cases o <;> exact ⟨_, rfl⟩
  | testUsed | testBuffer | head | callback | giveUp | closing | ended => exact ⟨_, rfl⟩

end Receiving

/-! ## Opening -/

section Opening

variable {s t : Shared} {ch : ℤ} {pc q : OpenPc} {o : Outcome} {new : List Proc}

/-- A step of `openStream` that gives no stream a descriptor or a buffer, and no entry a socket. -/
structure Mild (s t : Shared) (pc q : OpenPc) (o : Outcome) (new : List Proc) : Prop where
  shrinks : Shrinks s t
  rows : ∀ k, pc.entry ≠ some k → t.scMng k = s.scMng k
  sock : ∀ f, q.sock = some f → ∀ j, t.home f = some j → pc.sock = some f ∧ (pc.entry = none ∨ q.entry = pc.entry)
  seat : ∀ x, q.seat = some x → pc.seat = some x
  new : ∀ p ∈ new, ∃ k g, p = .pullThread k g .top ∧ pc.seat = some (k, g)
  undo : ∀ k r, q = .undo k r → ∃ a f g, pc = .create a f k g r ∧ o = .failed

/-- It gives up its socket, or has none. -/
theorem mild_of_none (hshrinks : Shrinks s t) (hrows : ∀ k, pc.entry ≠ some k → t.scMng k = s.scMng k)
    (hsock : q.sock = none) (hseat : q.seat = none) (hundo : ∀ k r, q = .undo k r → ∃ a f g, pc = .create a f k g r ∧ o = .failed) :
    Mild s t pc q o [] := by
  refine ⟨hshrinks, hrows, fun f hf => ?_, fun x hx => ?_, by simp, hundo⟩
  · rw [hsock] at hf
    cases hf
  · rw [hseat] at hx
    cases hx

/-- It goes on with the socket that it has. -/
theorem mild_of_sock (hshrinks : Shrinks s t) (hrows : ∀ k, pc.entry ≠ some k → t.scMng k = s.scMng k)
    (hsock : ∀ f, q.sock = some f → pc.sock = some f) (hentry : pc.entry = none ∨ q.entry = pc.entry)
    (hseat : ∀ x, q.seat = some x → pc.seat = some x)
    (hundo : ∀ k r, q ≠ .undo k r) : Mild s t pc q o [] :=
  ⟨hshrinks, hrows, fun f hf _ _ => ⟨hsock f hf, hentry⟩, hseat, by simp, fun k r hq => absurd hq (hundo k r)⟩

theorem openStream_cases (h : s.openStream ch pc o = some (t, q, new)) :
    Mild s t pc q o new ∨
    (∃ a f k, pc = .take a f k ∧ t = (s.adopt f k).setRow k { s.scMng k with used := true, pidFlag := true } ∧
      q = .malloc a f k (s.gen k + 1) (s.scMng k) ∧ new = []) ∨
    (∃ a f k g r b, pc = .malloc a f k g r ∧ o = .number b ∧
      t = { s.setRow k { s.scMng k with buffer := some b, param := some a } with live := b :: s.live } ∧
      q = .create a f k g r ∧ new = []) ∨
    ∃ a f k, pc = .setSock a f k ∧ t = s.setRow k { s.scMng k with sock := f } ∧ q = .setHandle a k ∧ new = [] := by
  have hset : ∀ {k r j}, pc.entry = some k → pc.entry ≠ some j → (s.setRow k r).scMng j = s.scMng j := by
    intro k r j hk hj
    exact setRow_of_ne (fun e => hj (by rw [hk, e])) r
  cases pc with
  | findFree j =>
    left
    simp only [Shared.openStream, Option.some.injEq, Prod.mk.injEq] at h
    obtain ⟨rfl, rfl, rfl⟩ := h
    split
    · exact mild_of_none shrinks_refl (fun _ _ => rfl) rfl rfl (by rintro k r ⟨⟩)
    · split <;> exact mild_of_none shrinks_refl (fun _ _ => rfl) rfl rfl (by rintro k r ⟨⟩)
  | socket a =>
    left
    cases o with
    | number f =>
      simp only [Shared.openStream] at h
      split at h
      · cases h
        refine ⟨shrinks_update f (.inr rfl), fun _ _ => rfl, ?_, by rintro x ⟨⟩, by simp, by rintro k r ⟨⟩⟩
        rintro f' ⟨⟩ j hj
        simp [home] at hj
      · cases h
        exact mild_of_none shrinks_refl (fun _ _ => rfl) rfl rfl (by rintro k r ⟨⟩)
    | failed | idle | ok => cases h; exact mild_of_none shrinks_refl (fun _ _ => rfl) rfl rfl (by rintro k r ⟨⟩)
  | connect a f =>
    left
    cases o with
    | failed => cases h; exact mild_of_none (shrinks_close f) (fun _ _ => rfl) rfl rfl (by rintro k r ⟨⟩)
    | idle | ok | number =>
      cases h
      exact mild_of_sock shrinks_refl (fun _ _ => rfl) (fun _ => id) (.inl rfl) (by rintro x ⟨⟩) (by rintro k r ⟨⟩)
  | search a f j =>
    left
    simp only [Shared.openStream] at h
    split at h
    · cases h
      exact mild_of_sock shrinks_refl (fun _ _ => rfl) (fun _ => id) (.inl rfl) (by rintro x ⟨⟩) (by rintro k r ⟨⟩)
    split at h
    · cases h
      exact mild_of_sock shrinks_refl (fun _ _ => rfl) (fun _ => id) (.inl rfl) (by rintro x ⟨⟩) (by rintro k r ⟨⟩)
    · cases h
      exact mild_of_none (shrinks_close f) (fun _ _ => rfl) rfl rfl (by rintro k r ⟨⟩)
  | take a f k => cases h; exact .inr (.inl ⟨a, f, k, rfl, rfl, rfl, rfl⟩)
  | malloc a f k g r =>
    cases o with
    | number b =>
      simp only [Shared.openStream] at h
      split at h
      · cases h
        exact .inl (mild_of_sock shrinks_refl (fun _ _ => rfl) (fun _ => id) (.inr rfl) (fun _ => id) (by rintro k r ⟨⟩))
      · cases h
        exact .inr (.inr (.inl ⟨a, f, k, g, r, b, rfl, rfl, rfl, rfl, rfl⟩))
    | failed | idle | ok =>
      cases h
      have hshrinks : Shrinks s (s.setRow k { s.scMng k with buffer := none, param := some a }) :=
        shrinks_setRow rfl (by rintro b ⟨⟩) (.inl rfl)
      exact .inl (mild_of_sock hshrinks (fun _ => hset rfl) (fun _ => id) (.inr rfl) (fun _ => id) (by rintro k r ⟨⟩))
  | create a f k g r =>
    left
    cases o with
    | failed =>
      cases h
      apply mild_of_none (shrinks_close f) (fun _ _ => rfl) rfl rfl
      rintro k' r' ⟨⟩
      exact ⟨a, f, g, rfl, rfl⟩
    | idle | ok | number =>
      cases h
      refine ⟨shrinks_refl, fun _ _ => rfl, fun f' hf j _ => ⟨hf, .inr rfl⟩, by rintro x ⟨⟩, ?_, by rintro k' r' ⟨⟩⟩
      intro p hp
      exact ⟨k, g, List.mem_singleton.mp hp, rfl⟩
  | undo k r =>
    obtain ⟨u, hu, hut⟩ := Option.map_eq_some_iff.mp h
    cases hut
    obtain ⟨hrows, hshrinks⟩ := free_cases hu
    exact .inl (mild_of_none hshrinks (fun j _ => by rw [hrows]) rfl rfl (by rintro k r ⟨⟩))
  | setSock a f k => cases h; exact .inr (.inr (.inr ⟨a, f, k, rfl, rfl, rfl, rfl⟩))
  | setHandle a k =>
    cases h
    exact .inl (mild_of_none (shrinks_setRow rfl (fun b hb => hb) (.inr rfl)) (fun _ => hset rfl) rfl rfl (by rintro k r ⟨⟩))
  | setAv a k =>
    cases h
    exact .inl (mild_of_none (shrinks_of_fds rfl rfl rfl) (fun _ _ => rfl) rfl rfl (by rintro k r ⟨⟩))
  | opened | failed => cases h; exact .inl (mild_of_none shrinks_refl (fun _ _ => rfl) rfl rfl (by rintro k r ⟨⟩))

theorem openStream_rows (h : s.openStream ch pc o = some (t, q, new)) {k : Fin 2} (hk : pc.entry ≠ some k) : t.scMng k = s.scMng k := by
  have hne : ∀ {j}, pc.entry = some j → k ≠ j := fun hj e => hk (e ▸ hj)
  rcases openStream_cases h with hm | ⟨a, f, j, rfl, rfl, -, -⟩ | ⟨a, f, j, g, r, b, rfl, rfl, rfl, -, -⟩ |
    ⟨a, f, j, rfl, rfl, -, -⟩
  · exact hm.rows k hk
  · exact setRow_of_ne (hne rfl) _
  · exact setRow_of_ne (hne rfl) _
  · exact setRow_of_ne (hne rfl) _

theorem openStream_isSome (h : ∀ m, pc.frees = some m → s.Freeable m) :
    ∃ r, s.openStream ch pc o = some r := by
  cases pc with
  | socket a =>
    cases o with
    | number f =>
      simp only [Shared.openStream]
      split <;> exact ⟨_, rfl⟩
    | failed | idle | ok => exact ⟨_, rfl⟩
  | search a f j =>
    simp only [Shared.openStream]
    split
    · exact ⟨_, rfl⟩
    · split <;> exact ⟨_, rfl⟩
  | malloc a f k g r =>
    cases o with
    | number b =>
      simp only [Shared.openStream]
      split <;> exact ⟨_, rfl⟩
    | failed | idle | ok => exact ⟨_, rfl⟩
  | undo k r =>
    obtain ⟨t, ht⟩ := (h k rfl).isSome
    exact ⟨_, by rw [Shared.openStream, ht]; rfl⟩
  | connect | create => cases o <;> exact ⟨_, rfl⟩
  | findFree | take | setSock | setHandle | setAv | opened | failed => exact ⟨_, rfl⟩

theorem home_adopt {f f' : ℕ} {k j : Fin 2} (h : (s.adopt f k).home f' = some j) : f' = f ∧ j = k ∨ s.home f' = some j := by
  obtain ⟨g, hg⟩ := home_eq_some.mp h
  simp only [adopt] at hg
  by_cases hf : f' = f
  · subst hf
    rw [Function.update_self] at hg
    obtain ⟨o, ho, he⟩ := Option.map_eq_some_iff.mp hg
    cases he
    exact .inl ⟨rfl, rfl⟩
  · rw [Function.update_of_ne hf] at hg
    exact .inr (home_eq_some.mpr ⟨g, hg⟩)

end Opening

/-! ## Any step -/

theorem react_thread {s : Shared} {o : Outcome} {k : Fin 2} {g : ℕ} {pc : ThreadPc} (hpc : pc.close? = none) :
    react s (.pullThread k g pc) o =
      (pullThread (s.scMng 0) (s.scMng k) pc o).map fun q => (s, .pullThread k g q, []) := by
  cases pc <;> first | rfl | cases hpc

/-- What a step is, by the kind of its process. -/
theorem react_cases {s : Shared} {p : Proc} {o : Outcome} {r : Shared × Proc × List Proc} (h : react s p o = some r) :
    (∃ ch pc t q new, p = .openStream ch pc ∧ s.openStream ch pc o = some (t, q, new) ∧ r = (t, .openStream ch q, new)) ∨
    (∃ id pc t q, p = .closeStream id pc ∧ s.closeStream id pc = some (t, q) ∧ r = (t, .closeStream id q, [])) ∨
    (∃ k g id pc t q, p = .pullThread k g (.closing id pc) ∧ s.closeStream id pc = some (t, q) ∧
      r = (t, .pullThread k g (.close id q), [])) ∨
    ∃ k g pc q, p = .pullThread k g pc ∧ pc.close? = none ∧ pullThread (s.scMng 0) (s.scMng k) pc o = some q ∧
      r = (s, .pullThread k g q, []) := by
  cases p with
  | openStream ch pc =>
    obtain ⟨⟨t, q, new⟩, hopen, rfl⟩ := Option.map_eq_some_iff.mp h
    exact .inl ⟨ch, pc, t, q, new, rfl, hopen, rfl⟩
  | closeStream id pc =>
    obtain ⟨⟨t, q⟩, hclose, rfl⟩ := Option.map_eq_some_iff.mp h
    exact .inr (.inl ⟨id, pc, t, q, rfl, hclose, rfl⟩)
  | pullThread k g pc =>
    by_cases hpc : pc.close? = none
    · rw [react_thread hpc] at h
      obtain ⟨q, hq, rfl⟩ := Option.map_eq_some_iff.mp h
      exact .inr (.inr (.inr ⟨k, g, pc, q, rfl, hpc, hq, rfl⟩))
    · cases pc with
      | closing id pc =>
        obtain ⟨⟨t, q⟩, hclose, rfl⟩ := Option.map_eq_some_iff.mp h
        exact .inr (.inr (.inl ⟨k, g, id, pc, t, q, rfl, hclose, rfl⟩))
      | top | testUsed | testBuffer | head | recvHead | body | recvBody | callback | giveUp | ended =>
        exact absurd rfl hpc

namespace World

/-- An `openStream` that comes to its end; `j` is how many entries of each table are in use before. -/
def opening (i j f b : ℕ) : List Act :=
  [.openStream j] ++ List.replicate (j + 1) (.run i .ok) ++ [.run i (.number f), .run i .ok] ++
    List.replicate (j + 2) (.run i .ok) ++ [.run i (.number b), .run i .ok, .run i .ok, .run i .ok, .run i .ok]

/-- A frame of 1000 bytes comes, in two parts. -/
def frame (i : ℕ) : List Act :=
  List.replicate 4 (.run i .ok) ++ [.run i .idle, .run i .ok, .run i (.number 1000), .run i .idle, .run i .ok, .run i .ok]

end World

end PullStream

end SabApp
