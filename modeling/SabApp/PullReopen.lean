import SabApp.PullSteps
import SabApp.Runs

/-!
# An entry that is used again (PullStream.c)

A closed stream's thread goes on until it comes to fail, and finds in its entry whatever stands there by then.
-/

namespace SabApp

namespace PullStream

/-- The entry on which a process runs as the thread of a stream, or will start it, and which of its streams that is. -/
def Proc.seat : Proc → Option (Fin 2 × ℕ)
  | .openStream _ pc => pc.seat
  | .closeStream _ _ => none
  | .pullThread _ _ .ended => none
  | .pullThread k g _ => some (k, g)

/-- The next step of a thread is not on the socket of a stream opened later in its entry, and writes nothing into such
a stream's buffer. An `openStream` has changed nothing in the table before it takes an entry, and if it fails then, it
leaves the entry as it was. -/
structure Clean (s : Shared) (p : Proc) (o : Outcome) : Prop where
  socket : ∀ k g pc, p = .pullThread k g pc → ∀ f, p.descriptor s = some f → ∀ g', s.fds f = some (.stream k g') → g' ≤ g
  buffer : ∀ k g pc, p = .pullThread k g pc → ∀ b n, p.written = some (b, n) → (s.scMng k).buffer = some b → s.gen k ≤ g
  failed : ∀ ch pc, p = .openStream ch pc → ∀ r, s.openStream ch pc o = some r →
    (pc.entry = none → r.1.scMng = s.scMng) ∧ ∀ k before, pc = .undo k before → r.1.scMng k = before

namespace World

def Reusable (w : World) : Act → Prop
  | .run i o => ∀ p, w.procs[i]? = some p → Clean w.shared p o
  | _ => True

/-- The guard. No thread of an earlier stream runs on an entry that is taken, nor is one about to be started there, and the
start of a thread does not fail. -/
def Vacant (w : World) : Proc → Outcome → Prop
  | .openStream _ (.take _ _ k), _ => ∀ q ∈ w.procs, q.seat.map Prod.fst ≠ some k
  | .openStream _ (.create _ _ _ _ _), o => o ≠ .failed
  | _, _ => True

def Vacated (w : World) : Act → Prop
  | .run i o => ∀ p ∈ w.procs[i]?, w.Vacant p o
  | _ => True

instance (w : World) (p : Proc) (o : Outcome) : Decidable (w.Vacant p o) := by
  cases p with
  | openStream ch pc => cases pc <;> dsimp only [Vacant] <;> infer_instance
  | closeStream id pc => exact isTrue trivial
  | pullThread k gen pc => exact isTrue trivial

instance (w : World) : ∀ a, Decidable (w.Vacated a)
  | .run i o => inferInstanceAs (Decidable (∀ p ∈ w.procs[i]?, w.Vacant p o))
  | .openStream _ => isTrue trivial
  | .closeStream _ => isTrue trivial

end World

/-! ## One thread for each entry -/

open Shared

section
variable {s t : Shared} {p : Proc} {o : Outcome}

/-- A process has the newest stream of its entry. -/
structure Newest (s : Shared) (p : Proc) : Prop where
  seat : ∀ k g, p.seat = some (k, g) → g = s.gen k
  undo : ∀ ch k r, p ≠ .openStream ch (.undo k r)

def Counted (s : Shared) : Prop := ∀ f k g, s.fds f = some (.stream k g) → g ≤ s.gen k

theorem Shrinks.counted (h : Shrinks s t) (hs : Counted s) : Counted t := by
  intro f k g hf
  rw [h.gen]
  exact hs f k g (h.fds f k g hf)

theorem Shrinks.newest (h : Shrinks s t) (hp : Newest s p) : Newest t p :=
  ⟨fun k g hk => by rw [h.gen]; exact hp.seat k g hk, hp.undo⟩

theorem newest_thread {k : Fin 2} {g : ℕ} {pc q : ThreadPc} (hp : Newest s (.pullThread k g pc)) (hpc : pc ≠ .ended) :
    Newest s (.pullThread k g q) := by
  have hg : g = s.gen k := by
    apply hp.seat
    cases pc <;> first | rfl | exact absurd rfl hpc
  refine ⟨fun k' g' hk => ?_, by rintro ch k' r ⟨⟩⟩
  cases q <;> cases hk <;> exact hg

theorem Counted.adopt (hs : Counted s) (f : ℕ) (k : Fin 2) : Counted (s.adopt f k) := by
  intro f' j g hf
  have hle : s.gen j ≤ (s.adopt f k).gen j := by
    by_cases hj : j = k
    · subst hj
      simp [Shared.adopt]
    · simp [Shared.adopt, hj]
  by_cases hff : f' = f
  · subst hff
    simp only [Shared.adopt, Function.update_self] at hf
    obtain ⟨o, -, he⟩ := Option.map_eq_some_iff.mp hf
    cases he
    simp [Shared.adopt]
  · simp only [Shared.adopt, Function.update_of_ne hff] at hf
    exact Nat.le_trans (hs f' j g hf) hle

namespace World

variable {w : World} {r : Shared × Proc × List Proc}

theorem newest_openStream {ch : ℤ} {pc q : OpenPc} {new : List Proc} (hs : Counted w.shared)
    (hf : Newest w.shared (.openStream ch pc)) (hv : w.Vacant (.openStream ch pc) o)
    (h : w.shared.openStream ch pc o = some (t, q, new)) :
    Counted t ∧ Newest t (.openStream ch q) ∧ (∀ q ∈ new, Newest t q) ∧
      ∀ q ∈ w.procs, Newest w.shared q → Newest t q := by
  rcases openStream_cases h with hm | ⟨a, f, k, rfl, ht, rfl, rfl⟩ | ⟨a, f, k, g, r, b, rfl, rfl, ht, rfl, rfl⟩ |
    ⟨a, f, k, rfl, ht, rfl, rfl⟩
  · have hseat : ∀ k g, pc.seat = some (k, g) → g = t.gen k := by
      intro k g hk
      rw [hm.shrinks.gen]
      exact hf.seat k g hk
    have hundo : ∀ ch' k r, Proc.openStream ch q ≠ .openStream ch' (.undo k r) := by
      rintro ch' k r ⟨⟩
      obtain ⟨a, f, g, rfl, rfl⟩ := hm.undo k r rfl
      exact hv rfl
    refine ⟨hm.shrinks.counted hs, ⟨fun k g hk => hseat k g (hm.seat _ hk), hundo⟩, fun p hp => ?_,
      fun q _ => hm.shrinks.newest⟩
    obtain ⟨k, g, rfl, hk⟩ := hm.new p hp
    refine ⟨?_, by rintro ch' k' r ⟨⟩⟩
    rintro k' g' ⟨⟩
    exact hseat k g hk
  · have hgen : t.gen = Function.update w.shared.gen k (w.shared.gen k + 1) := by rw [ht]; rfl
    refine ⟨by rw [ht]; exact hs.adopt f k, ⟨?_, by rintro ch' k' r ⟨⟩⟩, by simp, fun q hq hn => ⟨fun j g hj => ?_, hn.undo⟩⟩
    · rintro k' g ⟨⟩
      rw [hgen, Function.update_self]
    · have hjk : j ≠ k := by
        rintro rfl
        exact hv q hq (by rw [hj]; rfl)
      rw [hgen, Function.update_of_ne hjk]
      exact hn.seat j g hj
  · have hgen : t.gen = w.shared.gen := by rw [ht]; rfl
    refine ⟨?_, ⟨fun j g' hj => ?_, by rintro ch' k' r' ⟨⟩⟩, by simp, fun q _ hn => ⟨fun j g' hj => ?_, hn.undo⟩⟩
    · rw [ht]
      exact hs
    · rw [hgen]
      exact hf.seat j g' hj
    · rw [hgen]
      exact hn.seat j g' hj
  · have hgen : t.gen = w.shared.gen := by rw [ht]; rfl
    refine ⟨?_, ⟨?_, by rintro ch' k' r ⟨⟩⟩, by simp, fun q _ hn => ⟨fun j g hj => ?_, hn.undo⟩⟩
    · rw [ht]
      exact hs
    · rintro j g ⟨⟩
    · rw [hgen]
      exact hn.seat j g hj

theorem newest_react (hs : Counted w.shared) (hf : Newest w.shared p) (hv : w.Vacant p o)
    (h : react w.shared p o = some r) :
    Counted r.1 ∧ Newest r.1 r.2.1 ∧ (∀ q ∈ r.2.2, Newest r.1 q) ∧ ∀ q ∈ w.procs, Newest w.shared q → Newest r.1 q := by
  rcases react_cases h with ⟨ch, pc, t, q, new, rfl, hopen, rfl⟩ | ⟨id, pc, t, q, rfl, hclose, rfl⟩ |
    ⟨k, g, id, pc, t, q, rfl, hclose, rfl⟩ | ⟨k, g, pc, q, rfl, hpc, hq, rfl⟩
  · exact newest_openStream hs hf hv hopen
  · have hshrinks := (closeStream_shrinks hclose).1
    refine ⟨hshrinks.counted hs, ⟨?_, ?_⟩, by simp, fun q _ => hshrinks.newest⟩
    · rintro k g ⟨⟩
    · rintro ch k r ⟨⟩
  · have hshrinks := (closeStream_shrinks hclose).1
    have hnext : Newest w.shared (.pullThread k g (.close id q)) := newest_thread hf (by rintro ⟨⟩)
    exact ⟨hshrinks.counted hs, hshrinks.newest hnext, by simp, fun q _ => hshrinks.newest⟩
  · refine ⟨hs, ?_, by simp, fun _ _ => id⟩
    by_cases he : pc = .ended
    · subst he
      cases hq
      exact hf
    · exact newest_thread hf he

theorem clean_of_newest (hs : Counted w.shared) (hf : Newest w.shared p) : Clean w.shared p o := by
  have hgen : ∀ {k g pc}, p = .pullThread k g pc → pc ≠ .ended → g = w.shared.gen k := by
    rintro k g pc rfl hpc
    apply hf.seat
    cases pc <;> first | rfl | exact absurd rfl hpc
  refine ⟨?_, ?_, ?_⟩
  · rintro k g pc rfl f hfd g' hg'
    rw [hgen rfl (by rintro rfl; cases hfd)]
    exact hs f k g' hg'
  · rintro k g pc rfl b n hw -
    rw [hgen rfl (by rintro rfl; cases hw)]
  · rintro ch pc rfl ⟨t, q, new⟩ h
    refine ⟨fun he => funext fun k => openStream_rows h (by rw [he]; rintro ⟨⟩), ?_⟩
    rintro k before rfl
    exact absurd rfl (hf.undo ch k before)

/-- While entries are taken when their threads have ended, and threads do start, no thread gets at a later stream. -/
theorem reusable_of_vacated (acts : List Act) (h : Meets step Vacated init acts) : Meets step Reusable init acts := by
  refine meets_of_meets (I := fun w => Counted w.shared ∧ w.All Newest) ?_ ?_ ?_ h
  · rintro w a t ⟨hs, hf⟩ hv hstep
    cases a with
    | openStream ch =>
      cases hstep
      refine ⟨hs, hf.spawn ⟨?_, ?_⟩⟩
      · rintro k g ⟨⟩
      · rintro ch' k r ⟨⟩
    | closeStream id =>
      cases hstep
      refine ⟨hs, hf.spawn ⟨?_, ?_⟩⟩
      · rintro k g ⟨⟩
      · rintro ch k r ⟨⟩
    | run i o =>
      apply Pool.inv_run hs hf hstep
      intro p r hp hr
      exact newest_react hs (hf p (List.mem_of_getElem? hp)) (hv p hp) hr
  · rintro w a ⟨hs, hf⟩ -
    cases a with
    | run i o => exact fun p hp => clean_of_newest hs (hf p (List.mem_of_getElem? hp))
    | openStream | closeStream => trivial
  · exact ⟨fun f k g hf => (by cases hf), fun p hp => by cases hp⟩

/-- The socket fails, the thread closes its stream and ends, and the entry is taken again. -/
theorem reusable_after_failure :
    Meets step Reusable init (opening 0 0 5 1 ++ [.run 1 .failed] ++ List.replicate 10 (.run 1 .ok) ++
      opening 2 0 5 1 ++ frame 3) :=
  reusable_of_vacated _ (by decide)

/-- A stream is closed while its thread waits for a frame, and another is opened in its place, with the same block for
a buffer. -/
def reopened : List Act :=
  opening 0 0 5 1 ++ List.replicate 4 (.run 1 .ok) ++ [.closeStream 0] ++ List.replicate 9 (.run 2 .ok) ++ opening 3 0 5 1

theorem written_by_old_thread : ¬ ∀ acts, Meets step Reusable init acts := by
  intro h
  have hlast := (h (reopened ++ [.run 1 .ok])).last rfl
  have hle := (hlast (.pullThread 0 1 (.recvHead 5 (some 1))) rfl).buffer 0 1 _ rfl 1 headLen rfl rfl
  exact absurd hle (by decide)

end World

end

end PullStream

end SabApp
