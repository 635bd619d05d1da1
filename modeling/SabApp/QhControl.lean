import SabApp.QhUser

/-!
# Requests of a QH session

The key-frame flag is cleared only after its command went out, so no call is lost. The playback
flags are tested in a fixed order, whatever the order of the calls, and a position or a
speed of 0 reads as none asked for.
-/

namespace SabApp

namespace Qh

/-! ## Key frames -/

/-- The last accepted call for a key frame was followed by the command or a stream start. -/
def KeyAnswered (log : List Entry) : Prop :=
  ∀ newer older, log = newer ++ .asked .keyFrame :: older → .sent .keyFrame ∈ newer ∨ .streamStart ∈ newer

theorem keyAnswered_nil : KeyAnswered [] := by
  intro newer older h
  cases newer <;> cases h

theorem KeyAnswered.cons {log : List Entry} (h : KeyAnswered log) {e : Entry} (he : e ≠ .asked .keyFrame) :
    KeyAnswered (e :: log) := by
  intro newer older hl
  cases newer with
  | nil =>
    cases hl
    exact absurd rfl he
  | cons x newer =>
    cases hl
    exact (h newer older rfl).imp (List.mem_cons_of_mem _) (List.mem_cons_of_mem _)

theorem keyAnswered_sent (log : List Entry) : KeyAnswered (.sent .keyFrame :: log) := by
  intro newer older hl
  cases newer with
  | nil => cases hl
  | cons x newer =>
    cases hl
    exact .inl List.mem_cons_self

namespace UserWorld

/-- **Key frames.** Where no flag is set, every accepted call has been served. -/
def KeyKept (w : UserWorld) : Prop := w.user.rtsKeyFlag = false → KeyAnswered w.log

theorem keyKept_step {w t : UserWorld} {a : UserAct} (h : w.KeyKept) (hs : step w a = some t) : t.KeyKept := by
  intro hk
  cases step_effect hs with
  | quiet hl hp hkey ht =>
    have hw : w.user.rtsKeyFlag = false := by
      by_contra hc
      rw [hkey (by simpa using hc)] at hk
      cases hk
    rw [hl]
    exact h hw
  | began k ha hl hp hkey ht =>
    rw [hl]
    exact (h (hkey ▸ hk)).cons (by simp)
  | asked r ha hl hu =>
    rw [hl]
    cases r with
    | keyFrame =>
      rw [hu] at hk
      cases hk
    | control c =>
      refine (h ?_).cons (by simp)
      rw [hu] at hk
      cases c <;> exact hk
  | key hl hp ht =>
    rw [hl]
    exact keyAnswered_sent w.log
  | control f c ha hp hc hl hu =>
    rw [hl]
    refine (h ?_).cons (by simp)
    rw [hu] at hk
    cases f <;> exact hk
  | streamStart hl hp hkey ht =>
    rw [hl]
    exact (h (hkey ▸ hk)).cons (by simp)

/-- **No key-frame request is lost.** -/
theorem keyFrames_kept (acts : List UserAct) : Reached step KeyKept init acts :=
  reached_of_inv (fun _ _ _ => keyKept_step) (fun _ h => h) (fun _ => keyAnswered_nil) acts

end UserWorld

end Qh

end SabApp
