import SabApp.HandleCalls
import SabApp.Runs

/-!
# Runs of start and stop calls

Ids stay exact until a YS device's playback or talk meets the live view of its number, a HY
device is logged in to, or the account is logged out with a relay in use.
-/

namespace SabApp

open Nc (Service)

namespace HandleWorld

structure Inv (w : HandleWorld) : Prop where
  good : w.client.Good
  issued : ∀ h, w.client.view h ≠ none → w.issued h = h.id
  noLogin : ∀ i, w.client.view (.hy (i, .alarm)) = none
  logged : w.client.relays.loginState = false → ∀ i, w.client.view (.relay i) = none
  apart : Ys.Apart w.client.ys

theorem exact_of_inv {w : HandleWorld} (h : Inv w) : Exact w where
  distinct a b ha hb hab he := by
    rw [h.issued a ha, h.issued b hb] at he
    exact hab (h.good.eq_of_id h.apart ha hb he)
  stops a s hs := by
    rw [h.issued a (by rw [hs]; nofun)]
    apply Client.ends_stop h.good hs
    · rintro i rfl
      rw [h.noLogin i] at hs
      cases hs
    · rintro i rfl
      by_contra hl
      rw [h.logged (by simpa using hl) i] at hs
      cases hs

theorem inv_init : Inv init where
  good := ⟨fun _ => rfl, fun _ => ⟨fun _ _ => rfl, nofun⟩, Cloud.RelayTable.inv_init, fun _ => ⟨fun _ _ => rfl, nofun⟩⟩
  issued _ _ := rfl
  noLogin _ := rfl
  logged _ _ := rfl
  apart _ _ _ hj := by cases hj

variable {w : HandleWorld} {t : Client} {r : Int32}

theorem inv_of_kept (h : Inv w) (hk : Client.Kept w.client t) (hs : Client.Steady w.client t) :
    Inv ⟨t, recorded w.client.view t.view r w.issued⟩ where
  good := hk.good
  issued k hl := by
    rw [recorded_of_shrinks hk.shrinks]
    apply h.issued
    rcases hk.shrinks k with hn | he
    · exact absurd hn hl
    · exact he ▸ hl
  noLogin i := by
    rcases hk.shrinks (.hy (i, .alarm)) with hn | he
    · exact hn
    · exact he.trans (h.noLogin i)
  logged hl i := by
    rcases hk.shrinks (.relay i) with hn | he
    · exact hn
    · exact he.trans (h.logged (hs.1 ▸ hl) i)
  apart := h.apart.of_shrinks fun x => hk.shrinks (.ys x)

theorem inv_of_opens (h : Inv w) {s : Service} (hg : t.Good) (ho : Opens Handle.id s r w.client.view t.view)
    (hl : ∀ i, t.view (.hy (i, .alarm)) = none) (hs : Client.Steady w.client t) (ha : Ys.Apart t.ys) :
    Inv ⟨t, recorded w.client.view t.view r w.issued⟩ where
  good := hg
  issued _ hk := recorded_eq ho h.issued hk
  noLogin := hl
  logged hl' i := by
    have hlo : w.client.relays.loginState = false := hs.1 ▸ hl'
    show t.relays.view i = none
    rw [hs.2 hlo]
    exact h.logged hlo i
  apart := ha

/-- Only a login opens a login. -/
theorem noLogin_of_opens (h : Inv w) {s : Service} (hs : s ≠ .login)
    (ho : Opens Handle.id s r w.client.view t.view) (i : Fin 10) : t.view (.hy (i, .alarm)) = none := by
  rcases ho with he | ⟨k, _, hk, _, hrest⟩
  · rw [he]
    exact h.noLogin i
  · by_cases hki : k = .hy (i, .alarm)
    · rw [hki] at hk
      exact absurd (Hy.SlotWorld.service_of_view hk).symm hs
    · rw [hrest _ (Ne.symm hki)]
      exact h.noLogin i

theorem noLogin_login (h : Inv w) {d : Nc.Dev} (hok : CallOk w.client (.login d)) (i : Fin 10) :
    (w.client.login d).2.view (.hy (i, .alarm)) = none := by
  unfold Client.login
  split
  · next hd =>
    obtain ⟨hs, hf⟩ := hok hd
    show (w.client.hy.login d.hy).2.view (i, .alarm) = none
    rw [Hy.SlotWorld.login_refused hs hf]
    exact h.noLogin i
  · exact h.noLogin i
  · exact h.noLogin i

/-- The account logs in or out; out only without relays. -/
theorem inv_account (h : Inv w) {b : Bool} (hb : b = false → ∀ i, w.client.view (.relay i) = none) :
    Inv ⟨{ w.client with relays := { w.client.relays with loginState := b } },
      recorded w.client.view w.client.view r w.issued⟩ where
  good := ⟨h.good.qh, h.good.ys, ⟨h.good.relays.slots, h.good.relays.once⟩, h.good.xm⟩
  issued k hk := by
    rw [recorded_of_shrinks (shrinks_of_eq rfl)]
    exact h.issued k hk
  noLogin := h.noLogin
  logged := hb
  apart := h.apart

theorem inv_step {u : HandleWorld} {a : HandleAct} (h : Inv w) (hok : CallOk w.client a) (hs : step w a = some u) :
    Inv u := by
  cases hs
  have hg := h.good
  have hstop := fun s id => Client.steady_stop w.client s id
  cases a with
  | loginUser => exact inv_account h nofun
  | logoutUser => exact inv_account h fun _ i => by simp [Client.view, Cloud.RelayTable.view, hok i]
  | login d =>
    exact inv_of_opens h (hg.login d) (Client.opens_login _ d) (noLogin_login h hok) (Client.steady_login _ d)
      (Client.apart_login h.apart d)
  | logout id => exact inv_of_kept h (Client.kept_logout hg id) (hstop .login id)
  | startRts d channel streamType known =>
    have ho := Client.opens_startRts hg d channel streamType known
    exact inv_of_opens h (hg.startRts d channel streamType known) ho (noLogin_of_opens h (by decide) ho)
      (Client.steady_startRts _ d channel streamType known) (Client.apart_startRts hg h.apart hok)
  | stopRts id => exact inv_of_kept h (Client.kept_stopRts hg id) (hstop .rts id)
  | startPbs d active known =>
    have ho := Client.opens_startPbs hg d active known
    exact inv_of_opens h (hg.startPbs d active known) ho (noLogin_of_opens h (by decide) ho)
      (Client.steady_startPbs _ d active known) (Client.apart_startPbs hg h.apart hok)
  | stopPbs id => exact inv_of_kept h (Client.kept_stopPbs hg id) (hstop .pbs id)
  | startCloudPbs =>
    have ho := Client.opens_relays (Cloud.RelayTable.opens_start hg.relays .cloudPbs)
    exact inv_of_opens h (hg.startRelay .cloudPbs) ho (noLogin_of_opens h (by decide) ho)
      (Client.steady_startRelay _ .cloudPbs) h.apart
  | stopCloudPbs id => exact inv_of_kept h (Client.kept_relays hg .cloudPbs id) (hstop .cloudPbs id)
  | startTalk d known =>
    have ho := Client.opens_startTalk hg d known
    exact inv_of_opens h (hg.startTalk d known) ho (noLogin_of_opens h (by decide) ho)
      (Client.steady_startTalk _ d known) (Client.apart_startTalk hg h.apart hok)
  | stopTalk id => exact inv_of_kept h (Client.kept_stopTalk hg id) (hstop .talk id)
  | query d ret => exact inv_of_kept h (Client.kept_query hg d ret) (Client.steady_query _ d ret)
  | setDeviceStatus d ret =>
    exact inv_of_kept h (Client.kept_setDeviceStatus hg d ret) (Client.steady_setDeviceStatus _ d ret)
  | controlPTZ d => exact inv_of_kept h (Client.kept_controlPTZ hg d) (Client.steady_controlPTZ _ d)
  | clock tv =>
    exact inv_of_kept h (Client.kept_hy (p := (0, { w.client.hy with tv := tv })) hg (shrinks_of_eq rfl))
      (Client.steady_of_eq rfl)
  | hyRun i =>
    exact inv_of_kept h (Client.kept_hy (p := (0, w.client.hy.run i)) hg
      (shrinks_of_eq (Hy.SlotWorld.view_run _ i))) (Client.steady_of_eq rfl)
  | ysRun i timeout =>
    exact inv_of_kept h (Client.kept_ys (p := (0, w.client.ys.run Ys.subs i timeout)) hg
      (DevSlots.good_run Ys.mem_subs hg.ys i timeout) (shrinks_of_eq (DevSlots.view_run ..))) (Client.steady_of_eq rfl)
  | xmRun i timeout =>
    exact inv_of_kept h (Client.kept_xm (p := (0, w.client.xm.run Xm.subs i timeout)) hg
      (DevSlots.good_run Xm.mem_subs hg.xm i timeout) (shrinks_of_eq (DevSlots.view_run ..))) (Client.steady_of_eq rfl)

/-- Starting next to a live subscription of the same number gives its id out twice. -/
theorem not_exact_of_clash (h : Inv w) {s : Service} (ho : Opens Handle.id s r w.client.view t.view) {d : Nc.Dev}
    {k : Ys.Sub} (ht : t.ys = (Ys.start w.client.ys d k).2) (hk : ¬ Ys.NoClash w.client.ys d k) :
    ¬ Exact ⟨t, recorded w.client.view t.view r w.issued⟩ := by
  intro he
  obtain ⟨e, i, j, hjk, hj, hk⟩ := Ys.clash_start h.apart hk
  rw [← ht] at hj hk
  have hne : Handle.ys (e, i, j) ≠ .ys (e, i, k) := by
    rintro heq
    cases heq
    exact Ys.Sub.not_clash_self _ hjk
  have hjid : recorded w.client.view t.view r w.issued (.ys (e, i, j)) = Ys.subId e i j := recorded_eq ho h.issued hj
  have hkid : recorded w.client.view t.view r w.issued (.ys (e, i, k)) = Ys.subId e i k := recorded_eq ho h.issued hk
  exact he.distinct (.ys (e, i, j)) (.ys (e, i, k)) hj hk hne ((hjid.trans (hjk.subId_eq e i)).trans hkid.symm)

/-- After a HY login, its stop call ends nothing. -/
theorem not_exact_of_login (h : Inv w) (ho : Opens Handle.id .login r w.client.view t.view) {i : Fin 10}
    (hl : t.view (.hy (i, .alarm)) = some .login) : ¬ Exact ⟨t, recorded w.client.view t.view r w.issued⟩ := by
  intro he
  have hid : recorded w.client.view t.view r w.issued (.hy (i, .alarm)) = Hy.subId i .alarm :=
    recorded_eq ho h.issued (by rw [hl]; nofun)
  have hp : idPtc (Hy.subId i .alarm) = .huaYi := Handle.idPtc_id (h := .hy (i, .alarm)) trivial
  have hstop : (t.stop .login (Hy.subId i .alarm)).2 = t := by simp [Client.stop, Client.logout, hp]
  have hend : (t.stop .login (recorded w.client.view t.view r w.issued (.hy (i, .alarm)))).2.view
      (.hy (i, .alarm)) = none := (he.stops _ _ hl).1
  rw [hid, hstop, hl] at hend
  cases hend

/-- Without the account's login, no stop call ends a relay. -/
theorem not_exact_of_logout (hl : t.relays.loginState = false) {i : Fin 2} {s : Service}
    (hv : t.view (.relay i) = some s) (issued : Handle → Int32) : ¬ Exact ⟨t, issued⟩ := by
  intro he
  have hend : (t.stop s (issued (.relay i))).2.view (.relay i) = none := (he.stops _ _ hv).1
  have hrel : (t.stop s (issued (.relay i))).2.relays = t.relays := (Client.steady_stop t s _).2 hl
  have hsame : (t.stop s (issued (.relay i))).2.view (.relay i) = t.view (.relay i) := congrArg (·.view i) hrel
  rw [hsame, hv] at hend
  cases hend

theorem ys_of_own {d : Nc.Dev} (hd : Ys.Own d) (c : Client) :
    (∀ channel streamType known, (c.startRts d channel streamType known).2.ys = (Ys.startRts c.ys d channel streamType).2) ∧
    (∀ active known, (c.startPbs d active known).2.ys = (Ys.start c.ys d .pbs).2) ∧
    ∀ known, (c.startTalk d known).2.ys = (Ys.start c.ys d .talk).2 := by
  rcases hd with hd | hd <;>
    simp [Client.startRts, Client.startPbs, Client.startTalk, Client.onYs, Ys.startPbs, Ys.startTalk, hd]

theorem exists_not_exact {a : HandleAct} (h : Inv w) (hbad : ¬ CallOk w.client a) :
    ∃ u, step w a = some u ∧ ¬ Exact u := by
  refine ⟨_, rfl, ?_⟩
  have hg := h.good
  cases a with
  | logoutUser =>
    simp only [CallOk, not_forall] at hbad
    obtain ⟨i, hi⟩ := hbad
    have hu : (w.client.relays.relay i).isUsed = true := by simpa using hi
    exact not_exact_of_logout (t := (w.client.call .logoutUser).2) rfl (i := i) (if_pos hu) _
  | login d =>
    simp only [CallOk, Classical.not_imp] at hbad
    obtain ⟨hd, hs⟩ := hbad
    obtain ⟨i, hi⟩ := Hy.SlotWorld.login_live w.client.hy d.hy hs
    have hl : w.client.login d = w.client.onHy (w.client.hy.login d.hy) := by simp [Client.login, hd]
    refine not_exact_of_login h (Client.opens_login _ d) (i := i) ?_
    show (w.client.login d).2.view (.hy (i, .alarm)) = some .login
    rw [hl]
    exact hi
  | startRts d channel streamType known =>
    simp only [CallOk, Classical.not_imp, not_forall] at hbad
    obtain ⟨hd, b, t, hneg, hb, ht, hk⟩ := hbad
    refine not_exact_of_clash h (Client.opens_startRts hg d channel streamType known) (k := .rts b t) ?_ hk
    rw [← Ys.startRts_eq _ d hneg hb ht]
    exact (ys_of_own hd w.client).1 channel streamType known
  | startPbs d active known =>
    simp only [CallOk, Classical.not_imp] at hbad
    exact not_exact_of_clash h (Client.opens_startPbs hg d active known)
      ((ys_of_own hbad.1 w.client).2.1 active known) hbad.2
  | startTalk d known =>
    simp only [CallOk, Classical.not_imp] at hbad
    exact not_exact_of_clash h (Client.opens_startTalk hg d known) ((ys_of_own hbad.1 w.client).2.2 known) hbad.2
  | _ => exact absurd trivial hbad

/-- **Exact ids.** Along a run the ids of live subscriptions differ and each stop call ends just its own
exactly when every call of the run is in order. -/
theorem handles_exact_iff (as : List HandleAct) :
    Reached step Exact init as ↔ Meets step (fun w => CallOk w.client) init as := by
  apply reached_iff_meets (I := Inv)
  · intro w a u h hok hs
    exact inv_step h hok hs
  · intro w h
    exact exact_of_inv h
  · intro w a h hbad
    exact exists_not_exact h hbad
  · exact inv_init

/-- A YS recorder. -/
def recorder : Nc.Dev := ⟨.yuShi, [], [10, 0, 0, 5], 3000, [1], [2]⟩

/-- Its channel 16 and its playback share the id `0x02000040`. -/
theorem handles_shared : ¬ ∀ as, Reached step Exact init as := by
  intro h
  have hx := h [.startRts recorder 16 0 false, .startPbs recorder false false] _ _ List.prefix_rfl rfl
  exact hx.distinct (.ys (recorder, 0, .rts 16 0)) (.ys (recorder, 0, .pbs)) (by decide) (by decide) nofun (by decide)

end HandleWorld

end SabApp
