import SabApp.Handles

/-!
# What the calls of `nc.c` open, end and keep

A call is served by one client, and what happens there is all that happens: a start opens its
subscription or none and answers with its id, a stop given its id ends it, and no call but a
start opens any.
-/

namespace SabApp

open Nc (Service)

namespace Client

structure Good (c : Client) : Prop where
  qh : c.qh.Good
  ys : c.ys.Good Ys.Own
  relays : c.relays.Inv
  xm : c.xm.Good fun d => d.ptc = .xiongMai

variable {c : Client}

theorem Good.own (hc : c.Good) {h : Handle} (hl : c.view h ≠ none) : h.Own := by
  cases h with
  | ys h => exact hc.ys.own_of_view hl
  | xm h => exact hc.xm.own_of_view hl
  | _ => trivial

/-- Live subscriptions have ids of their own. -/
theorem Good.eq_of_id (hc : c.Good) (ha : Ys.Apart c.ys) {h k : Handle} (hh : c.view h ≠ none) (hk : c.view k ≠ none)
    (he : h.id = k.id) : h = k := by
  apply Handle.eq_of_id (hc.own hh) (hc.own hk) he
  · rintro d e i j l rfl rfl
    obtain ⟨hj, rfl⟩ := DevSlots.enable_of_view hh
    obtain ⟨hl, rfl⟩ := DevSlots.enable_of_view hk
    exact ⟨rfl, ha i j l hj hl⟩
  · rintro d e i j l rfl rfl
    obtain ⟨_, rfl⟩ := DevSlots.enable_of_view hh
    exact (DevSlots.enable_of_view hk).2

/-! What one client does is all that happens. -/

theorem rest_qh (c : Client) (p : Int32 × Qh.Users) (k : Handle) (hk : ∀ x, k ≠ .qh x) :
    (c.onQh p).2.view k = c.view k := by
  cases k with
  | qh i => exact absurd rfl (hk i)
  | _ => rfl

theorem rest_hy (c : Client) (p : Int32 × Hy.SlotWorld) (k : Handle) (hk : ∀ x, k ≠ .hy x) :
    (c.onHy p).2.view k = c.view k := by
  cases k with
  | hy h => exact absurd rfl (hk h)
  | _ => rfl

theorem rest_ys (c : Client) (p : Int32 × DevSlots Ys.Sub) (k : Handle) (hk : ∀ x, k ≠ .ys x) :
    (c.onYs p).2.view k = c.view k := by
  cases k with
  | ys h => exact absurd rfl (hk h)
  | _ => rfl

theorem rest_relays (c : Client) (p : Int32 × Cloud.RelayTable) (k : Handle) (hk : ∀ x, k ≠ .relay x) :
    (c.onRelays p).2.view k = c.view k := by
  cases k with
  | relay i => exact absurd rfl (hk i)
  | _ => rfl

theorem rest_xm (c : Client) (p : Int32 × DevSlots Xm.Sub) (k : Handle) (hk : ∀ x, k ≠ .xm x) :
    (c.onXm p).2.view k = c.view k := by
  cases k with
  | xm h => exact absurd rfl (hk h)
  | _ => rfl

section
variable {s : Service}

theorem opens_qh {p : Int32 × Qh.Users} (h : Opens Qh.Users.userId s p.1 c.qh.view p.2.view) :
    Opens Handle.id s (c.onQh p).1 c.view (c.onQh p).2.view :=
  h.lift (fun _ => rfl) (fun _ => rfl) (fun _ => rfl) (rest_qh c p)

theorem opens_hy {p : Int32 × Hy.SlotWorld} (h : Opens (fun x => Hy.subId x.1 x.2) s p.1 c.hy.view p.2.view) :
    Opens Handle.id s (c.onHy p).1 c.view (c.onHy p).2.view :=
  h.lift (fun _ => rfl) (fun _ => rfl) (fun _ => rfl) (rest_hy c p)

theorem opens_ys {p : Int32 × DevSlots Ys.Sub} (h : Opens (fun x => Ys.subId x.1 x.2.1 x.2.2) s p.1
    (c.ys.view Ys.Sub.service) (p.2.view Ys.Sub.service)) : Opens Handle.id s (c.onYs p).1 c.view (c.onYs p).2.view :=
  h.lift (fun _ => rfl) (fun _ => rfl) (fun _ => rfl) (rest_ys c p)

theorem opens_relays {p : Int32 × Cloud.RelayTable} (h : Opens Cloud.relayId s p.1 c.relays.view p.2.view) :
    Opens Handle.id s (c.onRelays p).1 c.view (c.onRelays p).2.view :=
  h.lift (fun _ => rfl) (fun _ => rfl) (fun _ => rfl) (rest_relays c p)

theorem opens_xm {p : Int32 × DevSlots Xm.Sub} (h : Opens (fun x => Xm.subId x.1 x.2.1 x.2.2) s p.1
    (c.xm.view Xm.Sub.service) (p.2.view Xm.Sub.service)) : Opens Handle.id s (c.onXm p).1 c.view (c.onXm p).2.view :=
  h.lift (fun _ => rfl) (fun _ => rfl) (fun _ => rfl) (rest_xm c p)

end

/-! ### Start calls -/

theorem opens_login (c : Client) (d : Nc.Dev) : Opens Handle.id .login (c.login d).1 c.view (c.login d).2.view := by
  unfold login
  split
  · exact opens_hy (Hy.SlotWorld.opens_startSub c.hy d.hy .alarm fun _ => rfl)
  · exact opens_qh (Qh.Users.opens_userStart c.qh .alarm)
  · exact .inl rfl

theorem opens_startYs (hc : c.Good) {d : Nc.Dev} (hd : Ys.Own d) (k : Ys.Sub) :
    Opens Handle.id k.service (c.onYs (Ys.start c.ys d k)).1 c.view (c.onYs (Ys.start c.ys d k)).2.view :=
  opens_ys (DevSlots.opens_startSub hc.ys hd (fun d i k _ => Ys.subId_nonneg d i k) Ys.Sub.service k)

theorem opens_startXm (hc : c.Good) {d : Nc.Dev} (hd : d.ptc = .xiongMai) (k : Xm.Sub) :
    Opens Handle.id k.service (c.onXm (Xm.start c.xm d k)).1 c.view (c.onXm (Xm.start c.xm d k)).2.view :=
  opens_xm (DevSlots.opens_startSub hc.xm hd (fun d i k => Xm.subId_nonneg d i k) Xm.Sub.service k)

theorem opens_startRtsYs (hc : c.Good) {d : Nc.Dev} (hd : Ys.Own d) (channel streamType : Int32) :
    Opens Handle.id .rts (c.onYs (Ys.startRts c.ys d channel streamType)).1 c.view
      (c.onYs (Ys.startRts c.ys d channel streamType)).2.view := by
  unfold Ys.startRts
  split
  · exact .inl rfl
  · split
    · exact opens_startYs hc hd (.rts _ _)
    · exact .inl rfl

theorem opens_startRtsXm (hc : c.Good) {d : Nc.Dev} (hd : d.ptc = .xiongMai) (channel streamType : Int32) :
    Opens Handle.id .rts (c.onXm (Xm.startRts c.xm d channel streamType)).1 c.view
      (c.onXm (Xm.startRts c.xm d channel streamType)).2.view := by
  unfold Xm.startRts
  split
  · exact .inl rfl
  · split
    · exact opens_startXm hc hd (.rts _ _)
    · exact .inl rfl

/-- A cloud device is served by the QH client where it is known on the local network. -/
theorem opens_cloud (hc : c.Good) (known : Bool) {t : Qh.UserType} {k : Cloud.Service} (ht : t.service = k.nc) :
    Opens Handle.id k.nc (if known then c.onQh (c.qh.userStart t) else c.onRelays (c.relays.start k)).1 c.view
      (if known then c.onQh (c.qh.userStart t) else c.onRelays (c.relays.start k)).2.view := by
  cases known with
  | true => exact ht ▸ opens_qh (Qh.Users.opens_userStart c.qh t)
  | false => exact opens_relays (Cloud.RelayTable.opens_start hc.relays k)

theorem opens_startRts (hc : c.Good) (d : Nc.Dev) (channel streamType : Int32) (known : Bool) :
    Opens Handle.id .rts (c.startRts d channel streamType known).1 c.view (c.startRts d channel streamType known).2.view := by
  unfold startRts
  split
  · exact opens_hy (Hy.SlotWorld.opens_startRts c.hy d.hy channel streamType)
  · next hd => exact opens_startRtsYs hc (.inl hd) channel streamType
  · next hd => exact opens_startRtsYs hc (.inr hd) channel streamType
  · exact opens_cloud hc known (k := .rts) rfl
  · next hd => exact opens_startRtsXm hc hd channel streamType
  · exact opens_qh (Qh.Users.opens_userStart c.qh .rts)

theorem opens_startPbs (hc : c.Good) (d : Nc.Dev) (active known : Bool) :
    Opens Handle.id .pbs (c.startPbs d active known).1 c.view (c.startPbs d active known).2.view := by
  unfold startPbs
  split
  · exact opens_hy (Hy.SlotWorld.opens_startPbs c.hy d.hy active)
  · next hd => exact opens_startYs hc (.inl hd) .pbs
  · next hd => exact opens_startYs hc (.inr hd) .pbs
  · exact opens_cloud hc known (k := .devPbs) rfl
  · next hd => exact opens_startXm hc hd .pbs
  · exact opens_qh (Qh.Users.opens_userStart c.qh .pbs)

theorem opens_startTalk (hc : c.Good) (d : Nc.Dev) (known : Bool) :
    Opens Handle.id .talk (c.startTalk d known).1 c.view (c.startTalk d known).2.view := by
  unfold startTalk
  split
  · exact opens_hy (Hy.SlotWorld.opens_startSub c.hy d.hy .talk fun _ => rfl)
  · next hd => exact opens_startYs hc (.inl hd) .talk
  · next hd => exact opens_startYs hc (.inr hd) .talk
  · exact opens_cloud hc known (k := .talk) rfl
  · next hd => exact opens_startXm hc hd .talk
  · exact opens_qh (Qh.Users.opens_userStart c.qh .talk)

/-! ### Stop calls -/

theorem stop_qh (c : Client) (t : Qh.UserType) {id : Int32} (hp : idPtc id = .qihan) :
    c.stop t.service id = c.onQh (c.qh.stop id) := by
  cases t <;> simp [Qh.UserType.service, stop, logout, stopRts, stopPbs, stopTalk, hp]

theorem ends_qh (hc : c.Good) {i : Fin 128} {s : Service} (hs : c.qh.view i = some s) :
    Ends (.qh i) c.view (c.stop s (Handle.qh i).id).2.view := by
  have hp : idPtc (Handle.qh i).id = .qihan := Handle.idPtc_id (h := .qh i) trivial
  have he := Qh.Users.ends_userStop hc.qh (by rw [hs]; nofun)
  rw [← Qh.Users.service_of_view hs, stop_qh c _ hp, Handle.id, Qh.Users.stop_userId]
  exact he.lift (fun _ => rfl) (fun _ => rfl) (rest_qh c _)

theorem ends_hy (c : Client) {i : Fin 10} {k : Hy.Sub} (hk : k ≠ .alarm) :
    Ends (.hy (i, k)) c.view (c.stop k.service (Handle.hy (i, k)).id).2.view := by
  have hp : idPtc (Handle.hy (i, k)).id = .huaYi := Handle.idPtc_id (h := .hy (i, k)) trivial
  cases k with
  | rts n =>
    simp only [Hy.Sub.service, stop, stopRts, hp]
    exact (Hy.SlotWorld.ends_stopRts c.hy i n).lift (fun _ => rfl) (fun _ => rfl) (rest_hy c _)
  | pbs =>
    simp only [Hy.Sub.service, stop, stopPbs, hp]
    exact (Hy.SlotWorld.ends_onId c.hy i .pbs).lift (fun _ => rfl) (fun _ => rfl) (rest_hy c _)
  | talk =>
    simp only [Hy.Sub.service, stop, stopTalk, hp]
    exact (Hy.SlotWorld.ends_onId c.hy i .talk).lift (fun _ => rfl) (fun _ => rfl) (rest_hy c _)
  | alarm => exact absurd rfl hk

theorem stop_ys (c : Client) {d : Nc.Dev} (hd : Ys.Own d) (i : Fin 10) (k : Ys.Sub) :
    c.stop k.service (Handle.ys (d, i, k)).id = c.onYs (0, c.ys.stopSub i k) := by
  have hp : idPtc (Ys.subId d i k) = .yuShi ∨ idPtc (Ys.subId d i k) = .yuShiCloud := by
    rw [show idPtc (Ys.subId d i k) = d.ptc from Handle.idPtc_id (h := .ys (d, i, k)) hd]
    exact hd
  cases k with
  | rts n t => rcases hp with hp | hp <;> simp [Ys.Sub.service, stop, stopRts, Handle.id, hp, Ys.stopRts_subId]
  | pbs => rcases hp with hp | hp <;> simp [Ys.Sub.service, stop, stopPbs, Handle.id, hp, Ys.stopPbs_subId]
  | talk => rcases hp with hp | hp <;> simp [Ys.Sub.service, stop, stopTalk, Handle.id, hp, Ys.stopTalk_subId]

theorem stop_xm (c : Client) {d : Nc.Dev} (hd : d.ptc = .xiongMai) (i : Fin 10) (k : Xm.Sub) :
    c.stop k.service (Handle.xm (d, i, k)).id = c.onXm (0, c.xm.stopSub i k) := by
  have hid : (Handle.xm (d, i, k)).id = Xm.ownId i k := Xm.subId_eq hd i k
  have hp : idPtc (Xm.ownId i k) = .xiongMai := hid ▸ Handle.idPtc_id (h := .xm (d, i, k)) hd
  rw [hid]
  cases k with
  | rts n t => simp [Xm.Sub.service, stop, stopRts, hp, Xm.stopRts_ownId]
  | pbs => simp [Xm.Sub.service, stop, stopPbs, hp, Xm.stopPbs_ownId]
  | talk => simp [Xm.Sub.service, stop, stopTalk, hp, Xm.stopTalk_ownId]

theorem stop_relay (c : Client) (k : Cloud.Service) (i : Fin 2) :
    c.stop k.nc (Handle.relay i).id = c.onRelays (c.relays.stop k (Cloud.relayId i)) := by
  have hp : idPtc (Cloud.relayId i) = .qiHanCloud := Handle.idPtc_id (h := .relay i) trivial
  cases k <;> simp [Cloud.Service.nc, stop, stopRts, stopPbs, stopCloudPbs, stopTalk, Handle.id, hp]

/-- The stop call of its own service ends a subscription, but for a HY login and while the account is
logged out. -/
theorem ends_stop (hc : c.Good) {h : Handle} {s : Service} (hs : c.view h = some s)
    (hhy : ∀ i, h ≠ .hy (i, .alarm)) (hrelay : ∀ i, h = .relay i → c.relays.loginState = true) :
    Ends h c.view (c.stop s h.id).2.view := by
  have hl : c.view h ≠ none := by rw [hs]; nofun
  cases h with
  | qh i => exact ends_qh hc hs
  | hy h =>
    obtain ⟨i, k⟩ := h
    obtain rfl := Hy.SlotWorld.service_of_view hs
    exact ends_hy c fun hka => hhy i (hka ▸ rfl)
  | ys h =>
    obtain ⟨d, i, k⟩ := h
    obtain ⟨hk, rfl⟩ := DevSlots.enable_of_view hl
    obtain rfl : k.service = s := Option.some.inj ((DevSlots.view_of_enable hk).symm.trans hs)
    rw [stop_ys c (hc.own hl)]
    exact (DevSlots.ends_stopSub hl).lift (fun _ => rfl) (fun _ => rfl) (rest_ys c _)
  | relay i =>
    obtain ⟨_, rfl⟩ := Cloud.RelayTable.used_of_view hs
    rw [stop_relay]
    exact (Cloud.RelayTable.ends_stop hc.relays (hrelay i rfl) hs).lift (fun _ => rfl) (fun _ => rfl) (rest_relays c _)
  | xm h =>
    obtain ⟨d, i, k⟩ := h
    obtain ⟨hk, rfl⟩ := DevSlots.enable_of_view hl
    obtain rfl : k.service = s := Option.some.inj ((DevSlots.view_of_enable hk).symm.trans hs)
    rw [stop_xm c (hc.own hl)]
    exact (DevSlots.ends_stopSub hl).lift (fun _ => rfl) (fun _ => rfl) (rest_xm c _)

/-! ### What every call keeps -/

theorem Good.onQh (hc : c.Good) {p : Int32 × Qh.Users} (h : p.2.Good) : (c.onQh p).2.Good :=
  ⟨h, hc.ys, hc.relays, hc.xm⟩

theorem Good.onHy (hc : c.Good) (p : Int32 × Hy.SlotWorld) : (c.onHy p).2.Good := ⟨hc.qh, hc.ys, hc.relays, hc.xm⟩

theorem Good.onYs (hc : c.Good) {p : Int32 × DevSlots Ys.Sub} (h : p.2.Good Ys.Own) : (c.onYs p).2.Good :=
  ⟨hc.qh, h, hc.relays, hc.xm⟩

theorem Good.onRelays (hc : c.Good) {p : Int32 × Cloud.RelayTable} (h : p.2.Inv) : (c.onRelays p).2.Good :=
  ⟨hc.qh, hc.ys, h, hc.xm⟩

theorem Good.onXm (hc : c.Good) {p : Int32 × DevSlots Xm.Sub} (h : p.2.Good fun d => d.ptc = .xiongMai) :
    (c.onXm p).2.Good :=
  ⟨hc.qh, hc.ys, hc.relays, h⟩

theorem Good.startYs (hc : c.Good) {d : Nc.Dev} (hd : Ys.Own d) (k : Ys.Sub) : (c.onYs (Ys.start c.ys d k)).2.Good :=
  hc.onYs (DevSlots.good_startSub hc.ys hd Ys.state_of_isSame (fun d i k _ => Ys.subId_nonneg d i k) k)

theorem Good.startXm (hc : c.Good) {d : Nc.Dev} (hd : d.ptc = .xiongMai) (k : Xm.Sub) :
    (c.onXm (Xm.start c.xm d k)).2.Good :=
  hc.onXm (DevSlots.good_startSub hc.xm hd Xm.state_of_isSame (fun d i k => Xm.subId_nonneg d i k) k)

theorem Good.startQh (hc : c.Good) (t : Qh.UserType) : (c.onQh (c.qh.userStart t)).2.Good :=
  hc.onQh (Qh.Users.good_userStart hc.qh t)

theorem Good.startRelay (hc : c.Good) (k : Cloud.Service) : (c.onRelays (c.relays.start k)).2.Good :=
  hc.onRelays (Cloud.RelayTable.inv_start hc.relays k)

theorem Good.startCloud (hc : c.Good) (known : Bool) (t : Qh.UserType) (k : Cloud.Service) :
    (if known then c.onQh (c.qh.userStart t) else c.onRelays (c.relays.start k)).2.Good := by
  cases known with
  | true => exact hc.startQh t
  | false => exact hc.startRelay k

theorem Good.startRtsYs (hc : c.Good) {d : Nc.Dev} (hd : Ys.Own d) (channel streamType : Int32) :
    (c.onYs (Ys.startRts c.ys d channel streamType)).2.Good := by
  unfold Ys.startRts
  split
  · exact hc.onYs hc.ys
  · split
    · exact hc.startYs hd (.rts _ _)
    · exact hc.onYs hc.ys

theorem Good.startRtsXm (hc : c.Good) {d : Nc.Dev} (hd : d.ptc = .xiongMai) (channel streamType : Int32) :
    (c.onXm (Xm.startRts c.xm d channel streamType)).2.Good := by
  unfold Xm.startRts
  split
  · exact hc.onXm hc.xm
  · split
    · exact hc.startXm hd (.rts _ _)
    · exact hc.onXm hc.xm

theorem Good.login (hc : c.Good) (d : Nc.Dev) : (c.login d).2.Good := by
  unfold Client.login
  split
  · exact hc.onHy _
  · exact hc.startQh .alarm
  · exact hc

theorem Good.startRts (hc : c.Good) (d : Nc.Dev) (channel streamType : Int32) (known : Bool) :
    (c.startRts d channel streamType known).2.Good := by
  unfold Client.startRts
  split
  · exact hc.onHy _
  · next hd => exact hc.startRtsYs (.inl hd) channel streamType
  · next hd => exact hc.startRtsYs (.inr hd) channel streamType
  · exact hc.startCloud known .rts .rts
  · next hd => exact hc.startRtsXm hd channel streamType
  · exact hc.startQh .rts

theorem Good.startPbs (hc : c.Good) (d : Nc.Dev) (active known : Bool) : (c.startPbs d active known).2.Good := by
  unfold Client.startPbs
  split
  · exact hc.onHy _
  · next hd => exact hc.startYs (.inl hd) .pbs
  · next hd => exact hc.startYs (.inr hd) .pbs
  · exact hc.startCloud known .pbs .devPbs
  · next hd => exact hc.startXm hd .pbs
  · exact hc.startQh .pbs

theorem Good.startTalk (hc : c.Good) (d : Nc.Dev) (known : Bool) : (c.startTalk d known).2.Good := by
  unfold Client.startTalk
  split
  · exact hc.onHy _
  · next hd => exact hc.startYs (.inl hd) .talk
  · next hd => exact hc.startYs (.inr hd) .talk
  · exact hc.startCloud known .talk .talk
  · next hd => exact hc.startXm hd .talk
  · exact hc.startQh .talk

/-- From `c` to `t` nothing was opened, and the clients are in order. -/
structure Kept (c t : Client) : Prop where
  good : t.Good
  shrinks : Shrinks c.view t.view

theorem kept_self (hc : c.Good) : Kept c c := ⟨hc, shrinks_of_eq rfl⟩

theorem kept_qh (hc : c.Good) (id : Int32) : Kept c (c.onQh (c.qh.stop id)).2 where
  good := hc.onQh (Qh.Users.good_stop hc.qh id)
  shrinks := (Qh.Users.shrinks_stop c.qh id).lift (fun _ => rfl) (fun _ => rfl) (rest_qh c _)

theorem kept_hy (hc : c.Good) {p : Int32 × Hy.SlotWorld} (h : Shrinks c.hy.view p.2.view) : Kept c (c.onHy p).2 where
  good := hc.onHy p
  shrinks := h.lift (fun _ => rfl) (fun _ => rfl) (rest_hy c p)

theorem kept_ys (hc : c.Good) {p : Int32 × DevSlots Ys.Sub} (hp : p.2.Good Ys.Own)
    (h : Shrinks (c.ys.view Ys.Sub.service) (p.2.view Ys.Sub.service)) : Kept c (c.onYs p).2 where
  good := hc.onYs hp
  shrinks := h.lift (fun _ => rfl) (fun _ => rfl) (rest_ys c p)

theorem kept_relays (hc : c.Good) (k : Cloud.Service) (id : Int32) : Kept c (c.onRelays (c.relays.stop k id)).2 where
  good := hc.onRelays (Cloud.RelayTable.inv_stop hc.relays k id)
  shrinks := (Cloud.RelayTable.shrinks_stop hc.relays k id).lift (fun _ => rfl) (fun _ => rfl) (rest_relays c _)

theorem kept_xm (hc : c.Good) {p : Int32 × DevSlots Xm.Sub} (hp : p.2.Good fun d => d.ptc = .xiongMai)
    (h : Shrinks (c.xm.view Xm.Sub.service) (p.2.view Xm.Sub.service)) : Kept c (c.onXm p).2 where
  good := hc.onXm hp
  shrinks := h.lift (fun _ => rfl) (fun _ => rfl) (rest_xm c p)

theorem kept_stopYs (hc : c.Good) {p : Int32 × DevSlots Ys.Sub} (h : c.ys.Stopped p.2) : Kept c (c.onYs p).2 :=
  kept_ys hc (h.good hc.ys) (h.shrinks _)

theorem kept_stopXm (hc : c.Good) {p : Int32 × DevSlots Xm.Sub} (h : c.xm.Stopped p.2) : Kept c (c.onXm p).2 :=
  kept_xm hc (h.good hc.xm) (h.shrinks _)

theorem kept_logout (hc : c.Good) (id : Int32) : Kept c (c.logout id).2 := by
  unfold logout
  split
  · exact kept_qh hc id
  · exact kept_self hc

theorem kept_stopRts (hc : c.Good) (id : Int32) : Kept c (c.stopRts id).2 := by
  unfold stopRts
  split
  · exact kept_hy hc (Hy.SlotWorld.shrinks_stopRts c.hy id)
  · exact kept_stopYs hc (Ys.stopped_stopRts c.ys id)
  · exact kept_stopYs hc (Ys.stopped_stopRts c.ys id)
  · exact kept_relays hc .rts id
  · exact kept_stopXm hc (Xm.stopped_stopRts c.xm id)
  · exact kept_qh hc id

theorem kept_stopPbs (hc : c.Good) (id : Int32) : Kept c (c.stopPbs id).2 := by
  unfold stopPbs
  split
  · exact kept_hy hc (Hy.SlotWorld.shrinks_onId c.hy id .pbs)
  · exact kept_stopYs hc (Ys.stopped_stopPbs c.ys id)
  · exact kept_stopYs hc (Ys.stopped_stopPbs c.ys id)
  · exact kept_relays hc .devPbs id
  · exact kept_stopXm hc (Xm.stopped_stopPbs c.xm id)
  · exact kept_qh hc id

theorem kept_stopTalk (hc : c.Good) (id : Int32) : Kept c (c.stopTalk id).2 := by
  unfold stopTalk
  split
  · exact kept_hy hc (Hy.SlotWorld.shrinks_onId c.hy id .talk)
  · exact kept_stopYs hc (Ys.stopped_stopTalk c.ys id)
  · exact kept_stopYs hc (Ys.stopped_stopTalk c.ys id)
  · exact kept_relays hc .talk id
  · exact kept_stopXm hc (Xm.stopped_stopTalk c.xm id)
  · exact kept_qh hc id

theorem kept_query (hc : c.Good) (d : Nc.Dev) (ret : Int32) : Kept c (c.query d ret).2 := by
  have hys : Ys.Own d → Kept c (c.onYs (c.ys.query Ys.isSame d ret)).2 := fun hd =>
    kept_ys hc (DevSlots.good_query hc.ys hd ret) (shrinks_of_eq (DevSlots.view_query hc.ys ret))
  unfold query
  split
  · exact kept_hy hc (shrinks_of_eq (Hy.SlotWorld.view_onDev c.hy d.hy fun _ _ => rfl))
  · next hd => exact hys (.inl hd)
  · next hd => exact hys (.inr hd)
  · next hd => exact kept_xm hc (DevSlots.good_query hc.xm hd ret) (shrinks_of_eq (DevSlots.view_query hc.xm ret))
  · exact kept_self hc

theorem kept_setDeviceStatus (hc : c.Good) (d : Nc.Dev) (ret : Int32) : Kept c (c.setDeviceStatus d ret).2 := by
  unfold setDeviceStatus
  split
  · exact kept_hy hc (shrinks_of_eq (Hy.SlotWorld.view_onDev c.hy d.hy fun _ _ => rfl))
  · exact kept_query hc d ret

theorem kept_controlPTZ (hc : c.Good) (d : Nc.Dev) : Kept c (c.controlPTZ d).2 := by
  unfold controlPTZ
  split
  · exact kept_hy hc (shrinks_of_eq (Hy.SlotWorld.view_controlPTZ c.hy d.hy))
  · exact kept_self hc

/-- The account's state stays, and so do the relays while it is logged out. -/
def Steady (c t : Client) : Prop :=
  t.relays.loginState = c.relays.loginState ∧ (c.relays.loginState = false → t.relays = c.relays)

theorem steady_of_eq {t : Client} (h : t.relays = c.relays) : Steady c t := ⟨congrArg _ h, fun _ => h⟩

theorem steady_startRelay (c : Client) (k : Cloud.Service) : Steady c (c.onRelays (c.relays.start k)).2 :=
  ⟨c.relays.start_loginState k, fun hl => Cloud.RelayTable.start_loggedOut hl k⟩

theorem steady_stopRelay (c : Client) (k : Cloud.Service) (id : Int32) :
    Steady c (c.onRelays (c.relays.stop k id)).2 :=
  ⟨c.relays.stop_loginState k id, fun hl => Cloud.RelayTable.stop_loggedOut hl k id⟩

theorem steady_login (c : Client) (d : Nc.Dev) : Steady c (c.login d).2 := by
  unfold login
  split <;> exact steady_of_eq rfl

theorem steady_startCloud (c : Client) (known : Bool) (t : Qh.UserType) (k : Cloud.Service) :
    Steady c (if known then c.onQh (c.qh.userStart t) else c.onRelays (c.relays.start k)).2 := by
  cases known with
  | true => exact steady_of_eq rfl
  | false => exact steady_startRelay c k

theorem steady_startRts (c : Client) (d : Nc.Dev) (channel streamType : Int32) (known : Bool) :
    Steady c (c.startRts d channel streamType known).2 := by
  unfold startRts
  split <;> first | exact steady_of_eq rfl | exact steady_startCloud c known _ _

theorem steady_startPbs (c : Client) (d : Nc.Dev) (active known : Bool) : Steady c (c.startPbs d active known).2 := by
  unfold startPbs
  split <;> first | exact steady_of_eq rfl | exact steady_startCloud c known _ _

theorem steady_startTalk (c : Client) (d : Nc.Dev) (known : Bool) : Steady c (c.startTalk d known).2 := by
  unfold startTalk
  split <;> first | exact steady_of_eq rfl | exact steady_startCloud c known _ _

theorem steady_stop (c : Client) (s : Service) (id : Int32) : Steady c (c.stop s id).2 := by
  cases s with
  | login =>
    show Steady c (c.logout id).2
    unfold logout
    split <;> exact steady_of_eq rfl
  | cloudPbs => exact steady_stopRelay c .cloudPbs id
  | rts =>
    show Steady c (c.stopRts id).2
    unfold stopRts
    split <;> first | exact steady_of_eq rfl | exact steady_stopRelay c _ id
  | pbs =>
    show Steady c (c.stopPbs id).2
    unfold stopPbs
    split <;> first | exact steady_of_eq rfl | exact steady_stopRelay c _ id
  | talk =>
    show Steady c (c.stopTalk id).2
    unfold stopTalk
    split <;> first | exact steady_of_eq rfl | exact steady_stopRelay c _ id

theorem steady_query (c : Client) (d : Nc.Dev) (ret : Int32) : Steady c (c.query d ret).2 := by
  unfold query
  split <;> exact steady_of_eq rfl

theorem steady_setDeviceStatus (c : Client) (d : Nc.Dev) (ret : Int32) : Steady c (c.setDeviceStatus d ret).2 := by
  unfold setDeviceStatus
  split
  · exact steady_of_eq rfl
  · exact steady_query c d ret

theorem steady_controlPTZ (c : Client) (d : Nc.Dev) : Steady c (c.controlPTZ d).2 := by
  unfold controlPTZ
  split <;> exact steady_of_eq rfl

/-! ### The YS numbers -/

theorem apart_login (ha : Ys.Apart c.ys) (d : Nc.Dev) : Ys.Apart (c.login d).2.ys := by
  unfold login
  split <;> exact ha

theorem apart_startCloud (ha : Ys.Apart c.ys) (known : Bool) (t : Qh.UserType) (k : Cloud.Service) :
    Ys.Apart (if known then c.onQh (c.qh.userStart t) else c.onRelays (c.relays.start k)).2.ys := by
  cases known <;> exact ha

theorem apart_startRts (hc : c.Good) (ha : Ys.Apart c.ys) {d : Nc.Dev} {channel streamType : Int32} {known : Bool}
    (hok : CallOk c (.startRts d channel streamType known)) : Ys.Apart (c.startRts d channel streamType known).2.ys := by
  have hys : Ys.Own d → Ys.Apart (Ys.startRts c.ys d channel streamType).2 := by
    intro hd
    unfold Ys.startRts
    split
    · exact ha
    · next hneg =>
      split
      · next h => exact ha.start hc.ys (hok hd ⟨_, h.1⟩ ⟨_, h.2⟩ hneg rfl rfl)
      · exact ha
  unfold startRts
  split
  · exact ha
  · next hd => exact hys (.inl hd)
  · next hd => exact hys (.inr hd)
  · exact apart_startCloud ha known _ _
  · exact ha
  · exact ha

theorem apart_startPbs (hc : c.Good) (ha : Ys.Apart c.ys) {d : Nc.Dev} {active known : Bool}
    (hok : CallOk c (.startPbs d active known)) : Ys.Apart (c.startPbs d active known).2.ys := by
  unfold startPbs
  split
  · exact ha
  · next hd => exact ha.start hc.ys (hok (.inl hd))
  · next hd => exact ha.start hc.ys (hok (.inr hd))
  · exact apart_startCloud ha known _ _
  · exact ha
  · exact ha

theorem apart_startTalk (hc : c.Good) (ha : Ys.Apart c.ys) {d : Nc.Dev} {known : Bool}
    (hok : CallOk c (.startTalk d known)) : Ys.Apart (c.startTalk d known).2.ys := by
  unfold startTalk
  split
  · exact ha
  · next hd => exact ha.start hc.ys (hok (.inl hd))
  · next hd => exact ha.start hc.ys (hok (.inr hd))
  · exact apart_startCloud ha known _ _
  · exact ha
  · exact ha

end Client

end SabApp
