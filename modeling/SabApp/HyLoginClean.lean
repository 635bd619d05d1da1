import SabApp.HyLogin
import SabApp.Postings

/-!
# What a login of an HY device takes and gives back

A login opens the message connection, a stream for each channel and the playback, step by step, and a failure at any
step leaves all of it to `nc_hy_dev_logout`. A stream's threads and memory go with its state, its connection with the
descriptor. A failure of `malloc`, of a thread's creation or of `socket` ends the process.
-/

namespace SabApp

namespace HyLogin

open Traced Postings

inductive Kind where
  | sock
  | ring
  | recvFrame
  | cbFrame
  | playThread
  | recvThread
  deriving DecidableEq

inductive Place where
  | rts (i : ℕ)
  | pbs
  deriving DecidableEq

inductive Resource where
  | msgSock
  | stream (p : Place) (k : Kind)
  | talkStream
  deriving DecidableEq

/-! ## The code with its resources -/

namespace Stream

def holds (s : Stream) : Kind → Bool
  | .sock => s.live
  | _ => s.threads

/-- What a stream's opening takes; `made` tells of a refused connection whether it had a socket. -/
def opens (made : Bool) : Opening → List (Posting Kind)
  | .unconnected => if made then [.take .sock, .give .sock] else []
  | .unsent => [.take .sock]
  | .opened => [.take .sock, .take .ring, .take .recvFrame, .take .cbFrame, .take .playThread, .take .recvThread]

def after (s : Stream) : Opening → Stream
  | .unconnected => s.unconnected
  | .unsent => s.unsent
  | .opened => s.opened

def closes (s : Stream) : List (Posting Kind) :=
  (if s.state then [.give .playThread, .give .recvThread, .give .recvFrame, .give .cbFrame, .give .ring] else []) ++
    if s.live then [.give .sock] else []

end Stream

abbrev At (p : Place) (es : List (Posting Kind)) : List (Posting Resource) := es.map (Posting.map (.stream p))

namespace Dev

def get (d : Dev) : Place → Stream
  | .rts i => d.rts i
  | .pbs => d.pbs

def set (d : Dev) (p : Place) (s : Stream) : Dev :=
  match p with
  | .rts i => { d with rts := Function.update d.rts i s }
  | .pbs => { d with pbs := s }

def holds (d : Dev) : Resource → Bool
  | .msgSock => d.msgLive
  | .stream p k => (d.get p).holds k
  | .talkStream => d.talkSendStream

/-- What `nc_hy_dev_logout` gives back, in its order. -/
def closes (d : Dev) : List (Posting Resource) :=
  (if d.msgLive then [.give .msgSock] else []) ++
    (List.range channelSize).flatMap (fun i => At (.rts i) (d.rts i).closes) ++ At .pbs d.pbs.closes ++
    if d.talkSendStream then [.give .talkStream] else []

def logoutAt (d : Dev) : Traced (Posting Resource) Dev := do
  emits d.closes
  pure d.logout

variable (made : Resource → Bool)

def login0At (d : Dev) (a : Login0D2c) (next : Dev → Traced (Posting Resource) (Int32 × Dev)) :
    Traced (Posting Resource) (Int32 × Dev) :=
  if a.cmd ≠ cmdLogin0D2c then pure (d.failed .loginFail Nc.errProtocol)
  else if a.fail ≠ 0 then
    if a.failCode = 0 ∨ a.failCode = 1 then pure (d.failed .authFail Nc.errAuth)
    else if a.failCode = 6 then pure (d.failed .maxConnect Nc.errMaxConnect)
    else pure (0, d)
  else if a.chNum.toNat > channelSize then pure (d.failed .loginFail Nc.errInternal)
  else next { d with chNum := a.chNum, id := a.id }

def rtsLoopAt (outs : ℕ → Opening) : ℕ → ℕ → Dev → Traced (Posting Resource) (Int32 × Dev)
  | 0, _, d => pure (0, d)
  | k + 1, i, d => do
    emits (At (.rts i) (Stream.opens (made (.stream (.rts i) .sock)) (outs i)))
    let d := d.set (.rts i) ((d.rts i).after (outs i))
    match outs i with
    | .unconnected => pure (d.failed .startFail Nc.errConnect)
    | .unsent => pure (d.failed .startFail Nc.errSend)
    | .opened => rtsLoopAt outs k (i + 1) d

def login1At (outs : ℕ → Opening) (pbs : Opening) (d : Dev) : Traced (Posting Resource) (Int32 × Dev) := do
  let (ret, d) ← rtsLoopAt made outs d.chNum.toNat 0 { d with online := .start }
  if ret ≠ 0 then pure (ret, d)
  else do
    emits (At .pbs (Stream.opens (made (.stream .pbs .sock)) pbs))
    let d := d.set .pbs (d.pbs.after pbs)
    match pbs with
    | .unconnected => pure (d.failed .startFail Nc.errConnect)
    | .unsent => pure (d.failed .startFail Nc.errSend)
    | .opened => do
      emits [.take .talkStream]
      pure (0, { d with talkSendStream := true })

def loginEndAt (r : Int32 × Dev) : Traced (Posting Resource) (Int32 × Dev) :=
  if r.1 < 0 then do
    let d ← r.2.logoutAt
    pure (r.1, d)
  else pure (r.1, { r.2 with online := .running })

/-- `nc_hy_dev_login`, with what it takes and gives back. -/
def loginAt (d : Dev) (due : Bool) (x : Exchange) (outs : ℕ → Opening) (pbs : Opening) :
    Traced (Posting Resource) (Int32 × Dev) :=
  if d.msgLive then pure (0, d)
  else if due = false then pure (-1, d)
  else
    let live : Dev := { d with msgLive := true, online := .login }
    match x with
    | .unconnected => do
      emits (if made .msgSock then [.take .msgSock, .give .msgSock] else [])
      loginEndAt (d.failed .connectFail Nc.errConnect)
    | .unsent => do
      emits [.take .msgSock]
      loginEndAt (live.failed .loginFail Nc.errSend)
    | .unreceived => do
      emits [.take .msgSock]
      loginEndAt (live.failed .loginFail Nc.errRecv)
    | .answered a => do
      emits [.take .msgSock]
      let r ← live.login0At a (login1At made outs pbs)
      loginEndAt r

end Dev

/-! ## It is the code -/

namespace Dev

variable (made : Resource → Bool)

theorem value_rtsLoopAt (outs : ℕ → Opening) : ∀ (k i : ℕ) (d : Dev),
    (rtsLoopAt made outs k i d).value = some (rtsLoop outs k i d)
  | 0, _, _ => rfl
  | k + 1, i, d => by
    rw [rtsLoopAt, rtsLoop, value_bind, value_emits, Option.bind_some]
    cases outs i with
    | unconnected => rfl
    | unsent => rfl
    | opened => exact value_rtsLoopAt outs k (i + 1) _

theorem value_login1At (outs : ℕ → Opening) (pbs : Opening) (d : Dev) :
    (login1At made outs pbs d).value = some (login1 outs pbs d) := by
  rw [login1At, login1, value_bind, value_rtsLoopAt, Option.bind_some]
  dsimp only
  split
  · rfl
  · cases pbs <;> rfl

theorem value_loginEndAt (r : Int32 × Dev) : (loginEndAt r).value = some (loginEnd r) := by
  unfold loginEndAt loginEnd
  split <;> rfl

theorem value_login0At (d : Dev) (a : Login0D2c) {next : Dev → Int32 × Dev}
    {nextAt : Dev → Traced (Posting Resource) (Int32 × Dev)} (h : ∀ d, (nextAt d).value = some (next d)) :
    (d.login0At a nextAt).value = some (d.login0 a next) := by
  unfold login0At login0
  split
  · rfl
  split
  · split
    · rfl
    split <;> rfl
  split
  · rfl
  · exact h _

theorem value_loginAt (d : Dev) (due : Bool) (x : Exchange) (outs : ℕ → Opening) (pbs : Opening) :
    (d.loginAt made due x outs pbs).value = some (d.login due x outs pbs) := by
  unfold loginAt login
  split
  · rfl
  split
  · rfl
  cases x with
  | unconnected => exact value_loginEndAt _
  | unsent => exact value_loginEndAt _
  | unreceived => exact value_loginEndAt _
  | answered a =>
    dsimp only
    rw [value_bind, value_emits, Option.bind_some, value_bind, value_login0At _ a (value_login1At made outs pbs),
      Option.bind_some, value_loginEndAt]

end Dev

/-! ## Streams -/

/-- A stream that is not open, and has nothing. -/
def Stream.off : Stream := ⟨false, false, false, false, false⟩

namespace Stream

def flag (s : Stream) (errorFlag active : Bool) : Stream := { s with errorFlag, active }

theorem opens_posted (made : Bool) (o : Opening) {s : Stream} (hl : s.live = false) (ht : s.threads = false) :
    exec post s.holds (opens made o) = some (s.after o).holds := by
  obtain ⟨state, live, threads, errorFlag, active⟩ := s
  cases hl
  cases ht
  cases o with
  | unconnected =>
    cases made
    · exact congrArg some (funext fun k => by cases k <;> rfl)
    · exact congrArg some (funext fun k => by cases k <;> rfl)
  | unsent => exact congrArg some (funext fun k => by cases k <;> rfl)
  | opened => exact congrArg some (funext fun k => by cases k <;> rfl)

/-- The threads and the memory go with the state. -/
theorem closes_posted {s : Stream} (h : s.threads = s.state) : exec post s.holds s.closes = some s.close.holds := by
  obtain ⟨state, live, threads, errorFlag, active⟩ := s
  cases h
  cases state <;> cases live <;> exact congrArg some (funext fun k => by cases k <;> rfl)

end Stream

namespace Dev

/-! ## The books of a device -/

theorem get_set (d : Dev) (p q : Place) (s : Stream) : (d.set p s).get q = if q = p then s else d.get q := by
  cases p with
  | rts i =>
    cases q with
    | rts j =>
      by_cases h : j = i
      · rw [if_pos (by rw [h]), h]
        exact Function.update_self ..
      · rw [if_neg (by simpa using h)]
        exact Function.update_of_ne h ..
    | pbs => exact (if_neg nofun).symm
  | pbs =>
    cases q with
    | rts j => exact (if_neg nofun).symm
    | pbs => exact (if_pos rfl).symm

theorem set_flags (d : Dev) (p : Place) (s : Stream) :
    (d.set p s).msgLive = d.msgLive ∧ (d.set p s).talkSendStream = d.talkSendStream := by
  cases p <;> exact ⟨rfl, rfl⟩

/-- What is posted for a stream is posted for its device. -/
theorem at_posted {d : Dev} {p : Place} {es : List (Posting Kind)} {s : Stream}
    (h : exec post (d.get p).holds es = some s.holds) : exec post d.holds (At p es) = some (d.set p s).holds := by
  refine exec_embed (f := Resource.stream p) (fun k k' hk => by cases hk; rfl) h ?_ ?_
  · funext k
    show ((d.set p s).get p).holds k = s.holds k
    rw [get_set, if_pos rfl]
  · intro r hr
    cases r with
    | msgSock => exact (d.set_flags p s).1
    | talkStream => exact (d.set_flags p s).2
    | stream q k =>
      have hq : q ≠ p := fun he => hr k (by rw [he])
      show ((d.set p s).get q).holds k = (d.get q).holds k
      rw [get_set, if_neg hq]

/-- Each stream has its threads and its memory exactly while its state is set, and there are no more than
NC_HY_CHANNEL_SIZE live ones. -/
structure Even (d : Dev) : Prop where
  even : ∀ p, (d.get p).threads = (d.get p).state
  beyond : ∀ i, channelSize ≤ i → d.rts i = .off

theorem Even.set {d : Dev} (h : d.Even) {p : Place} {s : Stream} (hs : s.threads = s.state)
    (hp : ∀ i, p = .rts i → i < channelSize) : (d.set p s).Even := by
  refine ⟨fun q => ?_, fun i hi => ?_⟩
  · rw [get_set]
    split
    · exact hs
    · exact h.even q
  · have hne : Place.rts i ≠ p := fun he => absurd (hp i he.symm) (Nat.not_lt.mpr hi)
    have hget := d.get_set p (.rts i) s
    rw [if_neg hne] at hget
    exact hget.trans (h.beyond i hi)

def closed (d : Dev) (n : ℕ) : Dev := { d with rts := fun i => if i < n then (d.rts i).close else d.rts i }

theorem closed_succ (d : Dev) (n : ℕ) : (d.closed n).set (.rts n) (d.rts n).close = d.closed (n + 1) := by
  have hrts : Function.update (d.closed n).rts n (d.rts n).close = (d.closed (n + 1)).rts := by
    funext i
    by_cases hi : i = n
    · rw [hi, Function.update_self]
      exact (if_pos (Nat.lt_succ_self n)).symm
    · rw [Function.update_of_ne hi]
      show (if i < n then (d.rts i).close else d.rts i) = if i < n + 1 then (d.rts i).close else d.rts i
      by_cases hlt : i < n
      · rw [if_pos hlt, if_pos (by omega)]
      · rw [if_neg hlt, if_neg (by omega)]
  rw [set, hrts]
  rfl

theorem rts_closes_posted {d : Dev} (h : d.Even) : ∀ n, exec post d.holds
    ((List.range n).flatMap fun i => At (.rts i) (d.rts i).closes) = some (d.closed n).holds
  | 0 => by
    have : d.closed 0 = d := by simp [closed]
    rw [this]
    rfl
  | n + 1 => by
    have hget : (d.closed n).get (.rts n) = d.rts n := if_neg (Nat.lt_irrefl n)
    rw [List.range_succ, List.flatMap_append, List.flatMap_singleton, exec_append_of (rts_closes_posted h n), ← d.closed_succ n]
    refine at_posted ?_
    rw [hget]
    exact Stream.closes_posted (h.even (.rts n))

theorem msg_closes_posted (d : Dev) :
    exec post d.holds (if d.msgLive then [.give .msgSock] else []) = some ({ d with msgLive := false } : Dev).holds := by
  cases hm : d.msgLive with
  | false => exact congrArg some (funext fun r => by cases r <;> first | exact hm | rfl)
  | true =>
    have hheld : d.holds .msgSock = true := hm
    rw [if_pos rfl, exec_singleton, post_give hheld]
    exact congrArg some (funext fun r => by cases r <;> rfl)

theorem talk_closes_posted (d : Dev) :
    exec post d.holds (if d.talkSendStream then [.give .talkStream] else []) =
      some ({ d with talkSendStream := false } : Dev).holds := by
  cases ht : d.talkSendStream with
  | false => exact congrArg some (funext fun r => by cases r <;> first | exact ht | rfl)
  | true =>
    have hheld : d.holds .talkStream = true := ht
    rw [if_pos rfl, exec_singleton, post_give hheld]
    exact congrArg some (funext fun r => by cases r <;> rfl)

/-- **Logging out** gives back all that the device has. -/
theorem closes_posted {d : Dev} (h : d.Even) : exec post d.holds d.closes = some nothing := by
  let d₁ : Dev := { d with msgLive := false }
  let d₂ := d₁.closed channelSize
  let d₃ := d₂.set .pbs d.pbs.close
  have heven : d₁.Even := ⟨fun p => by cases p; exacts [h.even (.rts _), h.even .pbs], h.beyond⟩
  have h₁ : exec post d.holds (if d.msgLive then [.give .msgSock] else []) = some d₁.holds := d.msg_closes_posted
  have h₂ : exec post d₁.holds ((List.range channelSize).flatMap fun i => At (.rts i) (d.rts i).closes) = some d₂.holds :=
    rts_closes_posted heven channelSize
  have h₃ : exec post d₂.holds (At .pbs d.pbs.closes) = some d₃.holds :=
    at_posted (p := .pbs) (Stream.closes_posted (h.even .pbs))
  have h₄ : exec post d₃.holds (if d.talkSendStream then [.give .talkStream] else []) =
      some { d₃ with talkSendStream := false }.holds := d₃.talk_closes_posted
  rw [closes, List.append_assoc, List.append_assoc, exec_append_of h₁, exec_append_of h₂, exec_append_of h₃, h₄]
  refine congrArg some (funext fun r => ?_)
  cases r with
  | msgSock => rfl
  | talkStream => rfl
  | stream p k =>
    have hclose : ∀ s : Stream, s.threads = s.state → s.close.holds k = false := by
      intro s hs
      have hthreads : s.close.threads = false := by
        show (s.threads && !s.state) = false
        rw [hs]
        cases s.state <;> rfl
      cases k <;> first | rfl | exact hthreads
    cases p with
    | rts i =>
      show (if i < channelSize then (d.rts i).close else d.rts i).holds k = false
      by_cases hi : i < channelSize
      · rw [if_pos hi]
        exact hclose _ (h.even (.rts i))
      · rw [if_neg hi, h.beyond i (Nat.le_of_not_lt hi)]
        cases k <;> rfl
    | pbs => exact hclose _ (h.even .pbs)

/-! ## Login -/

/-- No stream is open. -/
structure Bare (d : Dev) : Prop where
  rts : ∀ i, d.rts i = .off
  pbs : d.pbs = { Stream.off with active := d.pbs.active }
  talkSendStream : d.talkSendStream = false

/-- The device of no session: nothing is open, and what `nc_hy_dev_logout` resets is reset. -/
structure Rest (d : Dev) : Prop extends d.Bare where
  msgLive : d.msgLive = false
  pbsPause : d.pbsPause = false
  lastTalkEnable : d.lastTalkEnable = false
  lastPtzCmd : d.lastPtzCmd = 0

theorem Even.logout {d : Dev} (h : d.Even) : d.logout.Rest := by
  have hclose : ∀ s : Stream, s.threads = s.state → s.close = .off := by
    intro s hs
    have hthreads : (s.threads && !s.state) = false := by
      rw [hs]
      cases s.state <;> rfl
    rw [Stream.close, hthreads]
    rfl
  refine ⟨⟨fun i => ?_, ?_, rfl⟩, rfl, rfl, rfl, rfl⟩
  · show (if i < channelSize then (d.rts i).close else d.rts i) = .off
    by_cases hi : i < channelSize
    · rw [if_pos hi]
      exact hclose _ (h.even (.rts i))
    · rw [if_neg hi]
      exact h.beyond i (Nat.le_of_not_lt hi)
  · show ({ d.pbs.close with active := d.pbs.active && !d.pbs.state } : Stream) =
      { Stream.off with active := d.pbs.active && !d.pbs.state }
    rw [hclose d.pbs (h.even .pbs)]

theorem Bare.get {d : Dev} (h : d.Bare) (p : Place) :
    (d.get p).state = false ∧ (d.get p).live = false ∧ (d.get p).threads = false := by
  cases p with
  | rts i =>
    show (d.rts i).state = false ∧ (d.rts i).live = false ∧ (d.rts i).threads = false
    rw [h.rts i]
    exact ⟨rfl, rfl, rfl⟩
  | pbs =>
    show d.pbs.state = false ∧ d.pbs.live = false ∧ d.pbs.threads = false
    rw [h.pbs]
    exact ⟨rfl, rfl, rfl⟩

theorem Bare.even {d : Dev} (h : d.Bare) : d.Even :=
  ⟨fun p => (h.get p).2.2.trans (h.get p).1.symm, fun i _ => h.rts i⟩

theorem Rest.holds {d : Dev} (h : d.Rest) : d.holds = nothing := by
  funext r
  cases r with
  | msgSock => exact h.msgLive
  | talkStream => exact h.talkSendStream
  | stream p k =>
    obtain ⟨-, hl, ht⟩ := h.toBare.get p
    cases k <;> first | exact hl | exact ht

/-- The parts of a device that its resources are read from are the same. -/
theorem holds_congr {d d' : Dev} (hm : d'.msgLive = d.msgLive) (hr : d'.rts = d.rts) (hp : d'.pbs = d.pbs)
    (ht : d'.talkSendStream = d.talkSendStream) : d'.holds = d.holds := by
  funext r
  cases r with
  | msgSock => exact hm
  | talkStream => exact ht
  | stream p k =>
    cases p with
    | rts i => exact congrArg (fun s : ℕ → Stream => (s i).holds k) hr
    | pbs => exact congrArg (fun s : Stream => s.holds k) hp

theorem Even.congr {d d' : Dev} (h : d.Even) (hr : d'.rts = d.rts) (hp : d'.pbs = d.pbs) : d'.Even := by
  refine ⟨fun p => ?_, fun i hi => ?_⟩
  · cases p with
    | rts i =>
      show (d'.rts i).threads = (d'.rts i).state
      rw [hr]
      exact h.even (.rts i)
    | pbs =>
      show d'.pbs.threads = d'.pbs.state
      rw [hp]
      exact h.even .pbs
  · rw [hr]
    exact h.beyond i hi

structure Right (d : Dev) (held : Resource → Bool) : Prop where
  held : held = d.holds
  even : d.Even

theorem Right.online {d : Dev} {held : Resource → Bool} (h : d.Right held) (online : Online) :
    ({ d with online := online } : Dev).Right held :=
  ⟨h.held.trans (holds_congr rfl rfl rfl rfl), h.even.congr rfl rfl⟩

variable (made : Resource → Bool)

/-- The opening of a stream that is off, whatever comes of it. -/
theorem opens_books {d : Dev} (h : d.Even) {p : Place} (hp : ∀ i, p = .rts i → i < channelSize)
    (hoff : (d.get p).live = false ∧ (d.get p).threads = false) (o : Opening) :
    Books d.holds (emits.{0, 0} (At p (Stream.opens (made (.stream p .sock)) o)))
      (fun _ held => (d.set p ((d.get p).after o)).Right held) := by
  refine (books_emits (at_posted (Stream.opens_posted _ o hoff.1 hoff.2))).imp fun _ held he => ⟨he, h.set ?_ hp⟩
  cases o with
  | unconnected => exact hoff.2
  | unsent => exact hoff.2
  | opened => rfl

theorem rtsLoopAt_books (outs : ℕ → Opening) : ∀ (k i : ℕ) {d : Dev}, d.Even → (∀ j, i ≤ j → d.rts j = .off) →
    i + k ≤ channelSize → Books d.holds (rtsLoopAt made outs k i d)
      (fun r held => r.2.Right held ∧ ∃ rts online, r.2 = { d with rts, online }) := by
  intro k
  induction k with
  | zero => exact fun i d h _ _ => books_pure ⟨⟨rfl, h⟩, d.rts, d.online, rfl⟩
  | succ k ih =>
    intro i d h hoff hle
    have hi := hoff i (Nat.le_refl i)
    have hplace : ∀ j, Place.rts i = .rts j → j < channelSize := by
      intro j hj
      cases hj
      omega
    rw [rtsLoopAt]
    refine (opens_books made h hplace (p := .rts i) ?_ (outs i)).bind fun _ held hright => ?_
    · show (d.rts i).live = false ∧ (d.rts i).threads = false
      rw [hi]
      exact ⟨rfl, rfl⟩
    generalize outs i = o at hright ⊢
    cases o with
    | unconnected => exact books_pure ⟨hright.online _, _, _, rfl⟩
    | unsent => exact books_pure ⟨hright.online _, _, _, rfl⟩
    | opened =>
      rw [hright.held]
      refine (ih (i + 1) hright.even (fun j hj => ?_) (by omega)).imp ?_
      · have hne : Place.rts j ≠ .rts i := by
          intro he
          cases he
          omega
        have hget := d.get_set (.rts i) (.rts j) ((d.rts i).after .opened)
        rw [if_neg hne] at hget
        exact hget.trans (hoff j (by omega))
      · rintro r held' ⟨hr, rts, online, he⟩
        exact ⟨hr, rts, online, he⟩

/-- How the steps of a login end, from the device they begin with. -/
structure Ended (d : Dev) (r : Int32 × Dev) (held : Resource → Bool) : Prop where
  right : r.2.Right held
  msgLive : r.2.msgLive = d.msgLive
  failed : r.1 < 0 → r.2.pbs.state = false ∧ r.2.pbs.active = d.pbs.active

theorem login1At_books {d : Dev} (h : d.Bare) (hch : d.chNum.toNat ≤ channelSize) (outs : ℕ → Opening) (pbs : Opening) :
    Books d.holds (login1At made outs pbs d) d.Ended := by
  have heven : ({ d with online := .start } : Dev).Even := h.even.congr rfl rfl
  have hloop := rtsLoopAt_books made outs d.chNum.toNat 0 heven (fun j _ => h.rts j) (by omega)
  have hholds : ({ d with online := .start } : Dev).holds = d.holds := holds_congr rfl rfl rfl rfl
  rw [hholds] at hloop
  refine hloop.bind ?_
  rintro ⟨ret, d'⟩ held ⟨hright, rts, online, he⟩
  dsimp only at hright he ⊢
  subst he
  have hpbs : d.pbs.state = false ∧ d.pbs.live = false ∧ d.pbs.threads = false := h.get .pbs
  split
  · exact books_pure ⟨hright, rfl, fun _ => ⟨hpbs.1, rfl⟩⟩
  rw [hright.held]
  refine (opens_books made hright.even (p := .pbs) nofun hpbs.2 pbs).bind fun _ held' hright' => ?_
  generalize pbs = o at hright' ⊢
  cases o with
  | unconnected => exact books_pure ⟨hright'.online _, rfl, fun _ => ⟨rfl, rfl⟩⟩
  | unsent => exact books_pure ⟨hright'.online _, rfl, fun _ => ⟨rfl, rfl⟩⟩
  | opened =>
    have htalk : held' .talkStream = false := by
      rw [hright'.held]
      exact h.talkSendStream
    have hneg : ¬(0 : Int32) < 0 := by decide
    have hposted : exec post held' [.take .talkStream] = some (Function.update held' .talkStream true) := by
      rw [exec_singleton]
      exact post_take htalk
    refine (books_emits hposted).bind fun _ held'' he => ?_
    refine books_pure ⟨⟨?_, hright'.even.congr rfl rfl⟩, rfl, fun hret => absurd hret hneg⟩
    rw [he, hright'.held]
    exact funext fun r => by cases r <;> rfl

theorem login0At_books {d : Dev} (h : d.Bare) (a : Login0D2c) (outs : ℕ → Opening) (pbs : Opening) :
    Books d.holds (d.login0At a (login1At made outs pbs)) d.Ended := by
  have hright : d.Right d.holds := ⟨rfl, h.even⟩
  have hpbs := (h.get .pbs).1
  unfold login0At
  split
  · exact books_pure ⟨hright.online _, rfl, fun _ => ⟨hpbs, rfl⟩⟩
  split
  · split
    · exact books_pure ⟨hright.online _, rfl, fun _ => ⟨hpbs, rfl⟩⟩
    split
    · exact books_pure ⟨hright.online _, rfl, fun _ => ⟨hpbs, rfl⟩⟩
    · exact books_pure ⟨hright, rfl, fun _ => ⟨hpbs, rfl⟩⟩
  split
  · exact books_pure ⟨hright.online _, rfl, fun _ => ⟨hpbs, rfl⟩⟩
  next hch =>
  have hbare : ({ d with chNum := a.chNum, id := a.id } : Dev).Bare := ⟨h.rts, h.pbs, h.talkSendStream⟩
  have hbooks := login1At_books made hbare (Nat.le_of_not_lt hch) outs pbs
  have hholds : ({ d with chNum := a.chNum, id := a.id } : Dev).holds = d.holds := holds_congr rfl rfl rfl rfl
  rw [hholds] at hbooks
  exact hbooks.imp fun r held hr => ⟨hr.right, hr.msgLive, hr.failed⟩

/-- What a login leaves: right books, and after a failure a device of no session, with nothing held. -/
structure Left (d : Dev) (r : Int32 × Dev) (held : Resource → Bool) : Prop where
  right : r.2.Right held
  live : ¬r.1 < 0 → r.2.msgLive = true
  failed : r.1 < 0 → r.2.Rest ∧ r.2.pbs.active = d.pbs.active

theorem logoutAt_books {d : Dev} (h : d.Even) :
    Books d.holds d.logoutAt (fun d' held => d' = d.logout ∧ held = nothing) :=
  (books_emits (closes_posted h)).bind fun _ _ he => books_pure ⟨rfl, he⟩

theorem Ended.left {d : Dev} {r : Int32 × Dev} {held : Resource → Bool} (h : d.Ended r held)
    (hlive : r.1 < 0 ∨ d.msgLive = true) : Books held (loginEndAt r) d.Left := by
  unfold loginEndAt
  split
  · next hneg =>
    obtain ⟨hstate, hactive⟩ := h.failed hneg
    have hrest := h.right.even.logout
    rw [h.right.held]
    refine (logoutAt_books h.right.even).bind ?_
    rintro _ held' ⟨rfl, rfl⟩
    refine books_pure ⟨⟨hrest.holds.symm, hrest.even⟩, fun hpos => absurd hneg hpos, fun _ => ⟨hrest, ?_⟩⟩
    show (r.2.pbs.active && !r.2.pbs.state) = d.pbs.active
    rw [hstate, hactive, Bool.not_false, Bool.and_true]
  · next hpos =>
    exact books_pure ⟨h.right.online _, fun _ => h.msgLive.trans (hlive.resolve_left hpos), fun hneg => absurd hneg hpos⟩

theorem Left.pbs {d d' : Dev} {r : Int32 × Dev} {held : Resource → Bool} (h : d'.Left r held)
    (hp : d'.pbs.active = d.pbs.active) : d.Left r held :=
  ⟨h.right, h.live, fun hneg => ⟨(h.failed hneg).1, (h.failed hneg).2.trans hp⟩⟩

/-- A login without a session keeps the books, and a failure leaves nothing. -/
theorem loginAt_books {d : Dev} (h : d.Rest) (due : Bool) (x : Exchange) (outs : ℕ → Opening) (pbs : Opening) :
    Books d.holds (d.loginAt made due x outs pbs) d.Left := by
  have hright : d.Right d.holds := ⟨rfl, h.even⟩
  let live : Dev := { d with msgLive := true, online := .login }
  have hbare : live.Bare := ⟨h.rts, h.pbs, h.talkSendStream⟩
  have hmsg : d.holds .msgSock = false := h.msgLive
  have htake : exec post d.holds [.take .msgSock] = some live.holds := by
    rw [exec_singleton, post_take hmsg]
    exact congrArg some (funext fun r => by cases r <;> rfl)
  have hlive : live.Right live.holds := ⟨rfl, hbare.even⟩
  have hstate : d.pbs.state = false := (h.toBare.get .pbs).1
  unfold loginAt
  rw [if_neg (by rw [h.msgLive]; exact Bool.false_ne_true)]
  split
  · exact books_pure ⟨hright, fun hpos => absurd (show (-1 : Int32) < 0 by decide) hpos, fun _ => ⟨h, rfl⟩⟩
  cases x with
  | unconnected =>
    have hrefused : exec post d.holds (if made .msgSock then [.take .msgSock, .give .msgSock] else []) = some d.holds := by
      split
      · exact exec_take_give hmsg
      · rfl
    refine (books_emits hrefused).bind fun _ held he => ?_
    rw [he]
    exact Ended.left ⟨hright.online _, rfl, fun _ => ⟨hstate, rfl⟩⟩ (.inl (show Nc.errConnect < 0 by decide))
  | unsent =>
    refine (books_emits htake).bind fun _ held he => ?_
    rw [he]
    exact (Ended.left (d := live) ⟨hlive.online _, rfl, fun _ => ⟨hstate, rfl⟩⟩ (.inr rfl)).imp fun r held hr => hr.pbs rfl
  | unreceived =>
    refine (books_emits htake).bind fun _ held he => ?_
    rw [he]
    exact (Ended.left (d := live) ⟨hlive.online _, rfl, fun _ => ⟨hstate, rfl⟩⟩ (.inr rfl)).imp fun r held hr => hr.pbs rfl
  | answered a =>
    refine (books_emits htake).bind fun _ held he => ?_
    rw [he]
    refine (login0At_books made hbare a outs pbs).bind fun r held hr => ?_
    exact (hr.left (.inr rfl)).imp fun r held hr => hr.pbs rfl

/-! ## Runs -/

/-- What is done with a device, one thing after the other. -/
inductive Act where
  | login (due : Bool) (made : Resource → Bool) (x : Exchange) (outs : ℕ → Opening) (pbs : Opening)
  | session (errorFlag active : Place → Bool) (pbsPause lastTalkEnable : Bool) (lastPtzCmd : UInt8)
  | logout

/-- What a session changes, its threads and the functions of `nc_hy_dev_runLogin`: no resource of the device. -/
def session (d : Dev) (errorFlag active : Place → Bool) (pbsPause lastTalkEnable : Bool) (lastPtzCmd : UInt8) : Dev :=
  if d.msgLive then
    { d with
      rts := fun i => if i < channelSize then (d.rts i).flag (errorFlag (.rts i)) (active (.rts i)) else d.rts i
      pbs := d.pbs.flag (errorFlag .pbs) (active .pbs)
      pbsPause, lastTalkEnable, lastPtzCmd }
  else d

def act (d : Dev) : Act → Traced (Posting Resource) Dev
  | .login due made x outs pbs => do
    let r ← d.loginAt made due x outs pbs
    pure r.2
  | .session errorFlag active pbsPause lastTalkEnable lastPtzCmd =>
    pure (d.session errorFlag active pbsPause lastTalkEnable lastPtzCmd)
  | .logout => d.logoutAt

def run : Dev → List Act → Traced (Posting Resource) Dev
  | d, [] => pure d
  | d, a :: as => do
    let d ← d.act a
    run d as

/-- The invariant: the books are right, and a device without the message connection has no session. -/
structure Inv (d : Dev) (held : Resource → Bool) : Prop where
  right : d.Right held
  rest : d.msgLive = false → d.Rest

theorem Rest.inv {d : Dev} (h : d.Rest) : d.Inv nothing := ⟨⟨h.holds.symm, h.even⟩, fun _ => h⟩

theorem loginAt_live {d : Dev} (h : d.msgLive = true) (due : Bool) (x : Exchange) (outs : ℕ → Opening) (pbs : Opening) :
    d.loginAt made due x outs pbs = pure (0, d) :=
  if_pos h

theorem session_get (d : Dev) (errorFlag active : Place → Bool) (pbsPause lastTalkEnable : Bool) (lastPtzCmd : UInt8) (p : Place) :
    ((d.session errorFlag active pbsPause lastTalkEnable lastPtzCmd).get p).state = (d.get p).state ∧
      ((d.session errorFlag active pbsPause lastTalkEnable lastPtzCmd).get p).threads = (d.get p).threads ∧
      ((d.session errorFlag active pbsPause lastTalkEnable lastPtzCmd).get p).holds = (d.get p).holds := by
  have hflag : ∀ (s : Stream) (e a : Bool), (s.flag e a).holds = s.holds := fun s e a => funext fun k => by cases k <;> rfl
  unfold Dev.session
  split
  · cases p with
    | pbs => exact ⟨rfl, rfl, hflag _ _ _⟩
    | rts i =>
      dsimp only [get]
      split
      · exact ⟨rfl, rfl, hflag _ _ _⟩
      · exact ⟨rfl, rfl, rfl⟩
  · exact ⟨rfl, rfl, rfl⟩

theorem session_flags (d : Dev) (errorFlag active : Place → Bool) (pbsPause lastTalkEnable : Bool) (lastPtzCmd : UInt8) :
    (d.session errorFlag active pbsPause lastTalkEnable lastPtzCmd).msgLive = d.msgLive ∧
      (d.session errorFlag active pbsPause lastTalkEnable lastPtzCmd).talkSendStream = d.talkSendStream ∧
      ∀ i, channelSize ≤ i → (d.session errorFlag active pbsPause lastTalkEnable lastPtzCmd).rts i = d.rts i := by
  unfold Dev.session
  split
  · exact ⟨rfl, rfl, fun i hi => if_neg (Nat.not_lt.mpr hi)⟩
  · exact ⟨rfl, rfl, fun _ _ => rfl⟩

theorem Inv.session {d : Dev} {held : Resource → Bool} (h : d.Inv held) (errorFlag active : Place → Bool)
    (pbsPause lastTalkEnable : Bool) (lastPtzCmd : UInt8) :
    (d.session errorFlag active pbsPause lastTalkEnable lastPtzCmd).Inv held := by
  have hget := d.session_get errorFlag active pbsPause lastTalkEnable lastPtzCmd
  obtain ⟨hm, ht, hbeyond⟩ := d.session_flags errorFlag active pbsPause lastTalkEnable lastPtzCmd
  refine ⟨⟨?_, fun p => ?_, fun i hi => ?_⟩, fun hlive => ?_⟩
  · rw [h.right.held]
    funext r
    cases r with
    | msgSock => exact hm.symm
    | talkStream => exact ht.symm
    | stream p k => exact congrFun (hget p).2.2.symm k
  · rw [(hget p).1, (hget p).2.1]
    exact h.right.even.even p
  · rw [hbeyond i hi]
    exact h.right.even.beyond i hi
  · rw [hm] at hlive
    have hsame : d.session errorFlag active pbsPause lastTalkEnable lastPtzCmd = d := if_neg (by rw [hlive]; exact Bool.false_ne_true)
    rw [hsame]
    exact h.rest hlive

/-- **A step** keeps the invariant. -/
theorem Inv.act {d : Dev} {held : Resource → Bool} (h : d.Inv held) (a : Act) : Books held (d.act a) Inv := by
  cases a with
  | login due made x outs pbs =>
    by_cases hm : d.msgLive = true
    · rw [Dev.act, loginAt_live made hm]
      exact books_pure h
    · have hrest := h.rest (Bool.eq_false_iff.mpr hm)
      rw [h.right.held]
      refine (loginAt_books made hrest due x outs pbs).bind fun r held' hr => books_pure ⟨hr.right, fun hm' => ?_⟩
      by_cases hneg : r.1 < 0
      · exact (hr.failed hneg).1
      · exact absurd ((hr.live hneg).symm.trans hm') nofun
  | session errorFlag active pbsPause lastTalkEnable lastPtzCmd => exact books_pure (h.session _ _ _ _ _)
  | logout =>
    rw [h.right.held]
    refine (logoutAt_books h.right.even).imp ?_
    rintro _ _ ⟨rfl, rfl⟩
    exact h.right.even.logout.inv

/-- **A run** keeps it. -/
theorem Inv.run : ∀ (as : List Act) {d : Dev} {held : Resource → Bool}, d.Inv held → Books held (d.run as) Inv
  | [], _, _, h => books_pure h
  | a :: as, _, _, h => (h.act a).bind fun _ _ h' => Inv.run as h'

/-! ## The next login -/

/-- Two devices between which neither a login nor what it leaves can tell. -/
structure Like (d d' : Dev) : Prop where
  msgLive : d.msgLive = d'.msgLive
  rts : d.rts = d'.rts
  state : d.pbs.state = d'.pbs.state
  live : d.pbs.live = d'.pbs.live
  talkSendStream : d.talkSendStream = d'.talkSendStream

/-- The same is returned, and the devices stay alike. -/
def Same (r r' : Int32 × Dev) : Prop := r.1 = r'.1 ∧ r.2.Like r'.2

theorem Rest.like {d d' : Dev} (h : d.Rest) (h' : d'.Rest) : d.Like d' := by
  obtain ⟨hs, hl, -⟩ := h.toBare.get .pbs
  obtain ⟨hs', hl', -⟩ := h'.toBare.get .pbs
  exact ⟨h.msgLive.trans h'.msgLive.symm, funext fun i => (h.rts i).trans (h'.rts i).symm, hs.trans hs'.symm, hl.trans hl'.symm,
    h.talkSendStream.trans h'.talkSendStream.symm⟩

theorem Like.closes {d d' : Dev} (h : d.Like d') : d.closes = d'.closes := by
  simp only [Dev.closes, Stream.closes, h.msgLive, h.rts, h.state, h.live, h.talkSendStream]

theorem Like.set_rts {d d' : Dev} (h : d.Like d') (i : ℕ) (o : Opening) :
    (d.set (.rts i) ((d.rts i).after o)).Like (d'.set (.rts i) ((d'.rts i).after o)) :=
  ⟨h.msgLive, by rw [set, set, h.rts], h.state, h.live, h.talkSendStream⟩

theorem Like.set_pbs {d d' : Dev} (h : d.Like d') (o : Opening) :
    (d.set .pbs (d.pbs.after o)).Like (d'.set .pbs (d'.pbs.after o)) := by
  cases o with
  | unconnected => exact ⟨h.msgLive, h.rts, rfl, h.live, h.talkSendStream⟩
  | unsent => exact ⟨h.msgLive, h.rts, rfl, rfl, h.talkSendStream⟩
  | opened => exact ⟨h.msgLive, h.rts, rfl, rfl, h.talkSendStream⟩

theorem Like.failed {d d' : Dev} (h : d.Like d') (online : Online) (ret : Int32) :
    Same (d.failed online ret) (d'.failed online ret) :=
  ⟨rfl, h.msgLive, h.rts, h.state, h.live, h.talkSendStream⟩

theorem rtsLoopAt_alike (outs : ℕ → Opening) : ∀ (k i : ℕ) {d d' : Dev}, d.Like d' →
    Traced.Alike Same (rtsLoopAt made outs k i d) (rtsLoopAt made outs k i d')
  | 0, _, _, _, h => alike_pure ⟨rfl, h⟩
  | k + 1, i, d, d', h => by
    rw [rtsLoopAt, rtsLoopAt]
    refine (alike_emits _).bind fun _ _ _ => ?_
    have hset := h.set_rts i (outs i)
    generalize outs i = o at hset ⊢
    cases o with
    | unconnected => exact alike_pure (hset.failed _ _)
    | unsent => exact alike_pure (hset.failed _ _)
    | opened => exact rtsLoopAt_alike outs k (i + 1) hset

theorem login1At_alike {d d' : Dev} (h : d.Like d') (hch : d.chNum = d'.chNum) (outs : ℕ → Opening) (pbs : Opening) :
    Traced.Alike Same (login1At made outs pbs d) (login1At made outs pbs d') := by
  have hstart : ({ d with online := .start } : Dev).Like { d' with online := .start } :=
    ⟨h.msgLive, h.rts, h.state, h.live, h.talkSendStream⟩
  obtain ⟨k, hk, hk'⟩ : ∃ k, d.chNum.toNat = k ∧ d'.chNum.toNat = k := ⟨_, rfl, by rw [hch]⟩
  rw [login1At, login1At, hk, hk']
  refine (rtsLoopAt_alike made outs k 0 hstart).bind ?_
  rintro ⟨ret, e⟩ ⟨ret', e'⟩ ⟨hret, hlike⟩
  dsimp only at hret hlike ⊢
  subst hret
  split
  · exact alike_pure ⟨rfl, hlike⟩
  refine (alike_emits _).bind fun _ _ _ => ?_
  have hset := hlike.set_pbs pbs
  generalize pbs = o at hset ⊢
  cases o with
  | unconnected => exact alike_pure (hset.failed _ _)
  | unsent => exact alike_pure (hset.failed _ _)
  | opened => exact (alike_emits _).bind fun _ _ _ => alike_pure ⟨rfl, hset.msgLive, hset.rts, hset.state, hset.live, rfl⟩

theorem login0At_alike {d d' : Dev} (h : d.Like d') (a : Login0D2c) (outs : ℕ → Opening) (pbs : Opening) :
    Traced.Alike Same (d.login0At a (login1At made outs pbs)) (d'.login0At a (login1At made outs pbs)) := by
  unfold login0At
  split
  · exact alike_pure (h.failed _ _)
  split
  · split
    · exact alike_pure (h.failed _ _)
    split
    · exact alike_pure (h.failed _ _)
    · exact alike_pure ⟨rfl, h⟩
  split
  · exact alike_pure (h.failed _ _)
  · have hwelcome : ({ d with chNum := a.chNum, id := a.id } : Dev).Like { d' with chNum := a.chNum, id := a.id } :=
      ⟨h.msgLive, h.rts, h.state, h.live, h.talkSendStream⟩
    exact login1At_alike made hwelcome rfl outs pbs

theorem loginEndAt_alike {r r' : Int32 × Dev} (h : Same r r') : Traced.Alike Same (loginEndAt r) (loginEndAt r') := by
  obtain ⟨hret, hlike⟩ := h
  have hlogout : r.2.logout.Like r'.2.logout := ⟨rfl, by simp only [logout, hlike.rts], rfl, rfl, rfl⟩
  unfold loginEndAt logoutAt
  rw [← hret, ← hlike.closes]
  split
  · exact ((alike_emits _).bind (S := Like) fun _ _ _ => alike_pure hlogout).bind fun _ _ hl => alike_pure ⟨rfl, hl⟩
  · exact alike_pure ⟨rfl, hlike.msgLive, hlike.rts, hlike.state, hlike.live, hlike.talkSendStream⟩

theorem loginAt_alike {d d' : Dev} (h : d.Like d') (due : Bool) (x : Exchange) (outs : ℕ → Opening) (pbs : Opening) :
    Traced.Alike Same (d.loginAt made due x outs pbs) (d'.loginAt made due x outs pbs) := by
  have hlive : ({ d with msgLive := true, online := .login } : Dev).Like { d' with msgLive := true, online := .login } :=
    ⟨rfl, h.rts, h.state, h.live, h.talkSendStream⟩
  unfold loginAt
  rw [← h.msgLive]
  split
  · exact alike_pure ⟨rfl, h⟩
  split
  · exact alike_pure ⟨rfl, h⟩
  cases x with
  | unconnected => exact (alike_emits _).bind fun _ _ _ => loginEndAt_alike (h.failed _ _)
  | unsent => exact (alike_emits _).bind fun _ _ _ => loginEndAt_alike (hlive.failed _ _)
  | unreceived => exact (alike_emits _).bind fun _ _ _ => loginEndAt_alike (hlive.failed _ _)
  | answered a =>
    exact (alike_emits _).bind fun _ _ _ => (login0At_alike made hlive a outs pbs).bind fun _ _ hs => loginEndAt_alike hs

theorem idle_rest : idle.Rest := ⟨⟨fun _ => rfl, rfl, rfl⟩, rfl, rfl, rfl, rfl⟩

/-- What a failed login of `d` leaves, as `d'`: each state is 0, the device is as it was, and the next login does what the
first one would. -/
structure Clean (d d' : Dev) : Prop where
  states : ∀ p, (d'.get p).state = false
  device : d' = { d with online := d'.online, chNum := d'.chNum, id := d'.id }
  next : ∀ made due x outs pbs, Traced.Alike Same (d'.loginAt made due x outs pbs) (idle.loginAt made due x outs pbs)

theorem Rest.clean {d d' : Dev} (h : d.Rest) (h' : d'.Rest) (ha : d'.pbs.active = d.pbs.active) : Clean d d' := by
  refine ⟨fun p => (h'.toBare.get p).1, ?_, fun made due x outs pbs => loginAt_alike made (h'.like idle_rest) due x outs pbs⟩
  have hrts : d'.rts = d.rts := funext fun i => (h'.rts i).trans (h.rts i).symm
  have hpbs : d'.pbs = d.pbs := by
    rw [h'.pbs, ha]
    exact h.pbs.symm
  have hm := h'.msgLive.trans h.msgLive.symm
  have hpause := h'.pbsPause.trans h.pbsPause.symm
  have htalk := h'.lastTalkEnable.trans h.lastTalkEnable.symm
  have hsend := h'.talkSendStream.trans h.talkSendStream.symm
  have hptz := h'.lastPtzCmd.trans h.lastPtzCmd.symm
  clear h' ha
  cases d'
  dsimp only at hrts hpbs hm hpause htalk hsend hptz
  subst hrts hpbs hm hpause htalk hsend hptz
  rfl

/-- **A failed login leaves nothing.** After any run of a device, a login that fails gives back all it has taken, and takes
and gives back nothing else; it leaves the device as it was, and the next login does what the first one would. -/
theorem failed_login_clean (as : List Act) (due : Bool) (x : Exchange) (outs : ℕ → Opening) (pbs : Opening) :
    ∃ d ret d', (idle.run as).value = some d ∧ (d.loginAt made due x outs pbs).value = some (ret, d') ∧
      d.login due x outs pbs = (ret, d') ∧
      (ret < 0 → exec post nothing ((idle.run as).events ++ (d.loginAt made due x outs pbs).events) = some nothing ∧
        Clean d d') := by
  obtain ⟨d, held, hd, hposted, hinv⟩ := idle_rest.inv.run as
  have hvalue := value_loginAt made d due x outs pbs
  refine ⟨d, (d.login due x outs pbs).1, (d.login due x outs pbs).2, hd, hvalue, rfl, fun hneg => ?_⟩
  have hm : d.msgLive = false := by
    refine Bool.eq_false_iff.mpr fun hm => ?_
    rw [loginAt_live made hm] at hvalue
    rw [← Option.some.inj hvalue] at hneg
    exact absurd (show (0 : Int32) < 0 from hneg) (by decide)
  have hrest := hinv.rest hm
  obtain ⟨r, held', hr, hposted', hleft⟩ := loginAt_books made hrest due x outs pbs
  rw [hvalue] at hr
  cases hr
  obtain ⟨hrest', hactive⟩ := hleft.failed hneg
  refine ⟨?_, hrest.clean hrest' hactive⟩
  rw [exec_append_of hposted, hinv.right.held, hposted', hleft.right.held, hrest'.holds]

end Dev

end HyLogin

end SabApp
