import SabApp.Nc
import SabApp.Runs

/-!
# The cloud account and its device list

`hdcctv_client2_run` copies the stored account under the lock, asks the server for the
account's devices without it, and under the lock again writes account and list back. It
does not look whether the account it asked for is still the one logged in; and it takes the
outcome of the fetch from a shared field that a login or logout has zeroed in the meantime.
-/

namespace SabApp

namespace Cloud

inductive Location where
  | us
  | cn
  deriving DecidableEq

/-- `hdcctv_cloud_user_t`. -/
structure CloudUser where
  username : List UInt8
  password : List UInt8
  mobile : List UInt8
  email : List UInt8
  location : Location
  userIpv4 : List UInt8
  deriving DecidableEq

/-- `hdcctv_device_t`. -/
structure Device where
  devId : List UInt8
  devName : List UInt8
  inIpv4 : List UInt8
  exIpv4 : List UInt8
  httpPort : Int32
  sdkPort : Int32
  streamPort : Int32
  rtspPort : Int32
  onvifPort : Int32
  deriving DecidableEq

/-- A good answer to `/u/list.php`, decoded. -/
structure ListReply where
  username : List UInt8
  mobile : List UInt8
  email : List UInt8
  userIpv4 : List UInt8
  devices : List Device

/-- What `hdcctv_client2_doDevList` fills in. -/
def CloudUser.fill (u : CloudUser) (r : ListReply) : CloudUser :=
  { u with username := r.username, mobile := r.mobile, email := r.email, userIpv4 := r.userIpv4 }

@[simp] theorem CloudUser.fill_fill (u : CloudUser) (r s : ListReply) : (u.fill r).fill s = u.fill s := rfl

/-- Whom a list was asked for: the account as given, after so many logouts. -/
structure Asked where
  given : CloudUser
  logouts : ℕ
  deriving DecidableEq

/-- The loop's own copies once `hdcctv_client2_doDevList` is back. -/
structure Fetched where
  stCloudUser : CloudUser
  stDeviceList : List Device
  asked : Asked
  good : Bool

/-- Where `hdcctv_client2_run` stands. -/
inductive AccountPc where
  | idle
  | due
  | fetch (user : CloudUser) (asked : Asked)
  | stamp (f : Fetched)
  | check (f : Fetched)
  | save (f : Fetched)
  | early
  | store (loginTick : Int32)

/-- What `hdcctv_client2_t` holds of the account. -/
structure Account where
  loginTick : Int32
  loginState : Bool
  stCloudUser : CloudUser
  listState : Bool
  listResult : Int32
  stDeviceList : List Device

/-- How a `getDevList` call came back, and whom the list was asked for and who was logged in then. -/
structure Returned where
  result : Except Int32 (CloudUser × List Device)
  listFor : Option Asked
  current : Asked
  loginState : Bool

/-- The client with what has happened to it: the account last given, the logouts, the server's
answers, whom the stored account and list were given for, and what calls got. -/
structure AccountWorld where
  account : Account
  pc : AccountPc
  tick : Int32
  callers : ℕ
  given : CloudUser
  logouts : ℕ
  answers : List (Asked × ListReply)
  userFor : CloudUser
  listFor : Option Asked
  returns : List Returned

inductive AccountAct where
  | tick
  | loginUser (u : CloudUser)
  | logout
  | getDevList
  /-- A waiting `getDevList` looks again. -/
  | poll
  | run
  | answer (r : Except Int32 ListReply)

def Fetched.origin (f : Fetched) : Option Asked := if f.good then some f.asked else none

namespace AccountPc

def fetched : AccountPc → Option Fetched
  | stamp f | check f | save f => some f
  | _ => none

/-- The account copied for the running fetch. -/
def job : AccountPc → Option (CloudUser × Asked)
  | fetch u a => some (u, a)
  | p => p.fetched.map fun f => (f.stCloudUser, f.asked)

end AccountPc

def noUser : CloudUser := ⟨[], [], [], [], .us, []⟩

namespace AccountWorld

def init : AccountWorld :=
  ⟨⟨-12345678, false, noUser, false, 0, []⟩, .idle, 0, 0, noUser, 0, [], noUser, none, []⟩

def current (w : AccountWorld) : Asked := ⟨w.given, w.logouts⟩

/-- `hdcctv_client2_loginUser`. -/
def loginUser (w : AccountWorld) (u : CloudUser) : AccountWorld :=
  { w with
    account := { w.account with
      loginTick := -12345678, loginState := true, stCloudUser := u, listState := false, listResult := 0 }
    given := u
    userFor := u }

/-- `hdcctv_client2_logout`. -/
def logout (w : AccountWorld) : AccountWorld :=
  { w with
    account := { w.account with loginTick := -12345678, loginState := false, listState := false, listResult := 0 }
    logouts := w.logouts + 1 }

def ret (w : AccountWorld) (r : Except Int32 (CloudUser × List Device)) : AccountWorld :=
  { w with returns := w.returns ++ [⟨r, w.listFor, w.current, w.account.loginState⟩] }

/-- `hdcctv_client2_getDevList` up to its loop. -/
def getDevList (w : AccountWorld) : AccountWorld :=
  if w.account.loginState then { w with callers := w.callers + 1 } else w.ret (.error Nc.errNoLogin)

/-- One round of `hdcctv_client2_getDevList`, which leaves `n` callers waiting if it returns. -/
def poll (w : AccountWorld) (n : ℕ) : AccountWorld :=
  if w.account.listResult ≠ 0 then { w.ret (.error w.account.listResult) with callers := n }
  else if w.account.listState then
    { w.ret (.ok (w.account.stCloudUser, w.account.stDeviceList)) with callers := n }
  else w

/-- The loop has the lock: it copies the account, if one is logged in. -/
def copy (w : AccountWorld) : AccountWorld :=
  { w with pc := if w.account.loginState then .fetch w.account.stCloudUser w.current else .idle }

/-- `hdcctv_client2_doDevList` is back. It had emptied the list. -/
def answer (w : AccountWorld) (u : CloudUser) (a : Asked) : Except Int32 ListReply → AccountWorld
  | .ok r => { w with account.listResult := 0, pc := .stamp ⟨u.fill r, r.devices, a, true⟩,
                      answers := w.answers ++ [(a, r)] }
  | .error e => { w with account.listResult := e, pc := .stamp ⟨u, [], a, false⟩ }

def save (w : AccountWorld) (f : Fetched) : AccountWorld :=
  { w with
    account := { w.account with
      listState := true, stCloudUser := f.stCloudUser, stDeviceList := f.stDeviceList }
    pc := .idle
    userFor := f.asked.given
    listFor := f.origin }

def run (w : AccountWorld) : Option AccountWorld :=
  match w.pc with
  | .idle => some (if isTickTimeout w.tick w.account.loginTick 60 then { w with pc := .due } else w)
  | .due => some w.copy
  | .fetch _ _ => none
  | .stamp f => some { w with account.loginTick := w.tick, pc := .check f }
  | .check f => some { w with pc := if w.account.listResult < 0 then .early else .save f }
  | .save f => some (w.save f)
  | .early => some { w with pc := .store (w.account.loginTick - 5) }
  | .store t => some { w with account.loginTick := t, pc := .idle }

def step (w : AccountWorld) : AccountAct → Option AccountWorld
  | .tick => some { w with tick := w.tick + 1 }
  | .loginUser u => some (w.loginUser u)
  | .logout => some w.logout
  | .getDevList => some w.getDevList
  | .poll => match w.callers with
    | 0 => none
    | n + 1 => some (w.poll n)
  | .run => w.run
  | .answer r => match w.pc, r with
    | .fetch u a, .ok r => some (w.answer u a (.ok r))
    | .fetch u a, .error e => if e < 0 then some (w.answer u a (.error e)) else none
    | _, _ => none

/-- `u` is the account `g` as given, or with what the server filled in for it. -/
def Filled (w : AccountWorld) (g u : CloudUser) : Prop :=
  u = g ∨ ∃ n r, (⟨g, n⟩, r) ∈ w.answers ∧ u = g.fill r

/-- A list the server gave when asked for `a`. -/
def Gave (w : AccountWorld) (a : Asked) (l : List Device) : Prop := ∃ r, (a, r) ∈ w.answers ∧ l = r.devices

/-- Account and list are those of the latest login. -/
structure Follows (w : AccountWorld) : Prop where
  user : w.userFor = w.given
  filled : w.Filled w.given w.account.stCloudUser
  list : w.account.listState = true → w.account.loginState = true ∧ w.listFor = some w.current ∧
    w.Gave w.current w.account.stDeviceList
  returns : ∀ r ∈ w.returns, ∀ u l, r.result = .ok (u, l) →
    r.loginState = true ∧ r.listFor = some r.current ∧ w.Gave r.current l

/-- The loop writes back what a good fetch brought for the account still logged in: no logout and no
login with another account came since it copied the account. -/
def SaveOk (w : AccountWorld) : AccountAct → Prop
  | .run => ∀ f, w.pc = .save f → f.origin = some w.current
  | _ => True

/-! ## What every step keeps -/

/-- The running fetch asks for the account as it once was; with no logout since, one is logged in. -/
def Asks (w : AccountWorld) (u : CloudUser) (a : Asked) : Prop :=
  w.Filled a.given u ∧ a.logouts ≤ w.logouts ∧ (a.logouts = w.logouts → w.account.loginState = true)

structure Inv (w : AccountWorld) : Prop where
  follows : w.Follows
  job : ∀ u a, w.pc.job = some (u, a) → w.Asks u a
  reply : ∀ f, w.pc.fetched = some f → f.good = true → w.Gave f.asked f.stDeviceList

theorem inv_init : Inv init := ⟨⟨rfl, .inl rfl, nofun, nofun⟩, nofun, nofun⟩

theorem Filled.fill {w : AccountWorld} {a : Asked} {u : CloudUser} {r : ListReply} (h : w.Filled a.given u)
    (hr : (a, r) ∈ w.answers) : w.Filled a.given (u.fill r) := by
  refine .inr ⟨a.logouts, r, hr, ?_⟩
  rcases h with rfl | ⟨n, s, _, rfl⟩
  · rfl
  · exact CloudUser.fill_fill ..

theorem Filled.mono {w t : AccountWorld} (hs : w.answers ⊆ t.answers) {g u : CloudUser} (h : w.Filled g u) :
    t.Filled g u := by
  rcases h with rfl | ⟨n, r, hr, rfl⟩
  · exact .inl rfl
  · exact .inr ⟨n, r, hs hr, rfl⟩

theorem Gave.mono {w t : AccountWorld} (hs : w.answers ⊆ t.answers) {a : Asked} {l : List Device} (h : w.Gave a l) :
    t.Gave a l := by
  obtain ⟨r, hr, rfl⟩ := h
  exact ⟨r, hs hr, rfl⟩

theorem Follows.frame {w : AccountWorld} (h : w.Follows) {loginTick tick : Int32} {pc : AccountPc} {n : ℕ} :
    Follows { w with account.loginTick := loginTick, pc := pc, tick := tick, callers := n } :=
  ⟨h.user, h.filled, h.list, h.returns⟩

theorem inv_loginUser {w : AccountWorld} (h : Inv w) (u : CloudUser) : Inv (w.loginUser u) where
  follows := ⟨rfl, .inl rfl, nofun, h.follows.returns⟩
  job v a hj := by
    obtain ⟨hf, hle, _⟩ := h.job v a hj
    exact ⟨hf, hle, fun _ => rfl⟩
  reply := h.reply

theorem inv_logout {w : AccountWorld} (h : Inv w) : Inv w.logout where
  follows := ⟨h.follows.user, h.follows.filled, nofun, h.follows.returns⟩
  job v a hj := by
    obtain ⟨hf, hle, _⟩ := h.job v a hj
    refine ⟨hf, Nat.le_succ_of_le hle, ?_⟩
    intro he
    exact absurd he (Nat.ne_of_lt (Nat.lt_succ_of_le hle))
  reply := h.reply

theorem inv_ret {w : AccountWorld} (h : Inv w) {r : Except Int32 (CloudUser × List Device)} {n : ℕ}
    (hr : ∀ u l, r = .ok (u, l) → w.account.loginState = true ∧ w.listFor = some w.current ∧ w.Gave w.current l) :
    Inv { w.ret r with callers := n } where
  follows := by
    refine ⟨h.follows.user, h.follows.filled, h.follows.list, ?_⟩
    intro e he u l hel
    rcases List.mem_append.mp he with he | he
    · exact h.follows.returns e he u l hel
    · rw [List.mem_singleton.mp he] at hel ⊢
      exact hr u l hel
  job := h.job
  reply := h.reply

theorem inv_getDevList {w : AccountWorld} (h : Inv w) : Inv w.getDevList := by
  unfold getDevList
  split
  · exact ⟨h.follows.frame, h.job, h.reply⟩
  · exact inv_ret h nofun

theorem inv_poll {w : AccountWorld} (h : Inv w) (n : ℕ) : Inv (w.poll n) := by
  unfold poll
  split
  · exact inv_ret h nofun
  · split
    · next hl =>
      apply inv_ret h
      intro u l he
      cases he
      exact h.follows.list hl
    · exact h

theorem inv_copy {w : AccountWorld} (h : Inv w) : Inv w.copy := by
  unfold copy
  by_cases hl : w.account.loginState = true
  · rw [if_pos hl]
    refine ⟨h.follows.frame, ?_, nofun⟩
    intro u a hj
    cases hj
    exact ⟨h.follows.filled, Nat.le_refl _, fun _ => hl⟩
  · rw [if_neg hl]
    exact ⟨h.follows.frame, nofun, nofun⟩

theorem inv_answer {w : AccountWorld} (h : Inv w) {u : CloudUser} {a : Asked} (hp : w.pc = .fetch u a)
    (r : Except Int32 ListReply) : Inv (w.answer u a r) := by
  obtain ⟨hf, hle, hl⟩ := h.job u a (by rw [hp]; rfl)
  cases r with
  | error e =>
    refine ⟨⟨h.follows.user, h.follows.filled, h.follows.list, h.follows.returns⟩, ?_, ?_⟩
    · intro v b hj
      cases hj
      exact ⟨hf, hle, hl⟩
    · intro f hf' hg
      cases hf'
      cases hg
  | ok r =>
    have hs : w.answers ⊆ (w.answer u a (.ok r)).answers := List.subset_append_left ..
    have hr : (a, r) ∈ (w.answer u a (.ok r)).answers := List.mem_append_right _ (List.mem_singleton.mpr rfl)
    refine ⟨⟨h.follows.user, h.follows.filled.mono hs, ?_, ?_⟩, ?_, ?_⟩
    · intro hst
      obtain ⟨hlog, hfor, hg⟩ := h.follows.list hst
      exact ⟨hlog, hfor, hg.mono hs⟩
    · intro e he v l hel
      obtain ⟨hlog, hfor, hg⟩ := h.follows.returns e he v l hel
      exact ⟨hlog, hfor, hg.mono hs⟩
    · intro v b hj
      cases hj
      exact ⟨(hf.mono hs).fill hr, hle, hl⟩
    · intro f hf' _
      cases hf'
      exact ⟨r, hr, rfl⟩

theorem inv_save {w : AccountWorld} (h : Inv w) {f : Fetched} (hp : w.pc = .save f)
    (ho : f.origin = some w.current) : Inv (w.save f) := by
  obtain ⟨hf, _, hl⟩ := h.job f.stCloudUser f.asked (by rw [hp]; rfl)
  have hg := h.reply f (by rw [hp]; rfl)
  cases hgood : f.good with
  | false => simp [Fetched.origin, hgood] at ho
  | true =>
    have ha : f.asked = w.current := by simpa [Fetched.origin, hgood] using ho
    rw [ha] at hf hl hg
    refine ⟨⟨congrArg Asked.given ha, hf, ?_, h.follows.returns⟩, nofun, nofun⟩
    intro _
    exact ⟨hl rfl, ho, hg hgood⟩

theorem inv_run {w t : AccountWorld} (h : Inv w) (hok : w.SaveOk .run) (hs : w.run = some t) : Inv t := by
  have hj := h.job
  have hr := h.reply
  cases hp : w.pc <;> simp only [run, hp] at hs hj hr <;> cases hs
  case idle =>
    split
    · exact ⟨h.follows.frame, nofun, nofun⟩
    · exact h
  case due => exact inv_copy h
  case stamp f => exact ⟨h.follows.frame, hj, hr⟩
  case check f =>
    split
    · exact ⟨h.follows.frame, nofun, nofun⟩
    · exact ⟨h.follows.frame, hj, hr⟩
  case save f => exact inv_save h hp (hok f hp)
  case early => exact ⟨h.follows.frame, nofun, nofun⟩
  case store t => exact ⟨h.follows.frame, nofun, nofun⟩

theorem inv_step {w t : AccountWorld} {a : AccountAct} (h : Inv w) (hok : w.SaveOk a) (hs : step w a = some t) :
    Inv t := by
  cases a with
  | tick => cases hs; exact ⟨h.follows.frame, h.job, h.reply⟩
  | loginUser u => cases hs; exact inv_loginUser h u
  | logout => cases hs; exact inv_logout h
  | getDevList => cases hs; exact inv_getDevList h
  | poll =>
    cases hc : w.callers with
    | zero => simp [step, hc] at hs
    | succ n => simp only [step, hc] at hs; cases hs; exact inv_poll h n
  | run => exact inv_run h hok hs
  | answer r =>
    cases hp : w.pc with
    | fetch u a =>
      cases r with
      | ok r => simp only [step, hp] at hs; cases hs; exact inv_answer h hp (.ok r)
      | error e =>
        simp only [step, hp] at hs
        split at hs <;> cases hs
        exact inv_answer h hp (.error e)
    | _ => simp [step, hp] at hs

/-- A stale write-back shows at once. -/
theorem save_stale {w : AccountWorld} {a : AccountAct} (hn : ¬ w.SaveOk a) :
    ∃ t, step w a = some t ∧ ¬ t.Follows := by
  cases a with
  | run =>
    simp only [SaveOk, not_forall] at hn
    obtain ⟨f, hp, ho⟩ := hn
    refine ⟨w.save f, by simp [step, run, hp], ?_⟩
    intro hf
    exact ho (hf.list rfl).2.1
  | _ => exact absurd trivial hn

/-- **The account follows the latest login** in exactly the runs where the loop only writes back what a
good fetch brought for the account still logged in. -/
theorem account_follows_iff (as : List AccountAct) : Reached step Follows init as ↔ Meets step SaveOk init as := by
  apply reached_iff_meets (I := Inv)
  · intro w a t h hok hs
    exact inv_step h hok hs
  · intro w h
    exact h.follows
  · intro w a _ hn
    exact save_stale hn
  · exact inv_init

/-! ## Runs that go wrong -/

/-- Two accounts for runs on fixed inputs. -/
def anna : CloudUser := ⟨[1], [2], [], [], .us, []⟩

def ben : CloudUser := ⟨[3], [4], [], [], .us, []⟩

def house : Device := ⟨[5], [], [], [], 80, 81, 82, 83, 84⟩

/-- Anna logs out, and Ben logs in, while her list is on its way: Ben gets it with her account. -/
theorem account_stale :
    (∃ t, exec step init [.loginUser anna, .run, .run, .logout, .answer (.ok ⟨[1], [], [], [], [house]⟩), .run, .run,
        .run] = some t ∧ t.account.loginState = false ∧ t.account.listState = true ∧ ¬ t.Follows) ∧
    ∃ t, exec step init [.loginUser anna, .run, .run, .logout, .loginUser ben, .getDevList,
        .answer (.ok ⟨[1], [], [], [], [house]⟩), .run, .run, .run, .poll] = some t ∧
      t.given = ben ∧ t.account.stCloudUser = anna ∧
      t.returns = [⟨.ok (anna, [house]), some ⟨anna, 0⟩, ⟨ben, 1⟩, true⟩] ∧ ¬ t.Follows := by
  refine ⟨⟨_, rfl, rfl, rfl, ?_⟩, ⟨_, rfl, rfl, rfl, rfl, ?_⟩⟩
  · intro hf
    exact absurd (hf.list rfl).1 (by decide)
  · intro hf
    exact absurd hf.user (by decide)

end AccountWorld

end Cloud

end SabApp
