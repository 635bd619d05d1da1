import SabApp.CloudListAnswers
import SabApp.Traced

/-!
# What a device list writes

`hdcctv_client2_doDevList` clears the entry of each device with the size of `hdcctv_qpns_alarm_t`, which is longer, and
`base64_decode` is not told how long a field is. So every answer with a device is written over what is behind the last
entry that is counted.
-/

namespace SabApp

open CText

namespace CloudHttp

open Traced

/-- `sizeof(hdcctv_cloud_user_t)` -/
def userSize : ℕ := 300

/-- `sizeof(hdcctv_device_t)` -/
def deviceSize : ℕ := 204

/-- `sizeof(hdcctv_qpns_alarm_t)` -/
def alarmSize : ℕ := 296

/-- Writes into the structures of the caller. A field begins at `off` and has `room` bytes. -/
inductive ListWrite where
  /-- to a field of the account -/
  | user (off room len : ℕ)
  /-- to the number of devices -/
  | num
  /-- to the entries from the start of the `i`-th on -/
  | clear (i len : ℕ)
  /-- to a field of the `i`-th entry -/
  | entry (i off room len : ℕ)

/-- The write stays in its field, and in the account or the entries that are counted. -/
def ListWrite.Inside (num : ℕ) : ListWrite → Prop
  | user off room len => len ≤ room ∧ off + len ≤ userSize
  | .num => True
  | clear i len => deviceSize * i + len ≤ deviceSize * num
  | entry i off room len => len ≤ room ∧ deviceSize * i + off + len ≤ deviceSize * num

/-- A lookup; `log_fatal` ends the run. -/
def found (r : Except CloudFault (Option JsonPtr)) : Traced ListWrite (Option JsonPtr) := ofOption r.toOption

/-- `base64_decode` into a field, as far as its writes are known. -/
def decodeWrite (st : ToolJson) (w : ℕ → ListWrite) (p : JsonPtr) : Traced ListWrite Unit :=
  match base64_decode (memory st p) with
  | none => fail
  | some bytes => emit (w bytes.length)

/-- `memset` of a field and a `strncpy` that leaves its last byte. -/
def copyWrite (off room : ℕ) : Traced ListWrite Unit := emits [.user off room room, .user off room (room - 1)]

/-- One round of the loop, which is also the number of the entries so far. -/
def rowWrites (st : ToolJson) (i : ℕ) : Traced ListWrite Bool := do
  match ← found (lookupV2 st "dev_list" i "dev_id"), ← found (lookupV2 st "dev_list" i "dev_name"),
    ← found (lookupV2 st "dev_list" i "in_ipv4"), ← found (lookupV2 st "dev_list" i "ex_ipv4"),
    ← found (lookupV2 st "dev_list" i "port_name"), ← found (lookupV2 st "dev_list" i "port_value") with
  | some _, some devName, some inIpv4, some exIpv4, some _, some portValue => do
    emit (.clear i alarmSize)
    emit (.entry i 0 tokenSize (tokenSize - 1))
    decodeWrite st (.entry i 72 idSize) devName
    decodeWrite st (.entry i 104 ipSize) inIpv4
    decodeWrite st (.entry i 144 ipSize) exIpv4
    emits ((List.range (scanPorts 5 (st.deref portValue)).length).map fun k => .entry i (184 + 4 * k) 4 4)
    emit .num
    pure true
  | _, _, _, _, _, _ => pure false

/-- The loop from round `i` on for `k` more rounds: the number of devices. -/
def tableWrites (row : ℕ → Traced ListWrite Bool) : ℕ → ℕ → Traced ListWrite ℕ
  | 0, i => pure i
  | k + 1, i => do
    if ← row i then tableWrites row k (i + 1) else pure i

/-- Behind the result. -/
def listWrites (st : ToolJson) : Traced ListWrite ℕ := do
  match ← found (lookup st "username"), ← found (lookup st "number"), ← found (lookup st "email"),
    ← found (lookup st "user_ipv4") with
  | some _, some _, some _, some userIpv4 => do
    copyWrite 0 strSize
    copyWrite 128 strSize
    copyWrite 192 strSize
    emit (.user 260 ipSize ipSize)
    decodeWrite st (.user 260 ipSize) userIpv4
    tableWrites (rowWrites st) alarmNum 0
  | _, _, _, _ => pure 0

/-- From the answer on. -/
def answerWrites (http : ToolHttp) : Traced ListWrite ℕ :=
  if strncmp (cstr http.command) (ascii "200") (decide ((ascii "200").length ≠ 0)).toNat ≠ 0 then pure 0
  else
    match ToolJson.parse http.body with
    | .error _ => fail
    | .ok (ret, st) =>
      if ret < 0 then pure 0
      else do
        match ← found (lookup st "result") with
        | none => pure 0
        | some result => if strncmp (st.deref result) (ascii "0") 1 ≠ 0 then pure 0 else listWrites st

/-- `hdcctv_client2_doDevList` as it writes, with the number of devices at the end. It fails where the C function leaves
the memory that it may read. -/
def doDevListWrites (ex : Exchange) : Traced ListWrite ℕ := do
  emit .num
  match ex with
  | .received http => answerWrites http
  | _ => pure 0

/-- The call writes to nothing but the account and the entries that it counts. -/
def Contained (ex : Exchange) : Prop :=
  ∃ num, (doDevListWrites ex).value = some num ∧ ∀ w ∈ (doDevListWrites ex).events, w.Inside num

/-! ## One entry -/

section
variable {st : ToolJson} {i : ℕ}

theorem found_ok (p : Option JsonPtr) : found (.ok p) = pure p := rfl

theorem bind_pure_left {α β : Type} (a : α) (f : α → Traced ListWrite β) : (pure a >>= f) = f a := rfl

/-- The writes for a device whose members are found. -/
def entryWrites (st : ToolJson) (i : ℕ) (devName inIpv4 exIpv4 portValue : JsonPtr) : Traced ListWrite Bool := do
  emit (.clear i alarmSize)
  emit (.entry i 0 tokenSize (tokenSize - 1))
  decodeWrite st (.entry i 72 idSize) devName
  decodeWrite st (.entry i 104 ipSize) inIpv4
  decodeWrite st (.entry i 144 ipSize) exIpv4
  emits ((List.range (scanPorts 5 (st.deref portValue)).length).map fun k => .entry i (184 + 4 * k) 4 4)
  emit .num
  pure true

theorem entryWrites_value {q₂ q₃ q₄ q₆ : JsonPtr} {more : Bool} (h : (entryWrites st i q₂ q₃ q₄ q₆).value = some more) :
    more = true := by
  simp only [entryWrites, value_bind, Option.bind_eq_some_iff] at h
  obtain ⟨-, -, -, -, -, -, -, -, -, -, -, -, -, -, h⟩ := h
  cases h
  rfl

theorem rowWrites_cases (hn : Named st) (i : ℕ) : (¬ Complete st i ∧ rowWrites st i = pure false) ∨
    (Complete st i ∧ ∃ q₂ q₃ q₄ q₆, rowWrites st i = entryWrites st i q₂ q₃ q₄ q₆) := by
  obtain ⟨p₁, hp₁, h₁⟩ := lookupV2_eq hn "dev_list" i "dev_id"
  obtain ⟨p₂, hp₂, h₂⟩ := lookupV2_eq hn "dev_list" i "dev_name"
  obtain ⟨p₃, hp₃, h₃⟩ := lookupV2_eq hn "dev_list" i "in_ipv4"
  obtain ⟨p₄, hp₄, h₄⟩ := lookupV2_eq hn "dev_list" i "ex_ipv4"
  obtain ⟨p₅, hp₅, h₅⟩ := lookupV2_eq hn "dev_list" i "port_name"
  obtain ⟨p₆, hp₆, h₆⟩ := lookupV2_eq hn "dev_list" i "port_value"
  have hcomplete : Complete st i ↔ p₁.isSome ∧ p₂.isSome ∧ p₃.isSome ∧ p₄.isSome ∧ p₅.isSome ∧ p₆.isSome := by
    simp [Complete, hasV2_iff hp₁, hasV2_iff hp₂, hasV2_iff hp₃, hasV2_iff hp₄, hasV2_iff hp₅, hasV2_iff hp₆]
  rw [hcomplete]
  simp only [rowWrites, h₁, h₂, h₃, h₄, h₅, h₆, found_ok, bind_pure_left]
  split
  · next q₂ q₃ q₄ _ q₆ => exact .inr ⟨by simp, q₂, q₃, q₄, q₆, rfl⟩
  · next hno =>
    refine .inl ⟨?_, rfl⟩
    rintro ⟨s₁, s₂, s₃, s₄, s₅, s₆⟩
    obtain ⟨a₁, rfl⟩ := Option.isSome_iff_exists.mp s₁
    obtain ⟨a₂, rfl⟩ := Option.isSome_iff_exists.mp s₂
    obtain ⟨a₃, rfl⟩ := Option.isSome_iff_exists.mp s₃
    obtain ⟨a₄, rfl⟩ := Option.isSome_iff_exists.mp s₄
    obtain ⟨a₅, rfl⟩ := Option.isSome_iff_exists.mp s₅
    obtain ⟨a₆, rfl⟩ := Option.isSome_iff_exists.mp s₆
    exact hno _ _ _ _ _ _ rfl rfl rfl rfl rfl rfl

/-- An entry is cleared before it is counted. -/
theorem rowWrites_clears (hn : Named st) (h : (rowWrites st i).value = some true) :
    .clear i alarmSize ∈ (rowWrites st i).events := by
  rcases rowWrites_cases hn i with ⟨-, hrow⟩ | ⟨-, q₂, q₃, q₄, q₆, hrow⟩
  · rw [hrow] at h
    cases h
  · rw [hrow]
    exact mem_bind_left (List.mem_singleton_self _) _

theorem tableWrites_clears {row : ℕ → Traced ListWrite Bool} {len num : ℕ}
    (hrow : ∀ i, (row i).value = some true → .clear i len ∈ (row i).events) : ∀ {k i : ℕ},
    (tableWrites row k i).value = some num → num = i ∧ (k = 0 ∨ (row i).value = some false) ∨
      i < num ∧ .clear (num - 1) len ∈ (tableWrites row k i).events := by
  intro k
  induction k with
  | zero =>
    intro i h
    cases h
    exact .inl ⟨rfl, .inl rfl⟩
  | succ k ih =>
    intro i h
    rw [tableWrites] at h ⊢
    rw [value_bind, Option.bind_eq_some_iff] at h
    obtain ⟨more, hmore, h⟩ := h
    cases more with
    | false =>
      cases h
      exact .inl ⟨rfl, .inr hmore⟩
    | true =>
      refine .inr ?_
      rcases ih h with ⟨rfl, -⟩ | ⟨hlt, hmem⟩
      · exact ⟨Nat.lt_succ_self i, mem_bind_left (hrow i hmore) _⟩
      · exact ⟨Nat.lt_of_succ_lt hlt, mem_bind_right hmore hmem⟩

/-! ## The list -/

/-- The writes for an account whose members are found. -/
def accountWrites (st : ToolJson) (userIpv4 : JsonPtr) : Traced ListWrite ℕ := do
  copyWrite 0 strSize
  copyWrite 128 strSize
  copyWrite 192 strSize
  emit (.user 260 ipSize ipSize)
  decodeWrite st (.user 260 ipSize) userIpv4
  tableWrites (rowWrites st) alarmNum 0

theorem listWrites_cases (hn : Named st) :
    ((¬ ∀ name ∈ accountNames, Has st name) ∧ listWrites st = pure 0) ∨
      ((∀ name ∈ accountNames, Has st name) ∧
        ∃ q, st.getValue (ascii "user_ipv4") = some (some q) ∧ listWrites st = accountWrites st q) := by
  obtain ⟨p₁, hp₁, h₁⟩ := lookup_eq hn "username"
  obtain ⟨p₂, hp₂, h₂⟩ := lookup_eq hn "number"
  obtain ⟨p₃, hp₃, h₃⟩ := lookup_eq hn "email"
  obtain ⟨p₄, hp₄, h₄⟩ := lookup_eq hn "user_ipv4"
  have hhas : (∀ name ∈ accountNames, Has st name) ↔ p₁.isSome ∧ p₂.isSome ∧ p₃.isSome ∧ p₄.isSome := by
    simp [accountNames, has_iff hp₁, has_iff hp₂, has_iff hp₃, has_iff hp₄]
  rw [hhas, hp₄]
  simp only [listWrites, h₁, h₂, h₃, h₄, found_ok, bind_pure_left]
  cases p₁ <;> cases p₂ <;> cases p₃ <;> cases p₄
  case some.some.some.some => exact .inr ⟨by simp, _, rfl, rfl⟩
  all_goals exact .inl ⟨by simp, rfl⟩

theorem decodeWrite_some {w : ℕ → ListWrite} {q : JsonPtr} {u : Unit} (h : (decodeWrite st w q).value = some u) :
    ∃ bytes, base64_decode (memory st q) = some bytes ∧ decodeWrite st w q = emit (w bytes.length) := by
  unfold decodeWrite at h ⊢
  cases hbytes : base64_decode (memory st q) with
  | none =>
    rw [hbytes] at h
    cases h
  | some bytes => exact ⟨bytes, rfl, rfl⟩

/-- Before the address is decoded only the account is written. -/
def accountCleared : List ListWrite :=
  [.user 0 strSize strSize, .user 0 strSize (strSize - 1), .user 128 strSize strSize, .user 128 strSize (strSize - 1),
    .user 192 strSize strSize, .user 192 strSize (strSize - 1), .user 260 ipSize ipSize]

theorem accountWrites_eq (q : JsonPtr) : accountWrites st q = (do
    emits accountCleared
    decodeWrite st (.user 260 ipSize) q
    tableWrites (rowWrites st) alarmNum 0) := rfl

theorem accountCleared_inside (num : ℕ) : ∀ w ∈ accountCleared, w.Inside num := by
  simp only [accountCleared, List.forall_mem_cons, ListWrite.Inside]
  exact ⟨by decide, by decide, by decide, by decide, by decide, by decide, by decide, nofun⟩

/-- The writes for a list stay inside if and only if the address fits and there is no device. -/
theorem accountWrites_inside_iff (hn : Named st) {q : JsonPtr} (hq : st.getValue (ascii "user_ipv4") = some (some q))
    (haccount : ∀ name ∈ accountNames, Has st name) :
    (∃ num, (accountWrites st q).value = some num ∧ ∀ w ∈ (accountWrites st q).events, w.Inside num) ↔ Deviceless st := by
  rw [accountWrites_eq]
  constructor
  · rintro ⟨num, hvalue, hinside⟩
    rw [bind_some (value_emits _)] at hvalue hinside
    simp only [value_bind, Option.bind_eq_some_iff] at hvalue
    obtain ⟨u, hdecode, htable⟩ := hvalue
    obtain ⟨bytes, hbytes, hwrite⟩ := decodeWrite_some hdecode
    have hrest : ∀ w ∈ (decodeWrite st (.user 260 ipSize) q >>= fun _ => tableWrites (rowWrites st) alarmNum 0).events,
        w.Inside num := fun w hw => hinside w (List.mem_append_right _ hw)
    have haddress : bytes.length ≤ ipSize := by
      have hmem : ListWrite.user 260 ipSize bytes.length ∈ (decodeWrite st (.user 260 ipSize) q).events := by
        rw [hwrite]
        exact List.mem_singleton_self _
      exact (hrest _ (mem_bind_left hmem _)).1
    refine ⟨haccount, fun p hp => ?_, fun hc => ?_⟩
    · rw [hq, Option.some.injEq, Option.some.injEq] at hp
      subst hp
      exact ⟨bytes, hbytes, haddress⟩
    · rcases tableWrites_clears (fun i => rowWrites_clears hn) htable with ⟨rfl, hzero | hfalse⟩ | ⟨hlt, hmem⟩
      · cases hzero
      · -- a first device with all its members is counted
        rcases rowWrites_cases hn 0 with ⟨hno, -⟩ | ⟨-, q₂, q₃, q₄, q₆, hrow⟩
        · exact hno hc
        · rw [hrow] at hfalse
          cases entryWrites_value hfalse
      · have hclear := hrest _ (mem_bind_right hdecode hmem)
        have h₁ : deviceSize = 204 := rfl
        have h₂ : alarmSize = 296 := rfl
        simp only [ListWrite.Inside, h₁, h₂] at hclear
        omega
  · intro h
    obtain ⟨bytes, hbytes, hlen⟩ := h.address q hq
    have hrow : rowWrites st 0 = pure false := by
      rcases rowWrites_cases hn 0 with ⟨-, hrow⟩ | ⟨hc, -⟩
      · exact hrow
      · exact absurd hc h.first
    have htable : tableWrites (rowWrites st) alarmNum 0 = pure 0 := by
      rw [show alarmNum = 31 + 1 from rfl, tableWrites, hrow]
      rfl
    have hdecode : decodeWrite st (.user 260 ipSize) q = emit (.user 260 ipSize bytes.length) := by
      rw [decodeWrite, hbytes]
    rw [htable, hdecode]
    refine ⟨0, rfl, fun w hw => ?_⟩
    rcases List.mem_append.mp hw with hw | hw
    · exact accountCleared_inside 0 w hw
    · obtain rfl : w = .user 260 ipSize bytes.length := List.eq_of_mem_singleton hw
      exact ⟨hlen, Nat.add_le_add_left hlen 260⟩

end

/-! ## The call -/

section
variable {http : ToolHttp} {st : ToolJson}

theorem ReadsZero.unique {st' : ToolJson} (h : ReadsZero http st) (h' : ReadsZero http st') : st = st' := by
  have := h.1.symm.trans h'.1
  cases this
  rfl

theorem answerWrites_refused (h : ¬ Begins2 http) : answerWrites http = pure 0 := by
  have hstatus : strncmp (cstr http.command) (ascii "200") (decide ((ascii "200").length ≠ 0)).toNat ≠ 0 :=
    fun he => h ((strncmp_one (by decide)).mp he)
  rw [answerWrites, if_pos hstatus]

/-- What the parser has read is taken where the result begins with 0. -/
theorem answerWrites_cases (hb : Begins2 http) :
    (¬ (cstr http.body).length < jsonStrSize ∧ answerWrites http = fail) ∨
      ((cstr http.body).length < jsonStrSize ∧ (∀ st, ¬ ReadsZero http st) ∧ answerWrites http = pure 0) ∨
      ((cstr http.body).length < jsonStrSize ∧ ∃ st, ReadsZero http st ∧ answerWrites http = listWrites st) := by
  have hstatus : strncmp (cstr http.command) (ascii "200") (decide ((ascii "200").length ≠ 0)).toNat = 0 :=
    (strncmp_one (by decide)).mpr hb
  rw [answerWrites, if_neg (not_not.mpr hstatus)]
  by_cases hlen : (cstr http.body).length < jsonStrSize
  case neg =>
    rw [parse_long hlen]
    exact .inl ⟨hlen, rfl⟩
  obtain ⟨ret, st, hp, hk⟩ := ToolJson.parse_kept hlen
  simp only [hp]
  have honly : ∀ {st'}, ReadsZero http st' → ret = 0 ∧ st = st' := by
    rintro st' ⟨hp', -⟩
    rw [hp] at hp'
    cases hp'
    exact ⟨rfl, rfl⟩
  rcases hk.ret with rfl | rfl
  · exact .inr (.inl ⟨hlen, fun st' h => absurd (honly h).1 (by decide), rfl⟩)
  · obtain ⟨p, hget, hlook⟩ := lookup_eq (named_of_parse hp) "result"
    rw [if_neg (Int.lt_irrefl 0), hlook, found_ok, bind_pure_left]
    cases p with
    | none =>
      refine .inr (.inl ⟨hlen, ?_, rfl⟩)
      rintro st' h
      obtain ⟨-, rfl⟩ := honly h
      obtain ⟨-, q, hq, -⟩ := h
      rw [hget] at hq
      cases hq
    | some q =>
      have htest : strncmp (st.deref q) (ascii "0") 1 = 0 ↔ (st.deref q).head? = some 48 := strncmp_one (by decide)
      dsimp only
      by_cases hhead : (st.deref q).head? = some 48
      · rw [if_neg (not_not.mpr (htest.mpr hhead))]
        exact .inr (.inr ⟨hlen, st, ⟨hp, q, hget, hhead⟩, rfl⟩)
      · rw [if_pos (mt htest.mp hhead)]
        refine .inr (.inl ⟨hlen, ?_, rfl⟩)
        rintro st' h
        obtain ⟨-, rfl⟩ := honly h
        obtain ⟨-, q', hq, hhead'⟩ := h
        rw [hget, Option.some.injEq, Option.some.injEq] at hq
        exact hhead (hq ▸ hhead')

/-- The answer is none that is taken, or one with the account and no device. -/
def Harmless (ex : Exchange) : Prop :=
  ∀ http, ex = .received http → Begins2 http → (cstr http.body).length < jsonStrSize ∧
    ∀ st, ReadsZero http st → (∀ name ∈ accountNames, Has st name) → Deviceless st

theorem contained_of_pure {ex : Exchange} (h : doDevListWrites ex = (do emit .num; pure 0)) : Contained ex := by
  refine ⟨0, by rw [h]; rfl, ?_⟩
  rw [h]
  intro w hw
  obtain rfl := List.eq_of_mem_singleton hw
  trivial

theorem contained_received (http : ToolHttp) : Contained (.received http) ↔
    ∃ num, (answerWrites http).value = some num ∧ ∀ w ∈ (answerWrites http).events, w.Inside num := by
  have hevents : ∀ w, w ∈ (doDevListWrites (.received http)).events ↔ w = .num ∨ w ∈ (answerWrites http).events :=
    fun w => List.mem_cons
  have hvalue : (doDevListWrites (.received http)).value = (answerWrites http).value := rfl
  simp only [Contained, hevents, hvalue, forall_eq_or_imp, ListWrite.Inside, true_and]

/-- **Contained.** A call writes to nothing else exactly where it takes no device. -/
theorem contained_iff (ex : Exchange) : Contained ex ↔ Harmless ex := by
  cases ex with
  | received http =>
    by_cases hb : Begins2 http
    case neg =>
      refine iff_of_true (contained_of_pure ?_) fun http' he hb' => ?_
      · rw [doDevListWrites, answerWrites_refused hb]
      · cases he
        exact absurd hb' hb
    rw [contained_received]
    rcases answerWrites_cases hb with ⟨hlen, hrun⟩ | ⟨hlen, hno, hrun⟩ | ⟨hlen, st, hzero, hrun⟩
    · refine iff_of_false ?_ fun h => hlen (h http rfl hb).1
      rintro ⟨num, hvalue, -⟩
      rw [hrun] at hvalue
      cases hvalue
    · refine iff_of_true ⟨0, by rw [hrun]; rfl, by rw [hrun]; exact nofun⟩ fun http' he _ => ?_
      cases he
      exact ⟨hlen, fun st h => absurd h (hno st)⟩
    · have hnamed := named_of_parse hzero.1
      have hharmless : Harmless (.received http) ↔ ((∀ name ∈ accountNames, Has st name) → Deviceless st) := by
        constructor
        · exact fun h => (h http rfl hb).2 st hzero
        · rintro h http' he -
          cases he
          exact ⟨hlen, fun st' h' => hzero.unique h' ▸ h⟩
      rw [hharmless, hrun]
      rcases listWrites_cases hnamed with ⟨hno, hlist⟩ | ⟨haccount, q, hq, hlist⟩
      · exact iff_of_true ⟨0, by rw [hlist]; rfl, by rw [hlist]; exact nofun⟩ fun h => absurd h hno
      · rw [hlist, accountWrites_inside_iff hnamed hq haccount]
        exact ⟨fun h _ => h, fun h => h haccount⟩
  | _ => exact iff_of_true (contained_of_pure rfl) fun http he => by cases he

/-! ## The same number of devices -/

theorem value_decodeWrite {size : ℕ} {q : JsonPtr} {bytes : List UInt8} (h : decodeInto st size q = .ok bytes)
    (w : ℕ → ListWrite) : (decodeWrite st w q).value = some () := by
  unfold decodeInto at h
  unfold decodeWrite
  cases hbytes : base64_decode (memory st q) with
  | none =>
    rw [hbytes] at h
    cases h
  | some bytes => rfl

theorem bind_ok {α β : Type} {x : Except CloudFault α} {f : α → Except CloudFault β} {b : β} (h : x >>= f = .ok b) :
    ∃ a, x = .ok a ∧ f a = .ok b := by
  cases x with
  | error e => cases h
  | ok a => exact ⟨a, rfl, h⟩

theorem value_rowWrites (hn : Named st) {i : ℕ} {r : Option Device} (h : deviceRow st i = .ok r) :
    (rowWrites st i).value = some r.isSome := by
  by_cases hc : Complete st i
  · have hall := hc
    simp only [Complete, List.forall_mem_cons] at hall
    obtain ⟨⟨q₁, h₁⟩, ⟨q₂, h₂⟩, ⟨q₃, h₃⟩, ⟨q₄, h₄⟩, ⟨q₅, h₅⟩, ⟨q₆, h₆⟩, -⟩ := hall
    simp only [deviceRow, lookupV2, h₁, h₂, h₃, h₄, h₅, h₆, ToolJson.ok_bind] at h
    obtain ⟨b₂, hb₂, h⟩ := bind_ok h
    obtain ⟨b₃, hb₃, h⟩ := bind_ok h
    obtain ⟨b₄, hb₄, h⟩ := bind_ok h
    cases h
    simp only [rowWrites, lookupV2, h₁, h₂, h₃, h₄, h₅, h₆, found_ok, bind_pure_left, value_bind, value_emit, value_emits,
      value_decodeWrite hb₂, value_decodeWrite hb₃, value_decodeWrite hb₄, Option.bind_some, value_pure,
      Option.isSome_some]
  · rw [deviceRow_incomplete hn hc] at h
    cases h
    rcases rowWrites_cases hn i with ⟨-, hrow⟩ | ⟨hc', -⟩
    · rw [hrow]
      rfl
    · exact absurd hc' hc

theorem value_tableWrites (hn : Named st) : ∀ {k i : ℕ} {ds : List Device}, tableLoop (deviceRow st) k i = .ok ds →
    (tableWrites (rowWrites st) k i).value = some (i + ds.length) := by
  intro k
  induction k with
  | zero =>
    intro i ds h
    cases h
    rfl
  | succ k ih =>
    intro i ds h
    rw [tableLoop] at h
    obtain ⟨r, hr, h⟩ := bind_ok h
    rw [tableWrites, value_bind, value_rowWrites hn hr, Option.bind_some]
    cases r with
    | none =>
      cases h
      rfl
    | some d =>
      cases hrest : tableLoop (deviceRow st) k (i + 1) with
      | error e =>
        rw [hrest] at h
        cases h
      | ok rest =>
        rw [hrest] at h
        cases h
        have := ih hrest
        rw [List.length_cons, ← Nat.add_assoc, Nat.add_right_comm]
        exact this

theorem value_listWrites (hn : Named st) {user : CloudUser} {ret : ℤ} {user' : CloudUser} {ds : List Device}
    (h : devList user st = .ok (ret, user', ds)) : (listWrites st).value = some ds.length := by
  obtain ⟨p₁, -, h₁⟩ := lookup_eq hn "username"
  obtain ⟨p₂, -, h₂⟩ := lookup_eq hn "number"
  obtain ⟨p₃, -, h₃⟩ := lookup_eq hn "email"
  obtain ⟨p₄, -, h₄⟩ := lookup_eq hn "user_ipv4"
  simp only [devList, h₁, h₂, h₃, h₄, ToolJson.ok_bind] at h
  simp only [listWrites, h₁, h₂, h₃, h₄, found_ok, bind_pure_left]
  cases p₁ <;> cases p₂ <;> cases p₃ <;> cases p₄
  case some.some.some.some =>
    obtain ⟨bytes, hbytes, h⟩ := bind_ok h
    obtain ⟨devices, hdevices, h⟩ := bind_ok h
    cases h
    simp only [copyWrite, value_bind, value_emit, value_emits, value_decodeWrite hbytes, Option.bind_some,
      value_tableWrites hn hdevices, Nat.zero_add]
  all_goals
    cases h
    rfl

/-- Where the call returns, its writes are known and count the devices that it returns. -/
theorem value_doDevListWrites {user user' : CloudUser} {ex : Exchange} {ret : ℤ} {ds : List Device}
    (h : hdcctv_client2_doDevList user ex = .ok (ret, user', ds)) : (doDevListWrites ex).value = some ds.length := by
  cases ex with
  | received http =>
    show (answerWrites http).value = _
    rw [hdcctv_client2_doDevList, exchange] at h
    rw [answerWrites]
    split at h
    · next hstatus =>
      cases h
      rw [if_pos hstatus]
      rfl
    · next hstatus =>
      rw [if_neg hstatus]
      rw [parsed] at h
      cases hp : ToolJson.parse http.body with
      | error e =>
        rw [hp] at h
        cases h
      | ok r =>
        obtain ⟨ret', st⟩ := r
        simp only [hp, Except.mapError, ToolJson.ok_bind] at h
        dsimp only
        split at h
        · next hneg =>
          cases h
          rw [if_pos hneg]
          rfl
        · next hneg =>
          obtain ⟨p, -, hlook⟩ := lookup_eq (named_of_parse hp) "result"
          rw [hlook, ToolJson.ok_bind] at h
          rw [if_neg hneg, hlook, found_ok, bind_pure_left]
          cases p with
          | none =>
            cases h
            rfl
          | some q =>
            dsimp only at h ⊢
            split at h
            · next hresult =>
              cases h
              rw [if_pos hresult]
              rfl
            · next hresult =>
              rw [if_neg hresult]
              exact value_listWrites (named_of_parse hp) h
  | _ =>
    cases h
    rfl

end

/-! ## Device lists -/

/-- HDCCTV_CLIENT_DEVICE_NUM -/
def clientDeviceNum : ℕ := 100

/-- An answer with these devices that the parser accepts. -/
structure Answers (http : ToolHttp) (t : JsonDocument) (ds : List ListedDevice) : Prop where
  status : cstr http.command = ascii "200"
  body : cstr http.body = t.text
  answer : ListAnswer t ds
  fits : ∀ d ∈ ds, d.Fits
  accepted : ∃ st, ToolJson.parse http.body = .ok (0, st)

section
variable {http : ToolHttp} {t : JsonDocument} {ds : List ListedDevice}

theorem Answers.begins (h : Answers http t ds) : Begins2 http := by
  rw [Begins2, h.status]
  rfl

/-- Every answer with a device is written over the end of the entries. -/
theorem Answers.not_contained (h : Answers http t ds) (hne : ds ≠ []) : ¬ Contained (.received http) := by
  rw [contained_iff]
  intro hharmless
  obtain ⟨st, hp⟩ := h.accepted
  have hp' : ToolJson.parse t.text = .ok (0, st) := parse_cstr h.body t.zero_not_mem ▸ hp
  obtain ⟨hs, hitems⟩ := h.answer.reads hne hp'
  obtain ⟨q, hq, hhead⟩ := h.answer.result_zero hs hitems
  have hzero : ReadsZero http st := ⟨hp, q, getValue_of_lookup hq, hhead⟩
  have hless := (hharmless http rfl h.begins).2 st hzero (h.answer.has_account hs hitems)
  obtain ⟨x, hx, hname, hlists⟩ := h.answer.array
  have hpos : 0 < ds.length := List.length_pos_iff.mpr hne
  have hpos' : 0 < x.elements.length := hlists.length_eq ▸ hpos
  have hrow := row_listed hx hs hitems hname (List.getElem?_eq_getElem hpos') (hlists.get hpos' hpos)
    (h.fits _ (List.getElem_mem hpos))
  exact hless.first ((deviceRow_some_iff hs.named).mp ⟨_, hrow⟩).1

/-- **Device lists.** The devices of an answer come back, each in its place, if and only if the loop has a round for each
and an empty list is read as one; and a call writes to nothing but the account and the entries that it counts if and only
if it takes no device. -/
theorem doDevList_iff (user : CloudUser) : (∀ http t ds, Answers http t ds →
    (Listed user http ds ↔ ds.length ≤ alarmNum ∧ (ds = [] → ReadEmpty http))) ∧
    ∀ ex, Contained ex ↔ Harmless ex := by
  constructor
  · intro http t ds h
    obtain ⟨st, hp⟩ := h.accepted
    exact h.answer.whole_iff h.fits h.begins h.body hp
  · exact contained_iff

end

/-- A device without texts. -/
def plainDevice : ListedDevice := ⟨[], [], [], [], [0, 0, 0, 0, 0]⟩

def plainElement : JsonElement := ⟨.none, ⟨.none, [
  .compact (.ofAscii "dev_id") (.str (.ofAscii "")), .compact (.ofAscii "dev_name") (.str (.ofAscii "")),
  .compact (.ofAscii "in_ipv4") (.str (.ofAscii "")), .compact (.ofAscii "ex_ipv4") (.str (.ofAscii "")),
  .compact (.ofAscii "port_name") (.str (.ofAscii "")), .compact (.ofAscii "port_value") (.str (.ofAscii "0;0;0;0;0"))]⟩,
  .none⟩

/-- An answer with `n` such devices. -/
def plainAnswer (n : ℕ) : JsonDocument where
  lead := .none
  blank := .none
  entries := [
    .leaf (.compact (.ofAscii "result") (.num (.digit 48))), .leaf (.compact (.ofAscii "username") (.str (.ofAscii ""))),
    .leaf (.compact (.ofAscii "number") (.str (.ofAscii ""))), .leaf (.compact (.ofAscii "email") (.str (.ofAscii ""))),
    .leaf (.compact (.ofAscii "user_ipv4") (.str (.ofAscii ""))),
    .array ⟨.none, .ofAscii "dev_list", .none, .none, .none, List.replicate n plainElement, .none⟩]
  trail := .none

theorem lists_plain : Lists plainElement plainDevice where
  devId := ⟨_, rfl, rfl⟩
  devName := ⟨_, rfl, rfl⟩
  inIpv4 := ⟨_, rfl, rfl⟩
  exIpv4 := ⟨_, rfl, rfl⟩
  portName := ⟨_, _, rfl, rfl⟩
  portValue := ⟨_, rfl, rfl⟩
  apart := by decide

theorem lists_replicate : ∀ n : ℕ, List.Forall₂ Lists (List.replicate n plainElement) (List.replicate n plainDevice)
  | 0 => .nil
  | n + 1 => .cons lists_plain (lists_replicate n)

theorem plainAnswer_full {n : ℕ} (hn : n ≠ 0) : ∀ e ∈ (plainAnswer n).entries, e.Full ∧ e.Tight := by
  have helement : plainElement.Full ∧ plainElement.Tight := ⟨by simp [JsonElement.Full, plainElement], by simp [JsonElement.Tight, plainElement]; decide⟩
  simp only [plainAnswer, List.forall_mem_cons, JsonEntry.Full, JsonEntry.Tight, JsonArray.Full, JsonArray.Tight]
  refine ⟨by decide, by decide, by decide, by decide, by decide, ⟨⟨?_, fun e he => ?_⟩, rfl, fun e he => ?_⟩, List.forall_mem_nil _⟩
  · simpa using hn
  · exact List.eq_of_mem_replicate he ▸ helement.1
  · exact List.eq_of_mem_replicate he ▸ helement.2

theorem answers_plain {n : ℕ} (hn : n ≠ 0) (hlen : (plainAnswer n).text.length < jsonStrSize) :
    Answers ⟨ascii "200", (plainAnswer n).text⟩ (plainAnswer n) (List.replicate n plainDevice) where
  status := rfl
  body := cstr_of_not_mem (plainAnswer n).zero_not_mem
  answer := {
    array := ⟨_, rfl, rfl, lists_replicate n⟩
    result := ⟨_, rfl, rfl⟩
    username := ⟨_, _, rfl, rfl⟩
    number := ⟨_, _, rfl, rfl⟩
    email := ⟨_, _, rfl, rfl⟩
    userIpv4 := ⟨[], by decide, _, rfl, rfl⟩ }
  fits := by
    intro d hd
    rw [List.eq_of_mem_replicate hd]
    exact ⟨by decide, by decide, by decide, by decide, rfl, by decide⟩
  accepted := by
    obtain ⟨st, hp, -⟩ := JsonDocument.document_reads hlen (t := plainAnswer n) nofun (plainAnswer_full hn)
    exact ⟨st, hp⟩

theorem devList_one (user : CloudUser) : Listed user ⟨ascii "200", (plainAnswer 1).text⟩ [plainDevice] :=
  ((doDevList_iff user).1 _ _ _ (answers_plain (n := 1) (by decide) (by decide +kernel))).mpr ⟨by decide, nofun⟩

/-- Of 33 devices 32 are listed, and for one device the next entry is written too. -/
theorem devList_cut : (¬ ∀ user http t ds, Answers http t ds → ds.length ≤ clientDeviceNum → Listed user http ds) ∧
    ¬ ∀ ex, Contained ex := by
  constructor
  · intro h
    have hanswers := answers_plain (n := 33) (by decide) (by decide +kernel)
    obtain ⟨st, hp⟩ := hanswers.accepted
    have hlisted := h ⟨[], [], [], []⟩ _ _ _ hanswers (by decide)
    rw [hanswers.answer.listed_iff hanswers.fits nofun hanswers.begins hanswers.body hp] at hlisted
    exact absurd hlisted (by decide)
  · intro h
    exact (answers_plain (n := 1) (by decide) (by decide +kernel)).not_contained nofun (h _)

end CloudHttp

end SabApp
