import SabApp.Accesses
import SabApp.Http

/-!
# Any stream into tool_http_Recv

What `tool_http_Recv` writes, whatever arrives: into its line, its field, body and message buffers, and the caller's. A body
is received for a `Content-Length` from 1 to 32766; any other number counts as none.
-/

namespace SabApp

namespace Http

open CText ToolJson Traced

/-- What a read finds: bytes, of which it takes as many as it asks for, an error, that the time is over, or `*flag` cleared.
Behind the last one the time runs out. -/
inductive Arrival where
  | bytes (bs : List UInt8)
  | failed
  | late
  | stopped

inductive Field where
  | command
  | url
  | version
  | session
  | xSessioncookie
  | contentType
  | authorization
  | host
  deriving DecidableEq

def Field.size : Field → ℕ
  | url => urlSize
  | _ => paramSize

inductive HttpEffect where
  | line (x : Access)
  /-- `strncpy` of so many bytes to the beginning of a field. -/
  | field (f : Field) (n : ℤ)
  | body (x : Access)
  /-- An access to `tmpBuf`. -/
  | tmp (x : Access)
  /-- An access to `buf`. -/
  | caller (x : Access)

/-- The access is inside of its buffer; the caller's has `size` bytes. -/
def HttpEffect.Inside (size : ℤ) : HttpEffect → Prop
  | line x => x.Within 0 lineSize
  | field f n => 0 ≤ n ∧ n ≤ f.size
  | body x => x.Within 0 bodySize
  | tmp x => x.Within 0 msgSize
  | caller x => x.Within 0 size.toNat

/-! ## Reading -/

inductive Got where
  | byte (b : UInt8) (rest : List Arrival)
  | stopped (rest : List Arrival)
  | failed

/-- A read of one byte, again where it brings none. -/
def nextByte : List Arrival → Got
  | [] => .failed
  | .bytes [] :: s => nextByte s
  | .bytes (b :: bs) :: s => .byte b (.bytes bs :: s)
  | .stopped :: s => .stopped s
  | .failed :: _ | .late :: _ => .failed

/-- `tool_sock_item_recvLine`, at place `i` of the line with room for so many more bytes. -/
def tool_sock_item_recvLine : ℕ → ℕ → List Arrival → Traced HttpEffect (List UInt8 × List Arrival)
  | 0, _, _ => fail
  | room + 1, i, s =>
    match nextByte s with
    | .failed => fail
    | .stopped s => pure ([], s)
    | .byte b s => do
      emit (.line (.write i [b]))
      if b = 10 then pure ([b], s)
      else
        let r ← tool_sock_item_recvLine room (i + 1) s
        pure (b :: r.1, r.2)

/-- `tool_sock_item_recv` of `n` bytes to place `a` of the body; fewer where `*flag` is cleared. -/
def tool_sock_item_recv : ℕ → ℕ → List Arrival → Traced HttpEffect (List UInt8 × List Arrival)
  | _, 0, s => pure ([], s)
  | _, _ + 1, [] => fail
  | _, _ + 1, .failed :: _ => fail
  | _, _ + 1, .late :: _ => fail
  | _, _ + 1, .stopped :: s => pure ([], s)
  | a, n + 1, .bytes p :: s =>
    if p.length ≤ n then do
      emit (.body (.write a p))
      let r ← tool_sock_item_recv (a + p.length) (n + 1 - p.length) s
      pure (p ++ r.1, r.2)
    else do
      emit (.body (.write a (p.take (n + 1))))
      pure (p.take (n + 1), .bytes (p.drop (n + 1)) :: s)

/-! ## A line -/

def tool_http_parseRequest (h : ToolHttp) (line : List UInt8) : Traced HttpEffect ToolHttp := do
  let (command, stop) ← ofOption (cut (ascii " ") paramSize line)
  emit (.field .command command.length)
  let (url, stop) ← ofOption (cut (ascii " HTTP/") urlSize (stop.drop 1))
  emit (.field .url url.length)
  let (version, _) ← ofOption (cut crlf paramSize (stop.drop 1))
  emit (.field .version version.length)
  pure { h with command := put h.command command, url := put h.url url, version := put h.version version }

def tool_http_parseAnswer (h : ToolHttp) (line : List UInt8) : Traced HttpEffect ToolHttp := do
  let (version, stop) ← ofOption (cut (ascii " ") paramSize line)
  emit (.field .version version.length)
  let (command, stop) ← ofOption (cut (ascii " ") paramSize (stop.drop 1))
  emit (.field .command command.length)
  let (url, _) ← ofOption (cut crlf urlSize (stop.drop 1))
  emit (.field .url url.length)
  pure { h with version := put h.version version, command := put h.command command, url := put h.url url }

/-- The field that a header line is copied to. -/
def headerField (line : List UInt8) : Option Field :=
  if (ascii "Seq").isPrefixOf line then none
  else if (ascii "Session").isPrefixOf line then some .session
  else if (ascii "x-sessioncookie").isPrefixOf line then some .xSessioncookie
  else if (ascii "Content-Type").isPrefixOf line then some .contentType
  else if (ascii "Authorization").isPrefixOf line then some .authorization
  else if (ascii "Host").isPrefixOf line then some .host
  else none

def tool_http_parseHeader (h : ToolHttp) (line : List UInt8) : Traced HttpEffect ToolHttp := do
  let colon ← ofOption (strstr (ascii ":") line)
  let start := (colon.drop 1).dropWhile (· = 32)
  let stop ← ofOption (strstr crlf line)
  let n : ℤ := start.length - stop.length
  if n ≥ paramSize then fail
  else
    emits ((headerField line).map fun f => .field f n).toList
    pure (setHeader h line start (start.take n.toNat))

def tool_http_ParseLine (h : ToolHttp) (line : List UInt8) : Traced HttpEffect ToolHttp :=
  if (strstr (ascii " HTTP/") line).isSome then tool_http_parseRequest h line
  else if (ascii "HTTP/").isPrefixOf line then tool_http_parseAnswer h line
  else tool_http_parseHeader h line

/-! ## A message -/

/-- `tmpBuf` up to `len`, `http` and what is left of the stream. -/
structure HttpState where
  msg : List UInt8
  http : ToolHttp
  rest : List Arrival

/-- A turn of the loop over the lines. -/
def lineTurn (st : HttpState) : Traced HttpEffect (HttpState ⊕ HttpState) := do
  emit (.line (.write 0 (List.replicate lineSize 0)))
  let (line, rest) ← tool_sock_item_recvLine (lineSize - 1) 0 st.rest
  if st.msg.length + line.length > msgSize then fail
  else
    emit (.tmp (.write st.msg.length line))
    if crlf.isPrefixOf (cstr line) then pure (.inr ⟨st.msg ++ line, st.http, rest⟩)
    else
      let h ← tool_http_ParseLine st.http (cstr line)
      pure (.inl ⟨st.msg ++ line, h, rest⟩)

/-- The body, if there is one. -/
def recvBody (st : HttpState) : Traced HttpEffect HttpState :=
  if st.http.contentLength > 0 then
    if st.http.contentLength > bodySize then fail
    else do
      let (body, rest) ← tool_sock_item_recv 0 st.http.contentLength.toNat st.rest
      if (body.length : ℤ) ≠ st.http.contentLength then fail
      else if st.msg.length + st.http.contentLength > msgSize then fail
      else
        emit (.tmp (.write st.msg.length body))
        pure ⟨st.msg ++ body, { st.http with body }, rest⟩
  else pure st

/-- The copy for the caller, into `*size` bytes. -/
def copyOut (size : Option ℤ) (st : HttpState) : Traced HttpEffect HttpState :=
  match size with
  | none => pure st
  | some size =>
    if size < st.msg.length then fail
    else do
      emit (.caller (.write 0 st.msg))
      pure st

/-- `tool_http_Recv` ends with `t`; `size` is `*size`, if `buf` and `size` are there. -/
def Receives (s : List Arrival) (size : Option ℤ) (t : Traced HttpEffect HttpState) : Prop :=
  ∃ l, Traced.Returns lineTurn ⟨[], cleared, s⟩ l ∧ t = (do
    let st ← l
    let st ← recvBody st
    copyOut size st)

/-! ## What is asked for -/

/-- The bytes of a stream. -/
def arrived (s : List Arrival) : List UInt8 := s.flatMap fun
  | .bytes bs => bs
  | _ => []

/-- The number in a line, if it is a header line with `Content-Length`. -/
def lengthIn (line : List UInt8) : Option ℤ :=
  if (strstr (ascii " HTTP/") line).isSome ∨ (ascii "HTTP/").isPrefixOf line then none
  else if (ascii "Content-Length").isPrefixOf line then
    (strstr (ascii ":") line).map fun colon => atoi ((colon.drop 1).dropWhile (· = 32))
  else none

/-- The length that the lines announce, 0 where none does. -/
def announced (lines : List (List UInt8)) : ℤ := (lines.filterMap lengthIn).getLastD 0

/-- The length that counts. -/
def counted (n : ℤ) : ℤ := if 0 < n ∧ n < 32767 then n else 0

/-- A line of text with its end. -/
def IsLine (l : List UInt8) : Prop := ∃ text, l = text ++ crlf ∧ 10 ∉ text ∧ 0 ∉ text

/-- The lines of a head: the last is blank, and no other. -/
def IsHead (lines : List (List UInt8)) : Prop := ∃ ls, lines = ls ++ [crlf] ∧ ∀ l ∈ ls, IsLine l ∧ l ≠ crlf

/-- What was taken of the stream is the lines of a head and a body of the length that counts. -/
def MessageOf (s : List Arrival) (st : HttpState) : Prop :=
  ∃ lines, IsHead lines ∧ arrived s = st.msg ++ arrived st.rest ∧ st.msg = lines.flatten ++ st.http.body ∧
    (st.http.body.length : ℤ) = counted (announced lines)

/-! ## What is read -/

theorem arrived_bytes (bs : List UInt8) (s : List Arrival) : arrived (.bytes bs :: s) = bs ++ arrived s := by
  rw [arrived, List.flatMap_cons]
  rfl

theorem nextByte_byte {b : UInt8} {rest : List Arrival} : ∀ {s : List Arrival}, nextByte s = .byte b rest →
    arrived s = b :: arrived rest
  | [], h => nomatch h
  | .bytes [] :: s, h => nextByte_byte (s := s) h
  | .bytes (c :: bs) :: s, h => by
    cases h
    rfl
  | .stopped :: _, h => nomatch h
  | .failed :: _, h => nomatch h
  | .late :: _, h => nomatch h

theorem nextByte_stopped {rest : List Arrival} : ∀ {s : List Arrival}, nextByte s = .stopped rest → arrived s = arrived rest
  | [], h => nomatch h
  | .bytes [] :: s, h => nextByte_stopped (s := s) h
  | .bytes (c :: bs) :: s, h => nomatch h
  | .stopped :: _, h => by
    cases h
    rfl
  | .failed :: _, h => nomatch h
  | .late :: _, h => nomatch h

variable {z : ℤ}

/-- A line is taken off the front of the stream, with a line feed at most at its end. -/
theorem recvLine_safe : ∀ (room i : ℕ) (s : List Arrival), i + room < lineSize →
    Ensures (HttpEffect.Inside z)
      (fun r => arrived s = r.1 ++ arrived r.2 ∧ r.1.length ≤ room ∧ 10 ∉ r.1.dropLast) (tool_sock_item_recvLine room i s)
  | 0, _, _, _ => ensures_fail
  | room + 1, i, s, hi => by
    rw [tool_sock_item_recvLine]
    cases hn : nextByte s with
    | failed => exact ensures_fail
    | stopped rest => exact ensures_pure ⟨nextByte_stopped hn, Nat.zero_le _, List.not_mem_nil⟩
    | byte b rest =>
      have hbytes := nextByte_byte hn
      dsimp only
      refine Ensures.bind (ensures_emit (e := HttpEffect.line (.write i [b])) ⟨Nat.zero_le i, ?_⟩) fun _ _ => ?_
      · rw [List.length_singleton]
        omega
      refine ensures_ite (fun hb => ensures_pure ⟨hbytes, Nat.le_add_left 1 room, List.not_mem_nil⟩) fun hb => ?_
      refine (recvLine_safe room (i + 1) rest (by omega)).bind fun r hr => ensures_pure ⟨?_, ?_, ?_⟩
      · rw [hbytes, hr.1]
        rfl
      · exact Nat.succ_le_succ hr.2.1
      · cases hrest : r.1 with
        | nil => exact List.not_mem_nil
        | cons c cs =>
          rw [List.dropLast_cons_cons, List.mem_cons, not_or, ← hrest]
          exact ⟨Ne.symm hb, hr.2.2⟩

theorem recv_safe : ∀ (s : List Arrival) (a n : ℕ), a + n ≤ bodySize →
    Ensures (HttpEffect.Inside z) (fun r => arrived s = r.1 ++ arrived r.2) (tool_sock_item_recv a n s)
  | s, a, 0, _ => by
    unfold tool_sock_item_recv
    exact ensures_pure rfl
  | [], _, _ + 1, _ => ensures_fail
  | .failed :: _, _, _ + 1, _ => ensures_fail
  | .late :: _, _, _ + 1, _ => ensures_fail
  | .stopped :: _, _, _ + 1, _ => ensures_pure rfl
  | .bytes p :: s, a, n + 1, ha => by
    rw [tool_sock_item_recv, arrived_bytes]
    refine ensures_ite (fun hp => ?_) fun hp => ?_
    · refine Ensures.bind (ensures_emit (e := HttpEffect.body (.write a p)) ⟨Nat.zero_le a, by omega⟩) fun _ _ => ?_
      refine (recv_safe s (a + p.length) (n + 1 - p.length) (by omega)).bind fun r hr => ensures_pure ?_
      rw [hr, List.append_assoc]
    · have hlen := List.length_take_le (n + 1) p
      refine Ensures.bind (ensures_emit (e := HttpEffect.body (.write a (p.take (n + 1)))) ⟨Nat.zero_le a, by omega⟩) ?_
      refine fun _ _ => ensures_pure ?_
      rw [arrived_bytes, ← List.append_assoc, List.take_append_drop]

/-! ## What a line sets -/

theorem cut_length {needle text t stop : List UInt8} {n : ℕ} (h : cut needle n text = some (t, stop)) : t.length < n := by
  obtain ⟨found, -, hc⟩ := Option.bind_eq_some_iff.mp h
  dsimp only at hc
  by_cases hn : text.length - found.length ≥ n
  · rw [if_pos hn] at hc
    cases hc
  · rw [if_neg hn] at hc
    cases hc
    exact Nat.lt_of_le_of_lt (List.length_take_le ..) (Nat.not_le.mp hn)

theorem field_inside {f : Field} {t : List UInt8} (h : t.length < f.size) :
    (HttpEffect.field f (t.length : ℤ)).Inside z := ⟨Int.natCast_nonneg _, Int.ofNat_le.mpr (Nat.le_of_lt h)⟩

/-- The copy of a text that was cut. -/
theorem cut_safe {α : Type} {Q : α → Prop} (f : Field) {needle text : List UInt8}
    {k : List UInt8 × List UInt8 → Traced HttpEffect α}
    (hk : ∀ r, cut needle f.size text = some r → Ensures (HttpEffect.Inside z) Q (k r)) :
    Ensures (HttpEffect.Inside z) Q (do
      let r ← ofOption (cut needle f.size text)
      emit (.field f r.1.length)
      k r) := by
  refine (ensures_ofOption (Q := fun r => cut needle f.size text = some r) fun _ hr => hr).bind fun r hr => ?_
  exact Ensures.bind (ensures_emit (field_inside (f := f) (cut_length hr))) fun _ _ => hk r hr

theorem request_safe (h : ToolHttp) (line : List UInt8) :
    Ensures (HttpEffect.Inside z) (fun h' => parseRequest h line = some h') (tool_http_parseRequest h line) := by
  unfold tool_http_parseRequest parseRequest
  refine cut_safe .command fun r₁ h₁ => cut_safe .url fun r₂ h₂ => cut_safe .version fun r₃ h₃ => ensures_pure ?_
  simp only [Field.size] at h₁ h₂ h₃
  rw [h₁]
  dsimp only [Option.bind_eq_bind, Option.bind_some]
  rw [h₂]
  dsimp only [Option.bind_some]
  rw [h₃]
  rfl

theorem answer_safe (h : ToolHttp) (line : List UInt8) :
    Ensures (HttpEffect.Inside z) (fun h' => parseAnswer h line = some h') (tool_http_parseAnswer h line) := by
  unfold tool_http_parseAnswer parseAnswer
  refine cut_safe .version fun r₁ h₁ => cut_safe .command fun r₂ h₂ => cut_safe .url fun r₃ h₃ => ensures_pure ?_
  simp only [Field.size] at h₁ h₂ h₃
  rw [h₁]
  dsimp only [Option.bind_eq_bind, Option.bind_some]
  rw [h₂]
  dsimp only [Option.bind_some]
  rw [h₃]
  rfl

/-- In a line with no line feed but the last byte, nothing is behind its end. -/
theorem line_end {text a rest : List UInt8} (h : text = a ++ (crlf ++ rest)) (hlf : 10 ∉ text.dropLast) : rest = [] := by
  cases rest with
  | nil => rfl
  | cons c rest =>
    refine absurd ?_ hlf
    have hlast : text.dropLast = a ++ (crlf ++ (c :: rest).dropLast) := by
      rw [h, List.dropLast_append_of_ne_nil (by simp), List.dropLast_append_of_ne_nil (by simp)]
    rw [hlast]
    simp [crlf]

theorem crlf_last {text stop : List UInt8} (h : strstr crlf text = some stop) (hlf : 10 ∉ text.dropLast) :
    stop = crlf ∧ ∃ a, text = a ++ crlf := by
  obtain ⟨rest, rfl, a, ha, -⟩ := firstAt_of_strstr h
  obtain rfl := line_end ha hlf
  rw [List.append_nil] at ha ⊢
  exact ⟨rfl, a, ha⟩

/-- What is behind the colon and the blanks goes to the end of the line at least. -/
theorem start_length {text colon : List UInt8} {a : List UInt8} (htext : text = a ++ crlf)
    (h : strstr (ascii ":") text = some colon) : 2 ≤ ((colon.drop 1).dropWhile (· = 32)).length := by
  obtain ⟨rest, rfl, b, hb, -⟩ := firstAt_of_strstr h
  rw [htext] at hb
  have hrest : ∃ r, rest = r ++ crlf := by
    rcases List.append_eq_append_iff.mp hb with ⟨c, -, hc⟩ | ⟨c, -, hc⟩
    · have hmem : 58 ∈ crlf := by
        rw [hc]
        exact List.mem_append_right _ (List.mem_append_left _ (by decide))
      exact absurd hmem (by decide)
    · cases c with
      | nil => cases hc
      | cons x r => exact ⟨r, (List.cons.inj hc).2⟩
  obtain ⟨r, rfl⟩ := hrest
  have hdrop : (ascii ":" ++ (r ++ crlf)).drop 1 = r ++ crlf := rfl
  rw [hdrop, List.dropWhile_append]
  split
  · exact Nat.le_refl 2
  · rw [List.length_append]
    exact Nat.le_add_left 2 _

theorem header_safe (h : ToolHttp) {line : List UInt8} (hlf : 10 ∉ line.dropLast) :
    Ensures (HttpEffect.Inside z) (fun h' => parseHeader h line = some h') (tool_http_parseHeader h line) := by
  unfold tool_http_parseHeader parseHeader
  refine (ensures_ofOption (Q := fun r => strstr (ascii ":") line = some r) fun _ hr => hr).bind fun colon hcolon => ?_
  refine (ensures_ofOption (Q := fun r => strstr crlf line = some r) fun _ hr => hr).bind fun stop hstop => ?_
  obtain ⟨rfl, a, ha⟩ := crlf_last hstop hlf
  have hlen := start_length ha hcolon
  have hcrlf : crlf.length = 2 := rfl
  dsimp only
  refine ensures_ite (fun _ => ensures_fail) fun hn => ?_
  have hle : ((colon.drop 1).dropWhile (· = 32)).length - crlf.length < paramSize := by omega
  refine Ensures.bind (Q := fun _ => True) ⟨fun e he => ?_, fun _ _ => trivial⟩ fun _ _ => ensures_pure ?_
  · obtain ⟨f, hf, rfl⟩ : ∃ f, headerField line = some f ∧
        HttpEffect.field f (((colon.drop 1).dropWhile (· = 32)).length - crlf.length) = e := by
      simpa [emits] using he
    have hsize : (paramSize : ℤ) ≤ f.size := by
      cases f <;> decide
    exact ⟨by omega, by omega⟩
  · rw [hcolon, hstop]
    dsimp only [Option.bind_eq_bind, Option.bind_some]
    rw [if_neg (Nat.not_le.mpr hle)]
    congr 3
    omega

/-- A line that is parsed is parsed as `parseLine` does, and copied inside the fields. -/
theorem parseLine_safe (h : ToolHttp) {line : List UInt8} (hlf : 10 ∉ line.dropLast) :
    Ensures (HttpEffect.Inside z) (fun h' => parseLine h line = some h') (tool_http_ParseLine h line) := by
  unfold tool_http_ParseLine parseLine
  by_cases hr : (strstr (ascii " HTTP/") line).isSome
  · rw [if_pos hr, if_pos hr]
    exact request_safe h line
  rw [if_neg hr, if_neg hr]
  by_cases ha : (ascii "HTTP/").isPrefixOf line
  · rw [if_pos ha, if_pos ha]
    exact answer_safe h line
  · rw [if_neg ha, if_neg ha]
    exact header_safe h hlf

/-- What a line leaves in `ContentLength`. -/
def lengthAfter (old : ℤ) (line : List UInt8) : ℤ := ((lengthIn line).map fun n => if n ≥ 32767 then 0 else n).getD old

theorem setHeader_body (h : ToolHttp) (line start value : List UInt8) : (setHeader h line start value).body = h.body := by
  unfold setHeader
  simp only [apply_ite ToolHttp.body, ite_self]

theorem setHeader_length {line : List UInt8} (h : ToolHttp) (start value : List UInt8) :
    (setHeader h line start value).contentLength =
      if (ascii "Content-Length").isPrefixOf line then if atoi start ≥ 32767 then 0 else atoi start else h.contentLength := by
  by_cases hc : (ascii "Content-Length").isPrefixOf line
  · obtain ⟨t, rfl⟩ := List.isPrefixOf_iff_prefix.mp hc
    rw [if_pos hc]
    rfl
  · unfold setHeader
    simp only [hc, apply_ite ToolHttp.contentLength, Bool.false_eq_true, if_false, ite_self]

theorem infix_of_strstr {needle text found : List UInt8} (h : strstr needle text = some found) :
    needle <:+: text ∧ found <:+ text := by
  obtain ⟨rest, rfl, a, ha, -⟩ := firstAt_of_strstr h
  exact ⟨⟨a, rest, by rw [ha, List.append_assoc]⟩, a, ha.symm⟩

theorem infix_of_cut {needle text : List UInt8} {n : ℕ} {r : List UInt8 × List UInt8} (h : cut needle n text = some r) :
    needle <:+: text ∧ r.2.drop 1 <:+ text := by
  obtain ⟨found, hfound, hr⟩ := Option.bind_eq_some_iff.mp h
  dsimp only at hr
  split at hr
  · cases hr
  · cases hr
    exact ⟨(infix_of_strstr hfound).1, (List.drop_suffix 1 found).trans (infix_of_strstr hfound).2⟩

/-- A line that is parsed has an end, keeps the body and may set the length. -/
theorem parseLine_sets {g g' : ToolHttp} {line : List UInt8} (h : parseLine g line = some g') :
    crlf <:+: line ∧ g'.body = g.body ∧ g'.contentLength = lengthAfter g.contentLength line := by
  unfold parseLine at h
  unfold lengthAfter lengthIn
  by_cases hr : (strstr (ascii " HTTP/") line).isSome
  · rw [if_pos hr] at h
    rw [if_pos (.inl hr)]
    simp only [parseRequest, Option.bind_eq_bind, Option.bind_eq_some_iff] at h
    obtain ⟨_, h₁, _, h₂, _, h₃, h⟩ := h
    cases h
    have hrest := (infix_of_cut h₂).2.trans (infix_of_cut h₁).2
    exact ⟨(infix_of_cut h₃).1.trans hrest.isInfix, rfl, rfl⟩
  by_cases ha : (ascii "HTTP/").isPrefixOf line
  · rw [if_neg hr, if_pos ha] at h
    rw [if_pos (.inr ha)]
    simp only [parseAnswer, Option.bind_eq_bind, Option.bind_eq_some_iff] at h
    obtain ⟨_, h₁, _, h₂, _, h₃, h⟩ := h
    cases h
    have hrest := (infix_of_cut h₂).2.trans (infix_of_cut h₁).2
    exact ⟨(infix_of_cut h₃).1.trans hrest.isInfix, rfl, rfl⟩
  · rw [if_neg hr, if_neg ha] at h
    rw [if_neg (not_or.mpr ⟨hr, ha⟩)]
    simp only [parseHeader, Option.bind_eq_bind, Option.bind_eq_some_iff] at h
    obtain ⟨colon, hcolon, stop, hstop, h⟩ := h
    split at h
    · cases h
    cases h
    refine ⟨(infix_of_strstr hstop).1, setHeader_body .., ?_⟩
    rw [setHeader_length]
    by_cases hc : (ascii "Content-Length").isPrefixOf line
    · rw [if_pos hc, if_pos hc, hcolon]
      rfl
    · rw [if_neg hc, if_neg hc]
      rfl

/-! ## The head -/

theorem announced_snoc (ls : List (List UInt8)) (l : List UInt8) :
    announced (ls ++ [l]) = (lengthIn l).getD (announced ls) := by
  have hlast : [l].filterMap lengthIn = (lengthIn l).toList := by
    cases hl : lengthIn l <;> simp [hl]
  unfold announced
  rw [List.filterMap_append, hlast]
  cases lengthIn l with
  | none => rw [Option.toList_none, List.append_nil, Option.getD_none]
  | some n => rw [Option.toList_some, List.getLastD_concat, Option.getD_some]

theorem dropLast_cstr {l : List UInt8} (h : 10 ∉ l.dropLast) : 10 ∉ (cstr l).dropLast := by
  obtain ⟨r, hr⟩ : cstr l <+: l := List.takeWhile_prefix _
  cases r with
  | nil =>
    rw [List.append_nil] at hr
    rwa [hr]
  | cons c r =>
    rw [← hr, List.dropLast_append_of_ne_nil (by simp)] at h
    exact fun hm => h (List.mem_append_left _ ((List.dropLast_sublist _).subset hm))

/-- What was read up to a line feed is a line, if its text has an end. -/
theorem isLine_of_cstr {l : List UInt8} (hlf : 10 ∉ l.dropLast) (h : crlf <:+: cstr l) : cstr l = l ∧ IsLine l := by
  obtain ⟨r, hr⟩ : cstr l <+: l := List.takeWhile_prefix _
  obtain ⟨a, rest, ha⟩ := h
  have hl : l = a ++ (crlf ++ (rest ++ r)) := by
    rw [← hr, ← ha, List.append_assoc, List.append_assoc]
  obtain ⟨rfl, rfl⟩ := List.append_eq_nil_iff.mp (line_end hl hlf)
  rw [List.append_nil] at hr ha
  have hzero : 0 ∉ l := fun hm => absurd (List.takeWhile_eq_self_iff.mp hr 0 hm) (by decide)
  refine ⟨hr, a, by rw [ha, hr], fun hm => hlf ?_, fun hm => hzero ?_⟩
  · have hdrop : l.dropLast = a ++ [13] := by
      rw [← hr, ← ha, List.dropLast_append_of_ne_nil (by decide)]
      rfl
    rw [hdrop]
    exact List.mem_append_left _ hm
  · rw [← hr, ← ha]
    exact List.mem_append_left _ hm

/-- A line that begins with its end is blank. -/
theorem blank_of_prefix {l : List UInt8} (hlf : 10 ∉ l.dropLast) (h : crlf <+: cstr l) : l = crlf := by
  obtain ⟨r, hr⟩ := h.trans (List.takeWhile_prefix _)
  have hl : l = [] ++ (crlf ++ r) := hr.symm
  rw [hl, line_end hl hlf]
  rfl

/-- What a line that was taken leaves. -/
structure OneLine (st : HttpState) (l : List UInt8) (st' : HttpState) : Prop where
  stream : arrived st.rest = l ++ arrived st'.rest
  msg : st'.msg = st.msg ++ l
  room : st'.msg.length ≤ msgSize
  body : st'.http.body = st.http.body
  length : st'.http.contentLength = lengthAfter st.http.contentLength l

/-- A turn takes a line: one more of the head, or the blank one. -/
theorem lineTurn_safe (st : HttpState) :
    Ensures (HttpEffect.Inside z) (Sum.elim (fun st' => ∃ l, OneLine st l st' ∧ IsLine l ∧ l ≠ crlf)
      fun st' => OneLine st crlf st') (lineTurn st) := by
  unfold lineTurn
  refine Ensures.bind (ensures_emit (e := HttpEffect.line (.write 0 (List.replicate lineSize 0))) ⟨Nat.zero_le 0, ?_⟩) ?_
  · rw [List.length_replicate, Nat.zero_add]
  refine fun _ _ => (recvLine_safe (lineSize - 1) 0 st.rest (by decide)).bind fun r hr => ?_
  obtain ⟨l, rest⟩ := r
  obtain ⟨hbytes, -, hlf⟩ := hr
  dsimp only at hbytes hlf ⊢
  refine ensures_ite (fun _ => ensures_fail) fun hroom => ?_
  rw [Nat.not_lt] at hroom
  have hlen : (st.msg ++ l).length ≤ msgSize := by rwa [List.length_append]
  refine Ensures.bind (ensures_emit (e := HttpEffect.tmp (.write st.msg.length l)) ⟨Nat.zero_le _, hroom⟩) fun _ _ => ?_
  refine ensures_ite (fun hb => ?_) fun hb => ?_
  · obtain rfl := blank_of_prefix hlf (List.isPrefixOf_iff_prefix.mp hb)
    exact ensures_pure ⟨hbytes, rfl, hlen, rfl, rfl⟩
  refine (parseLine_safe st.http (dropLast_cstr hlf)).bind fun g hg => ?_
  obtain ⟨hend, hbody, hlength⟩ := parseLine_sets hg
  obtain ⟨hcstr, hline⟩ := isLine_of_cstr hlf hend
  rw [hcstr] at hb hlength
  refine ensures_pure ⟨l, ⟨hbytes, rfl, hlen, hbody, hlength⟩, hline, ?_⟩
  rintro rfl
  exact hb (by decide)

/-- The lines taken so far, and what they have set. -/
structure Taken (s : List Arrival) (ls : List (List UInt8)) (st : HttpState) : Prop where
  stream : arrived s = st.msg ++ arrived st.rest
  msg : st.msg = ls.flatten
  room : st.msg.length ≤ msgSize
  body : st.http.body = []
  length : st.http.contentLength = if announced ls ≥ 32767 then 0 else announced ls

theorem taken_start (s : List Arrival) : Taken s [] ⟨[], cleared, s⟩ := ⟨rfl, rfl, Nat.zero_le _, rfl, rfl⟩

theorem Taken.line {s : List Arrival} {ls : List (List UInt8)} {l : List UInt8} {st st' : HttpState} (h : Taken s ls st)
    (hl : OneLine st l st') : Taken s (ls ++ [l]) st' where
  stream := by rw [h.stream, hl.stream, hl.msg, List.append_assoc]
  msg := by rw [hl.msg, h.msg, List.flatten_append, List.flatten_singleton]
  room := hl.room
  body := hl.body.trans h.body
  length := by
    rw [hl.length, h.length, announced_snoc, lengthAfter]
    cases lengthIn l <;> rfl

/-- The loop over the lines ends, behind a head if it does not fail. -/
theorem lines_safe (s : List Arrival) : ∃ l, Traced.Returns lineTurn ⟨[], cleared, s⟩ l ∧
    Ensures (HttpEffect.Inside z) (fun st => ∃ lines, IsHead lines ∧ Taken s lines st) l := by
  have hshrinks : ∀ st st', (lineTurn st).value = some (.inl st') → (arrived st'.rest).length < (arrived st.rest).length := by
    intro st st' hst
    obtain ⟨l, hl, ⟨text, rfl, -⟩, -⟩ := (lineTurn_safe (z := 0) st).value _ hst
    have hcrlf : crlf.length = 2 := rfl
    rw [hl.stream, List.length_append, List.length_append]
    omega
  obtain ⟨l, hl⟩ := turns_of_measure _ hshrinks (s := ⟨[], cleared, s⟩) (Nat.lt_succ_self _)
  refine ⟨l, ⟨_, hl⟩, ?_⟩
  refine Returns.ensures (I := fun st => ∃ ls, (∀ l ∈ ls, IsLine l ∧ l ≠ crlf) ∧ Taken s ls st) (fun st hst => ?_) ⟨_, hl⟩
    ⟨[], nofun, taken_start s⟩
  obtain ⟨ls, hls, htaken⟩ := hst
  refine (lineTurn_safe st).imp fun r hr => ?_
  cases r with
  | inl st' =>
    obtain ⟨l, hl, hline⟩ := hr
    refine ⟨ls ++ [l], fun l' hl' => ?_, htaken.line hl⟩
    rcases List.mem_append.mp hl' with h' | h'
    · exact hls l' h'
    · rwa [List.mem_singleton.mp h']
  | inr st' => exact ⟨ls ++ [crlf], ⟨ls, rfl, hls⟩, htaken.line hr⟩

/-! ## The message -/

theorem body_safe {s : List Arrival} {ls : List (List UInt8)} {st : HttpState} (h : Taken s ls st) :
    Ensures (HttpEffect.Inside z) (fun st' => arrived s = st'.msg ++ arrived st'.rest ∧
      st'.msg = ls.flatten ++ st'.http.body ∧ st'.msg.length ≤ msgSize ∧
      (st'.http.body.length : ℤ) = counted (announced ls)) (recvBody st) := by
  have hlength := h.length
  unfold recvBody
  refine ensures_ite (fun hpos => ?_) fun hpos => ?_
  · refine ensures_ite (fun _ => ensures_fail) fun hfit => ?_
    refine (recv_safe st.rest 0 st.http.contentLength.toNat (by omega)).bind fun r hr => ?_
    obtain ⟨body, rest⟩ := r
    dsimp only at hr ⊢
    refine ensures_ite (fun _ => ensures_fail) fun hwhole => ?_
    refine ensures_ite (fun _ => ensures_fail) fun hroom => ?_
    rw [not_not] at hwhole
    have hle : st.msg.length + body.length ≤ msgSize := by omega
    refine Ensures.bind (ensures_emit (e := HttpEffect.tmp (.write st.msg.length body)) ⟨Nat.zero_le _, hle⟩) ?_
    refine fun _ _ => ensures_pure ⟨?_, ?_, ?_, ?_⟩
    · rw [h.stream, hr, List.append_assoc]
    · rw [h.msg]
    · rwa [List.length_append]
    · dsimp only
      rw [hwhole, hlength, counted]
      rw [hlength] at hpos
      split at hpos <;> split <;> omega
  · refine ensures_pure ⟨h.stream, ?_, h.room, ?_⟩
    · rw [h.body, List.append_nil, h.msg]
    · rw [h.body, counted]
      rw [hlength] at hpos
      split at hpos <;> split <;> simp only [List.length_nil] <;> omega

theorem copyOut_safe {st : HttpState} {buf : Option ℤ} (hsize : ∀ n, buf = some n → z = n) :
    Ensures (HttpEffect.Inside z) (fun st' => st' = st) (copyOut buf st) := by
  unfold copyOut
  cases buf with
  | none => exact ensures_pure rfl
  | some n =>
    refine ensures_ite (fun _ => ensures_fail) fun hle => ?_
    rw [hsize n rfl]
    refine Ensures.bind (ensures_emit (e := HttpEffect.caller (.write 0 st.msg)) ⟨Nat.zero_le _, by omega⟩) ?_
    exact fun _ _ => ensures_pure rfl

/-- **Any stream.** The receiver ends and writes inside its buffers, and success means a head and a body as long as its last
`Content-Length` says, where a number that is not positive or from 32767 on counts as none. -/
theorem http_recv_safe (s : List Arrival) (buf : Option ℤ) : ∃ t, Receives s buf t ∧
    Ensures (HttpEffect.Inside (buf.getD 0)) (MessageOf s) t := by
  obtain ⟨l, hl, hsafe⟩ := lines_safe (z := buf.getD 0) s
  refine ⟨_, ⟨l, hl, rfl⟩, hsafe.bind fun st hst => ?_⟩
  obtain ⟨lines, hhead, htaken⟩ := hst
  refine (body_safe htaken).bind fun st' hst' => ?_
  refine (copyOut_safe (fun n hn => by rw [hn]; rfl)).imp fun st'' heq => ?_
  subst heq
  exact ⟨lines, hhead, hst'.1, hst'.2.1, hst'.2.2.2⟩

/-- A `Content-Length` of 40000 counts as none, and the answer is taken without a body. -/
theorem http_length_dropped : ¬ ∀ (s : List Arrival) (buf : Option ℤ) (t : Traced HttpEffect HttpState) (st : HttpState)
    (lines : List (List UInt8)), Receives s buf t → t.value = some st → IsHead lines →
      st.msg = lines.flatten ++ st.http.body → (st.http.body.length : ℤ) = announced lines := by
  intro h
  let lines := [ascii "HTTP/1.0 200 OK" ++ crlf, ascii "Content-Length: 40000" ++ crlf, crlf]
  let s := [Arrival.bytes lines.flatten]
  let l := (turns lineTurn 3 ⟨[], cleared, s⟩).get (by decide +kernel)
  let t := do
    let st ← l
    let st ← recvBody st
    copyOut none st
  have hl : turns lineTurn 3 ⟨[], cleared, s⟩ = some l := Option.eq_some_of_isSome _
  have ht : t.value.map (fun st => (st.msg, st.http.body)) = some (lines.flatten, []) := by decide +kernel
  obtain ⟨st, hst, heq⟩ := Option.map_eq_some_iff.mp ht
  obtain ⟨hmsg, hbody⟩ := Prod.mk.inj heq
  have hhead : IsHead lines := by
    refine ⟨lines.take 2, rfl, ?_⟩
    simp only [lines, List.take_succ_cons, List.take_zero, List.forall_mem_cons]
    exact ⟨⟨⟨_, rfl, by decide, by decide⟩, by decide⟩, ⟨⟨_, rfl, by decide, by decide⟩, by decide⟩, nofun⟩
  have hlen := h s none t st lines ⟨l, ⟨3, hl⟩, rfl⟩ hst hhead (by rw [hmsg, hbody, List.append_nil])
  rw [hbody] at hlen
  revert hlen
  decide +kernel

end Http

end SabApp
