import SabApp.Http

/-!
# What is sent is received

Every line that `tool_http_Send` writes is one that `tool_http_ParseLine` takes for what it is, so the loop over the lines fills
the fields again, however the stream is cut into reads.
-/

namespace SabApp

namespace Http

open CText ToolJson Decimal

/-- A text that fits a field of that size and cannot be taken for the end of a line or of a start line. -/
structure Text (size : ℕ) (s : List UInt8) : Prop where
  fits : s.length < size
  nul : 0 ∉ s
  cr : 13 ∉ s
  lf : 10 ∉ s
  http : strstr (ascii " HTTP/") s = none
  blank : s.head? ≠ some 32

instance (size : ℕ) (s : List UInt8) : Decidable (Text size s) :=
  decidable_of_iff (s.length < size ∧ 0 ∉ s ∧ 13 ∉ s ∧ 10 ∉ s ∧ strstr (ascii " HTTP/") s = none ∧ s.head? ≠ some 32)
    ⟨fun ⟨h₁, h₂, h₃, h₄, h₅, h₆⟩ => ⟨h₁, h₂, h₃, h₄, h₅, h₆⟩,
      fun ⟨h₁, h₂, h₃, h₄, h₅, h₆⟩ => ⟨h₁, h₂, h₃, h₄, h₅, h₆⟩⟩

/-- A request whose fields are all there is to send. -/
structure Request (h : ToolHttp) : Prop where
  command_fits : h.command.length < paramSize
  command_nul : 0 ∉ h.command
  nonNumeric : atoi h.command = 0
  url : Text urlSize h.url
  version : Text paramSize h.version
  session : Text paramSize h.session
  xSessioncookie : Text paramSize h.xSessioncookie
  contentType : Text paramSize h.contentType
  authorization : Text paramSize h.authorization
  host : Text paramSize h.host
  seq : -2 ^ 31 ≤ h.seq ∧ h.seq < 2 ^ 31
  length : 0 ≤ h.contentLength ∧ h.contentLength ≤ h.body.length

instance (h : ToolHttp) : Decidable (Request h) :=
  decidable_of_iff (h.command.length < paramSize ∧ 0 ∉ h.command ∧ atoi h.command = 0 ∧ Text urlSize h.url ∧
      Text paramSize h.version ∧ Text paramSize h.session ∧ Text paramSize h.xSessioncookie ∧ Text paramSize h.contentType ∧
      Text paramSize h.authorization ∧ Text paramSize h.host ∧ (-2 ^ 31 ≤ h.seq ∧ h.seq < 2 ^ 31) ∧
      0 ≤ h.contentLength ∧ h.contentLength ≤ h.body.length)
    ⟨fun ⟨h₁, h₂, h₃, h₄, h₅, h₆, h₇, h₈, h₉, h₁₀, h₁₁, h₁₂⟩ => ⟨h₁, h₂, h₃, h₄, h₅, h₆, h₇, h₈, h₉, h₁₀, h₁₁, h₁₂⟩,
      fun ⟨h₁, h₂, h₃, h₄, h₅, h₆, h₇, h₈, h₉, h₁₀, h₁₁, h₁₂⟩ => ⟨h₁, h₂, h₃, h₄, h₅, h₆, h₇, h₈, h₉, h₁₀, h₁₁, h₁₂⟩⟩

/-- A request whose start line is one of HTTP. -/
structure Sendable (h : ToolHttp) : Prop extends Request h where
  command_blank : 32 ∉ h.command
  command_lf : 10 ∉ h.command
  protocol : ascii "HTTP/" <+: h.version

namespace ToolHttp

def requestLine (h : ToolHttp) : List UInt8 := h.command ++ 32 :: (h.url ++ 32 :: (h.version ++ crlf))

/-- The lines up to the blank one. -/
def lines (h : ToolHttp) : List (List UInt8) := h.requestLine :: h.headerLines

end ToolHttp

/-- What is read of the stream, however it is cut, is the message, and the rest is left. -/
def Returns (h : ToolHttp) : Prop :=
  ∃ bytes, h.send = some bytes ∧ ∀ ps more, ps.flatten = bytes ++ more →
    ∃ rest, recv ps = some ({ h with body := h.body.take h.contentLength.toNat }, rest) ∧ rest.flatten = more

/-! ## Lines -/

/-- A line as it is read: one line feed at its end, and more than a blank line. -/
def Line (line : List UInt8) : Prop := ∃ l, line = l ++ [10] ∧ 10 ∉ l ∧ 0 ∉ l ∧ 2 ≤ l.length ∧ l.length + 1 < lineSize

theorem recvLine_line {l : List UInt8} : ∀ {room : ℕ} {ps : List (List UInt8)} {more : List UInt8}, 10 ∉ l → l.length < room →
    ps.flatten = l ++ 10 :: more → ∃ rest, recvLine room ps = some (l ++ [10], rest) ∧ rest.flatten = more := by
  induction l with
  | nil =>
    intro room ps more _ hr hps
    obtain ⟨rest, hrecv, hrest⟩ := Pieces.recv_append (show ps.flatten = [10] ++ more from hps)
    obtain ⟨room, rfl⟩ : ∃ k, room = k + 1 := ⟨room - 1, by omega⟩
    refine ⟨rest, ?_, hrest⟩
    rw [recvLine, show 1 = [(10 : UInt8)].length from rfl, hrecv]
    rfl
  | cons b l ih =>
    intro room ps more hl hr hps
    rw [List.mem_cons, not_or] at hl
    rw [List.length_cons] at hr
    obtain ⟨rest, hrecv, hrest⟩ := Pieces.recv_append (show ps.flatten = [b] ++ (l ++ 10 :: more) from hps)
    obtain ⟨room, rfl⟩ : ∃ k, room = k + 1 := ⟨room - 1, by omega⟩
    obtain ⟨rest', hrecv', hrest'⟩ : ∃ r, recvLine room rest = some (l ++ [10], r) ∧ r.flatten = more :=
      ih hl.2 (by omega) hrest
    refine ⟨rest', ?_, hrest'⟩
    have hb : [b] ≠ [10] := fun he => hl.1 (List.cons.inj he).1.symm
    rw [recvLine, show 1 = [b].length from rfl, hrecv]
    simp only [Option.bind_eq_bind, Option.bind_some, if_neg hb, hrecv']
    rfl

theorem Line.cstr {line : List UInt8} (h : Line line) : cstr line = line := by
  obtain ⟨l, rfl, -, hnul, -⟩ := h
  exact cstr_of_not_mem (by simp [hnul])

theorem Line.not_blank {line : List UInt8} (h : Line line) : ¬ crlf.isPrefixOf line = true := by
  obtain ⟨l, rfl, hlf, -, hlen, -⟩ := h
  rw [List.isPrefixOf_iff_prefix]
  rintro ⟨t, ht⟩
  match l, hlen with
  | x :: y :: l, _ =>
    have := (List.cons.inj (List.cons.inj ht).2).1
    exact hlf (by rw [this]; simp)

/-- The loop reads the lines one by one, up to the blank line. -/
theorem recvLines_lines : ∀ {lines : List (List UInt8)} {fuel len : ℕ} {h h' : ToolHttp} {ps : List (List UInt8)}
    {more : List UInt8}, (∀ line ∈ lines, Line line) → lines.foldlM parseLine h = some h' → lines.length < fuel →
    len + lines.flatten.length + 2 ≤ msgSize → ps.flatten = lines.flatten ++ (crlf ++ more) →
    ∃ rest, recvLines fuel len h ps = some (len + lines.flatten.length + 2, h', rest) ∧ rest.flatten = more
  | [], fuel, len, h, h', ps, more, _, hfold, hfuel, hlen, hps => by
    obtain ⟨fuel, rfl⟩ : ∃ k, fuel = k + 1 := ⟨fuel - 1, by omega⟩
    cases hfold
    obtain ⟨rest, hrecv, hrest⟩ : ∃ r, recvLine (lineSize - 1) ps = some ([13] ++ [10], r) ∧ r.flatten = more :=
      recvLine_line (by decide) (by decide) hps
    refine ⟨rest, ?_, hrest⟩
    unfold recvLines
    have hle : ¬ len + ([13] ++ [10] : List UInt8).length > msgSize := Nat.not_lt.mpr hlen
    simp only [hrecv, Option.bind_eq_bind, Option.bind_some, if_neg hle]
    rfl
  | line :: lines, fuel, len, h, h', ps, more, hline, hfold, hfuel, hlen, hps => by
    obtain ⟨fuel, rfl⟩ : ∃ k, fuel = k + 1 := ⟨fuel - 1, by omega⟩
    have hl := hline line List.mem_cons_self
    rw [List.flatten_cons, List.length_append] at hlen
    rw [List.flatten_cons, List.append_assoc] at hps
    rw [List.foldlM_cons] at hfold
    obtain ⟨g, hg, hfold⟩ := Option.bind_eq_some_iff.mp hfold
    have hread : ∃ rest, recvLine (lineSize - 1) ps = some (line, rest) ∧ rest.flatten = lines.flatten ++ (crlf ++ more) := by
      obtain ⟨l, rfl, hlf, -, -, hsize⟩ := hl
      rw [List.append_assoc] at hps
      exact recvLine_line hlf (by omega) hps
    obtain ⟨rest, hrecv, hrest⟩ := hread
    obtain ⟨rest', hrec, hrest'⟩ : ∃ r, recvLines fuel (len + line.length) g rest =
        some (len + line.length + lines.flatten.length + 2, h', r) ∧ r.flatten = more := by
      apply recvLines_lines (fun x hx => hline x (List.mem_cons_of_mem line hx)) hfold _ (by omega) hrest
      rw [List.length_cons] at hfuel
      omega
    refine ⟨rest', ?_, hrest'⟩
    unfold recvLines
    have hle : ¬ len + line.length > msgSize := by omega
    simp only [hrecv, Option.bind_eq_bind, Option.bind_some, if_neg hle, hl.cstr, if_neg hl.not_blank, hg, hrec,
      List.flatten_cons, List.length_append]
    congr 2
    omega

/-! ## The start line -/

theorem cut_stop {needle s t : List UInt8} {size : ℕ} (h : strstr needle (s ++ t) = some t) (hs : s.length < size) :
    cut needle size (s ++ t) = some (s, t) := by
  have hn : (s ++ t).length - t.length = s.length := by rw [List.length_append, Nat.add_sub_cancel]
  rw [cut, h, Option.bind_some]
  simp only [hn, if_neg (Nat.not_le.mpr hs), List.take_left]

theorem strstr_crlf {s : List UInt8} (h : 13 ∉ s) : strstr crlf (s ++ crlf) = some crlf := by
  rw [show crlf = 13 :: [10] from rfl, strstr_append_of_not_mem h]
  rfl

theorem strstr_blank {s : List UInt8} (h : 32 ∉ s) (t : List UInt8) : strstr (ascii " ") (s ++ 32 :: t) = some (32 :: t) := by
  rw [show ascii " " = [32] from rfl, strstr_append_of_not_mem h]
  exact strstr_prefix [32] t

theorem strstr_protocol {url version : List UInt8} (hurl : strstr (ascii " HTTP/") url = none) (hv : ascii "HTTP/" <+: version)
    (t : List UInt8) : strstr (ascii " HTTP/") (url ++ 32 :: (version ++ t)) = some (32 :: (version ++ t)) := by
  obtain ⟨v, rfl⟩ := hv
  rw [show ascii " HTTP/" = 32 :: ascii "HTTP/" from rfl] at hurl ⊢
  rw [strstr_append_stop hurl (by decide), List.append_assoc]
  exact strstr_prefix (32 :: ascii "HTTP/") (v ++ t)

theorem put_nil (s : List UInt8) : put [] s = s := by rw [put, List.drop_nil, List.append_nil]

theorem parseLine_start {h : ToolHttp} (hs : Sendable h) :
    parseLine cleared h.requestLine = some { cleared with command := h.command, url := h.url, version := h.version } := by
  have hurl := strstr_protocol hs.url.http hs.protocol crlf
  have hhttp : (strstr (ascii " HTTP/") h.requestLine).isSome := by
    apply strstr_isSome_append
    rw [← List.singleton_append]
    apply strstr_isSome_append
    rw [hurl]
    rfl
  rw [parseLine, if_pos hhttp]
  unfold parseRequest ToolHttp.requestLine
  rw [cut_stop (strstr_blank hs.command_blank _) hs.command_fits]
  simp only [Option.bind_eq_bind, Option.bind_some, List.drop_one, List.tail_cons]
  rw [cut_stop hurl hs.url.fits]
  simp only [Option.bind_some, List.tail_cons]
  rw [cut_stop (strstr_crlf hs.version.cr) hs.version.fits]
  simp only [Option.bind_some, cleared, put_nil]

/-! ## The header lines -/

/-- A name of a header: it has no byte that ends it, and does not begin like an answer. -/
def Name (name : String) : Prop :=
  58 ∉ ascii name ∧ 32 ∉ ascii name ∧ 13 ∉ ascii name ∧ 10 ∉ ascii name ∧ 0 ∉ ascii name ∧
    (ascii name).length ≤ 15 ∧ 2 ≤ (ascii name).length ∧ (ascii name).take 2 ≠ ascii "HT"

instance (name : String) : Decidable (Name name) := by
  unfold Name
  infer_instance

def headerLine (name : String) (value : List UInt8) : List UInt8 := ascii name ++ 58 :: (value ++ crlf)

theorem snprintf_headerLine {name : String} (hn : Name name) {value : List UInt8} (hv : Text paramSize value) :
    snprintf lineSize (headerLine name value) = headerLine name value := by
  obtain ⟨-, -, -, -, -, hlen, -, -⟩ := hn
  apply List.take_of_length_le
  have := hv.fits
  simp only [headerLine, List.length_append, List.length_cons, crlf, List.length_nil, lineSize, paramSize] at *
  omega

theorem line_headerLine {name : String} (hn : Name name) {value : List UInt8} (hv : Text paramSize value) :
    Line (headerLine name value) := by
  obtain ⟨-, -, -, hlf, hnul, hlen, -, -⟩ := hn
  refine ⟨ascii name ++ 58 :: (value ++ [13]), by simp [headerLine, crlf], ?_, ?_, ?_, ?_⟩
  · simp [hlf, hv.lf]
  · simp [hnul, hv.nul]
  · simp only [List.length_append, List.length_cons, List.length_nil]
    omega
  · have := hv.fits
    simp only [List.length_append, List.length_cons, List.length_nil, lineSize, paramSize] at *
    omega

/-- A header line is no start line, and its value is found behind the colon. -/
theorem parseLine_header {name : String} (hn : Name name) {value : List UInt8} (hv : Text paramSize value) (g : ToolHttp) :
    parseLine g (headerLine name value) = some (setHeader g (headerLine name value) (value ++ crlf) value) := by
  obtain ⟨hcolon, hblank, hcr, -, -, -, htwo, hstart⟩ := hn
  have hhttp : strstr (ascii " HTTP/") (headerLine name value) = none := by
    have hv' := hv.http
    rw [show ascii " HTTP/" = 32 :: ascii "HTTP/" from rfl] at hv' ⊢
    have hmark : strstr (32 :: ascii "HTTP/") ([58] ++ (value ++ crlf)) = strstr (32 :: ascii "HTTP/") (value ++ crlf) :=
      strstr_append_of_not_mem (by decide) _
    rw [headerLine, strstr_append_of_not_mem hblank]
    refine hmark.trans ?_
    rw [crlf, strstr_append_stop hv' (by decide)]
    decide
  have hanswer : ¬ (ascii "HTTP/").isPrefixOf (headerLine name value) = true := by
    rw [List.isPrefixOf_iff_prefix]
    rintro ⟨t, ht⟩
    apply hstart
    have := congrArg (List.take 2) ht
    rw [headerLine, List.take_append_of_le_length htwo, List.take_append_of_le_length (by decide)] at this
    exact this.symm
  have hcol : strstr (ascii ":") (headerLine name value) = some (58 :: (value ++ crlf)) := by
    rw [show ascii ":" = [58] from rfl, headerLine, strstr_append_of_not_mem hcolon]
    exact strstr_prefix [58] (value ++ crlf)
  have hend : strstr crlf (headerLine name value) = some crlf := by
    rw [headerLine, ← List.cons_append, ← List.append_assoc]
    exact strstr_crlf (by simp [hcr, hv.cr])
  have hskip : (value ++ crlf).dropWhile (· = 32) = value ++ crlf := by
    cases hval : value with
    | nil => rfl
    | cons c t =>
      have hc : c ≠ 32 := by
        rintro rfl
        exact hv.blank (by rw [hval]; rfl)
      rw [List.cons_append, List.dropWhile_cons_of_neg (by simp [hc])]
  rw [parseLine, hhttp, if_neg (by decide), if_neg hanswer, parseHeader]
  have hlen : (value ++ crlf).length - crlf.length = value.length := by
    rw [List.length_append, Nat.add_sub_cancel]
  simp only [hcol, hend, Option.bind_eq_bind, Option.bind_some, List.drop_one, List.tail_cons, hskip, hlen, List.take_left,
    if_neg (Nat.not_le.mpr hv.fits)]

/-- What the line of a text does to a message in which its field is cleared. -/
theorem fold_textLine {name : String} (hn : Name name) {value : List UInt8} (hv : Text paramSize value) {g g' : ToolHttp}
    (hnil : value = [] → g' = g) (hset : setHeader g (headerLine name value) (value ++ crlf) value = g') :
    (textLine name value).foldlM parseLine g = some g' := by
  unfold textLine
  by_cases h : value = []
  · rw [if_pos h, hnil h]
    rfl
  · rw [if_neg h, ← headerLine, snprintf_headerLine hn hv]
    rw [List.foldlM_cons, parseLine_header hn hv, hset]
    rfl

theorem text_decimal {n : ℤ} (h₁ : -2 ^ 31 ≤ n) (h₂ : n < 2 ^ 31) : Text paramSize (decimal n) := by
  have hnone : ∀ s, strstr (ascii " HTTP/") (decimal n ++ s) = strstr (ascii " HTTP/") s := fun s =>
    strstr_append_of_not_mem (not_mem_decimal (by decide)) s
  refine ⟨?_, not_mem_decimal (by decide), not_mem_decimal (by decide), not_mem_decimal (by decide), ?_, ?_⟩
  · exact Nat.lt_of_le_of_lt (length_decimal_le h₁ h₂) (by decide)
  · rw [← List.append_nil (decimal n), hnone]
    decide
  · intro h
    exact not_mem_decimal (n := n) (c := 32) (by decide) (List.mem_of_mem_head? h)

theorem fold_numberLine {name : String} (hn : Name name) {n : ℤ} (h₁ : -2 ^ 31 ≤ n) (h₂ : n < 2 ^ 31) {g g' : ToolHttp}
    (hzero : n = 0 → g' = g) (hset : setHeader g (headerLine name (decimal n)) (decimal n ++ crlf) (decimal n) = g') :
    (numberLine name n).foldlM parseLine g = some g' := by
  unfold numberLine
  by_cases h : n = 0
  · rw [if_pos h, hzero h]
    rfl
  · rw [if_neg h, ← headerLine, snprintf_headerLine hn (text_decimal h₁ h₂)]
    rw [List.foldlM_cons, parseLine_header hn (text_decimal h₁ h₂), hset]
    rfl

theorem atoi_line {n : ℤ} (h₁ : -2 ^ 31 ≤ n) (h₂ : n < 2 ^ 31) : atoi (decimal n ++ crlf) = n := by
  apply atoi_decimal h₁ h₂
  rintro c u h
  cases h
  decide

theorem line_textLine {name : String} (hn : Name name) {value : List UInt8} (hv : Text paramSize value) :
    ∀ line ∈ textLine name value, Line line ∧ line.length ≤ 145 := by
  intro line hl
  unfold textLine at hl
  by_cases h : value = []
  · rw [if_pos h] at hl
    cases hl
  · rw [if_neg h, ← headerLine, snprintf_headerLine hn hv] at hl
    rw [List.mem_singleton.mp hl]
    refine ⟨line_headerLine hn hv, ?_⟩
    obtain ⟨-, -, -, -, -, hlen, -, -⟩ := hn
    have := hv.fits
    simp only [headerLine, List.length_append, List.length_cons, crlf, List.length_nil, paramSize] at *
    omega

theorem line_numberLine {name : String} (hn : Name name) {n : ℤ} (h₁ : -2 ^ 31 ≤ n) (h₂ : n < 2 ^ 31) :
    ∀ line ∈ numberLine name n, Line line ∧ line.length ≤ 145 := by
  intro line hl
  by_cases h : n = 0
  · rw [numberLine, if_pos h] at hl
    cases hl
  · refine line_textLine hn (text_decimal h₁ h₂) line ?_
    rw [numberLine, if_neg h] at hl
    rw [textLine, if_neg]
    · exact hl
    · intro hd
      rcases decimal_cases n with ⟨-, he⟩ | ⟨-, d, ds, -, -, he⟩ <;> rw [he] at hd <;> cases hd

/-! ## The whole message -/

section
variable {h : ToolHttp} (hs : Sendable h)
include hs

theorem contentLength_lt (hb : h.contentLength ≤ bodySize) : -2 ^ 31 ≤ h.contentLength ∧ h.contentLength < 2 ^ 31 := by
  have := hs.length.1
  unfold bodySize at hb
  omega

/-- The fields are filled again one after the other. -/
theorem fold_lines (hb : h.contentLength ≤ bodySize) :
    h.lines.foldlM parseLine cleared = some { h with body := [] } := by
  have hlen := contentLength_lt hs hb
  let g₀ : ToolHttp := { cleared with command := h.command, url := h.url, version := h.version }
  let g₁ : ToolHttp := { g₀ with seq := h.seq }
  let g₂ : ToolHttp := { g₁ with session := h.session }
  let g₃ : ToolHttp := { g₂ with xSessioncookie := h.xSessioncookie }
  let g₄ : ToolHttp := { g₃ with contentType := h.contentType }
  let g₅ : ToolHttp := { g₄ with authorization := h.authorization }
  let g₆ : ToolHttp := { g₅ with host := h.host }
  have h₁ : (numberLine "Seq" h.seq).foldlM parseLine g₀ = some g₁ := by
    apply fold_numberLine (by decide) hs.seq.1 hs.seq.2
    · exact fun h0 => by simp only [g₁, g₀, cleared, h0]
    · exact congrArg (fun n => ({ g₀ with seq := n } : ToolHttp)) (atoi_line hs.seq.1 hs.seq.2)
  have h₂ : (textLine "Session" h.session).foldlM parseLine g₁ = some g₂ := by
    apply fold_textLine (by decide) hs.session
    · exact fun h0 => by simp only [g₂, g₁, g₀, cleared, h0]
    · exact congrArg (fun v => ({ g₁ with session := v } : ToolHttp)) (put_nil h.session)
  have h₃ : (textLine "x-sessioncookie" h.xSessioncookie).foldlM parseLine g₂ = some g₃ := by
    apply fold_textLine (by decide) hs.xSessioncookie
    · exact fun h0 => by simp only [g₃, g₂, g₁, g₀, cleared, h0]
    · exact congrArg (fun v => ({ g₂ with xSessioncookie := v } : ToolHttp)) (put_nil h.xSessioncookie)
  have h₄ : (textLine "Content-Type" h.contentType).foldlM parseLine g₃ = some g₄ := by
    apply fold_textLine (by decide) hs.contentType
    · exact fun h0 => by simp only [g₄, g₃, g₂, g₁, g₀, cleared, h0]
    · exact congrArg (fun v => ({ g₃ with contentType := v } : ToolHttp)) (put_nil h.contentType)
  have h₅ : (textLine "Authorization" h.authorization).foldlM parseLine g₄ = some g₅ := by
    apply fold_textLine (by decide) hs.authorization
    · exact fun h0 => by simp only [g₅, g₄, g₃, g₂, g₁, g₀, cleared, h0]
    · exact congrArg (fun v => ({ g₄ with authorization := v } : ToolHttp)) (put_nil h.authorization)
  have h₆ : (textLine "Host" h.host).foldlM parseLine g₅ = some g₆ := by
    apply fold_textLine (by decide) hs.host
    · exact fun h0 => by simp only [g₆, g₅, g₄, g₃, g₂, g₁, g₀, cleared, h0]
    · exact congrArg (fun v => ({ g₅ with host := v } : ToolHttp)) (put_nil h.host)
  have h₇ : (numberLine "Content-Length" h.contentLength).foldlM parseLine g₆ = some { h with body := [] } := by
    apply fold_numberLine (by decide) hlen.1 hlen.2
    · exact fun h0 => by simp only [g₆, g₅, g₄, g₃, g₂, g₁, g₀, cleared, h0]
    · have hn : (if atoi (decimal h.contentLength ++ crlf) ≥ 32767 then 0
          else atoi (decimal h.contentLength ++ crlf)) = h.contentLength := by
        rw [atoi_line hlen.1 hlen.2]
        apply if_neg
        unfold bodySize at hb
        omega
      exact congrArg (fun n => ({ g₆ with contentLength := n } : ToolHttp)) hn
  rw [ToolHttp.lines, List.foldlM_cons, parseLine_start hs]
  simp only [ToolHttp.headerLines, List.foldlM_append, Option.bind_eq_bind, Option.bind_some]
  rw [show ({ cleared with command := h.command, url := h.url, version := h.version } : ToolHttp) = g₀ from rfl, h₁]
  simp only [Option.bind_some, h₂, h₃, h₄, h₅, h₆, h₇]

theorem line_requestLine : Line h.requestLine ∧ h.requestLine.length ≤ 1281 := by
  have hc := hs.command_fits
  have hu := hs.url.fits
  have hv := hs.version.fits
  unfold paramSize at hc hv
  unfold urlSize at hu
  refine ⟨⟨h.command ++ 32 :: (h.url ++ 32 :: (h.version ++ [13])), by simp [ToolHttp.requestLine, crlf], ?_, ?_, ?_, ?_⟩, ?_⟩
  · simp [hs.command_lf, hs.url.lf, hs.version.lf]
  · simp [hs.command_nul, hs.url.nul, hs.version.nul]
  · simp only [List.length_append, List.length_cons, List.length_nil]
    omega
  · simp only [List.length_append, List.length_cons, List.length_nil, lineSize]
    omega
  · simp only [ToolHttp.requestLine, List.length_append, List.length_cons, crlf, List.length_nil]
    omega

theorem startLine_eq : h.startLine = some h.requestLine := by
  have hlen := (line_requestLine hs).2
  rw [ToolHttp.startLine, if_neg (not_not.mpr hs.nonNumeric)]
  unfold ToolHttp.requestLine at hlen ⊢
  exact congrArg some (List.take_of_length_le (by unfold msgSize; omega))

theorem line_headerLines (hb : h.contentLength ≤ bodySize) : ∀ line ∈ h.headerLines, Line line ∧ line.length ≤ 145 := by
  have hlen := contentLength_lt hs hb
  intro line hl
  simp only [ToolHttp.headerLines, List.mem_append] at hl
  rcases hl with (((((hl | hl) | hl) | hl) | hl) | hl) | hl
  · exact line_numberLine (by decide) hs.seq.1 hs.seq.2 line hl
  · exact line_textLine (by decide) hs.session line hl
  · exact line_textLine (by decide) hs.xSessioncookie line hl
  · exact line_textLine (by decide) hs.contentType line hl
  · exact line_textLine (by decide) hs.authorization line hl
  · exact line_textLine (by decide) hs.host line hl
  · exact line_numberLine (by decide) hlen.1 hlen.2 line hl

end

theorem length_textLine (name : String) (value : List UInt8) : (textLine name value).length ≤ 1 := by
  unfold textLine
  split <;> simp

theorem length_numberLine (name : String) (n : ℤ) : (numberLine name n).length ≤ 1 := by
  unfold numberLine
  split <;> simp

theorem length_headerLines (h : ToolHttp) : h.headerLines.length ≤ 7 := by
  have := length_numberLine "Seq" h.seq
  have := length_textLine "Session" h.session
  have := length_textLine "x-sessioncookie" h.xSessioncookie
  have := length_textLine "Content-Type" h.contentType
  have := length_textLine "Authorization" h.authorization
  have := length_textLine "Host" h.host
  have := length_numberLine "Content-Length" h.contentLength
  simp only [ToolHttp.headerLines, List.length_append]
  omega

theorem length_flatten_le {lines : List (List UInt8)} {n : ℕ} (h : ∀ line ∈ lines, line.length ≤ n) :
    lines.flatten.length ≤ n * lines.length := by
  induction lines with
  | nil => simp
  | cons line lines ih =>
    have := h line List.mem_cons_self
    have := ih fun x hx => h x (List.mem_cons_of_mem line hx)
    rw [List.flatten_cons, List.length_append, List.length_cons, Nat.mul_succ]
    omega

/-- The head of a request, up to the blank line. -/
def ToolHttp.head (h : ToolHttp) : List UInt8 := h.lines.flatten ++ crlf

/-- The head and the body fit the memory of a body. -/
def Limited (h : ToolHttp) : Prop := h.contentLength = 0 ∨ h.head.length + h.contentLength ≤ bodySize

theorem Limited.le {h : ToolHttp} (hl : Limited h) : h.contentLength ≤ bodySize := by
  rcases hl with h0 | hle
  · rw [h0]
    decide
  · unfold bodySize at *
    omega

theorem length_head {h : ToolHttp} (hs : Sendable h) (hb : h.contentLength ≤ bodySize) : h.head.length ≤ 2298 := by
  have hstart := (line_requestLine hs).2
  have hlines := length_flatten_le fun line hl => (line_headerLines hs hb line hl).2
  have hnum := length_headerLines h
  simp only [ToolHttp.head, ToolHttp.lines, List.flatten_cons, List.length_append, crlf, List.length_cons, List.length_nil]
  omega

/-- Within the limit the head is sent with the body behind it. -/
theorem send_eq {h : ToolHttp} (hs : Sendable h) (hl : Limited h) :
    h.send = some (h.head ++ h.body.take h.contentLength.toNat) := by
  have hhead : h.requestLine ++ h.headerLines.flatten ++ crlf = h.head := by
    rw [ToolHttp.head, ToolHttp.lines, List.flatten_cons]
  have hpos := hs.length.1
  rw [ToolHttp.send, startLine_eq hs]
  simp only [Option.bind_eq_bind, Option.bind_some, hhead]
  by_cases h0 : h.contentLength = 0
  · rw [if_neg (not_not.mpr h0), h0]
    simp
  · have hle := hl.resolve_left h0
    rw [if_pos h0, if_neg (by omega)]

theorem recvLines_send {h : ToolHttp} (hs : Sendable h) (hb : h.contentLength ≤ bodySize) {ps : List (List UInt8)}
    {more : List UInt8} (hps : ps.flatten = h.head ++ more) :
    ∃ rest, recvLines (msgSize + 1) 0 cleared ps = some (h.head.length, { h with body := [] }, rest) ∧
      rest.flatten = more := by
  have hlines : ∀ line ∈ h.lines, Line line := by
    intro line hl
    rcases List.mem_cons.mp hl with rfl | hl
    · exact (line_requestLine hs).1
    · exact (line_headerLines hs hb line hl).1
  have hlen := length_head hs hb
  have hnum := length_headerLines h
  have hsum : h.head.length = 0 + h.lines.flatten.length + 2 := by
    rw [ToolHttp.head, List.length_append, Nat.zero_add]
    rfl
  rw [hsum]
  apply recvLines_lines hlines (fold_lines hs hb)
  · rw [ToolHttp.lines, List.length_cons]
    unfold msgSize
    omega
  · unfold msgSize
    omega
  · rw [hps, ToolHttp.head, List.append_assoc]

/-- What `tool_http_Send` writes for a request is what `tool_http_Recv` gives back, in whatever pieces it is read. -/
theorem recv_send (h : ToolHttp) (hs : Sendable h) (hl : Limited h) : Returns h := by
  refine ⟨_, send_eq hs hl, fun ps more hps => ?_⟩
  rw [List.append_assoc] at hps
  obtain ⟨rest, hlines, hrest⟩ := recvLines_send hs hl.le hps
  unfold recv
  simp only [Option.bind_eq_bind, hlines, Option.bind_some]
  by_cases h0 : h.contentLength > 0
  · have hle := hl.le
    have hhead := length_head hs hle
    have hbody : (h.body.take h.contentLength.toNat).length = h.contentLength.toNat := by
      have := hs.length.2
      rw [List.length_take]
      omega
    obtain ⟨rest', hrecv, hrest'⟩ := Pieces.recv_append hrest
    rw [hbody] at hrecv
    refine ⟨rest', ?_, hrest'⟩
    rw [if_pos h0, if_neg (Int.not_lt.mpr hle), hrecv, Option.bind_some, if_neg]
    have hsum := hl.resolve_left (by omega)
    unfold bodySize at hsum
    unfold msgSize
    omega
  · have hz : h.contentLength = 0 := by
      have := hs.length.1
      omega
    rw [hz, Int.toNat_zero, List.take_zero, List.nil_append] at hrest
    refine ⟨rest, ?_, hrest⟩
    rw [if_neg h0, hz]
    rfl

theorem not_returns {h : ToolHttp} (hne : (recv [h.send.getD []]).map Prod.fst ≠
    some { h with body := h.body.take h.contentLength.toNat }) : ¬ Returns h := by
  rintro ⟨bytes, hs, hr⟩
  obtain ⟨rest, hrecv, -⟩ := hr [bytes] [] (by simp)
  apply hne
  rw [hs, Option.getD_some, hrecv]
  rfl

def post (command version : String) : ToolHttp :=
  ⟨ascii command, ascii "/u/x.php", ascii version, -7, [], [], ascii "text: html", [], ascii "a.b", 2, [13, 10, 0]⟩

theorem recv_post : Returns (post "POST" "HTTP/1.0") :=
  recv_send (post "POST" "HTTP/1.0") ⟨by decide, by decide, by decide, by decide⟩ (.inr (by decide))

/-- None of the three conditions on the start line can be left out: the version of another protocol, a blank and a line feed in
the command each break the first line. -/
theorem start_line_broken :
    (¬ ∀ h, Request h → Limited h → 32 ∉ h.command → 10 ∉ h.command → Returns h) ∧
    (¬ ∀ h, Request h → Limited h → ascii "HTTP/" <+: h.version → 10 ∉ h.command → Returns h) ∧
    ¬ ∀ h, Request h → Limited h → ascii "HTTP/" <+: h.version → 32 ∉ h.command → Returns h := by
  refine ⟨fun h => ?_, fun h => ?_, fun h => ?_⟩
  · refine not_returns ?_ (h (post "POST" "RTSP/1.0") (by decide) (.inr (by decide)) (by decide) (by decide))
    decide +kernel
  · refine not_returns ?_ (h (post "PO ST" "HTTP/1.0") (by decide) (.inr (by decide)) (by decide) (by decide))
    decide +kernel
  · refine not_returns ?_ (h (post "PO\nST" "HTTP/1.0") (by decide) (.inr (by decide)) (by decide) (by decide))
    decide +kernel

end Http

end SabApp
