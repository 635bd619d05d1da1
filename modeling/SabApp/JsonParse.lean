import SabApp.CText

/-!
# The JSON parser (tool_json.c)

`tool_json_parse` copies the text and walks once over it with a cursor that only moves forward. It
writes a terminator over the closing quote of each name and string and keeps a flat list of items
that point into the copy.
-/

namespace SabApp

/-- TOOL_JSON_STR_SIZE -/
def jsonStrSize : ℕ := 4096

/-- TOOL_JSON_ITEM_NUM -/
def jsonItemNum : ℕ := 1024

/-- A `TOOL_INT8*` that is not NULL: into `sz_str`, or one of the two literals. -/
inductive JsonPtr where
  | at (off : ℕ)
  | lit (s : List UInt8)
  deriving DecidableEq

/-- TOOL_JSON_ITEM_TYPE_E -/
inductive JsonType where
  | string
  | null
  | number
  deriving DecidableEq

/-- `tool_json_item_t`. -/
structure JsonItem where
  name : Option JsonPtr := none
  value : Option JsonPtr := none
  number : ℤ := 0
  type : JsonType := .string
  arrayName : Option JsonPtr := none
  arrayIndex : ℕ := 0
  deriving DecidableEq

/-- `tool_json_t`. `past` and `rest` are `sz_str` up to its terminator, cut at `pch_index`; `item`
holds the `n32_num` counted items and `slot` is the item after them. -/
structure ToolJson where
  past : List UInt8
  rest : List UInt8
  item : List JsonItem
  slot : JsonItem
  curArrayName : Option JsonPtr
  curArrayIndex : ℕ
  deriving DecidableEq

namespace ToolJson

open CText

/-- TOOL_JSON_NULL -/
def nullMarker : List UInt8 := ascii "TOOL_JSON_NULL"

/-- TOOL_JSON_ROOT_ARRAY_NAME -/
def rootArrayName : List UInt8 := ascii "TOOL_JSON_ROOT_ARRAY_NAME"

/-- What the C code must not do. -/
inductive Fault where
  /-- the cursor leaves the text, or a write behind its end -/
  | text
  /-- a write behind `st_item` -/
  | items
  /-- a loop that does not end -/
  | endless
  deriving DecidableEq

abbrev Result := Except Fault (ℤ × ToolJson)

/-- `if (call < 0) return -1;` and the rest. -/
def orFail (call : Result) (rest : ToolJson → Result) : Result :=
  call >>= fun r => if r.1 < 0 then .ok (-1, r.2) else rest r.2

/-- `if (call < 0) return -1; else if (call > 0) return 0;` and the rest. -/
def orReturn (call : Result) (rest : ToolJson → Result) : Result :=
  call >>= fun r => if r.1 < 0 then .ok (-1, r.2) else if 0 < r.1 then .ok (0, r.2) else rest r.2

/-! ## The cursor -/

/-- `*(pst_json->pch_index)` -/
def char (st : ToolJson) : UInt8 := st.rest.headD 0

/-- `pst_json->pch_index += n` -/
def forward (n : ℕ) (st : ToolJson) : Except Fault ToolJson :=
  if n ≤ st.rest.length then
    .ok { st with past := st.past ++ st.rest.take n, rest := st.rest.drop n }
  else .error .text

/-- `*(pst_json->pch_index) = 0` -/
def terminate (st : ToolJson) : Except Fault ToolJson :=
  match st.rest with
  | [] => .error .text
  | _ :: cs => .ok { st with rest := 0 :: cs }

/-- A write to `st_item[n32_num]`. -/
def setSlot (f : JsonItem → JsonItem) (st : ToolJson) : Except Fault ToolJson :=
  if st.item.length < jsonItemNum then .ok { st with slot := f st.slot } else .error .items

/-- `n32_num++`; the items behind are as `memset` left them. -/
def count (st : ToolJson) : ToolJson := { st with item := st.item ++ [st.slot], slot := {} }

/-! ## The scans -/

/-- The loop of the five scans below. -/
def scan (stop : UInt8 → Bool) (st : ToolJson) : Result :=
  let st := { st with past := st.past ++ before stop st.rest, rest := after stop st.rest }
  .ok (if st.rest = [] then -1 else 0, st)

def parseDoubleQuote : ToolJson → Result := scan (· = 34)

def parseDoubleQuoteCaseMidBracket : ToolJson → Result := scan fun c => c = 34 ∨ c = 91

def parseSemicolon : ToolJson → Result := scan (· = 58)

def parseCommaCaseBigBracket : ToolJson → Result := scan fun c => c = 44 ∨ c = 125

def parseCommaCaseMidBracket : ToolJson → Result := scan fun c => c = 44 ∨ c = 93

/-! ## Null and numbers -/

/-- The loop of `tool_json_parseNull`: what it returns and where it stops. -/
def nullScan : List UInt8 → ℤ × ℕ
  | [] => (-1, 0)
  | c :: cs =>
    if c = 44 ∨ c = 125 ∨ c = 34 then (0, 0)
    else if (ascii "null").isPrefixOf (c :: cs) then (1, 0)
    else ((nullScan cs).1, (nullScan cs).2 + 1)

def parseNull (st : ToolJson) : Result :=
  if (nullScan st.rest).1 ≤ 0 then .ok ((nullScan st.rest).1, st)
  else do
    let st' ← st.setSlot fun it => { it with
      value := some (.lit nullMarker), type := .null
      arrayName := st.curArrayName, arrayIndex := st.curArrayIndex }
    let st' ← st'.count.forward ((nullScan st.rest).2 + 4)
    .ok (1, st')

def isDigit (c : UInt8) : Bool := 48 ≤ c ∧ c ≤ 57

/-- The loop of `tool_json_parseNumber`, with `flag`. -/
def numberScan : Bool → List UInt8 → ℤ × ℕ
  | _, [] => (-1, 0)
  | false, c :: cs =>
    if c = 34 ∨ c = 91 then (0, 0)
    else if c = 45 ∨ isDigit c then ((numberScan true cs).1, (numberScan true cs).2 + 1)
    else (-1, 0)
  | true, c :: cs =>
    if c = 44 ∨ c = 125 then (1, 0)
    else if ¬isDigit c then (-1, 0)
    else ((numberScan true cs).1, (numberScan true cs).2 + 1)

/-- The number that a run of digits reads as. -/
def digitsVal (ds : List UInt8) : ℕ := ds.foldl (fun n c => 10 * n + (c.toNat - 48)) 0

def isSpace (c : UInt8) : Bool := c = 32 ∨ (9 ≤ c ∧ c ≤ 13)

theorem not_isSpace_of_isDigit {c : UInt8} (h : isDigit c = true) : isSpace c = false := by
  have hd : 48 ≤ c ∧ c ≤ 57 := by simpa [isDigit] using h
  have hne : c ≠ 32 := by
    rintro rfl
    exact absurd hd.1 (by decide)
  have hlt : ¬ c ≤ 13 := fun h13 => absurd (UInt8.le_trans hd.1 h13) (by decide)
  simp [isSpace, hne, hlt]

/-- The C library's `atoi`, with the result held to 32 bits. -/
def atoi (bs : List UInt8) : ℤ :=
  let val : ℤ := match bs.dropWhile isSpace with
    | 45 :: ds => -(digitsVal (ds.takeWhile isDigit) : ℤ)
    | 43 :: ds => digitsVal (ds.takeWhile isDigit)
    | ds => digitsVal (ds.takeWhile isDigit)
  max (-2 ^ 31) (min val (2 ^ 31 - 1))

def parseNumber (st : ToolJson) : Result :=
  if (numberScan false st.rest).1 ≤ 0 then .ok ((numberScan false st.rest).1, st)
  else do
    let st' ← st.setSlot fun it => { it with
      value := some (.at st.past.length), number := atoi st.rest, type := .number
      arrayName := st.curArrayName, arrayIndex := st.curArrayIndex }
    let st' ← st'.count.forward (numberScan false st.rest).2
    .ok (1, st')

/-! ## Members, objects and arrays -/

def parseName (st : ToolJson) : Result :=
  orFail st.parseDoubleQuote fun st => do
  let st ← st.forward 1
  let st ← st.setSlot fun it => { it with name := some (.at st.past.length) }
  orFail st.parseDoubleQuote fun st => do
  let st ← st.terminate
  let st ← st.forward 1
  orFail st.parseSemicolon fun st => do
  let st ← st.forward 1
  .ok (0, st)

/-- The string case of `tool_json_parseValue`, with the cursor behind the opening quote. -/
def parseString (st : ToolJson) : Result := do
  let st ← st.setSlot fun it => { it with value := some (.at st.past.length), type := .string }
  orFail st.parseDoubleQuote fun st => do
  let st ← st.terminate
  let st ← st.setSlot fun it => { it with arrayName := st.curArrayName, arrayIndex := st.curArrayIndex }
  let st ← st.count.forward 1
  .ok (0, st)

def parseValue (parseMidBracket : Option JsonPtr → ToolJson → Result) (st : ToolJson) : Result :=
  orReturn st.parseNull fun st =>
  orReturn st.parseNumber fun st =>
  orFail st.parseDoubleQuoteCaseMidBracket fun st =>
  if st.char = 91 then orFail (parseMidBracket st.slot.name st) fun st => .ok (0, st)
  else do
    let st ← st.forward 1
    st.parseString

/-- The loop of `tool_json_parseMidBracket`, for at most `k` elements. -/
def midBracketLoop (parseBigBracket : ToolJson → Result) (arrayName : Option JsonPtr) :
    ℕ → ℕ → ToolJson → Result
  | 0, _, _ => .error .endless
  | k + 1, i, st =>
    orFail (parseBigBracket { st with curArrayName := arrayName, curArrayIndex := i }) fun st => do
    let st ← st.forward 1
    orFail st.parseCommaCaseMidBracket fun st =>
    if st.char = 93 then
      .ok (0, { st with curArrayName := some (.lit rootArrayName), curArrayIndex := 0 })
    else do
      let st ← st.forward 1
      midBracketLoop parseBigBracket arrayName k (i + 1) st

def parseMidBracket (parseBigBracket : ToolJson → Result) (arrayName : Option JsonPtr) (st : ToolJson) :
    Result := do
  let st ← st.forward 1
  midBracketLoop parseBigBracket arrayName (st.rest.length + 1) 0 st

/-- The loop of `tool_json_parseBigBracket`, for at most `k` members. -/
def bigBracketLoop (parseValue : ToolJson → Result) : ℕ → ToolJson → Result
  | 0, _ => .error .endless
  | k + 1, st =>
    orFail st.parseName fun st =>
    orFail (parseValue st) fun st =>
    orFail st.parseCommaCaseBigBracket fun st =>
    if st.char = 125 then .ok (0, st)
    else do
      let st ← st.forward 1
      bigBracketLoop parseValue k st

/-- `d` bounds the nesting. -/
def parseBigBracket : ℕ → ToolJson → Result
  | 0, _ => .error .endless
  | d + 1, st =>
    orFail (st.scan (· = 123)) fun st => do
    let st ← st.forward 1
    bigBracketLoop (parseValue (parseMidBracket (parseBigBracket d))) (st.rest.length + 1) st

/-- The state behind `memset` and `strncpy`. -/
def init (s : List UInt8) : ToolJson where
  past := []
  rest := s
  item := []
  slot := {}
  curArrayName := some (.lit rootArrayName)
  curArrayIndex := 0

/-- `tool_json_parse`; a text that does not fit `sz_str` would be copied over what follows it. -/
def parse (str : List UInt8) : Result :=
  if jsonStrSize ≤ (cstr str).length then .error .text
  else orFail (parseBigBracket ((cstr str).length + 1) (init (cstr str))) fun st => .ok (0, st)

/-! ## Lookups -/

/-- The text at a pointer. -/
def deref (st : ToolJson) : JsonPtr → List UInt8
  | .at off => cstr ((st.past ++ st.rest).drop off)
  | .lit s => s

/-- The loop of `tool_json_getValue`; `none` is `log_fatal`. -/
def getValueLoop (st : ToolJson) (name : List UInt8) : List JsonItem → Option (Option JsonPtr)
  | [] => some none
  | it :: its =>
    match it.name with
    | none => none
    | some p => if st.deref p = name then some it.value else getValueLoop st name its

def getValue (st : ToolJson) (name : List UInt8) : Option (Option JsonPtr) := st.getValueLoop name st.item

/-- The loop of `tool_json_getValue_V2`; `none` is `log_fatal`. -/
def getValueV2Loop (st : ToolJson) (arrayName : List UInt8) (arrayIndex : ℤ) (name : List UInt8) :
    List JsonItem → Option (Option JsonPtr)
  | [] => some none
  | it :: its =>
    match it.arrayName, it.name with
    | some a, some p =>
      if st.deref a = arrayName ∧ (it.arrayIndex : ℤ) = arrayIndex ∧ st.deref p = name then some it.value
      else getValueV2Loop st arrayName arrayIndex name its
    | _, _ => none

def getValueV2 (st : ToolJson) (arrayName : List UInt8) (arrayIndex : ℤ) (name : List UInt8) :
    Option (Option JsonPtr) :=
  st.getValueV2Loop arrayName arrayIndex name st.item

end ToolJson

end SabApp
