import SabApp.Decimal
import SabApp.Pieces

/-!
# HTTP messages (tool_http.c)

A message is written into one buffer line by line, with the body behind the blank line, and read back one byte at a time up to
that line. A field is a text in cleared memory that each header line copies into.
-/

namespace SabApp

namespace Http

open CText ToolJson Decimal

/-- TOOL_HTTP_STR_SIZE -/
def strSize : ℕ := 64

/-- TOOL_HTTP_PARAM_SIZE -/
def paramSize : ℕ := 128

/-- TOOL_HTTP_URL_SIZE -/
def urlSize : ℕ := 1024

/-- TOOL_HTTP_LINE_SIZE -/
def lineSize : ℕ := 2048

/-- TOOL_HTTP_BODY_SIZE -/
def bodySize : ℕ := 10240

/-- TOOL_HTTP_MSG_SIZE -/
def msgSize : ℕ := 12288

def crlf : List UInt8 := [13, 10]

/-- `tool_http_t`; the body up to the last byte that was written to it. -/
structure ToolHttp where
  command : List UInt8
  url : List UInt8
  version : List UInt8
  seq : ℤ
  session : List UInt8
  xSessioncookie : List UInt8
  contentType : List UInt8
  authorization : List UInt8
  host : List UInt8
  contentLength : ℤ
  body : List UInt8
  deriving DecidableEq

def descs : List (ℤ × String) :=
  [(100, "Continue"), (101, "Switching Protocols"), (200, "OK"), (201, "Created"), (202, "Accepted"),
    (203, "Non-Authoritative Information"), (204, "No Content"), (205, "Reset Content"), (206, "Partial Content"),
    (300, "Multiple Choices"), (301, "Moved Permanently"), (302, "Found"), (303, "See Other"), (304, "Not Modified"),
    (305, "Use Proxy"), (307, "Temporary Redirect"), (400, "Bad Request"), (401, "Unauthorized"),
    (402, "Payment Required"), (403, "Forbidden"), (404, "Not Found"), (405, "Method Not Allowed"),
    (406, "Not Acceptable"), (407, "Proxy Authentication Required"), (408, "Request Time-out"), (409, "Conflict"),
    (410, "Gone"), (411, "Length Required"), (412, "Precondition Failed"), (413, "Request Entity Too Large"),
    (414, "Request-URI Too Large"), (415, "Unsupported Media Type"), (416, "Requested range not satisfiable"),
    (417, "Expectation Failed"), (500, "Internal Server Error"), (501, "Not Implemented"), (502, "Bad Gateway"),
    (503, "Service Unavailable"), (504, "Gateway Time-out"), (505, "HTTP Version not supported")]

/-- `tool_http_GetDesc` -/
def getDesc (code : ℤ) (size : ℕ) : Option (List UInt8) :=
  (descs.find? fun d => d.1 = code).map fun d => (ascii d.2).take (size - 1)

/-- What `snprintf` leaves of a text in so much memory, less one. -/
def snprintf (size : ℕ) (s : List UInt8) : List UInt8 := s.take (size - 2)

/-! ## Sending -/

def textLine (name : String) (value : List UInt8) : List (List UInt8) :=
  if value = [] then [] else [snprintf lineSize (ascii name ++ 58 :: (value ++ crlf))]

def numberLine (name : String) (value : ℤ) : List (List UInt8) :=
  if value = 0 then [] else [snprintf lineSize (ascii name ++ 58 :: (decimal value ++ crlf))]

namespace ToolHttp

/-- The first line; an answer has a code for a command. -/
def startLine (h : ToolHttp) : Option (List UInt8) :=
  let code := atoi h.command
  if code ≠ 0 then
    (getDesc code strSize).map fun desc =>
      snprintf msgSize (h.version ++ 32 :: (h.command ++ 32 :: (desc ++ crlf)))
  else some (snprintf msgSize (h.command ++ 32 :: (h.url ++ 32 :: (h.version ++ crlf))))

def headerLines (h : ToolHttp) : List (List UInt8) :=
  numberLine "Seq" h.seq ++ textLine "Session" h.session ++ textLine "x-sessioncookie" h.xSessioncookie ++
    textLine "Content-Type" h.contentType ++ textLine "Authorization" h.authorization ++ textLine "Host" h.host ++
    numberLine "Content-Length" h.contentLength

/-- `tool_http_Send`: the bytes it sends, none for -1 or where it would copy a negative length. -/
def send (h : ToolHttp) : Option (List UInt8) := do
  let start ← h.startLine
  let head := start ++ h.headerLines.flatten ++ crlf
  if h.contentLength ≠ 0 then
    if head.length + h.contentLength > bodySize ∨ h.contentLength < 0 then none
    else some (head ++ h.body.take h.contentLength.toNat)
  else some head

end ToolHttp

/-! ## Receiving -/

/-- The text up to the needle, if it fits a field of that size, and what is there from the needle on. -/
def cut (needle : List UInt8) (size : ℕ) (text : List UInt8) : Option (List UInt8 × List UInt8) :=
  (strstr needle text).bind fun stop =>
    let n := text.length - stop.length
    if n ≥ size then none else some (text.take n, stop)

/-- `strncpy` of a text into memory that has another. -/
def put (old new : List UInt8) : List UInt8 := new ++ old.drop new.length

def parseRequest (h : ToolHttp) (line : List UInt8) : Option ToolHttp := do
  let (command, stop) ← cut (ascii " ") paramSize line
  let (url, stop) ← cut (ascii " HTTP/") urlSize (stop.drop 1)
  let (version, _) ← cut crlf paramSize (stop.drop 1)
  some { h with command := put h.command command, url := put h.url url, version := put h.version version }

def parseAnswer (h : ToolHttp) (line : List UInt8) : Option ToolHttp := do
  let (version, stop) ← cut (ascii " ") paramSize line
  let (command, stop) ← cut (ascii " ") paramSize (stop.drop 1)
  let (url, _) ← cut crlf urlSize (stop.drop 1)
  some { h with version := put h.version version, command := put h.command command, url := put h.url url }

/-- What a header line sets, with what is there behind the colon. -/
def setHeader (h : ToolHttp) (line start value : List UInt8) : ToolHttp :=
  if (ascii "Seq").isPrefixOf line then { h with seq := atoi start }
  else if (ascii "Session").isPrefixOf line then { h with session := put h.session value }
  else if (ascii "x-sessioncookie").isPrefixOf line then { h with xSessioncookie := put h.xSessioncookie value }
  else if (ascii "Content-Type").isPrefixOf line then { h with contentType := put h.contentType value }
  else if (ascii "Authorization").isPrefixOf line then { h with authorization := put h.authorization value }
  else if (ascii "Host").isPrefixOf line then { h with host := put h.host value }
  else if (ascii "Content-Length").isPrefixOf line then
    { h with contentLength := if atoi start ≥ 32767 then 0 else atoi start }
  else h

def parseHeader (h : ToolHttp) (line : List UInt8) : Option ToolHttp := do
  let colon ← strstr (ascii ":") line
  let start := (colon.drop 1).dropWhile (· = 32)
  let stop ← strstr crlf line
  let n := start.length - stop.length
  if n ≥ paramSize then none else some (setHeader h line start (start.take n))

/-- `tool_http_ParseLine`, none for -1. -/
def parseLine (h : ToolHttp) (line : List UInt8) : Option ToolHttp :=
  if (strstr (ascii " HTTP/") line).isSome then parseRequest h line
  else if (ascii "HTTP/").isPrefixOf line then parseAnswer h line
  else parseHeader h line

/-- `tool_sock_item_recvLine`, with room for so many more bytes. -/
def recvLine : ℕ → List (List UInt8) → Option (List UInt8 × List (List UInt8))
  | 0, _ => none
  | room + 1, ps => do
    let (b, ps) ← Pieces.recv 1 ps
    if b = [10] then some (b, ps)
    else
      let (bs, ps) ← recvLine room ps
      some (b ++ bs, ps)

/-- The loop over the lines, with so many bytes read before. A line has a byte at least, so it ends within `fuel` lines. -/
def recvLines : ℕ → ℕ → ToolHttp → List (List UInt8) → Option (ℕ × ToolHttp × List (List UInt8))
  | 0, _, _, _ => none
  | fuel + 1, len, h, ps => do
    let (line, ps) ← recvLine (lineSize - 1) ps
    let len := len + line.length
    if len > msgSize then none
    else if crlf.isPrefixOf (cstr line) then some (len, h, ps)
    else
      let h ← parseLine h (cstr line)
      recvLines fuel len h ps

def cleared : ToolHttp := ⟨[], [], [], 0, [], [], [], [], [], 0, []⟩

/-- `tool_http_Recv`, without a buffer for the message, and what is left of the stream. -/
def recv (ps : List (List UInt8)) : Option (ToolHttp × List (List UInt8)) := do
  let (len, h, ps) ← recvLines (msgSize + 1) 0 cleared ps
  if h.contentLength > 0 then
    if h.contentLength > bodySize then none
    else
      let (body, ps) ← Pieces.recv h.contentLength.toNat ps
      if len + h.contentLength > msgSize then none else some ({ h with body }, ps)
  else some (h, ps)

end Http

end SabApp
