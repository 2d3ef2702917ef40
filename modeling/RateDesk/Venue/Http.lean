import RateDesk.Text.Cut
import RateDesk.Text.Lossy
import RateDesk.Text.Numeral

/-!
# HTTP requests and replies

What a polled venue is asked and answers. Main definitions: `HttpRequest`, `HttpReply`,
`statusLine`, `shownPath`.
-/

namespace RateDesk

/-- A request: its target is everything after the host. -/
structure HttpRequest where
  method : String
  target : String
  authorization : Option String
  contentType : Option String
  body : String
deriving DecidableEq, Repr

/-- What comes of a request. -/
inductive HttpReply where
  | answered (status : Nat) (body : List UInt8)
  /-- The connection closes without an answer. -/
  | dropped
  | timedOut
deriving DecidableEq, Repr

def statusPhrases : List (Nat × String) :=
  [(100, "Continue"), (101, "Switching Protocols"), (102, "Processing"), (200, "OK"), (201, "Created"),
   (202, "Accepted"), (203, "Non Authoritative Information"), (204, "No Content"), (205, "Reset Content"),
   (206, "Partial Content"), (207, "Multi-Status"), (208, "Already Reported"), (226, "IM Used"),
   (300, "Multiple Choices"), (301, "Moved Permanently"), (302, "Found"), (303, "See Other"), (304, "Not Modified"),
   (305, "Use Proxy"), (307, "Temporary Redirect"), (308, "Permanent Redirect"), (400, "Bad Request"),
   (401, "Unauthorized"), (402, "Payment Required"), (403, "Forbidden"), (404, "Not Found"),
   (405, "Method Not Allowed"), (406, "Not Acceptable"), (407, "Proxy Authentication Required"),
   (408, "Request Timeout"), (409, "Conflict"), (410, "Gone"), (411, "Length Required"), (412, "Precondition Failed"),
   (413, "Payload Too Large"), (414, "URI Too Long"), (415, "Unsupported Media Type"), (416, "Range Not Satisfiable"),
   (417, "Expectation Failed"), (418, "I'm a teapot"), (421, "Misdirected Request"), (422, "Unprocessable Entity"),
   (423, "Locked"), (424, "Failed Dependency"), (425, "Too Early"), (426, "Upgrade Required"),
   (428, "Precondition Required"), (429, "Too Many Requests"), (431, "Request Header Fields Too Large"),
   (451, "Unavailable For Legal Reasons"), (500, "Internal Server Error"), (501, "Not Implemented"),
   (502, "Bad Gateway"), (503, "Service Unavailable"), (504, "Gateway Timeout"), (505, "HTTP Version Not Supported"),
   (506, "Variant Also Negotiates"), (507, "Insufficient Storage"), (508, "Loop Detected"), (510, "Not Extended"),
   (511, "Network Authentication Required")]

def statusLine (code : Nat) : String :=
  toString code ++ " " ++ (statusPhrases.lookup code).getD "<unknown status code>"

/-! ## Paths -/

open Text

def hexValue? (c : Char) : Option Nat :=
  if isDigit c then digit? c
  else if 'a' ≤ c ∧ c ≤ 'f' then some (c.toNat - 'a'.toNat + 10)
  else if 'A' ≤ c ∧ c ≤ 'F' then some (c.toNat - 'A'.toNat + 10)
  else none

/-- The bytes that percent signs with two hexadecimal digits stand for, and the bytes of everything
else. -/
def percentDecode : List Char → List UInt8
  | [] => []
  | [c] => (String.singleton c).toUTF8.toList
  | c :: d :: r =>
    let plain (c : Char) : List UInt8 := (String.singleton c).toUTF8.toList
    match r with
    | e :: r' =>
      match (if c = '%' then hexValue? d else none), hexValue? e with
      | some a, some b => UInt8.ofNat (a * 16 + b) :: percentDecode r'
      | _, _ => plain c ++ percentDecode (d :: e :: r')
    | [] => plain c ++ plain d

/-- A path segment with its escaped dots written out. -/
def unescapeDots : List Char → List Char
  | '%' :: '2' :: e :: r =>
    if e = 'e' ∨ e = 'E' then '.' :: unescapeDots r else '%' :: '2' :: unescapeDots (e :: r)
  | c :: r => c :: unescapeDots r
  | [] => []

/-- Path segments with `.` left out and `..` taking the segment before it away. -/
def resolveDots (done : List (List Char)) : List (List Char) → List (List Char)
  | [] => done.reverse
  | s :: r =>
    let plain := unescapeDots s
    let last := if r.isEmpty then [[]] else []
    if plain = ['.'] then resolveDots (last ++ done) r
    else if plain = ['.', '.'] then resolveDots (last ++ done.drop 1) r
    else resolveDots (s :: done) r

/-- A text without the blanks and control characters at its end. -/
def dropControlEnd (s : List Char) : List Char :=
  (s.reverse.dropWhile fun c => decide (c ≤ ' ')).reverse

/-- The path of a request target as a server shows it: without query and fragment, dots resolved and
escapes undone. -/
def shownPath (target : String) : String :=
  let kept := (dropControlEnd target.toList).filter fun c => c ≠ '\t' && c ≠ '\n' && c ≠ '\r'
  let path := (kept.takeWhile fun c => c ≠ '?' && c ≠ '#').map fun c => if c = '\\' then '/' else c
  let segments := resolveDots [] ((fields '/' path).drop 1)
  String.ofList (decodeLossy (percentDecode (segments.flatMap fun s => '/' :: s)))

end RateDesk
