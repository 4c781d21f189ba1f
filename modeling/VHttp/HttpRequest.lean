import VHttp.VHashTable
import VHttp.VString

/-!
# The request parser of http_request.c

The parser cuts the head out of the raw request, cuts the head into lines, stores the
header lines in the table and then reads the request line. It works in the raw
buffer: a header's value is trimmed and terminated in place before the request line
is looked at. No result means that an access leaves the memory or that a probe of the
header table never ends.

Two things that C leaves open are parameters: what a reallocated block holds behind
its old bytes (`fresh`), and what the array for method, url and version holds before
it is filled (`stack`). The other arrays are read only where they have been filled.
`CKey` is a byte shorter than what is stored in it; here it is the terminated copy.
A result also tells which view was handed to `VHttpRequest_DecodeUrl`.

Counters are naturals, as the worker's buffer has 4092 bytes. `Parsing.parse` is the parser
with every counter at its width, and `Parsing.parse_agrees` says that the two do the same to a
request shorter than 2^31 bytes (`Decoding.decodeUrl_eq` for the decoder alone).
-/

namespace VHttp

/-- The bytes of a string literal. -/
def ascii (text : String) : Bytes := text.toList.map (fun char => UInt8.ofNat char.toNat)

/-- `vhttp_method`. -/
inductive VHttpMethod where
  | error
  | options
  | get
  | head
  | post
  | put
  | patch
  | delete
  | trace
  | connect
  deriving DecidableEq

/-- `HttpMethodsStr`. The array has no string for `VHTTP_METHOD_ERROR`. -/
def httpMethodsStr : VHttpMethod → Option Bytes
  | .error => none
  | .get => some (ascii "GET")
  | .post => some (ascii "POST")
  | .put => some (ascii "PUT")
  | .delete => some (ascii "DELETE")
  | .options => some (ascii "OPTIONS")
  | .head => some (ascii "HEAD")
  | .patch => some (ascii "PATCH")
  | .trace => some (ascii "TRACE")
  | .connect => some (ascii "CONNECT")

/-- `vhttp_request`, without the fields that neither `VHttpRequest_Init` nor
`VHttpRequest_Parse` touches. -/
structure VHttpRequest where
  method : VHttpMethod
  strMethod : VString
  url : VString
  headers : VHashTable Bytes
  length : Nat
  body : VString
  contentLength : Nat

namespace VHttpRequest

/-- `VHttpRequest_Init`. -/
def init : VHttpRequest :=
  { method := .error
    url := VString.init
    strMethod := VString.init
    body := VString.init
    headers := VHashTable.init 0
    contentLength := 0
    length := 0 }

/-- The comparisons of `VHttpRequest_GetMethodFromString`, in their order. -/
def methodTests : List (Bytes × VHttpMethod) :=
  [(ascii "GET", .get), (ascii "HEAD", .head), (ascii "POST", .post), (ascii "PUT", .put),
    (ascii "DELETE", .delete), (ascii "TRACE", .trace), (ascii "CONNECT", .connect),
    (ascii "PATCH", .patch)]

/-- The first test that finds its name at an address decides. -/
def testMethods (memory : Memory) (address : Nat) :
    List (Bytes × VHttpMethod) → Option VHttpMethod
  | [] => some .error
  | (name, method) :: rest => do
    let same ← memcmpEqual memory address name
    if same then some method else testMethods memory address rest

/-- `VHttpRequest_GetMethodFromString`. A name need only be a prefix of what is there. -/
def getMethodFromString (memory : Memory) (method : VStringView) : Option VHttpMethod :=
  if method.length > 7 then some .error else testMethods memory method.data methodTests

/-- The value of a hexadecimal digit. -/
def hexDigit (byte : UInt8) : UInt8 :=
  if byte ≤ 57 then byte - 48 else if byte ≤ 70 then byte - 55 else byte - 87

/-- strtol of two hexadecimal digits in base sixteen, as a char. -/
def strtolHex (first second : UInt8) : UInt8 := 16 * hexDigit first + hexDigit second

/-- The two bytes behind a '%', when both are hexadecimal digits. The second one is
only read when the first one is. -/
def escapeAt (memory : Memory) (address : Nat) : Option (Option (UInt8 × UInt8)) := do
  let first ← memory[address]?
  if isXDigit first then
    let second ← memory[address + 1]?
    pure (if isXDigit second then some (first, second) else none)
  else pure none

/-- The loop of `VHttpRequest_DecodeUrl`; every round passes at least one byte of the
url. A '+' falls through, so both a blank and the '+' are inserted. -/
def decodeLoop (fresh : Nat → UInt8) (memory : Memory) (url : VStringView) :
    Nat → Nat → Nat → VString → Option VString
  | 0, _, _, _ => none
  | fuel + 1, index, count, string =>
    if index < url.length then do
      let byte ← memory[url.data + index]?
      if byte = 37 then
        match ← escapeAt memory (url.data + index + 1) with
        | some (first, second) =>
          let string ← string.insert fresh count (strtolHex first second)
          decodeLoop fresh memory url fuel (index + 3) (count + 1) string
        | none =>
          let string ← string.insert fresh count byte
          decodeLoop fresh memory url fuel (index + 1) (count + 1) string
      else if byte = 43 then
        let string ← string.insert fresh count 32
        let string ← string.insert fresh (count + 1) byte
        decodeLoop fresh memory url fuel (index + 1) (count + 2) string
      else
        let string ← string.insert fresh count byte
        decodeLoop fresh memory url fuel (index + 1) (count + 1) string
    else some string

/-- `VHttpRequest_DecodeUrl`, into the string of the request. -/
def decodeUrl (fresh : Nat → UInt8) (memory : Memory) (url : VStringView) (string : VString) :
    Option VString :=
  decodeLoop fresh memory url (url.length + 1) 0 0 string

/-- What `VHttpRequest_Parse` returns and leaves behind. -/
structure Parsed where
  accepted : Bool
  request : VHttpRequest
  memory : Memory
  decoded : Option VStringView

/-- The first lines of `VHttpRequest_Parse`: the head is the first entry of the split,
wherever it lies. -/
def cutHead (memory : Memory) (rawRequest : VStringView) (request : VHttpRequest) :
    Option (VStringView × VHttpRequest) := do
  let split ← splitBySubstring memory rawRequest (ascii "\r\n\r\n") 2
  let requestHead ← split[0]?
  pure (requestHead, { request with length := requestHead.length + 4 })

/-- An index as a u64; -1 becomes the largest one. -/
def indexToU64 : Int → Nat
  | .ofNat index => index
  | .negSucc below => 2 ^ 64 - (below + 1)

/-- One round of the header loop; the inner result is missing where the parser returns
false. The value begins behind the colon and is one byte too long. -/
def parseHeader (memory : Memory) (headers : VHashTable Bytes) (line : VStringView) :
    Option (Option (Memory × VHashTable Bytes)) := do
  let index ← findFirstCharOccurence memory line 58
  let key := line.fromRange 0 (indexToU64 index)
  let value := line.fromRange (index + 1).toNat (line.length - index).toNat
  if key.length = 0 ∨ value.length = 0 then pure none
  else
    let cKey ← key.bytes memory
    let (memory, value) ← trim memory value
    let memory ← memory.writeRange (value.data + value.length) [0]
    let bytes ← memory.readRange value.data (value.length + 1)
    let headers ← headers.insert (CString.read (cKey ++ [0])) bytes
    pure (some (memory, headers))

/-- The header loop of `VHttpRequest_Parse`, with whether it runs to its end. -/
def parseHeaders : List VStringView → Memory → VHashTable Bytes →
    Option (Bool × Memory × VHashTable Bytes)
  | [], memory, headers => some (true, memory, headers)
  | line :: rest, memory, headers => do
    match ← parseHeader memory headers line with
    | none => some (false, memory, headers)
    | some (memory, headers) => parseHeaders rest memory headers

/-- The part of `VHttpRequest_Parse` behind the header loop. -/
def parseRequestLine (fresh : Nat → UInt8) (stack : Nat → VStringView) (memory : Memory)
    (request : VHttpRequest) (line : VStringView) : Option Parsed := do
  let split ← splitBySubstring memory line (ascii " ") 3
  if split.length > 3 then pure ⟨false, request, memory, none⟩
  else
    let entry (index : Nat) := split[index]?.getD (stack index)
    let method ← getMethodFromString memory (entry 0)
    let request := { request with method := method }
    if method = .error then pure ⟨false, request, memory, none⟩
    else
      let name ← httpMethodsStr method
      let strMethod ← request.strMethod.copyCString fresh name
      let url ← decodeUrl fresh memory (entry 1) request.url
      let same ← strncmpEqual memory (entry 2).data (ascii "HTTP/1.1") (entry 2).length
      pure ⟨same, { request with strMethod := strMethod, url := url }, memory, some (entry 1)⟩

/-- `VHttpRequest_Parse`. A split always stores at least one line. -/
def parse (fresh : Nat → UInt8) (stack : Nat → VStringView) (memory : Memory)
    (rawRequest : VStringView) (request : VHttpRequest) : Option Parsed := do
  let (requestHead, request) ← cutHead memory rawRequest request
  let requestLines ← splitBySubstring memory requestHead (ascii "\r\n") 64
  let line ← requestLines[0]?
  let (finished, memory, headers) ← parseHeaders requestLines.tail memory request.headers
  let request := { request with headers := headers }
  if finished then parseRequestLine fresh stack memory request line
  else pure ⟨false, request, memory, none⟩

end VHttpRequest

end VHttp
