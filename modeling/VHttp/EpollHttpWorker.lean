import VHttp.Foundations.Formats
import VHttp.Foundations.StringCalls
import VHttp.VFile
import VHttp.VMime

/-!
# The worker of main.c

`EpollHttpWorker` receives what is waiting on a connection, message by message, and then
answers from the file system. Here it is a machine that stands at one call after another:
a step gives the call's result and runs the code up to the next call. The results of recv,
send, sendfile and the file system are the environment's, and so is what
`VHttpRequest_Parse` returns; a run in which the parser is the one of http_request.c is one
whose parse results are the parser's.

A step has no result when an access leaves its block. The search for the end of a head may
look at up to three bytes behind the received ones; with the block full these lie behind
the block, and the result of the peek tells what is there. `FilePath` need not be
terminated inside its block either, and what is read behind it is told in the same way.

The response buffer and the length of the last response are shared by all workers. The
calls made are recorded in order. Freeing, logging and the terminal are left out, and so is
the file name that a failed open prints. What the recv of a body stores goes over the
string structure itself; as no branch reads it there, only the call is recorded.
-/

namespace VHttp

/-- The errors that recv and send tell apart: EAGAIN and EWOULDBLOCK; ETIMEDOUT and
ECONNRESET; any other one. -/
inductive Errno where
  | again
  | dead
  | other
  deriving DecidableEq

/-- The result of recv; no bytes mean that the peer has closed. -/
inductive Received where
  | failed (errno : Errno)
  | data (bytes : Bytes)
  deriving DecidableEq

/-- The result of send: how many bytes it took. -/
inductive Sent where
  | failed (errno : Errno)
  | took (count : Nat)
  deriving DecidableEq

/-- The calls that a worker makes, with what matters of their results. A response is noted
when its length is taken, with the file that is left to sendfile. -/
inductive Call where
  | peeked (descriptor : Nat) (result : Received)
  | received (descriptor : Nat) (result : Received)
  | parsed (buffer : Bytes)
  | opened (path : Bytes) (opening : Opening)
  | responded (response : Bytes) (file : Option VFile)
  | sent (descriptor : Nat) (bytes : Bytes)
  | sentFile (descriptor : Nat) (bytes : Bytes)
  | closed (descriptor : Nat)
  deriving DecidableEq

/-- The bytes that a call writes to the socket. -/
def Call.written : Call → Bytes
  | .sent _ bytes | .sentFile _ bytes => bytes
  | _ => []

/-- The response that a call notes, with the file that is sent behind it. -/
def Call.response : Call → Option (Bytes × Option VFile)
  | .responded response file => some (response, file)
  | _ => none

namespace Worker

/-- `AppRoot`. -/
def appRoot : Bytes := ascii "/home/victor"

/-- `RESPONSE_MAX_LEN`. -/
def responseMaxLen : Nat := 1024 * 1024

/-- The size of the string pool and of a peek. -/
def poolCapacity : Nat := 4092

/-- `G_ForbiddenResponseFmt`. -/
def forbiddenResponseFmt : Bytes :=
  ascii "HTTP/1.1 403 FORBIDDEN\r\n" ++
    ascii "Server: vserve\r\n" ++
    ascii "Content-Length: %d\r\n" ++
    ascii "Content-Type: %s\r\n" ++
    ascii "Connection: close\r\n\r\n" ++
    ascii "%s"

/-- `G_NotFoundResponseFmt`. -/
def notFoundResponseFmt : Bytes :=
  ascii "HTTP/1.1 404 NOT FOUND\r\n" ++
    ascii "Server: vserve\r\n" ++
    ascii "Content-Length: 0\r\n" ++
    ascii "Content-Type: %s\r\n" ++
    ascii "Connection: close\r\n\r\n"

/-- `G_BadRequestResponseFmt`. -/
def badRequestResponseFmt : Bytes :=
  ascii "HTTP/1.1 400 BAD REQUEST\r\n" ++
    ascii "Server: vserve\r\n" ++
    ascii "Content-Length: 0\r\n" ++
    ascii "Content-Type: %s\r\n" ++
    ascii "Connection: close\r\n\r\n"

/-- `G_ServiceUnavailableResponseFmt`. -/
def serviceUnavailableResponseFmt : Bytes :=
  ascii "HTTP/1.1 503 SERVICE UNAVAILABLE\r\n" ++
    ascii "Server: vserve\r\n" ++
    ascii "Content-Length: 0\r\n" ++
    ascii "Content-Type: plain/text\r\n" ++
    ascii "Connection: close\r\n\r\n"

/-- `G_OkResponseFmt`. -/
def okResponseFmt : Bytes :=
  ascii "HTTP/1.1 200 OK\r\n" ++
    ascii "Server: vserve\r\n" ++
    ascii "Connection: Keep-Alive\r\n" ++
    ascii "Content-Length: %d\r\n" ++
    ascii "Content-Type: %s\r\n\r\n"

/-- The body of a 403 reply. -/
def forbiddenHtml : Bytes := ascii "<html><body><h1>Forbidden</h1></body></html>"

/-- What the event loop sends to a client it refuses: the array with its terminator. -/
def serviceUnavailable : Bytes := serviceUnavailableResponseFmt ++ [0]

/-- `ResponseMalloced` and `LastResponseLength`. -/
structure Shared where
  responseMalloced : Memory
  lastResponseLength : Nat
  deriving DecidableEq

/-- The shared state as `main` sets it up. -/
def Shared.start : Shared := ⟨List.replicate responseMaxLen 0, 0⟩

/-- The call that the worker stands at. -/
inductive Phase where
  | peeking
  | discarding (requestSize : Nat)
  | parsing
  | receivingBody
  | refusing (size : Nat)
  | serving
  | sending (responseLen totalSent : Nat) (file : Option VFile)
  | sendingFile (responseLen : Nat) (file : VFile) (sended : Nat)
  | returned
  | cleanedUp

end Worker

/-- A worker: its variables, the shared state, where it stands, the file it has left open,
and the calls made so far. -/
structure Worker where
  fileDescriptor : Nat
  stringPool : VString
  request : VHttpRequest
  tries : Nat
  shared : Worker.Shared
  phase : Worker.Phase
  openFile : Option Nat
  calls : List Call

namespace Worker

/-- A worker at its first peek. -/
def start (fileDescriptor : Nat) (shared : Shared) : Worker :=
  { fileDescriptor := fileDescriptor
    stringPool := ⟨List.replicate poolCapacity 0, 0⟩
    request := VHttpRequest.init
    tries := 0
    shared := shared
    phase := .peeking
    openFile := none
    calls := [] }

/-- The result of the call that the worker stands at, with what lies behind the string pool
for a peek, and with what the heap holds where memory is allocated. -/
inductive Answer where
  | peek (result : Received) (behind : Bytes)
  | discard (result : Received)
  | parse (result : VHttpRequest.Parsed)
  | body (fresh : Nat → UInt8) (result : Received)
  | refuse (result : Sent)
  | serve (fresh : Nat → UInt8) (beyond : Bytes) (opening : Opening) (reading : Option Nat)
  | send (result : Sent)
  | sendfile (result : Option Nat)

/-- Record calls. -/
def log (worker : Worker) (calls : List Call) : Worker :=
  { worker with calls := worker.calls ++ calls }

/-- The `cleanup` label, whose close is given the flag. -/
def cleanup (worker : Worker) : Worker :=
  { worker.log [.closed 1] with phase := .cleanedUp }

/-- A 400 reply is built in the response buffer. -/
def refuse (worker : Worker) : Option Worker := do
  let text := format badRequestResponseFmt [.text (ascii "text/plain")]
  let malloced ← snprintf worker.shared.responseMalloced responseMaxLen text
  let worker := worker.log [.responded text none]
  pure { worker with
    shared := { worker.shared with responseMalloced := malloced }
    phase := .refusing text.length }

/-- Behind the receive loop: nothing was received, or the string pool is cleared. -/
def leaveLoop (worker : Worker) : Option Worker :=
  if worker.stringPool.length = 0 then some worker.cleanup
  else do
    let block ← clearFront worker.stringPool.block worker.stringPool.length
    pure { worker with stringPool := ⟨block, 0⟩, phase := .serving }

/-- A recv of the loop that fails. -/
def receiveFailed (worker : Worker) : Errno → Option Worker
  | .again => worker.leaveLoop
  | .dead | .other => some worker.cleanup

/-- The search for the end of a head in the bytes peeked: the head is taken off the socket,
or it is one of five tries. -/
def search (worker : Worker) (behind : Bytes) : Option Worker := do
  let requestSize ← findSubstring (worker.stringPool.block ++ behind)
    ⟨0, worker.stringPool.length⟩ (ascii "\r\n\r\n")
  if requestSize > 0 then pure { worker with phase := .discarding requestSize }
  else
    let worker := { worker with tries := worker.tries + 1 }
    if worker.tries = 5 then worker.refuse else pure worker

/-- The peek. -/
def peek (worker : Worker) (result : Received) (behind : Bytes) : Option Worker :=
  let worker := worker.log [.peeked worker.fileDescriptor result]
  match result with
  | .failed errno => worker.receiveFailed errno
  | .data [] => some worker.cleanup
  | .data (byte :: bytes) => do
    guard ((byte :: bytes).length ≤ poolCapacity)
    let block ← Memory.writeRange worker.stringPool.block 0 (byte :: bytes)
    let worker := { worker with stringPool := ⟨block, (byte :: bytes).length⟩ }
    worker.search behind

/-- The recv that takes a head off the socket; the parser is called next. -/
def discard (worker : Worker) (requestSize : Nat) (result : Received) : Option Worker :=
  let worker := worker.log [.received worker.fileDescriptor result]
  match result with
  | .failed errno => worker.receiveFailed errno
  | .data bytes => do
    guard (bytes.length ≤ requestSize)
    let worker := worker.log [.parsed worker.stringPool.content]
    pure { worker with phase := .parsing }

/-- What the parser returns: a bad request, a request with a body, or the next peek. The
parser works in the string pool and keeps its size. -/
def parse (worker : Worker) (result : VHttpRequest.Parsed) : Option Worker := do
  guard (result.memory.length = worker.stringPool.capacity)
  let worker := { worker with
    request := result.request
    stringPool := { worker.stringPool with block := result.memory } }
  if result.accepted then
    if result.request.contentLength ≠ 0 then pure { worker with phase := .receivingBody }
    else pure { worker with phase := .peeking }
  else worker.refuse

/-- The recv of a body, whose result is ignored. -/
def body (worker : Worker) (fresh : Nat → UInt8) (result : Received) : Worker :=
  { worker.log [.received worker.fileDescriptor result] with
    request := { worker.request with
      body := worker.request.body.resize fresh (worker.request.contentLength + 1) }
    phase := .peeking }

/-- The send of a 400 reply, whose result is ignored. -/
def sendRefusal (worker : Worker) (size : Nat) (result : Sent) : Option Worker := do
  let taken := match result with
    | .failed _ => 0
    | .took count => count
  guard (taken ≤ size)
  let bytes ← Memory.readRange worker.shared.responseMalloced 0 taken
  let malloced ← clearFront worker.shared.responseMalloced size
  let worker := worker.log [.sent worker.fileDescriptor bytes]
  let worker := { worker with shared := { worker.shared with responseMalloced := malloced } }
  pure worker.cleanup

/-- `FilePath`: the root and the url. -/
def filePath (fresh : Nat → UInt8) (url : VString) : Option VString := do
  let root ← VString.init.concatCString fresh appRoot
  root.concat fresh url

/-- A path, as strrchr and open read it from its block and what lies beyond. -/
def readPath (path : VString) (beyond : Bytes) : Bytes := (CString.read (path.block ++ beyond)).1

/-- A response in the response buffer, the file that is sent behind it, the string pool,
and the file left open. -/
structure Reply where
  responseMalloced : Memory
  file : Option VFile
  stringPool : VString
  leftOpen : Option Nat

/-- The reply with a file that is read into the string pool first. -/
def serveRead (malloced : Memory) (pool : VString) (mime : MimeMapping) (fresh : Nat → UInt8)
    (opening : Opening) (reading : Option Nat) : Option Reply := do
  let file ← readEntireFile fresh pool opening reading
  if file.read = 0 then
    let malloced ← snprintf malloced responseMaxLen
      (format notFoundResponseFmt [.text mime.mimeType])
    pure ⟨malloced, none, file.string, file.leftOpen⟩
  else
    let malloced ← snprintf malloced responseMaxLen
      (format okResponseFmt [.integer (asInt file.string.length), .text mime.mimeType])
    let malloced ← strncat malloced file.string.block file.string.length
    pure ⟨malloced, none, file.string, file.leftOpen⟩

/-- The reply with a file that is left to sendfile. -/
def serveSendfile (malloced : Memory) (pool : VString) (mime : MimeMapping) (opening : Opening) :
    Option Reply :=
  let file := vFileOpen opening
  if file.fileDescriptor = none then do
    let malloced ← strncpy malloced notFoundResponseFmt (notFoundResponseFmt.length + 1)
    pure ⟨malloced, none, pool, none⟩
  else if file.getType = some .regular then do
    let malloced ← snprintf malloced responseMaxLen
      (format okResponseFmt [.integer (asInt file.info.size), .text mime.mimeType])
    pure ⟨malloced, some file, pool, file.fileDescriptor⟩
  else do
    let malloced ← sprintf malloced (format forbiddenResponseFmt
      [.integer 45, .text (ascii "text/html; charset=utf-8"), .text forbiddenHtml])
    pure ⟨malloced, none, pool, file.fileDescriptor⟩

/-- The reply for a mime mapping. -/
def reply (malloced : Memory) (pool : VString) (mime : MimeMapping) (fresh : Nat → UInt8)
    (opening : Opening) (reading : Option Nat) : Option Reply :=
  if mime.useSendfile then serveSendfile malloced pool mime opening
  else serveRead malloced pool mime fresh opening reading

/-- The end: as many bytes of the response buffer are cleared as the last response had, or
this one if it is the first. -/
def finish (worker : Worker) (responseLen : Nat) : Option Worker := do
  let last := worker.shared.lastResponseLength
  let size := if last = 0 then responseLen else last
  let malloced ← clearFront worker.shared.responseMalloced size
  pure { worker with shared := ⟨malloced, responseLen⟩, phase := .returned }

/-- The test of the sendfile loop. -/
def sendFileOn (worker : Worker) (responseLen : Nat) (file : Option VFile) (sended : Nat) :
    Option Worker :=
  match file with
  | some file =>
    if sended < file.info.size then
      some { worker with phase := .sendingFile responseLen file sended }
    else worker.finish responseLen
  | none => worker.finish responseLen

/-- The test of the send loop. -/
def sendOn (worker : Worker) (responseLen totalSent : Nat) (file : Option VFile) : Option Worker :=
  if totalSent < responseLen then
    some { worker with phase := .sending responseLen totalSent file }
  else worker.sendFileOn responseLen file 0

/-- The path is opened, the response is built, and its length is taken. -/
def serve (worker : Worker) (fresh : Nat → UInt8) (beyond : Bytes) (opening : Opening)
    (reading : Option Nat) : Option Worker := do
  let path ← filePath fresh worker.request.url
  let path := readPath path beyond
  let mime := getMimeType (strrchr path 46)
  let reply ← reply worker.shared.responseMalloced worker.stringPool mime fresh opening reading
  let responseLen ← strlen reply.responseMalloced
  let response := reply.responseMalloced.take responseLen
  let worker := worker.log [.opened path opening, .responded response reply.file]
  let worker := { worker with
    shared := { worker.shared with responseMalloced := reply.responseMalloced }
    stringPool := reply.stringPool
    openFile := reply.leftOpen }
  worker.sendOn responseLen 0 reply.file

/-- One send of the response. -/
def send (worker : Worker) (responseLen totalSent : Nat) (file : Option VFile) :
    Sent → Option Worker
  | .failed .again => worker.sendFileOn responseLen file 0
  | .failed _ => some worker.cleanup
  | .took count => do
    guard (count ≤ responseLen - totalSent)
    let bytes ← Memory.readRange worker.shared.responseMalloced totalSent count
    (worker.log [.sent worker.fileDescriptor bytes]).sendOn responseLen (totalSent + count) file

/-- One sendfile; an error leaves the offset as it is. -/
def sendfile (worker : Worker) (responseLen : Nat) (file : VFile) (sended : Nat) :
    Option Nat → Option Worker
  | none => worker.sendFileOn responseLen (some file) sended
  | some count => do
    guard (count ≤ file.info.size - sended)
    let bytes := (file.content.drop sended).take count
    let worker := worker.log [.sentFile worker.fileDescriptor bytes]
    worker.sendFileOn responseLen (some file) (sended + count)

/-- One step: the result of the call that the worker stands at. -/
def step (worker : Worker) (answer : Answer) : Option Worker :=
  match worker.phase, answer with
  | .peeking, .peek result behind => worker.peek result behind
  | .discarding requestSize, .discard result => worker.discard requestSize result
  | .parsing, .parse result => worker.parse result
  | .receivingBody, .body fresh result => some (worker.body fresh result)
  | .refusing size, .refuse result => worker.sendRefusal size result
  | .serving, .serve fresh beyond opening reading => worker.serve fresh beyond opening reading
  | .sending responseLen totalSent file, .send result =>
    worker.send responseLen totalSent file result
  | .sendingFile responseLen file sended, .sendfile result =>
    worker.sendfile responseLen file sended result
  | _, _ => none

/-- All bytes written to the socket by a list of calls. -/
def written (calls : List Call) : Bytes := calls.flatMap Call.written

/-- All responses that a list of calls notes. -/
def responses (calls : List Call) : List (Bytes × Option VFile) := calls.filterMap Call.response

/-- The bytes of a file that is sent behind a response. -/
def fileBytes (file : Option VFile) : Bytes := (file.map VFile.content).getD []

end Worker

end VHttp
