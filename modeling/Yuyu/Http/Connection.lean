import Yuyu.Foundation.Decimal
import Yuyu.Http.Response
import Yuyu.Http.Session

/-!
# Client connections

`HttpConnection::recvResponse` reads a header section and then a body, chunked or of a given length,
through one buffer; `held` are the bytes that are still to be used. The loops take bounds on their
numbers of rounds. `acceptedLines` and `chunkAttempts` collect the size lines and the buffers in
which they are looked for.
-/

namespace Yuyu.Http

open Foundation
open ClientAutomaton (httpclientParserFirstFinal)

/-- `http.request.buffer_size`, which is used for responses too, `boost::lexical_cast`, and the
decoders of `ZlibStream`. -/
structure ClientConfig extends Config where
  gunzip : Bytes → Bytes
  inflate : Bytes → Bytes

def intMax : Int := 2 ^ 31 - 1

def toSize (v : Int) : Nat := (v % 2 ^ 64).toNat

section Connection

variable (cfg : ClientConfig)

abbrev responseHeader : HeaderParser HttpResponseParser Fault :=
  ⟨fun parser data => parser.execute data false, HttpResponseParser.hasError,
    HttpResponseParser.isFinished⟩

def recvResponseHeader : Nat → HttpResponseParser → Bytes → Socket →
    Except Fault (Option (HttpResponseParser × Bytes × Socket)) :=
  responseHeader.recv cfg.bufferSize

/-- An accepted size line: the parser, the bytes of the last attempt, and what comes behind them. -/
structure SizeLine where
  parser : HttpResponseParser
  line : Bytes
  held : Bytes
  sock : Socket

def SizeLine.contentLen (l : SizeLine) : Int := l.parser.parser.contentLen

/-- What an attempt on a size line works on: the bytes held, and a read behind them unless this is
the first attempt on some. -/
def fill (begin : Bool) (held : Bytes) (sock : Socket) : Option (Bytes × Socket) :=
  if !begin || held.length == 0 then
    let r := sock.recv (cfg.bufferSize - held.length)
    if r.1.length = 0 then none else some (held ++ r.1, r.2)
  else some (held, sock)

def readSizeLine : Nat → Bool → HttpResponseParser → Bytes → Socket →
    Except Fault (Option SizeLine)
  | 0, _, _, _, _ => .ok none
  | reads + 1, begin, parser, held, sock =>
    match fill cfg begin held sock with
    | none => .ok none
    | some (data, sock) =>
      match parser.execute data true with
      | .error e => .error e
      | .ok (parser, held) =>
        if parser.hasError then .ok none
        else if (held.length : Int) = toInt32 cfg.bufferSize then .ok none
        else if parser.isFinished then
          .ok (some ⟨parser, data.take (data.length - held.length), held, sock⟩)
        else readSizeLine reads false parser held sock

def attempts : Nat → Bool → HttpResponseParser → Bytes → Socket → List Bytes
  | 0, _, _, _, _ => []
  | reads + 1, begin, parser, held, sock =>
    match fill cfg begin held sock with
    | none => []
    | some (data, sock) =>
      data ::
        match parser.execute data true with
        | .error _ => []
        | .ok (parser, held) =>
          if parser.hasError then []
          else if (held.length : Int) = toInt32 cfg.bufferSize then []
          else if parser.isFinished then []
          else attempts reads false parser held sock

/-- The size of the next read of a chunk of which `left` bytes are missing. -/
def dataRoom (left : Int) : Nat :=
  toSize (if left > toInt32 cfg.bufferSize then toInt32 cfg.bufferSize else left)

/-- The loop that reads the rest of a chunk: the bytes, and the socket unless a read comes back
empty. -/
def readData : Nat → Int → Socket → Bytes × Option Socket
  | 0, left, sock => ([], if left ≤ 0 then some sock else none)
  | reads + 1, left, sock =>
    if left ≤ 0 then ([], some sock)
    else
      let r := sock.recv (dataRoom cfg left)
      if r.1.length = 0 then ([], none)
      else
        let x := readData reads (left - r.1.length) r.2
        (r.1 ++ x.1, x.2)

/-- A sum of two `int`s. -/
def checkInt (v : Int) : Except Fault Int :=
  if -2 ^ 31 ≤ v ∧ v ≤ intMax then .ok v else .error .signedOverflow

/-- The data of a chunk and the line end behind it: the body, what is held and the
socket afterwards. -/
def takeChunk (l : SizeLine) (body : Bytes) :
    Except Fault (Option (Bytes × Bytes × Socket)) := do
  let len : Int := l.held.length
  let need ← checkInt (l.contentLen + 2)
  if need ≤ len then
    -- a negative length becomes a size that no string can have
    if l.contentLen < 0 then .error .lengthError
    else
      let moved ← checkInt (len - l.contentLen)
      let moved ← checkInt (moved - 2)
      return some (body ++ l.held.take l.contentLen.toNat,
        (l.held.drop (l.contentLen.toNat + 2)).take moved.toNat, l.sock)
  else
    let left ← checkInt (l.contentLen - len)
    let left ← checkInt (left + 2)
    let r := readData cfg left.toNat left l.sock
    let body := body ++ l.held ++ r.1
    match r.2 with
    | none => return none
    | some sock =>
      if body.length < 2 then .error .lengthError
      else return some (body.take (body.length - 2), [], sock)

def recvChunks : Nat → HttpResponseParser → Bytes → Bytes → Socket →
    Except Fault (Option (HttpResponseParser × Bytes × Socket))
  | 0, _, _, _, _ => .ok none
  | chunks + 1, parser, body, held, sock =>
    match readSizeLine cfg (sock.unread + 2) true parser held sock with
    | .error e => .error e
    | .ok none => .ok none
    | .ok (some l) =>
      match takeChunk cfg l body with
      | .error e => .error e
      | .ok none => .ok none
      | .ok (some (body, held, sock)) =>
        if l.parser.parser.chunksDone then .ok (some (l.parser, body, sock))
        else recvChunks chunks l.parser body held sock

/-- The size lines that the loop over the chunks accepts, each with the body there was
before it. -/
def acceptedLines : Nat → HttpResponseParser → Bytes → Bytes → Socket → List (SizeLine × Bytes)
  | 0, _, _, _, _ => []
  | chunks + 1, parser, body, held, sock =>
    match readSizeLine cfg (sock.unread + 2) true parser held sock with
    | .ok (some l) =>
      (l, body) ::
        match takeChunk cfg l body with
        | .ok (some (body, held, sock)) =>
          if l.parser.parser.chunksDone then []
          else acceptedLines chunks l.parser body held sock
        | _ => []
    | _ => []

def chunkAttempts : Nat → HttpResponseParser → Bytes → Bytes → Socket → List Bytes
  | 0, _, _, _, _ => []
  | chunks + 1, parser, body, held, sock =>
    attempts cfg (sock.unread + 2) true parser held sock ++
      match readSizeLine cfg (sock.unread + 2) true parser held sock with
      | .ok (some l) =>
        match takeChunk cfg l body with
        | .ok (some (body, held, sock)) =>
          if l.parser.parser.chunksDone then []
          else chunkAttempts chunks l.parser body held sock
        | _ => []
      | _ => []

/-- The body of a response that is not chunked.  `body.resize` throws before anything is read. -/
def recvLength (parser : HttpResponseParser) (held : Bytes) (sock : Socket) :
    Except Fault (Option (Bytes × Socket)) :=
  let length : Int := (parser.getContentLength cfg.lexicalCast).toBitVec.toInt
  if 0 < length then
    if stringMaxSize < length.toNat then .error .lengthError
    else
      let body := held.take length.toNat
      let left := length - held.length
      if 0 < left then
        let r := sock.readFixSize left.toNat
        if r.1 ≤ 0 then .ok none else .ok (some (body ++ r.2.1, r.2.2))
      else .ok (some (body, sock))
  else .ok (some ([], sock))

/-- The end of `recvResponse`: a body that is not empty is decoded and stored. -/
def setDecodedBody (rsp : HttpResponse) (body : Bytes) : HttpResponse :=
  if body = [] then rsp
  else
    let contentEncoding := rsp.getHeader (ascii "content-encoding") []
    if strcasecmp contentEncoding (ascii "gzip") = .eq then { rsp with body := cfg.gunzip body }
    else if strcasecmp contentEncoding (ascii "deflate") = .eq then
      { rsp with body := cfg.inflate body }
    else { rsp with body := body }

def chunkRounds (held : Bytes) (sock : Socket) : Nat := held.length + sock.unread + 1

def recvResponseBody (parser : HttpResponseParser) (held : Bytes) (sock : Socket) :
    Except Fault (Option (HttpResponse × Socket)) :=
  if parser.parser.chunked then
    match recvChunks cfg (chunkRounds held sock) parser [] held sock with
    | .error e => .error e
    | .ok none => .ok none
    | .ok (some (parser, body, sock)) => .ok (some (setDecodedBody cfg parser.data body, sock))
  else
    match recvLength cfg parser held sock with
    | .error e => .error e
    | .ok none => .ok none
    | .ok (some (body, sock)) => .ok (some (setDecodedBody cfg parser.data body, sock))

/-- The new parser is placed in the given memory; `none` is a null pointer. -/
def recvResponse (memory : HttpclientParser) (sock : Socket) :
    Except Fault (Option (HttpResponse × Socket)) :=
  match recvResponseHeader cfg (sock.unread + 1) (.new memory) [] sock with
  | .error e => .error e
  | .ok none => .ok none
  | .ok (some (parser, held, sock)) => recvResponseBody cfg parser held sock

end Connection

def HttpclientParser.zeroed : HttpclientParser where
  cs := 0
  bodyStart := 0
  contentLen := 0
  status := 0
  chunked := false
  chunksDone := false
  close := false
  mark := 0
  fieldStart := 0
  fieldLen := 0

def ClientConfig.plain (bufferSize : Nat) : ClientConfig where
  bufferSize := bufferSize
  lexicalCast := fun _ => none
  gunzip := id
  inflate := id

/-- A client that reads content lengths as decimal numbers. -/
def decimalClient (bufferSize : Nat) : ClientConfig :=
  { ClientConfig.plain bufferSize with lexicalCast := Foundation.Decimal.readUnsigned }

def chunkedHeader : Bytes := ascii "HTTP/1.1 200 OK\r\ntransfer-encoding: chunked\r\n\r\n"

def chunkedParser : HttpResponseParser where
  parser :=
    { HttpclientParser.zeroed with
      cs := httpclientParserFirstFinal, bodyStart := 47, contentLen := -1, status := 200
      chunked := true, mark := 36, fieldStart := 17, fieldLen := 17 }
  data :=
    { HttpResponse.default with
      reason := ascii "OK", headers := [(ascii "transfer-encoding", ascii "chunked")] }
  error := 0

end Yuyu.Http
