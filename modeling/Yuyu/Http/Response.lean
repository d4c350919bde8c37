import Yuyu.Foundation.Strtol
import Yuyu.Http.ClientAutomaton
import Yuyu.Http.Parser

/-!
# The response parser

The response object of `http.cc`, `httpclient_parser_execute` and the callbacks of
`HttpResponseParser`. The same parser reads the header section and, initialised anew, the size lines
of a chunked body. Undefined behaviour, exceptions and aborts are faults.
-/

namespace Yuyu.Http

open Foundation (toInt32 wrap32)
open Foundation.Strtol (strtol)
open ClientAutomaton (Act delta httpclientParserStart httpclientParserFirstFinal
  httpclientParserError)

/-- An exception of `std::string`, a signed overflow, an access outside of the buffer, or a failed
`assert`. -/
inductive Fault where
  | lengthError
  | signedOverflow
  | outOfBounds
  | assertion
deriving DecidableEq, Repr

/-- `HttpResponse`, the members that parsing fills in. -/
structure HttpResponse where
  status : Int
  version : Nat
  reason : Bytes
  body : Bytes
  headers : MapType
deriving DecidableEq, Repr

namespace HttpResponse

/-- `HttpResponse()` with the default arguments of its declaration. -/
def default : HttpResponse where
  status := 200
  version := 0x11
  reason := []
  body := []
  headers := []

def getHeader (rsp : HttpResponse) (key def_ : Bytes) : Bytes := (rsp.headers.find key).getD def_

def setHeader (rsp : HttpResponse) (key val : Bytes) : HttpResponse :=
  { rsp with headers := MapType.set key val rsp.headers }

def getHeaderAs (lexicalCast : Bytes → Option UInt64) (rsp : HttpResponse) (key : Bytes)
    (def_ : UInt64) : UInt64 :=
  match rsp.headers.find key with
  | none => def_
  | some v => (lexicalCast v).getD def_

end HttpResponse

structure HttpclientParser where
  cs : Nat
  bodyStart : Nat
  contentLen : Int
  status : Int
  chunked : Bool
  chunksDone : Bool
  close : Bool
  mark : Nat
  fieldStart : Nat
  fieldLen : Nat
deriving DecidableEq, Repr

namespace HttpclientParser

def init (memory : HttpclientParser) : HttpclientParser :=
  { memory with
    cs := httpclientParserStart, bodyStart := 0, contentLen := -1, chunked := false
    chunksDone := false, mark := 0, fieldLen := 0, fieldStart := 0, close := false }

def hasError (parser : HttpclientParser) : Bool := parser.cs == httpclientParserError

def isFinished (parser : HttpclientParser) : Bool := parser.cs == httpclientParserFirstFinal

def finish (parser : HttpclientParser) : Int :=
  if parser.hasError then -1 else if parser.isFinished then 1 else 0

def enter (parser : HttpclientParser) : HttpclientParser :=
  { parser with mark := 0, fieldLen := 0, fieldStart := 0 }

end HttpclientParser

structure HttpResponseParser where
  parser : HttpclientParser
  data : HttpResponse
  error : Nat
deriving DecidableEq, Repr

namespace HttpResponseParser

def onReason (start : Bytes) (length : Nat) (this : HttpResponseParser) :
    Except Fault HttpResponseParser :=
  match stdString start length with
  | .ok s => .ok { this with data := { this.data with reason := s } }
  | .error _ => .error .lengthError

def onStatus (start : Bytes) (this : HttpResponseParser) : HttpResponseParser :=
  { this with data := { this.data with status := wrap32 (strtol 10 start) } }

def onVersion (start : Bytes) (length : Nat) (this : HttpResponseParser) : HttpResponseParser :=
  if strncmpEq start (ascii "HTTP/1.1" ++ [0]) length then
    { this with data := { this.data with version := 0x11 } }
  else if strncmpEq start (ascii "HTTP/1.0" ++ [0]) length then
    { this with data := { this.data with version := 0x10 } }
  else { this with error := 1001 }

def onHttpField (field : Bytes) (flen : Nat) (value : Bytes) (vlen : Nat)
    (this : HttpResponseParser) : Except Fault HttpResponseParser :=
  if flen = 0 then .ok this
  else
    match stdString field flen, stdString value vlen with
    | .ok key, .ok val => .ok { this with data := this.data.setHeader key val }
    | _, _ => .error .lengthError

def mapParser (this : HttpResponseParser) (g : HttpclientParser → HttpclientParser) :
    HttpResponseParser := { this with parser := g this.parser }

/-- One embedded action at position `p` of the buffer.  The callbacks for chunks and
for the end of the header section do nothing. -/
def runAct (buffer : Bytes) (p : Nat) (this : HttpResponseParser) :
    Act → Except Fault HttpResponseParser
  | .mark => .ok (this.mapParser fun q => { q with mark := p })
  | .startField => .ok (this.mapParser fun q => { q with fieldStart := p })
  | .writeField => .ok (this.mapParser fun q => { q with fieldLen := len q.fieldStart p })
  | .writeContentLen =>
    .ok (this.mapParser fun q =>
      { q with contentLen := wrap32 (strtol 10 (buffer.drop q.mark)) })
  | .writeConnectionClose => .ok (this.mapParser fun q => { q with close := true })
  | .writeValue =>
    let q := this.parser
    this.onHttpField (buffer.drop q.fieldStart) q.fieldLen (buffer.drop q.mark) (len q.mark p)
  | .reasonPhrase => this.onReason (buffer.drop this.parser.mark) (len this.parser.mark p)
  | .statusCode =>
    let at_ := buffer.drop this.parser.mark
    .ok ((this.mapParser fun q => { q with status := wrap32 (strtol 10 at_) }).onStatus at_)
  | .httpVersion =>
    .ok (this.onVersion (buffer.drop this.parser.mark) (len this.parser.mark p))
  | .chunkSize =>
    let size := wrap32 (strtol 16 (buffer.drop this.parser.mark))
    .ok (this.mapParser fun q =>
      { q with chunked := true, contentLen := size, chunksDone := decide (size ≤ 0) })
  | .transChunked => .ok (this.mapParser fun q => { q with chunked := true })
  | .done => .ok (this.mapParser fun q => { q with bodyStart := p + 1 })

def runActs (buffer : Bytes) (p : Nat) (acts : List Act) (this : HttpResponseParser) :
    Except Fault HttpResponseParser := acts.foldlM (runAct buffer p) this

def setState (cs : Nat) (this : HttpResponseParser) : HttpResponseParser :=
  this.mapParser fun q => { q with cs := cs }

/-- The generated code, from position `p` on; the list is the unread part of the
buffer.  It returns the position it stops at. -/
def exec (buffer : Bytes) : Nat → Bytes → HttpResponseParser →
    Except Fault (HttpResponseParser × Nat)
  | p, [], this => .ok (this, p)
  | p, c :: rest, this =>
    match delta this.parser.cs c with
    | none => .ok (this.setState httpclientParserError, p)
    | some (acts, target) =>
      match this.runActs buffer p acts with
      | .error e => .error e
      | .ok this =>
        -- the action `done` ends in a break out of the loop, past this byte
        if .done ∈ acts then .ok (this.setState target, p + 1)
        else exec buffer (p + 1) rest (this.setState target)

/-- `httpclient_parser_execute` with `off` zero: the number of bytes read, or
`none` for the result -1. -/
def httpclientParserExecute (buffer : Bytes) (this : HttpResponseParser) :
    Except Fault (HttpResponseParser × Option Nat) :=
  match exec buffer 0 buffer (this.mapParser HttpclientParser.enter) with
  | .error e => .error e
  | .ok (this, nread) =>
    let q := this.parser
    if (buffer.length : Int) ≠ toInt32 buffer.length ∨ buffer.length < q.bodyStart then
      .error .assertion
    else if q.mark < buffer.length ∧ q.fieldLen ≤ buffer.length ∧ q.fieldStart < buffer.length then
      .ok (this, some nread)
    else .ok (this, none)

/-- The `httpclient_parser` member is placed in the given memory. -/
def new (memory : HttpclientParser) : HttpResponseParser where
  parser := memory.init
  data := .default
  error := 0

/-- `HttpResponseParser::execute`; the unread rest is moved to the front of the buffer, for -1 from
before the buffer. -/
def execute (this : HttpResponseParser) (data : Bytes) (chunk : Bool) :
    Except Fault (HttpResponseParser × Bytes) :=
  let this := if chunk then this.mapParser HttpclientParser.init else this
  match this.httpclientParserExecute data with
  | .error e => .error e
  | .ok (_, none) => .error .outOfBounds
  | .ok (this, some offset) => .ok (this, data.drop offset)

def isFinished (this : HttpResponseParser) : Bool := this.parser.finish != 0

def hasError (this : HttpResponseParser) : Bool := this.error != 0 || this.parser.hasError

def getContentLength (lexicalCast : Bytes → Option UInt64) (this : HttpResponseParser) : UInt64 :=
  this.data.getHeaderAs lexicalCast (ascii "content-length") 0

end HttpResponseParser

end Yuyu.Http
