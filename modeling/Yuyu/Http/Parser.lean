import Yuyu.Foundation.MachineInt
import Yuyu.Http.Automaton
import Yuyu.Http.Request

/-!
# The request parser

`http_parser_execute` runs the automaton over a buffer and calls back with pointers into it, which
are the buffer from a position on. `HttpRequestParser` installs the callbacks that fill in a
request. A callback can throw, and the exception leaves the parser.
-/

namespace Yuyu.Http

open Automaton (Act delta httpParserStart httpParserFirstFinal httpParserError)

inductive Callback where
  | requestMethod (start : Bytes) (length : Nat)
  | requestUri (start : Bytes) (length : Nat)
  | fragment (start : Bytes) (length : Nat)
  | requestPath (start : Bytes) (length : Nat)
  | queryString (start : Bytes) (length : Nat)
  | httpVersion (start : Bytes) (length : Nat)
  | headerDone (start : Bytes) (length : Nat)
  | httpField (field : Bytes) (flen : Nat) (value : Bytes) (vlen : Nat)
deriving DecidableEq, Repr

structure HttpParser where
  cs : Nat
  mark : Nat
  fieldStart : Nat
  fieldLen : Nat
  queryStart : Nat
  xmlSent : Bool
  jsonSent : Bool
  uriRelaxed : Bool
deriving DecidableEq, Repr

namespace HttpParser

/-- `http_parser_init` on the given memory: `query_start` and
`uri_relaxed` keep what was there. -/
def init (memory : HttpParser) : HttpParser :=
  { memory with
    cs := httpParserStart, mark := 0, fieldLen := 0, fieldStart := 0
    xmlSent := false, jsonSent := false }

def hasError (parser : HttpParser) : Bool := parser.cs == httpParserError

def isFinished (parser : HttpParser) : Bool := httpParserFirstFinal ≤ parser.cs

def finish (parser : HttpParser) : Int :=
  if parser.hasError then -1 else if parser.isFinished then 1 else 0

def enter (parser : HttpParser) : HttpParser :=
  { parser with mark := 0, fieldLen := 0, fieldStart := 0 }

end HttpParser

def zeroMemory : HttpParser := ⟨0, 0, 0, 0, 0, false, false, false⟩

section Execution

variable {σ ε : Type} (call : Callback → σ → Except ε σ)

/-- The parser together with what `parser->data` points at. -/
abbrev Machine (σ : Type) := HttpParser × σ

def len (start p : Nat) : Nat := Foundation.sub64 p start

def report (cb : Callback) (m : Machine σ) : Except ε (Machine σ) :=
  (call cb m.2).map fun d => (m.1, d)

/-- One embedded action at position `p` of the buffer. -/
def runAct (buffer : Bytes) (p : Nat) (m : Machine σ) : Act → Except ε (Machine σ)
  | .mark => .ok ({ m.1 with mark := p }, m.2)
  | .startField => .ok ({ m.1 with fieldStart := p }, m.2)
  | .writeField => .ok ({ m.1 with fieldLen := len m.1.fieldStart p }, m.2)
  | .writeValue =>
    report call (.httpField (buffer.drop m.1.fieldStart) m.1.fieldLen
      (buffer.drop m.1.mark) (len m.1.mark p)) m
  | .requestMethod => report call (.requestMethod (buffer.drop m.1.mark) (len m.1.mark p)) m
  | .requestUri => report call (.requestUri (buffer.drop m.1.mark) (len m.1.mark p)) m
  | .fragment => report call (.fragment (buffer.drop m.1.mark) (len m.1.mark p)) m
  | .startQuery => .ok ({ m.1 with queryStart := p }, m.2)
  | .queryString =>
    report call (.queryString (buffer.drop m.1.queryStart) (len m.1.queryStart p)) m
  | .httpVersion => report call (.httpVersion (buffer.drop m.1.mark) (len m.1.mark p)) m
  | .requestPath => report call (.requestPath (buffer.drop m.1.mark) (len m.1.mark p)) m
  | .done =>
    if m.1.xmlSent || m.1.jsonSent then .ok m
    else report call (.headerDone (buffer.drop (p + 1)) (buffer.length - p - 1)) m
  | .xml => .ok ({ m.1 with xmlSent := true }, m.2)
  | .json => .ok ({ m.1 with jsonSent := true }, m.2)

def runActs (buffer : Bytes) (p : Nat) (acts : List Act) (m : Machine σ) :
    Except ε (Machine σ) := acts.foldlM (runAct call buffer p) m

def setState (cs : Nat) (m : Machine σ) : Machine σ := ({ m.1 with cs := cs }, m.2)

/-- The generated code, from position `p` on; the list is the unread part of
the buffer.  It returns the position it stops at. -/
def exec (buffer : Bytes) : Nat → Bytes → Machine σ → Except ε (Machine σ × Nat)
  | p, [], m => .ok (m, p)
  | p, c :: rest, m =>
    match delta m.1.uriRelaxed m.1.cs c with
    | none => .ok (setState httpParserError m, p)
    | some (acts, target) =>
      match runActs call buffer p acts m with
      | .error e => .error e
      | .ok m =>
        -- the action `done` ends in a break out of the loop, past this byte
        if .done ∈ acts then .ok (setState target m, p + 1)
        else exec buffer (p + 1) rest (setState target m)

def httpParserExecute (buffer : Bytes) (m : Machine σ) : Except ε (Machine σ × Nat) :=
  if buffer.length = 0 then .ok (m, 0) else exec call buffer 0 buffer (m.1.enter, m.2)

end Execution

/-- The exception of a `std::string` that would be too long. -/
inductive StdException where
  | lengthError
deriving DecidableEq, Repr

/-- `max_size` of a `std::string`, half of what its allocator gives.  Memory for a shorter string is
assumed to be there. -/
def stringMaxSize : Nat := 2 ^ 62 - 1

def stdString (start : Bytes) (length : Nat) : Except StdException Bytes :=
  if length ≤ stringMaxSize then .ok (start.take length) else .error .lengthError

/-- What the callbacks reach through `parser->data`. -/
structure CallbackData where
  data : HttpRequest
  error : Nat
deriving DecidableEq, Repr

namespace CallbackData

def setError (d : CallbackData) (v : Nat) : CallbackData := { d with error := v }

end CallbackData

def onRequestMethod (start : Bytes) (d : CallbackData) : CallbackData :=
  let m := charsToHttpMethod start
  if m = .INVALID_METHOD then d.setError 1000
  else { d with data := { d.data with method := m } }

def onRequestText (store : Bytes → HttpRequest → HttpRequest) (start : Bytes) (length : Nat)
    (d : CallbackData) : Except StdException CallbackData :=
  (stdString start length).map fun s => { d with data := store s d.data }

def onRequestFragment : Bytes → Nat → CallbackData → Except StdException CallbackData :=
  onRequestText fun s req => { req with fragment := s }

def onRequestPath : Bytes → Nat → CallbackData → Except StdException CallbackData :=
  onRequestText fun s req => { req with path := s }

def onRequestQuery : Bytes → Nat → CallbackData → Except StdException CallbackData :=
  onRequestText fun s req => { req with query := s }

def onRequestVersion (start : Bytes) (length : Nat) (d : CallbackData) : CallbackData :=
  if strncmpEq start (ascii "HTTP/1.1" ++ [0]) length then
    { d with data := { d.data with version := 0x11 } }
  else if strncmpEq start (ascii "HTTP/1.0" ++ [0]) length then
    { d with data := { d.data with version := 0x10 } }
  else d.setError 1001

def onRequestHttpField (field : Bytes) (flen : Nat) (value : Bytes) (vlen : Nat)
    (d : CallbackData) : Except StdException CallbackData :=
  if flen = 0 then .ok d
  else
    match stdString field flen, stdString value vlen with
    | .ok key, .ok val => .ok { d with data := d.data.setHeader key val }
    | .error e, _ => .error e
    | _, .error e => .error e

def onCallback : Callback → CallbackData → Except StdException CallbackData
  | .requestMethod start _, d => .ok (onRequestMethod start d)
  | .requestUri _ _, d => .ok d
  | .fragment start length, d => onRequestFragment start length d
  | .requestPath start length, d => onRequestPath start length d
  | .queryString start length, d => onRequestQuery start length d
  | .httpVersion start length, d => .ok (onRequestVersion start length d)
  | .headerDone _ _, d => .ok d
  | .httpField field flen value vlen, d => onRequestHttpField field flen value vlen d

abbrev HttpRequestParser := Machine CallbackData

namespace HttpRequestParser

/-- The `http_parser` member is placed in the given memory. -/
def new (memory : HttpParser) : HttpRequestParser :=
  (memory.init, { data := HttpRequest.default, error := 0 })

/-- `HttpRequestParser::execute`; the unread rest is moved to the front of the
buffer. -/
def execute (this : HttpRequestParser) (data : Bytes) :
    Except StdException (HttpRequestParser × Bytes) :=
  match httpParserExecute onCallback data this with
  | .error e => .error e
  | .ok (this, offset) => .ok (this, data.drop offset)

def isFinished (this : HttpRequestParser) : Bool := this.1.finish != 0

def hasError (this : HttpRequestParser) : Bool := this.2.error != 0 || this.1.hasError

def getContentLength (lexicalCast : Bytes → Option UInt64) (this : HttpRequestParser) : UInt64 :=
  this.2.data.getHeaderAs lexicalCast (ascii "content-length") 0

end HttpRequestParser

end Yuyu.Http
