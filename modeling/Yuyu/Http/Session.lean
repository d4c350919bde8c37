import Yuyu.Foundation.Segments
import Yuyu.Http.Parser

/-!
# Sessions

`HttpSession::recvRequest` reads until the parser has a header section, then reads the body;
`HttpServer::handleClient` calls it in a loop. One `recv` takes bytes from the first segment of the
socket only. Loops take a bound on the number of reads.
-/

namespace Yuyu.Http

open List
open Foundation

abbrev Socket := List Bytes

def maxRwCount : Nat := 0x7ffff000

namespace Socket

/-- One `recv` with room for `length` bytes: the bytes received, and the
socket after it.  It receives nothing at the end of the connection. -/
def recv (length : Nat) (sock : Socket) : Bytes × Socket :=
  Segments.read (min length maxRwCount) sock

def unread (sock : Socket) : Nat := sock.flatten.length

/-- The loop of `Stream::readFixSize`: the bytes read, unless a read comes back
empty. -/
def readLoop : Nat → Nat → Socket → Option (Bytes × Socket)
  | _, 0, sock => some ([], sock)
  | 0, _ + 1, _ => none
  | reads + 1, left + 1, sock =>
    let r := recv (left + 1) sock
    if r.1.length = 0 then none
    else (readLoop reads (left + 1 - r.1.length) r.2).map fun x => (r.1 ++ x.1, x.2)

/-- The value returned, the bytes read and the socket.  The length is returned as an `int`. -/
def readFixSize (length : Nat) (sock : Socket) : Int × Bytes × Socket :=
  match readLoop length length sock with
  | none => (0, [], sock)
  | some (bytes, sock) => (toInt32 length, bytes, sock)

lemma unread_recv (n : Nat) (sock : Socket) :
    (sock.recv n).1.length + unread (sock.recv n).2 = sock.unread := by
  have hflat := congrArg List.length (Segments.read_append_flatten (min n maxRwCount) sock)
  rwa [length_append] at hflat

lemma recv_spec {n : Nat} {sock : Socket} (hsock : Segments.Proper sock) (hn : 0 < n)
    (hne : sock.unread ≠ 0) :
    ∃ k, 0 < k ∧ k ≤ n ∧ k ≤ sock.unread ∧
      sock.recv n = (sock.flatten.take k, Segments.skip k sock) := by
  have hroom : 0 < min n maxRwCount := lt_min hn (by decide)
  have hnil : sock ≠ [] := by
    rintro rfl
    exact hne rfl
  refine ⟨(sock.recv n).1.length, ?_, ?_, ?_, ?_⟩
  · exact length_pos_iff.mpr (Segments.read_ne_nil hsock hroom hnil)
  · exact (Segments.length_read_le _ sock).trans (min_le_left _ _)
  · exact Nat.le.intro (unread_recv n sock)
  · exact Prod.ext (Segments.read_fst _ sock) (Segments.read_snd hsock hroom)

/-- A fixed-size read takes exactly that many bytes, when they come. -/
theorem readLoop_eq {reads left : Nat} {sock : Socket} (hsock : Segments.Proper sock)
    (hreads : left ≤ reads) (hleft : left ≤ sock.unread) :
    readLoop reads left sock = some (sock.flatten.take left, Segments.skip left sock) := by
  induction reads generalizing left sock with
  | zero =>
    rw [Nat.le_zero.mp hreads, readLoop, take_zero, Segments.skip_zero]
  | succ reads ih =>
    cases left with
    | zero => rw [readLoop, take_zero, Segments.skip_zero]
    | succ left =>
      rcases recv_spec hsock (Nat.succ_pos left) (by omega) with ⟨k, hpos, hk, hunread, hrecv⟩
      have hlen : (sock.flatten.take k).length = k := length_take_of_le hunread
      have hmore : left + 1 - k ≤ unread (Segments.skip k sock) := by
        rw [unread, Segments.skip_flatten, length_drop]
        exact Nat.sub_le_sub_right hleft k
      have hsum : left + 1 = k + (left + 1 - k) := (Nat.add_sub_cancel' hk).symm
      rw [readLoop]
      simp only [hrecv, hlen, if_neg hpos.ne', ih (hsock.skip k) (by omega) hmore,
        Option.map_some, Segments.skip_flatten]
      rw [← take_add, ← Segments.skip_add, ← hsum]

end Socket

/-- `http.request.buffer_size`, and `boost::lexical_cast<uint64_t>` with `none` for an exception. -/
structure Config where
  bufferSize : Nat
  lexicalCast : Bytes → Option UInt64

structure Received where
  request : HttpRequest
  /-- The bytes received behind the request.  They go away with the buffer. -/
  dropped : Bytes
  sock : Socket
deriving DecidableEq, Repr

/-- What the loops over a header section use of a parser. -/
structure HeaderParser (P ε : Type) where
  execute : P → Bytes → Except ε (P × Bytes)
  hasError : P → Bool
  isFinished : P → Bool

/-- The loop of `recvRequest` and `recvResponse` up to the end of the header section.
`held` is the unparsed front of the buffer; `none` is a null pointer. -/
def HeaderParser.recv {P ε : Type} (H : HeaderParser P ε) (bufferSize : Nat) :
    Nat → P → Bytes → Socket → Except ε (Option (P × Bytes × Socket))
  | 0, _, _, _ => .ok none
  | reads + 1, parser, held, sock =>
    let r := sock.recv (bufferSize - held.length)
    if r.1.length = 0 then .ok none
    else
      match H.execute parser (held ++ r.1) with
      | .error e => .error e
      | .ok (parser, held) =>
        if H.hasError parser then .ok none
        else if (held.length : Int) = toInt32 bufferSize then .ok none
        else if H.isFinished parser then .ok (some (parser, held, r.2))
        else H.recv bufferSize reads parser held r.2

abbrev requestHeader : HeaderParser HttpRequestParser StdException :=
  ⟨HttpRequestParser.execute, HttpRequestParser.hasError, HttpRequestParser.isFinished⟩

def recvHeader (cfg : Config) : Nat → HttpRequestParser → Bytes → Socket →
    Except StdException (Option (HttpRequestParser × Bytes × Socket)) :=
  requestHeader.recv cfg.bufferSize

/-- The rest of `recvRequest`: the body, as far as it is in the buffer and then from the socket.
`body.resize` throws before anything is read. -/
def recvBody (cfg : Config) (parser : HttpRequestParser) (pending : Bytes) (sock : Socket) :
    Except StdException (Option Received) :=
  let req := parser.2.data
  let length : Int := (parser.getContentLength cfg.lexicalCast).toBitVec.toInt
  if 0 < length then
    if stringMaxSize < length.toNat then .error .lengthError
    else
      let body := pending.take length.toNat
      let left := length - pending.length
      if 0 < left then
        let r := sock.readFixSize left.toNat
        if r.1 ≤ 0 then .ok none
        else .ok (some ⟨HttpRequest.init { req with body := body ++ r.2.1 }, [], r.2.2⟩)
      else .ok (some ⟨HttpRequest.init { req with body := body }, pending.drop length.toNat, sock⟩)
  else .ok (some ⟨req.init, pending, sock⟩)

def recvRequest (cfg : Config) (memory : HttpParser) (sock : Socket) :
    Except StdException (Option Received) :=
  match recvHeader cfg (sock.unread + 1) (.new memory) [] sock with
  | .error e => .error e
  | .ok none => .ok none
  | .ok (some (parser, pending, sock)) => recvBody cfg parser pending sock

/-- The loop of `handleClient`: the requests passed to the servlets, and what was dropped after
each. `memory i` is that of the `i`-th parser. -/
def handleLoop (cfg : Config) (isKeepalive : Bool) (memory : Nat → HttpParser) :
    Nat → Nat → Socket → List (HttpRequest × Bytes)
  | 0, _, _ => []
  | calls + 1, i, sock =>
    match recvRequest cfg (memory i) sock with
    | .ok (some r) =>
      (r.request, r.dropped) ::
        if !isKeepalive || r.request.close then []
        else handleLoop cfg isKeepalive memory calls (i + 1) r.sock
    -- a null pointer ends the loop, an exception the fiber
    | _ => []

def handleClient (cfg : Config) (isKeepalive : Bool) (memory : Nat → HttpParser)
    (sock : Socket) : List (HttpRequest × Bytes) :=
  handleLoop cfg isKeepalive memory (sock.unread + 1) 0 sock

lemma Socket.readLoop_append {reads left : Nat} {sock : Socket} {bytes : Bytes} {rest : Socket}
    (h : readLoop reads left sock = some (bytes, rest)) : bytes ++ rest.flatten = sock.flatten := by
  induction reads generalizing left sock bytes with
  | zero =>
    cases left with
    | zero =>
      cases h
      rfl
    | succ left => cases h
  | succ reads ih =>
    cases left with
    | zero =>
      cases h
      rfl
    | succ left =>
      rw [readLoop] at h
      split at h
      · cases h
      rcases Option.map_eq_some_iff.mp h with ⟨x, hx, heq⟩
      cases heq
      rw [append_assoc, ih hx]
      exact Segments.read_append_flatten _ sock

namespace HeaderParser

variable {P ε : Type} {H : HeaderParser P ε} {size reads : Nat} {parser : P} {held : Bytes}
  {sock : Socket} {out : P × Bytes × Socket}

/-- A round of the loop that does not end it with a null pointer. -/
structure Round (H : HeaderParser P ε) (size : Nat) (parser : P) (held : Bytes) (sock : Socket)
    (parser' : P) (held' : Bytes) : Prop where
  received : (sock.recv (size - held.length)).1.length ≠ 0
  parsed : H.execute parser (held ++ (sock.recv (size - held.length)).1) = .ok (parser', held')
  noError : H.hasError parser' = false

lemma recv_cases (h : H.recv size (reads + 1) parser held sock = .ok (some out)) :
    ∃ parser' held', H.Round size parser held sock parser' held' ∧
      ((H.isFinished parser' = true ∧
          out = (parser', held', (sock.recv (size - held.length)).2)) ∨
        (H.isFinished parser' = false ∧ H.recv size reads parser' held'
            (sock.recv (size - held.length)).2 = .ok (some out))) := by
  rw [recv] at h
  split at h
  · cases h
  next hreceived =>
    split at h
    · cases h
    next parser' held' hparsed =>
      split at h
      · cases h
      next herror =>
        have hround : H.Round size parser held sock parser' held' :=
          ⟨hreceived, hparsed, by simpa using herror⟩
        split at h
        · cases h
        split at h
        · next hfinished =>
            cases h
            exact ⟨parser', held', hround, Or.inl ⟨hfinished, rfl⟩⟩
        · next hfinished =>
            exact ⟨parser', held', hround, Or.inr ⟨by simpa using hfinished, h⟩⟩

/-- What every round does, and what is then done again, the loop does. -/
lemma recv_rule {R : P × Bytes × Socket → P × Bytes × Socket → Prop}
    (htrans : ∀ {x y z}, R x y → R y z → R x z)
    (hround : ∀ {parser held sock parser' held'}, H.Round size parser held sock parser' held' →
      R (parser, held, sock) (parser', held', (sock.recv (size - held.length)).2))
    (h : H.recv size reads parser held sock = .ok (some out)) : R (parser, held, sock) out := by
  induction reads generalizing parser held sock with
  | zero => cases h
  | succ reads ih =>
    rcases recv_cases h with ⟨parser', held', hone, ⟨-, hout⟩ | ⟨-, hmore⟩⟩
    · cases hout
      exact hround hone
    · exact htrans (hround hone) (ih hmore)

end HeaderParser

end Yuyu.Http
