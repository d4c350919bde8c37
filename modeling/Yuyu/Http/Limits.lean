import Yuyu.Http.ChunkReassembly
import Yuyu.Http.HeaderLength
import Yuyu.Http.SplitInvariance

/-!
# Message limits

The maxima for bodies in `http_parser.cc` are never read, and the size of the buffer bounds a single
read only.
-/

namespace Yuyu.Http

open Foundation List
open Foundation.Scanner (scan Outcome)

structure Limits where
  requestMaxBodySize : Nat
  responseMaxBodySize : Nat

def consumed (sock : Socket) (held : Bytes) (rest : Socket) : Nat :=
  sock.unread - (held.length + rest.unread)

def stopOf : Outcome Nat → Nat
  | .stopped k _ => k
  | _ => 0

def lengthSizes (length : Int) : List Nat := if 0 < length then [length.toNat] else []

lemma lengthSizes_le {length : Int} {n : Nat} :
    (∀ size ∈ lengthSizes length, size ≤ n) ↔ length ≤ n := by
  unfold lengthSizes
  split
  · rw [forall_mem_singleton]
    omega
  · exact iff_of_true nofun (by omega)

section Requests

open Automaton (httpParserStart httpParserFirstFinal)

variable {cfg : Config}

def requestHeaderLength (uriRelaxed : Bool) (stream : Bytes) : Nat :=
  stopOf (scan (requestScanner uriRelaxed) httpParserStart stream)

variable {reads n : Nat} {pending : Bytes} {sock rest : Socket} {m m' : HttpRequestParser}

lemma consumed_request {memory : HttpParser} {parser : HttpRequestParser}
    (h : recvHeader cfg reads (.new memory) [] sock = .ok (some (parser, pending, rest))) :
    consumed sock pending rest = requestHeaderLength memory.uriRelaxed sock.flatten := by
  rcases recvHeader_length (by decide : ¬ httpParserFirstFinal ≤ httpParserStart) h with
    ⟨k, s, hscan, hlen⟩
  have hstop : requestHeaderLength memory.uriRelaxed sock.flatten = k := by
    rw [requestHeaderLength]
    exact congrArg stopOf hscan
  rw [hstop, consumed]
  rw [length_nil] at hlen
  omega

def requestLength (cfg : Config) (parser : HttpRequestParser) : Int :=
  (parser.getContentLength cfg.lexicalCast).toBitVec.toInt

lemma onCallback_body {cb : Callback} {d d' : CallbackData} (h : onCallback cb d = .ok d') :
    d'.data.body = d.data.body := by
  have htext : ∀ {store : Bytes → HttpRequest → HttpRequest} {start : Bytes} {n : Nat},
      onRequestText store start n d = .ok d' → (∀ t req, (store t req).body = req.body) →
      d'.data.body = d.data.body := by
    intro store start n hd hstore
    rw [onRequestText, stdString] at hd
    split at hd
    · cases hd
      exact hstore _ _
    · cases hd
  cases cb with
  | requestMethod start n =>
    cases h
    rw [onRequestMethod]
    split <;> rfl
  | requestUri | headerDone =>
    cases h
    rfl
  | fragment start n =>
    rw [onCallback, onRequestFragment] at h
    exact htext h fun _ _ => rfl
  | requestPath start n =>
    rw [onCallback, onRequestPath] at h
    exact htext h fun _ _ => rfl
  | queryString start n =>
    rw [onCallback, onRequestQuery] at h
    exact htext h fun _ _ => rfl
  | httpVersion start n =>
    cases h
    rw [onRequestVersion]
    split
    · rfl
    · split <;> rfl
  | httpField field flen value vlen =>
    rw [onCallback, onRequestHttpField] at h
    split at h
    · cases h
      rfl
    split at h
    · cases h
      rfl
    · cases h
    · cases h

lemma runAct_request_body {buffer : Bytes} {p : Nat} {a : Automaton.Act}
    (h : runAct onCallback buffer p m a = .ok m') : m'.2.data.body = m.2.data.body := by
  rcases (runAct_spec h).2 with hsame | ⟨cb, hcb⟩
  · rw [hsame]
  · exact onCallback_body hcb

lemma exec_request_body {buffer rest : Bytes} {p : Nat}
    (h : exec onCallback buffer p rest m = .ok (m', n)) : m'.2.data.body = m.2.data.body := by
  induction rest generalizing p m with
  | nil =>
    cases h
    rfl
  | cons c rest ih =>
    rw [exec] at h
    split at h
    · cases h
      rfl
    split at h
    · cases h
    next m₁ hacts =>
      have hkeep : m₁.2.data.body = m.2.data.body :=
        runActs_keeps (f := fun t => t.2.data.body)
          (fun a t t' hone => runAct_request_body hone) hacts
      split at h
      · cases h
        exact hkeep
      · exact (ih h).trans hkeep

lemma recvHeader_body {pending' : Bytes} {sock' : Socket}
    (h : recvHeader cfg reads m pending sock = .ok (some (m', pending', sock'))) :
    m'.2.data.body = m.2.data.body := by
  refine HeaderParser.recv_rule
    (R := fun x y : HttpRequestParser × _ => y.1.2.data.body = x.1.2.data.body)
    (fun hxy hyz => hyz.trans hxy) (fun hround => ?_) h
  have hexec : HttpRequestParser.execute _ _ = _ := hround.parsed
  rw [HttpRequestParser.execute, httpParserExecute,
    if_neg (length_pos_iff.mpr (Socket.append_recv_ne_nil hround.received)).ne'] at hexec
  split at hexec
  · cases hexec
  next hrun =>
    cases hexec
    have hbody := exec_request_body hrun
    exact hbody

lemma Socket.readLoop_length {left : Nat} {bytes : Bytes}
    (h : readLoop reads left sock = some (bytes, rest)) : bytes.length = left := by
  induction reads generalizing left sock bytes with
  | zero =>
    cases left with
    | zero =>
      cases h
      rfl
    | succ left => cases h
  | succ reads ih =>
    cases left with
    | zero =>
      cases h
      rfl
    | succ left =>
      have hroom : (sock.recv (left + 1)).1.length ≤ left + 1 :=
        (Segments.length_read_le _ sock).trans (min_le_left _ _)
      rw [readLoop] at h
      split at h
      · cases h
      rcases Option.map_eq_some_iff.mp h with ⟨x, hx, heq⟩
      cases heq
      rw [length_append, ih hx]
      omega

lemma Socket.readFixSize_length (h : ¬ (sock.readFixSize n).1 ≤ 0) :
    (sock.readFixSize n).2.1.length = n := by
  cases hloop : readLoop n n sock with
  | none =>
    rw [readFixSize, hloop] at h
    exact absurd (le_refl 0) h
  | some x =>
    rw [readFixSize, hloop]
    exact readLoop_length hloop

lemma recvRequest_body_le {memory : HttpParser} {parser : HttpRequestParser}
    (hheader : recvHeader cfg (sock.unread + 1) (.new memory) [] sock =
      .ok (some (parser, pending, rest)))
    {r : Received} (h : recvRequest cfg memory sock = .ok (some r))
    (hn : requestLength cfg parser ≤ n) : r.request.body.length ≤ n := by
  have hempty : parser.2.data.body = [] := recvHeader_body hheader
  rw [recvRequest, hheader] at h
  change recvBody cfg parser pending rest = .ok (some r) at h
  rw [recvBody] at h
  have hlength : (parser.getContentLength cfg.lexicalCast).toBitVec.toInt =
      requestLength cfg parser := rfl
  simp only [hlength] at h
  split at h
  · next hpos =>
      split at h
      · cases h
      split at h
      · split at h
        · cases h
        next hread =>
          cases h
          have hlen := Socket.readFixSize_length hread
          rw [HttpRequest.init_body]
          rw [length_append, hlen, length_take]
          omega
      cases h
      rw [HttpRequest.init_body]
      exact (length_take_le _ _).trans (by omega)
  cases h
  rw [HttpRequest.init_body, hempty]
  exact Nat.zero_le n

end Requests

/-! ## Responses -/

section Responses

open ClientAutomaton (httpclientParserStart httpclientParserFirstFinal)

variable {cfg : ClientConfig}

def responseHeaderLength (stream : Bytes) : Nat :=
  stopOf (scan responseScanner httpclientParserStart stream)

variable {reads n : Nat} {parser parser' : HttpResponseParser} {held body body' : Bytes}
   {sock sock' : Socket} {l : SizeLine}

lemma consumed_response {memory : HttpclientParser} {rest : Socket}
    (h : recvResponseHeader cfg reads (.new memory) [] sock = .ok (some (parser, held, rest))) :
    consumed sock held rest = responseHeaderLength sock.flatten := by
  rcases recvResponseHeader_length
    (by decide : httpclientParserStart ≠ httpclientParserFirstFinal) h with ⟨k, s, hscan, hlen⟩
  have hstop : responseHeaderLength sock.flatten = k := by
    rw [responseHeaderLength]
    exact congrArg stopOf hscan
  rw [hstop, consumed]
  rw [length_nil] at hlen
  omega

def responseLength (cfg : ClientConfig) (parser : HttpResponseParser) : Int :=
  (parser.getContentLength cfg.lexicalCast).toBitVec.toInt

def readSizes (cfg : ClientConfig) : Nat → Int → Nat → Socket → List Nat
  | 0, _, _, _ => []
  | reads + 1, left, size, sock =>
    if left ≤ 0 then []
    else
      let r := sock.recv (dataRoom cfg left)
      if r.1.length = 0 then []
      else
        (size + r.1.length) ::
          readSizes cfg reads (left - r.1.length) (size + r.1.length) r.2

def chunkSizes (cfg : ClientConfig) (l : SizeLine) (body : Bytes) : List Nat :=
  if intMax < l.contentLen + 2 then []
  else if l.contentLen + 2 ≤ l.held.length then
    if l.contentLen < 0 then [] else [body.length + l.contentLen.toNat]
  else
    let left := l.contentLen - l.held.length + 2
    (body.length + l.held.length) ::
      readSizes cfg left.toNat left (body.length + l.held.length) l.sock

def chunkBytes (cfg : ClientConfig) (l : SizeLine) : Nat :=
  if l.contentLen + 2 ≤ l.held.length then l.contentLen.toNat
  else
    let left := l.contentLen - l.held.length + 2
    l.held.length + (readData cfg left.toNat left l.sock).1.length

lemma readSizes_le {left : Int} {size : Nat} :
    (∀ k ∈ size :: readSizes cfg reads left size sock, k ≤ n) ↔
      size + (readData cfg reads left sock).1.length ≤ n := by
  induction reads generalizing left size sock with
  | zero =>
    rw [readSizes, readData, forall_mem_singleton, length_nil, Nat.add_zero]
  | succ reads ih =>
    rw [readSizes, readData]
    split
    · rw [forall_mem_singleton, length_nil, Nat.add_zero]
    dsimp only
    split
    · rw [forall_mem_singleton, length_nil, Nat.add_zero]
    · rw [forall_mem_cons, ih, length_append]
      omega

def SizeLine.Takes (l : SizeLine) : Prop :=
  l.contentLen + 2 ≤ intMax ∧ (l.contentLen + 2 ≤ l.held.length → 0 ≤ l.contentLen)

lemma chunkSizes_le :
    (∀ k ∈ chunkSizes cfg l body, k ≤ n) ↔ (l.Takes → body.length + chunkBytes cfg l ≤ n) := by
  unfold chunkSizes chunkBytes SizeLine.Takes
  split
  · next hover => exact iff_of_true nofun fun htakes => absurd htakes.1 (not_le.mpr hover)
  next hover =>
    split
    · next hheld =>
        split
        · next hneg =>
            exact iff_of_true nofun fun htakes => absurd (htakes.2 hheld) (not_le.mpr hneg)
        next hneg =>
          rw [forall_mem_singleton]
          exact ⟨fun hle _ => hle, fun h => h ⟨not_lt.mp hover, fun _ => not_lt.mp hneg⟩⟩
    next hheld =>
      rw [readSizes_le, Nat.add_assoc]
      exact ⟨fun hle _ => hle, fun h => h ⟨not_lt.mp hover, fun hle => absurd hle hheld⟩⟩

lemma checkInt_ok {v w : Int} (h : checkInt v = .ok w) : v ≤ intMax ∧ w = v := by
  unfold checkInt at h
  split at h
  · next hrange =>
      cases h
      exact ⟨hrange.2, rfl⟩
  · cases h

lemma takeChunk_body (h : takeChunk cfg l body = .ok (some (body', held, sock))) :
    l.Takes ∧ body'.length ≤ body.length + chunkBytes cfg l := by
  unfold takeChunk at h
  simp only [bind, Except.bind] at h
  split at h
  · cases h
  next hneed =>
    rcases checkInt_ok hneed with ⟨hmax, rfl⟩
    rw [SizeLine.Takes, chunkBytes]
    split at h
    · next hheld =>
        rw [if_pos hheld]
        split at h
        · cases h
        next hneg =>
          refine ⟨⟨hmax, fun _ => not_lt.mp hneg⟩, ?_⟩
          split at h
          · cases h
          split at h
          · cases h
          cases h
          rw [length_append]
          exact Nat.add_le_add_left (length_take_le _ _) _
    next hheld =>
      rw [if_neg hheld]
      refine ⟨⟨hmax, fun hle => absurd hle hheld⟩, ?_⟩
      split at h
      · cases h
      next hleft =>
        rcases checkInt_ok hleft with ⟨_, rfl⟩
        split at h
        · cases h
        next hleft₂ =>
          rcases checkInt_ok hleft₂ with ⟨_, rfl⟩
          split at h
          · cases h
          split at h
          · cases h
          cases h
          refine (length_take_le _ _).trans ?_
          simp only [length_append]
          omega

lemma recvChunks_body_le {chunks : Nat}
    (h : recvChunks cfg chunks parser body held sock = .ok (some (parser', body', sock')))
    (hn : ∀ x ∈ acceptedLines cfg chunks parser body held sock,
      x.1.Takes → x.2.length + chunkBytes cfg x.1 ≤ n) : body'.length ≤ n := by
  induction chunks generalizing parser body held sock with
  | zero => cases h
  | succ chunks ih =>
    rw [recvChunks] at h
    rw [acceptedLines] at hn
    split at h
    · cases h
    · cases h
    next l hline =>
      rw [hline] at hn
      rw [forall_mem_cons] at hn
      split at h
      · cases h
      · cases h
      next body₁ held₁ sock₁ hchunk =>
        rw [hchunk] at hn
        dsimp only at hn
        split at h
        · cases h
          rcases takeChunk_body hchunk with ⟨htakes, hle⟩
          exact hle.trans (hn.1 htakes)
        next hdone =>
          rw [if_neg hdone] at hn
          exact ih h hn.2

lemma readSizeLine_body {begin : Bool}
    (h : readSizeLine cfg reads begin parser held sock = .ok (some l)) :
    l.parser.data.body = parser.data.body := by
  induction reads generalizing begin parser held sock with
  | zero => cases h
  | succ reads ih =>
    rw [readSizeLine] at h
    split at h
    · cases h
    split at h
    · cases h
    next hexec =>
      have hkeep := HttpResponseParser.execute_body hexec
      split at h
      · cases h
      split at h
      · cases h
      split at h
      · cases h
        exact hkeep
      · exact (ih h).trans hkeep

lemma recvChunks_data_body {chunks : Nat}
    (h : recvChunks cfg chunks parser body held sock = .ok (some (parser', body', sock'))) :
    parser'.data.body = parser.data.body := by
  induction chunks generalizing parser body held sock with
  | zero => cases h
  | succ chunks ih =>
    rw [recvChunks] at h
    split at h
    · cases h
    · cases h
    next l hline =>
      have hkeep := readSizeLine_body hline
      split at h
      · cases h
      · cases h
      split at h
      · cases h
        exact hkeep
      · exact (ih h).trans hkeep

lemma recvLength_body_le {r : Bytes × Socket}
    (h : recvLength cfg parser held sock = .ok (some r))
    (hn : responseLength cfg parser ≤ n) : r.1.length ≤ n := by
  have hlength : (parser.getContentLength cfg.lexicalCast).toBitVec.toInt =
      responseLength cfg parser := rfl
  rw [recvLength] at h
  simp only [hlength] at h
  split at h
  · split at h
    · cases h
    split at h
    · split at h
      · cases h
      next hread =>
        cases h
        have hlen := Socket.readFixSize_length hread
        rw [length_append, hlen, length_take]
        omega
    · cases h
      exact (length_take_le _ _).trans (by omega)
  · cases h
    exact Nat.zero_le n

def receivedBody (cfg : ClientConfig) (parser : HttpResponseParser) (held : Bytes)
    (sock : Socket) : Except Fault (Option (HttpResponseParser × Bytes × Socket)) :=
  if parser.parser.chunked then recvChunks cfg (chunkRounds held sock) parser [] held sock
  else (recvLength cfg parser held sock).map (Option.map fun r => (parser, r.1, r.2))

lemma recvResponseBody_eq (cfg : ClientConfig) (parser : HttpResponseParser) (held : Bytes)
    (sock : Socket) :
    recvResponseBody cfg parser held sock = (receivedBody cfg parser held sock).map
        (Option.map fun x => (setDecodedBody cfg x.1.data x.2.1, x.2.2)) := by
  unfold recvResponseBody receivedBody
  split
  · cases recvChunks cfg (chunkRounds held sock) parser [] held sock with
    | error e => rfl
    | ok x => cases x <;> rfl
  · cases recvLength cfg parser held sock with
    | error e => rfl
    | ok x => cases x <;> rfl

/-- The sizes that `recvResponse` gives to the body before it is decoded. -/
def responseBodySizes (cfg : ClientConfig) (parser : HttpResponseParser) (held : Bytes)
    (sock : Socket) : List Nat :=
  if parser.parser.chunked then
    (acceptedLines cfg (chunkRounds held sock) parser [] held sock).flatMap fun x =>
      chunkSizes cfg x.1 x.2
  else lengthSizes (responseLength cfg parser)

/-- The lengths that the peer gives are within the limit: that of every chunk on top of those before
it, or the `content-length`. -/
def BodyWithin (cfg : ClientConfig) (n : Nat) (parser : HttpResponseParser) (held : Bytes)
    (sock : Socket) : Prop :=
  if parser.parser.chunked then
    ∀ x ∈ acceptedLines cfg (chunkRounds held sock) parser [] held sock,
      x.1.Takes → x.2.length + chunkBytes cfg x.1 ≤ n
  else responseLength cfg parser ≤ n

lemma responseBodySizes_le :
    (∀ k ∈ responseBodySizes cfg parser held sock, k ≤ n) ↔ BodyWithin cfg n parser held sock := by
  unfold responseBodySizes BodyWithin
  split
  · rw [forall_mem_flatMap]
    exact forall₂_congr fun x _ => chunkSizes_le
  · exact lengthSizes_le

def DecodedWithin (cfg : ClientConfig) (n : Nat) (rsp : HttpResponse) (body : Bytes) : Prop :=
  body ≠ [] →
    if strcasecmp (rsp.getHeader (ascii "content-encoding") []) (ascii "gzip") = .eq then
      (cfg.gunzip body).length ≤ n
    else if strcasecmp (rsp.getHeader (ascii "content-encoding") []) (ascii "deflate") = .eq then
      (cfg.inflate body).length ≤ n
    else True

lemma setDecodedBody_le {rsp : HttpResponse} (hempty : rsp.body = []) (hbody : body.length ≤ n) :
    (setDecodedBody cfg rsp body).body.length ≤ n ↔ DecodedWithin cfg n rsp body := by
  unfold setDecodedBody DecodedWithin
  split
  · next hnil =>
      rw [hempty]
      exact iff_of_true (Nat.zero_le n) fun hne => absurd hnil hne
  next hne =>
    dsimp only
    split
    · exact ⟨fun hle _ => hle, fun h => h hne⟩
    split
    · exact ⟨fun hle _ => hle, fun h => h hne⟩
    · exact iff_of_true hbody fun _ => trivial

lemma receivedBody_le (hwithin : BodyWithin cfg n parser held sock)
    (h : receivedBody cfg parser held sock = .ok (some (parser', body, sock'))) :
    body.length ≤ n ∧ parser'.data.body = parser.data.body := by
  unfold BodyWithin at hwithin
  unfold receivedBody at h
  split at h
  · next hchunked =>
      rw [if_pos hchunked] at hwithin
      exact ⟨recvChunks_body_le h hwithin, recvChunks_data_body h⟩
  next hchunked =>
    rw [if_neg hchunked] at hwithin
    rcases hlength : recvLength cfg parser held sock with e | _ | r <;> rw [hlength] at h <;>
      cases h
    exact ⟨recvLength_body_le hlength hwithin, rfl⟩

end Responses

/-! ## The limits -/

/-- `recvRequest` keeps to the limits: its header section, the sizes given to the body, and the body
returned. -/
def RequestLimited (cfg : Config) (limits : Limits) (memory : HttpParser) (sock : Socket) :
    Prop :=
  ∀ parser pending rest,
    recvHeader cfg (sock.unread + 1) (.new memory) [] sock = .ok (some (parser, pending, rest)) →
    consumed sock pending rest ≤ cfg.bufferSize ∧
      (∀ size ∈ lengthSizes (requestLength cfg parser), size ≤ limits.requestMaxBodySize) ∧
      ∀ r, recvRequest cfg memory sock = .ok (some r) →
        r.request.body.length ≤ limits.requestMaxBodySize

/-- The request keeps to the limits: its header section by the grammar, and the length it gives for
its body. -/
def RequestWithin (cfg : Config) (limits : Limits) (memory : HttpParser) (sock : Socket) : Prop :=
  ∀ parser pending rest,
    recvHeader cfg (sock.unread + 1) (.new memory) [] sock = .ok (some (parser, pending, rest)) →
    requestHeaderLength memory.uriRelaxed sock.flatten ≤ cfg.bufferSize ∧
      requestLength cfg parser ≤ limits.requestMaxBodySize

def ResponseLimited (cfg : ClientConfig) (limits : Limits) (memory : HttpclientParser)
    (sock : Socket) : Prop :=
  ∀ parser held rest,
    recvResponseHeader cfg (sock.unread + 1) (.new memory) [] sock =
      .ok (some (parser, held, rest)) →
    consumed sock held rest ≤ cfg.bufferSize ∧
      (∀ size ∈ responseBodySizes cfg parser held rest, size ≤ limits.responseMaxBodySize) ∧
      ∀ r, recvResponse cfg memory sock = .ok (some r) →
        r.1.body.length ≤ limits.responseMaxBodySize

/-- The response keeps to the limits: its header section, its lengths, and the decoded body. -/
def ResponseWithin (cfg : ClientConfig) (limits : Limits) (memory : HttpclientParser)
    (sock : Socket) : Prop :=
  ∀ parser held rest,
    recvResponseHeader cfg (sock.unread + 1) (.new memory) [] sock =
      .ok (some (parser, held, rest)) →
    responseHeaderLength sock.flatten ≤ cfg.bufferSize ∧
      BodyWithin cfg limits.responseMaxBodySize parser held rest ∧
      ∀ parser' body rest', receivedBody cfg parser held rest = .ok (some (parser', body, rest')) →
        DecodedWithin cfg limits.responseMaxBodySize parser'.data body

lemma requestLimited_iff (cfg : Config) (limits : Limits) (memory : HttpParser) (sock : Socket) :
    RequestLimited cfg limits memory sock ↔ RequestWithin cfg limits memory sock := by
  constructor
  · intro h parser pending rest hheader
    rcases h parser pending rest hheader with ⟨hlength, hsizes, _⟩
    rw [consumed_request hheader] at hlength
    exact ⟨hlength, lengthSizes_le.mp hsizes⟩
  intro h parser pending rest hheader
  rcases h parser pending rest hheader with ⟨hlength, hsize⟩
  refine ⟨?_, lengthSizes_le.mpr hsize, ?_⟩
  · rwa [consumed_request hheader]
  · intro r hr
    exact recvRequest_body_le hheader hr hsize

lemma responseLimited_iff (cfg : ClientConfig) (limits : Limits) (memory : HttpclientParser)
    (sock : Socket) :
    ResponseLimited cfg limits memory sock ↔ ResponseWithin cfg limits memory sock := by
  have hresult : ∀ {parser held rest},
      recvResponseHeader cfg (sock.unread + 1) (.new memory) [] sock =
        .ok (some (parser, held, rest)) →
      recvResponse cfg memory sock = (receivedBody cfg parser held rest).map
        (Option.map fun x => (setDecodedBody cfg x.1.data x.2.1, x.2.2)) := by
    intro parser held rest hheader
    rw [recvResponse, hheader]
    exact recvResponseBody_eq cfg parser held rest
  constructor
  · intro h parser held rest hheader
    rcases h parser held rest hheader with ⟨hlength, hsizes, hreturned⟩
    rw [consumed_response hheader] at hlength
    have hwithin := responseBodySizes_le.mp hsizes
    refine ⟨hlength, hwithin, ?_⟩
    intro parser' body rest' hbody
    rcases receivedBody_le hwithin hbody with ⟨hle, hdata⟩
    rw [hresult hheader, hbody] at hreturned
    have hempty : parser'.data.body = [] := hdata.trans (recvResponseHeader_body hheader)
    exact (setDecodedBody_le hempty hle).mp (hreturned _ rfl)
  intro h parser held rest hheader
  rcases h parser held rest hheader with ⟨hlength, hwithin, hdecoded⟩
  refine ⟨?_, responseBodySizes_le.mpr hwithin, ?_⟩
  · rwa [consumed_response hheader]
  intro r hr
  rw [hresult hheader] at hr
  cases hbody : receivedBody cfg parser held rest with
  | error e =>
    rw [hbody] at hr
    cases hr
  | ok x =>
    cases x with
    | none =>
      rw [hbody] at hr
      cases hr
    | some y =>
      rw [hbody] at hr
      cases hr
      rcases receivedBody_le hwithin hbody with ⟨hle, hdata⟩
      have hempty : y.1.data.body = [] := hdata.trans (recvResponseHeader_body hheader)
      exact (setDecodedBody_le hempty hle).mpr (hdecoded _ _ _ hbody)

/-- The configured limits hold exactly for messages that keep to them. -/
theorem limits_iff (cfg : ClientConfig) (limits : Limits) (memory : HttpParser)
    (clientMemory : HttpclientParser) (sock : Socket) :
    (RequestLimited cfg.toConfig limits memory sock ↔
        RequestWithin cfg.toConfig limits memory sock) ∧
      (ResponseLimited cfg limits clientMemory sock ↔
        ResponseWithin cfg limits clientMemory sock) :=
  ⟨requestLimited_iff cfg.toConfig limits memory sock,
    responseLimited_iff cfg limits clientMemory sock⟩

lemma RequestLimited.returned {cfg : Config} {limits : Limits} {memory : HttpParser}
    {sock : Socket} (h : RequestLimited cfg limits memory sock) {r : Received}
    (hr : recvRequest cfg memory sock = .ok (some r)) :
    requestHeaderLength memory.uriRelaxed sock.flatten ≤ cfg.bufferSize ∧
      r.request.body.length ≤ limits.requestMaxBodySize := by
  cases hheader : recvHeader cfg (sock.unread + 1) (.new memory) [] sock with
  | error e =>
    rw [recvRequest, hheader] at hr
    cases hr
  | ok x =>
    cases x with
    | none =>
      rw [recvRequest, hheader] at hr
      cases hr
    | some y =>
      rcases h _ _ _ hheader with ⟨hlength, _, hbody⟩
      rw [consumed_request hheader] at hlength
      exact ⟨hlength, hbody r hr⟩

lemma ResponseLimited.returned {cfg : ClientConfig} {limits : Limits}
    {memory : HttpclientParser} {sock : Socket} (h : ResponseLimited cfg limits memory sock)
    {r : HttpResponse × Socket} (hr : recvResponse cfg memory sock = .ok (some r)) :
    responseHeaderLength sock.flatten ≤ cfg.bufferSize ∧
      r.1.body.length ≤ limits.responseMaxBodySize := by
  cases hheader : recvResponseHeader cfg (sock.unread + 1) (.new memory) [] sock with
  | error e =>
    rw [recvResponse, hheader] at hr
    cases hr
  | ok x =>
    cases x with
    | none =>
      rw [recvResponse, hheader] at hr
      cases hr
    | some y =>
      rcases h _ _ _ hheader with ⟨hlength, _, hbody⟩
      rw [consumed_response hheader] at hlength
      exact ⟨hlength, hbody r hr⟩

/-- A header section of 18 bytes goes through a buffer of 16, and with a maximum of 10 bytes a
request with 20 and a chunked response with 16 are returned. -/
theorem limits_exceeded :
    ¬ RequestLimited ⟨16, fun _ => none⟩ ⟨10, 10⟩ zeroMemory
        [ascii "GET / HTTP/1.1\r\n", ascii "\r\n"] ∧
      ¬ RequestLimited ⟨64, fun _ => some 20⟩ ⟨10, 10⟩ zeroMemory
        [ascii "GET / HTTP/1.1\r\ncontent-length: 20\r\n\r\n", ascii "0123456789abcdefghij"] ∧
      ¬ ResponseLimited (.plain 64) ⟨10, 10⟩ .zeroed [chunkedHeader, sixteen.encode] := by
  refine ⟨fun h => ?_, fun h => ?_, fun h => ?_⟩
  · have hr : recvRequest ⟨16, fun _ => none⟩ zeroMemory
        [ascii "GET / HTTP/1.1\r\n", ascii "\r\n"] = .ok (some ⟨.default, [], []⟩) := by
      decide +kernel
    exact absurd (h.returned hr).1 (by decide +kernel)
  · have hr : recvRequest ⟨64, fun _ => some 20⟩ zeroMemory
        [ascii "GET / HTTP/1.1\r\ncontent-length: 20\r\n\r\n", ascii "0123456789abcdefghij"] =
        .ok (some ⟨{ HttpRequest.default with
          headers := [(ascii "content-length", ascii "20")]
          body := ascii "0123456789abcdefghij" }, [], []⟩) := by
      decide +kernel
    exact absurd (h.returned hr).2 (by decide)
  have hr : recvResponse (.plain 64) .zeroed [chunkedHeader, sixteen.encode] =
      .ok (some ({ chunkedParser.data with body := sixteen.contents }, [])) := by
    decide +kernel
  exact absurd (h.returned hr).2 (by decide)

end Yuyu.Http
