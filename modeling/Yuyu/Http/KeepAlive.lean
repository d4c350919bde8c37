import Yuyu.Http.SplitInvariance

/-!
# Requests on a keep-alive connection

Bytes that a call of `recvRequest` receives beyond its request are dropped, so no read may reach
beyond the end of its request.
-/

namespace Yuyu.Http

open Automaton (httpParserError)
open Foundation List

structure SentRequest where
  header : Bytes
  body : Bytes
deriving DecidableEq, Repr

namespace SentRequest

def bytes (r : SentRequest) : Bytes := r.header ++ r.body

def data (r : SentRequest) : CallbackData :=
  deliverAll r.header (tokens false r.header) ⟨HttpRequest.default, 0⟩

def request (r : SentRequest) : HttpRequest := HttpRequest.init { r.data.data with body := r.body }

/-- A well-formed keep-alive request with a body of exactly its content length. -/
structure WellFormed (cfg : Config) (r : SentRequest) : Prop where
  complete : Complete false r.header
  accepted : r.data.error = 0
  contentLength :
    (r.data.data.getHeaderAs cfg.lexicalCast (ascii "content-length") 0).toNat = r.body.length
  keepAlive : r.request.close = false

/-- The header section arrives whole: the read at its start returns all of it. -/
def HeaderWhole (cfg : Config) (r : SentRequest) (sock : Socket) : Prop :=
  r.header.length ≤ (sock.recv cfg.bufferSize).1.length
deriving Decidable

/-- The read at the start of the request ends inside it, and the body is so short that it can be
held and its missing part read. -/
def Fits (cfg : Config) (r : SentRequest) (sock : Socket) : Prop :=
  (sock.recv cfg.bufferSize).1.length ≤ r.bytes.length ∧ r.body.length ≤ stringMaxSize ∧
    ((sock.recv cfg.bufferSize).1.length = r.bytes.length ∨
      0 < toInt32 (r.bytes.length - (sock.recv cfg.bufferSize).1.length)) ∧
    (((sock.recv cfg.bufferSize).1.drop r.header.length).length : Int) ≠ toInt32 cfg.bufferSize
deriving Decidable

end SentRequest

/-- A condition on every request and the socket at its start. -/
def AlongStream (P : SentRequest → Socket → Prop) : List SentRequest → Socket → Prop
  | [], _ => True
  | r :: rs, sock => P r sock ∧ AlongStream P rs (Segments.skip r.bytes.length sock)

instance (cfg : Config) (r : SentRequest) : Decidable (r.WellFormed cfg) :=
  decidable_of_iff
    (Complete false r.header ∧ r.data.error = 0 ∧
      (r.data.data.getHeaderAs cfg.lexicalCast (ascii "content-length") 0).toNat =
        r.body.length ∧ r.request.close = false)
    ⟨fun h => ⟨h.1, h.2.1, h.2.2.1, h.2.2.2⟩, fun h => ⟨h.1, h.2, h.3, h.4⟩⟩

instance AlongStream.decidable (P : SentRequest → Socket → Prop)
    [∀ r sock, Decidable (P r sock)] : ∀ reqs sock, Decidable (AlongStream P reqs sock)
  | [], _ => isTrue trivial
  | r :: rs, sock =>
    have := AlongStream.decidable P rs (Segments.skip r.bytes.length sock)
    inferInstanceAs (Decidable (P r sock ∧ AlongStream P rs _))

/-! ## The body of the request data -/

lemma deliver_body {stream : Bytes} {d : CallbackData} (t : Token) :
    (deliver stream d t).data.body = d.data.body := by
  cases t with
  | method i j =>
    simp only [deliver, onRequestMethod, CallbackData.setError]
    split <;> rfl
  | version i j =>
    simp only [deliver, onRequestVersion, CallbackData.setError]
    split
    · rfl
    · split <;> rfl
  | header i colon v j =>
    simp only [deliver, HttpRequest.setHeader]
    split <;> rfl
  | path | query | fragment => rfl

lemma deliverAll_body {stream : Bytes} (ts : List Token) (d : CallbackData) :
    (deliverAll stream ts d).data.body = d.data.body := by
  induction ts generalizing d with
  | nil => rfl
  | cons t ts ih => exact (ih _).trans (deliver_body t)

lemma SentRequest.request_body (r : SentRequest) : r.request.body = r.body :=
  HttpRequest.init_body _

lemma SentRequest.init_data {r : SentRequest} (h : r.body = []) : r.data.data.init = r.request := by
  have hbody : r.data.data.body = [] := deliverAll_body _ _
  rw [SentRequest.request, h, ← hbody]

section OneRequest

variable {cfg : Config} {r : SentRequest} {sock : Socket}

lemma Complete.lex_append {header : Bytes} (h : Complete false header) (u : Bool)
    (more : Bytes) : lex u (header ++ more) .start = lex false header .start := by
  have hstrict : lex u header .start = lex false header .start := lex_of_strict header h.1
  have hstop : ¬ (lex u header .start).2.Live := by
    rw [hstrict]
    exact fun hlive => absurd h.1 (not_le.mpr hlive.2)
  rw [lex_append_of_stopped header more (by decide) hstop, hstrict]

lemma SentRequest.data_append (r : SentRequest) (more : Bytes) :
    deliverAll (r.header ++ more) (tokens false r.header) ⟨HttpRequest.default, 0⟩ = r.data := by
  apply deliverAll_append_stream
  intro t ht
  have hstop := lex_stop r.header Lexer.sound_start ht
  rw [Lexer.start_pos, Nat.zero_add] at hstop
  exact ⟨hstop.2.1.le, hstop.2.2⟩

lemma recv_whole (hbytes : r.bytes <+: sock.flatten) (hwhole : r.HeaderWhole cfg sock) :
    (sock.recv cfg.bufferSize).1 =
      r.header ++ (sock.recv cfg.bufferSize).1.drop r.header.length := by
  have hread : (sock.recv cfg.bufferSize).1 <+: sock.flatten :=
    ⟨_, Segments.read_append_flatten _ sock⟩
  have hheader : r.header <+: sock.flatten := (prefix_append _ _).trans hbytes
  rcases prefix_of_prefix_length_le hheader hread hwhole with ⟨more, hmore⟩
  rw [← hmore, drop_left]

lemma recvRequest_header (memory : HttpParser) (hwf : r.WellFormed cfg)
    (hbytes : r.bytes <+: sock.flatten) (hwhole : r.HeaderWhole cfg sock) :
    ∃ m : HttpRequestParser, m.2 = r.data ∧ recvRequest cfg memory sock =
      let pending := (sock.recv cfg.bufferSize).1.drop r.header.length
      if (pending.length : Int) = toInt32 cfg.bufferSize then .ok none
      else recvBody cfg m pending (sock.recv cfg.bufferSize).2 := by
  have hgot := recv_whole hbytes hwhole
  have hmax : (sock.recv cfg.bufferSize).1.length ≤ maxRwCount :=
    (Segments.length_read_le _ sock).trans (min_le_right _ _)
  have hpos : 0 < r.header.length := length_pos_iff.mpr hwf.complete.ne_nil
  have hne : (sock.recv cfg.bufferSize).1 ≠ [] := by
    rw [← length_pos_iff]
    exact lt_of_lt_of_le hpos hwhole
  have hlex : lex memory.uriRelaxed (sock.recv cfg.bufferSize).1 .start =
      lex false r.header .start := by
    rw [hgot]
    exact hwf.complete.lex_append _ _
  have hok : (lex memory.uriRelaxed (sock.recv cfg.bufferSize).1 .start).2.cs ≠
      httpParserError := by
    rw [hlex]
    exact (lt_of_lt_of_le (by decide) hwf.complete.1).ne'
  rcases recvHeader_read (s := .start) (m := HttpRequestParser.new memory) (Prod.mk.eta).symm hne
    hmax prefix_rfl Lexer.sound_start rfl hok (fun _ _ => Nat.zero_le _) sock.unread
    with ⟨m, hreach, hout⟩
  have hu : (HttpRequestParser.new memory).1.uriRelaxed = memory.uriRelaxed := rfl
  rw [hu, hlex] at hreach hout
  have hdata : m.2 = r.data := by
    rw [hreach.data, ← r.data_append ((sock.recv cfg.bufferSize).1.drop r.header.length), ← hgot]
    rfl
  refine ⟨m, hdata, ?_⟩
  rw [hwf.complete.2, Lexer.start_pos, Nat.sub_zero] at hout
  have hnoerr : ¬ m.2.error ≠ 0 := by rw [hdata, hwf.accepted]; exact not_not.mpr rfl
  simp only [if_neg hnoerr, if_pos hwf.complete.1] at hout
  by_cases hfull : (((sock.recv cfg.bufferSize).1.drop r.header.length).length : Int) =
      toInt32 cfg.bufferSize
  · simp only [recvRequest, hout, if_pos hfull]
  · simp only [recvRequest, hout, if_neg hfull]

section Body

variable {m : HttpRequestParser} {pending : Bytes} (hwf : r.WellFormed cfg) (hm : m.2 = r.data)

include hwf hm

lemma getContentLength_toInt :
    (m.getContentLength cfg.lexicalCast).toBitVec.toInt =
      if r.body.length < 2 ^ 63 then (r.body.length : Int)
      else (r.body.length : Int) - 2 ^ 64 := by
  have hnat : (m.getContentLength cfg.lexicalCast).toBitVec.toNat = r.body.length := by
    rw [HttpRequestParser.getContentLength, hm]
    exact hwf.contentLength
  rw [BitVec.toInt_eq_toNat_cond, hnat]
  split <;> split <;> omega

lemma recvBody_there (hsmall : r.body.length ≤ stringMaxSize)
    (hbody : pending.take r.body.length = r.body) :
    recvBody cfg m pending sock = .ok (some ⟨r.request, pending.drop r.body.length, sock⟩) := by
  have hint := getContentLength_toInt hwf hm
  rw [if_pos (hsmall.trans_lt (by decide))] at hint
  have hle : r.body.length ≤ pending.length := by
    rw [← hbody]
    exact length_take_le' _ _
  simp only [recvBody, hint, Int.natCast_pos, Int.toNat_natCast, hbody, hm]
  rcases Nat.eq_zero_or_pos r.body.length with hzero | hpos
  · rw [if_neg (by omega), hzero, drop_zero, r.init_data (length_eq_zero_iff.mp hzero)]
  · rw [if_pos hpos, if_neg (not_lt.mpr hsmall), if_neg (by omega)]
    rfl

lemma recvBody_missing (hsmall : r.body.length ≤ stringMaxSize)
    (hlt : pending.length < r.body.length) (hsock : Segments.Proper sock)
    (hbody : r.body <+: pending ++ sock.flatten) :
    recvBody cfg m pending sock =
      if 0 < toInt32 (r.body.length - pending.length) then
        .ok (some ⟨r.request, [], Segments.skip (r.body.length - pending.length) sock⟩)
      else .ok none := by
  have hint := getContentLength_toInt hwf hm
  rw [if_pos (hsmall.trans_lt (by decide))] at hint
  have hleft : ((r.body.length : Int) - pending.length).toNat = r.body.length - pending.length := by
    omega
  have hunread : r.body.length - pending.length ≤ Socket.unread sock := by
    have hle := hbody.length_le
    rw [length_append] at hle
    exact Nat.sub_le_iff_le_add'.mpr hle
  have htake : pending.take r.body.length = pending := take_of_length_le hlt.le
  have htext : pending ++ sock.flatten.take (r.body.length - pending.length) = r.body := by
    have heq := prefix_iff_eq_take.mp hbody
    rw [take_append, htake] at heq
    exact heq.symm
  simp only [recvBody, hint, Int.natCast_pos, Int.toNat_natCast, hm, hleft, htake,
    Socket.readFixSize, Socket.readLoop_eq hsock (le_refl _) hunread, htext]
  rw [if_pos (by omega), if_neg (not_lt.mpr hsmall), if_pos (by omega)]
  simp only [← not_lt, ite_not]
  rfl

lemma recvBody_throws (hlong : ¬ r.body.length ≤ stringMaxSize) (hsmall : r.body.length < 2 ^ 63) :
    recvBody cfg m pending sock = .error .lengthError := by
  have hint := getContentLength_toInt hwf hm
  rw [if_pos hsmall] at hint
  simp only [recvBody, hint, Int.natCast_pos, Int.toNat_natCast]
  rw [if_pos (by omega), if_pos (not_le.mp hlong)]

lemma recvBody_huge (hhuge : ¬ r.body.length < 2 ^ 63) :
    recvBody cfg m pending sock = .ok (some ⟨r.data.data.init, pending, sock⟩) := by
  have hint := getContentLength_toInt hwf hm
  have hword : r.body.length < 2 ^ 64 := by
    rw [← hwf.contentLength]
    exact UInt64.toNat_lt _
  rw [if_neg hhuge] at hint
  have hneg : ¬ (0 : Int) < r.body.length - 2 ^ 64 := by omega
  simp only [recvBody, hint, if_neg hneg, hm]

end Body

lemma body_behind_header (hbytes : r.bytes <+: sock.flatten) (hwhole : r.HeaderWhole cfg sock) :
    r.body <+: (sock.recv cfg.bufferSize).1.drop r.header.length ++
      (sock.recv cfg.bufferSize).2.flatten := by
  have hflat : (sock.recv cfg.bufferSize).1 ++ (sock.recv cfg.bufferSize).2.flatten =
      sock.flatten := Segments.read_append_flatten _ sock
  have hgot := recv_whole hbytes hwhole
  rw [← hflat, hgot, append_assoc, SentRequest.bytes, prefix_append_right_inj] at hbytes
  exact hbytes

lemma length_behind_header (hwhole : r.HeaderWhole cfg sock) :
    ((sock.recv cfg.bufferSize).1.drop r.header.length).length + r.bytes.length =
      (sock.recv cfg.bufferSize).1.length + r.body.length := by
  have hle : r.header.length ≤ (sock.recv cfg.bufferSize).1.length := hwhole
  rw [length_drop, SentRequest.bytes, length_append]
  omega

lemma recv_rest (hwf : r.WellFormed cfg) (hsock : Segments.Proper sock)
    (hwhole : r.HeaderWhole cfg sock) :
    (sock.recv cfg.bufferSize).2 =
      Segments.skip (sock.recv cfg.bufferSize).1.length sock := by
  have hpos : 0 < r.header.length := length_pos_iff.mpr hwf.complete.ne_nil
  apply Segments.read_snd hsock
  exact (hpos.trans_le hwhole).trans_le (Segments.length_read_le _ sock)

lemma take_behind_header (hbytes : r.bytes <+: sock.flatten) (hwhole : r.HeaderWhole cfg sock)
    (hle : r.bytes.length ≤ (sock.recv cfg.bufferSize).1.length) :
    ((sock.recv cfg.bufferSize).1.drop r.header.length).take r.body.length = r.body := by
  have hbody := prefix_iff_eq_take.mp (body_behind_header hbytes hwhole)
  rw [SentRequest.bytes, length_append] at hle
  rw [take_append_of_le_length (by rw [length_drop]; omega)] at hbody
  exact hbody.symm

lemma recvRequest_fits (memory : HttpParser) (hwf : r.WellFormed cfg)
    (hsock : Segments.Proper sock)
    (hbytes : r.bytes <+: sock.flatten) (hwhole : r.HeaderWhole cfg sock)
    (hfits : r.Fits cfg sock) :
    recvRequest cfg memory sock =
      .ok (some ⟨r.request, [], Segments.skip r.bytes.length sock⟩) := by
  rcases hfits with ⟨hinside, hsmall, hint, hfull⟩
  rcases recvRequest_header memory hwf hbytes hwhole with ⟨m, hm, hout⟩
  have hrest := recv_rest hwf hsock hwhole
  have hlen := length_behind_header hwhole
  simp only [hout, if_neg hfull]
  rcases Nat.eq_or_lt_of_le hinside with heq | hlt
  · have hnil : ((sock.recv cfg.bufferSize).1.drop r.header.length).drop r.body.length = [] :=
      drop_eq_nil_of_le (by omega)
    rw [recvBody_there hwf hm hsmall (take_behind_header hbytes hwhole heq.ge), hnil, hrest, heq]
  have hmissing : r.body.length -
        ((sock.recv cfg.bufferSize).1.drop r.header.length).length =
      r.bytes.length - (sock.recv cfg.bufferSize).1.length := by omega
  rw [recvBody_missing hwf hm hsmall (by omega) (hrest ▸ hsock.skip _)
    (body_behind_header hbytes hwhole), hmissing, if_pos (hint.resolve_left hlt.ne), hrest,
    ← Segments.skip_add, Nat.add_sub_cancel' hinside]

lemma recvRequest_not_fits (memory : HttpParser) (hwf : r.WellFormed cfg)
    (hsock : Segments.Proper sock)
    (hbytes : r.bytes <+: sock.flatten) (hwhole : r.HeaderWhole cfg sock)
    (hfits : ¬ r.Fits cfg sock) {next : Received}
    (hnext : recvRequest cfg memory sock = .ok (some next)) :
    (next.request, next.dropped) ≠ (r.request, []) := by
  rcases recvRequest_header memory hwf hbytes hwhole with ⟨m, hm, hout⟩
  have hlen := length_behind_header hwhole
  have hfull : ¬ (((sock.recv cfg.bufferSize).1.drop r.header.length).length : Int) =
      toInt32 cfg.bufferSize := by
    intro h
    simp only [hout, if_pos h] at hnext
    cases hnext
  simp only [hout, if_neg hfull] at hnext
  intro heq
  rw [Prod.mk.injEq] at heq
  by_cases hsmall : r.body.length ≤ stringMaxSize
  · rcases Nat.lt_or_ge r.bytes.length (sock.recv cfg.bufferSize).1.length with hbeyond | hinside
    · -- the read reaches beyond the request, and the rest goes away with the buffer
      rw [recvBody_there hwf hm hsmall (take_behind_header hbytes hwhole hbeyond.le)]
        at hnext
      cases hnext
      have hnil := drop_eq_nil_iff.mp heq.2
      omega
    -- what is missing of the body is not positive as an `int`
    have hne : (sock.recv cfg.bufferSize).1.length ≠ r.bytes.length :=
      fun h => hfits ⟨hinside, hsmall, Or.inl h, hfull⟩
    have hmissing : r.body.length -
          ((sock.recv cfg.bufferSize).1.drop r.header.length).length =
        r.bytes.length - (sock.recv cfg.bufferSize).1.length := by omega
    have hint : ¬ 0 < toInt32 (r.bytes.length - (sock.recv cfg.bufferSize).1.length) :=
      fun h => hfits ⟨hinside, hsmall, Or.inr h, hfull⟩
    rw [recvBody_missing hwf hm hsmall (by omega)
      (recv_rest hwf hsock hwhole ▸ hsock.skip _) (body_behind_header hbytes hwhole), hmissing,
      if_neg hint] at hnext
    cases hnext
  by_cases hhuge : r.body.length < 2 ^ 63
  · rw [recvBody_throws hwf hm hsmall hhuge] at hnext
    cases hnext
  -- the content length is negative as an `int64_t`, and no body is read
  rw [recvBody_huge hwf hm hhuge] at hnext
  cases hnext
  have hbody := congrArg HttpRequest.body heq.1
  rw [HttpRequest.init_body, r.request_body, SentRequest.data, deliverAll_body] at hbody
  rw [← hbody] at hsmall
  exact hsmall (by decide)

end OneRequest

lemma recvRequest_nil (cfg : Config) (memory : HttpParser) :
    recvRequest cfg memory [] = .ok none := by
  simp [recvRequest, recvHeader, HeaderParser.recv, Socket.recv, Segments.read]

lemma handleLoop_iff {cfg : Config} {memory : Nat → HttpParser}
    (reqs : List SentRequest) {calls i : Nat}
    {sock : Socket} (hcalls : reqs.length ≤ calls) (hwf : ∀ r ∈ reqs, r.WellFormed cfg)
    (hsock : Segments.Proper sock)
    (hstream : sock.flatten = (reqs.map SentRequest.bytes).flatten)
    (hwhole : AlongStream (SentRequest.HeaderWhole cfg) reqs sock) :
    handleLoop cfg true memory calls i sock = reqs.map (fun r => (r.request, [])) ↔
      AlongStream (SentRequest.Fits cfg) reqs sock := by
  induction reqs generalizing calls i sock with
  | nil =>
    obtain rfl : sock = [] := hsock.eq_nil hstream
    have hnil : handleLoop cfg true memory calls i [] = [] := by
      cases calls with
      | zero => rfl
      | succ calls => rw [handleLoop, recvRequest_nil]
    rw [hnil]
    exact iff_of_true rfl trivial
  | cons r reqs ih =>
    cases calls with
    | zero => cases hcalls
    | succ calls =>
      have hr := hwf r (mem_cons_self ..)
      have hbytes : r.bytes <+: sock.flatten := by
        rw [hstream, map_cons, flatten_cons]
        exact prefix_append _ _
      by_cases hfits : r.Fits cfg sock
      · have hrest : (Segments.skip r.bytes.length sock).flatten =
            (reqs.map SentRequest.bytes).flatten := by
          rw [Segments.skip_flatten, hstream, map_cons, flatten_cons, drop_left]
        have hnext := ih (i := i + 1) (Nat.le_of_succ_le_succ hcalls)
          (fun q hq => hwf q (mem_cons_of_mem _ hq)) (hsock.skip _) hrest hwhole.2
        rw [handleLoop, recvRequest_fits (memory i) hr hsock hbytes hwhole.1 hfits]
        simp only [hr.keepAlive, Bool.not_true, Bool.or_self, Bool.false_eq_true, if_false,
          map_cons, cons.injEq, true_and, AlongStream, hfits, hnext]
      refine iff_of_false ?_ fun h => hfits h.1
      rw [handleLoop, map_cons]
      split
      · next next hcall =>
          intro heq
          rw [cons.injEq] at heq
          exact recvRequest_not_fits (memory i) hr hsock hbytes hwhole.1 hfits hcall heq.1
      · exact fun heq => cons_ne_nil _ _ heq.symm

/-- Keep-alive requests whose header sections arrive whole are handed out one by one, with nothing
dropped, exactly when each fits its reads. -/
theorem handleClient_iff (cfg : Config) (memory : Nat → HttpParser) (reqs : List SentRequest)
    (sock : Socket) (hwf : ∀ r ∈ reqs, r.WellFormed cfg)
    (hsock : Segments.Proper sock)
    (hstream : sock.flatten = (reqs.map SentRequest.bytes).flatten)
    (hwhole : AlongStream (SentRequest.HeaderWhole cfg) reqs sock) :
    handleClient cfg true memory sock = reqs.map (fun r => (r.request, [])) ↔
      AlongStream (SentRequest.Fits cfg) reqs sock := by
  apply handleLoop_iff reqs _ hwf hsock hstream hwhole
  have hproper : Segments.Proper (reqs.map SentRequest.bytes) := by
    intro b hb hnil
    rcases mem_map.mp hb with ⟨r, hr, rfl⟩
    exact (hwf r hr).complete.ne_nil (append_eq_nil_iff.mp hnil).1
  have hle := hproper.length_le
  rw [length_map, ← hstream] at hle
  exact Nat.le_succ_of_le hle

def pairConfig : Config := ⟨128, fun v => if v = ascii "5" then some 5 else none⟩

def postFive : SentRequest where
  header := ascii "POST / HTTP/1.1\r\nconnection: keep-alive\r\ncontent-length: 5\r\n\r\n"
  body := ascii "hello"

def getRoot : SentRequest where
  header := ascii "GET / HTTP/1.1\r\nconnection: keep-alive\r\n\r\n"
  body := []

theorem handleClient_iff_pair :
    handleClient pairConfig true (fun _ => zeroMemory)
        [postFive.header ++ ascii "he", ascii "llo", getRoot.bytes] =
      [(postFive.request, []), (getRoot.request, [])] :=
  (handleClient_iff pairConfig (fun _ => zeroMemory) [postFive, getRoot]
    [postFive.header ++ ascii "he", ascii "llo", getRoot.bytes]
    (by decide +kernel) (by decide +kernel) (by decide +kernel)
    (by decide +kernel)).mpr (by decide +kernel)

/-- Two requests in one segment: the second is received with the first and dropped. -/
theorem handleClient_pipelined :
    getRoot.WellFormed pairConfig ∧
      AlongStream (SentRequest.HeaderWhole pairConfig) [getRoot, getRoot]
        [getRoot.bytes ++ getRoot.bytes] ∧
      handleClient pairConfig true (fun _ => zeroMemory) [getRoot.bytes ++ getRoot.bytes] =
        [(getRoot.request, getRoot.bytes)] := by
  decide +kernel

end Yuyu.Http
