import Yuyu.Http.Limits

/-!
# Bodies with a content length

A session and a connection assemble a body of known length in the same way: a part of it may be in
the buffer, and what is missing is read from the socket.
-/

namespace Yuyu.Http

open Foundation List

/-- The body of the given length from the buffer and the socket, and the socket behind it, unless a
read comes back empty. -/
def assemble (length : Nat) (held : Bytes) (sock : Socket) : Option (Bytes × Socket) :=
  let left : Int := length - held.length
  if 0 < left then
    let r := sock.readFixSize left.toNat
    if r.1 ≤ 0 then none else some (held.take length ++ r.2.1, r.2.2)
  else some (held.take length, sock)

variable {sock rest : Socket} {length : Nat} {cfg : Config} {parser : HttpRequestParser}
   {held : Bytes}

lemma Socket.readFixSize_eq (hsock : Segments.Proper sock) (n : Nat) :
    sock.readFixSize n =
      if n ≤ sock.unread then (toInt32 n, sock.flatten.take n, Segments.skip n sock)
      else (0, [], sock) := by
  by_cases hle : n ≤ sock.unread
  · rw [readFixSize, readLoop_eq hsock (le_refl n) hle, if_pos hle]
  have hnone : readLoop n n sock = none := by
    cases hloop : readLoop n n sock with
    | none => rfl
    | some x =>
      have hlen := congrArg List.length (readLoop_append hloop)
      rw [length_append, readLoop_length hloop] at hlen
      exact absurd (Nat.le.intro hlen) hle
  rw [readFixSize, hnone, if_neg hle]

/-- A read for what the buffer lacks fails: the stream ends before, or the missing number is not a
positive `int`. -/
def ReadFails (length : Nat) (held : Bytes) (sock : Socket) : Prop :=
  held.length < length ∧ (sock.unread < length - held.length ∨ toInt32 (length - held.length) ≤ 0)
deriving Decidable

lemma assemble_cases (length : Nat) (held : Bytes) (hsock : Segments.Proper sock) :
    assemble length held sock =
      if ReadFails length held sock then none
      else
        some ((held ++ sock.flatten).take length,
          Segments.skip (length - held.length) sock) := by
  simp only [assemble]
  by_cases hleft : (0 : Int) < length - held.length
  · have hlt : held.length < length := by omega
    have hnat : ((length : Int) - held.length).toNat = length - held.length := by omega
    have htake : held.take length = held := take_of_length_le hlt.le
    rw [if_pos hleft, hnat, Socket.readFixSize_eq hsock]
    by_cases hthere : length - held.length ≤ sock.unread
    · rw [if_pos hthere]
      simp only [ReadFails, hlt, true_and, not_lt.mpr hthere, false_or, take_append, htake]
    · rw [if_neg hthere, if_pos (le_refl 0), if_pos ⟨hlt, Or.inl (not_le.mp hthere)⟩]
  have hle : length ≤ held.length := by omega
  rw [if_neg hleft, if_neg (fun hfails => absurd hfails.1 (not_lt.mpr hle)),
    take_append_of_le_length hle, Nat.sub_eq_zero_of_le hle, Segments.skip_zero]

lemma assemble_eq (held : Bytes) (hsock : Segments.Proper sock) (hlength : length < 2 ^ 31) :
    assemble length held sock =
      if length ≤ (held ++ sock.flatten).length then
        some ((held ++ sock.flatten).take length, Segments.skip (length - held.length) sock)
      else none := by
  have hall : (held ++ sock.flatten).length = held.length + sock.unread := length_append
  have hint := toInt32_of_lt (show length - held.length < 2 ^ 31 by omega)
  have hfails : ReadFails length held sock ↔ ¬ length ≤ (held ++ sock.flatten).length := by
    rw [ReadFails, hint, hall]
    omega
  rw [assemble_cases length held hsock]
  by_cases hthere : length ≤ (held ++ sock.flatten).length
  · rw [if_neg (fun h => hfails.mp h hthere), if_pos hthere]
  · rw [if_pos (hfails.mpr hthere), if_neg hthere]

/-- A body that is no longer than a string can be. -/
lemma recvBody_eq_assemble (hpos : 0 < length) (hmax : length ≤ stringMaxSize)
    (h : requestLength cfg parser = length) (pending : Bytes) (sock : Socket) :
    recvBody cfg parser pending sock = .ok ((assemble length pending sock).map fun r =>
        ⟨HttpRequest.init { parser.2.data with body := r.1 }, pending.drop length, r.2⟩) := by
  rw [requestLength] at h
  simp only [recvBody, h, assemble, Int.toNat_natCast, Int.natCast_pos, if_pos hpos,
    if_neg (not_lt.mpr hmax)]
  by_cases hleft : (0 : Int) < length - pending.length
  · rw [if_pos hleft, if_pos hleft, drop_eq_nil_of_le (by omega)]
    split <;> rfl
  · rw [if_neg hleft, if_neg hleft]
    rfl

lemma recvLength_eq_assemble {cfg : ClientConfig} {parser : HttpResponseParser}
    (hpos : 0 < length) (hmax : length ≤ stringMaxSize) (h : responseLength cfg parser = length)
    (held : Bytes) (sock : Socket) :
    recvLength cfg parser held sock = .ok (assemble length held sock) := by
  rw [responseLength] at h
  simp only [recvLength, h, assemble, Int.toNat_natCast, Int.natCast_pos, if_pos hpos,
    if_neg (not_lt.mpr hmax)]
  split_ifs <;> rfl

def behindRequestHeader (memory : HttpParser) (sock : Socket) : Bytes :=
  sock.flatten.drop (requestHeaderLength memory.uriRelaxed sock.flatten)

def behindResponseHeader (sock : Socket) : Bytes :=
  sock.flatten.drop (responseHeaderLength sock.flatten)

lemma append_recv_suffix {held' : Bytes} {n : Nat} (h : held' <:+ held ++ (sock.recv n).1) :
    held' ++ (sock.recv n).2.flatten <:+ held ++ sock.flatten := by
  rw [Socket.append_recv held n sock]
  exact suffix_append_self_iff.mpr h

lemma HeaderParser.recv_suffix {P ε : Type} {H : HeaderParser P ε} {size reads : Nat}
    {parser parser' : P} {held' : Bytes}
    (hexec : ∀ {m m' data rest}, H.execute m data = .ok (m', rest) → rest <:+ data)
    (h : H.recv size reads parser held sock = .ok (some (parser', held', rest))) :
    held' ++ rest.flatten <:+ held ++ sock.flatten ∧
      (Segments.Proper sock → Segments.Proper rest) :=
  recv_rule (R := fun x y => y.2.1 ++ y.2.2.flatten <:+ x.2.1 ++ x.2.2.flatten ∧
      (Segments.Proper x.2.2 → Segments.Proper y.2.2))
    (fun hxy hyz => ⟨hyz.1.trans hxy.1, fun hsock => hyz.2 (hxy.2 hsock)⟩)
    (fun hround => ⟨append_recv_suffix (hexec hround.parsed), fun hsock => hsock.read _⟩) h

lemma HttpRequestParser.execute_suffix {m m' : HttpRequestParser} {data rest : Bytes}
    (h : m.execute data = .ok (m', rest)) : rest <:+ data := by
  rw [HttpRequestParser.execute] at h
  split at h
  · cases h
  · cases h
    exact drop_suffix _ _

lemma behindRequestHeader_eq {memory : HttpParser} {pending : Bytes}
    (h : recvHeader cfg (sock.unread + 1) (.new memory) [] sock =
      .ok (some (parser, pending, rest))) :
    pending ++ rest.flatten = behindRequestHeader memory sock := by
  have hdrop :=
    suffix_iff_eq_drop.mp (HeaderParser.recv_suffix HttpRequestParser.execute_suffix h).1
  rw [nil_append, length_append] at hdrop
  rw [behindRequestHeader, ← consumed_request h]
  exact hdrop

lemma behindResponseHeader_eq {cfg : ClientConfig} {memory : HttpclientParser}
    {parser : HttpResponseParser}
    (h : recvResponseHeader cfg (sock.unread + 1) (.new memory) [] sock =
      .ok (some (parser, held, rest))) : held ++ rest.flatten = behindResponseHeader sock := by
  have hdrop := suffix_iff_eq_drop.mp (HeaderParser.recv_suffix execute_suffix h).1
  rw [nil_append, length_append] at hdrop
  rw [behindResponseHeader, ← consumed_response h]
  exact hdrop

/-- For a content length below `2^31`, the body is the first bytes behind the header section, and a
null pointer is returned exactly if the stream ends before. -/
theorem content_length_body (cfg : ClientConfig) {length : Nat} (hpos : 0 < length)
    (hlength : length < 2 ^ 31) :
    (∀ (memory : HttpParser) (sock : Socket) (parser : HttpRequestParser) (pending : Bytes)
        (rest : Socket), Segments.Proper sock →
      recvHeader cfg.toConfig (sock.unread + 1) (.new memory) [] sock =
        .ok (some (parser, pending, rest)) →
      requestLength cfg.toConfig parser = length →
      recvRequest cfg.toConfig memory sock =
        .ok (if length ≤ (behindRequestHeader memory sock).length then
          some ⟨HttpRequest.init
              { parser.2.data with body := (behindRequestHeader memory sock).take length },
            pending.drop length, Segments.skip (length - pending.length) rest⟩
        else none)) ∧
    ∀ (memory : HttpclientParser) (sock : Socket) (parser : HttpResponseParser) (held : Bytes)
        (rest : Socket), Segments.Proper sock →
      recvResponseHeader cfg (sock.unread + 1) (.new memory) [] sock =
        .ok (some (parser, held, rest)) →
      responseLength cfg parser = length → parser.parser.chunked = false →
      parser.data.NotEncoded →
      recvResponse cfg memory sock =
        .ok (if length ≤ (behindResponseHeader sock).length then
          some ({ parser.data with body := (behindResponseHeader sock).take length },
            Segments.skip (length - held.length) rest)
        else none) := by
  have hmax : length ≤ stringMaxSize := hlength.le.trans (by decide)
  refine ⟨?_, ?_⟩
  · intro memory sock parser pending rest hsock hheader hcontent
    have hrest := (HeaderParser.recv_suffix HttpRequestParser.execute_suffix hheader).2 hsock
    rw [recvRequest, hheader]
    simp only [recvBody_eq_assemble hpos hmax hcontent, assemble_eq pending hrest hlength,
      behindRequestHeader_eq hheader]
    split <;> rfl
  intro memory sock parser held rest hsock hheader hcontent hchunked hplain
  have hrest := (recvResponseHeader_spec (Nat.zero_le _) hheader).2.2.2 hsock
  have hempty : parser.data.body = [] := recvResponseHeader_body hheader
  rw [recvResponse, hheader]
  simp only [recvResponseBody, hchunked, Bool.false_eq_true, if_false,
    recvLength_eq_assemble hpos hmax hcontent, assemble_eq held hrest hlength,
    behindResponseHeader_eq hheader]
  split_ifs
  · dsimp only
    rw [setDecodedBody_eq cfg hplain hempty]
  · rfl

def fiveClient : ClientConfig :=
  { ClientConfig.plain 64 with lexicalCast := fun v => if v = ascii "5" then some 5 else none }

def fiveRequest : Socket :=
  [ascii "POST / HTTP/1.1\r\ncontent-length: 5\r\n\r\nhe", ascii "l", ascii "lo!"]

def fiveRequestParser : HttpRequestParser :=
  (⟨348, 33, 36, 14, 0, false, false, false⟩,
    ⟨{ HttpRequest.default with
      method := .POST, headers := [(ascii "content-length", ascii "5")] }, 0⟩)

def fiveResponse : Socket :=
  [ascii "HTTP/1.1 200 OK\r\ncontent-length: 5\r\n\r\nhe", ascii "l", ascii "l"]

def fiveResponseParser : HttpResponseParser where
  parser :=
    { HttpclientParser.zeroed with
      cs := ClientAutomaton.httpclientParserFirstFinal, bodyStart := 38, contentLen := 5
      status := 200, mark := 33, fieldStart := 17, fieldLen := 14 }
  data :=
    { HttpResponse.default with
      reason := ascii "OK", headers := [(ascii "content-length", ascii "5")] }
  error := 0

theorem content_length_body_five :
    recvRequest fiveClient.toConfig zeroMemory fiveRequest =
        .ok (some ⟨HttpRequest.init { fiveRequestParser.2.data with body := ascii "hello" }, [],
          [ascii "!"]⟩) ∧
      recvResponse fiveClient .zeroed fiveResponse = .ok none := by
  have h := content_length_body fiveClient (show 0 < 5 by decide) (by decide)
  refine ⟨?_, ?_⟩
  · rw [h.1 zeroMemory fiveRequest fiveRequestParser (ascii "he") [ascii "l", ascii "lo!"]
      (by decide +kernel) (by decide +kernel) (by decide +kernel)]
    decide +kernel
  rw [h.2 .zeroed fiveResponse fiveResponseParser (ascii "he") [ascii "l", ascii "l"]
    (by decide +kernel) (by decide +kernel) (by decide +kernel) (by decide +kernel)
    ⟨by decide +kernel, by decide +kernel⟩]
  decide +kernel

end Yuyu.Http
