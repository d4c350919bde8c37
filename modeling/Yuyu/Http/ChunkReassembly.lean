import Yuyu.Http.SizeLineReads

/-!
# Chunked bodies that arrive in several reads

If a size line does not come through the reads, `recvResponse` goes on with a smaller size, and
looks for the next size line inside the content.
-/

namespace Yuyu.Http

open Foundation List
open Foundation.Strtol (value)
open ClientAutomaton (Act isHex)

structure Chunk where
  digits : Bytes
  content : Bytes
  isHex_digits : ∀ c ∈ digits, isHex c = true
  value_digits : value 16 digits = content.length
  content_ne_nil : content ≠ []
  content_lt : content.length < 2 ^ 31 - 2

/-- A chunked body: its chunks, and the zeros of the size line that ends it. -/
structure ChunkedBody where
  chunks : List Chunk
  last : Bytes
  last_ne_nil : last ≠ []
  last_zeros : ∀ c ∈ last, c = 48

lemma Chunk.digits_ne_nil (c : Chunk) : c.digits ≠ [] := by
  intro hnil
  have hzero := c.value_digits
  rw [hnil, Strtol.value_nil] at hzero
  exact c.content_ne_nil (length_eq_zero_iff.mp hzero.symm)

lemma Chunk.storedSize_digits (c : Chunk) : storedSize c.digits = c.content.length := by
  have hlt := c.content_lt
  have hvalue := c.value_digits
  rw [storedSize_eq (by omega), hvalue]

def encodeChunks (last : Bytes) : List Chunk → Bytes
  | [] => last ++ [13, 10, 13, 10]
  | c :: cs => c.digits ++ 13 :: 10 :: (c.content ++ 13 :: 10 :: encodeChunks last cs)

namespace ChunkedBody

def encode (m : ChunkedBody) : Bytes := encodeChunks m.last m.chunks

def contents (m : ChunkedBody) : Bytes := m.chunks.flatMap Chunk.content

end ChunkedBody

section Chunks

variable {cfg : ClientConfig}

lemma dataRoom_eq (hbuf : cfg.bufferSize < 2 ^ 31) (n : Nat) :
    dataRoom cfg n = min n cfg.bufferSize := by
  rw [dataRoom, toInt32_of_lt hbuf]
  split
  · rw [toSize]
    omega
  · rw [toSize]
    omega

variable {n chunks : Nat} {sock : Socket} {held body last : Bytes} {parser : HttpResponseParser}
   {cs : List Chunk}

lemma readData_eq (hpos : 0 < cfg.bufferSize) (hbuf : cfg.bufferSize < 2 ^ 31) {reads : Nat}
    (hproper : Segments.Proper sock) (hreads : n ≤ reads) (hn : n ≤ sock.unread) :
    readData cfg reads n sock = (sock.flatten.take n, some (Segments.skip n sock)) := by
  induction reads generalizing n sock with
  | zero =>
    rw [Nat.le_zero.mp hreads, readData, take_zero, Segments.skip_zero]
    rfl
  | succ reads ih =>
    rcases Nat.eq_zero_or_pos n with rfl | hn₀
    · rw [readData, take_zero, Segments.skip_zero]
      rfl
    have hroom : 0 < dataRoom cfg n := by
      rw [dataRoom_eq hbuf]
      omega
    rcases Socket.recv_spec hproper hroom (by omega) with ⟨k, hk, hkn, hunread, hrecv⟩
    rw [dataRoom_eq hbuf] at hkn
    have hlen : (sock.flatten.take k).length = k := length_take_of_le hunread
    have hmore : n - k ≤ Socket.unread (Segments.skip k sock) := by
      rw [Socket.unread, Segments.skip_flatten, length_drop]
      exact Nat.sub_le_sub_right hn k
    have hleft : ((n : Int) - (k : Nat)) = ((n - k : Nat) : Int) := by omega
    have hsum : n = k + (n - k) := by omega
    rw [readData, if_neg (by omega)]
    simp only [hrecv, hlen, if_neg hk.ne', hleft, ih (hproper.skip k) (by omega) hmore,
      Segments.skip_flatten]
    rw [← take_add, ← Segments.skip_add, ← hsum]

def dataAt (n : Nat) (held : Bytes) (sock : Socket) : Bytes × Socket :=
  if n + 2 ≤ held.length then (held.drop (n + 2), sock)
  else ([], Segments.skip (n + 2 - held.length) sock)

lemma dataAt_stream (n : Nat) (held : Bytes) (sock : Socket) :
    (dataAt n held sock).1 ++ (dataAt n held sock).2.flatten =
      (held ++ sock.flatten).drop (n + 2) := by
  unfold dataAt
  split
  · next h => rw [drop_append_of_le_length h]
  next h =>
    have hnil : held.drop (n + 2) = [] := drop_eq_nil_of_le (by omega)
    rw [Segments.skip_flatten, drop_append, hnil]

lemma dataAt_held (hheld : held.length ≤ cfg.bufferSize) :
    (dataAt n held sock).1.length ≤ cfg.bufferSize := by
  unfold dataAt
  split
  · exact (drop_suffix _ held).length_le.trans hheld
  · exact Nat.zero_le _

lemma dataAt_proper
    (hproper : Segments.Proper sock) : Segments.Proper (dataAt n held sock).2 := by
  unfold dataAt
  split
  · exact hproper
  · exact hproper.skip _

lemma takeChunk_stream (hpos : 0 < cfg.bufferSize) (hbuf : cfg.bufferSize < 2 ^ 31)
    {l : SizeLine} {X : Bytes} (hn : l.contentLen = n) (hsmall : n + 2 < 2 ^ 31)
    (hheld : l.held.length ≤ cfg.bufferSize) (hproper : Segments.Proper l.sock)
    (hstream : l.held ++ l.sock.flatten = X) (hX : n + 2 ≤ X.length) (body : Bytes) :
    takeChunk cfg l body = .ok (some (body ++ X.take n, dataAt n l.held l.sock)) := by
  by_cases hle : n + 2 ≤ l.held.length
  · rw [takeChunk_held hn (hheld.trans_lt hbuf) hle, dataAt, if_pos hle, ← hstream,
      take_append_of_le_length (by omega)]
  have hunread : n + 2 - l.held.length ≤ l.sock.unread := by
    rw [← hstream, length_append] at hX
    rw [Socket.unread]
    omega
  have hleft : (n : Int) - l.held.length + 2 = ((n + 2 - l.held.length : Nat) : Int) := by omega
  rw [takeChunk_read hn hsmall (by omega), hleft,
    readData_eq hpos hbuf hproper (le_refl _) hunread, dataAt, if_neg hle]
  have hfront : l.held ++ l.sock.flatten.take (n + 2 - l.held.length) = X.take (n + 2) := by
    have hall : l.held.take (n + 2) = l.held := take_of_length_le (by omega)
    rw [← hstream, take_append, hall]
  have hlen : (l.sock.flatten.take (n + 2 - l.held.length)).length = n + 2 - l.held.length :=
    length_take_of_le hunread
  have hcount : body.length + l.held.length + (n + 2 - l.held.length) - 2 = body.length + n := by
    omega
  dsimp only
  rw [hlen, hcount, append_assoc, hfront, take_length_add_append, take_take, min_eq_left (by omega)]

/-! ## Found lines -/

namespace SizeLine.Found

variable {parser : HttpResponseParser} {size : Int} {S : Bytes} {l : SizeLine}

lemma contentLen_eq (h : l.Found cfg parser size S) : l.contentLen = size := by
  rcases h.parser_eq with ⟨k, hk⟩
  rw [contentLen, hk]
  rfl

lemma chunksDone_eq (h : l.Found cfg parser size S) :
    l.parser.parser.chunksDone = decide (size ≤ 0) := by
  rcases h.parser_eq with ⟨k, hk⟩
  rw [hk]
  rfl

lemma data_eq (h : l.Found cfg parser size S) : l.parser.data = parser.data := by
  rcases h.parser_eq with ⟨k, hk⟩
  rw [hk]
  rfl

lemma error_eq (h : l.Found cfg parser size S) : l.parser.error = parser.error := by
  rcases h.parser_eq with ⟨k, hk⟩
  rw [hk]
  rfl

end SizeLine.Found

def aligned (cfg : ClientConfig) (last : Bytes) : List Chunk → Bytes → Socket → Bool
  | [], held, sock => (lineAt cfg (sock.unread + 2) true last held sock).isSome
  | c :: cs, held, sock =>
    match lineAt cfg (sock.unread + 2) true c.digits held sock with
    | none => false
    | some (held, sock) =>
      let next := dataAt c.content.length held sock
      aligned cfg last cs next.1 next.2

lemma recvChunks_found (hpos : 0 < cfg.bufferSize) (hbuf : cfg.bufferSize < 2 ^ 31) {S : Bytes}
    {l : SizeLine} (hline : readSizeLine cfg (sock.unread + 2) true parser held sock = .ok (some l))
    (hfound : l.Found cfg parser n S) (hsmall : n + 2 < 2 ^ 31) (hS : n + 2 ≤ S.length) :
    recvChunks cfg (chunks + 1) parser body held sock =
      if n = 0 then .ok (some (l.parser, body, (dataAt n l.held l.sock).2))
      else recvChunks cfg chunks l.parser (body ++ S.take n) (dataAt n l.held l.sock).1
        (dataAt n l.held l.sock).2 := by
  have hchunk := takeChunk_stream hpos hbuf hfound.contentLen_eq hsmall hfound.held_le
    hfound.proper hfound.stream_eq hS body
  rw [recvChunks, hline]
  simp only [hchunk, hfound.chunksDone_eq]
  by_cases hn : n = 0
  · subst hn
    simp
  · simp [hn]

lemma isHex_of_zeros (hzeros : ∀ c ∈ last, c = 48) : ∀ c ∈ last, isHex c = true := by
  intro c hc
  rw [hzeros c hc]
  decide

lemma storedSize_last (hzeros : ∀ c ∈ last, c = 48) : storedSize last = (0 : Nat) := by
  have hsize := storedSize_zeros hzeros []
  rw [append_nil] at hsize
  rw [hsize]
  decide

lemma drop_content (c : Chunk) (S : Bytes) :
    (c.content ++ 13 :: 10 :: S).drop (c.content.length + 2) = S := by
  rw [← drop_drop, drop_left]
  rfl

lemma recvChunks_chunk (hpos : 0 < cfg.bufferSize) (hbuf : cfg.bufferSize < 2 ^ 31) {c : Chunk}
    {held' : Bytes} {sock' : Socket} (hheld : held.length ≤ cfg.bufferSize)
    (herror : parser.error = 0) (hproper : Segments.Proper sock)
    (hstream : held ++ sock.flatten = encodeChunks last (c :: cs))
    (hline : lineAt cfg (sock.unread + 2) true c.digits held sock = some (held', sock')) :
    ∃ l : SizeLine,
      l.Found cfg parser c.content.length (c.content ++ 13 :: 10 :: encodeChunks last cs) ∧
      l.held = held' ∧ l.sock = sock' ∧
      recvChunks cfg (chunks + 1) parser body held sock =
        recvChunks cfg chunks l.parser (body ++ c.content) (dataAt c.content.length held' sock').1
          (dataAt c.content.length held' sock').2 ∧
      (dataAt c.content.length held' sock').1 ++ (dataAt c.content.length held' sock').2.flatten =
        encodeChunks last cs := by
  rcases readSizeLine_of_lineAt hpos hbuf hheld herror c.digits_ne_nil c.isHex_digits hproper
    hstream hline with ⟨l, hread, hfound, rfl, rfl⟩
  rw [c.storedSize_digits] at hfound
  have hsmall := c.content_lt
  have hne : c.content.length ≠ 0 := fun hzero => c.content_ne_nil (length_eq_zero_iff.mp hzero)
  have hlen : c.content.length + 2 ≤ (c.content ++ 13 :: 10 :: encodeChunks last cs).length := by
    rw [length_append, length_cons, length_cons]
    omega
  refine ⟨l, hfound, rfl, rfl, ?_, ?_⟩
  · rw [recvChunks_found hpos hbuf hread hfound (by omega) hlen, if_neg hne, take_left]
  · rw [dataAt_stream, hfound.stream_eq, drop_content]

lemma recvChunks_of_aligned (hpos : 0 < cfg.bufferSize) (hbuf : cfg.bufferSize < 2 ^ 31)
    (hlast : last ≠ []) (hzeros : ∀ c ∈ last, c = 48)
    (hchunks : cs.length < chunks) (hheld : held.length ≤ cfg.bufferSize)
    (herror : parser.error = 0) (hproper : Segments.Proper sock)
    (hstream : held ++ sock.flatten = encodeChunks last cs)
    (haligned : aligned cfg last cs held sock = true) :
    ∃ parser' sock', recvChunks cfg chunks parser body held sock =
        .ok (some (parser', body ++ cs.flatMap Chunk.content, sock')) ∧
      parser'.data = parser.data := by
  induction cs generalizing chunks parser body held sock with
  | nil =>
    cases chunks with
    | zero => cases hchunks
    | succ chunks =>
      rw [aligned, Option.isSome_iff_exists] at haligned
      rcases haligned with ⟨x, hline⟩
      rcases readSizeLine_of_lineAt hpos hbuf hheld herror hlast (isHex_of_zeros hzeros) hproper
        hstream hline with ⟨l, hread, hfound, _⟩
      rw [storedSize_last hzeros] at hfound
      rw [recvChunks_found hpos hbuf hread hfound (by decide) (by decide), if_pos rfl,
        flatMap_nil, append_nil]
      exact ⟨l.parser, _, rfl, hfound.data_eq⟩
  | cons c cs ih =>
    cases chunks with
    | zero => cases hchunks
    | succ chunks =>
      rw [aligned] at haligned
      split at haligned
      · cases haligned
      next held' sock' hline =>
        rcases recvChunks_chunk hpos hbuf hheld herror hproper hstream hline with
          ⟨l, hfound, rfl, rfl, hround, hrest⟩
        rw [hround, flatMap_cons, ← append_assoc]
        rcases ih (Nat.lt_of_succ_lt_succ hchunks) (dataAt_held hfound.held_le)
          (hfound.error_eq.trans herror) (dataAt_proper hfound.proper) hrest haligned with
          ⟨parser', sock', hrecv, hdata⟩
        exact ⟨parser', sock', hrecv, hdata.trans hfound.data_eq⟩

/-- A byte that cannot start a size line or a status line. -/
def Plain (c : UInt8) : Prop := isHex c = false ∧ c.toNat ≠ 72

lemma drop_plain {content : Bytes} (hplain : ∀ b ∈ content, Plain b)
    (hn : n < content.length) (S : Bytes) :
    ∃ b rest, (content ++ 13 :: 10 :: S).drop (n + 2) = b :: rest ∧ Plain b := by
  rcases Nat.lt_or_ge (n + 2) content.length with hlt | hge
  · rw [drop_append_of_le_length hlt.le, drop_eq_getElem_cons hlt, cons_append]
    exact ⟨_, _, rfl, hplain _ (getElem_mem hlt)⟩
  rw [drop_append, drop_eq_nil_of_le hge, nil_append]
  rcases Nat.eq_or_lt_of_le hge with heq | hgt
  · rw [heq, Nat.sub_self]
    exact ⟨13, _, rfl, by decide, by decide⟩
  have hone : n + 2 - content.length = 1 := by omega
  rw [hone]
  exact ⟨10, _, rfl, by decide, by decide⟩

lemma recvChunks_reject (hbuf : cfg.bufferSize < 2 ^ 31) {rest : Bytes} {b : UInt8}
    (hheld : held.length ≤ cfg.bufferSize) (hstream : held ++ sock.flatten = b :: rest)
    (hb : Plain b) : recvChunks cfg chunks parser body held sock = .ok none := by
  cases chunks with
  | zero => rfl
  | succ chunks => rw [recvChunks, readSizeLine_reject hbuf hheld hstream hb.1 hb.2]

lemma recvChunks_of_not_aligned (hpos : 0 < cfg.bufferSize) (hbuf : cfg.bufferSize < 2 ^ 31)
    (hlast : last ≠ []) (hzeros : ∀ c ∈ last, c = 48) (hplain : ∀ c ∈ cs, ∀ b ∈ c.content, Plain b)
    (hheld : held.length ≤ cfg.bufferSize)
    (herror : parser.error = 0) (hproper : Segments.Proper sock)
    (hstream : held ++ sock.flatten = encodeChunks last cs)
    (haligned : aligned cfg last cs held sock = false) :
    recvChunks cfg chunks parser body held sock = .ok none ∨
      ∃ parser' body' sock', recvChunks cfg chunks parser body held sock =
          .ok (some (parser', body', sock')) ∧ parser'.data = parser.data ∧
        body'.length < (body ++ cs.flatMap Chunk.content).length := by
  induction cs generalizing chunks parser body held sock with
  | nil =>
    cases chunks with
    | zero => exact Or.inl rfl
    | succ chunks =>
      rw [aligned, Option.isSome_eq_false_iff, Option.isNone_iff_eq_none] at haligned
      rcases readSizeLine_of_not_lineAt hpos hbuf hheld herror hlast (isHex_of_zeros hzeros)
        hproper hstream haligned with hnone | ⟨l, es, hread, hless, hfound⟩
      · left
        rw [recvChunks, hnone]
      · rw [value_zeros hzeros] at hless
        exact absurd hless (Nat.not_lt_zero _)
  | cons c cs ih =>
    cases chunks with
    | zero => exact Or.inl rfl
    | succ chunks =>
      rw [forall_mem_cons] at hplain
      have hsmall := c.content_lt
      rw [aligned] at haligned
      split at haligned
      · next hline =>
          rcases readSizeLine_of_not_lineAt hpos hbuf hheld herror c.digits_ne_nil c.isHex_digits
            hproper hstream hline with hnone | ⟨l, es, hread, hless, hfound⟩
          · left
            rw [recvChunks, hnone]
          rw [c.value_digits] at hless
          rw [storedSize_eq (by omega)] at hfound
          have hlen : value 16 es + 2 ≤ (c.content ++ 13 :: 10 :: encodeChunks last cs).length := by
            rw [length_append, length_cons, length_cons]
            omega
          rw [recvChunks_found hpos hbuf hread hfound (by omega) hlen]
          split
          · refine Or.inr ⟨_, _, _, rfl, hfound.data_eq, ?_⟩
            rw [flatMap_cons, length_append, length_append]
            omega
          rcases drop_plain hplain.1 hless (encodeChunks last cs) with ⟨b, rest, hdrop, hb⟩
          have hrest := dataAt_stream (value 16 es) l.held l.sock
          rw [hfound.stream_eq, hdrop] at hrest
          exact Or.inl (recvChunks_reject hbuf (dataAt_held hfound.held_le) hrest hb)
      next held' sock' hline =>
        rcases recvChunks_chunk hpos hbuf hheld herror hproper hstream hline with
          ⟨l, hfound, rfl, rfl, hround, hrest⟩
        rw [hround, flatMap_cons, ← append_assoc]
        rcases ih hplain.2 (dataAt_held hfound.held_le) (hfound.error_eq.trans herror)
          (dataAt_proper hfound.proper) hrest haligned with
          hnone | ⟨parser', body', sock', hrecv, hdata, hless⟩
        · exact Or.inl hnone
        · exact Or.inr ⟨parser', body', sock', hrecv, hdata.trans hfound.data_eq, hless⟩

end Chunks

namespace HttpResponseParser

variable {buffer : Bytes} {p : Nat} {this this' : HttpResponseParser}

lemma onVersion_body (start : Bytes) (n : Nat) (this : HttpResponseParser) :
    (this.onVersion start n).data.body = this.data.body := by
  unfold onVersion
  split
  · rfl
  · split <;> rfl

lemma runAct_body {a : Act} (hrun : this.runAct buffer p a = .ok this') :
    this'.data.body = this.data.body := by
  cases a with
  | writeValue =>
    rw [runAct, onHttpField] at hrun
    split at hrun
    · cases hrun
      rfl
    split at hrun
    · cases hrun
      rfl
    · cases hrun
  | reasonPhrase =>
    rw [runAct, onReason] at hrun
    split at hrun
    · cases hrun
      rfl
    · cases hrun
  | httpVersion =>
    cases hrun
    exact onVersion_body _ _ this
  | _ =>
    cases hrun
    rfl

lemma exec_body {rest : Bytes} {n : Nat} (h : exec buffer p rest this = .ok (this', n)) :
    this'.data.body = this.data.body := by
  induction rest generalizing p this with
  | nil =>
    cases h
    rfl
  | cons c rest ih =>
    rw [exec] at h
    split at h
    · cases h
      rfl
    split at h
    · cases h
    next this₁ hacts =>
      have hkeep := runActs_keeps (f := fun t => t.data.body)
        (fun a _ t t' hrun => runAct_body hrun) hacts
      split at h
      · cases h
        exact hkeep
      · exact (ih h).trans hkeep

lemma execute_body {data rest : Bytes} {chunk : Bool}
    (h : this.execute data chunk = .ok (this', rest)) : this'.data.body = this.data.body := by
  have hstart : ((if chunk then this.mapParser HttpclientParser.init else this).mapParser
      HttpclientParser.enter).data = this.data := by
    cases chunk <;> rfl
  rw [execute] at h
  split at h
  · cases h
  · cases h
  next this₁ n hparse =>
    cases h
    rw [httpclientParserExecute] at hparse
    split at hparse
    · cases hparse
    next hexec =>
      dsimp only at hparse
      split at hparse
      · cases hparse
      split at hparse
      · cases hparse
        rw [exec_body hexec, hstart]
      · cases hparse

end HttpResponseParser

lemma recvResponseHeader_body {cfg : ClientConfig} {reads : Nat}
    {parser parser' : HttpResponseParser} {held held' : Bytes} {sock sock' : Socket}
    (h : recvResponseHeader cfg reads parser held sock = .ok (some (parser', held', sock'))) :
    parser'.data.body = parser.data.body := by
  refine HeaderParser.recv_rule
    (R := fun x y : HttpResponseParser × _ => y.1.data.body = x.1.data.body)
    (fun hxy hyz => hyz.trans hxy) (fun hround => ?_) h
  exact HttpResponseParser.execute_body hround.parsed

/-! ## The response -/

/-- The header names no encoding that `recvResponse` decodes. -/
def HttpResponse.NotEncoded (rsp : HttpResponse) : Prop :=
  strcasecmp (rsp.getHeader (ascii "content-encoding") []) (ascii "gzip") ≠ .eq ∧
    strcasecmp (rsp.getHeader (ascii "content-encoding") []) (ascii "deflate") ≠ .eq

lemma setDecodedBody_eq (cfg : ClientConfig) {rsp : HttpResponse} (hplain : rsp.NotEncoded)
    (hempty : rsp.body = []) (body : Bytes) :
    setDecodedBody cfg rsp body = { rsp with body := body } := by
  unfold setDecodedBody
  split
  · next hnil => rw [hnil, ← hempty]
  · rw [if_neg hplain.1, if_neg hplain.2]

lemma setDecodedBody_body (cfg : ClientConfig) {rsp : HttpResponse} (hplain : rsp.NotEncoded)
    (hempty : rsp.body = []) (body : Bytes) : (setDecodedBody cfg rsp body).body = body := by
  rw [setDecodedBody_eq cfg hplain hempty]

lemma length_lt_encodeChunks (last : Bytes) (cs : List Chunk) :
    cs.length < (encodeChunks last cs).length := by
  induction cs with
  | nil => simp [encodeChunks]
  | cons c cs ih =>
    rw [encodeChunks]
    simp only [length_append, length_cons]
    omega

/-- If every size line comes through its reads, the body is the concatenation of the contents; only
if, when no content can be taken for a header. -/
theorem chunked_body (cfg : ClientConfig) (hbuf : cfg.bufferSize < 2 ^ 31)
    (memory : HttpclientParser) (sock : Socket) (hproper : Segments.Proper sock)
    (parser : HttpResponseParser) (held : Bytes) (rest : Socket)
    (hheader : recvResponseHeader cfg (sock.unread + 1) (.new memory) [] sock =
      .ok (some (parser, held, rest)))
    (hchunked : parser.parser.chunked = true) (hencoding : parser.data.NotEncoded)
    (m : ChunkedBody) (hstream : held ++ rest.flatten = m.encode) :
    (aligned cfg m.last m.chunks held rest = true →
      ∃ r, recvResponse cfg memory sock = .ok (some r) ∧ r.1.body = m.contents) ∧
    ((∀ c ∈ m.chunks, ∀ b ∈ c.content, Plain b) →
      (∃ r, recvResponse cfg memory sock = .ok (some r) ∧ r.1.body = m.contents) →
      aligned cfg m.last m.chunks held rest = true) := by
  rcases recvResponseHeader_spec (Nat.zero_le _) hheader with ⟨hheld, hpos, hgood, hrest⟩
  have herror : parser.error = 0 := by
    rw [HttpResponseParser.hasError, Bool.or_eq_false_iff] at hgood
    simpa using hgood.1
  have hempty : parser.data.body = [] := recvResponseHeader_body hheader
  have hrecv : recvResponse cfg memory sock = recvResponseBody cfg parser held rest := by
    rw [recvResponse, hheader]
  rw [hrecv, recvResponseBody, if_pos hchunked]
  constructor
  · intro haligned
    have hrounds : m.chunks.length < chunkRounds held rest := by
      have hlen := congrArg List.length hstream
      have hless := length_lt_encodeChunks m.last m.chunks
      rw [length_append, ChunkedBody.encode] at hlen
      rw [chunkRounds, Socket.unread]
      omega
    rcases recvChunks_of_aligned hpos hbuf m.last_ne_nil m.last_zeros hrounds hheld herror
      (hrest hproper) hstream haligned with ⟨parser', sock', hchunks, hdata⟩
    rw [hchunks]
    refine ⟨_, rfl, ?_⟩
    rw [hdata]
    exact setDecodedBody_body cfg hencoding hempty _
  intro hplain hbody
  by_contra hnot
  rw [Bool.not_eq_true] at hnot
  rcases recvChunks_of_not_aligned hpos hbuf m.last_ne_nil m.last_zeros hplain hheld herror
    (hrest hproper) hstream hnot with hnone | ⟨parser', body', sock', hchunks, hdata, hless⟩
  · rw [hnone] at hbody
    rcases hbody with ⟨r, hr, _⟩
    cases hr
  rw [hchunks] at hbody
  rcases hbody with ⟨r, hr, hr'⟩
  cases hr
  rw [hdata, setDecodedBody_body cfg hencoding hempty] at hr'
  rw [hr'] at hless
  exact absurd hless (lt_irrefl _)

def sixteen : ChunkedBody where
  chunks :=
    [{ digits := ascii "10"
       content := ascii "0123456789abcdef"
       isHex_digits := by decide +kernel
       value_digits := by decide +kernel
       content_ne_nil := by decide +kernel
       content_lt := by decide +kernel }]
  last := ascii "0"
  last_ne_nil := by decide +kernel
  last_zeros := by decide +kernel

theorem chunked_body_sixteen :
    ∃ r, recvResponse (.plain 64) .zeroed
        [chunkedHeader, ascii "10\r\n0123456", ascii "789abcdef\r", ascii "\n0\r\n\r\n"] =
      .ok (some r) ∧ r.1.body = sixteen.contents := by
  have hheader : recvResponseHeader (.plain 64)
      (Socket.unread
        [chunkedHeader, ascii "10\r\n0123456", ascii "789abcdef\r", ascii "\n0\r\n\r\n"] + 1)
      (.new .zeroed) []
      [chunkedHeader, ascii "10\r\n0123456", ascii "789abcdef\r", ascii "\n0\r\n\r\n"] =
      .ok (some (chunkedParser, [],
        [ascii "10\r\n0123456", ascii "789abcdef\r", ascii "\n0\r\n\r\n"])) := by
    decide +kernel
  exact (chunked_body (.plain 64) (by decide) .zeroed _ (by decide) chunkedParser [] _ hheader
    (by decide) ⟨by decide, by decide⟩ sixteen (by decide)).1 (by decide +kernel)

/-- A read that ends inside a size line: the first digit is lost, and the line is taken
for the end of the body. -/
theorem chunked_body_lost :
    sixteen.encode = ascii "1" ++ ascii "0\r\n0123456789abcdef\r\n0\r\n\r\n" ∧
      (recvResponse (.plain 64) .zeroed
          [chunkedHeader, ascii "1", ascii "0\r\n0123456789abcdef\r\n0\r\n\r\n"]).toOption.bind
        (Option.map fun r => r.1.body) = some [] ∧
      sixteen.contents = ascii "0123456789abcdef" := by
  decide +kernel

end Yuyu.Http
