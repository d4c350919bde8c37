import Yuyu.Http.Execution
import Yuyu.Http.Session

/-!
# Requests that arrive in several reads

The parser keeps offsets into the buffer of one call only, so a read must not end inside a token.
-/

namespace Yuyu.Http

open Automaton (httpParserFirstFinal httpParserError)
open Foundation List

lemma Socket.recv_segment {segment : Bytes} {n : Nat} (hn : segment.length ≤ n)
    (hmax : segment.length ≤ maxRwCount) (rest : Socket) :
    Socket.recv n (segment :: rest) = (segment, rest) :=
  Segments.read_segment (le_min hn hmax) rest

variable {stream : Bytes} {m m' : HttpRequestParser} {s : Lexer} {cfg : Config} {u : Bool}

lemma Reaches.hasError {b : Nat} {ts : List Token}
    (h : Reaches stream b m ts s m') (hcs : s.cs ≠ httpParserError) :
    m'.hasError = (m'.2.error != 0) := by
  have hne : (m'.1.cs == httpParserError) = false := by rw [h.cs]; exact beq_false_of_ne hcs
  simp only [HttpRequestParser.hasError, HttpParser.hasError, hne, Bool.or_false]

lemma Reaches.isFinished {b : Nat} {ts : List Token} (h : Reaches stream b m ts s m')
    (hcs : s.cs ≠ httpParserError) : m'.isFinished = decide (httpParserFirstFinal ≤ s.cs) := by
  have hne : (s.cs == httpParserError) = false := beq_false_of_ne hcs
  simp only [HttpRequestParser.isFinished, HttpParser.finish, HttpParser.hasError,
    HttpParser.isFinished, h.cs, hne]
  by_cases hfin : httpParserFirstFinal ≤ s.cs <;> simp [hfin]

lemma recvHeader_read {got : Bytes} {sock more : Socket}
    (hrecv : sock.recv cfg.bufferSize = (got, more)) (hgot : got ≠ [])
    (hmax : got.length ≤ maxRwCount) (hwin : got <+: stream.drop s.pos) (hs : s.Sound)
    (hcs : m.1.cs = s.cs) (hok : (lex m.1.uriRelaxed got s).2.cs ≠ httpParserError)
    (huncut : ∀ t ∈ (lex m.1.uriRelaxed got s).1, s.pos ≤ t.start) (reads : Nat) :
    ∃ m', Reaches stream s.pos m (lex m.1.uriRelaxed got s).1 (lex m.1.uriRelaxed got s).2 m' ∧
      recvHeader cfg (reads + 1) m [] sock =
        let pending := got.drop ((lex m.1.uriRelaxed got s).2.pos - s.pos)
        if m'.2.error ≠ 0 then .ok none
        else if (pending.length : Int) = toInt32 cfg.bufferSize then .ok none
        else if httpParserFirstFinal ≤ (lex m.1.uriRelaxed got s).2.cs then
          .ok (some (m', pending, more))
        else recvHeader cfg reads m' pending more := by
  have hstring : got.length ≤ stringMaxSize := hmax.trans (by decide)
  rcases execute_refines hwin hgot hstring hcs hs huncut with ⟨m', hexec, hreach⟩
  refine ⟨m', hreach, ?_⟩
  have hpos : ¬ got.length = 0 := fun h => hgot (length_eq_zero_iff.mp h)
  simp only [recvHeader, HeaderParser.recv, length_nil, Nat.sub_zero, hrecv, if_neg hpos,
    nil_append, hexec, hreach.hasError hok, hreach.isFinished hok, bne_iff_ne, decide_eq_true_eq]

/-- The positions at which the reads of a stream end, counted from `pos`. -/
def cuts (pos : Nat) : Socket → List Nat
  | [] => []
  | chunk :: chunks => (pos + chunk.length) :: cuts (pos + chunk.length) chunks

lemma le_of_mem_cuts {pos c : Nat} {chunks : Socket} (h : c ∈ cuts pos chunks) : pos ≤ c := by
  induction chunks generalizing pos with
  | nil => cases h
  | cons chunk chunks ih =>
    rcases mem_cons.mp h with rfl | h
    · exact Nat.le_add_right _ _
    · exact (Nat.le_add_right _ _).trans (ih h)

/-- With the read that ends at `c` the request is given up: the buffer size is zero as an `int`, or
one of the tokens in front of `c` is in error. -/
def GivenUp (cfg : Config) (stream : Bytes) (ts : List Token) (d : CallbackData) (c : Nat) : Prop :=
  toInt32 cfg.bufferSize = 0 ∨ (deliverAll stream (ts.filter (·.stop < c)) d).error ≠ 0

instance (cfg : Config) (stream : Bytes) (ts : List Token) (d : CallbackData) (c : Nat) :
    Decidable (GivenUp cfg stream ts d c) := inferInstanceAs (Decidable (_ ∨ _))

/-- How the loop over the reads of a header section ends: with a null pointer on an error or a
buffer size that is zero as an `int`, else with nothing pending. -/
def HeaderRead (cfg : Config) (d : CallbackData) (rest : Socket)
    (out : Except StdException (Option (HttpRequestParser × Bytes × Socket))) : Prop :=
  if d.error ≠ 0 ∨ 0 = toInt32 cfg.bufferSize then out = .ok none
  else ∃ parser : HttpRequestParser, out = .ok (some (parser, [], rest)) ∧ parser.2 = d

lemma headerRead_ite {d d' : CallbackData} {rest : Socket}
    {out : Except StdException (Option (HttpRequestParser × Bytes × Socket))}
    (herror : d'.error ≠ 0 → d.error ≠ 0)
    (hout : d'.error = 0 → ¬ 0 = toInt32 cfg.bufferSize → HeaderRead cfg d rest out) :
    HeaderRead cfg d rest (if d'.error ≠ 0 then .ok none
      else if (([] : Bytes).length : Int) = toInt32 cfg.bufferSize then .ok none else out) := by
  by_cases herr : d'.error ≠ 0
  · rw [HeaderRead, if_pos (Or.inl (herror herr)), if_pos herr]
  rw [if_neg herr, length_nil, Nat.cast_zero]
  by_cases hzero : 0 = toInt32 cfg.bufferSize
  · rw [HeaderRead, if_pos (Or.inr hzero), if_pos hzero]
  · rw [if_neg hzero]
    exact hout (not_not.mp herr) hzero

/-- The tokens that end before `c` are all delivered first. -/
lemma deliverAll_filter_append {ts ts' : List Token} {c : Nat} (h : ∀ t ∈ ts, t.stop < c) :
    deliverAll stream ((ts ++ ts').filter (·.stop < c)) d =
      deliverAll stream (ts'.filter (·.stop < c)) (deliverAll stream ts d) := by
  have hall : ts.filter (·.stop < c) = ts :=
    filter_eq_self.mpr fun t ht => decide_eq_true (h t ht)
  rw [filter_append, hall, deliverAll_append]

lemma recvHeader_reads (hlen : stream.length < cfg.bufferSize) (hone : stream.length ≤ maxRwCount)
    (chunks rest : Socket) (hne : Segments.Proper chunks) {reads : Nat}
    (hreads : chunks.length ≤ reads)
    (hs : s.Sound) (hlive : s.Live) (hcs : m.1.cs = s.cs) (hu : m.1.uriRelaxed = u)
    (hwin : chunks.flatten <+: stream.drop s.pos)
    (hfinal : httpParserFirstFinal ≤ (lex u chunks.flatten s).2.cs)
    (hpos : (lex u chunks.flatten s).2.pos = s.pos + chunks.flatten.length)
    (hstart : ∀ t ∈ (lex u chunks.flatten s).1, ¬ t.CutBy s.pos)
    (huncut : ∀ c ∈ cuts s.pos chunks, ∀ t ∈ (lex u chunks.flatten s).1, t.CutBy c →
      GivenUp cfg stream (lex u chunks.flatten s).1 m.2 c) :
    HeaderRead cfg (deliverAll stream (lex u chunks.flatten s).1 m.2) rest
      (recvHeader cfg reads m [] (chunks ++ rest)) := by
  induction chunks generalizing reads s m with
  | nil => exact absurd hfinal (not_le.mpr hlive.2)
  | cons chunk chunks ih =>
    cases reads with
    | zero => cases hreads
    | succ reads =>
    subst hu
    have hchunk : chunk ≠ [] := hne chunk (mem_cons_self ..)
    rw [flatten_cons] at hwin hfinal hpos hstart huncut ⊢
    have hchunkLen : chunk.length ≤ stream.length := by
      have hle := hwin.length_le
      rw [length_append, length_drop] at hle
      omega
    have hbase : ∀ t ∈ (lex m.1.uriRelaxed chunk s).1, s.pos ≤ t.start := by
      intro t ht
      have hstop := (lex_stop chunk hs ht).1
      have hcut := hstart t (mem_lex_append _ hlive ht)
      exact not_lt.mp fun hlt => hcut ⟨hlt, hstop⟩
    have hread := recvHeader_read
      (Socket.recv_segment (hchunkLen.trans hlen.le) (hchunkLen.trans hone) (chunks ++ rest))
      hchunk (hchunkLen.trans hone) ((prefix_append chunk _).trans hwin) hs hcs
    by_cases hmore : chunks = []
    · -- the last read: the automaton stops at its last byte
      subst hmore
      rw [flatten_nil, append_nil] at hfinal hpos ⊢
      have hok : (lex m.1.uriRelaxed chunk s).2.cs ≠ httpParserError :=
        (lt_of_lt_of_le (by decide) hfinal).ne'
      rcases hread hok hbase reads with ⟨m', hreach, hout⟩
      rw [nil_append] at hout
      rw [hpos, Nat.add_sub_cancel_left, drop_length] at hout
      rw [cons_append, nil_append, hout, ← hreach.data]
      apply headerRead_ite id
      intro herr hzero
      rw [if_pos hfinal, HeaderRead, if_neg (not_or.mpr ⟨not_not.mpr herr, hzero⟩)]
      exact ⟨m', rfl, rfl⟩
    -- a read before the last: the automaton runs on
    have hflat : chunks.flatten ≠ [] := fun hnil => hmore (hne.tail.eq_nil hnil)
    have hlive' := live_of_complete hlive hflat hpos
    have hpos' := lex_pos_of_live chunk hlive'
    rcases hread hlive'.1 hbase reads with ⟨m', hreach, hout⟩
    rw [hpos', Nat.add_sub_cancel_left, drop_length] at hout
    rw [lex_append chunk _ hlive'] at hfinal hpos hstart huncut ⊢
    rw [deliverAll_append, ← hreach.data, cons_append, hout]
    apply headerRead_ite (deliverAll_error _)
    intro herr hzero
    rw [if_neg (not_le.mpr hlive'.2)]
    -- the tokens of this read are those that end before it does
    have hbefore : ∀ t ∈ (lex m.1.uriRelaxed chunk s).1, t.stop < s.pos + chunk.length :=
      fun t ht => (lex_stop chunk hs ht).2.1
    have hbehind : ∀ t ∈ (lex m.1.uriRelaxed chunks.flatten (lex m.1.uriRelaxed chunk s).2).1,
        s.pos + chunk.length ≤ t.stop := fun t ht => hpos' ▸ (lex_stop _ (hs.lex chunk) ht).1
    apply ih hne.tail (Nat.le_of_succ_le_succ hreads) (hs.lex chunk) hlive' hreach.cs
      hreach.uriRelaxed
    · rcases hwin with ⟨post, hpost⟩
      refine ⟨post, ?_⟩
      rw [hpos', ← drop_drop, ← hpost, append_assoc, drop_left]
    · exact hfinal
    · rw [hpos, hpos', length_append, Nat.add_assoc]
    · -- a token cut here would have been given up, and the loop goes on
      rw [hpos']
      intro t ht hcut
      rcases huncut _ (mem_cons_self ..) t (mem_append_right _ ht) hcut with hsize | herror
      · exact hzero hsize.symm
      have hnone : (lex m.1.uriRelaxed chunks.flatten (lex m.1.uriRelaxed chunk s).2).1.filter
          (·.stop < s.pos + chunk.length) = [] :=
        filter_eq_nil_iff.mpr fun t ht => by simpa using hbehind t ht
      rw [deliverAll_filter_append hbefore, hnone, ← hreach.data] at herror
      exact herror herr
    · rw [hpos']
      intro c hc t ht hcut
      have hgiven := huncut c (mem_cons_of_mem _ hc) t (mem_append_right _ ht) hcut
      rwa [GivenUp,
        deliverAll_filter_append fun t ht => (hbefore t ht).trans_le (le_of_mem_cuts hc),
        ← hreach.data] at hgiven

lemma Complete.ne_nil (h : Complete u stream) : stream ≠ [] := by
  rintro rfl
  exact absurd h.1 (by cases u <;> decide)

lemma Complete.not_cutBy_length (_ : Complete u stream) :
    ∀ t ∈ tokens u stream, ¬ t.CutBy stream.length := by
  intro t ht hcut
  have hstop := (lex_stop stream Lexer.sound_start ht).2.1
  rw [Lexer.start_pos, Nat.zero_add] at hstop
  exact absurd hcut.2 (not_le.mpr hstop)

lemma recvBody_congr (h : m.2 = m'.2) (pending : Bytes) (sock : Socket) :
    recvBody cfg m pending sock = recvBody cfg m' pending sock := by
  rcases m with ⟨parser, d⟩
  rcases m' with ⟨parser', d'⟩
  cases h
  rfl

lemma recvRequest_of_headerRead {memory : HttpParser} {sock rest : Socket}
    {d : CallbackData} (h : HeaderRead cfg d rest
      (recvHeader cfg (sock.unread + 1) (.new memory) [] sock)) :
    recvRequest cfg memory sock =
      if d.error ≠ 0 ∨ 0 = toInt32 cfg.bufferSize then .ok none
      else recvBody cfg (memory, d) [] rest := by
  unfold HeaderRead at h
  split at h
  · next herr => rw [recvRequest, h, if_pos herr]
  next herr =>
    rcases h with ⟨parser, hout, rfl⟩
    rw [recvRequest, hout, if_neg herr]
    exact recvBody_congr rfl [] rest

lemma headerRead_of_uncut (memory : HttpParser)
    {chunks : Socket} (rest : Socket) (hlen : stream.length < cfg.bufferSize)
    (hone : stream.length ≤ maxRwCount) (hcomplete : Complete memory.uriRelaxed stream)
    (hflat : chunks.flatten = stream) (hne : Segments.Proper chunks)
    (huncut : ∀ c ∈ cuts 0 chunks, ∀ t ∈ tokens memory.uriRelaxed stream, t.CutBy c →
      GivenUp cfg stream (tokens memory.uriRelaxed stream) (HttpRequestParser.new memory).2 c) :
    HeaderRead cfg
      (deliverAll stream (tokens memory.uriRelaxed stream) (HttpRequestParser.new memory).2) rest
      (recvHeader cfg (Socket.unread (chunks ++ rest) + 1) (.new memory) [] (chunks ++ rest)) := by
  subst hflat
  have hreads : chunks.length ≤ Socket.unread (chunks ++ rest) + 1 := by
    have hle := Segments.Proper.length_le hne
    rw [Socket.unread, flatten_append, length_append]
    omega
  refine recvHeader_reads hlen hone chunks rest hne hreads Lexer.sound_start (by decide) rfl rfl
    (prefix_rfl) hcomplete.1 ?_ ?_ ?_
  · rw [hcomplete.2]
    exact (Nat.zero_add _).symm
  · exact fun t _ hcut => absurd hcut.1 (Nat.not_lt_zero _)
  · exact huncut

/-- Reads that cut no token, unless the request is given up at the cut, give the same result as one
read. -/
theorem recvRequest_split (cfg : Config) (memory : HttpParser) (stream : Bytes)
    (chunks rest : Socket) (hlen : stream.length < cfg.bufferSize)
    (hone : stream.length ≤ maxRwCount) (hcomplete : Complete memory.uriRelaxed stream)
    (hflat : chunks.flatten = stream) (hne : Segments.Proper chunks)
    (huncut : ∀ c ∈ cuts 0 chunks, ∀ t ∈ tokens memory.uriRelaxed stream, t.CutBy c →
      GivenUp cfg stream (tokens memory.uriRelaxed stream) (HttpRequestParser.new memory).2 c) :
    recvRequest cfg memory (chunks ++ rest) = recvRequest cfg memory (stream :: rest) := by
  have hsplit := recvRequest_of_headerRead
    (headerRead_of_uncut memory rest hlen hone hcomplete hflat hne huncut)
  have hwhole := recvRequest_of_headerRead
    (headerRead_of_uncut memory rest hlen hone hcomplete
      (flatten_singleton : [stream].flatten = stream)
      (by simpa [Segments.Proper] using hcomplete.ne_nil)
      (fun c hc t ht hcut => by
        obtain rfl : c = stream.length := by simpa [cuts] using hc
        exact absurd hcut (hcomplete.not_cutBy_length t ht)))
  rw [hsplit, ← singleton_append, hwhole]

def smallConfig : Config := ⟨64, fun _ => none⟩

/-- Cuts between the tokens, and a cut in a header after an unknown method. -/
theorem recvRequest_split_four_reads :
    recvRequest smallConfig zeroMemory
        [ascii "GET ", ascii "/a?b=1 ", ascii "HTTP/1.1\r\n", ascii "A: b\r\n\r\n"] =
      recvRequest smallConfig zeroMemory [ascii "GET /a?b=1 HTTP/1.1\r\nA: b\r\n\r\n"] ∧
    recvRequest smallConfig zeroMemory [ascii "XYZ / HTTP/1.1\r\nHo", ascii "st: a\r\n\r\n"] =
      recvRequest smallConfig zeroMemory [ascii "XYZ / HTTP/1.1\r\nHost: a\r\n\r\n"] :=
  ⟨recvRequest_split smallConfig zeroMemory (ascii "GET /a?b=1 HTTP/1.1\r\nA: b\r\n\r\n")
      [ascii "GET ", ascii "/a?b=1 ", ascii "HTTP/1.1\r\n", ascii "A: b\r\n\r\n"] []
      (by decide) (by decide) (by decide +kernel) (by decide +kernel) (by decide +kernel)
      (by decide +kernel),
    recvRequest_split smallConfig zeroMemory (ascii "XYZ / HTTP/1.1\r\nHost: a\r\n\r\n")
      [ascii "XYZ / HTTP/1.1\r\nHo", ascii "st: a\r\n\r\n"] []
      (by decide) (by decide) (by decide +kernel) (by decide +kernel) (by decide +kernel)
      (by decide +kernel)⟩

/-- A cut in a token can go unnoticed: no bytes of the version are left to compare, and any
text of no length is `HTTP/1.1`. -/
example :
    recvRequest smallConfig zeroMemory [ascii "GET / HTTP/1.1", ascii "\r\n\r\n"] =
      recvRequest smallConfig zeroMemory [ascii "GET / HTTP/1.1\r\n\r\n"] := by
  decide +kernel

/-- A cut inside the method: the rest of the name is no method, and the request is lost. -/
theorem recvRequest_split_method :
    Complete zeroMemory.uriRelaxed (ascii "GET / HTTP/1.1\r\n\r\n") ∧
      recvRequest smallConfig zeroMemory [ascii "GET / HTTP/1.1\r\n\r\n"] =
        .ok (some ⟨HttpRequest.default, [], []⟩) ∧
      recvRequest smallConfig zeroMemory [ascii "GE", ascii "T / HTTP/1.1\r\n\r\n"] = .ok none := by
  decide +kernel

end Yuyu.Http
