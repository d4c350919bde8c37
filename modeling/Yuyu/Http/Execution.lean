import Yuyu.Http.Tokens

/-!
# The parser delivers the tokens of the stream

One call of `http_parser_execute` sees a window of the byte stream.  Its registers are offsets
into that window, so it hands out the right bytes exactly for tokens that begin inside the window.
-/

namespace Yuyu.Http

open List
open Automaton (Act delta httpParserError)

lemma len_eq {i p : Nat} (hi : i ≤ p) (hp : p ≤ stringMaxSize) : len i p = p - i := by
  apply Foundation.sub64_eq _ hi
  exact lt_of_le_of_lt hp (by decide)

section Window

variable {stream buffer : Bytes} {b : Nat}

lemma take_drop_window (hwin : buffer <+: stream.drop b) {i j : Nat} (hij : i ≤ j)
    (hj : j ≤ buffer.length) : (buffer.drop i).take (j - i) = slice stream (b + i) (b + j) := by
  rcases hwin with ⟨post, hpost⟩
  have hlen : j - i ≤ (buffer.drop i).length := by rw [length_drop]; omega
  have hdiff : b + j - (b + i) = j - i := by omega
  rw [slice, ← drop_drop, ← hpost, drop_append_of_le_length (hij.trans hj), hdiff,
    take_append_of_le_length hlen]

lemma stdString_window (hwin : buffer <+: stream.drop b) {i j : Nat} (hij : i ≤ j)
    (hj : j ≤ buffer.length) (hmax : buffer.length ≤ stringMaxSize) :
    stdString (buffer.drop i) (j - i) = .ok (slice stream (b + i) (b + j)) := by
  have hle : j - i ≤ stringMaxSize := by omega
  rw [stdString, if_pos hle, take_drop_window hwin hij hj]

lemma isPrefixOf_append_space {name : Bytes} (hname : (32 : UInt8) ∉ name) (t rest : Bytes) :
    name.isPrefixOf (t ++ 32 :: rest) = name.isPrefixOf t := by
  induction name generalizing t with
  | nil => simp
  | cons x name ih =>
    rw [mem_cons, not_or] at hname
    cases t with
    | nil =>
      have hx : (x == 32) = false := beq_eq_false_iff_ne.mpr (Ne.symm hname.1)
      simp [List.isPrefixOf, hx]
    | cons y t => simp [List.isPrefixOf, ih hname.2 t]

lemma charsToHttpMethod_append_space (t rest : Bytes) :
    charsToHttpMethod (t ++ 32 :: rest) = charsToHttpMethod t := by
  have hnames : ∀ entry ∈ httpMethodMap, (32 : UInt8) ∉ ascii entry.2 := by decide +kernel
  have hfind : (httpMethodMap.find? fun entry => (ascii entry.2).isPrefixOf (t ++ 32 :: rest)) =
      httpMethodMap.find? fun entry => (ascii entry.2).isPrefixOf t := by
    rw [← List.head?_filter, ← List.head?_filter]
    congr 1
    apply filter_congr
    intro entry hentry
    exact isPrefixOf_append_space (hnames entry hentry) t rest
  rw [charsToHttpMethod, charsToHttpMethod, hfind]

lemma strncmpEq_take (a s : Bytes) (n : Nat) : strncmpEq (a.take n) s n = strncmpEq a s n := by
  induction n generalizing a s with
  | zero => simp [strncmpEq]
  | succ n ih =>
    cases a with
    | nil => simp
    | cons x a =>
      cases s with
      | nil => simp [strncmpEq]
      | cons y s => simp [strncmpEq, ih]

lemma onRequestVersion_take (a : Bytes) (n : Nat) (d : CallbackData) :
    onRequestVersion (a.take n) n d = onRequestVersion a n d := by
  rw [onRequestVersion, onRequestVersion, strncmpEq_take, strncmpEq_take]

end Window

/-! ## One action -/

/-- The registers of a call with base `b` hold the recorded positions, as far as
these lie in its window. -/
structure Tracks (b : Nat) (k : Marks) (parser : HttpParser) : Prop where
  mark : b ≤ k.mark → b + parser.mark = k.mark
  fieldStart : b ≤ k.fieldStart → b + parser.fieldStart = k.fieldStart
  fieldLen : b ≤ k.fieldStart → ∀ e, k.fieldEnd = some e → k.fieldStart + parser.fieldLen = e
  queryStart : ∀ q, k.queryStart = some q → b ≤ q → b + parser.queryStart = q

lemma tracks_enter {s : Lexer} (hs : s.Sound) (parser : HttpParser) :
    Tracks s.pos s.marks parser.enter where
  mark h := by
    have := hs.within.mark
    simp only [HttpParser.enter]
    omega
  fieldStart h := by
    have := hs.within.fieldStart
    simp only [HttpParser.enter]
    omega
  fieldLen h e he := by
    have := hs.within.fieldEnd e he
    simp only [HttpParser.enter]
    omega
  queryStart q hq h := absurd (hs.query q hq) (not_lt.mpr h)

/-- The machine `m'` is `m` after the given tokens, at the given positions. -/
structure Follows (stream : Bytes) (b : Nat) (m : HttpRequestParser) (ts : List Token)
    (k : Marks) (m' : HttpRequestParser) : Prop where
  tracks : Tracks b k m'.1
  data : m'.2 = deliverAll stream ts m.2
  cs : m'.1.cs = m.1.cs
  uriRelaxed : m'.1.uriRelaxed = m.1.uriRelaxed

section Actions

variable {stream buffer : Bytes} {b p : Nat} {m : HttpRequestParser} {k : Marks} {r : Ready}

lemma Follows.registers {parser : HttpParser} {k' : Marks} (htracks : Tracks b k' parser)
    (hcs : parser.cs = m.1.cs) (hrel : parser.uriRelaxed = m.1.uriRelaxed) :
    Follows stream b m [] k' (parser, m.2) := ⟨htracks, rfl, hcs, hrel⟩

lemma Follows.report {t : Token} {d : CallbackData} (htracks : Tracks b k m.1)
    (hd : d = deliver stream m.2 t) : Follows stream b m [t] k (m.1, d) := ⟨htracks, hd, rfl, rfl⟩

lemma Tracks.mark_le (ht : Tracks b k m.1) (hk : k.Within (b + p)) (hb : b ≤ k.mark) :
    m.1.mark ≤ p := by
  have h1 := ht.mark hb
  have h2 := hk.mark
  omega

lemma onRequestMethod_window (hwin : buffer <+: stream.drop b) (hp : p < buffer.length)
    (ht : Tracks b k m.1) (hk : k.Within (b + p)) (hb : b ≤ k.mark)
    (hspace : buffer[p]? = some 32) (d : CallbackData) :
    onRequestMethod (buffer.drop m.1.mark) d = deliver stream d (.method k.mark (b + p)) := by
  have hle := ht.mark_le hk hb
  have hsplit : buffer.drop m.1.mark =
      slice stream k.mark (b + p) ++ 32 :: buffer.drop (p + 1) := by
    have hrest : buffer.drop p = 32 :: buffer.drop (p + 1) := by
      rw [List.getElem?_eq_getElem hp, Option.some.injEq] at hspace
      rw [drop_eq_getElem_cons hp, hspace]
    rw [← ht.mark hb, ← take_drop_window hwin hle hp.le, ← hrest]
    have hdrop : buffer.drop p = (buffer.drop m.1.mark).drop (p - m.1.mark) := by
      rw [drop_drop, Nat.add_sub_cancel' hle]
    rw [hdrop, take_append_drop]
  rw [deliver, onRequestMethod, onRequestMethod, hsplit, charsToHttpMethod_append_space]

section Windows

variable (hwin : buffer <+: stream.drop b) (hp : p < buffer.length)
  (hmax : buffer.length ≤ stringMaxSize) (ht : Tracks b k m.1) (hk : k.Within (b + p))

include hwin hp hmax ht hk

lemma stdString_mark (hb : b ≤ k.mark) :
    stdString (buffer.drop m.1.mark) (len m.1.mark p) = .ok (slice stream k.mark (b + p)) := by
  have hle := ht.mark_le hk hb
  rw [len_eq hle (by omega), stdString_window hwin hle hp.le hmax, ht.mark hb]

lemma onRequestText_mark (hb : b ≤ k.mark) (store : Bytes → HttpRequest → HttpRequest)
    (d : CallbackData) :
    onRequestText store (buffer.drop m.1.mark) (len m.1.mark p) d =
      .ok { d with data := store (slice stream k.mark (b + p)) d.data } := by
  rw [onRequestText, stdString_mark hwin hp hmax ht hk hb]
  rfl

lemma onRequestQuery_window {q : Nat} (hq : k.queryStart = some q) (hb : b ≤ q) (d : CallbackData) :
    onRequestQuery (buffer.drop m.1.queryStart) (len m.1.queryStart p) d =
      .ok (deliver stream d (.query q (b + p))) := by
  have hstart := ht.queryStart q hq hb
  have hle : m.1.queryStart ≤ p := by
    have := hk.queryStart q hq
    omega
  rw [onRequestQuery, onRequestText, len_eq hle (by omega), stdString_window hwin hle hp.le hmax,
    hstart]
  rfl

lemma onRequestHttpField_window {e : Nat} (he : k.fieldEnd = some e) (hb : b ≤ k.fieldStart)
    (hv : k.fieldStart ≤ k.mark) (d : CallbackData) :
    onRequestHttpField (buffer.drop m.1.fieldStart) m.1.fieldLen (buffer.drop m.1.mark)
        (len m.1.mark p) d = .ok (deliver stream d (.header k.fieldStart e k.mark (b + p))) := by
  have hstart := ht.fieldStart hb
  have hlen := ht.fieldLen hb e he
  have hend := hk.fieldEnd e he
  have hkey : stdString (buffer.drop m.1.fieldStart) m.1.fieldLen =
      .ok (slice stream k.fieldStart e) := by
    have hwindow := stdString_window hwin (Nat.le_add_right m.1.fieldStart m.1.fieldLen)
      (by omega) hmax
    rwa [Nat.add_sub_cancel_left, ← Nat.add_assoc, hstart, hlen] at hwindow
  rw [onRequestHttpField, hkey, stdString_mark hwin hp hmax ht hk (hb.trans hv)]
  have hzero : m.1.fieldLen = e - k.fieldStart := by omega
  simp only [deliver, hzero]
  split <;> rfl

lemma onRequestVersion_window (hb : b ≤ k.mark) (d : CallbackData) :
    onRequestVersion (buffer.drop m.1.mark) (len m.1.mark p) d =
      deliver stream d (.version k.mark (b + p)) := by
  have hle := ht.mark_le hk hb
  have hmark := ht.mark hb
  have hdiff : b + p - k.mark = p - m.1.mark := by omega
  rw [len_eq hle (by omega), ← onRequestVersion_take, take_drop_window hwin hle hp.le, hmark,
    deliver, hdiff]

lemma runAct_refines (hr : r.Holds k) (a : Act) (hallow : r.allows a = true)
    (hspace : a = .requestMethod → buffer[p]? = some 32)
    (huncut : ∀ t ∈ (k.token (b + p) a).toList, b ≤ t.start) :
    ∃ m', runAct onCallback buffer p m a = .ok m' ∧
      Follows stream b m (k.token (b + p) a).toList (k.note (b + p) a) m' := by
  cases a with
  | mark => exact ⟨_, rfl, .registers { ht with mark := fun _ => rfl } rfl rfl⟩
  | startField =>
    refine ⟨_, rfl, .registers { ht with fieldStart := fun _ => rfl, fieldLen := ?_ } rfl rfl⟩
    simp [Marks.note]
  | writeField =>
    refine ⟨_, rfl, .registers { ht with fieldLen := ?_ } rfl rfl⟩
    simp only [Marks.note, Option.some.injEq]
    rintro hb e rfl
    have hstart := ht.fieldStart hb
    have hle := hk.fieldStart
    rw [len_eq (by omega) (by omega)]
    omega
  | startQuery =>
    refine ⟨_, rfl, .registers { ht with queryStart := ?_ } rfl rfl⟩
    simp only [Marks.note, Option.some.injEq]
    rintro q rfl _
    rfl
  | writeValue =>
    rw [Ready.allows, Bool.and_eq_true] at hallow
    rcases Option.isSome_iff_exists.mp (hr.field hallow.1) with ⟨e, he⟩
    simp only [Marks.token, he, Option.map_some, Option.toList_some, mem_singleton,
      forall_eq] at huncut ⊢
    refine ⟨_, ?_, .report ht rfl⟩
    simp only [runAct, report, onCallback]
    rw [onRequestHttpField_window hwin hp hmax ht hk he huncut (hr.value hallow.2)]
    rfl
  | requestMethod =>
    have hb : b ≤ k.mark := huncut _ (mem_singleton_self _)
    refine ⟨_, ?_, .report ht rfl⟩
    simp only [runAct, report, onCallback]
    rw [onRequestMethod_window hwin hp ht hk hb (hspace rfl)]
    rfl
  | fragment =>
    have hb : b ≤ k.mark := huncut _ (mem_singleton_self _)
    refine ⟨_, ?_, .report ht rfl⟩
    simp only [runAct, report, onCallback, onRequestFragment]
    rw [onRequestText_mark hwin hp hmax ht hk hb]
    rfl
  | requestPath =>
    have hb : b ≤ k.mark := huncut _ (mem_singleton_self _)
    refine ⟨_, ?_, .report ht rfl⟩
    simp only [runAct, report, onCallback, onRequestPath]
    rw [onRequestText_mark hwin hp hmax ht hk hb]
    rfl
  | httpVersion =>
    have hb : b ≤ k.mark := huncut _ (mem_singleton_self _)
    refine ⟨_, ?_, .report ht rfl⟩
    simp only [runAct, report, onCallback]
    rw [onRequestVersion_window hwin hp hmax ht hk hb]
    rfl
  | queryString =>
    rcases Option.isSome_iff_exists.mp (hr.query hallow) with ⟨q, hq⟩
    simp only [Marks.token, hq, Option.map_some, Option.toList_some, mem_singleton,
      forall_eq] at huncut ⊢
    refine ⟨_, ?_, .report ht rfl⟩
    simp only [runAct, report, onCallback]
    rw [onRequestQuery_window hwin hp hmax ht hk hq huncut]
    rfl
  | done =>
    refine ⟨m, ?_, .registers ht rfl rfl⟩
    simp only [runAct, report, onCallback]
    split <;> rfl
  | requestUri => exact ⟨m, rfl, .registers ht rfl rfl⟩
  | xml | json => exact ⟨_, rfl, .registers { ht with } rfl rfl⟩

end Windows

lemma runActs_refines (hwin : buffer <+: stream.drop b) (hp : p < buffer.length)
    (hmax : buffer.length ≤ stringMaxSize) (acts : List Act)
    (ht : Tracks b k m.1) (hk : k.Within (b + p)) (hr : r.Holds k)
    (hallow : r.allowsAll acts = true) (hspace : .requestMethod ∈ acts → buffer[p]? = some 32)
    (huncut : ∀ t ∈ (lexActs (b + p) acts k).1, b ≤ t.start) :
    ∃ m', runActs onCallback buffer p acts m = .ok m' ∧
      Follows stream b m (lexActs (b + p) acts k).1 (lexActs (b + p) acts k).2 m' := by
  induction acts generalizing m k r with
  | nil => exact ⟨m, rfl, .registers ht rfl rfl⟩
  | cons a acts ih =>
    rw [Ready.allowsAll, Bool.and_eq_true] at hallow
    simp only [lexActs, forall_mem_append] at huncut
    rcases runAct_refines hwin hp hmax ht hk hr a hallow.1 (fun h => hspace (by simp [h]))
      huncut.1 with ⟨m₁, hrun₁, hfol₁⟩
    rcases ih hfol₁.tracks (hk.note a) (hr.note hk a) hallow.2
      (fun h => hspace (mem_cons_of_mem _ h)) huncut.2 with ⟨m₂, hrun₂, hfol₂⟩
    refine ⟨m₂, ?_, hfol₂.tracks, ?_, hfol₂.cs.trans hfol₁.cs,
      hfol₂.uriRelaxed.trans hfol₁.uriRelaxed⟩
    · rw [runActs, foldlM_cons, hrun₁]
      exact hrun₂
    · rw [hfol₂.data, hfol₁.data, lexActs, deliverAll_append]

end Actions

section Calls

variable {stream buffer : Bytes} {b : Nat}

/-- The call ends where the lexer ends: same state, registers at the same positions, and
the request holds the tokens. -/
structure Reaches (stream : Bytes) (b : Nat) (m : HttpRequestParser) (ts : List Token)
    (s : Lexer) (m' : HttpRequestParser) : Prop where
  tracks : Tracks b s.marks m'.1
  data : m'.2 = deliverAll stream ts m.2
  cs : m'.1.cs = s.cs
  uriRelaxed : m'.1.uriRelaxed = m.1.uriRelaxed

lemma Follows.reaches {m m' : HttpRequestParser} {ts : List Token} {k : Marks}
    (h : Follows stream b m ts k m') (target pos : Nat) :
    Reaches stream b m ts ⟨target, k, pos⟩ (setState target m') where
  tracks := { h.tracks with }
  data := h.data
  cs := rfl
  uriRelaxed := h.uriRelaxed

/-- Over a window in which every token that ends also begins, the registers, the state and the
request follow the lexer. -/
theorem exec_refines (hwin : buffer <+: stream.drop b) (hmax : buffer.length ≤ stringMaxSize)
    (rest : Bytes) {p : Nat} {m : HttpRequestParser} {s : Lexer} (hrest : buffer.drop p = rest)
    (hpos : s.pos = b + p) (hcs : m.1.cs = s.cs) (hs : s.Sound) (ht : Tracks b s.marks m.1)
    (huncut : ∀ t ∈ (lex m.1.uriRelaxed rest s).1, b ≤ t.start) :
    ∃ m' q, exec onCallback buffer p rest m = .ok (m', q) ∧
      (lex m.1.uriRelaxed rest s).2.pos = b + q ∧
      Reaches stream b m (lex m.1.uriRelaxed rest s).1 (lex m.1.uriRelaxed rest s).2 m' := by
  induction rest generalizing p m s with
  | nil => exact ⟨m, p, rfl, hpos, ht, rfl, hcs, rfl⟩
  | cons c rest ih =>
    have hp : p < buffer.length := by
      by_contra hge
      rw [drop_eq_nil_of_le (not_lt.mp hge)] at hrest
      cases hrest
    have hcons := drop_eq_getElem_cons hp
    rw [hrest, cons.injEq] at hcons
    rcases hdelta : delta m.1.uriRelaxed s.cs c with _ | ⟨acts, target⟩
    · refine ⟨setState httpParserError m, p, ?_, ?_⟩
      · simp only [exec, hcs, hdelta]
      · rw [lex_error hdelta]
        exact ⟨hpos, { ht with }, rfl, rfl, rfl⟩
    rcases Automaton.delta_row hdelta with ⟨e, hmem, _, hacts, _⟩
    have hallow := (Ready.edge_ready hmem).1
    rw [hacts] at hallow
    have hspace : .requestMethod ∈ acts → buffer[p]? = some 32 := by
      intro hmethod
      rw [List.getElem?_eq_getElem hp, ← hcons.1, Automaton.requestMethod_on_space hdelta hmethod]
    have hstep : ∀ t ∈ (lexActs s.pos acts s.marks).1, b ≤ t.start := by
      intro t hmem
      by_cases hdone : .done ∈ acts
      · rw [lex_done hdelta hdone] at huncut
        exact huncut t hmem
      · rw [lex_step hdelta hdone] at huncut
        exact huncut t (mem_append_left _ hmem)
    rw [hpos] at hstep
    rcases runActs_refines hwin hp hmax acts ht (hpos ▸ hs.within) hs.ready hallow hspace
      hstep with ⟨m₁, hrun, hfol⟩
    rw [← hpos] at hfol
    by_cases hdone : .done ∈ acts
    · refine ⟨setState target m₁, p + 1, ?_, ?_⟩
      · simp only [exec, hcs, hdelta, hrun, if_pos hdone]
      rw [lex_done hdelta hdone]
      refine ⟨?_, hfol.reaches target _⟩
      simp only [hpos, Nat.add_assoc]
    rw [lex_step hdelta hdone] at huncut ⊢
    have hrel : (setState target m₁).1.uriRelaxed = m.1.uriRelaxed := hfol.uriRelaxed
    rcases @ih (p + 1) (setState target m₁) ⟨target, (lexActs s.pos acts s.marks).2, s.pos + 1⟩
        hcons.2.symm (by simp only [hpos, Nat.add_assoc]) rfl (hs.step hdelta)
        (hfol.reaches target 0).tracks
        (by
          rw [hrel]
          exact fun t hmem => huncut t (mem_append_right _ hmem))
      with ⟨m₂, q, hrun₂, hq, hreach⟩
    rw [hrel] at hq hreach
    refine ⟨m₂, q, ?_, hq, hreach.tracks, ?_, hreach.cs, hreach.uriRelaxed.trans hrel⟩
    · simp only [exec, hcs, hdelta, hrun, if_neg hdone, hrun₂]
    · rw [hreach.data, deliverAll_append, ← hfol.data]
      rfl

/-- The same for one call of `HttpRequestParser::execute`. -/
theorem execute_refines {m : HttpRequestParser} {s : Lexer} (hwin : buffer <+: stream.drop s.pos)
    (hne : buffer ≠ []) (hmax : buffer.length ≤ stringMaxSize) (hcs : m.1.cs = s.cs)
    (hs : s.Sound) (huncut : ∀ t ∈ (lex m.1.uriRelaxed buffer s).1, s.pos ≤ t.start) :
    ∃ m', m.execute buffer =
        .ok (m', buffer.drop ((lex m.1.uriRelaxed buffer s).2.pos - s.pos)) ∧
      Reaches stream s.pos m (lex m.1.uriRelaxed buffer s).1
        (lex m.1.uriRelaxed buffer s).2 m' := by
  rcases exec_refines (p := 0) (m := (m.1.enter, m.2)) hwin hmax buffer rfl rfl hcs hs
    (tracks_enter hs m.1) huncut with ⟨m', q, hexec, hq, hreach⟩
  have hq' : (lex m.1.uriRelaxed buffer s).2.pos - s.pos = q := Nat.sub_eq_of_eq_add' hq
  refine ⟨m', ?_, hreach.tracks, hreach.data, hreach.cs, hreach.uriRelaxed⟩
  have hlen : ¬ buffer.length = 0 := fun h => hne (length_eq_zero_iff.mp h)
  simp only [HttpRequestParser.execute, httpParserExecute, if_neg hlen, hexec, hq']

end Calls

end Yuyu.Http
