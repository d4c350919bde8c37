import Yuyu.Foundation.ChunkRun
import Yuyu.Http.Dump
import Yuyu.Http.SplitInvariance

/-!
# Requests printed and parsed again

The output of `HttpRequest::dump` is parsed in one call, the body is taken from what is left, and
`init` sets the close flag. `M-SEARCH` has a hyphen, which the grammar does not allow in a method.
-/

namespace Yuyu.Http

open Automaton (Act ByteClass delta takes delta_of_takes httpParserStart httpParserFirstFinal
  httpParserError)
open Foundation List
open Foundation.ChunkRun

/-- Letters, digits, hyphen, point, underscore and tilde. -/
def unreserved : ByteClass := Automaton.alpha ++ Automaton.digit ++ [(45, 46), (95, 95), (126, 126)]

/-- `sub_delims`, and `more_delims`. -/
def subDelims (uriRelaxed : Bool) : ByteClass :=
  [(33, 33), (36, 36), (38, 44), (59, 59), (61, 61)] ++
    if uriRelaxed then Automaton.moreDelims else []

/-- `pchar` without percent-encoded bytes; bytes beyond ASCII are allowed. -/
def pathChar (uriRelaxed : Bool) : ByteClass :=
  [(128, 255)] ++ unreserved ++ subDelims uriRelaxed ++ [(58, 58), (64, 64)]

def isEncoded (cls : ByteClass) : Bytes → Bool
  | [] => true
  | 37 :: a :: b :: rest => Automaton.hex.has a && Automaton.hex.has b && isEncoded cls rest
  | c :: rest => cls.has c && isEncoded cls rest

def uriChar (uriRelaxed : Bool) : ByteClass := pathChar uriRelaxed ++ [(47, 47), (63, 63)]

def isUriText (uriRelaxed : Bool) : Bytes → Bool := isEncoded (uriChar uriRelaxed)

/-- A path that begins with a slash, as the generated code accepts it. -/
def isPath (uriRelaxed : Bool) : Bytes → Bool
  | 47 :: rest =>
    match glide (delta uriRelaxed) 33 rest with
    | some q => delta uriRelaxed q 32 == some ([.requestPath, .requestUri], 4)
    | none => false
  | _ => false

/-- The state `cs` reads encoded text and the states `one` and `two` the digits
behind a percent sign. -/
def encodedLoop (u : Bool) (cls : ByteClass) (cs one two : Nat) : Bool :=
  takes u cs cls ([], cs) && takes u cs [(37, 37)] ([], one) &&
    takes u one Automaton.hex ([], two) && takes u two Automaton.hex ([], cs)

/-- The state `first` begins the same text with some actions. -/
def encodedStart (u : Bool) (cls : ByteClass) (first : Nat) (acts : List Act) (cs one : Nat) :
    Bool := takes u first cls (acts, cs) && takes u first [(37, 37)] (acts, one)

section Targets

variable {u : Bool} {cls : ByteClass} {cs one two first : Nat}

lemma glide_encoded (hloop : encodedLoop u cls cs one two = true) {text : Bytes}
    (h : isEncoded cls text = true) : glide (delta u) cs text = some cs := by
  simp only [encodedLoop, Bool.and_eq_true] at hloop
  obtain ⟨⟨⟨hplain, hpercent⟩, hone⟩, htwo⟩ := hloop
  fun_induction isEncoded cls text with
  | case1 => rfl
  | case2 a b rest ih =>
    simp only [Bool.and_eq_true] at h
    rw [glide_cons (delta_of_takes hpercent rfl), glide_cons (delta_of_takes hone h.1.1),
      glide_cons (delta_of_takes htwo h.1.2)]
    exact ih h.2
  | case3 c rest _ ih =>
    simp only [Bool.and_eq_true] at h
    rw [glide_cons (delta_of_takes hplain h.1)]
    exact ih h.2

lemma isEncoded_head {x : UInt8} {xs : Bytes} (h : isEncoded cls (x :: xs) = true) :
    x = 37 ∨ cls.has x = true := by
  unfold isEncoded at h
  split at h
  · contradiction
  · next heq =>
      left
      exact (cons.inj heq).1
  next heq =>
    right
    rw [(cons.inj heq).1]
    exact (Bool.and_eq_true_iff.mp h).1

lemma glide_encoded_cons {cls' : ByteClass} {acts : List Act} {x : UInt8} {xs : Bytes}
    (hstart : encodedStart u cls' first acts cs one = true)
    (hloop : encodedLoop u cls cs one two = true) (h : isEncoded cls (x :: xs) = true)
    (hx : x = 37 ∨ cls.has x = true ∧ cls'.has x = true) :
    ∃ next, delta u first x = some (acts, next) ∧ glide (delta u) next xs = some cs := by
  obtain ⟨next, hstep, hglide⟩ := step_of_glide (glide_encoded hloop h)
  refine ⟨next, ?_, hglide⟩
  simp only [encodedStart, Bool.and_eq_true] at hstart
  simp only [encodedLoop, Bool.and_eq_true] at hloop
  rcases hx with rfl | ⟨hin, hin'⟩
  · rw [delta_of_takes hloop.1.1.2 rfl, Option.some.injEq, Prod.mk.injEq] at hstep
    rw [← hstep.2]
    exact delta_of_takes hstart.2 rfl
  rw [delta_of_takes hloop.1.1.1 hin, Option.some.injEq, Prod.mk.injEq] at hstep
  rw [← hstep.2]
  exact delta_of_takes hstart.1 hin'

end Targets

/-- What the lexer does with the rest of a stream: the request data, and where it
ends. -/
def lexRun (u : Bool) (stream rest : Bytes) (cs : Nat) (k : Marks) (p : Nat) (d : CallbackData) :
    CallbackData × Lexer :=
  let r := lex u rest ⟨cs, k, p⟩
  (deliverAll stream r.1 d, r.2)

abbrev Moves (u : Bool) (cs : Nat) (bytes : Bytes) (target : Nat)
    (f : CallbackData → CallbackData) : Prop :=
  Advances (lexRun u) (fun _ => True) cs bytes target f

section Pieces

variable {u : Bool} {stream : Bytes} {cs target : Nat} {c : UInt8} {acts : List Act}

lemma lexRun_step (h : delta u cs c = some (acts, target)) (hdone : .done ∉ acts) (rest : Bytes)
    (k : Marks) (p : Nat) (d : CallbackData) :
    lexRun u stream (c :: rest) cs k p d = lexRun u stream rest target (lexActs p acts k).2 (p + 1)
        (deliverAll stream (lexActs p acts k).1 d) := by
  simp only [lexRun, lex_step (s := ⟨cs, k, p⟩) h hdone, deliverAll_append]

lemma lexRun_glide {xs : Bytes} (h : glide (delta u) cs xs = some target) (rest : Bytes)
    (k : Marks) (p : Nat) (d : CallbackData) :
    lexRun u stream (xs ++ rest) cs k p d = lexRun u stream rest target k (p + xs.length) d := by
  induction xs generalizing cs p with
  | nil =>
    cases h
    rfl
  | cons x xs ih =>
    obtain ⟨next, hstep, hrest⟩ := step_of_glide h
    rw [cons_append, lexRun_step hstep (not_mem_nil), length_cons,
      Nat.add_comm xs.length, ← Nat.add_assoc]
    exact ih hrest (p + 1)

lemma slice_of_drop {i : Nat} {x rest : Bytes} (h : stream.drop i = x ++ rest) :
    slice stream i (i + x.length) = x := by
  rw [slice, h, Nat.add_sub_cancel_left, take_left]

lemma drop_of_drop {i : Nat} {x rest : Bytes} (h : stream.drop i = x ++ rest) :
    stream.drop (i + x.length) = rest := by
  rw [← drop_drop, h, drop_left]

lemma moves_token {a : Act} (tok : Nat → Nat → Token) {next last : Nat} {x : UInt8} {xs : Bytes}
    {f : CallbackData → CallbackData} (hfirst : delta u cs x = some ([a], next))
    (hrest : glide (delta u) next xs = some last) (hlast : delta u last c = some (acts, target))
    (hbegin : a ≠ .done) (hdone : .done ∉ acts) (hnone : ∀ P k, Marks.token P k a = none)
    (htok : ∀ P Q k, (lexActs Q acts (Marks.note P k a)).1 = [tok P Q])
    (hf : ∀ stream i d, slice stream i (i + (x :: xs).length) = x :: xs →
      deliver stream d (tok i (i + (x :: xs).length)) = f d) :
    Moves u cs (x :: xs ++ [c]) target f := by
  intro stream rest k p d _ hdrop
  have hacts : lexActs p [a] k = ([], k.note p a) := by simp [lexActs, hnone]
  have hlen : p + (x :: xs).length = p + 1 + xs.length := by
    rw [length_cons]
    omega
  have htext : deliver stream d (tok p (p + 1 + xs.length)) = f d := by
    rw [← hlen]
    rw [append_assoc] at hdrop
    exact hf stream p d (slice_of_drop hdrop)
  refine ⟨(lexActs (p + 1 + xs.length) acts (k.note p a)).2, ?_⟩
  rw [append_assoc, cons_append,
    lexRun_step hfirst (by simpa using Ne.symm hbegin), hacts, lexRun_glide hrest,
    singleton_append, lexRun_step hlast hdone, htok, length_append, ← Nat.add_assoc,
    hlen]
  exact congrArg _ htext

lemma moves_byte (h : delta u cs c = some ([], target)) : Moves u cs [c] target id := by
  intro stream rest k p d _ _
  exact ⟨k, lexRun_step h not_mem_nil rest k p d⟩

/-! ### The request line -/

def CallbackData.setMethod (m : HttpMethod) (d : CallbackData) : CallbackData :=
  { d with data := { d.data with method := m } }

def CallbackData.setPath (path : Bytes) (d : CallbackData) : CallbackData :=
  { d with data := { d.data with path := path } }

def CallbackData.setQuery (query : Bytes) (d : CallbackData) : CallbackData :=
  { d with data := { d.data with query := query } }

def CallbackData.setFragment (fragment : Bytes) (d : CallbackData) : CallbackData :=
  { d with data := { d.data with fragment := fragment } }

def CallbackData.setVersion (version : Nat) (d : CallbackData) : CallbackData :=
  { d with data := { d.data with version := version } }

def acceptsMethod (u : Bool) : Bytes → Bool
  | [] => false
  | x :: xs =>
    delta u httpParserStart x == some ([.mark], 2) &&
      match glide (delta u) 2 xs with
      | some last => delta u last 32 == some ([.requestMethod], 3)
      | none => false

lemma exists_methodName {m : HttpMethod} (hm : m ≠ .INVALID_METHOD) :
    ∃ name, (m, name) ∈ httpMethodMap ∧ httpMethodToString m = ascii name ∧
      charsToHttpMethod (ascii name) = m := by
  have htable : ∀ e ∈ httpMethodMap, httpMethodToString e.1 = ascii e.2 ∧
      charsToHttpMethod (ascii e.2) = e.1 := by decide
  have hmem : ∃ name, (m, name) ∈ httpMethodMap := by
    cases m with
    | INVALID_METHOD => exact absurd rfl hm
    | _ => simp [httpMethodMap]
  obtain ⟨name, hname⟩ := hmem
  exact ⟨name, hname, htable _ hname⟩

lemma moves_method {m : HttpMethod} (hm : m ≠ .INVALID_METHOD) (hsearch : m ≠ .MSEARCH) :
    Moves u httpParserStart (httpMethodToString m ++ [32]) 3 (CallbackData.setMethod m) := by
  have htable : ∀ e ∈ httpMethodMap, e.1 ≠ .MSEARCH → acceptsMethod u (ascii e.2) = true := by
    cases u <;> decide
  obtain ⟨name, hmem, htext, hchars⟩ := exists_methodName hm
  have haccept := htable _ hmem hsearch
  rw [htext]
  generalize ascii name = text at haccept hchars
  cases text with
  | nil => cases haccept
  | cons x xs =>
    rw [acceptsMethod, Bool.and_eq_true, beq_iff_eq] at haccept
    obtain ⟨hfirst, hrest⟩ := haccept
    split at hrest
    · next last hglide =>
        refine moves_token .method hfirst hglide (beq_iff_eq.mp hrest) (by decide)
          (by decide) (fun _ _ => rfl) (fun _ _ _ => rfl) fun stream i d htext => ?_
        rw [deliver, htext, onRequestMethod, hchars]
        exact if_neg hm
    · contradiction

lemma delta_pathEnd {q : Nat} (h : delta u q 32 = some ([.requestPath, .requestUri], 4)) :
    delta u q 35 = some ([.requestPath, .requestUri], 20) ∧
      delta u q 63 = some ([.requestPath], 29) := by
  have htable : ∀ r ∈ Automaton.rows,
      Automaton.transition u r 32 = some ([.requestPath, .requestUri], 4) →
        Automaton.transition u r 35 = some ([.requestPath, .requestUri], 20) ∧
          Automaton.transition u r 63 = some ([.requestPath], 29) := by
    cases u <;> decide +kernel
  obtain ⟨e, hmem, -⟩ := Automaton.delta_row h
  exact htable _ (fst_mem_of_mem_zipIdx (Automaton.mem_zipIdx_of_row hmem)) h

lemma moves_path {path : Bytes} (h : isPath u path = true) :
    Moves u 3 (path ++ [32]) 4 (CallbackData.setPath path) ∧
      Moves u 3 (path ++ [35]) 20 (CallbackData.setPath path) ∧
      Moves u 3 (path ++ [63]) 29 (CallbackData.setPath path) := by
  unfold isPath at h
  split at h
  · next rest =>
      split at h
      · next q hglide =>
          have hspace := beq_iff_eq.mp h
          obtain ⟨hfragment, hquery⟩ := delta_pathEnd hspace
          have hslash : delta u 3 47 = some ([.mark], 33) := by cases u <;> decide
          have hset : ∀ stream i d, slice stream i (i + (47 :: rest).length) = 47 :: rest →
              deliver stream d (.path i (i + (47 :: rest).length)) = d.setPath (47 :: rest) := by
            intro stream i d htext
            rw [deliver, htext]
            rfl
          refine ⟨?_, ?_, ?_⟩
          · exact moves_token .path hslash hglide hspace (by decide) (by decide)
              (fun _ _ => rfl) (fun _ _ _ => rfl) hset
          · exact moves_token .path hslash hglide hfragment (by decide) (by decide)
              (fun _ _ => rfl) (fun _ _ _ => rfl) hset
          · exact moves_token .path hslash hglide hquery (by decide) (by decide)
              (fun _ _ => rfl) (fun _ _ _ => rfl) hset
      · contradiction
  · contradiction

lemma moves_query {query : Bytes} (hne : query ≠ []) (h : isUriText u query = true) :
    Moves u 29 (query ++ [32]) 4 (CallbackData.setQuery query) ∧
      Moves u 29 (query ++ [35]) 20 (CallbackData.setQuery query) := by
  have hend : delta u 30 32 = some ([.queryString, .requestUri], 4) ∧
      delta u 30 35 = some ([.queryString, .requestUri], 20) := by
    cases u <;> decide
  cases query with
  | nil => exact absurd rfl hne
  | cons x xs =>
    have hstart : encodedStart u (uriChar u) 29 [.startQuery] 30 31 = true := by
      cases u <;> decide
    have hloop : encodedLoop u (uriChar u) 30 31 32 = true := by
      cases u <;> decide
    obtain ⟨next, hfirst, hglide⟩ := glide_encoded_cons hstart hloop h
      ((isEncoded_head h).imp_right fun hin => ⟨hin, hin⟩)
    have hset : ∀ stream i d, slice stream i (i + (x :: xs).length) = x :: xs →
        deliver stream d (.query i (i + (x :: xs).length)) = d.setQuery (x :: xs) := by
      intro stream i d htext
      rw [deliver, htext]
      rfl
    constructor
    · exact moves_token .query hfirst hglide hend.1 (by decide) (by decide)
        (fun _ _ => rfl) (fun _ _ _ => rfl) hset
    · exact moves_token .query hfirst hglide hend.2 (by decide) (by decide)
        (fun _ _ => rfl) (fun _ _ _ => rfl) hset

lemma moves_fragment {fragment : Bytes} (hne : fragment ≠ []) (h : isUriText u fragment = true) :
    Moves u 20 (fragment ++ [32]) 4 (CallbackData.setFragment fragment) := by
  have hend : delta u 21 32 = some ([.fragment], 4) := by
    cases u <;> decide
  cases fragment with
  | nil => exact absurd rfl hne
  | cons x xs =>
    have hstart : encodedStart u (uriChar u) 20 [.mark] 21 22 = true := by
      cases u <;> decide
    have hloop : encodedLoop u (uriChar u) 21 22 23 = true := by
      cases u <;> decide
    obtain ⟨next, hfirst, hglide⟩ := glide_encoded_cons hstart hloop h
      ((isEncoded_head h).imp_right fun hin => ⟨hin, hin⟩)
    refine moves_token .fragment hfirst hglide hend (by decide) (by decide)
      (fun _ _ => rfl) (fun _ _ _ => rfl) fun stream i d htext => ?_
    rw [deliver, htext]
    rfl

lemma moves_version {version : Nat} (h : version = 0x10 ∨ version = 0x11) :
    Moves u 4 (ascii "HTTP/" ++ versionNumber version ++ crlf) 13
      (CallbackData.setVersion version) := by
  have hline : delta u 17 10 = some ([], 13) := by cases u <;> decide
  have hfirst : delta u 4 72 = some ([.mark], 5) := by cases u <;> decide
  have hlast : delta u 12 13 = some ([.httpVersion], 17) := by cases u <;> decide
  have hset : ∀ stream i d, slice stream i (i + (ascii "HTTP/" ++ versionNumber version).length) =
        ascii "HTTP/" ++ versionNumber version →
      deliver stream d (.version i (i + (ascii "HTTP/" ++ versionNumber version).length)) =
        d.setVersion version := by
    intro stream i d htext
    rw [deliver, htext, Nat.add_sub_cancel_left]
    rcases h with rfl | rfl <;> rfl
  have hglide : ∃ xs, ascii "HTTP/" ++ versionNumber version = 72 :: xs ∧
      glide (delta u) 5 xs = some 12 := by
    rcases h with rfl | rfl
    · exact ⟨_, rfl, by cases u <;> decide⟩
    · exact ⟨_, rfl, by cases u <;> decide⟩
  obtain ⟨xs, htext, hxs⟩ := hglide
  have htoken : Moves u 4 (ascii "HTTP/" ++ versionNumber version ++ [13]) 17
      (CallbackData.setVersion version) := by
    rw [htext] at hset ⊢
    exact moves_token .version hfirst hxs hlast (by decide) (by decide)
      (fun _ _ => rfl) (fun _ _ _ => rfl) hset
  have hboth := htoken.trans (moves_byte hline)
  rw [append_assoc] at hboth
  exact hboth

/-! ### Header lines -/

def CallbackData.setHeader (entry : Bytes × Bytes) (d : CallbackData) : CallbackData :=
  { d with data := d.data.setHeader entry.1 entry.2 }

lemma lexActs_writeValue {k : Marks} {colon : Nat} (hk : k.fieldEnd = some colon) (p : Nat) :
    lexActs p [.writeValue] k = ([.header k.fieldStart colon k.mark p], k) := by
  simp [lexActs, Marks.token, Marks.note, hk]

lemma lexRun_value {value : Bytes} (hvalue : ∀ c ∈ value, textClass.has c = true)
    (hhead : value.head? ≠ some 32) {k : Marks} {colon : Nat} (hk : k.fieldEnd = some colon)
    (stream rest : Bytes) (p : Nat) (d : CallbackData) :
    lexRun u stream (value ++ 13 :: rest) 15 k p d =
      lexRun u stream rest 17 { k with mark := p } (p + value.length + 1)
        (deliver stream d (.header k.fieldStart colon p (p + value.length))) := by
  have hfirst : takes u 15 [(33, 126), (128, 255)] ([.mark], 16) = true := by
    cases u <;> decide
  have hloop : takes u 16 textClass ([], 16) = true := by cases u <;> decide
  have hempty : delta u 15 13 = some ([.mark, .writeValue], 17) :=
    Automaton.delta_of_strict (by decide) u
  have hend : delta u 16 13 = some ([.writeValue], 17) := Automaton.delta_of_strict (by decide) u
  have hmark : ({ k with mark := p } : Marks).fieldEnd = some colon := hk
  cases value with
  | nil =>
    have hacts : lexActs p [.mark, .writeValue] k =
        ([.header k.fieldStart colon p p], { k with mark := p }) :=
      lexActs_writeValue hmark p
    rw [nil_append, lexRun_step hempty (by decide), hacts]
    rfl
  | cons x xs =>
    have hx : delta u 15 x = some ([.mark], 16) :=
      delta_of_takes hfirst (has_text_of_ne (hvalue x mem_cons_self) (by simpa using hhead))
    have hxs : glide (delta u) 16 xs = some 16 :=
      glide_loop fun c hc => delta_of_takes hloop (hvalue c (mem_cons_of_mem x hc))
    have hlen : p + (x :: xs).length = p + 1 + xs.length := by
      rw [length_cons]
      omega
    have hacts : lexActs p [.mark] k = ([], { k with mark := p }) := rfl
    rw [cons_append, lexRun_step hx (by decide), hacts, lexRun_glide hxs,
      lexRun_step hend (by decide), lexActs_writeValue hmark, hlen]
    rfl

lemma lexRun_name {x : UInt8} {xs : Bytes} (hname : ∀ c ∈ x :: xs, tokenClass.has c = true)
    (stream rest : Bytes) (k : Marks) (p : Nat) (d : CallbackData) :
    ∃ k', k'.fieldStart = p ∧ k'.fieldEnd = some (p + (x :: xs).length) ∧
      lexRun u stream (x :: xs ++ 58 :: 32 :: rest) 13 k p d =
        lexRun u stream rest 15 k' (p + (x :: xs).length + 2) d := by
  have hfirst : takes u 13 tokenClass ([.startField], 14) = true := by cases u <;> decide
  have hloop : takes u 14 tokenClass ([], 14) = true := by cases u <;> decide
  have hx : delta u 13 x = some ([.startField], 14) := delta_of_takes hfirst (hname x mem_cons_self)
  have hxs : glide (delta u) 14 xs = some 14 :=
    glide_loop fun c hc => delta_of_takes hloop (hname c (mem_cons_of_mem x hc))
  have hcolon : delta u 14 58 = some ([.writeField], 15) := Automaton.delta_of_strict (by decide) u
  have hblank : delta u 15 32 = some ([.mark], 15) := Automaton.delta_of_strict (by decide) u
  have hlen : p + (x :: xs).length = p + 1 + xs.length := by
    rw [length_cons]
    omega
  refine ⟨⟨p + 1 + xs.length + 1, p, some (p + 1 + xs.length), k.queryStart⟩, rfl,
    by rw [hlen], ?_⟩
  rw [cons_append, lexRun_step hx (by decide),
    lexRun_glide hxs, lexRun_step hcolon (by decide), lexRun_step hblank (by decide), hlen]
  rfl

lemma moves_headerLine {entry : Bytes × Bytes} (h : PlainHeader entry) :
    Moves u 13 (headerLine entry.1 entry.2) 13 (CallbackData.setHeader entry) := by
  have hline : delta u 17 10 = some ([], 13) := Automaton.delta_of_strict (by decide) u
  obtain ⟨name, value⟩ := entry
  obtain ⟨hne, hname, hvalue, hhead⟩ := h
  intro stream rest k p d _ hdrop
  have htext : headerLine name value ++ rest = name ++ 58 :: 32 :: (value ++ 13 :: 10 :: rest) := by
    simp [headerLine, crlf, show ascii ": " = [58, 32] from rfl]
  have hlen : p + (headerLine name value).length = p + name.length + 2 + value.length + 1 + 1 := by
    simp [headerLine, crlf, show ascii ": " = [58, 32] from rfl]
    omega
  rw [htext] at hdrop
  have hvalueText : slice stream (p + name.length + 2) (p + name.length + 2 + value.length) =
      value := by
    have hfront : stream.drop p = (name ++ [58, 32]) ++ (value ++ 13 :: 10 :: rest) := by
      rw [hdrop, append_assoc]
      rfl
    have hbehind := drop_of_drop hfront
    rw [length_append] at hbehind
    exact slice_of_drop hbehind
  cases name with
  | nil => exact absurd rfl hne
  | cons x xs =>
    obtain ⟨k₁, hstart, hcolon, hrun⟩ := lexRun_name (u := u) hname stream
      (value ++ 13 :: 10 :: rest) k p d
    refine ⟨{ k₁ with mark := p + (x :: xs).length + 2 }, ?_⟩
    rw [htext, hrun, lexRun_value hvalue hhead hcolon, lexRun_step hline not_mem_nil, hlen,
      hstart, deliver, slice_of_drop hdrop, hvalueText, Nat.add_sub_cancel_left]
    rfl

lemma moves_headerLines {entries : List (Bytes × Bytes)} (h : ∀ e ∈ entries, PlainHeader e) :
    Moves u 13 (headerLines entries) 13
      fun d => entries.foldl (fun d e => d.setHeader e) d :=
  Advances.flatMap fun e he => moves_headerLine (h e he)

lemma lexRun_end (stream rest : Bytes) (k : Marks) (p : Nat) (d : CallbackData) :
    ∃ k', lexRun u stream (crlf ++ rest) 13 k p d = (d, ⟨httpParserFirstFinal, k', p + 2⟩) := by
  have hreturn : delta u 13 13 = some ([.startField], 18) := Automaton.delta_of_strict (by decide) u
  have hdone : delta u 18 10 = some ([.done], 348) := Automaton.delta_of_strict (by decide) u
  refine ⟨(lexActs (p + 1) [.done] (lexActs p [.startField] k).2).2, ?_⟩
  rw [crlf, cons_append, lexRun_step hreturn (by decide), singleton_append, lexRun,
    lex_done (s := ⟨18, _, p + 1⟩) hdone (by decide)]
  rfl

def CallbackData.setTarget (path query fragment : Bytes) (d : CallbackData) : CallbackData :=
  { d with
    data := { d.data with
      path := path
      query := if query = [] then d.data.query else query
      fragment := if fragment = [] then d.data.fragment else fragment } }

lemma moves_target {path query fragment : Bytes} (hpath : isPath u path = true)
    (hquery : isUriText u query = true) (hfragment : isUriText u fragment = true) :
    Moves u 3 (path ++ (if query = [] then [] else ascii "?") ++ query ++
        (if fragment = [] then [] else ascii "#") ++ fragment ++ [32]) 4
      (CallbackData.setTarget path query fragment) := by
  obtain ⟨hend, hmark, hask⟩ := moves_path hpath
  have hquestion : ascii "?" = [63] := rfl
  have hhash : ascii "#" = [35] := rfl
  by_cases hq : query = []
  · subst hq
    by_cases hf : fragment = []
    · subst hf
      have hset : CallbackData.setTarget path [] [] = CallbackData.setPath path := rfl
      rw [hset]
      simpa using hend
    have hset : CallbackData.setTarget path [] fragment =
        CallbackData.setFragment fragment ∘ CallbackData.setPath path := by
      funext d
      simp [CallbackData.setTarget, CallbackData.setFragment, CallbackData.setPath, hf]
    have hmoves := hmark.trans (moves_fragment hf hfragment)
    rw [hset]
    simpa [hhash, hf] using hmoves
  by_cases hf : fragment = []
  · subst hf
    have hset : CallbackData.setTarget path query [] =
        CallbackData.setQuery query ∘ CallbackData.setPath path := by
      funext d
      simp [CallbackData.setTarget, CallbackData.setQuery, CallbackData.setPath, hq]
    have hmoves := hask.trans (moves_query hq hquery).1
    rw [hset]
    simpa [hquestion, hq] using hmoves
  have hset : CallbackData.setTarget path query fragment =
      (CallbackData.setFragment fragment ∘ CallbackData.setQuery query) ∘
        CallbackData.setPath path := by
    funext d
    simp [CallbackData.setTarget, CallbackData.setFragment, CallbackData.setQuery,
      CallbackData.setPath, hq, hf]
  have hmoves := hask.trans ((moves_query hq hquery).2.trans (moves_fragment hf hfragment))
  rw [hset]
  simpa [hquestion, hhash, hq, hf] using hmoves

def FullRequest.setLine (req : FullRequest) (d : CallbackData) : CallbackData :=
  ((d.setMethod req.method).setTarget req.path req.query req.fragment).setVersion req.version

lemma moves_requestLine {req : FullRequest} (hm : req.method ≠ .INVALID_METHOD)
    (hsearch : req.method ≠ .MSEARCH) (hversion : req.version = 0x10 ∨ req.version = 0x11)
    (hpath : isPath u req.path = true) (hquery : isUriText u req.query = true)
    (hfragment : isUriText u req.fragment = true) :
    Moves u httpParserStart req.requestLine 13 req.setLine := by
  have hmoves := (moves_method hm hsearch).trans
    ((moves_target hpath hquery hfragment).trans (moves_version hversion))
  have hspace : ascii " " = [32] := rfl
  have hname : ascii " HTTP/" = [32] ++ ascii "HTTP/" := rfl
  have htext : req.requestLine = httpMethodToString req.method ++ [32] ++
      (req.path ++ (if req.query = [] then [] else ascii "?") ++ req.query ++
        (if req.fragment = [] then [] else ascii "#") ++ req.fragment ++ [32] ++
        (ascii "HTTP/" ++ versionNumber req.version ++ crlf)) := by
    simp only [FullRequest.requestLine, hspace, hname, append_assoc]
  rw [htext]
  exact hmoves

lemma foldl_setHeader (entries : List (Bytes × Bytes)) (d : CallbackData) :
    entries.foldl (fun d e => d.setHeader e) d = { d with data := { d.data with
          headers := OrderedMap.insertAll strcasecmp d.data.headers entries } } := by
  induction entries generalizing d with
  | nil => rfl
  | cons e entries ih =>
    rw [foldl_cons, ih, OrderedMap.insertAll_cons, ← MapType.set_eq]
    rfl

end Pieces

/-! ## Requests that can be printed -/

/-- The requests of the grammar, with a header map in order and without the headers
that are printed for other members. -/
structure Printable (u : Bool) (req : FullRequest) : Prop where
  websocket : req.websocket = false
  method : req.method ≠ .INVALID_METHOD
  version : req.version = 0x10 ∨ req.version = 0x11
  path : isPath u req.path = true
  query : isUriText u req.query = true
  fragment : isUriText u req.fragment = true
  headers : ∀ e ∈ req.headers, PlainHeader e
  sorted : OrderedMap.Sorted strcasecmp req.headers
  noConnection : ∀ e ∈ req.headers, strcasecmp e.1 (ascii "connection") ≠ .eq
  noLength : ∀ e ∈ req.headers, strcasecmp e.1 (ascii "content-length") ≠ .eq
  /-- The text is a `std::string`. -/
  size : req.dump.length ≤ stringMaxSize

instance (u : Bool) (req : FullRequest) : Decidable (Printable u req) :=
  decidable_of_iff
    (req.websocket = false ∧ req.method ≠ .INVALID_METHOD ∧
      (req.version = 0x10 ∨ req.version = 0x11) ∧ isPath u req.path = true ∧
      isUriText u req.query = true ∧ isUriText u req.fragment = true ∧
      (∀ e ∈ req.headers, PlainHeader e) ∧ OrderedMap.Sorted strcasecmp req.headers ∧
      (∀ e ∈ req.headers, strcasecmp e.1 (ascii "connection") ≠ .eq) ∧
      (∀ e ∈ req.headers, strcasecmp e.1 (ascii "content-length") ≠ .eq) ∧
      req.dump.length ≤ stringMaxSize)
    ⟨fun ⟨h₁, h₂, h₃, h₄, h₅, h₆, h₇, h₈, h₉, h₁₀, h₁₁⟩ =>
      ⟨h₁, h₂, h₃, h₄, h₅, h₆, h₇, h₈, h₉, h₁₀, h₁₁⟩,
     fun ⟨h₁, h₂, h₃, h₄, h₅, h₆, h₇, h₈, h₉, h₁₀, h₁₁⟩ =>
      ⟨h₁, h₂, h₃, h₄, h₅, h₆, h₇, h₈, h₉, h₁₀, h₁₁⟩⟩

namespace FullRequest

/-- The header map of the request with the headers that are printed for other
members. -/
def readHeaders (req : FullRequest) : MapType :=
  let m := MapType.set (ascii "connection") (connectionValue req.close) req.headers
  if req.body = [] then m
  else MapType.set (ascii "content-length") (Decimal.decimal req.body.length) m

def headData (req : FullRequest) : CallbackData where
  data :=
    { HttpRequest.default with
      method := req.method
      version := req.version
      path := req.path
      query := req.query
      fragment := req.fragment
      headers := req.readHeaders }
  error := 0

end FullRequest

/-- The text is parsed in one call and the rest of `recvRequest` follows, with
nothing more to come from the socket. -/
def readBack (cfg : Config) (memory : HttpParser) (text : Bytes) : Option HttpRequest :=
  match (HttpRequestParser.new memory).execute text with
  | .error _ => none
  | .ok (parser, pending) =>
    if parser.hasError then none
    else if parser.isFinished then
      match recvBody cfg parser pending [] with
      | .ok r => r.map (·.request)
      | .error _ => none
    else none

section RoundTrip

variable {u : Bool} {req : FullRequest} {cfg : Config} {memory : HttpParser}

lemma Printable.plain_entries (h : Printable u req) : ∀ e ∈ req.entries, PlainHeader e := by
  intro e he
  rw [FullRequest.entries, cons_append, mem_cons, mem_append] at he
  rcases he with rfl | he | he
  · exact plain_connection req.close
  · exact plain_printedEntries h.headers e he
  · exact plain_lengthEntry req.body e he

lemma Printable.insertAll_entries (h : Printable u req) :
    OrderedMap.insertAll strcasecmp [] req.entries = req.readHeaders := by
  have hprinted : printedEntries req.headers = req.headers := by
    refine filter_eq_self.mpr fun e he => ?_
    simpa using h.noConnection e he
  rw [FullRequest.entries, cons_append, OrderedMap.insertAll_cons,
    OrderedMap.insertAll_append, hprinted, OrderedMap.insertAll_insert h.noConnection,
    OrderedMap.insertAll_sorted h.sorted, ← MapType.set_eq, lengthEntry, FullRequest.readHeaders]
  split
  · rfl
  · exact (MapType.set_eq _ _ _).symm

lemma Printable.foldl_entries (h : Printable u req) :
    req.entries.foldl (fun d e => d.setHeader e) (req.setLine ⟨.default, 0⟩) = req.headData := by
  have hheaders : OrderedMap.insertAll strcasecmp (req.setLine ⟨.default, 0⟩).data.headers
      req.entries = req.readHeaders := h.insertAll_entries
  have hquery : (if req.query = [] then [] else req.query) = req.query := by
    split <;> simp_all
  have hfragment : (if req.fragment = [] then [] else req.fragment) = req.fragment := by
    split <;> simp_all
  rw [foldl_setHeader, hheaders]
  simp only [FullRequest.setLine, CallbackData.setMethod, CallbackData.setTarget,
    CallbackData.setVersion, HttpRequest.default, HttpRequest.new, hquery, hfragment,
    FullRequest.headData]

lemma Printable.lexRun_head (h : Printable u req) (hsearch : req.method ≠ .MSEARCH)
    (rest : Bytes) :
    ∃ k, lexRun u (req.head ++ rest) (req.head ++ rest) httpParserStart .zero 0 ⟨.default, 0⟩ =
      (req.headData, ⟨httpParserFirstFinal, k, req.head.length⟩) := by
  have hmoves := (moves_requestLine h.method hsearch h.version h.path h.query h.fragment).trans
    (moves_headerLines h.plain_entries)
  have htext : req.head ++ rest = req.requestLine ++ headerLines req.entries ++ (crlf ++ rest) := by
    rw [FullRequest.head, append_assoc]
  obtain ⟨k₁, hrun⟩ := hmoves (req.head ++ rest) (crlf ++ rest) .zero 0 ⟨.default, 0⟩ trivial
    (by rw [drop_zero, htext])
  rw [← htext] at hrun
  obtain ⟨k₂, hend⟩ := lexRun_end (u := u) (req.head ++ rest) rest k₁
    (0 + (req.requestLine ++ headerLines req.entries).length)
    (req.entries.foldl (fun d e => d.setHeader e) (req.setLine ⟨.default, 0⟩))
  have hlen : req.head.length = (req.requestLine ++ headerLines req.entries).length + 2 :=
    length_append
  refine ⟨k₂, hrun.trans (hend.trans ?_)⟩
  rw [h.foldl_entries, hlen, Nat.zero_add]

lemma Printable.execute_dump (h : Printable memory.uriRelaxed req)
    (hsearch : req.method ≠ .MSEARCH) :
    ∃ m : HttpRequestParser, (HttpRequestParser.new memory).execute req.dump = .ok (m, req.body) ∧
      m.2 = req.headData ∧ m.1.cs = httpParserFirstFinal := by
  obtain ⟨k, hlex⟩ := h.lexRun_head hsearch req.body
  rw [← FullRequest.dump_eq h.websocket, lexRun, Prod.mk.injEq] at hlex
  have hne : req.dump ≠ [] := by
    rw [FullRequest.dump_eq h.websocket, FullRequest.head]
    simp [crlf]
  have hwin : req.dump <+: req.dump.drop Lexer.start.pos := prefix_rfl
  obtain ⟨m, hexec, hreach⟩ := execute_refines (m := HttpRequestParser.new memory) hwin hne h.size
    rfl Lexer.sound_start fun t _ => Nat.zero_le _
  have hu : (HttpRequestParser.new memory).1.uriRelaxed = memory.uriRelaxed := rfl
  have hstart : Lexer.start = ⟨httpParserStart, .zero, 0⟩ := rfl
  rw [hu, hstart] at hexec hreach
  rw [hlex.2] at hexec
  refine ⟨m, ?_, ?_, ?_⟩
  · rw [hexec, Nat.sub_zero, FullRequest.dump_eq h.websocket, drop_left]
  · exact hreach.data.trans hlex.1
  · rw [hreach.cs, hlex.2]

lemma FullRequest.find_connection (req : FullRequest) :
    req.readHeaders.find (ascii "connection") = some (connectionValue req.close) := by
  have hne : strcasecmp (ascii "content-length") (ascii "connection") ≠ .eq := by decide
  unfold FullRequest.readHeaders
  simp only [MapType.set_eq, MapType.find_eq]
  split
  · exact OrderedMap.find_insert_self _
  · rw [OrderedMap.find_insert_of_ne hne]
    exact OrderedMap.find_insert_self _

lemma Printable.find_length (h : Printable u req) :
    req.readHeaders.find (ascii "content-length") =
      if req.body = [] then none else some (Decimal.decimal req.body.length) := by
  have hne : strcasecmp (ascii "connection") (ascii "content-length") ≠ .eq := by decide
  unfold FullRequest.readHeaders
  simp only [MapType.set_eq, MapType.find_eq]
  split
  · rw [OrderedMap.find_insert_of_ne hne]
    exact OrderedMap.find_eq_none h.noLength
  · exact OrderedMap.find_insert_self _

lemma FullRequest.init_headData (req : FullRequest) :
    HttpRequest.init { req.headData.data with body := req.body } =
      { req.toHttpRequest with headers := req.readHeaders } := by
  have hconn : ({ req.headData.data with body := req.body } : HttpRequest).getHeader
      (ascii "connection") [] = connectionValue req.close := by
    rw [HttpRequest.getHeader, FullRequest.headData, req.find_connection]
    rfl
  have hne : connectionValue req.close ≠ [] := by cases req.close <;> decide
  have hclose : (strcasecmp (connectionValue req.close) (ascii "keep-alive") != .eq) =
      req.close := by
    cases req.close <;> decide
  simp only [HttpRequest.init, hconn, if_neg hne, hclose]
  rfl

lemma Printable.recvBody_eq (h : Printable u req) (hcast : ReadsDecimal cfg.lexicalCast)
    {m : HttpRequestParser} (hm : m.2 = req.headData) :
    ∃ r, recvBody cfg m req.body [] = .ok (some r) ∧
      r.request = { req.toHttpRequest with headers := req.readHeaders } := by
  have hbody : req.body.length ≤ stringMaxSize ∧ req.body.length < 2 ^ 63 := by
    have hsize := h.size
    rw [FullRequest.dump_eq h.websocket, length_append, FullRequest.head] at hsize
    simp only [length_append, crlf, length_cons, stringMaxSize] at hsize ⊢
    omega
  have hlength : (m.getContentLength cfg.lexicalCast).toBitVec.toInt = req.body.length := by
    rw [HttpRequestParser.getContentLength, hm, HttpRequest.getHeaderAs_eq]
    exact length_of_find hcast hbody.2 h.find_length
  simp only [recvBody, hlength, Int.toNat_natCast, hm]
  by_cases hnil : req.body = []
  · have hsame : { req.headData.data with body := req.body } = req.headData.data := by
      rw [hnil]
      rfl
    have hinit := req.init_headData
    rw [hsame] at hinit
    refine ⟨⟨req.headData.data.init, [], []⟩, ?_, hinit⟩
    simp only [hnil, length_nil, Nat.cast_zero, lt_irrefl, if_false]
  have hpos : (0 : Int) < req.body.length := by
    have := length_pos_iff.mpr hnil
    omega
  rw [if_pos hpos, if_neg (not_lt.mpr hbody.1), if_neg (by omega), take_length]
  exact ⟨_, rfl, req.init_headData⟩

lemma lex_hyphen (tail : Bytes) : (lex u (77 :: 45 :: tail) .start).2.cs = httpParserError := by
  have hletter : delta u Lexer.start.cs 77 = some ([.mark], 2) := by cases u <;> decide
  have hhyphen : delta u 2 45 = none := by cases u <;> decide
  rw [lex_step hletter (by decide), lex_error hhyphen]

lemma readBack_msearch (h : Printable memory.uriRelaxed req) (hsearch : req.method = .MSEARCH) :
    readBack cfg memory req.dump = none := by
  have hdump : ∃ tail, req.dump = 77 :: 45 :: tail := by
    have hname : httpMethodToString .MSEARCH = 77 :: 45 :: ascii "SEARCH" := by decide
    refine ⟨ascii "SEARCH" ++ req.dump.drop 8, ?_⟩
    rw [FullRequest.dump_eq h.websocket, FullRequest.head, FullRequest.requestLine, hsearch, hname]
    simp only [append_assoc, cons_append]
    rfl
  obtain ⟨tail, htail⟩ := hdump
  have hwin : req.dump <+: req.dump.drop Lexer.start.pos := prefix_rfl
  obtain ⟨m, hexec, hreach⟩ := execute_refines (m := HttpRequestParser.new memory) hwin
    (by simp [htail]) h.size rfl Lexer.sound_start fun t _ => Nat.zero_le _
  have hcs : m.1.cs = httpParserError := by
    rw [hreach.cs, htail]
    exact lex_hyphen tail
  have herror : m.hasError = true := by
    simp [HttpRequestParser.hasError, HttpParser.hasError, hcs]
  rw [readBack, hexec]
  simp only [herror, if_true]

/-- A request of the grammar is read back as it was printed, up to the headers that `dump` adds,
exactly if its method is not `M-SEARCH`. -/
theorem request_roundTrip_iff (cfg : Config) (memory : HttpParser) (req : FullRequest)
    (hcast : ReadsDecimal cfg.lexicalCast) (h : Printable memory.uriRelaxed req) :
    readBack cfg memory req.dump = some { req.toHttpRequest with headers := req.readHeaders } ↔
      req.method ≠ .MSEARCH := by
  constructor
  · intro hread hsearch
    rw [readBack_msearch h hsearch] at hread
    contradiction
  intro hsearch
  obtain ⟨m, hexec, hdata, hcs⟩ := h.execute_dump hsearch
  have herror : m.hasError = false := by
    simp [HttpRequestParser.hasError, HttpParser.hasError, hdata, hcs, FullRequest.headData,
      httpParserFirstFinal, httpParserError]
  have hfinished : m.isFinished = true := by
    simp [HttpRequestParser.isFinished, HttpParser.finish, HttpParser.hasError,
      HttpParser.isFinished, hcs, httpParserFirstFinal, httpParserError]
  rw [readBack, hexec]
  simp only [herror, hfinished, Bool.false_eq_true, if_false, if_true]
  obtain ⟨r, hbody, hrequest⟩ := h.recvBody_eq hcast hdata
  rw [hbody, ← hrequest]
  rfl

def exampleRequest : FullRequest where
  method := .POST
  version := 0x11
  close := false
  path := ascii "/a/b%20c"
  query := ascii "x=1&y=%2F"
  fragment := ascii "top"
  body := ascii "hello"
  headers := [(ascii "Accept", []), (ascii "Host", ascii "example: 80 ")]
  websocket := false

def decimalConfig (bufferSize : Nat) : Config := ⟨bufferSize, Decimal.readUnsigned⟩

theorem request_roundTrip_iff_post :
    Printable false exampleRequest ∧
      readBack (decimalConfig 4096) zeroMemory exampleRequest.dump =
        some { exampleRequest.toHttpRequest with headers := exampleRequest.readHeaders } :=
  ⟨by decide +kernel,
    (request_roundTrip_iff (decimalConfig 4096) zeroMemory exampleRequest
      readsDecimal_readUnsigned (by decide +kernel)).mpr (by decide +kernel)⟩

def searchRequest : FullRequest :=
  { HttpRequest.default with method := .MSEARCH, websocket := false }

theorem request_msearch_lost :
    Printable false searchRequest ∧
      readBack (decimalConfig 4096) zeroMemory searchRequest.dump = none := by
  decide +kernel

end RoundTrip

end Yuyu.Http
