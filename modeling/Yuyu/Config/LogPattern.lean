import Yuyu.Config.LogFormatter
import Mathlib.Data.List.Chain

/-!
# The grammar of log patterns

A pattern is literal text, in which a percent sign is doubled, with items and dates in between.
-/

namespace Yuyu.Config

open List
open Http (Bytes ascii)

/-- `output` is what the item of a key writes for an event. -/
def FormatItem.format (output : Bytes → Bytes → Bytes) : FormatItem → Bytes
  | .text s => s
  | .item key fmt => output key fmt

def LogFormatter.format (output : Bytes → Bytes → Bytes) (f : LogFormatter) : Bytes :=
  f.items.flatMap (·.format output)

/-- What a pattern is made of: the characters of its text, items and dates with a format. -/
inductive Token where
  | char (c : UInt8)
  | item (letter : UInt8)
  | date (fmt : Bytes)

namespace Token

def encode : Token → Bytes
  | char c => if c = 37 then [37, 37] else [c]
  | item letter => [37, letter]
  | date fmt => 37 :: 100 :: 123 :: (fmt ++ [125])

def output (out : Bytes → Bytes → Bytes) : Token → Bytes
  | char c => [c]
  | item letter => out [letter] []
  | date fmt => out [100] fmt

/-- Items have documented letters, and formats no braces. -/
def Valid : Token → Prop
  | char _ => True
  | item letter => [letter] ∈ formatItems
  | date fmt => 123 ∉ fmt ∧ 125 ∉ fmt

def Ends (c : UInt8) : Prop := isalpha c = false ∧ c ≠ 123 ∧ c ≠ 125

def Follows : Token → Token → Prop
  | item _, char c => Ends c
  | date _, char c => Ends c
  | _, _ => True

end Token

open Token

structure Pattern where
  tokens : List Token
  valid : ∀ t ∈ tokens, t.Valid
  follows : tokens.IsChain Follows

def Pattern.encode (p : Pattern) : Bytes := p.tokens.flatMap Token.encode

variable {pattern rest fmt : Bytes} {i n : Nat}

lemma ends_percent : Ends 37 := ⟨by decide, by decide, by decide⟩

lemma isalpha_of_mem_formatItems {letter : UInt8} (h : [letter] ∈ formatItems) :
    isalpha letter = true := by
  have hall : ∀ key ∈ formatItems, key.all isalpha = true := by decide +kernel
  simpa using hall _ h

section Scan

variable {c : UInt8} {fmtBegin : Nat} {str fmt' : Bytes}

lemma scanItem_ends (hc : Ends c) : scanItem pattern i (c :: rest) n fmtBegin false str fmt' =
    ⟨n, false, substr pattern (i + 1) (n - i - 1), fmt'⟩ := by
  simp [scanItem, hc.1, hc.2.1, hc.2.2]

lemma scanItem_letter (hc : isalpha c = true ∨ c = 125) :
    scanItem pattern i (c :: rest) n fmtBegin false str fmt' =
      scanItem pattern i rest (n + 1) fmtBegin false
        (if n + 1 = pattern.length ∧ str = [] then pattern.drop (i + 1) else str) fmt' := by
  have hopen : c ≠ 123 := by
    rcases hc with hc | rfl
    · rintro rfl
      contradiction
    · decide
  rw [scanItem]
  rcases hc with hc | hc <;> simp [hc, hopen]

lemma scanItem_open : scanItem pattern i (123 :: rest) n fmtBegin false str fmt' =
    scanItem pattern i rest (n + 1) n true (substr pattern (i + 1) (n - i - 1)) fmt' := by
  rfl

lemma scanItem_close : scanItem pattern i (125 :: rest) n fmtBegin true str fmt' =
    ⟨n + 1, false, str, substr pattern (fmtBegin + 1) (n - fmtBegin - 1)⟩ := by
  rfl

lemma scanItem_skip (hfmt : 125 ∉ fmt) (n : Nat) (str : Bytes) : ∃ str', (str ≠ [] → str' = str) ∧
    scanItem pattern i (fmt ++ rest) n fmtBegin true str fmt' =
      scanItem pattern i rest (n + fmt.length) fmtBegin true str' fmt' := by
  induction fmt generalizing n str with
  | nil => exact ⟨str, fun _ => rfl, rfl⟩
  | cons c fmt ih =>
    rw [mem_cons, not_or] at hfmt
    have hstep : scanItem pattern i (c :: (fmt ++ rest)) n fmtBegin true str fmt' =
        scanItem pattern i (fmt ++ rest) (n + 1) fmtBegin true
          (if n + 1 = pattern.length ∧ str = [] then pattern.drop (i + 1) else str) fmt' := by
      simp [scanItem, Ne.symm hfmt.1]
    obtain ⟨str', hstr, hskip⟩ := ih hfmt.2 (n + 1)
      (if n + 1 = pattern.length ∧ str = [] then pattern.drop (i + 1) else str)
    refine ⟨str', fun hne => ?_, ?_⟩
    · rw [if_neg fun h => hne h.2] at hstr
      exact hstr hne
    · rw [cons_append, hstep, hskip, length_cons, Nat.add_assoc, Nat.add_comm 1]

end Scan

lemma substr_of_drop {s : Bytes} {pos len : Nat} (hdrop : pattern.drop pos = s ++ rest)
    (hlen : len = s.length) : substr pattern pos len = s := by
  rw [substr, hdrop, hlen, take_left]

lemma scanItem_item {letter : UInt8} (hletter : isalpha letter = true)
    (hdrop : pattern.drop i = 37 :: letter :: rest) (hrest : ∀ c ∈ rest.head?, Ends c) :
    scanItem pattern i (letter :: rest) (i + 1) 0 false [] [] = ⟨i + 2, false, [letter], []⟩ := by
  have hlength : pattern.length = i + 2 + rest.length := by
    have hlen := congrArg List.length hdrop
    simp only [length_drop, length_cons] at hlen
    omega
  have htail : pattern.drop (i + 1) = [letter] ++ rest := by
    rw [← tail_drop, hdrop]
    rfl
  rw [scanItem_letter (Or.inl hletter)]
  cases rest with
  | nil => rw [scanItem, if_pos ⟨hlength.symm, rfl⟩, htail, append_nil]
  | cons c rest =>
    rw [scanItem_ends (hrest c rfl), substr_of_drop htail (by simp only [length_singleton]; omega)]

lemma scanItem_date (hfmt : 125 ∉ fmt)
    (hdrop : pattern.drop i = 37 :: 100 :: 123 :: (fmt ++ 125 :: rest)) :
    scanItem pattern i (100 :: 123 :: (fmt ++ 125 :: rest)) (i + 1) 0 false [] [] =
      ⟨i + 4 + fmt.length, false, [100], fmt⟩ := by
  have htail : pattern.drop (i + 1) = [100] ++ 123 :: (fmt ++ 125 :: rest) := by
    rw [← tail_drop, hdrop]
    rfl
  have hbehind : pattern.drop (i + 1 + 1 + 1) = fmt ++ 125 :: rest := by
    rw [Nat.add_assoc, ← drop_drop, htail]
    rfl
  have hkey : substr pattern (i + 1) (i + 1 + 1 - i - 1) = [100] :=
    substr_of_drop htail (by rw [length_singleton]; omega)
  have hformat : substr pattern (i + 1 + 1 + 1) (i + 1 + 1 + 1 + fmt.length - (i + 1 + 1) - 1) =
      fmt := substr_of_drop hbehind (by omega)
  rw [scanItem_letter (Or.inl rfl), scanItem_open, hkey]
  obtain ⟨str', hstr, hskip⟩ := scanItem_skip hfmt (i + 1 + 1 + 1) [100]
  rw [hskip, scanItem_close, hstr (by simp), hformat]
  congr 1
  omega

/-! ## Patterns without percent signs -/

def written (out : Bytes → Bytes → Bytes) (vec : List Piece) : Bytes :=
  vec.flatMap fun p => if p.isItem then out p.str p.fmt else p.str

/-- All items are known. -/
def Known (vec : List Piece) : Prop := ∀ p ∈ vec, p.isItem = true → p.str ∈ formatItems

lemma known_nil : Known [] := by simp [Known]

lemma written_append (out : Bytes → Bytes → Bytes) (vec vec' : List Piece) :
    written out (vec ++ vec') = written out vec ++ written out vec' := flatMap_append

lemma written_pushText (out : Bytes → Bytes → Bytes) (nstr : Bytes) (vec : List Piece) :
    written out (pushText nstr vec) = written out vec ++ nstr := by
  unfold pushText
  split
  · next hnil => rw [hnil, append_nil]
  · simp [written]

lemma known_append {vec vec' : List Piece} : Known (vec ++ vec') ↔ Known vec ∧ Known vec' := by
  simp only [Known, forall_mem_append]

lemma known_pushText {nstr : Bytes} {vec : List Piece} : Known (pushText nstr vec) ↔ Known vec := by
  unfold pushText
  split
  · rfl
  · rw [known_append]
    simp [Known]

section Loop

variable {rounds : Nat} {nstr : Bytes} {vec : List Piece} {error : Bool}

lemma initLoop_end (hdrop : pattern.drop i = []) :
    initLoop pattern rounds i nstr vec error = (pushText nstr vec, error) := by
  cases rounds with
  | zero => rfl
  | succ rounds => rw [initLoop, hdrop]

lemma initLoop_char {c : UInt8} (hc : c ≠ 37) (hdrop : pattern.drop i = c :: rest) :
    initLoop pattern (rounds + 1) i nstr vec error =
      initLoop pattern rounds (i + 1) (nstr ++ [c]) vec error := by
  rw [initLoop, hdrop]
  exact if_pos hc

lemma initLoop_item (hdrop : pattern.drop i = 37 :: rest) (hrest : rest.head? ≠ some 37)
    {str fmt : Bytes}
    (hscan : scanItem pattern i rest (i + 1) 0 false [] [] = ⟨n, false, str, fmt⟩) :
    initLoop pattern (rounds + 1) i nstr vec error =
      initLoop pattern rounds n [] (pushText nstr vec ++ [⟨str, fmt, true⟩]) error := by
  rw [initLoop, hdrop]
  simp [hrest, hscan]

end Loop

lemma drop_add {s : Bytes} (h : pattern.drop i = s ++ rest) :
    pattern.drop (i + s.length) = rest := by
  rw [← drop_drop, h, drop_left]

lemma head_encode {ts : List Token} {t : Token} (h : (t :: ts).IsChain Follows)
    (ht : ∀ c, t ≠ char c) : ∀ c ∈ (ts.flatMap encode).head?, Ends c := by
  cases ts with
  | nil => simp
  | cons u ts =>
    have hfollows := (isChain_cons_cons.mp h).1
    cases u with
    | item | date => simpa [encode] using ends_percent
    | char c =>
      by_cases hc : c = 37
      · simpa [encode, hc] using ends_percent
      have hends : Ends c := by
        cases t with
        | char d => exact absurd rfl (ht d)
        | item | date => exact hfollows
      simpa [encode, hc] using hends

lemma one_le_length_encode (t : Token) : 1 ≤ t.encode.length := by
  cases t with
  | char c =>
    rw [encode]
    split <;> simp
  | item | date => simp [encode]

lemma initLoop_token {t : Token} (hvalid : t.Valid) (hpercent : t ≠ char 37)
    (hdrop : pattern.drop i = t.encode ++ rest)
    (hends : (∀ c, t ≠ char c) → ∀ c ∈ rest.head?, Ends c) (nstr : Bytes) {vec : List Piece}
    (hknown : Known vec) : ∃ nstr' vec', Known vec' ∧
      (∀ out, written out vec' ++ nstr' = written out vec ++ nstr ++ t.output out) ∧
      ∀ rounds error, initLoop pattern (rounds + 1) i nstr vec error =
        initLoop pattern rounds (i + t.encode.length) nstr' vec' error := by
  cases t with
  | char c =>
    have hc : c ≠ 37 := fun h => hpercent (congrArg char h)
    rw [encode, if_neg hc] at hdrop ⊢
    exact ⟨nstr ++ [c], vec, hknown, fun out => (append_assoc ..).symm,
      fun rounds error => initLoop_char hc hdrop⟩
  | item letter =>
    have hmem : [letter] ∈ formatItems := hvalid
    have halpha := isalpha_of_mem_formatItems hmem
    have hhead : (letter :: rest).head? ≠ some 37 := by
      rintro ⟨⟩
      contradiction
    refine ⟨[], pushText nstr vec ++ [⟨[letter], [], true⟩], ?_, fun out => ?_, ?_⟩
    · rw [known_append, known_pushText]
      exact ⟨hknown, by simpa [Known] using hmem⟩
    · rw [written_append, written_pushText]
      simp [written, Token.output]
    · intro rounds error
      exact initLoop_item hdrop hhead (scanItem_item halpha hdrop (hends (by simp)))
  | date fmt =>
    rw [encode, cons_append, cons_append, cons_append, append_assoc] at hdrop
    refine ⟨[], pushText nstr vec ++ [⟨[100], fmt, true⟩], ?_, fun out => ?_, ?_⟩
    · rw [known_append, known_pushText]
      refine ⟨hknown, ?_⟩
      simp only [Known, mem_singleton, forall_eq]
      decide
    · rw [written_append, written_pushText]
      simp [written, Token.output]
    intro rounds error
    have hscan := scanItem_date hvalid.2 hdrop
    have hlen : i + (date fmt).encode.length = i + 4 + fmt.length := by
      simp only [encode, length_cons, length_append, length_nil]
      omega
    rw [hlen]
    exact initLoop_item hdrop (by simp) hscan

/-- The loop over tokens without percent signs, which further tokens follow. -/
lemma initLoop_encode (ts us : List Token) (hvalid : ∀ t ∈ ts, t.Valid)
    (hfollows : (ts ++ us).IsChain Follows) (hpercent : ∀ t ∈ ts, t ≠ char 37)
    (hdrop : pattern.drop i = (ts ++ us).flatMap encode) (nstr : Bytes) {vec : List Piece}
    (hknown : Known vec) : ∃ j nstr' vec', Known vec' ∧ pattern.drop j = us.flatMap encode ∧
      (∀ out, written out vec' ++ nstr' = written out vec ++ nstr ++ ts.flatMap (output out)) ∧
      ∀ rounds, pattern.length ≤ i + rounds → ∃ rounds', pattern.length ≤ j + rounds' ∧
        initLoop pattern rounds i nstr vec false = initLoop pattern rounds' j nstr' vec' false := by
  induction ts generalizing i nstr vec with
  | nil =>
    exact ⟨i, nstr, vec, hknown, hdrop, fun out => (append_nil _).symm,
      fun rounds hrounds => ⟨rounds, hrounds, rfl⟩⟩
  | cons t ts ih =>
    rw [forall_mem_cons] at hvalid hpercent
    rw [cons_append, flatMap_cons] at hdrop
    have hlen := one_le_length_encode t
    obtain ⟨nstr₁, vec₁, hknown₁, hwritten₁, hstep⟩ :=
      initLoop_token hvalid.1 hpercent.1 hdrop (head_encode hfollows) nstr hknown
    obtain ⟨j, nstr', vec', hknown', hdrop', hwritten, hrun⟩ :=
      ih hvalid.2 hfollows.tail hpercent.2 (drop_add hdrop) nstr₁ hknown₁
    refine ⟨j, nstr', vec', hknown', hdrop', fun out => ?_, fun rounds hrounds => ?_⟩
    · rw [hwritten, hwritten₁, flatMap_cons, append_assoc]
    have hinside : i < pattern.length := by
      by_contra hge
      rw [drop_eq_nil_of_le (by omega)] at hdrop
      have hnil := congrArg List.length hdrop
      rw [length_append, length_nil] at hnil
      omega
    obtain ⟨rounds, rfl⟩ : ∃ k, rounds = k + 1 := ⟨rounds - 1, by omega⟩
    rw [hstep]
    exact hrun rounds (by omega)

/-! ## Percent signs -/

section Percent

variable {rounds : Nat} {nstr : Bytes} {vec : List Piece} {error : Bool}

lemma initLoop_error : (initLoop pattern rounds i nstr vec true).2 = true := by
  induction rounds generalizing i nstr vec with
  | zero => rfl
  | succ rounds ih =>
    rw [initLoop]
    split
    · rfl
    dsimp only
    split_ifs <;> exact ih

/-- Unless it ends in an error, the loop only adds to what it has. -/
lemma prefix_written (out : Bytes → Bytes → Bytes)
    (h : (initLoop pattern rounds i nstr vec error).2 = false) :
    written out vec ++ nstr <+: written out (initLoop pattern rounds i nstr vec error).1 := by
  induction rounds generalizing i nstr vec error with
  | zero => exact ⟨[], by rw [append_nil, initLoop, written_pushText]⟩
  | succ rounds ih =>
    rw [initLoop] at h ⊢
    cases hdrop : pattern.drop i with
    | nil => exact ⟨[], by rw [append_nil, written_pushText]⟩
    | cons c rest =>
      simp only [hdrop] at h ⊢
      split_ifs at h ⊢
      · exact ((prefix_append_right_inj _).mpr (prefix_append nstr _)).trans (ih h)
      · exact ((prefix_append_right_inj _).mpr (prefix_append nstr _)).trans (ih h)
      · rw [initLoop_error] at h
        contradiction
      · refine IsPrefix.trans ?_ (ih h)
        rw [append_nil, written_append, written_pushText]
        exact prefix_append _ _

variable (hdrop : pattern.drop i = 37 :: rest) (hroom : pattern.length ≤ i + rounds)
include hdrop hroom

lemma exists_rounds : ∃ rounds', rounds = rounds' + 1 ∧ pattern.length ≤ i + 1 + rounds' := by
  have hinside : i < pattern.length := by
    by_contra hge
    rw [drop_eq_nil_of_le (by omega)] at hdrop
    contradiction
  exact ⟨rounds - 1, by omega, by omega⟩

/-- A percent sign before another one is copied. -/
lemma initLoop_sign (nstr : Bytes) (vec : List Piece) (error : Bool)
    (hrest : rest.head? = some 37) : ∃ rounds', pattern.length ≤ i + 1 + rounds' ∧
    initLoop pattern rounds i nstr vec error =
      initLoop pattern rounds' (i + 1) (nstr ++ [37]) vec error := by
  obtain ⟨rounds', rfl, hroom'⟩ := exists_rounds hdrop hroom
  refine ⟨rounds', hroom', ?_⟩
  rw [initLoop, hdrop]
  simp [hrest]

/-- Any other percent sign starts an item. -/
lemma written_item (b : UInt8) (hrest : rest.head? ≠ some 37)
    (h : (initLoop pattern rounds i nstr vec error).2 = false) :
    written (fun _ _ => [b]) vec ++ nstr ++ [b] <+:
      written (fun _ _ => [b]) (initLoop pattern rounds i nstr vec error).1 := by
  obtain ⟨rounds', rfl, -⟩ := exists_rounds hdrop hroom
  rw [initLoop, hdrop] at h ⊢
  simp only [ne_eq, not_true_eq_false, if_false, hrest] at h ⊢
  split_ifs at h ⊢
  · rw [initLoop_error] at h
    contradiction
  · refine IsPrefix.trans ?_ (prefix_written _ h)
    rw [append_nil, written_append, written_pushText]
    simp [written]

omit hdrop in
/-- At the second of the two signs for a percent sign, with some signs too many written before:
the loop does not write what is meant. -/
lemma exists_written_ne {us : List Token} (hdrop : pattern.drop i = 37 :: us.flatMap encode)
    (h : (initLoop pattern rounds i nstr vec error).2 = false)
    (meant : (Bytes → Bytes → Bytes) → Bytes) (extra : Nat)
    (hmeant : ∀ out, written out vec ++ nstr = meant out ++ replicate extra 37) :
    ∃ out, written out (initLoop pattern rounds i nstr vec error).1 ≠
      meant out ++ us.flatMap (output out) := by
  -- what an item writes is chosen to differ from what is meant at its place
  induction us generalizing i rounds nstr vec meant extra with
  | nil =>
    refine ⟨fun _ _ => [0], fun heq => ?_⟩
    have hlen := (written_item hdrop hroom 0 (by simp) h).length_le
    rw [heq, hmeant] at hlen
    simp only [length_append, length_singleton, flatMap_nil, length_nil] at hlen
    omega
  | cons t us ih =>
    by_cases hc : ∃ c, t = char c ∧ c ≠ 37
    · obtain ⟨c, rfl, hc⟩ := hc
      refine ⟨fun _ _ => [c + 1], fun heq => ?_⟩
      have hitem := written_item hdrop hroom (c + 1) (by simp [encode, hc]) h
      rw [heq, hmeant, append_assoc, prefix_append_right_inj] at hitem
      cases extra with
      | zero => simp [output] at hitem
      | succ extra => simp [output, replicate_succ, Ne.symm hc] at hitem
    have hhead : (t.encode ++ us.flatMap encode).head? = some 37 := by
      cases t with
      | item | date => rfl
      | char c =>
        have hc37 : c = 37 := by
          by_contra hne
          exact hc ⟨c, rfl, hne⟩
        simp [encode, hc37]
    obtain ⟨rounds', hroom', hsign⟩ := initLoop_sign hdrop hroom nstr vec error hhead
    rw [hsign] at h ⊢
    by_cases ht : t = char 37
    · -- two more signs are written, and one is meant
      subst ht
      have hdrop₁ : pattern.drop (i + 1) = 37 :: 37 :: us.flatMap encode := by
        rw [← tail_drop, hdrop]
        rfl
      obtain ⟨rounds'', hroom'', hsign'⟩ := initLoop_sign hdrop₁ hroom' (nstr ++ [37]) vec error rfl
      rw [hsign'] at h ⊢
      have hdrop₂ : pattern.drop (i + 1 + 1) = 37 :: us.flatMap encode := by
        rw [← tail_drop, hdrop₁]
        rfl
      have hmeant' (out : Bytes → Bytes → Bytes) : written out vec ++ (nstr ++ [37] ++ [37]) =
          meant out ++ [37] ++ replicate (extra + 1) 37 := by
        have hsigns : replicate extra (37 : UInt8) ++ [37] = 37 :: replicate extra 37 := by
          rw [← replicate_succ', replicate_succ]
        rw [append_assoc, ← append_assoc, hmeant, append_assoc, append_assoc, ← append_assoc _ [37],
          hsigns, cons_append, hsigns]
        rfl
      obtain ⟨out, hne⟩ := ih hroom'' hdrop₂ h (fun out => meant out ++ [37]) (extra + 1) hmeant'
      exact ⟨out, by simpa [output] using hne⟩
    · -- a sign is written where the output of an item is meant
      have hout : t.output (fun _ _ => [0]) = [0] := by
        cases t with
        | item | date => rfl
        | char c => exact absurd ⟨c, rfl, fun hc37 => ht (congrArg char hc37)⟩ hc
      refine ⟨fun _ _ => [0], fun heq => ?_⟩
      have hsigns := prefix_written (fun _ _ => [0]) h
      rw [heq, ← append_assoc, hmeant, append_assoc, prefix_append_right_inj, flatMap_cons, hout,
        ← replicate_succ'] at hsigns
      simp [replicate_succ] at hsigns

end Percent

/-! ## Formatters -/

/-- What `init` makes of the pattern. -/
def parsed (pattern : Bytes) : List Piece × Bool := initLoop pattern pattern.length 0 [] [] false

lemma isError_eq_false_iff : (LogFormatter.new pattern).isError = false ↔
    (parsed pattern).2 = false ∧ Known (parsed pattern).1 := by
  simp only [LogFormatter.isError, LogFormatter.new, Bool.or_eq_false_iff, any_eq_false]
  exact and_congr_right' (forall₂_congr fun p _ => by simp)

lemma format_new (out : Bytes → Bytes → Bytes) (h : Known (parsed pattern).1) :
    (LogFormatter.new pattern).format out = written out (parsed pattern).1 := by
  rw [LogFormatter.format, LogFormatter.new, flatMap_map]
  refine flatMap_congr fun p hp => ?_
  by_cases hitem : p.isItem = true
  · have hmem := h p hp hitem
    simp [Piece.toItem, hitem, hmem, FormatItem.format]
  · simp [Piece.toItem, hitem, FormatItem.format]

lemma ne_percent_of_formats {p : Pattern}
    (herror : (LogFormatter.new p.encode).isError = false)
    (hformat : ∀ out, (LogFormatter.new p.encode).format out = p.tokens.flatMap (output out)) :
    ∀ t ∈ p.tokens, t ≠ char 37 := by
  obtain ⟨herror, hknown⟩ := isError_eq_false_iff.mp herror
  by_contra hpercent
  push Not at hpercent
  obtain ⟨t, ht, rfl⟩ := hpercent
  obtain ⟨ts, us, htokens, hfirst⟩ := eq_append_cons_of_mem ht
  have hfollows := p.follows
  have hvalid : ∀ t ∈ ts, t.Valid := fun t ht => p.valid t (by rw [htokens]; simp [ht])
  have hencode : p.encode.drop 0 = (ts ++ char 37 :: us).flatMap encode := by
    rw [drop_zero, Pattern.encode, htokens]
  rw [htokens] at hfollows
  obtain ⟨j, nstr, vec, -, hdrop, hwritten, hrun⟩ := initLoop_encode ts _ hvalid hfollows
    (fun t ht hpercent => hfirst (hpercent ▸ ht)) hencode [] known_nil
  obtain ⟨rounds, hroom, hsame⟩ := hrun _ (Nat.le_of_eq (Nat.zero_add _).symm)
  obtain ⟨rounds', hroom', hsign⟩ := initLoop_sign hdrop hroom nstr vec false rfl
  rw [parsed, hsame, hsign] at herror
  obtain ⟨out, hne⟩ := exists_written_ne hroom' (drop_add (s := [37]) hdrop) herror
    (fun out => ts.flatMap (output out) ++ [37]) 0 (fun out => by
      rw [← append_assoc, hwritten]
      simp [written])
  refine hne ?_
  rw [← hsign, ← hsame]
  have hout := hformat out
  rw [format_new out hknown] at hout
  exact hout.trans (by rw [htokens]; simp [output])

lemma formats_of_ne_percent {p : Pattern} (h : ∀ t ∈ p.tokens, t ≠ char 37) :
    (LogFormatter.new p.encode).isError = false ∧
      ∀ out, (LogFormatter.new p.encode).format out = p.tokens.flatMap (output out) := by
  have hencode : p.encode.drop 0 = (p.tokens ++ []).flatMap encode := by
    rw [append_nil, drop_zero, Pattern.encode]
  obtain ⟨j, nstr, vec, hknown, hdrop, hwritten, hrun⟩ := initLoop_encode p.tokens [] p.valid
    (by rw [append_nil]; exact p.follows) h hencode [] known_nil
  obtain ⟨rounds, -, hsame⟩ := hrun _ (Nat.le_of_eq (Nat.zero_add _).symm)
  have hparsed : parsed p.encode = (pushText nstr vec, false) := hsame.trans (initLoop_end hdrop)
  have hknown' : Known (parsed p.encode).1 := by
    rw [hparsed]
    exact known_pushText.mpr hknown
  refine ⟨isError_eq_false_iff.mpr ⟨by rw [hparsed], hknown'⟩, fun out => ?_⟩
  rw [format_new out hknown', hparsed, written_pushText, hwritten]
  rfl

/-- A pattern is read in a bounded number of rounds, and formats every event as it is meant exactly
if its text has no percent sign. -/
theorem pattern_parsed_iff (p : Pattern) :
    (∀ rounds, p.encode.length ≤ rounds →
      initLoop p.encode rounds 0 [] [] false = initLoop p.encode p.encode.length 0 [] [] false) ∧
    ((LogFormatter.new p.encode).isError = false ∧
      (∀ out, (LogFormatter.new p.encode).format out = p.tokens.flatMap (output out)) ↔
        ∀ t ∈ p.tokens, t ≠ char 37) := by
  exact ⟨fun rounds hrounds => initLoop_enough _ _ _ _ (by omega) (by omega),
    fun h => ne_percent_of_formats h.1 h.2, formats_of_ne_percent⟩

def dateLevelMessage : Pattern where
  tokens := [date (ascii "%H:%M"), char 32, char 91, item 112, char 93, char 32, item 109, item 110]
  valid := by
    simp only [forall_mem_cons, not_mem_nil, false_implies, implies_true, Valid, and_true, true_and]
    decide
  follows := by
    simp only [isChain_cons_cons, isChain_singleton, Follows, Ends, and_true]
    decide

theorem pattern_parsed_message :
    dateLevelMessage.encode = ascii "%d\x7b%H:%M\x7d [%p] %m%n" ∧
      (LogFormatter.new dateLevelMessage.encode).isError = false ∧
      ∀ out, (LogFormatter.new dateLevelMessage.encode).format out =
        dateLevelMessage.tokens.flatMap (output out) := by
  have hpercent : ∀ t ∈ dateLevelMessage.tokens, t ≠ char 37 := by simp [dateLevelMessage]
  exact ⟨by decide +kernel, (pattern_parsed_iff dateLevelMessage).2.mpr hpercent⟩

def hundredPercent : Pattern where
  tokens := [char 49, char 48, char 48, char 37]
  valid := by simp [Valid]
  follows := by simp [Follows]

def percentLetter : Pattern where
  tokens := [char 37, char 100]
  valid := by simp [Valid]
  follows := by simp [Follows]

/-- A percent sign at the end is an error, and one before a letter is an item. -/
theorem percent_misread :
    hundredPercent.encode = ascii "100%%" ∧
      (LogFormatter.new hundredPercent.encode).isError = true ∧
      percentLetter.encode = ascii "%%d" ∧
      (LogFormatter.new percentLetter.encode).isError = false ∧
      (LogFormatter.new percentLetter.encode).items =
        [.text (ascii "%"), .item (ascii "d") []] := by
  decide +kernel

end Yuyu.Config
