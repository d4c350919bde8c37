import Yuyu.Http.Dump
import Yuyu.Util.UrlCode
import Mathlib.Data.List.DropRight

/-!
# Parameters and cookies

`PARSE_PARAM` of `http.cc` and its three uses. The loop looks for the next `=` and takes all that
lies in front of it as a name.
-/

namespace Yuyu.Http

open Foundation List
open Util (urlDecode)

def findFrom (str : Bytes) (c : UInt8) (pos : Nat) : Option Nat :=
  if c ∈ str.drop pos then some (pos + (str.drop pos).idxOf c) else none

def substr (str : Bytes) (start count : Nat) : Bytes := (str.drop start).take count

/-- `StringUtil::Trim`: from the first character that is not in `delimit` to the last one. -/
def trimChars (delimit str : Bytes) : Bytes :=
  (str.dropWhile (· ∈ delimit)).rdropWhile (· ∈ delimit)

def trim : Bytes → Bytes := trimChars [32, 9, 13, 10]

def strcasestr (s needle : Bytes) : Bool :=
  (cStr s).tails.any fun t => compareLower (t.take needle.length) needle == .eq

def MapType.insert (key val : Bytes) (m : MapType) : MapType :=
  OrderedMap.insertNew strcasecmp key val m

/-- The loop of `PARSE_PARAM`, with a bound on its rounds.  Without a separator the value is
all that follows. -/
def parseLoop (str : Bytes) (flag : UInt8) (trim : Bytes → Bytes) :
    Nat → Nat → MapType → Option MapType
  | 0, _, _ => none
  | rounds + 1, last, m =>
    match findFrom str 61 last with
    | none => some m
    | some key =>
      match findFrom str flag key with
      | none =>
        some (m.insert (trim (substr str last (key - last)))
          (urlDecode (str.drop (key + 1)) true))
      | some pos =>
        parseLoop str flag trim rounds (pos + 1)
          (m.insert (trim (substr str last (key - last)))
            (urlDecode (substr str (key + 1) (pos - key - 1)) true))

def parseParam (str : Bytes) (m : MapType) (flag : UInt8) (trim : Bytes → Bytes) :
    Option MapType := parseLoop str flag trim (str.length + 1) 0 m

/-- `HttpRequest` with the members that the parameters are kept in. -/
structure ParamRequest extends HttpRequest where
  parserParamFlag : UInt8 := 0
  params : MapType := []
  cookies : MapType := []
deriving DecidableEq

namespace ParamRequest

def initQueryParam (req : ParamRequest) : Option ParamRequest :=
  if req.parserParamFlag &&& 0x1 ≠ 0 then some req
  else
    (parseParam req.query req.params 38 id).map fun params =>
      { req with params := params, parserParamFlag := req.parserParamFlag ||| 0x1 }

def initBodyParam (req : ParamRequest) : Option ParamRequest :=
  if req.parserParamFlag &&& 0x2 ≠ 0 then some req
  else
    let contentType := req.getHeader (ascii "content-type") []
    if !strcasestr contentType (ascii "application/x-www-form-urlencoded") then
      some { req with parserParamFlag := req.parserParamFlag ||| 0x2 }
    else
      (parseParam req.body req.params 38 id).map fun params =>
        { req with params := params, parserParamFlag := req.parserParamFlag ||| 0x2 }

def initCookies (req : ParamRequest) : Option ParamRequest :=
  if req.parserParamFlag &&& 0x4 ≠ 0 then some req
  else
    let cookie := req.getHeader (ascii "cookie") []
    if cookie = [] then some { req with parserParamFlag := req.parserParamFlag ||| 0x4 }
    else
      (parseParam cookie req.cookies 59 trim).map fun cookies =>
        { req with cookies := cookies, parserParamFlag := req.parserParamFlag ||| 0x4 }

end ParamRequest

section Segments

variable {sep : UInt8}

def segments (sep : UInt8) (text : Bytes) : List Bytes := text.splitOn sep

/-- The text before the first `=` and the text after it. -/
def splitEq (s : Bytes) : Option (Bytes × Bytes) :=
  if 61 ∈ s then some (s.takeWhile (· ≠ 61), (s.dropWhile (· ≠ 61)).tail) else none

/-- The names and values of the segments with a `=`. -/
def assignments (segs : List Bytes) : List (Bytes × Bytes) := segs.filterMap splitEq

def cook (trim : Bytes → Bytes) (e : Bytes × Bytes) : Bytes × Bytes :=
  (trim e.1, urlDecode e.2 true)

/-- The map given by the segments of a text, inserted into `m`. -/
def segmentMap (sep : UInt8) (trim : Bytes → Bytes) (text : Bytes) (m : MapType) : MapType :=
  OrderedMap.insertNewAll strcasecmp m ((assignments (segments sep text)).map (cook trim))

/-- No segment without `=` is in front of one with `=`. -/
def AssignmentsFirst (sep : UInt8) (text : Bytes) : Prop :=
  ∀ s ∈ (segments sep text).dropWhile (61 ∈ ·), 61 ∉ s

lemma segments_single {s : Bytes} (h : sep ∉ s) : segments sep s = [s] := by
  refine splitOnP_eq_singleton fun c hc => ?_
  simpa using fun heq : c = sep => h (heq ▸ hc)

lemma segments_append {s : Bytes} (h : sep ∉ s) (rest : Bytes) :
    segments sep (s ++ sep :: rest) = s :: segments sep rest := by
  refine splitOnP_append_cons_of_forall_mem (p := (· == sep)) (fun c hc => ?_) sep
    (beq_self_eq_true sep) rest
  simpa using fun heq : c = sep => h (heq ▸ hc)

lemma segments_induction (sep : UInt8) {P : Bytes → Prop} (single : ∀ s, sep ∉ s → P s)
    (append : ∀ s rest, sep ∉ s → P rest → P (s ++ sep :: rest)) (text : Bytes) : P text := by
  induction hn : text.length using Nat.strong_induction_on generalizing text with
  | _ n ih =>
    by_cases hmem : sep ∈ text
    · obtain ⟨s, rest, rfl, hs⟩ := eq_append_cons_of_mem hmem
      refine append s rest hs (ih rest.length ?_ rest rfl)
      rw [← hn, length_append, length_cons]
      omega
    · exact single text hmem

lemma splitEq_of_notMem {s : Bytes} (h : 61 ∉ s) : splitEq s = none := if_neg h

lemma splitEq_of_mem {s : Bytes} (h : 61 ∈ s) :
    splitEq s = some (s.takeWhile (· ≠ 61), (s.dropWhile (· ≠ 61)).tail) := if_pos h

lemma splitEq_append {name : Bytes} (h : 61 ∉ name) (value : Bytes) :
    splitEq (name ++ 61 :: value) = some (name, value) := by
  have hall : ∀ c ∈ name, (decide (c ≠ 61)) = true := by
    intro c hc
    simpa using fun heq : c = 61 => h (heq ▸ hc)
  rw [splitEq, if_pos (by simp), takeWhile_append_of_pos hall, dropWhile_append_of_pos hall]
  simp

lemma mem_segments (text : Bytes) : ∀ s ∈ segments sep text, ∀ c ∈ s, c ∈ text ∧ c ≠ sep := by
  induction text using segments_induction sep with
  | single s hs =>
    rw [segments_single hs]
    intro t ht c hc
    obtain rfl := mem_singleton.mp ht
    exact ⟨hc, fun heq => hs (heq ▸ hc)⟩
  | append s rest hs ih =>
    rw [segments_append hs]
    intro t ht c hc
    rcases mem_cons.mp ht with rfl | ht
    · exact ⟨mem_append_left _ hc, fun heq => hs (heq ▸ hc)⟩
    · obtain ⟨hmem, hne⟩ := ih t ht c hc
      exact ⟨mem_append_right _ (mem_cons_of_mem _ hmem), hne⟩

end Segments

/-! ## What the loop inserts -/

section Glued

variable {sep : UInt8}

/-- The names and values that the loop finds: what is left of earlier segments goes in front of
the next name, with the separators. -/
def gluedEntries (sep : UInt8) : Bytes → List Bytes → List (Bytes × Bytes)
  | _, [] => []
  | pending, s :: segs =>
    match splitEq s with
    | none => gluedEntries sep (pending ++ s ++ [sep]) segs
    | some (name, value) => (pending ++ name, value) :: gluedEntries sep [] segs

lemma glued_none {segs : List Bytes} (h : ∀ s ∈ segs, 61 ∉ s) (pending : Bytes) :
    gluedEntries sep pending segs = [] := by
  induction segs generalizing pending with
  | nil => rfl
  | cons s segs ih =>
    rw [gluedEntries, splitEq_of_notMem (h s mem_cons_self)]
    exact ih (fun t ht => h t (mem_cons_of_mem _ ht)) _

lemma glued_first {value tail : Bytes} {segs : List Bytes} (hsep : sep ≠ 61)
    (hvalue : sep ∉ value) (htail : ∀ s, sep ∉ s → segments sep (s ++ tail) = s :: segs)
    (name : Bytes) :
    61 ∉ name → ∀ pending, gluedEntries sep pending (segments sep (name ++ 61 :: (value ++ tail)))
      = (pending ++ name, value) :: gluedEntries sep [] segs := by
  induction name using segments_induction sep with
  | single s hs =>
    intro hname pending
    have hsegment : sep ∉ s ++ 61 :: value := by simp [hs, hvalue, hsep]
    have hsplit : segments sep (s ++ 61 :: (value ++ tail)) = (s ++ 61 :: value) :: segs := by
      rw [← htail _ hsegment, append_assoc, cons_append]
    rw [hsplit, gluedEntries, splitEq_append hname]
  | append s rest hs ih =>
    intro hname pending
    have hs61 : 61 ∉ s := fun h => hname (mem_append_left _ h)
    have hrest61 : 61 ∉ rest := fun h =>
      hname (mem_append_right _ (mem_cons_of_mem _ h))
    rw [append_assoc, cons_append, segments_append hs, gluedEntries,
      splitEq_of_notMem hs61]
    refine (ih hrest61 (pending ++ s ++ [sep])).trans ?_
    simp

end Glued

section Loop

variable {str : Bytes} {pos : Nat} {c : UInt8}

lemma findFrom_none (h : c ∉ str.drop pos) : findFrom str c pos = none := if_neg h

lemma findFrom_some {before behind : Bytes} (h : str.drop pos = before ++ c :: behind)
    (hc : c ∉ before) : findFrom str c pos = some (pos + before.length) := by
  rw [findFrom, h, if_pos (by simp), idxOf_append_of_notMem hc, idxOf_cons_self, Nat.add_zero]

lemma drop_behind {before behind : Bytes} (h : str.drop pos = before ++ c :: behind) :
    str.drop (pos + before.length + 1) = behind := by
  rw [Nat.add_assoc, ← drop_drop, h, append_cons]
  exact drop_left' (by simp)

lemma substr_before {before behind : Bytes} (h : str.drop pos = before ++ behind) :
    substr str pos before.length = before := by
  rw [substr, h, take_left]

lemma parseLoop_eq {flag : UInt8} (hflag : flag ≠ 61) (trim : Bytes → Bytes) {rounds : Nat}
    (hrounds : (str.drop pos).length < rounds) (m : MapType) : parseLoop str flag trim rounds pos m
      = some (OrderedMap.insertNewAll strcasecmp m
          ((gluedEntries flag [] (segments flag (str.drop pos))).map (cook trim))) := by
  induction rounds generalizing pos m with
  | zero => exact absurd hrounds (Nat.not_lt_zero _)
  | succ rounds ih =>
    by_cases heq : 61 ∈ str.drop pos
    · obtain ⟨name, behind, hsplit, hname⟩ := eq_append_cons_of_mem heq
      have hkey := findFrom_some hsplit hname
      have htext : substr str pos (pos + name.length - pos) = name := by
        rw [Nat.add_sub_cancel_left, substr_before hsplit]
      have hbehind := drop_behind hsplit
      have hat : str.drop (pos + name.length) = 61 :: behind := by
        rw [← drop_drop, hsplit, drop_left]
      by_cases hmore : flag ∈ behind
      · obtain ⟨value, rest, rfl, hvalue⟩ := eq_append_cons_of_mem hmore
        have hat' : str.drop (pos + name.length) = (61 :: value) ++ flag :: rest := by
          rw [hat, cons_append]
        have hnext := findFrom_some hat' (by simp [hvalue, hflag])
        have hvalueText : substr str (pos + name.length + 1)
            (pos + name.length + (61 :: value).length - (pos + name.length) - 1) = value := by
          rw [Nat.add_sub_cancel_left, length_cons, Nat.add_sub_cancel, substr_before hbehind]
        have hglued := glued_first hflag hvalue (fun s hs => segments_append hs rest) name hname []
        have hshort :
            (str.drop (pos + name.length + (61 :: value).length + 1)).length < rounds := by
          rw [drop_behind hat']
          have hlength := congrArg List.length hsplit
          simp only [length_append, length_cons] at hlength
          omega
        simp only [parseLoop, hkey, hnext, htext, hvalueText]
        rw [ih hshort, drop_behind hat', hsplit, hglued, map_cons,
          OrderedMap.insertNewAll, OrderedMap.insertNewAll, foldl_cons]
        rfl
      have hnext : findFrom str flag (pos + name.length) = none :=
        findFrom_none (by simp [hat, hmore, hflag])
      have hend : ∀ s, flag ∉ s → segments flag (s ++ []) = [s] := by
        intro s hs
        rw [append_nil, segments_single hs]
      have hglued := glued_first hflag hmore hend name hname []
      rw [append_nil] at hglued
      simp only [parseLoop, hkey, hnext, htext, hbehind]
      rw [hsplit, hglued]
      rfl
    have hnone : ∀ s ∈ segments flag (str.drop pos), 61 ∉ s := fun s hs h61 =>
      heq (mem_segments _ s hs 61 h61).1
    simp only [parseLoop, findFrom_none heq]
    rw [glued_none hnone]
    rfl

lemma parseParam_eq {flag : UInt8} (hflag : flag ≠ 61) (trim : Bytes → Bytes) (str : Bytes)
    (m : MapType) : parseParam str m flag trim = some (OrderedMap.insertNewAll strcasecmp m
          ((gluedEntries flag [] (segments flag str)).map (cook trim))) := by
  have hrounds : (str.drop 0).length < str.length + 1 := Nat.lt_succ_self _
  exact parseLoop_eq hflag trim hrounds m

end Loop

section Apart

variable {sep : UInt8}

lemma glued_of_assignmentsFirst {segs : List Bytes}
    (h : ∀ s ∈ segs.dropWhile (61 ∈ ·), 61 ∉ s) : gluedEntries sep [] segs = assignments segs := by
  induction segs with
  | nil => rfl
  | cons s segs ih =>
    by_cases hs : 61 ∈ s
    · rw [dropWhile_cons_of_pos (by simpa using hs)] at h
      rw [gluedEntries, assignments, filterMap_cons, splitEq_of_mem hs]
      exact congrArg _ (ih h)
    rw [dropWhile_cons_of_neg (by simpa using hs)] at h
    have hall : assignments (s :: segs) = [] :=
      filterMap_eq_nil_iff.mpr fun t ht => splitEq_of_notMem (h t ht)
    rw [hall, glued_none h]

lemma glued_pending {segs : List Bytes} {pending : Bytes} (hpending : sep ∈ pending)
    (h : ∃ s ∈ segs, 61 ∈ s) : ∃ e ∈ gluedEntries sep pending segs, sep ∈ e.1 := by
  induction segs generalizing pending with
  | nil => simp at h
  | cons s segs ih =>
    by_cases hs : 61 ∈ s
    · rw [gluedEntries, splitEq_of_mem hs]
      exact ⟨_, mem_cons_self, mem_append_left _ hpending⟩
    rw [gluedEntries, splitEq_of_notMem hs]
    obtain ⟨t, ht, ht61⟩ := h
    rcases mem_cons.mp ht with rfl | ht
    · exact absurd ht61 hs
    · exact ih (by simp) ⟨t, ht, ht61⟩

lemma glued_of_not_assignmentsFirst {segs : List Bytes}
    (h : ¬ ∀ s ∈ segs.dropWhile (61 ∈ ·), 61 ∉ s) : ∃ e ∈ gluedEntries sep [] segs, sep ∈ e.1 := by
  induction segs with
  | nil => simp at h
  | cons s segs ih =>
    by_cases hs : 61 ∈ s
    · rw [dropWhile_cons_of_pos (by simpa using hs)] at h
      rw [gluedEntries, splitEq_of_mem hs]
      obtain ⟨e, he, hsep⟩ := ih h
      exact ⟨e, mem_cons_of_mem _ he, hsep⟩
    rw [dropWhile_cons_of_neg (by simpa using hs)] at h
    push Not at h
    obtain ⟨t, ht, ht61⟩ := h
    rw [gluedEntries, splitEq_of_notMem hs]
    rcases mem_cons.mp ht with rfl | ht
    · exact absurd ht61 hs
    · exact glued_pending (by simp) ⟨t, ht, ht61⟩

lemma mem_assignments (text : Bytes) :
    ∀ e ∈ assignments (segments sep text), ∀ c ∈ e.1, c ∈ text ∧ c ≠ sep := by
  intro e he c hc
  obtain ⟨s, hs, hsplit⟩ := mem_filterMap.mp he
  by_cases hs61 : 61 ∈ s
  · rw [splitEq_of_mem hs61, Option.some.injEq] at hsplit
    rw [← hsplit] at hc
    exact mem_segments text s hs c (takeWhile_subset _ hc)
  · rw [splitEq_of_notMem hs61] at hsplit
    cases hsplit

lemma mem_glued {segs : List Bytes} {pending : Bytes} :
    ∀ e ∈ gluedEntries sep pending segs, ∀ c ∈ e.1, c ∈ pending ∨ c = sep ∨ ∃ s ∈ segs, c ∈ s := by
  induction segs generalizing pending with
  | nil => exact fun e he => absurd he not_mem_nil
  | cons s segs ih =>
    intro e he c hc
    have hlater : (∃ t ∈ segs, c ∈ t) → ∃ t ∈ s :: segs, c ∈ t := fun ⟨t, ht, hct⟩ =>
      ⟨t, mem_cons_of_mem _ ht, hct⟩
    by_cases hs : 61 ∈ s
    · rw [gluedEntries, splitEq_of_mem hs] at he
      rcases mem_cons.mp he with rfl | he
      · rcases mem_append.mp hc with hc | hc
        · exact Or.inl hc
        · exact Or.inr (Or.inr ⟨s, mem_cons_self, takeWhile_subset _ hc⟩)
      rcases ih e he c hc with hnil | hsep | hmem
      · exact absurd hnil not_mem_nil
      · exact Or.inr (Or.inl hsep)
      · exact Or.inr (Or.inr (hlater hmem))
    rw [gluedEntries, splitEq_of_notMem hs] at he
    rcases ih e he c hc with hpending | hsep | hmem
    · simp only [mem_append, mem_singleton] at hpending
      rcases hpending with (hpending | hc) | hsep
      · exact Or.inl hpending
      · exact Or.inr (Or.inr ⟨s, mem_cons_self, hc⟩)
      · exact Or.inr (Or.inl hsep)
    · exact Or.inr (Or.inl hsep)
    · exact Or.inr (Or.inr (hlater hmem))

end Apart

/-! ## Names that are equal ignoring case -/

lemma map_toLower_of_compareLower {a b : Bytes} (h : compareLower a b = .eq) :
    a.map toLower = b.map toLower := by
  induction a generalizing b with
  | nil =>
    cases b with
    | nil => rfl
    | cons d b => cases h
  | cons c a ih =>
    cases b with
    | nil => cases h
    | cons d b =>
      rw [compareLower, Ordering.then_eq_eq, Std.LawfulEqCmp.compare_eq_iff_eq] at h
      rw [map_cons, map_cons, h.1, ih h.2]

lemma toLower_eq_iff {sep c : UInt8} (hsep : sep = 38 ∨ sep = 59) : toLower c = sep ↔ c = sep := by
  unfold toLower
  split
  · rename_i hupper
    simp only [UInt8.le_iff_toNat_le, UInt8.reduceToNat] at hupper
    rcases hsep with rfl | rfl
    · simp only [← UInt8.toNat_inj, UInt8.toNat_add, UInt8.reduceToNat]
      omega
    · simp only [← UInt8.toNat_inj, UInt8.toNat_add, UInt8.reduceToNat]
      omega
  · rfl

lemma sep_mem_of_strcasecmp {sep : UInt8} (hsep : sep = 38 ∨ sep = 59) {a b : Bytes}
    (ha : 0 ∉ a) (hb : 0 ∉ b) (h : strcasecmp a b = .eq) (hmem : sep ∈ b) : sep ∈ a := by
  rw [strcasecmp, cStr_of_notMem ha, cStr_of_notMem hb] at h
  have hlower : sep ∈ a.map toLower := by
    rw [map_toLower_of_compareLower h]
    exact mem_map.mpr ⟨sep, hmem, (toLower_eq_iff hsep).mpr rfl⟩
  obtain ⟨c, hc, hcsep⟩ := mem_map.mp hlower
  rwa [(toLower_eq_iff hsep).mp hcsep] at hc

lemma mem_dropWhile_of_not {p : UInt8 → Bool} {c : UInt8} {s : Bytes} (hc : c ∈ s)
    (hp : p c = false) : c ∈ s.dropWhile p := by
  rw [← takeWhile_append_dropWhile (p := p) (l := s)] at hc
  rcases mem_append.mp hc with htake | hdrop
  · rw [mem_takeWhile_imp htake] at hp
    cases hp
  · exact hdrop

lemma mem_trim {s : Bytes} : (∀ c ∈ trim s, c ∈ s) ∧ (59 ∈ s → 59 ∈ trim s) := by
  constructor
  · intro c hc
    exact (dropWhile_suffix _).subset ( rdropWhile_prefix _ _ |>.subset hc)
  intro h
  have hdrop := mem_dropWhile_of_not (p := (· ∈ [32, 9, 13, 10])) h (by decide)
  rw [trim, trimChars, List.rdropWhile, mem_reverse]
  exact mem_dropWhile_of_not (mem_reverse.mpr hdrop) (by decide)

/-- The map `m'` that is made of a text and a map `m`, compared with that of the segments. -/
structure Outcome (sep : UInt8) (trim : Bytes → Bytes) (text : Bytes) (m m' : MapType) :
    Prop where
  apart : AssignmentsFirst sep text → m' = segmentMap sep trim text m
  first : AssignmentsFirst sep text → m = [] → ∀ name, m'.find name
      = OrderedMap.find strcasecmp ((assignments (segments sep text)).map (cook trim)) name
  glued : m = [] → 0 ∉ text → m' = segmentMap sep trim text m → AssignmentsFirst sep text

lemma find_segmentMap (sep : UInt8) (trim : Bytes → Bytes) (text name : Bytes) :
    (segmentMap sep trim text []).find name
      = OrderedMap.find strcasecmp ((assignments (segments sep text)).map (cook trim)) name := by
  rw [MapType.find_eq, segmentMap, OrderedMap.find_insertNewAll List.Pairwise.nil]
  rfl

lemma outcome_of_parseParam {sep : UInt8} (hsep : sep = 38 ∨ sep = 59) {trim : Bytes → Bytes}
    (hsubset : ∀ s, ∀ c ∈ trim s, c ∈ s) (hkeeps : ∀ s, sep ∈ s → sep ∈ trim s)
    (text : Bytes) (m : MapType) :
    ∃ m', parseParam text m sep trim = some m' ∧ Outcome sep trim text m m' := by
  have hne : sep ≠ 61 := by
    rcases hsep with rfl | rfl <;> decide
  refine ⟨_, parseParam_eq hne trim text m, ?_, ?_, ?_⟩
  · intro hfirst
    rw [glued_of_assignmentsFirst hfirst]
    rfl
  · rintro hfirst rfl name
    rw [glued_of_assignmentsFirst hfirst]
    exact find_segmentMap sep trim text name
  rintro rfl hnul heq
  by_contra hglued
  have hexists : ∃ e ∈ gluedEntries sep [] (segments sep text), sep ∈ e.1 :=
    glued_of_not_assignmentsFirst hglued
  obtain ⟨e, he, hesep⟩ := hexists
  -- the glued name is in the one map and not in the other
  have hfound := congrArg (OrderedMap.find strcasecmp · (trim e.1)) heq
  rw [← MapType.find_eq (segmentMap sep trim text []), find_segmentMap,
    OrderedMap.find_insertNewAll List.Pairwise.nil] at hfound
  have hnames : OrderedMap.find strcasecmp
      ((assignments (segments sep text)).map (cook trim)) (trim e.1) = none := by
    refine OrderedMap.find_eq_none fun x hx hcmp => ?_
    obtain ⟨y, hy, rfl⟩ := mem_map.mp hx
    have hchars := mem_assignments text y hy
    have hynul : 0 ∉ trim y.1 := fun h => hnul (hchars 0 (hsubset y.1 0 h)).1
    have henul : 0 ∉ trim e.1 := by
      intro h
      rcases mem_glued e he 0 (hsubset e.1 0 h) with hnil | hzero | ⟨s, hs, hzero⟩
      · exact absurd hnil not_mem_nil
      · rcases hsep with rfl | rfl <;> cases hzero
      · exact hnul (mem_segments text s hs 0 hzero).1
    have hmem := sep_mem_of_strcasecmp hsep hynul henul hcmp (hkeeps e.1 hesep)
    exact (hchars sep (hsubset y.1 sep hmem)).2 rfl
  rw [hnames] at hfound
  have hself : (trim e.1, urlDecode e.2 true)
      ∈ (gluedEntries sep [] (segments sep text)).map (cook trim) :=
    mem_map.mpr ⟨e, he, rfl⟩
  have hnone := List.find?_eq_none.mp (Option.map_eq_none_iff.mp hfound) _ hself
  exact hnone (by simp [Std.ReflCmp.compare_self])

/-- The map is that of the segments, the first one of equal names winning, if no segment without `=`
is in front of one with `=`; when only then. -/
theorem init_params_iff (req : ParamRequest) :
    (req.parserParamFlag &&& 0x1 = 0 →
        ∃ req', req.initQueryParam = some req'
          ∧ Outcome 38 id req.query req.params req'.params)
      ∧ (req.parserParamFlag &&& 0x2 = 0 →
          strcasestr (req.getHeader (ascii "content-type") [])
            (ascii "application/x-www-form-urlencoded") = true →
          ∃ req', req.initBodyParam = some req'
            ∧ Outcome 38 id req.body req.params req'.params)
      ∧ (req.parserParamFlag &&& 0x4 = 0 →
          ∃ req', req.initCookies = some req'
            ∧ Outcome 59 trim (req.getHeader (ascii "cookie") []) req.cookies req'.cookies) := by
  have hquery (text : Bytes) (m : MapType) :
      ∃ m', parseParam text m 38 id = some m' ∧ Outcome 38 id text m m' :=
    outcome_of_parseParam (Or.inl rfl) (fun _ _ h => h) (fun _ h => h) text m
  have hcookie (text : Bytes) (m : MapType) :
      ∃ m', parseParam text m 59 trim = some m' ∧ Outcome 59 trim text m m' :=
    outcome_of_parseParam (Or.inr rfl) (fun _ => mem_trim.1) (fun _ => mem_trim.2) text m
  refine ⟨fun hflag => ?_, fun hflag hform => ?_, fun hflag => ?_⟩
  · obtain ⟨m', hparse, hout⟩ := hquery req.query req.params
    refine ⟨{ req with params := m', parserParamFlag := req.parserParamFlag ||| 0x1 }, ?_, hout⟩
    simp [ParamRequest.initQueryParam, hflag, hparse]
  · obtain ⟨m', hparse, hout⟩ := hquery req.body req.params
    refine ⟨{ req with params := m', parserParamFlag := req.parserParamFlag ||| 0x2 }, ?_, hout⟩
    simp [ParamRequest.initBodyParam, hflag, hform, hparse]
  obtain ⟨m', hparse, hout⟩ := hcookie (req.getHeader (ascii "cookie") []) req.cookies
  by_cases hempty : req.getHeader (ascii "cookie") [] = []
  · -- an empty header is not parsed, and would give no entries
    have hsame : m' = req.cookies := by
      rw [hempty] at hparse
      exact (Option.some.inj hparse).symm
    rw [hsame] at hout
    refine ⟨{ req with parserParamFlag := req.parserParamFlag ||| 0x4 }, ?_, hout⟩
    simp [ParamRequest.initCookies, hflag, hempty]
  · refine ⟨{ req with cookies := m', parserParamFlag := req.parserParamFlag ||| 0x4 }, ?_, hout⟩
    simp [ParamRequest.initCookies, hflag, hempty, hparse]

def queryRequest (query : Bytes) : ParamRequest := { HttpRequest.default with query := query }

theorem query_apart :
    ∃ req', (queryRequest (ascii "a=1&b=%32&c")).initQueryParam = some req'
      ∧ req'.params = segmentMap 38 id (ascii "a=1&b=%32&c") [] := by
  obtain ⟨req', hinit, hout⟩ := (init_params_iff (queryRequest (ascii "a=1&b=%32&c"))).1 rfl
  refine ⟨req', hinit, hout.apart ?_⟩
  unfold AssignmentsFirst
  decide +kernel

/-- In the query `a&b=1` the segment `b=1` sets the name `a&b`, and `b` is not set. -/
theorem segment_without_value :
    (∃ req', (queryRequest (ascii "a&b=1")).initQueryParam = some req'
        ∧ req'.params = [(ascii "a&b", ascii "1")])
      ∧ segmentMap 38 id (ascii "a&b=1") [] = [(ascii "b", ascii "1")] := by
  refine ⟨⟨_, rfl, ?_⟩, ?_⟩
  · decide +kernel
  · decide +kernel

end Yuyu.Http
