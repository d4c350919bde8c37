import Yuyu.Http.Execution

/-!
# Recognition of method names

`CharsToHttpMethod` compares the buffer with each name for as many characters as the name has,
`StringToHttpMethod` whole strings.
-/

namespace Yuyu.Http

def stringToHttpMethod (m : Bytes) : HttpMethod :=
  match httpMethodMap.find? fun entry => ascii entry.2 == cStr m with
  | some entry => entry.1
  | none => .INVALID_METHOD

/-- A method token of the grammar: 1 to 20 upper-case letters or digits. -/
structure MethodToken (t : Bytes) : Prop where
  ne_nil : t ≠ []
  length_le : t.length ≤ 20
  chars : ∀ c ∈ t, Automaton.upperOrDigit.has c = true

/-- The token begins with a name and goes on behind it. -/
def ExtendsName (t : Bytes) : Prop :=
  ∃ entry ∈ httpMethodMap, ascii entry.2 <+: t ∧ ascii entry.2 ≠ t

/-- The callback records the method with the name `t`, and sets the error if there is none. -/
def RecordsExactly (t : Bytes) (d d' : CallbackData) : Prop :=
  (∃ entry ∈ httpMethodMap, ascii entry.2 = t
      ∧ d' = { d with data := { d.data with method := entry.1 } })
    ∨ ((∀ entry ∈ httpMethodMap, ascii entry.2 ≠ t) ∧ d' = d.setError 1000)

lemma names_prefixFree : ∀ e ∈ httpMethodMap, ∀ e' ∈ httpMethodMap,
    ascii e.2 <+: ascii e'.2 → e = e' := by
  decide +kernel

lemma entry_valid : ∀ e ∈ httpMethodMap, e.1 ≠ .INVALID_METHOD := by decide +kernel

lemma entry_unique {t : Bytes} {e e' : HttpMethod × String} (he : e ∈ httpMethodMap)
    (he' : e' ∈ httpMethodMap) (h : ascii e.2 <+: t) (h' : ascii e'.2 <+: t) : e = e' := by
  rcases List.prefix_or_prefix_of_prefix h h' with hle | hle
  · exact names_prefixFree e he e' he' hle
  · exact (names_prefixFree e' he' e he hle).symm

lemma charsToHttpMethod_of_prefix {t : Bytes} {e : HttpMethod × String} (he : e ∈ httpMethodMap)
    (h : ascii e.2 <+: t) : charsToHttpMethod t = e.1 := by
  rw [charsToHttpMethod]
  cases hfind : httpMethodMap.find? fun entry => (ascii entry.2).isPrefixOf t with
  | none =>
    have hnone := List.find?_eq_none.mp hfind e he
    exact absurd (List.isPrefixOf_iff_prefix.mpr h) hnone
  | some e' =>
    have hfound := List.find?_some hfind
    have hprefix : ascii e'.2 <+: t := List.isPrefixOf_iff_prefix.mp hfound
    rw [entry_unique he (List.mem_of_find?_eq_some hfind) h hprefix]

lemma charsToHttpMethod_of_not_prefix {t : Bytes}
    (h : ∀ e ∈ httpMethodMap, ¬ ascii e.2 <+: t) : charsToHttpMethod t = .INVALID_METHOD := by
  have hfind : (httpMethodMap.find? fun entry => (ascii entry.2).isPrefixOf t) = none := by
    refine List.find?_eq_none.mpr fun e he hprefix => ?_
    exact h e he (List.isPrefixOf_iff_prefix.mp hprefix)
  rw [charsToHttpMethod, hfind]

lemma cStr_token {t : Bytes} (ht : MethodToken t) : cStr t = t := by
  refine cStr_of_notMem fun hnul => ?_
  exact absurd (ht.chars 0 hnul) (by decide)

lemma prefix_of_name {name t : Bytes} (h : name = t) : name <+: t := h ▸ List.prefix_rfl

lemma stringToHttpMethod_of_name {t : Bytes} (ht : MethodToken t) {e : HttpMethod × String}
    (he : e ∈ httpMethodMap) (h : ascii e.2 = t) : stringToHttpMethod t = e.1 := by
  rw [stringToHttpMethod, cStr_token ht]
  cases hfind : httpMethodMap.find? fun entry => ascii entry.2 == t with
  | none =>
    have hnone := List.find?_eq_none.mp hfind e he
    exact absurd (beq_iff_eq.mpr h) hnone
  | some e' =>
    have hfound := List.find?_some hfind
    have hname : ascii e'.2 = t := beq_iff_eq.mp hfound
    rw [entry_unique he (List.mem_of_find?_eq_some hfind) (prefix_of_name h) (prefix_of_name hname)]

lemma stringToHttpMethod_of_not_name {t : Bytes} (ht : MethodToken t)
    (h : ∀ e ∈ httpMethodMap, ascii e.2 ≠ t) : stringToHttpMethod t = .INVALID_METHOD := by
  have hfind : (httpMethodMap.find? fun entry => ascii entry.2 == t) = none := by
    refine List.find?_eq_none.mpr fun e he hname => ?_
    exact h e he (beq_iff_eq.mp hname)
  rw [stringToHttpMethod, cStr_token ht, hfind]

lemma token_cases (t : Bytes) : (∃ e ∈ httpMethodMap, ascii e.2 = t ∧ ¬ ExtendsName t)
      ∨ (∃ e ∈ httpMethodMap, ascii e.2 <+: t ∧ ExtendsName t
          ∧ ∀ e' ∈ httpMethodMap, ascii e'.2 ≠ t)
      ∨ (¬ ExtendsName t ∧ ∀ e ∈ httpMethodMap, ¬ ascii e.2 <+: t) := by
  by_cases hprefix : ∃ e ∈ httpMethodMap, ascii e.2 <+: t
  · obtain ⟨e, he, h⟩ := hprefix
    by_cases hname : ascii e.2 = t
    · refine Or.inl ⟨e, he, hname, ?_⟩
      rintro ⟨e', he', h', hne⟩
      rw [← entry_unique he he' h h'] at hne
      exact hne hname
    refine Or.inr (Or.inl ⟨e, he, h, ⟨e, he, h, hname⟩, fun e' he' hname' => ?_⟩)
    rw [entry_unique he he' h (prefix_of_name hname')] at hname
    exact hname hname'
  refine Or.inr (Or.inr ⟨?_, fun e he h => hprefix ⟨e, he, h⟩⟩)
  rintro ⟨e, he, h, -⟩
  exact hprefix ⟨e, he, h⟩

/-- `CharsToHttpMethod` in the buffer agrees with `StringToHttpMethod` on the token, and so does
`on_request_method`, exactly if the token does not extend a name. -/
theorem method_exact_iff {t : Bytes} (ht : MethodToken t) (rest : Bytes) (d : CallbackData)
    (hd : d.error = 0) :
    (charsToHttpMethod (t ++ 32 :: rest) = stringToHttpMethod t ↔ ¬ ExtendsName t)
      ∧ (RecordsExactly t d (onRequestMethod (t ++ 32 :: rest) d) ↔ ¬ ExtendsName t) := by
  have hchars := charsToHttpMethod_append_space t rest
  rw [onRequestMethod, hchars]
  rcases token_cases t with ⟨e, he, hname, hnot⟩ | ⟨e, he, hprefix, hextends, hnone⟩ |
    ⟨hnot, hnone⟩
  · have hmethod := charsToHttpMethod_of_prefix he (prefix_of_name hname)
    have hstring := stringToHttpMethod_of_name ht he hname
    refine ⟨iff_of_true (hmethod.trans hstring.symm) hnot, iff_of_true ?_ hnot⟩
    rw [hmethod]
    exact Or.inl ⟨e, he, hname, if_neg (entry_valid e he)⟩
  · have hmethod := charsToHttpMethod_of_prefix he hprefix
    have hstring := stringToHttpMethod_of_not_name ht hnone
    refine ⟨iff_of_false ?_ (not_not.mpr hextends), iff_of_false ?_ (not_not.mpr hextends)⟩
    · rw [hmethod, hstring]
      exact entry_valid e he
    rw [hmethod, if_neg (entry_valid e he)]
    rintro (⟨e', he', hname, -⟩ | ⟨-, herror⟩)
    · exact hnone e' he' hname
    · have hcode := congrArg CallbackData.error herror
      simp [CallbackData.setError, hd] at hcode
  have hmethod := charsToHttpMethod_of_not_prefix hnone
  have hnames : ∀ e ∈ httpMethodMap, ascii e.2 ≠ t := fun e he h =>
    hnone e he (prefix_of_name h)
  have hstring := stringToHttpMethod_of_not_name ht hnames
  refine ⟨iff_of_true (hmethod.trans hstring.symm) hnot, iff_of_true ?_ hnot⟩
  rw [hmethod]
  exact Or.inr ⟨hnames, rfl⟩

def freshData : CallbackData := ⟨HttpRequest.default, 0⟩

theorem put_recognised :
    RecordsExactly (ascii "PUT") freshData
      (onRequestMethod (ascii "PUT / HTTP/1.1") freshData) := by
  have htoken : MethodToken (ascii "PUT") :=
    ⟨by decide +kernel, by decide +kernel, by decide +kernel⟩
  have hnot : ¬ ExtendsName (ascii "PUT") := by
    unfold ExtendsName
    decide +kernel
  exact (method_exact_iff htoken (ascii "/ HTTP/1.1") freshData rfl).2.mpr hnot

/-- `GETX` is not a name and is taken for `GET`. -/
theorem longer_token_accepted :
    (∀ entry ∈ httpMethodMap, ascii entry.2 ≠ ascii "GETX")
      ∧ stringToHttpMethod (ascii "GETX") = .INVALID_METHOD
      ∧ charsToHttpMethod (ascii "GETX / HTTP/1.1") = .GET
      ∧ onRequestMethod (ascii "GETX / HTTP/1.1") freshData = freshData := by
  decide +kernel

end Yuyu.Http
