import Yuyu.Uri.Grammar

/-!
# Words of the URI grammar

A host is a literal in brackets or has no colon, so a host that is followed by a colon can be read
in one way.  User information is a name in front of its first colon.
-/

namespace Yuyu.UriParsing

open Foundation.ActionMachine.Expr List
open Http (Bytes)

lemma mem_lang_ch {c : UInt8} {w : Bytes} : w ∈ lang (ch c) ↔ w = [c] := by
  simp [ch]

lemma live_ch_seq {c d : UInt8} {w : Bytes} {f : Rx} :
    Live (seq (ch c) f) (d :: w) ↔ d = c ∧ Live f w := by
  rw [ch, live_sym_seq, beq_iff_eq]

lemma uses_parts :
    (uses 58 (scheme .uri) = false ∧ uses 47 (scheme .uri) = false
      ∧ uses 63 (scheme .uri) = false ∧ uses 35 (scheme .uri) = false)
    ∧ (uses 63 (hierPart .uri) = false ∧ uses 35 (hierPart .uri) = false)
    ∧ uses 47 (authority .uri) = false
    ∧ (uses 47 (hostPort .uri) = false ∧ uses 64 (hostPort .uri) = false)
    ∧ uses 35 (questionQuery .uri) = false
    ∧ (uses 64 userinfo = false ∧ uses 91 userinfo = false)
    ∧ (uses 58 (alt ipv4Address regName) = false ∧ uses 91 (alt ipv4Address regName) = false)
    ∧ (uses 91 (alt ipv6Address ipvFuture) = false ∧ uses 93 (alt ipv6Address ipvFuture) = false)
    ∧ uses 58 (plus pcharNoColon) = false := by
  decide +kernel

lemma uses_scheme :
    uses 58 (scheme .uri) = false ∧ uses 47 (scheme .uri) = false
      ∧ uses 63 (scheme .uri) = false ∧ uses 35 (scheme .uri) = false := uses_parts.1

lemma uses_hierPart : uses 63 (hierPart .uri) = false ∧ uses 35 (hierPart .uri) = false :=
  uses_parts.2.1

lemma uses_authority : uses 47 (authority .uri) = false := uses_parts.2.2.1

lemma uses_hostPort :
    uses 47 (hostPort .uri) = false ∧ uses 64 (hostPort .uri) = false := uses_parts.2.2.2.1

lemma uses_questionQuery : uses 35 (questionQuery .uri) = false := uses_parts.2.2.2.2.1

lemma uses_userinfo : uses 64 userinfo = false ∧ uses 91 userinfo = false := uses_parts.2.2.2.2.2.1

lemma uses_names :
    uses 58 (alt ipv4Address regName) = false ∧ uses 91 (alt ipv4Address regName) = false :=
  uses_parts.2.2.2.2.2.2.1

lemma uses_inBrackets :
    uses 91 (alt ipv6Address ipvFuture) = false ∧ uses 93 (alt ipv6Address ipvFuture) = false :=
  uses_parts.2.2.2.2.2.2.2.1

lemma uses_firstSegment : uses 58 (plus pcharNoColon) = false := uses_parts.2.2.2.2.2.2.2.2

/-- The two kinds of hosts. -/
theorem host_cases {h : Bytes} (hh : h ∈ lang host) :
    (∃ m, h = 91 :: (m ++ [93]) ∧ 93 ∉ m) ∨ (58 ∉ h ∧ 91 ∉ h) := by
  rcases mem_lang_alt.mp hh with hh | hh
  · obtain ⟨b, hb, rest, hrest, rfl⟩ := mem_lang_seq.mp hh
    obtain ⟨m, hm, b', hb', rfl⟩ := mem_lang_seq.mp hrest
    rw [mem_lang_ch] at hb hb'
    subst hb hb'
    exact Or.inl ⟨m, rfl, notMem_of_mem_lang hm uses_inBrackets.2⟩
  · exact Or.inr ⟨notMem_of_mem_lang hh uses_names.1, notMem_of_mem_lang hh uses_names.2⟩

lemma regName_subset_host {w : Bytes} (hw : w ∈ lang regName) : w ∈ lang host :=
  mem_lang_alt.mpr (Or.inr (mem_lang_alt.mpr (Or.inr hw)))

lemma not_live_host_colon {h : Bytes} (hh : h ∈ lang host) : ¬ Live host (h ++ [58]) := by
  intro hlive
  rcases live_alt.mp hlive with hlive | hlive
  · rcases host_cases hh with ⟨m, rfl, hm⟩ | ⟨-, hbracket⟩
    · rw [cons_append, ipLiteral, live_ch_seq] at hlive
      rcases live_seq.mp hlive.2 with hinside | ⟨u, v, happ, hv, -, hclose⟩
      · have huses := hinside.uses 93 (by simp)
        cases huses
      -- the closing bracket would be the last character
      rcases live_sym.mp hclose with hnil | ⟨d, hd, rfl⟩
      · exact hv hnil
      obtain ⟨-, hlast⟩ := append_inj' happ rfl
      rw [← (cons.inj hlast).1] at hd
      cases hd
    cases h with
    | nil =>
      rw [nil_append, ipLiteral, live_ch_seq] at hlive
      exact absurd hlive.1 (by decide)
    | cons c h =>
      rw [cons_append, ipLiteral, live_ch_seq] at hlive
      exact hbracket (hlive.1 ▸ mem_cons_self)
  have huses := hlive.uses 58 (by simp)
  cases huses

lemma append_cons_inj {w w' rest rest' : Bytes} {c : UInt8} (hw : c ∉ w) (hw' : c ∉ w')
    (h : w ++ c :: rest = w' ++ c :: rest') : w = w' ∧ rest = rest' := by
  rcases append_eq_append_iff.mp h with ⟨d, rfl, hd⟩ | ⟨d, rfl, hd⟩
  · cases d with
    | nil => exact ⟨(append_nil w).symm, (cons.inj hd).2⟩
    | cons x d =>
      obtain ⟨rfl, -⟩ := cons.inj hd
      exact absurd (by simp) hw'
  cases d with
  | nil => exact ⟨append_nil w', (cons.inj hd).2.symm⟩
  | cons x d =>
    obtain ⟨rfl, -⟩ := cons.inj hd
    exact absurd (by simp) hw

/-- A host in front of a colon is determined by the text. -/
theorem host_before_colon {h h' t rest : Bytes} (hh : h ∈ lang host) (hh' : h' ∈ lang host)
    (ht : t = [] ∨ ∃ ds, t = 58 :: ds ∧ 58 ∉ ds) (happ : h ++ t = h' ++ 58 :: rest) : h' = h := by
  rcases host_cases hh with ⟨m, rfl, hm⟩ | ⟨hcolon, hbracket⟩
  · rcases host_cases hh' with ⟨m', rfl, hm'⟩ | ⟨-, hbracket'⟩
    · -- both close at the first closing bracket
      have hinside : m ++ 93 :: t = m' ++ 93 :: (58 :: rest) := by simpa using happ
      rw [(append_cons_inj hm hm' hinside).1]
    cases h' with
    | nil => cases happ
    | cons c h' =>
      obtain ⟨rfl, -⟩ := cons.inj happ
      exact absurd mem_cons_self hbracket'
  have hcolon' : 58 ∉ h' := by
    rcases host_cases hh' with ⟨m', rfl, -⟩ | ⟨hcolon', -⟩
    · cases h with
      | nil =>
        rcases ht with rfl | ⟨ds, rfl, -⟩
        · cases happ
        · cases happ
      | cons c h =>
        obtain ⟨rfl, -⟩ := cons.inj happ
        exact absurd mem_cons_self hbracket
    · exact hcolon'
  rcases ht with rfl | ⟨ds, rfl, -⟩
  · rw [append_nil] at happ
    exact absurd (by simp [happ]) hcolon
  · exact (append_cons_inj hcolon hcolon' happ).1.symm

lemma userinfo_cons {c : UInt8} {w : Bytes} (h : c :: w ∈ lang userinfo) :
    c = 58 ∨ ∃ r w', c :: w = r ++ w' ∧ r ≠ [] ∧ 58 ∉ r ∧ w' ∈ lang userinfo
      ∧ ∀ v ∈ lang regName, r ++ v ∈ lang regName := by
  obtain ⟨w₁, w₂, hround, hw₂, rfl⟩ := cons_mem_kstar.mp h
  have hsplit : c :: w₁ ∈ lang (alt (sym unreserved) (alt pctEncoded (sym subDelims)) : Rx)
      ∨ c :: w₁ = [58] := by
    rw [← mem_lang_ch]
    simp only [mem_lang_alt] at hround ⊢
    tauto
  rcases hsplit with hround | hround
  · refine Or.inr ⟨c :: w₁, w₂, rfl, cons_ne_nil c w₁, ?_, hw₂, fun v hv => ?_⟩
    · exact notMem_of_mem_lang hround (by decide +kernel)
    · exact append_mem_lang_star hround hv
  · exact Or.inl (cons.inj hround).1

/-- User information in front of its first colon. -/
theorem regName_before_colon {w rest : Bytes} (h : w ++ 58 :: rest ∈ lang userinfo)
    (hw : 58 ∉ w) : w ∈ lang regName := by
  induction hn : w.length using Nat.strong_induction_on generalizing w with
  | _ n ih =>
    cases w with
    | nil => exact nil_mem_lang_star
    | cons c w =>
      rcases userinfo_cons h with rfl | ⟨r, w', happ, hne, hr, hw', hname⟩
      · exact absurd mem_cons_self hw
      have hsplit : (c :: w) ++ 58 :: rest = r ++ w' := happ
      rcases append_eq_append_iff.mp hsplit with ⟨d, rfl, hd⟩ | ⟨d, hd, rfl⟩
      · cases d with
        | nil =>
          have hnil := hname [] nil_mem_lang_star
          rwa [append_nil, append_nil] at hnil
        | cons x d =>
          obtain ⟨rfl, -⟩ := cons.inj hd
          exact absurd (by simp) hr
      rw [hd]
      have hshort : d.length < n := by
        have hpos := length_pos_iff.mpr hne
        rw [← hn, hd, length_append]
        omega
      refine hname d (ih d.length hshort hw' ?_ rfl)
      exact fun hmem => hw (hd ▸ mem_append_right r hmem)

end Yuyu.UriParsing
