import Mathlib.Computability.Language

/-!
# Regular expressions with embedded actions

Expressions over classes of symbols, in which actions are embedded when a part is entered and when
it is left. All ways to read a word are followed at the same time, and on each symbol their actions
are taken together.
-/

namespace Foundation
namespace ActionMachine

open List

universe u v

inductive Expr (σ : Type u) (α : Type v) where
  | eps
  | sym (p : σ → Bool)
  | alt (e f : Expr σ α)
  | seq (e f : Expr σ α)
  | star (e : Expr σ α)
  | enter (a : α) (e : Expr σ α)
  | leave (a : α) (e : Expr σ α)

variable {σ : Type u} {α : Type v}

namespace Expr

def opt (e : Expr σ α) : Expr σ α := alt e eps

def plus (e : Expr σ α) : Expr σ α := seq e (star e)

def times (e : Expr σ α) : Nat → Expr σ α
  | 0 => eps
  | n + 1 => seq e (times e n)

def between (e : Expr σ α) (least more : Nat) : Expr σ α := seq (times e least) (times (opt e) more)

def embeddings : Expr σ α → List α
  | eps => []
  | sym _ => []
  | alt e f => embeddings e ++ embeddings f
  | seq e f => embeddings e ++ embeddings f
  | star e => embeddings e
  | enter a e => a :: embeddings e
  | leave a e => embeddings e ++ [a]

section Nodup

variable {e f : Expr σ α}

lemma nodup_alt (h : (alt e f).embeddings.Nodup) :
    e.embeddings.Nodup ∧ f.embeddings.Nodup ∧ e.embeddings.Disjoint f.embeddings :=
  ⟨h.of_append_left, h.of_append_right, disjoint_of_nodup_append h⟩

lemma nodup_seq (h : (seq e f).embeddings.Nodup) :
    e.embeddings.Nodup ∧ f.embeddings.Nodup ∧ e.embeddings.Disjoint f.embeddings :=
  ⟨h.of_append_left, h.of_append_right, disjoint_of_nodup_append h⟩

lemma nodup_enter {a : α} (h : (enter a e).embeddings.Nodup) :
    a ∉ e.embeddings ∧ e.embeddings.Nodup := nodup_cons.mp h

end Nodup

def uses (c : σ) : Expr σ α → Bool
  | eps => false
  | sym p => p c
  | alt e f => uses c e || uses c f
  | seq e f => uses c e || uses c f
  | star e => uses c e
  | enter _ e => uses c e
  | leave _ e => uses c e

def lang : Expr σ α → Language σ
  | eps => 1
  | sym p => {w | ∃ c, p c = true ∧ w = [c]}
  | alt e f => lang e + lang f
  | seq e f => lang e * lang f
  | star e => KStar.kstar (lang e)
  | enter _ e => lang e
  | leave _ e => lang e

def out : Expr σ α → Option (List α)
  | eps => some []
  | sym _ => none
  | alt e f =>
    match out e, out f with
    | none, o => o
    | some a, none => some a
    | some a, some b => some (a ++ b)
  | seq e f =>
    match out e, out f with
    | some a, some b => some (a ++ b)
    | _, _ => none
  | star e => some ((out e).getD [])
  | enter a e => (out e).map (a :: ·)
  | leave a e => (out e).map (· ++ [a])

def step (c : σ) : Expr σ α → List (List α × Expr σ α)
  | eps => []
  | sym p => if p c then [([], eps)] else []
  | alt e f => step c e ++ step c f
  | seq e f =>
    (step c e).map (fun t => (t.1, seq t.2 f)) ++
      match out e with
      | none => []
      | some o => (step c f).map fun t => (o ++ t.1, t.2)
  | star e => (step c e).map fun t => ((out e).getD [] ++ t.1, seq t.2 (star e))
  | enter a e => (step c e).map fun t => (a :: t.1, t.2)
  | leave a e => (step c e).map fun t => (t.1, leave a t.2)

def threads : List σ → Expr σ α → List (Expr σ α)
  | [], e => [e]
  | c :: w, e => (step c e).flatMap fun t => threads w t.2

/-! ## Words -/

section Words

variable {e f : Expr σ α} {w : List σ}

@[simp] lemma mem_lang_eps : w ∈ lang (eps : Expr σ α) ↔ w = [] := Language.mem_one w

@[simp] lemma mem_lang_sym {p : σ → Bool} :
    w ∈ lang (sym p : Expr σ α) ↔ ∃ c, p c = true ∧ w = [c] := Iff.rfl

@[simp] lemma mem_lang_alt : w ∈ lang (alt e f) ↔ w ∈ lang e ∨ w ∈ lang f :=
  Language.mem_add (lang e) (lang f) w

lemma mem_lang_seq : w ∈ lang (seq e f) ↔ ∃ u ∈ lang e, ∃ v ∈ lang f, u ++ v = w := Language.mem_mul

lemma nil_mem_lang_star : [] ∈ lang (star e) := Language.nil_mem_kstar (lang e)

lemma append_mem_lang_star {v : List σ} (hw : w ∈ lang e) (hv : v ∈ lang (star e)) :
    w ++ v ∈ lang (star e) := by
  obtain ⟨rounds, rfl, hrounds⟩ := Language.mem_kstar.mp hv
  exact Language.mem_kstar.mpr ⟨w :: rounds, rfl, forall_mem_cons.mpr ⟨hw, hrounds⟩⟩

@[simp] lemma mem_lang_enter {a : α} : w ∈ lang (enter a e) ↔ w ∈ lang e := Iff.rfl

@[simp] lemma mem_lang_leave {a : α} : w ∈ lang (leave a e) ↔ w ∈ lang e := Iff.rfl

@[simp] lemma mem_lang_opt : w ∈ lang (opt e) ↔ w ∈ lang e ∨ w = [] := by
  simp [opt]

end Words

lemma out_isSome_iff (e : Expr σ α) : (out e).isSome ↔ [] ∈ lang e := by
  induction e with
  | eps | sym => simp [out]
  | alt e f ihe ihf =>
    rw [lang, Language.mem_add, ← ihe, ← ihf, out]
    cases out e <;> cases out f <;> simp
  | seq e f ihe ihf =>
    have hnil : [] ∈ lang e * lang f ↔ [] ∈ lang e ∧ [] ∈ lang f := by
      simp [Language.mem_mul, append_eq_nil_iff]
    rw [lang, hnil, ← ihe, ← ihf, out]
    cases out e <;> cases out f <;> simp
  | star e _ => simp [out, lang, Language.nil_mem_kstar]
  | enter a e ih | leave a e ih => rw [out, lang, Option.isSome_map, ih]

lemma exists_out_iff (e : Expr σ α) : (∃ o, out e = some o) ↔ [] ∈ lang e := by
  rw [← out_isSome_iff, Option.isSome_iff_exists]

variable {c : σ} {w : List σ} {e t : Expr σ α}

lemma cons_mem_mul {l m : Language σ} : c :: w ∈ l * m
      ↔ (∃ w₁ w₂, c :: w₁ ∈ l ∧ w₂ ∈ m ∧ w = w₁ ++ w₂) ∨ ([] ∈ l ∧ c :: w ∈ m) := by
  rw [Language.mem_mul]
  constructor
  · rintro ⟨u₁, hu₁, u₂, hu₂, happ⟩
    cases u₁ with
    | nil => exact Or.inr ⟨hu₁, by rwa [← happ]⟩
    | cons d u₁ =>
      obtain ⟨rfl, rfl⟩ := cons.inj happ
      exact Or.inl ⟨u₁, u₂, hu₁, hu₂, rfl⟩
  rintro (⟨w₁, w₂, hw₁, hw₂, rfl⟩ | ⟨hnil, hw⟩)
  · exact ⟨c :: w₁, hw₁, w₂, hw₂, rfl⟩
  · exact ⟨[], hnil, c :: w, hw, rfl⟩

lemma cons_mem_kstar {l : Language σ} :
    c :: w ∈ KStar.kstar l ↔ ∃ w₁ w₂, c :: w₁ ∈ l ∧ w₂ ∈ KStar.kstar l ∧ w = w₁ ++ w₂ := by
  constructor
  · intro hw
    rw [Language.kstar_def_nonempty] at hw
    obtain ⟨rounds, hflat, hrounds⟩ := hw
    cases rounds with
    | nil => cases hflat
    | cons r rounds =>
      obtain ⟨hr, hne⟩ := hrounds r mem_cons_self
      cases r with
      | nil => exact absurd rfl hne
      | cons d r =>
        obtain ⟨rfl, rfl⟩ := cons.inj hflat
        refine ⟨r, rounds.flatten, hr, ?_, rfl⟩
        exact Language.mem_kstar.mpr ⟨rounds, rfl, fun y hy => (hrounds y (mem_cons_of_mem _ hy)).1⟩
  rintro ⟨w₁, w₂, hw₁, hw₂, rfl⟩
  obtain ⟨rounds, rfl, hrounds⟩ := Language.mem_kstar.mp hw₂
  refine Language.mem_kstar.mpr ⟨(c :: w₁) :: rounds, rfl, ?_⟩
  intro y hy
  rcases mem_cons.mp hy with rfl | hy
  · exact hw₁
  · exact hrounds y hy

lemma cons_mem_lang_iff (e : Expr σ α) : c :: w ∈ lang e ↔ ∃ t ∈ step c e, w ∈ lang t.2 := by
  induction e generalizing w with
  | eps => simp [step]
  | sym p =>
    rw [step]
    by_cases hp : p c = true
    · simp [hp]
    · simp [hp]
  | alt e f ihe ihf =>
    rw [lang, Language.mem_add, ihe, ihf, step]
    simp only [mem_append, or_and_right, exists_or]
  | seq e f ihe ihf =>
    rw [lang, cons_mem_mul, step, ihf]
    have hnil := exists_out_iff e
    constructor
    · rintro (⟨w₁, w₂, hw₁, hw₂, rfl⟩ | ⟨hempty, t, ht, hw⟩)
      · obtain ⟨t, ht, hw⟩ := ihe.mp hw₁
        refine ⟨(t.1, seq t.2 f), mem_append_left _ (mem_map_of_mem ht), ?_⟩
        exact Language.mem_mul.mpr ⟨w₁, hw, w₂, hw₂, rfl⟩
      obtain ⟨o, ho⟩ := hnil.mpr hempty
      refine ⟨(o ++ t.1, t.2), mem_append_right _ ?_, hw⟩
      rw [ho]
      exact mem_map.mpr ⟨t, ht, rfl⟩
    rintro ⟨t, ht, hw⟩
    rcases mem_append.mp ht with ht | ht
    · obtain ⟨t', ht', rfl⟩ := mem_map.mp ht
      obtain ⟨w₁, hw₁, w₂, hw₂, rfl⟩ := Language.mem_mul.mp hw
      exact Or.inl ⟨w₁, w₂, ihe.mpr ⟨t', ht', hw₁⟩, hw₂, rfl⟩
    cases ho : out e with
    | none =>
      rw [ho] at ht
      cases ht
    | some o =>
      rw [ho] at ht
      obtain ⟨t', ht', rfl⟩ := mem_map.mp ht
      exact Or.inr ⟨hnil.mp ⟨o, ho⟩, t', ht', hw⟩
  | star e ih =>
    rw [lang, cons_mem_kstar, step]
    constructor
    · rintro ⟨w₁, w₂, hw₁, hw₂, rfl⟩
      obtain ⟨t, ht, hw⟩ := ih.mp hw₁
      exact ⟨_, mem_map_of_mem ht, Language.mem_mul.mpr ⟨w₁, hw, w₂, hw₂, rfl⟩⟩
    rintro ⟨t, ht, hw⟩
    obtain ⟨t', ht', rfl⟩ := mem_map.mp ht
    obtain ⟨w₁, hw₁, w₂, hw₂, rfl⟩ := Language.mem_mul.mp hw
    exact ⟨w₁, w₂, ih.mpr ⟨t', ht', hw₁⟩, hw₂, rfl⟩
  | enter a e ih => simp only [mem_lang_enter, ih, step, mem_map, exists_exists_and_eq_and]
  | leave a e ih => simp only [mem_lang_leave, ih, step, mem_map, exists_exists_and_eq_and]

lemma mem_threads_cons : t ∈ threads (c :: w) e ↔ ∃ s ∈ step c e, t ∈ threads w s.2 := by
  rw [threads, mem_flatMap]

lemma threads_append (w v : List σ) (e : Expr σ α) :
    threads (w ++ v) e = (threads w e).flatMap (threads v) := by
  induction w generalizing e with
  | nil => simp [threads]
  | cons c w ih => simp [threads, ih, flatMap_assoc]

lemma append_mem_lang_iff {v : List σ} (e : Expr σ α) :
    w ++ v ∈ lang e ↔ ∃ t ∈ threads w e, v ∈ lang t := by
  induction w generalizing e with
  | nil => simp [threads]
  | cons c w ih =>
    rw [cons_append, cons_mem_lang_iff]
    simp only [ih, mem_threads_cons]
    constructor
    · rintro ⟨s, hs, t, ht, hv⟩
      exact ⟨t, ⟨s, hs, ht⟩, hv⟩
    · rintro ⟨t, ⟨s, hs, ht⟩, hv⟩
      exact ⟨s, hs, t, ht, hv⟩

/-- The words of an expression are those after which a thread can stop. -/
theorem mem_lang_iff (e : Expr σ α) : w ∈ lang e ↔ ∃ t ∈ threads w e, ∃ o, out t = some o := by
  have h := append_mem_lang_iff (w := w) (v := []) e
  rw [append_nil] at h
  simpa only [exists_out_iff] using h

instance (w : List σ) (e : Expr σ α) : Decidable (w ∈ lang e) :=
  decidable_of_iff (∃ t ∈ threads w e, (out t).isSome) <| by
    simp only [mem_lang_iff, Option.isSome_iff_exists]

/-- The threads of a concatenation. -/
theorem mem_threads_seq {f : Expr σ α} : t ∈ threads w (seq e f)
      ↔ (∃ t' ∈ threads w e, t = seq t' f)
        ∨ ∃ u v, w = u ++ v ∧ v ≠ [] ∧ u ∈ lang e ∧ t ∈ threads v f := by
  induction w generalizing e with
  | nil => simp [threads]
  | cons c w ih =>
    rw [mem_threads_cons, step]
    constructor
    · rintro ⟨s, hs, ht⟩
      rcases mem_append.mp hs with hs | hs
      · obtain ⟨s', hs', rfl⟩ := mem_map.mp hs
        rcases ih.mp ht with ⟨t', ht', rfl⟩ | ⟨u, v, rfl, hv, hu, ht⟩
        · exact Or.inl ⟨t', mem_threads_cons.mpr ⟨s', hs', ht'⟩, rfl⟩
        · exact Or.inr ⟨c :: u, v, rfl, hv, (cons_mem_lang_iff e).mpr ⟨s', hs', hu⟩, ht⟩
      cases ho : out e with
      | none =>
        rw [ho] at hs
        cases hs
      | some o =>
        rw [ho] at hs
        obtain ⟨s', hs', rfl⟩ := mem_map.mp hs
        exact Or.inr ⟨[], c :: w, rfl, cons_ne_nil c w, (exists_out_iff e).mp ⟨o, ho⟩,
          mem_threads_cons.mpr ⟨s', hs', ht⟩⟩
    rintro (⟨t', ht', rfl⟩ | ⟨u, v, happ, hv, hu, ht⟩)
    · obtain ⟨s, hs, ht'⟩ := mem_threads_cons.mp ht'
      exact ⟨(s.1, seq s.2 f), mem_append_left _ (mem_map_of_mem hs),
        ih.mpr (Or.inl ⟨t', ht', rfl⟩)⟩
    cases u with
    | nil =>
      obtain ⟨o, ho⟩ := (exists_out_iff e).mpr hu
      obtain rfl : c :: w = v := happ
      obtain ⟨s, hs, ht⟩ := mem_threads_cons.mp ht
      refine ⟨(o ++ s.1, s.2), mem_append_right _ ?_, ht⟩
      rw [ho]
      exact mem_map.mpr ⟨s, hs, rfl⟩
    | cons d u =>
      obtain ⟨rfl, rfl⟩ := cons.inj happ
      obtain ⟨s, hs, hu⟩ := (cons_mem_lang_iff e).mp hu
      exact ⟨(s.1, seq s.2 f), mem_append_left _ (mem_map_of_mem hs),
        ih.mpr (Or.inr ⟨u, v, rfl, hv, hu, ht⟩)⟩

lemma mem_threads_alt {f : Expr σ α} :
    t ∈ threads (c :: w) (alt e f) ↔ t ∈ threads (c :: w) e ∨ t ∈ threads (c :: w) f := by
  simp only [mem_threads_cons, step, mem_append, or_and_right, exists_or]

lemma mem_threads_enter {a : α} : t ∈ threads (c :: w) (enter a e) ↔ t ∈ threads (c :: w) e := by
  simp only [mem_threads_cons, step, mem_map, exists_exists_and_eq_and]

lemma threads_leave (w : List σ) (a : α) (e : Expr σ α) :
    threads w (leave a e) = (threads w e).map (leave a) := by
  induction w generalizing e with
  | nil => rfl
  | cons c w ih =>
    rw [threads, threads, step, flatMap_map, map_flatMap]
    simp only [ih]

/-! ## Actions at a symbol and at the end -/

def Fires (e : Expr σ α) (w : List σ) (c : σ) (x : α) : Prop :=
  ∃ t ∈ threads w e, ∃ s ∈ step c t, x ∈ s.1

def Leaves (e : Expr σ α) (w : List σ) (x : α) : Prop :=
  ∃ t ∈ threads w e, ∃ o, out t = some o ∧ x ∈ o

def Live (e : Expr σ α) (w : List σ) : Prop := ∃ t, t ∈ threads w e

section Facts

variable {e f : Expr σ α} {w v : List σ} {c : σ} {x : α}

lemma Leaves.mem_lang (h : Leaves e w x) : w ∈ lang e := by
  obtain ⟨t, ht, o, ho, -⟩ := h
  exact (mem_lang_iff e).mpr ⟨t, ht, o, ho⟩

lemma live_append (h : Live e (w ++ v)) : Live e w := by
  obtain ⟨t, ht⟩ := h
  rw [threads_append, mem_flatMap] at ht
  obtain ⟨t', ht', -⟩ := ht
  exact ⟨t', ht'⟩

lemma live_of_mem_lang (h : w ∈ lang e) : Live e w := by
  obtain ⟨t, ht, -⟩ := (mem_lang_iff e).mp h
  exact ⟨t, ht⟩

lemma live_nil (e : Expr σ α) : Live e [] := ⟨e, mem_singleton_self e⟩

lemma live_singleton_iff : Live e [c] ↔ ∃ s, s ∈ step c e := by
  constructor
  · rintro ⟨t, ht⟩
    obtain ⟨s, hs, -⟩ := mem_threads_cons.mp ht
    exact ⟨s, hs⟩
  · rintro ⟨s, hs⟩
    exact ⟨s.2, mem_threads_cons.mpr ⟨s, hs, mem_singleton_self s.2⟩⟩

lemma fires_nil : Fires e [] c x ↔ ∃ s ∈ step c e, x ∈ s.1 := by
  simp [Fires, threads]

lemma Fires.live (h : Fires e w c x) : Live e (w ++ [c]) := by
  obtain ⟨t, ht, s, hs, -⟩ := h
  refine ⟨s.2, ?_⟩
  rw [threads_append, mem_flatMap]
  exact ⟨t, ht, mem_threads_cons.mpr ⟨s, hs, mem_singleton_self s.2⟩⟩

/-- The actions at a symbol and at the end of a word. -/
theorem fires_seq : Fires (seq e f) w c x ↔ Fires e w c x ∨ (Leaves e w x ∧ Live f [c])
        ∨ ∃ u v, w = u ++ v ∧ u ∈ lang e ∧ Fires f v c x := by
  constructor
  · rintro ⟨t, ht, s, hs, hx⟩
    rcases mem_threads_seq.mp ht with ⟨t', ht', rfl⟩ | ⟨u, v, hw, -, hu, ht⟩
    · rcases mem_append.mp hs with hs | hs
      · obtain ⟨s', hs', rfl⟩ := mem_map.mp hs
        exact Or.inl ⟨t', ht', s', hs', hx⟩
      cases ho : out t' with
      | none =>
        rw [ho] at hs
        cases hs
      | some o =>
        rw [ho] at hs
        obtain ⟨s', hs', rfl⟩ := mem_map.mp hs
        rcases mem_append.mp hx with hx | hx
        · exact Or.inr (Or.inl ⟨⟨t', ht', o, ho, hx⟩, live_singleton_iff.mpr ⟨s', hs'⟩⟩)
        · exact Or.inr (Or.inr ⟨w, [], (append_nil w).symm,
            (mem_lang_iff e).mpr ⟨t', ht', o, ho⟩, f, mem_singleton_self f, s', hs', hx⟩)
    · exact Or.inr (Or.inr ⟨u, v, hw, hu, t, ht, s, hs, hx⟩)
  rintro (⟨t, ht, s, hs, hx⟩ | ⟨⟨t, ht, o, ho, hx⟩, hlive⟩ | ⟨u, v, rfl, hu, t, ht, s, hs, hx⟩)
  · refine ⟨seq t f, mem_threads_seq.mpr (Or.inl ⟨t, ht, rfl⟩), (s.1, seq s.2 f), ?_, hx⟩
    exact mem_append_left _ (mem_map_of_mem hs)
  · obtain ⟨s, hs⟩ := live_singleton_iff.mp hlive
    refine ⟨seq t f, mem_threads_seq.mpr (Or.inl ⟨t, ht, rfl⟩), (o ++ s.1, s.2), ?_,
      mem_append_left _ hx⟩
    rw [step, ho]
    exact mem_append_right _ (mem_map.mpr ⟨s, hs, rfl⟩)
  cases v with
  | nil =>
    obtain rfl := mem_singleton.mp ht
    obtain ⟨t', ht', o, ho⟩ := (mem_lang_iff e).mp hu
    rw [append_nil]
    refine ⟨seq t' t, mem_threads_seq.mpr (Or.inl ⟨t', ht', rfl⟩), (o ++ s.1, s.2), ?_,
      mem_append_right _ hx⟩
    rw [step, ho]
    exact mem_append_right _ (mem_map.mpr ⟨s, hs, rfl⟩)
  | cons d v =>
    exact ⟨t, mem_threads_seq.mpr (Or.inr ⟨u, d :: v, rfl, cons_ne_nil d v, hu, ht⟩), s, hs, hx⟩

theorem leaves_seq : Leaves (seq e f) w x
      ↔ (Leaves e w x ∧ [] ∈ lang f) ∨ ∃ u v, w = u ++ v ∧ u ∈ lang e ∧ Leaves f v x := by
  constructor
  · rintro ⟨t, ht, o, ho, hx⟩
    rcases mem_threads_seq.mp ht with ⟨t', ht', rfl⟩ | ⟨u, v, hw, -, hu, ht⟩
    · cases ho₁ : out t' with
      | none => simp [out, ho₁] at ho
      | some o₁ =>
        cases ho₂ : out f with
        | none => simp [out, ho₁, ho₂] at ho
        | some o₂ =>
          obtain rfl : o₁ ++ o₂ = o := by simpa [out, ho₁, ho₂] using ho
          rcases mem_append.mp hx with hx | hx
          · exact Or.inl ⟨⟨t', ht', o₁, ho₁, hx⟩, (exists_out_iff f).mp ⟨o₂, ho₂⟩⟩
          · exact Or.inr ⟨w, [], (append_nil w).symm,
              (mem_lang_iff e).mpr ⟨t', ht', o₁, ho₁⟩, f, mem_singleton_self f, o₂, ho₂, hx⟩
    · exact Or.inr ⟨u, v, hw, hu, t, ht, o, ho, hx⟩
  rintro (⟨⟨t, ht, o, ho, hx⟩, hf⟩ | ⟨u, v, rfl, hu, t, ht, o, ho, hx⟩)
  · obtain ⟨o₂, ho₂⟩ := (exists_out_iff f).mpr hf
    exact ⟨seq t f, mem_threads_seq.mpr (Or.inl ⟨t, ht, rfl⟩), o ++ o₂, by simp [out, ho, ho₂],
      mem_append_left _ hx⟩
  cases v with
  | nil =>
    obtain rfl := mem_singleton.mp ht
    obtain ⟨t', ht', o₁, ho₁⟩ := (mem_lang_iff e).mp hu
    rw [append_nil]
    exact ⟨seq t' t, mem_threads_seq.mpr (Or.inl ⟨t', ht', rfl⟩), o₁ ++ o,
      by simp [out, ho, ho₁], mem_append_right _ hx⟩
  | cons d v =>
    exact ⟨t, mem_threads_seq.mpr (Or.inr ⟨u, d :: v, rfl, cons_ne_nil d v, hu, ht⟩), o, ho, hx⟩

lemma live_seq : Live (seq e f) w
      ↔ Live e w ∨ ∃ u v, w = u ++ v ∧ v ≠ [] ∧ u ∈ lang e ∧ Live f v := by
  constructor
  · rintro ⟨t, ht⟩
    rcases mem_threads_seq.mp ht with ⟨t', ht', -⟩ | ⟨u, v, hw, hv, hu, ht⟩
    · exact Or.inl ⟨t', ht'⟩
    · exact Or.inr ⟨u, v, hw, hv, hu, t, ht⟩
  rintro (⟨t, ht⟩ | ⟨u, v, hw, hv, hu, t, ht⟩)
  · exact ⟨seq t f, mem_threads_seq.mpr (Or.inl ⟨t, ht, rfl⟩)⟩
  · exact ⟨t, mem_threads_seq.mpr (Or.inr ⟨u, v, hw, hv, hu, ht⟩)⟩

lemma fires_alt : Fires (alt e f) w c x ↔ Fires e w c x ∨ Fires f w c x := by
  cases w with
  | nil => simp [Fires, threads, step, or_and_right, exists_or]
  | cons d w => simp only [Fires, mem_threads_alt, or_and_right, exists_or]

lemma leaves_alt : Leaves (alt e f) w x ↔ Leaves e w x ∨ Leaves f w x := by
  cases w with
  | nil =>
    simp only [Leaves, threads, mem_singleton, exists_eq_left, out]
    cases out e <;> cases out f <;> simp
  | cons d w => simp only [Leaves, mem_threads_alt, or_and_right, exists_or]

lemma live_alt : Live (alt e f) w ↔ Live e w ∨ Live f w := by
  cases w with
  | nil => simp [live_nil]
  | cons d w => simp only [Live, mem_threads_alt, exists_or]

variable {a : α}

lemma fires_enter : Fires (enter a e) w c x ↔ Fires e w c x ∨ (w = [] ∧ x = a ∧ Live e [c]) := by
  cases w with
  | nil =>
    rw [fires_nil, fires_nil, live_singleton_iff, step]
    constructor
    · rintro ⟨s, hs, hx⟩
      obtain ⟨s', hs', rfl⟩ := mem_map.mp hs
      rcases mem_cons.mp hx with hx | hx
      · exact Or.inr ⟨rfl, hx, s', hs'⟩
      · exact Or.inl ⟨s', hs', hx⟩
    rintro (⟨s, hs, hx⟩ | ⟨-, rfl, s, hs⟩)
    · exact ⟨_, mem_map_of_mem hs, mem_cons_of_mem a hx⟩
    · exact ⟨_, mem_map_of_mem hs, mem_cons_self⟩
  | cons d w => simp [Fires, mem_threads_enter]

lemma leaves_enter : Leaves (enter a e) w x ↔ Leaves e w x ∨ (w = [] ∧ x = a ∧ [] ∈ lang e) := by
  cases w with
  | nil =>
    rw [← exists_out_iff]
    simp only [Leaves, threads, mem_singleton, exists_eq_left, out]
    cases out e <;> simp [or_comm]
  | cons d w => simp [Leaves, mem_threads_enter]

lemma live_enter : Live (enter a e) w ↔ Live e w := by
  cases w with
  | nil => simp [live_nil]
  | cons d w => simp only [Live, mem_threads_enter]

lemma fires_leave : Fires (leave a e) w c x ↔ Fires e w c x := by
  simp only [Fires, threads_leave, mem_map, exists_exists_and_eq_and, step]

lemma leaves_leave : Leaves (leave a e) w x ↔ Leaves e w x ∨ (w ∈ lang e ∧ x = a) := by
  simp only [Leaves, threads_leave, mem_map, exists_exists_and_eq_and, out,
    Option.map_eq_some_iff, mem_append, mem_singleton, and_or_left, exists_or,
    mem_lang_iff]
  refine or_congr Iff.rfl ?_
  constructor
  · rintro ⟨t, ht, o, ho, hx⟩
    exact ⟨⟨t, ht, o, ho⟩, hx⟩
  · rintro ⟨⟨t, ht, o, ho⟩, hx⟩
    exact ⟨t, ht, o, ho, hx⟩

lemma live_leave : Live (leave a e) w ↔ Live e w := by
  simp [Live, threads_leave]

lemma live_eps : Live (eps : Expr σ α) w ↔ w = [] := by
  cases w with
  | nil => simp [live_nil]
  | cons d w => simp [Live, threads, step]

lemma live_sym {p : σ → Bool} : Live (sym p : Expr σ α) w ↔ w = [] ∨ ∃ d, p d = true ∧ w = [d] := by
  cases w with
  | nil => simp [live_nil]
  | cons d w =>
    rw [Live]
    simp only [mem_threads_cons, step]
    by_cases hp : p d = true
    · have heps := live_eps (α := α) (w := w)
      rw [Live] at heps
      simp [hp, heps]
    · simp [hp]

lemma live_opt : Live (opt e) w ↔ Live e w := by
  rw [opt, live_alt, live_eps]
  refine or_iff_left_of_imp ?_
  rintro rfl
  exact live_nil e

lemma live_sym_seq {p : σ → Bool} : Live (seq (sym p) f) (c :: w) ↔ p c = true ∧ Live f w := by
  rw [live_seq]
  constructor
  · rintro (hlive | ⟨u, v, happ, -, hu, hlive⟩)
    · rcases live_sym.mp hlive with hnil | ⟨d, hd, hcons⟩
      · cases hnil
      · obtain ⟨rfl, rfl⟩ := cons.inj hcons
        exact ⟨hd, live_nil f⟩
    obtain ⟨d, hd, rfl⟩ := mem_lang_sym.mp hu
    obtain ⟨rfl, rfl⟩ := cons.inj happ
    exact ⟨hd, hlive⟩
  rintro ⟨hc, hlive⟩
  cases w with
  | nil => exact Or.inl (live_sym.mpr (Or.inr ⟨c, hc, rfl⟩))
  | cons d w =>
    exact Or.inr ⟨[c], d :: w, rfl, cons_ne_nil d w, mem_lang_sym.mpr ⟨c, hc, rfl⟩, hlive⟩

lemma live_seq_singleton : Live (seq e f) [c] ↔ Live e [c] ∨ ([] ∈ lang e ∧ Live f [c]) := by
  rw [live_seq]
  refine or_congr_right ⟨?_, ?_⟩
  · rintro ⟨u, v, happ, hv, hu, hlive⟩
    cases u with
    | nil =>
      obtain rfl : [c] = v := happ
      exact ⟨hu, hlive⟩
    | cons d u =>
      obtain ⟨-, hnil⟩ := cons.inj happ
      exact absurd (append_eq_nil_iff.mp hnil.symm).2 hv
  · rintro ⟨hnil, hlive⟩
    exact ⟨[], [c], rfl, cons_ne_nil c [], hnil, hlive⟩

lemma live_star_singleton : Live (star e) [c] ↔ Live e [c] := by
  simp only [live_singleton_iff, step]
  constructor
  · rintro ⟨s, hs⟩
    obtain ⟨s', hs', -⟩ := mem_map.mp hs
    exact ⟨s', hs'⟩
  · rintro ⟨s, hs⟩
    exact ⟨_, mem_map_of_mem hs⟩

/-! ## Embedded actions and symbols in use -/

lemma out_embeddings {o : List α} (ho : out e = some o) : ∀ a ∈ o, a ∈ embeddings e := by
  induction e generalizing o with
  | eps =>
    cases ho
    exact fun a ha => ha
  | sym p => cases ho
  | alt e f ihe ihf =>
    intro a ha
    rw [out] at ho
    cases he : out e <;> cases hf : out f <;> rw [he, hf] at ho <;> cases ho
    · exact mem_append_right _ (ihf hf a ha)
    · exact mem_append_left _ (ihe he a ha)
    rcases mem_append.mp ha with ha | ha
    · exact mem_append_left _ (ihe he a ha)
    · exact mem_append_right _ (ihf hf a ha)
  | seq e f ihe ihf =>
    intro a ha
    rw [out] at ho
    cases he : out e <;> cases hf : out f <;> rw [he, hf] at ho <;> cases ho
    rcases mem_append.mp ha with ha | ha
    · exact mem_append_left _ (ihe he a ha)
    · exact mem_append_right _ (ihf hf a ha)
  | star e ih =>
    intro a ha
    cases he : out e with
    | none =>
      rw [out, he] at ho
      cases ho
      cases ha
    | some o' =>
      rw [out, he] at ho
      cases ho
      exact ih he a ha
  | enter b e ih =>
    obtain ⟨o', ho', rfl⟩ := Option.map_eq_some_iff.mp ho
    intro a ha
    rcases mem_cons.mp ha with rfl | ha
    · exact mem_cons_self
    · exact mem_cons_of_mem b (ih ho' a ha)
  | leave b e ih =>
    obtain ⟨o', ho', rfl⟩ := Option.map_eq_some_iff.mp ho
    intro a ha
    rcases mem_append.mp ha with ha | ha
    · exact mem_append_left _ (ih ho' a ha)
    · exact mem_append_right _ ha

lemma out_getD_embeddings (e : Expr σ α) : ∀ a ∈ (out e).getD [], a ∈ embeddings e := by
  cases ho : out e with
  | none => exact fun a ha => nomatch ha
  | some o => exact out_embeddings ho

lemma step_embeddings {s : List α × Expr σ α} (hs : s ∈ step c e)
    (ha : a ∈ s.1 ∨ a ∈ embeddings s.2) : a ∈ embeddings e := by
  induction e generalizing s with
  | eps => cases hs
  | sym p =>
    rw [step] at hs
    split at hs
    · obtain rfl := mem_singleton.mp hs
      simp [embeddings] at ha
    · cases hs
  | alt e f ihe ihf =>
    rcases mem_append.mp hs with hs | hs
    · exact mem_append_left _ (ihe hs ha)
    · exact mem_append_right _ (ihf hs ha)
  | seq e f ihe ihf =>
    rcases mem_append.mp hs with hs | hs
    · obtain ⟨s', hs', rfl⟩ := mem_map.mp hs
      rw [embeddings, mem_append, ← or_assoc] at ha
      rcases ha with ha | ha
      · exact mem_append_left _ (ihe hs' ha)
      · exact mem_append_right _ ha
    cases ho : out e with
    | none =>
      rw [ho] at hs
      cases hs
    | some o =>
      rw [ho] at hs
      obtain ⟨s', hs', rfl⟩ := mem_map.mp hs
      rw [mem_append, or_assoc] at ha
      rcases ha with ha | ha
      · exact mem_append_left _ (out_embeddings ho a ha)
      · exact mem_append_right _ (ihf hs' ha)
  | star e ih =>
    obtain ⟨s', hs', rfl⟩ := mem_map.mp hs
    simp only [embeddings, mem_append] at ha
    rcases ha with (ha | ha) | ha | ha
    · exact out_getD_embeddings e a ha
    · exact ih hs' (Or.inl ha)
    · exact ih hs' (Or.inr ha)
    · exact ha
  | enter b e ih =>
    obtain ⟨s', hs', rfl⟩ := mem_map.mp hs
    rw [mem_cons, or_assoc] at ha
    rcases ha with rfl | ha
    · exact mem_cons_self
    · exact mem_cons_of_mem b (ih hs' ha)
  | leave b e ih =>
    obtain ⟨s', hs', rfl⟩ := mem_map.mp hs
    rw [embeddings, mem_append, ← or_assoc] at ha
    rcases ha with ha | ha
    · exact mem_append_left _ (ih hs' ha)
    · exact mem_append_right _ ha

lemma threads_embeddings {t : Expr σ α} (ht : t ∈ threads w e)
    (ha : a ∈ embeddings t) : a ∈ embeddings e := by
  induction w generalizing e with
  | nil =>
    obtain rfl := mem_singleton.mp ht
    exact ha
  | cons d w ih =>
    obtain ⟨s, hs, ht⟩ := mem_threads_cons.mp ht
    exact step_embeddings hs (Or.inr (ih ht))

/-- Only embedded actions are taken. -/
theorem Fires.mem_embeddings (h : Fires e w c x) : x ∈ embeddings e := by
  obtain ⟨t, ht, s, hs, hx⟩ := h
  exact threads_embeddings ht (step_embeddings hs (Or.inl hx))

theorem Leaves.mem_embeddings (h : Leaves e w x) : x ∈ embeddings e := by
  obtain ⟨t, ht, o, ho, hx⟩ := h
  exact threads_embeddings ht (out_embeddings ho x hx)

lemma step_uses {s : List α × Expr σ α} (hs : s ∈ step c e) :
    uses c e = true ∧ ∀ d, uses d s.2 = true → uses d e = true := by
  induction e generalizing s with
  | eps => cases hs
  | sym p =>
    rw [step] at hs
    split at hs
    · next hp =>
        obtain rfl := mem_singleton.mp hs
        exact ⟨hp, fun d hd => nomatch hd⟩
    · cases hs
  | alt e f ihe ihf =>
    simp only [uses, Bool.or_eq_true]
    rcases mem_append.mp hs with hs | hs
    · exact ⟨Or.inl (ihe hs).1, fun d hd => Or.inl ((ihe hs).2 d hd)⟩
    · exact ⟨Or.inr (ihf hs).1, fun d hd => Or.inr ((ihf hs).2 d hd)⟩
  | seq e f ihe ihf =>
    simp only [uses, Bool.or_eq_true]
    rcases mem_append.mp hs with hs | hs
    · obtain ⟨s', hs', rfl⟩ := mem_map.mp hs
      refine ⟨Or.inl (ihe hs').1, fun d hd => ?_⟩
      rw [uses, Bool.or_eq_true] at hd
      exact hd.imp ((ihe hs').2 d) id
    cases ho : out e with
    | none =>
      rw [ho] at hs
      cases hs
    | some o =>
      rw [ho] at hs
      obtain ⟨s', hs', rfl⟩ := mem_map.mp hs
      exact ⟨Or.inr (ihf hs').1, fun d hd => Or.inr ((ihf hs').2 d hd)⟩
  | star e ih =>
    obtain ⟨s', hs', rfl⟩ := mem_map.mp hs
    refine ⟨(ih hs').1, fun d hd => ?_⟩
    rw [uses, Bool.or_eq_true] at hd
    exact hd.elim ((ih hs').2 d) id
  | enter b e ih | leave b e ih =>
    obtain ⟨s', hs', rfl⟩ := mem_map.mp hs
    exact ⟨(ih hs').1, (ih hs').2⟩

/-- Threads read only symbols that occur in the expression. -/
theorem Live.uses (h : Live e w) : ∀ d ∈ w, uses d e = true := by
  obtain ⟨t, ht⟩ := h
  induction w generalizing e with
  | nil => exact fun d hd => nomatch hd
  | cons b w ih =>
    obtain ⟨s, hs, ht⟩ := mem_threads_cons.mp ht
    intro d hd
    rcases mem_cons.mp hd with rfl | hd
    · exact (step_uses hs).1
    · exact (step_uses hs).2 d (ih ht d hd)

lemma fires_opt_seq : Fires (seq (opt e) f) w c x ↔ Fires (seq e f) w c x ∨ Fires f w c x := by
  have hfires {y : List σ} : ¬ Fires (eps : Expr σ α) y c x := fun h => nomatch h.mem_embeddings
  have hleaves {y : List σ} : ¬ Leaves (eps : Expr σ α) y x := fun h => nomatch h.mem_embeddings
  rw [opt, fires_seq, fires_seq, fires_alt, leaves_alt, or_iff_left hfires, or_iff_left hleaves]
  simp only [mem_lang_alt, mem_lang_eps, or_and_right, and_or_left, exists_or]
  constructor
  · rintro (h | h | h | ⟨u, v, rfl, rfl, h⟩)
    · exact Or.inl (Or.inl h)
    · exact Or.inl (Or.inr (Or.inl h))
    · exact Or.inl (Or.inr (Or.inr h))
    · exact Or.inr h
  rintro ((h | h | h) | h)
  · exact Or.inl h
  · exact Or.inr (Or.inl h)
  · exact Or.inr (Or.inr (Or.inl h))
  · exact Or.inr (Or.inr (Or.inr ⟨[], w, rfl, rfl, h⟩))

lemma leaves_opt_seq : Leaves (seq (opt e) f) w x ↔ Leaves (seq e f) w x ∨ Leaves f w x := by
  have hleaves {y : List σ} : ¬ Leaves (eps : Expr σ α) y x := fun h => nomatch h.mem_embeddings
  rw [opt, leaves_seq, leaves_seq, leaves_alt, or_iff_left hleaves]
  simp only [mem_lang_alt, mem_lang_eps, or_and_right, and_or_left, exists_or]
  constructor
  · rintro (h | h | ⟨u, v, rfl, rfl, h⟩)
    · exact Or.inl (Or.inl h)
    · exact Or.inl (Or.inr h)
    · exact Or.inr h
  rintro ((h | h) | h)
  · exact Or.inl h
  · exact Or.inr (Or.inl h)
  · exact Or.inr (Or.inr ⟨[], w, rfl, rfl, h⟩)

lemma notMem_of_mem_lang (hw : w ∈ lang e) (hc : uses c e = false) : c ∉ w := by
  intro hmem
  rw [(live_of_mem_lang hw).uses c hmem] at hc
  cases hc

end Facts

end Expr
end ActionMachine
end Foundation
