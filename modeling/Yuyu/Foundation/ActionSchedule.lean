import Yuyu.Foundation.ActionMachine

/-!
# Execution of expressions with actions

A machine reads a word from the left.  At each symbol, and at the end, it performs the actions
that are taken there, in the order of their embedding.
-/

namespace Foundation
namespace ActionMachine

open List

universe u v w

variable {σ : Type u} {α : Type v}

namespace Expr

def firedBy (ts : List (Expr σ α)) (c : σ) : List α :=
  ts.flatMap fun t => (step c t).flatMap Prod.fst

def leftBy (ts : List (Expr σ α)) : List α := ts.flatMap fun t => (out t).getD []

def advance (ts : List (Expr σ α)) (c : σ) : List (Expr σ α) :=
  ts.flatMap fun t => (step c t).map Prod.snd

def inOrder [DecidableEq α] (e : Expr σ α) (taken : List α) : List α :=
  e.embeddings.filter (· ∈ taken)

section Machine

variable {S : Type w} [DecidableEq α]

/-- Read a word from a position on.  The outer `none` is an action that fails, the inner
one a word that is refused. -/
def exec (perform : Nat → List α → S → Option S) (e : Expr σ α) :
    List (Expr σ α) → Nat → List σ → S → Option (Option S)
  | ts, p, [], s =>
    if ts.any fun t => (out t).isSome then (perform p (e.inOrder (leftBy ts)) s).map some
    else some none
  | ts, p, c :: w, s =>
    if (advance ts c).isEmpty then some none
    else do exec perform e (advance ts c) (p + 1) w (← perform p (e.inOrder (firedBy ts c)) s)

end Machine

def TakenAt (e : Expr σ α) (w : List σ) (i : Nat) (x : α) : Prop :=
  (∃ c, w[i]? = some c ∧ Fires e (w.take i) c x) ∨ (i = w.length ∧ Leaves e w x)

def takenAt (e : Expr σ α) (w : List σ) (i : Nat) : List α :=
  match w[i]? with
  | some c => firedBy (threads (w.take i) e) c
  | none => if i = w.length then leftBy (threads w e) else []

variable {e : Expr σ α} {w : List σ} {i : Nat} {x : α}

lemma mem_takenAt : x ∈ takenAt e w i ↔ TakenAt e w i x := by
  rw [takenAt, TakenAt]
  cases hc : w[i]? with
  | some c =>
    have hlt : i < w.length := (List.getElem?_eq_some_iff.mp hc).1
    simp only [firedBy, mem_flatMap, Option.some.injEq, exists_eq_left', Fires]
    constructor
    · exact Or.inl
    rintro (h | ⟨h, -⟩)
    · exact h
    · omega
  | none =>
    simp only [reduceCtorEq, false_and, exists_false, false_or]
    by_cases hi : i = w.length
    · simp only [hi, if_true, leftBy, mem_flatMap, true_and, Leaves]
      refine exists_congr fun t => and_congr_right fun _ => ?_
      cases out t <;> simp
    · simp [hi]

lemma takenAt_inside {rest : List σ} {c : σ} :
    TakenAt e (w ++ c :: rest) w.length x ↔ Fires e w c x := by
  simp [TakenAt]

lemma takenAt_end : TakenAt e w w.length x ↔ Leaves e w x := by
  simp [TakenAt]

lemma not_takenAt_beyond (hi : w.length < i) : ¬ TakenAt e w i x := by
  rintro (⟨c, hc, -⟩ | ⟨h, -⟩)
  · have hlt := (List.getElem?_eq_some_iff.mp hc).1
    omega
  · omega

lemma position_cases (w : List σ) (i : Nat) :
    w.length < i ∨ i = w.length ∨ ∃ w₁ c rest, w = w₁ ++ c :: rest ∧ i = w₁.length := by
  rcases Nat.lt_trichotomy w.length i with hi | hi | hi
  · exact Or.inl hi
  · exact Or.inr (Or.inl hi.symm)
  refine Or.inr (Or.inr ⟨w.take i, w[i], w.drop (i + 1), ?_, ?_⟩)
  · simp
  · simp [Nat.min_eq_left hi.le]

def schedule [DecidableEq α] (e : Expr σ α) (w : List σ) (i : Nat) : List α :=
  e.inOrder (takenAt e w i)

lemma mem_schedule [DecidableEq α] : x ∈ e.schedule w i ↔ TakenAt e w i x := by
  rw [schedule, inOrder, mem_filter, decide_eq_true_iff, mem_takenAt]
  refine and_iff_right_of_imp ?_
  rintro (⟨c, -, hfires⟩ | ⟨-, hleaves⟩)
  · exact hfires.mem_embeddings
  · exact hleaves.mem_embeddings

/-! ## Concatenations that are read in one way -/

/-- The only way to read `u ++ v` in a concatenation is to leave the first part
behind `u`, and no thread of the first part gets further. -/
structure ReadsOnce (e f : Expr σ α) (u v : List σ) : Prop where
  first : u ∈ lang e
  second : v ∈ lang f
  only : ∀ u₁ c u₂, u ++ v = u₁ ++ c :: u₂ → u₁ ∈ lang e → Live f [c] → u₁ = u
  ends : ∀ c v', v = c :: v' → ¬ Live e (u ++ [c])

namespace ReadsOnce

variable {e f : Expr σ α} {u v : List σ} {x : α}

lemma of_delimiter (D : σ → Prop) (hu : u ∈ lang e) (hv : v ∈ lang f)
    (hinner : ∀ c, D c → uses c e = false) (houter : ∀ c, Live f [c] → D c) :
    ReadsOnce e f u v where
  first := hu
  second := hv
  only := by
    intro u₁ c u₂ happ hu₁ hc
    rcases append_eq_append_iff.mp happ with ⟨w, rfl, hw⟩ | ⟨w, rfl, hw⟩
    · cases w with
      | nil => exact append_nil u
      | cons d w =>
        -- a longer word of the first part has the first symbol of the second in it
        have hd : Live f [d] := by
          rw [hw] at hv
          exact live_append (v := w ++ c :: u₂) (live_of_mem_lang hv)
        have huses := (live_of_mem_lang hu₁).uses d (by simp)
        rw [hinner d (houter d hd)] at huses
        cases huses
    cases w with
    | nil => exact (append_nil u₁).symm
    | cons d w =>
      obtain ⟨rfl, -⟩ := cons.inj hw
      have huses := (live_of_mem_lang hu).uses c (by simp)
      rw [hinner c (houter c hc)] at huses
      cases huses
  ends := by
    rintro c v' rfl hlive
    have hc : Live f [c] := live_append (v := v') (live_of_mem_lang hv)
    have huses := hlive.uses c (by simp)
    rw [hinner c (houter c hc)] at huses
    cases huses

lemma of_sym {p : σ → Bool} {c : σ} (hc : p c = true) (hv : v ∈ lang f) :
    ReadsOnce (sym p) f [c] v where
  first := mem_lang_sym.mpr ⟨c, hc, rfl⟩
  second := hv
  only := by
    intro u₁ d u₂ happ hu₁ _
    obtain ⟨c', -, rfl⟩ := mem_lang_sym.mp hu₁
    rw [(cons.inj happ).1]
  ends := by
    rintro d v' rfl hlive
    simp [live_sym] at hlive

lemma eq_first (h : ReadsOnce e f u v) (u₁ v₁ rest : List σ) (happ : u ++ v = u₁ ++ v₁ ++ rest)
    (hu₁ : u₁ ∈ lang e) (hne : v₁ ≠ []) (hlive : Live f v₁) : u₁ = u := by
  cases v₁ with
  | nil => exact absurd rfl hne
  | cons c v₁ =>
    refine h.only u₁ c (v₁ ++ rest) ?_ hu₁ (live_append (v := v₁) hlive)
    rw [happ, append_assoc, cons_append]

lemma not_live (h : ReadsOnce e f u v) (w rest : List σ) (hv : v = w ++ rest) (hne : w ≠ []) :
    ¬ Live e (u ++ w) := by
  cases w with
  | nil => exact absurd rfl hne
  | cons c w =>
    intro hlive
    refine h.ends c (w ++ rest) hv (live_append (v := w) ?_)
    rw [append_assoc]
    exact hlive

lemma fires_inside (h : ReadsOnce e f u v) {w rest : List σ} {c : σ} (hu : u = w ++ c :: rest) :
    Fires (seq e f) w c x ↔ Fires e w c x := by
  have hlen : u.length = w.length + (rest.length + 1) := by rw [hu, length_append]; rfl
  rw [fires_seq]
  constructor
  · rintro (hfires | ⟨hleaves, hlive⟩ | ⟨u₁, v₁, rfl, hu₁, hfires⟩)
    · exact hfires
    · have heq := h.eq_first w [c] (rest ++ v) (by simp [hu]) hleaves.mem_lang (by simp) hlive
      rw [heq] at hlen
      omega
    have heq := h.eq_first u₁ (v₁ ++ [c]) (rest ++ v) (by simp [hu]) hu₁ (by simp) hfires.live
    rw [length_append, heq] at hlen
    omega
  · exact Or.inl

lemma fires_behind (h : ReadsOnce e f u v) {w rest : List σ} {c : σ} (hv : v = w ++ c :: rest) :
    Fires (seq e f) (u ++ w) c x ↔ (w = [] ∧ Leaves e u x) ∨ Fires f w c x := by
  rw [fires_seq]
  constructor
  · rintro (hfires | ⟨hleaves, hlive⟩ | ⟨u₁, v₁, happ, hu₁, hfires⟩)
    · have hlive := hfires.live
      rw [append_assoc] at hlive
      exact absurd hlive (h.not_live (w ++ [c]) rest (by simp [hv]) (by simp))
    · have heq := h.eq_first (u ++ w) [c] rest (by simp [hv]) hleaves.mem_lang (by simp) hlive
      obtain rfl : w = [] := by simpa using heq
      rw [append_nil] at hleaves
      exact Or.inl ⟨rfl, hleaves⟩
    have heq := h.eq_first u₁ (v₁ ++ [c]) rest
      (by rw [hv, append_cons, ← append_assoc, ← append_assoc, happ]; simp) hu₁
      (by simp) hfires.live
    obtain rfl := heq
    obtain rfl := append_cancel_left happ
    exact Or.inr hfires
  rintro (⟨rfl, hleaves⟩ | hfires)
  · rw [append_nil]
    refine Or.inr (Or.inl ⟨hleaves, live_append (v := rest) (live_of_mem_lang ?_)⟩)
    exact hv ▸ h.second
  · exact Or.inr (Or.inr ⟨u, w, rfl, h.first, hfires⟩)

lemma leaves_whole (h : ReadsOnce e f u v) :
    Leaves (seq e f) (u ++ v) x ↔ (v = [] ∧ Leaves e u x) ∨ Leaves f v x := by
  have hnil : u ++ v ∈ lang e → v = [] := by
    intro hmem
    by_contra hne
    exact h.not_live v [] (append_nil v).symm hne (live_of_mem_lang hmem)
  rw [leaves_seq]
  constructor
  · rintro (⟨hleaves, -⟩ | ⟨u₁, v₁, happ, hu₁, hleaves⟩)
    · obtain rfl := hnil hleaves.mem_lang
      rw [append_nil] at hleaves
      exact Or.inl ⟨rfl, hleaves⟩
    refine Or.inr ?_
    by_cases hne : v₁ = []
    · rw [hne, append_nil] at happ
      rw [hnil (happ ▸ hu₁), ← hne]
      exact hleaves
    have heq := h.eq_first u₁ v₁ [] (by simp [happ]) hu₁ hne (live_of_mem_lang hleaves.mem_lang)
    obtain rfl := heq
    rw [append_cancel_left happ]
    exact hleaves
  rintro (⟨rfl, hleaves⟩ | hleaves)
  · rw [append_nil]
    exact Or.inl ⟨hleaves, h.second⟩
  · exact Or.inr ⟨u, v, rfl, h.first, hleaves⟩

/-- The actions in a concatenation that can be read in one way only. -/
theorem takenAt_seq (h : ReadsOnce e f u v) (i : Nat) : TakenAt (seq e f) (u ++ v) i x
      ↔ (i ≤ u.length ∧ TakenAt e u i x) ∨ (u.length ≤ i ∧ TakenAt f v (i - u.length) x) := by
  rcases position_cases u i with hi | rfl | ⟨w, c, rest, hu, rfl⟩
  · -- behind the boundary only the second part is left
    have hno : ¬ (i ≤ u.length ∧ TakenAt e u i x) := fun h => absurd h.1 (by omega)
    rw [or_iff_right hno, and_iff_right hi.le]
    rcases position_cases v (i - u.length) with hi' | hi' | ⟨w, c, rest, hv, hi'⟩
    · exact iff_of_false (not_takenAt_beyond (by rw [length_append]; omega))
        (not_takenAt_beyond hi')
    · have hne : v ≠ [] := fun hv => by simp [hv] at hi'; omega
      obtain rfl : i = (u ++ v).length := by rw [length_append]; omega
      rw [takenAt_end, hi', takenAt_end, h.leaves_whole, or_iff_right fun hl => hne hl.1]
    have hne : w ≠ [] := fun hw => by simp [hw] at hi'; omega
    obtain rfl : i = (u ++ w).length := by rw [length_append]; omega
    rw [hi', hv, takenAt_inside, ← append_assoc, takenAt_inside, h.fires_behind hv,
      or_iff_right fun hl => hne hl.1]
  · -- at the boundary the leaving actions of the first part join those of the second
    rw [Nat.sub_self, and_iff_right (le_refl _), and_iff_right (le_refl _), takenAt_end]
    cases hv : v with
    | nil =>
      have hend := h.leaves_whole (x := x)
      rw [hv, append_nil] at hend
      rw [append_nil, takenAt_end, hend]
      simp [TakenAt]
    | cons c rest =>
      have hbehind := h.fires_behind (x := x) (w := []) hv
      rw [append_nil] at hbehind
      rw [takenAt_inside, hbehind]
      simp [TakenAt]
  have hlt : ¬ u.length ≤ w.length := by
    rw [hu, length_append, length_cons]
    omega
  have hle : w.length ≤ u.length := by omega
  rw [or_iff_left fun h => hlt h.1, and_iff_right hle]
  conv_lhs => rw [hu, append_assoc, cons_append]
  conv_rhs => rw [hu]
  rw [takenAt_inside, takenAt_inside, h.fires_inside hu]

end ReadsOnce

/-! ## Schedules of the operators -/

section Positions

variable {e f : Expr σ α} {w : List σ}

variable {i : Nat} {x : α}

lemma TakenAt.mem_embeddings (h : TakenAt e w i x) : x ∈ e.embeddings := by
  rcases h with ⟨c, -, hfires⟩ | ⟨-, hleaves⟩
  · exact hfires.mem_embeddings
  · exact hleaves.mem_embeddings

lemma takenAt_alt : TakenAt (alt e f) w i x ↔ TakenAt e w i x ∨ TakenAt f w i x := by
  simp only [TakenAt, fires_alt, leaves_alt, and_or_left, exists_or]
  exact or_or_or_comm ..

lemma takenAt_enter {a : α} (hw : w ∈ lang e) :
    TakenAt (enter a e) w i x ↔ TakenAt e w i x ∨ (i = 0 ∧ x = a) := by
  rcases position_cases w i with hi | rfl | ⟨w₁, c, rest, rfl, rfl⟩
  · have hne : ¬ (i = 0 ∧ x = a) := fun h => by omega
    simp [not_takenAt_beyond hi, hne]
  · rw [takenAt_end, takenAt_end, leaves_enter, length_eq_zero_iff]
    refine or_congr_right (and_congr_right fun hnil => and_iff_left ?_)
    exact hnil ▸ hw
  rw [takenAt_inside, takenAt_inside, fires_enter, length_eq_zero_iff]
  refine or_congr_right (and_congr_right fun hnil => and_iff_left ?_)
  subst hnil
  exact live_append (v := rest) (live_of_mem_lang hw)

lemma takenAt_leave {a : α} (hw : w ∈ lang e) :
    TakenAt (leave a e) w i x ↔ TakenAt e w i x ∨ (i = w.length ∧ x = a) := by
  rcases position_cases w i with hi | rfl | ⟨w₁, c, rest, rfl, rfl⟩
  · have hne : ¬ (i = w.length ∧ x = a) := fun h => by omega
    simp [not_takenAt_beyond hi, hne]
  · rw [takenAt_end, takenAt_end, leaves_leave]
    simp [hw]
  · rw [takenAt_inside, takenAt_inside, fires_leave]
    simp

lemma takenAt_opt_seq :
    TakenAt (seq (opt e) f) w i x ↔ TakenAt (seq e f) w i x ∨ TakenAt f w i x := by
  simp only [TakenAt, fires_opt_seq, leaves_opt_seq, and_or_left, exists_or]
  exact or_or_or_comm ..

end Positions

section Schedules

variable [DecidableEq α] {e f : Expr σ α} {w u v : List σ}

lemma filter_takenAt {g : Expr σ α} {y : List σ} {i j : Nat} {P : Prop} [Decidable P]
    (h : ∀ x ∈ e.embeddings, TakenAt g y j x ↔ P ∧ TakenAt e w i x) :
    e.embeddings.filter (· ∈ takenAt g y j) = if P then e.schedule w i else [] := by
  by_cases hP : P
  · rw [if_pos hP]
    refine filter_congr fun x hx => ?_
    rw [decide_eq_decide, mem_takenAt, mem_takenAt, h x hx, and_iff_right hP]
  rw [if_neg hP, filter_eq_nil_iff]
  intro x hx
  rw [decide_eq_true_iff, mem_takenAt, h x hx]
  exact fun hx => hP hx.1

lemma schedule_of_embeddings_nil (he : e.embeddings = []) (i : Nat) : e.schedule w i = [] := by
  rw [schedule, inOrder, he, filter_nil]

lemma schedule_seq (h : ReadsOnce e f u v) (hdisj : e.embeddings.Disjoint f.embeddings) (i : Nat) :
    (seq e f).schedule (u ++ v) i = (if i ≤ u.length then e.schedule u i else [])
        ++ (if u.length ≤ i then f.schedule v (i - u.length) else []) := by
  rw [schedule, inOrder, embeddings, filter_append]
  congr 1
  · refine filter_takenAt fun x hx => ?_
    rw [h.takenAt_seq, or_iff_left fun hf => hdisj hx hf.2.mem_embeddings]
  · refine filter_takenAt fun x hx => ?_
    rw [h.takenAt_seq, or_iff_right fun he => hdisj he.2.mem_embeddings hx]

lemma schedule_alt (hdisj : e.embeddings.Disjoint f.embeddings) (i : Nat) :
    (alt e f).schedule w i = e.schedule w i ++ f.schedule w i := by
  rw [schedule, inOrder, embeddings, filter_append]
  congr 1
  · refine (filter_takenAt (P := True) fun x hx => ?_).trans (if_pos trivial)
    rw [takenAt_alt, or_iff_left fun hf => hdisj hx hf.mem_embeddings, true_and]
  · refine (filter_takenAt (P := True) fun x hx => ?_).trans (if_pos trivial)
    rw [takenAt_alt, or_iff_right fun he => hdisj he.mem_embeddings hx, true_and]

lemma schedule_enter {a : α} (hw : w ∈ lang e) (ha : a ∉ e.embeddings) (i : Nat) :
    (enter a e).schedule w i = (if i = 0 then [a] else []) ++ e.schedule w i := by
  have hhead : a ∈ takenAt (enter a e) w i ↔ i = 0 := by
    rw [mem_takenAt, takenAt_enter hw, or_iff_right fun h => ha h.mem_embeddings, and_iff_left rfl]
  have htail : e.embeddings.filter (· ∈ takenAt (enter a e) w i) = e.schedule w i := by
    refine (filter_takenAt (P := True) fun x hx => ?_).trans (if_pos trivial)
    rw [takenAt_enter hw, or_iff_left fun h : i = 0 ∧ x = a => ha (h.2 ▸ hx), true_and]
  rw [schedule, inOrder, embeddings, filter_cons, htail]
  by_cases hi : i = 0
  · rw [if_pos hi, if_pos (decide_eq_true (hhead.mpr hi))]
    rfl
  · simp [hhead, hi]

lemma schedule_leave {a : α} (hw : w ∈ lang e) (ha : a ∉ e.embeddings) (i : Nat) :
    (leave a e).schedule w i = e.schedule w i ++ (if i = w.length then [a] else []) := by
  have hlast : a ∈ takenAt (leave a e) w i ↔ i = w.length := by
    rw [mem_takenAt, takenAt_leave hw, or_iff_right fun h => ha h.mem_embeddings, and_iff_left rfl]
  have hinit : e.embeddings.filter (· ∈ takenAt (leave a e) w i) = e.schedule w i := by
    refine (filter_takenAt (P := True) fun x hx => ?_).trans (if_pos trivial)
    rw [takenAt_leave hw, or_iff_left fun h : i = w.length ∧ x = a => ha (h.2 ▸ hx), true_and]
  rw [schedule, inOrder, embeddings, filter_append, hinit, filter_cons]
  by_cases hi : i = w.length
  · rw [if_pos hi, if_pos (decide_eq_true (hlast.mpr hi)), filter_nil]
  · simp [hlast, hi]

lemma schedule_marked {a b : α} (hw : w ∈ lang e) (he : e.embeddings = []) (hab : b ≠ a) (i : Nat) :
    (leave b (enter a e)).schedule w i
      = (if i = 0 then [a] else []) ++ (if i = w.length then [b] else []) := by
  rw [schedule_leave (mem_lang_enter.mpr hw) (by simp [embeddings, he, hab]),
    schedule_enter hw (by simp [he]), schedule_of_embeddings_nil he, append_nil]

lemma schedule_opt (y : List σ) (i : Nat) : (opt e).schedule y i = e.schedule y i := by
  rw [opt, schedule_alt (disjoint_nil_right _), schedule_of_embeddings_nil (e := eps) rfl,
    append_nil]

lemma schedule_nil (h : [] ∉ lang e) (i : Nat) : e.schedule [] i = [] := by
  rw [eq_nil_iff_forall_not_mem]
  intro x hx
  rcases mem_schedule.mp hx with ⟨c, hc, -⟩ | ⟨-, hleaves⟩
  · simp at hc
  · exact h hleaves.mem_lang

lemma schedule_sym_seq {p : σ → Bool} {c : σ} (hc : p c = true) (hv : v ∈ lang f) (i : Nat) :
    (seq (sym p) f).schedule (c :: v) i = if 1 ≤ i then f.schedule v (i - 1) else [] := by
  have hplan := schedule_seq (ReadsOnce.of_sym hc hv) (disjoint_nil_left _) i
  rw [schedule_of_embeddings_nil (e := sym p) rfl, ite_self, nil_append] at hplan
  exact hplan

end Schedules

/-! ## Runs -/

section Runs

variable {S : Type w} (perform : Nat → List α → S → Option S)

def runFrom (plan : Nat → List α) (base : Nat) : Nat → Nat → S → Option S
  | _, 0, s => some s
  | i, n + 1, s => (perform (base + i) (plan i) s).bind (runFrom plan base (i + 1) n)

lemma runFrom_one (plan : Nat → List α) (base i : Nat) (s : S) :
    runFrom perform plan base i 1 s = perform (base + i) (plan i) s := Option.bind_fun_some _

lemma runFrom_add (plan : Nat → List α) (base i m n : Nat) (s : S) :
    runFrom perform plan base i (m + n) s
      = (runFrom perform plan base i m s).bind (runFrom perform plan base (i + m) n) := by
  induction m generalizing i s with
  | zero => rw [Nat.zero_add]; rfl
  | succ m ih =>
    rw [Nat.add_right_comm, runFrom, runFrom, Option.bind_assoc]
    congr 1
    funext s'
    rw [ih, Nat.add_right_comm i 1 m, Nat.add_assoc]

lemma runFrom_congr {plan plan' : Nat → List α} {base base' i i' n : Nat}
    (hbase : base + i = base' + i') (h : ∀ j < n, plan (i + j) = plan' (i' + j)) (s : S) :
    runFrom perform plan base i n s = runFrom perform plan' base' i' n s := by
  induction n generalizing i i' s with
  | zero => rfl
  | succ n ih =>
    have hhead : plan i = plan' i' := h 0 (Nat.succ_pos n)
    rw [runFrom, runFrom, hbase, hhead]
    congr 1
    funext s'
    refine ih (by omega) (fun j hj => ?_) s'
    rw [Nat.add_assoc, Nat.add_assoc, Nat.add_comm 1 j]
    exact h (j + 1) (by omega)

variable {perform}

lemma runFrom_quiet (hnil : ∀ p s, perform p [] s = some s) {plan : Nat → List α} {i n : Nat}
    (h : ∀ j < n, plan (i + j) = []) (base : Nat) (s : S) :
    runFrom perform plan base i n s = some s := by
  induction n generalizing i with
  | zero => rfl
  | succ n ih =>
    have hhead : plan i = [] := h 0 (Nat.succ_pos n)
    rw [runFrom, hhead, hnil, Option.bind_some]
    refine ih fun j hj => ?_
    rw [Nat.add_assoc, Nat.add_comm 1 j]
    exact h (j + 1) (by omega)

variable [DecidableEq α] {e f : Expr σ α} {u v y : List σ}

variable (perform) in
def runs (e : Expr σ α) (y : List σ) (base : Nat) (s : S) : Option S :=
  runFrom perform (e.schedule y) base 0 (y.length + 1) s

/-- On a word of the expression the actions are performed position by position. -/
theorem exec_eq (hy : y ∈ lang e) (s : S) :
    exec perform e [e] 0 y s = (runs perform e y 0 s).map some := by
  suffices hgen : ∀ (v u : List σ) (s : S), u ++ v ∈ lang e →
      exec perform e (threads u e) u.length v s
        = (runFrom perform (e.schedule (u ++ v)) 0 u.length (v.length + 1) s).map some from
    hgen y [] s hy
  intro v
  induction v with
  | nil =>
    intro u s hmem
    rw [append_nil] at hmem ⊢
    have hfinal : ((threads u e).any fun t => (out t).isSome) = true := by
      obtain ⟨t, ht, o, ho⟩ := (mem_lang_iff e).mp hmem
      exact any_eq_true.mpr ⟨t, ht, by rw [ho]; rfl⟩
    have hplan : e.schedule u u.length = e.inOrder (leftBy (threads u e)) := by
      simp [schedule, takenAt]
    rw [exec, if_pos hfinal, length_nil, runFrom, hplan, Nat.zero_add]
    cases perform u.length (e.inOrder (leftBy (threads u e))) s <;> rfl
  | cons c v ih =>
    intro u s hmem
    have hadvance : advance (threads u e) c = threads (u ++ [c]) e := by
      rw [threads_append, advance]
      congr 1
      funext t
      simp [threads, map_eq_flatMap]
    have hmem' : u ++ [c] ++ v ∈ lang e := by
      rw [append_assoc]
      exact hmem
    have hlive : (threads (u ++ [c]) e).isEmpty = false := by
      obtain ⟨t, ht⟩ := live_append (live_of_mem_lang hmem')
      rw [isEmpty_eq_false_iff]
      exact ne_nil_of_mem ht
    have hplan : e.schedule (u ++ c :: v) u.length = e.inOrder (firedBy (threads u e) c) := by
      simp [schedule, takenAt]
    have hrest := fun s => ih (u ++ [c]) s hmem'
    simp only [append_assoc, singleton_append, length_append, length_singleton] at hrest
    rw [exec, hadvance, hlive, if_neg Bool.false_ne_true, length_cons, runFrom, hplan, Nat.zero_add]
    cases perform u.length (e.inOrder (firedBy (threads u e) c)) s with
    | none => rfl
    | some s' => exact hrest s'

lemma runs_seq_split (h : ReadsOnce e f u v) (hdisj : e.embeddings.Disjoint f.embeddings)
    (base : Nat) (s : S) : runs perform (seq e f) (u ++ v) base s
      = (runFrom perform (e.schedule u) base 0 u.length s).bind fun s =>
          (perform (base + u.length) (e.schedule u u.length ++ f.schedule v 0) s).bind
            (runFrom perform (f.schedule v) (base + u.length) 1 v.length) := by
  have hplan := schedule_seq h hdisj
  rw [runs, length_append, Nat.add_assoc, runFrom_add, Nat.zero_add]
  congr 1
  · refine runFrom_congr perform rfl (fun j hj => ?_) s
    rw [Nat.zero_add, hplan, if_pos hj.le, if_neg (by omega), append_nil]
  funext s'
  rw [runFrom, hplan, if_pos (le_refl _), if_pos (le_refl _), Nat.sub_self]
  congr 1
  funext s''
  refine runFrom_congr perform (Nat.add_assoc ..).symm (fun j hj => ?_) s''
  rw [hplan, if_neg (by omega), if_pos (by omega), nil_append]
  congr 1
  omega

/-- Such a concatenation runs its parts one after the other, if the actions between them can be
separated. -/
theorem runs_seq (h : ReadsOnce e f u v) (hdisj : e.embeddings.Disjoint f.embeddings) {base : Nat}
    (hjoin : ∀ s, perform (base + u.length) (e.schedule u u.length ++ f.schedule v 0) s
      = (perform (base + u.length) (e.schedule u u.length) s).bind
          (perform (base + u.length) (f.schedule v 0))) (s : S) :
    runs perform (seq e f) (u ++ v) base s
      = (runs perform e u base s).bind (runs perform f v (base + u.length)) := by
  rw [runs_seq_split h hdisj, runs, runFrom_add, Option.bind_assoc]
  congr 1
  funext s'
  rw [hjoin, Option.bind_assoc, Nat.zero_add, runFrom_one]
  rfl

lemma runs_of_embeddings_nil (hnil : ∀ p s, perform p [] s = some s) (he : e.embeddings = [])
    (y : List σ) (base : Nat) (s : S) : runs perform e y base s = some s :=
  runFrom_quiet hnil (fun _ _ => schedule_of_embeddings_nil he _) base s

lemma runs_seq_of_nil (hnil : ∀ p s, perform p [] s = some s) (h : ReadsOnce e f u v)
    (hdisj : e.embeddings.Disjoint f.embeddings)
    (hquiet : e.schedule u u.length = [] ∨ f.schedule v 0 = []) (base : Nat) (s : S) :
    runs perform (seq e f) (u ++ v) base s
      = (runs perform e u base s).bind (runs perform f v (base + u.length)) := by
  refine runs_seq h hdisj (fun s => ?_) s
  rcases hquiet with hleft | hright
  · rw [hleft, nil_append, hnil, Option.bind_some]
  · rw [hright, append_nil]
    simp only [hnil, Option.bind_fun_some]

lemma runs_sym_seq (hnil : ∀ p s, perform p [] s = some s) {p : σ → Bool} {c : σ}
    (hc : p c = true) (hv : v ∈ lang f) (base : Nat) (s : S) :
    runs perform (seq (sym p) f) (c :: v) base s = runs perform f v (base + 1) s := by
  have hquiet : (sym p : Expr σ α).schedule [c] 1 = [] := schedule_of_embeddings_nil rfl 1
  have hrun := runs_seq_of_nil hnil (ReadsOnce.of_sym hc hv) (disjoint_nil_left _)
    (Or.inl hquiet) base s
  rw [runs_of_embeddings_nil hnil (e := sym p) rfl] at hrun
  exact hrun

lemma runs_alt_left (hdisj : e.embeddings.Disjoint f.embeddings)
    (hf : ∀ i, f.schedule y i = []) (base : Nat) (s : S) :
    runs perform (alt e f) y base s = runs perform e y base s := by
  refine runFrom_congr perform rfl (fun j _ => ?_) s
  rw [schedule_alt hdisj, hf, append_nil]

lemma runs_opt (y : List σ) (base : Nat) (s : S) :
    runs perform (opt e) y base s = runs perform e y base s :=
  runFrom_congr perform rfl (fun _ _ => schedule_opt y _) s

lemma runs_opt_nil (hnil : ∀ p s, perform p [] s = some s) (h : [] ∉ lang e) (base : Nat)
    (s : S) : runs perform (opt e) [] base s = some s := by
  rw [runs_opt]
  exact runFrom_quiet hnil (fun _ _ => schedule_nil h _) base s

lemma runFrom_marked_tail (hnil : ∀ p s, perform p [] s = some s) {a b : α} (hy : y ∈ lang e)
    (he : e.embeddings = []) (hab : b ≠ a) (base : Nat) (s : S) :
    runFrom perform ((leave b (enter a e)).schedule y) base 1 y.length s
      = if y = [] then some s else perform (base + y.length) [b] s := by
  have hplan := schedule_marked hy he hab
  cases y with
  | nil => rfl
  | cons c y =>
    have hquiet : ∀ j < y.length, (leave b (enter a e)).schedule (c :: y) (1 + j) = [] := by
      intro j hj
      rw [hplan, if_neg (by omega), if_neg (by rw [length_cons]; omega), append_nil]
    rw [if_neg (cons_ne_nil c y), length_cons, runFrom_add, runFrom_quiet hnil hquiet,
      Option.bind_some, runFrom_one, hplan, if_neg (by omega),
      if_pos (by rw [length_cons]; omega), nil_append, Nat.add_comm 1 y.length]

/-- The run of a part that is marked at both ends. -/
theorem runs_marked (hnil : ∀ p s, perform p [] s = some s) {a b : α} (hy : y ∈ lang e)
    (he : e.embeddings = []) (hab : b ≠ a) (base : Nat) (s : S) :
    runs perform (leave b (enter a e)) y base s = if y = [] then perform base [a, b] s
        else (perform base [a] s).bind (perform (base + y.length) [b]) := by
  have htail := runFrom_marked_tail hnil hy he hab base
  rw [runs, runFrom, schedule_marked hy he hab, if_pos rfl, Nat.add_zero]
  cases y with
  | nil => exact Option.bind_fun_some _
  | cons c y =>
    rw [if_neg (by rw [length_cons]; omega), append_nil]
    rw [if_neg (cons_ne_nil c y)]
    congr 1
    funext s'
    rw [Nat.zero_add, htail, if_neg (cons_ne_nil c y)]

end Runs

end Expr
end ActionMachine
end Foundation
