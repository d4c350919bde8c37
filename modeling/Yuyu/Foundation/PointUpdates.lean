import Mathlib.Data.List.Basic

/-!
# Loops that rewrite a function point by point

A loop over a list rewrites a function at the key of each entry, from the value it has there.
-/

namespace Foundation
namespace PointUpdates

universe u v w

variable {ι : Type u} {κ : Type v} {β : Type w} [DecidableEq κ]

def rewrite (key : ι → κ) (f : ι → β → Option β) (l : List ι) (g : κ → β) : Option (κ → β) :=
  l.foldlM (fun g i => (f i (g (key i))).map (Function.update g (key i))) g

variable {key : ι → κ} {f : ι → β → Option β} {l : List ι} {g g' : κ → β}

lemma rewrite_cons {i : ι} (h : rewrite key f (i :: l) g = some g') :
    ∃ b, f i (g (key i)) = some b ∧ rewrite key f l (Function.update g (key i) b) = some g' := by
  obtain ⟨g₁, hfirst, hrest⟩ := Option.bind_eq_some_iff.mp h
  obtain ⟨b, hb, rfl⟩ := Option.map_eq_some_iff.mp hfirst
  exact ⟨b, hb, hrest⟩

/-- All other values are unchanged. -/
theorem apply_of_notMem (h : rewrite key f l g = some g') {k : κ} (hk : ∀ i ∈ l, key i ≠ k) :
    g' k = g k := by
  induction l generalizing g with
  | nil => exact congrFun (Option.some.inj h).symm k
  | cons i l ih =>
    obtain ⟨b, -, hrest⟩ := rewrite_cons h
    rw [ih hrest fun j hj => hk j (List.mem_cons_of_mem i hj),
      Function.update_of_ne (hk i List.mem_cons_self).symm]

/-- The value at the key of an entry. -/
theorem apply_of_mem (hl : l.Pairwise fun i j => key i ≠ key j)
    (h : rewrite key f l g = some g') {i : ι} (hi : i ∈ l) :
    f i (g (key i)) = some (g' (key i)) := by
  induction l generalizing g with
  | nil => cases hi
  | cons j l ih =>
    obtain ⟨hfirst, htail⟩ := List.pairwise_cons.mp hl
    obtain ⟨b, hb, hrest⟩ := rewrite_cons h
    rcases List.mem_cons.mp hi with rfl | hi
    · have hkeep := apply_of_notMem hrest fun k hk => (hfirst k hk).symm
      rw [Function.update_self] at hkeep
      rw [hb, hkeep]
    · rw [← ih htail hrest hi, Function.update_of_ne (hfirst i hi).symm]

/-- Entries that never fail do not stop the loop. -/
theorem exists_rewrite (h : ∀ i ∈ l, ∀ b, ∃ b', f i b = some b') (g : κ → β) :
    ∃ g', rewrite key f l g = some g' := by
  induction l generalizing g with
  | nil => exact ⟨g, rfl⟩
  | cons i l ih =>
    obtain ⟨b, hb⟩ := h i List.mem_cons_self (g (key i))
    obtain ⟨g', hg'⟩ := ih (fun j hj => h j (List.mem_cons_of_mem i hj))
      (Function.update g (key i) b)
    exact ⟨g', by rw [rewrite, List.foldlM_cons, hb]; exact hg'⟩

end PointUpdates
end Foundation
