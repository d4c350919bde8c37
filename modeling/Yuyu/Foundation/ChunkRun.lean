import Mathlib.Data.List.Basic

/-!
# Runs over pieces of the input

An automaton whose transitions carry lists of actions.  A piece of the input that is read as a
whole is described by the states before and behind it and by what it does to the data.
-/

namespace Foundation
namespace ChunkRun

open List

variable {σ ι α : Type}

def glide (step : σ → ι → Option (List α × σ)) : σ → List ι → Option σ
  | s, [] => some s
  | s, x :: xs =>
    match step s x with
    | some ([], t) => glide step t xs
    | _ => none

variable {step : σ → ι → Option (List α × σ)} {s t : σ} {x : ι} {xs : List ι}

lemma glide_cons (h : step s x = some ([], t)) (xs : List ι) :
    glide step s (x :: xs) = glide step t xs := by
  simp only [glide, h]

lemma step_of_glide {u : σ} (h : glide step s (x :: xs) = some u) :
    ∃ t, step s x = some ([], t) ∧ glide step t xs = some u := by
  rw [glide] at h
  split at h
  · next t hstep => exact ⟨t, hstep, h⟩
  · contradiction

/-- What every step keeps holds at the end of a stretch. -/
theorem glide_invariant (I : List ι → σ → Prop) {P : ι → Prop}
    (hstep : ∀ front s x, I front s → P x → ∃ t, step s x = some ([], t) ∧ I (front ++ [x]) t)
    {front : List ι} (hs : I front s) (hxs : ∀ x ∈ xs, P x) :
    ∃ t, glide step s xs = some t ∧ I (front ++ xs) t := by
  induction xs generalizing s front with
  | nil => exact ⟨s, rfl, by rwa [append_nil]⟩
  | cons x xs ih =>
    obtain ⟨s', hx, hs'⟩ := hstep front s x hs (hxs x mem_cons_self)
    obtain ⟨t, hglide, ht⟩ := ih hs' fun y hy => hxs y (mem_cons_of_mem x hy)
    refine ⟨t, (glide_cons hx xs).trans hglide, ?_⟩
    rwa [append_assoc, singleton_append] at ht

lemma glide_loop (h : ∀ x ∈ xs, step s x = some ([], s)) : glide step s xs = some s := by
  induction xs with
  | nil => rfl
  | cons x xs ih =>
    rw [glide_cons (h x mem_cons_self)]
    exact ih fun y hy => h y (mem_cons_of_mem x hy)

section Pieces

variable {κ δ ρ : Type} {run : List ι → List ι → σ → κ → Nat → δ → ρ} {ok : List ι → Prop}

/-- From the state `s`, the piece `xs` is read up to the state `t` and the data is changed by `f`,
wherever in an admitted stream the piece is. -/
def Advances (run : List ι → List ι → σ → κ → Nat → δ → ρ) (ok : List ι → Prop) (s : σ)
    (xs : List ι) (t : σ) (f : δ → δ) : Prop :=
  ∀ stream rest k p d, ok stream → stream.drop p = xs ++ rest →
    ∃ k', run stream (xs ++ rest) s k p d = run stream rest t k' (p + xs.length) (f d)

lemma Advances.nil (s : σ) : Advances run ok s [] s id := fun _ _ k _ _ _ _ => ⟨k, rfl⟩

/-- Pieces one behind the other. -/
theorem Advances.trans {s t u : σ} {xs ys : List ι} {f g : δ → δ}
    (hx : Advances run ok s xs t f) (hy : Advances run ok t ys u g) :
    Advances run ok s (xs ++ ys) u (g ∘ f) := by
  intro stream rest k p d hok hdrop
  rw [append_assoc] at hdrop ⊢
  obtain ⟨k₁, hrun₁⟩ := hx stream (ys ++ rest) k p d hok hdrop
  have hdrop₁ : stream.drop (p + xs.length) = ys ++ rest := by
    rw [← drop_drop, hdrop, drop_left]
  obtain ⟨k₂, hrun₂⟩ := hy stream rest k₁ (p + xs.length) (f d) hok hdrop₁
  refine ⟨k₂, ?_⟩
  rw [hrun₁, hrun₂, length_append, Nat.add_assoc]
  rfl

theorem Advances.flatMap {ν : Type} {s : σ} {items : List ν} {text : ν → List ι} {f : ν → δ → δ}
    (h : ∀ a ∈ items, Advances run ok s (text a) s (f a)) :
    Advances run ok s (items.flatMap text) s fun d => items.foldl (fun d a => f a d) d := by
  induction items with
  | nil => exact .nil s
  | cons a items ih =>
    rw [flatMap_cons]
    exact (h a mem_cons_self).trans (ih fun b hb => h b (mem_cons_of_mem a hb))

end Pieces

end ChunkRun
end Foundation
