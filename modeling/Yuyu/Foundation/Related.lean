import Mathlib.Logic.Basic

/-!
# Related computations

Two computations that can throw are related if both throw related exceptions or both return
related values.
-/

namespace Foundation

/-- Both throw exceptions in `E` or both return values in `R`. -/
inductive Related {ε ε' α β : Type*} (E : ε → ε' → Prop) (R : α → β → Prop) :
    Except ε α → Except ε' β → Prop
  | error {e : ε} {e' : ε'} (h : E e e') : Related E R (.error e) (.error e')
  | ok {a : α} {b : β} (h : R a b) : Related E R (.ok a) (.ok b)

namespace Related

section Composition

universe u v

variable {ε ε' γ ι : Type*} {α α' : Type u} {β β' : Type v} {E : ε → ε' → Prop} {R : α → β → Prop}
  {S : α' → β' → Prop} {x : Except ε α} {y : Except ε' β}

lemma mono {R' : α → β → Prop} (h : Related E R x y) (hR : ∀ a b, R a b → R' a b) :
    Related E R' x y := by
  cases h with
  | error h => exact .error h
  | ok h => exact .ok (hR _ _ h)

lemma map {f : α → α'} {g : β → β'} (h : Related E R x y)
    (hfg : ∀ a b, R a b → S (f a) (g b)) : Related E S (x.map f) (y.map g) := by
  cases h with
  | error h => exact .error h
  | ok h => exact .ok (hfg _ _ h)

/-- Related computations continued in a related way. -/
theorem bind {f : α → Except ε α'} {g : β → Except ε' β'} (h : Related E R x y)
    (hfg : ∀ a b, R a b → Related E S (f a) (g b)) : Related E S (x >>= f) (y >>= g) := by
  cases h with
  | error h => exact .error h
  | ok h => exact hfg _ _ h

/-- Two loops over one list whose rounds are related. -/
theorem foldlM (P : ι → α → β → Prop) (next : ι → γ → ι) (allows : ι → List γ → Prop)
    {f : α → γ → Except ε α} {g : β → γ → Except ε' β}
    (hstep : ∀ i c cs a b, allows i (c :: cs) → P i a b →
      allows (next i c) cs ∧ Related E (P (next i c)) (f a c) (g b c))
    (cs : List γ) {i : ι} {a : α} {b : β} (hall : allows i cs) (h : P i a b) :
    Related E (P (cs.foldl next i)) (cs.foldlM f a) (cs.foldlM g b) := by
  induction cs generalizing i a b with
  | nil => exact .ok h
  | cons c cs ih =>
    obtain ⟨hrest, hround⟩ := hstep i c cs a b hall h
    rw [List.foldlM_cons, List.foldlM_cons, List.foldl_cons]
    exact hround.bind fun a b h => ih hrest h

end Composition

end Related

end Foundation
