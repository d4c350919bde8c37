import Mathlib.Data.List.Basic

/-!
# Ordered sets with an external comparator

An ordered set is its list of elements, and an iterator a position in it.  The comparator is an
argument, because the order may depend on mutable data outside the set.
-/

namespace Foundation
namespace OrderedSet

open List

universe u

variable {α : Type u}

structure StrictTotal (lt : α → α → Bool) : Prop where
  irrefl : ∀ a, lt a a = false
  trans : ∀ {a b c}, lt a b = true → lt b c = true → lt a c = true
  connex : ∀ {a b}, lt a b = false → lt b a = false → a = b

def Sorted (lt : α → α → Bool) (l : List α) : Prop := l.Pairwise (fun a b => lt a b = true)

def lowerBound (before : α → Bool) (l : List α) : Nat := (l.takeWhile before).length

/-- The position of an element equivalent to `x`, or the end position. -/
def find (lt : α → α → Bool) (x : α) (l : List α) : Nat :=
  let i := lowerBound (fun y => lt y x) l
  match l[i]? with
  | some y => if lt x y then l.length else i
  | none => l.length

def insert (lt : α → α → Bool) (x : α) : List α → List α
  | [] => [x]
  | y :: ys =>
    if lt y x then y :: insert lt x ys
    else if lt x y then x :: y :: ys
    else y :: ys

def erase (i : Nat) (l : List α) : Option (List α) :=
  if i < l.length then some (l.eraseIdx i) else none

variable {lt : α → α → Bool}

lemma Sorted.nodup (hlt : StrictTotal lt) {l : List α} (h : Sorted lt l) : l.Nodup := by
  refine List.Pairwise.imp ?_ h
  intro a b hab heq
  subst heq
  rw [hlt.irrefl] at hab
  contradiction

lemma mem_insert (hlt : StrictTotal lt) {x a : α} {l : List α} :
    a ∈ insert lt x l ↔ a = x ∨ a ∈ l := by
  induction l with
  | nil => simp [insert]
  | cons y ys ih =>
    simp only [insert]
    split
    · simp only [mem_cons, ih]
      tauto
    rename_i hyx
    split
    · simp
    rename_i hxy
    have heq : y = x := hlt.connex (by simpa using hyx) (by simpa using hxy)
    simp [heq]

/-- Insertion keeps a strictly sorted set strictly sorted. -/
theorem insert_pairwise (hlt : StrictTotal lt) {x : α} {l : List α}
    (h : Sorted lt l) : Sorted lt (insert lt x l) := by
  induction l with
  | nil => simp [insert, Sorted]
  | cons y ys ih =>
    rw [Sorted, pairwise_cons] at h
    simp only [insert]
    split
    · rename_i hyx
      refine pairwise_cons.mpr ⟨?_, ih h.2⟩
      intro a ha
      rcases (mem_insert hlt).mp ha with rfl | ha
      · exact hyx
      · exact h.1 a ha
    split
    · rename_i hxy
      refine pairwise_cons.mpr ⟨?_, pairwise_cons.mpr h⟩
      intro a ha
      rcases mem_cons.mp ha with rfl | ha
      · exact hxy
      · exact hlt.trans hxy (h.1 a ha)
    · exact pairwise_cons.mpr h

lemma lowerBound_append (hlt : StrictTotal lt) {x : α} {p q : List α}
    (hp : ∀ y ∈ p, lt y x = true) : lowerBound (fun y => lt y x) (p ++ x :: q) = p.length := by
  induction p with
  | nil => simp [lowerBound, hlt.irrefl]
  | cons y ys ih =>
    have hy : lt y x = true := hp y (by simp)
    have htail := ih (fun z hz => hp z (by simp [hz]))
    simp only [lowerBound, cons_append, takeWhile_cons, hy] at htail ⊢
    simpa using htail

/-- In a strictly sorted set a search for a member succeeds, and erasing the position found removes
exactly that member. -/
theorem find_of_mem (hlt : StrictTotal lt) {x : α} {l : List α} (hl : Sorted lt l) (hx : x ∈ l) :
    ∃ p q, l = p ++ x :: q ∧ find lt x l = p.length ∧ erase (find lt x l) l = some (p ++ q) := by
  obtain ⟨p, q, rfl⟩ := append_of_mem hx
  have hp : ∀ y ∈ p, lt y x = true := by
    intro y hy
    exact (pairwise_append.mp hl).2.2 y hy x (by simp)
  have hfind : find lt x (p ++ x :: q) = p.length := by
    simp [find, lowerBound_append hlt hp, hlt.irrefl]
  refine ⟨p, q, rfl, hfind, ?_⟩
  rw [hfind]
  simp [erase, eraseIdx_append]

lemma eq_false_of_mem_dropWhile {p : α → Bool} {l : List α}
    (h : l.Pairwise fun a b => p b = true → p a = true) : ∀ a ∈ l.dropWhile p, p a = false := by
  induction l with
  | nil => simp
  | cons x xs ih =>
    rw [pairwise_cons] at h
    intro a ha
    rw [dropWhile_cons] at ha
    split at ha
    · exact ih h.2 a ha
    rename_i hx
    rcases mem_cons.mp ha with rfl | ha
    · simpa using hx
    · by_contra hne
      exact hx (h.1 a ha (by simpa using hne))

lemma find_lt_length_of_mem (hlt : StrictTotal lt) {x : α} {l : List α}
    (hl : Sorted lt l) (hx : x ∈ l) : find lt x l < l.length := by
  obtain ⟨p, q, hsplit, hfind, -⟩ := find_of_mem hlt hl hx
  rw [hfind, hsplit]
  simp

end OrderedSet
end Foundation
