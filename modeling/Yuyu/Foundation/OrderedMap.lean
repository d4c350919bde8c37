import Mathlib.Data.List.Basic

/-!
# Ordered maps with a comparator

An ordered map is the list of its entries.  Keys that the comparator takes for equal are one key.
-/

namespace Foundation
namespace OrderedMap

open List
open Std (TransCmp OrientedCmp ReflCmp)

universe u v

variable {α : Type u} {β : Type v}

section Operations

variable (cmp : α → α → Ordering)

/-- `m[key] = val`. -/
def insert (key : α) (val : β) : List (α × β) → List (α × β)
  | [] => [(key, val)]
  | (k, v) :: rest =>
    match cmp key k with
    | .lt => (key, val) :: (k, v) :: rest
    | .eq => (k, val) :: rest
    | .gt => (k, v) :: insert key val rest

def find (m : List (α × β)) (key : α) : Option β :=
  (m.find? fun entry => cmp entry.1 key == .eq).map (·.2)

def insertAll (m entries : List (α × β)) : List (α × β) :=
  entries.foldl (fun m entry => insert cmp entry.1 entry.2 m) m

/-- `m.insert({key, val})`, which leaves an entry under an equal key. -/
def insertNew (key : α) (val : β) : List (α × β) → List (α × β)
  | [] => [(key, val)]
  | (k, v) :: rest =>
    match cmp key k with
    | .lt => (key, val) :: (k, v) :: rest
    | .eq => (k, v) :: rest
    | .gt => (k, v) :: insertNew key val rest

def insertNewAll (m entries : List (α × β)) : List (α × β) :=
  entries.foldl (fun m entry => insertNew cmp entry.1 entry.2 m) m

def Sorted (m : List (α × β)) : Prop := m.Pairwise fun a b => cmp a.1 b.1 = .lt
deriving Decidable

end Operations

variable {cmp : α → α → Ordering} {key key' k : α} {val val' v : β} {m rest : List (α × β)}

lemma insert_lt (h : cmp key k = .lt) :
    insert cmp key val ((k, v) :: rest) = (key, val) :: (k, v) :: rest := by
  rw [insert, h]

lemma insert_eq (h : cmp key k = .eq) : insert cmp key val ((k, v) :: rest) = (k, val) :: rest := by
  rw [insert, h]

lemma insert_gt (h : cmp key k = .gt) :
    insert cmp key val ((k, v) :: rest) = (k, v) :: insert cmp key val rest := by
  rw [insert, h]

lemma insert_append [OrientedCmp cmp] (h : ∀ e ∈ m, cmp e.1 key = .lt) :
    insert cmp key val m = m ++ [(key, val)] := by
  induction m with
  | nil => rfl
  | cons e m ih =>
    have hgt : cmp key e.1 = .gt := OrientedCmp.gt_of_lt (h e mem_cons_self)
    rw [insert_gt hgt, ih fun e' he' => h e' (mem_cons_of_mem e he'), cons_append]

lemma insertAll_cons (m : List (α × β)) (e : α × β) (entries : List (α × β)) :
    insertAll cmp m (e :: entries) = insertAll cmp (insert cmp e.1 e.2 m) entries := rfl

lemma insertAll_append (m xs ys : List (α × β)) :
    insertAll cmp m (xs ++ ys) = insertAll cmp (insertAll cmp m xs) ys := foldl_append

section Exchange

variable [TransCmp cmp]

lemma insert_comm_of_lt_left (h : cmp key key' = .lt) (hk : cmp key k = .lt) :
    insert cmp key val (insert cmp key' val' ((k, v) :: rest)) =
      insert cmp key' val' (insert cmp key val ((k, v) :: rest)) := by
  have hgt : cmp key' key = .gt := OrientedCmp.gt_of_lt h
  rw [insert_lt hk, insert_gt hgt]
  cases hk' : cmp key' k with
  | lt => rw [insert_lt hk', insert_lt h]
  | eq => rw [insert_eq hk', insert_lt hk]
  | gt => rw [insert_gt hk', insert_lt hk]

lemma insert_comm_of_lt (h : cmp key key' = .lt) (m : List (α × β)) :
    insert cmp key val (insert cmp key' val' m) = insert cmp key' val' (insert cmp key val m) := by
  have hgt : cmp key' key = .gt := OrientedCmp.gt_of_lt h
  induction m with
  | nil => rw [insert, insert, insert_lt h, insert_gt hgt, insert]
  | cons e rest ih =>
    obtain ⟨k, v⟩ := e
    cases hk : cmp key k with
    | lt => exact insert_comm_of_lt_left h hk
    | eq =>
      -- the greater key is behind the entry of the smaller one
      have hk' : cmp key' k = .gt := TransCmp.gt_of_gt_of_eq hgt hk
      rw [insert_gt hk', insert_eq hk, insert_eq hk, insert_gt hk']
    | gt =>
      have hk' : cmp key' k = .gt := TransCmp.gt_trans hgt hk
      rw [insert_gt hk', insert_gt hk, insert_gt hk, insert_gt hk', ih]

/-- Assignments to different keys can be exchanged. -/
theorem insert_comm (h : cmp key key' ≠ .eq) (m : List (α × β)) :
    insert cmp key val (insert cmp key' val' m) = insert cmp key' val' (insert cmp key val m) := by
  cases hcmp : cmp key key' with
  | lt => exact insert_comm_of_lt hcmp m
  | eq => contradiction
  | gt => exact (insert_comm_of_lt (OrientedCmp.lt_of_gt hcmp) m).symm

/-! ## Lists of assignments -/

lemma insertAll_insert {entries : List (α × β)} (h : ∀ e ∈ entries, cmp e.1 key ≠ .eq)
    (m : List (α × β)) :
    insertAll cmp (insert cmp key val m) entries =
      insert cmp key val (insertAll cmp m entries) := by
  induction entries generalizing m with
  | nil => rfl
  | cons e entries ih =>
    rw [insertAll_cons, insertAll_cons, insert_comm (h e mem_cons_self)]
    exact ih (fun e' he' => h e' (mem_cons_of_mem e he')) _

lemma insertAll_of_sorted {m entries : List (α × β)} (h : Sorted cmp (m ++ entries)) :
    insertAll cmp m entries = m ++ entries := by
  induction entries generalizing m with
  | nil => exact (append_nil m).symm
  | cons e entries ih =>
    have hlast : ∀ x ∈ m, cmp x.1 e.1 = .lt := by
      intro x hx
      exact (pairwise_append.mp h).2.2 x hx e mem_cons_self
    rw [insertAll_cons, insert_append hlast, ih, append_assoc, singleton_append]
    rwa [append_assoc, singleton_append]

/-- The entries of a map, inserted one by one, make the map again. -/
theorem insertAll_sorted (h : Sorted cmp m) : insertAll cmp [] m = m := insertAll_of_sorted h

end Exchange

lemma find_cons_eq (h : cmp k key = .eq) : find cmp ((k, v) :: rest) key = some v := by
  simp [find, h]

lemma find_cons_ne (h : cmp k key ≠ .eq) : find cmp ((k, v) :: rest) key = find cmp rest key := by
  simp [find, h]

lemma find_eq_none (h : ∀ e ∈ m, cmp e.1 key ≠ .eq) : find cmp m key = none := by
  rw [find, Option.map_eq_none_iff, List.find?_eq_none]
  simpa using h

lemma find_append (xs ys : List (α × β)) :
    find cmp (xs ++ ys) key = (find cmp xs key).or (find cmp ys key) := by
  rw [find, List.find?_append, Option.map_or]
  rfl

lemma find_insertNew_of_ne (h : cmp key key' ≠ .eq) (m : List (α × β)) :
    find cmp (insertNew cmp key val m) key' = find cmp m key' := by
  induction m with
  | nil => exact find_cons_ne h
  | cons e rest ih =>
    obtain ⟨k, v⟩ := e
    cases hk : cmp key k with
    | lt =>
      simp only [insertNew, hk]
      rw [find_cons_ne h]
    | eq => simp only [insertNew, hk]
    | gt =>
      simp only [insertNew, hk]
      by_cases hne : cmp k key' = .eq
      · rw [find_cons_eq hne, find_cons_eq hne]
      · rw [find_cons_ne hne, find_cons_ne hne, ih]

lemma mem_insertNew {e : α × β} (h : e ∈ insertNew cmp key val m) : e = (key, val) ∨ e ∈ m := by
  induction m with
  | nil => exact Or.inl (mem_singleton.mp h)
  | cons e' rest ih =>
    obtain ⟨k, v⟩ := e'
    cases hk : cmp key k with
    | lt =>
      simp only [insertNew, hk] at h
      exact mem_cons.mp h
    | eq =>
      simp only [insertNew, hk] at h
      exact Or.inr h
    | gt =>
      simp only [insertNew, hk] at h
      rcases mem_cons.mp h with rfl | hrest
      · exact Or.inr mem_cons_self
      · exact (ih hrest).imp_right (mem_cons_of_mem _)

section Lookup

variable [TransCmp cmp]

lemma find_congr (h : cmp key key' = .eq) (m : List (α × β)) :
    find cmp m key = find cmp m key' := by
  have hsame : (fun entry : α × β => cmp entry.1 key == .eq) =
      fun entry => cmp entry.1 key' == .eq := by
    funext entry
    rw [TransCmp.congr_right h]
  rw [find, hsame, find]

/-- What is found after an assignment. -/
theorem find_insert_self (m : List (α × β)) : find cmp (insert cmp key val m) key = some val := by
  induction m with
  | nil => exact find_cons_eq ReflCmp.compare_self
  | cons e rest ih =>
    obtain ⟨k, v⟩ := e
    cases hk : cmp key k with
    | lt =>
      rw [insert_lt hk]
      exact find_cons_eq ReflCmp.compare_self
    | eq =>
      rw [insert_eq hk]
      exact find_cons_eq (OrientedCmp.eq_symm hk)
    | gt =>
      rw [insert_gt hk, find_cons_ne, ih]
      rw [OrientedCmp.lt_of_gt hk]
      decide

theorem find_insert_of_ne (h : cmp key key' ≠ .eq) (m : List (α × β)) :
    find cmp (insert cmp key val m) key' = find cmp m key' := by
  induction m with
  | nil => exact find_cons_ne h
  | cons e rest ih =>
    obtain ⟨k, v⟩ := e
    cases hk : cmp key k with
    | lt => rw [insert_lt hk, find_cons_ne h]
    | eq =>
      have hne : cmp k key' ≠ .eq := by rwa [← TransCmp.congr_left hk]
      rw [insert_eq hk, find_cons_ne hne, find_cons_ne hne]
    | gt =>
      rw [insert_gt hk]
      by_cases hne : cmp k key' = .eq
      · rw [find_cons_eq hne, find_cons_eq hne]
      · rw [find_cons_ne hne, find_cons_ne hne, ih]

lemma find_insertAll (m entries : List (α × β)) :
    find cmp (insertAll cmp m entries) key =
      (find cmp entries.reverse key).or (find cmp m key) := by
  induction entries generalizing m with
  | nil => rfl
  | cons e entries ih =>
    rw [insertAll_cons, ih, reverse_cons, find_append, Option.or_assoc]
    congr 1
    by_cases hkey : cmp e.1 key = .eq
    · rw [find_cons_eq hkey, ← find_congr hkey, find_insert_self]
      rfl
    · rw [find_cons_ne hkey, find_insert_of_ne hkey]
      rfl

lemma find_insertNew_self (h : Sorted cmp m) :
    find cmp (insertNew cmp key val m) key = (find cmp m key).or (some val) := by
  induction m with
  | nil => exact find_cons_eq ReflCmp.compare_self
  | cons e rest ih =>
    obtain ⟨k, v⟩ := e
    obtain ⟨hfirst, hrest⟩ := pairwise_cons.mp h
    cases hk : cmp key k with
    | lt =>
      have hnone : find cmp ((k, v) :: rest) key = none := by
        refine find_eq_none fun e he => ?_
        have hlt : cmp key e.1 = .lt := by
          rcases mem_cons.mp he with rfl | he
          · exact hk
          · exact TransCmp.lt_trans hk (hfirst e he)
        rw [OrientedCmp.gt_of_lt hlt]
        decide
      rw [insertNew, hk, hnone]
      exact find_cons_eq ReflCmp.compare_self
    | eq =>
      have heq : cmp k key = .eq := OrientedCmp.eq_symm hk
      simp only [insertNew, hk]
      rw [find_cons_eq heq]
      rfl
    | gt =>
      have hne : cmp k key ≠ .eq := by
        rw [OrientedCmp.lt_of_gt hk]
        decide
      simp only [insertNew, hk]
      rw [find_cons_ne hne, find_cons_ne hne, ih hrest]

lemma sorted_insertNew (h : Sorted cmp m) : Sorted cmp (insertNew cmp key val m) := by
  induction m with
  | nil => exact pairwise_singleton _ _
  | cons e rest ih =>
    obtain ⟨k, v⟩ := e
    obtain ⟨hfirst, hrest⟩ := pairwise_cons.mp h
    cases hk : cmp key k with
    | lt =>
      simp only [insertNew, hk]
      refine pairwise_cons.mpr ⟨fun e he => ?_, h⟩
      rcases mem_cons.mp he with rfl | he
      · exact hk
      · exact TransCmp.lt_trans hk (hfirst e he)
    | eq =>
      simp only [insertNew, hk]
      exact h
    | gt =>
      simp only [insertNew, hk]
      refine pairwise_cons.mpr ⟨fun e he => ?_, ih hrest⟩
      rcases mem_insertNew he with rfl | he
      · exact OrientedCmp.lt_of_gt hk
      · exact hfirst e he

lemma find_insertNewAll (h : Sorted cmp m) (entries : List (α × β)) :
    find cmp (insertNewAll cmp m entries) key = (find cmp m key).or (find cmp entries key) := by
  induction entries generalizing m with
  | nil => exact (Option.or_none).symm
  | cons e entries ih =>
    have hrest := ih (m := insertNew cmp e.1 e.2 m) (sorted_insertNew h)
    rw [insertNewAll, foldl_cons]
    refine hrest.trans ?_
    by_cases hkey : cmp e.1 key = .eq
    · have hself : find cmp (insertNew cmp e.1 e.2 m) key = (find cmp m key).or (some e.2) := by
        rw [← find_congr hkey, find_insertNew_self h, find_congr hkey]
      rw [hself, find_cons_eq hkey, Option.or_assoc]
      rfl
    · rw [find_cons_ne hkey, find_insertNew_of_ne hkey]

lemma find_of_mem (h : Sorted cmp m) (hmem : (key, val) ∈ m) : find cmp m key = some val := by
  induction m with
  | nil => cases hmem
  | cons e rest ih =>
    obtain ⟨k, v⟩ := e
    rcases mem_cons.mp hmem with heq | hrest
    · cases heq
      exact find_cons_eq ReflCmp.compare_self
    have hlt : cmp k key = .lt := (pairwise_cons.mp h).1 _ hrest
    rw [find_cons_ne (by rw [hlt]; decide)]
    exact ih (pairwise_cons.mp h).2 hrest

end Lookup

end OrderedMap
end Foundation
