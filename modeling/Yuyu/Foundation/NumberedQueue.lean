import Mathlib.Data.List.Perm.Basic
import Mathlib.Data.List.Range

/-!
# Queues whose entries are numbered

A ledger numbers the entries of a queue in the order of their acceptance and records which of them
wait and which have been removed, and by whom.
-/

namespace Foundation

open List

structure Ledger (α β : Type) where
  accepted : List α
  waiting : List Nat
  removed : List (Nat × β)

namespace Ledger

variable {α β : Type}

def empty : Ledger α β := ⟨[], [], []⟩

def accept (l : Ledger α β) (xs : List α) : Ledger α β :=
  { l with
    accepted := l.accepted ++ xs
    waiting := l.waiting ++ List.range' l.accepted.length xs.length }

def remove (l : Ledger α β) (k : Nat) (b : β) : Ledger α β :=
  { l with
    waiting := l.waiting.eraseIdx k
    removed := l.removed ++ (l.waiting[k]?.map fun i => (i, b)).toList }

def numbers (l : Ledger α β) : List Nat := l.removed.map Prod.fst ++ l.waiting

/-- The ledger describes the queue: the waiting numbers are those of its entries,
and each number is waiting or removed, one of these and once. -/
structure Tracks (l : Ledger α β) (queue : List α) : Prop where
  entries : queue.map some = l.waiting.map (l.accepted[·]?)
  once : l.numbers.Perm (List.range l.accepted.length)

def isIn (l : Ledger α β) (p : α → Bool) (i : Nat) : Bool := l.accepted[i]?.any p

def InOrder (l : Ledger α β) (p : α → Bool) : Prop := (l.numbers.filter (l.isIn p)).Pairwise (· < ·)

lemma tracks_empty : (empty : Ledger α β).Tracks [] := ⟨rfl, .refl _⟩

lemma inOrder_empty (p : α → Bool) : (empty : Ledger α β).InOrder p := .nil

lemma getElem?_accepted_of_lt (l : Ledger α β) (xs : List α) {i : Nat}
    (hi : i < l.accepted.length) : (l.accept xs).accepted[i]? = l.accepted[i]? :=
  List.getElem?_append_left hi

namespace Tracks

variable {l : Ledger α β} {queue : List α} (h : l.Tracks queue)
include h

lemma number_lt {i : Nat} (hi : i ∈ l.numbers) : i < l.accepted.length :=
  mem_range.mp (h.once.mem_iff.mp hi)

lemma length_eq : queue.length = l.waiting.length := by
  simpa using congrArg List.length h.entries

lemma entry {k i : Nat} (hk : l.waiting[k]? = some i) : queue[k]? = l.accepted[i]? := by
  have hmap := congrArg (·[k]?) h.entries
  simp only [List.getElem?_map, hk, Option.map_some] at hmap
  cases hq : queue[k]? with
  | none => simp [hq] at hmap
  | some x => simpa [hq] using hmap

/-- A ledger that follows the operations of a queue has every entry accepted exactly once among the
waiting and the removed ones. -/
theorem accept (xs : List α) : (l.accept xs).Tracks (queue ++ xs) := by
  constructor
  · have hold : l.waiting.map ((l.accept xs).accepted[·]?) = l.waiting.map (l.accepted[·]?) := by
      apply map_congr_left
      intro i hi
      exact l.getElem?_accepted_of_lt xs (h.number_lt (mem_append_right _ hi))
    have hnew : (List.range' l.accepted.length xs.length).map ((l.accept xs).accepted[·]?) =
        xs.map some := by
      apply ext_getElem
      · simp
      intro k hk hk'
      have hk : k < xs.length := by simpa using hk'
      simp [Ledger.accept, hk]
    calc (queue ++ xs).map some
        = l.waiting.map (l.accepted[·]?) ++ xs.map some := by rw [map_append, h.entries]
      _ = (l.accept xs).waiting.map ((l.accept xs).accepted[·]?) := by
          rw [← hold, ← hnew, ← map_append]
          rfl
  have hlen : (l.accept xs).accepted.length = l.accepted.length + xs.length := length_append
  rw [hlen, range_eq_range', ← List.range'_append_1, ← range_eq_range', Nat.zero_add]
  have hnumbers : (l.accept xs).numbers =
      l.numbers ++ List.range' l.accepted.length xs.length := (append_assoc _ _ _).symm
  rw [hnumbers]
  exact h.once.append_right _

theorem remove (k : Nat) (b : β) : (l.remove k b).Tracks (queue.eraseIdx k) := by
  constructor
  · change (queue.eraseIdx k).map some = (l.waiting.eraseIdx k).map (l.accepted[·]?)
    rw [← eraseIdx_map, h.entries, eraseIdx_map]
  refine List.Perm.trans ?_ h.once
  change List.Perm ((l.removed ++ (l.waiting[k]?.map fun i => (i, b)).toList).map Prod.fst ++
    l.waiting.eraseIdx k) l.numbers
  by_cases hk : k < l.waiting.length
  · rw [List.getElem?_eq_getElem hk, map_append, append_assoc]
    exact (getElem_cons_eraseIdx_perm hk).append_left _
  · rw [List.getElem?_eq_none (Nat.not_lt.mp hk), eraseIdx_of_length_le (Nat.not_lt.mp hk)]
    simp [numbers]

end Tracks

namespace InOrder

variable {l : Ledger α β} {queue : List α} {p : α → Bool}

theorem accept (h : l.InOrder p) (ht : l.Tracks queue) (xs : List α) : (l.accept xs).InOrder p := by
  have hnumbers : (l.accept xs).numbers =
      l.numbers ++ List.range' l.accepted.length xs.length := (append_assoc _ _ _).symm
  have hold : l.numbers.filter ((l.accept xs).isIn p) = l.numbers.filter (l.isIn p) := by
    apply filter_congr
    intro i hi
    rw [isIn, isIn, l.getElem?_accepted_of_lt xs (ht.number_lt hi)]
  unfold InOrder
  rw [hnumbers, filter_append, hold]
  refine pairwise_append.mpr ⟨h, List.Pairwise.filter _ pairwise_lt_range', ?_⟩
  intro i hi j hj
  have hlt := ht.number_lt (mem_of_mem_filter hi)
  have hle := (mem_range'_1.mp (mem_of_mem_filter hj)).1
  omega

theorem remove (h : l.InOrder p) (ht : l.Tracks queue) {k : Nat} (b : β)
    (hfirst : ∀ x ∈ queue[k]?, p x = true → ∀ y ∈ queue.take k, p y = false) :
    (l.remove k b).InOrder p := by
  cases hk : l.waiting[k]? with
  | none =>
    have hle : l.waiting.length ≤ k := List.getElem?_eq_none_iff.mp hk
    have hsame : l.remove k b = l := by
      simp [Ledger.remove, hk, eraseIdx_of_length_le hle]
    rwa [hsame]
  | some i =>
    have hsplit : l.waiting = l.waiting.take k ++ i :: l.waiting.drop (k + 1) := by
      obtain ⟨hlt, rfl⟩ := List.getElem?_eq_some_iff.mp hk
      rw [getElem_cons_drop, take_append_drop]
    -- no number of the class stands before the one removed, if that is in the class
    have hbefore : l.isIn p i = true → (l.waiting.take k).filter (l.isIn p) = [] := by
      intro hi
      obtain ⟨x, hx, hpx⟩ : ∃ x, l.accepted[i]? = some x ∧ p x = true := by
        unfold isIn at hi
        cases hx : l.accepted[i]? with
        | none => simp [hx] at hi
        | some x => exact ⟨x, rfl, by simpa [hx] using hi⟩
      rw [filter_eq_nil_iff]
      intro j hj
      obtain ⟨m, hm, rfl⟩ := getElem_of_mem hj
      have hmk : m < k ∧ m < l.waiting.length := by simpa [Nat.lt_min] using hm
      have hentry := ht.entry (List.getElem?_eq_getElem hmk.2)
      rw [getElem_take, isIn, ← hentry]
      have hmq : m < queue.length := ht.length_eq ▸ hmk.2
      have hy := hfirst x (by rw [ht.entry hk, hx]; rfl) hpx queue[m]
        (mem_take_iff_getElem.mpr ⟨m, by omega, rfl⟩)
      simp [List.getElem?_eq_getElem hmq, hy]
    have hsame : (l.remove k b).numbers.filter (l.isIn p) = l.numbers.filter (l.isIn p) := by
      have hnew : (l.remove k b).numbers =
          l.removed.map Prod.fst ++ i :: (l.waiting.take k ++ l.waiting.drop (k + 1)) := by
        simp [Ledger.remove, numbers, hk, eraseIdx_eq_take_drop_succ]
      have hwait := congrArg (List.filter (l.isIn p)) hsplit
      rw [hnew, numbers, filter_append, filter_append, hwait]
      cases hi : l.isIn p i with
      | true => simp [hi, hbefore hi]
      | false => simp [hi]
    change ((l.remove k b).numbers.filter (l.isIn p)).Pairwise (· < ·)
    rw [hsame]
    exact h

end InOrder

end Ledger
end Foundation
