import Mathlib.Data.List.Induction
import Mathlib.Data.List.Nodup

/-!
# Tables in the order of the latest write

A cell holds the latest value of one key.  In a table a write erases the entry of its key and
appends a new one, so the entries are in the order of the latest writes.
-/

namespace Foundation
namespace RecentTable

open List

variable {ι κ α : Type}

/-- Operation `i` wrote `c`, and no later one wrote or erased. -/
structure Latest (eff : ι → Option (Option α)) (ops : List ι) (i : Nat) (c : α) : Prop where
  wrote : ops[i]?.bind eff = some (some c)
  last : ∀ j, i < j → ops[j]?.bind eff = none

section Latest

variable {eff : ι → Option (Option α)} {ops : List ι} {i j : Nat} {c d : α}

lemma Latest.not_lt (h : Latest eff ops i c) (h' : Latest eff ops j d) : ¬ i < j := by
  intro hlt
  have hwrote := h'.wrote
  rw [h.last j hlt] at hwrote
  contradiction

end Latest

/-! ## Tables -/

variable [DecidableEq κ]

def put (k : κ) (v : Option α) (l : List (κ × α)) : List (κ × α) :=
  l.eraseP (·.1 = k) ++ (v.map (k, ·)).toList

def table (ev : ι → Option (κ × Option α)) (ops : List ι) : List (κ × α) :=
  ops.foldl (fun l op => (ev op).elim l fun e => put e.1 e.2 l) []

def writes (ev : ι → Option (κ × Option α)) (k : κ) (op : ι) : Option (Option α) :=
  (ev op).bind fun e => if e.1 = k then some e.2 else none

section Table

variable {ev : ι → Option (κ × Option α)} {ops : List ι}

structure Tagged (ev : ι → Option (κ × Option α)) (ops : List ι) (t : List (Nat × κ × α)) :
    Prop where
  entries : t.map Prod.snd = table ev ops
  ordered : t.Pairwise (·.1 < ·.1)
  mem_iff : ∀ i k c, (i, k, c) ∈ t ↔ Latest (writes ev k) ops i c

lemma Tagged.nodup {t : List (Nat × κ × α)} (h : Tagged ev ops t) :
    ((table ev ops).map Prod.fst).Nodup := by
  rw [← h.entries, map_map, List.Nodup, pairwise_map]
  refine h.ordered.imp_of_mem fun {a b} ha hb hlt heq => ?_
  have hb' : (b.1, a.2.1, b.2.2) ∈ t := by
    rw [show a.2.1 = b.2.1 from heq]
    exact hb
  exact ((h.mem_iff ..).mp ha).not_lt ((h.mem_iff ..).mp hb') hlt

variable {P : κ → Bool}

end Table

end RecentTable
end Foundation
