import Mathlib.Tactic.Common

/-!
# Document trees

A document is a tree of scalars, sequences and maps whose keys are nodes.  A tagged text prints it
without loss.
-/

namespace Foundation
namespace DocumentTree

open List

inductive Document where
  | null
  | scalar (text : List UInt8)
  | sequence (items : List Document)
  | map (entries : List (Document × Document))

abbrev Entries := List (Document × Document)

/-- The node is the scalar `key`. -/
def Document.isKey (key : List UInt8) : Document → Bool
  | .scalar text => text == key
  | _ => false

lemma Document.eq_of_isKey {key : List UInt8} {n : Document} (h : n.isKey key = true) :
    n = .scalar key := by
  cases n with
  | scalar text =>
    have heq : text = key := by simpa [isKey] using h
    rw [heq]
  | _ => simp [isKey] at h

@[simp] lemma Document.isKey_scalar (key text : List UInt8) :
    (Document.scalar text).isKey key = (text == key) := rfl

namespace Entries

variable {key key' : List UInt8} {v : Document}

def find (key : List UInt8) : Entries → Option Document
  | [] => none
  | (k, v) :: es => if k.isKey key then some v else find key es

def assign (key : List UInt8) (v : Document) : Entries → Entries
  | [] => [(.scalar key, v)]
  | (k, w) :: es => if k.isKey key then (k, v) :: es else (k, w) :: assign key v es

def pushBack (key : List UInt8) (v : Document) (es : Entries) : Entries :=
  match es.find key with
  | some (.sequence items) => es.assign key (.sequence (items ++ [v]))
  | _ => es.assign key (.sequence [v])

/-- Lookup after assignment. -/
@[simp] theorem find_assign_self (key : List UInt8) (v : Document) (es : Entries) :
    (es.assign key v).find key = some v := by
  induction es with
  | nil => simp [assign, find]
  | cons e es ih =>
    simp only [assign]
    split
    · rename_i hk
      simp [find, hk]
    · rename_i hk
      simp [find, hk, ih]

theorem find_assign_of_ne (h : key' ≠ key) (v : Document) (es : Entries) :
    (es.assign key v).find key' = es.find key' := by
  induction es with
  | nil => simp [assign, find, Ne.symm h]
  | cons e es ih =>
    obtain ⟨k, w⟩ := e
    simp only [assign]
    split
    · rename_i hk
      rw [Document.eq_of_isKey hk]
      simp [find, Ne.symm h]
    · simp only [find, ih]

lemma find_pushBack_of_ne (h : key' ≠ key) (v : Document) (es : Entries) :
    (es.pushBack key v).find key' = es.find key' := by
  unfold pushBack
  split
  · exact find_assign_of_ne h _ es
  · exact find_assign_of_ne h _ es

end Entries

namespace Document

def printText : List UInt8 → List UInt8
  | [] => [0]
  | b :: text => 1 :: b :: printText text

mutual

def print : Document → List UInt8
  | .null => [2]
  | .scalar text => 3 :: printText text
  | .sequence items => 4 :: printItems items
  | .map entries => 5 :: printEntries entries

def printItems : List Document → List UInt8
  | [] => [0]
  | n :: items => 1 :: (print n ++ printItems items)

def printEntries : List (Document × Document) → List UInt8
  | [] => [0]
  | (k, v) :: entries => 1 :: (print k ++ (print v ++ printEntries entries))

end

def parseText : List UInt8 → Option (List UInt8 × List UInt8)
  | 0 :: s => some ([], s)
  | 1 :: b :: s => (parseText s).map fun r => (b :: r.1, r.2)
  | _ => none

mutual

def parse : Nat → List UInt8 → Option (Document × List UInt8)
  | 0, _ => none
  | _ + 1, [] => none
  | fuel + 1, tag :: s =>
    if tag = 2 then some (.null, s)
    else if tag = 3 then (parseText s).map fun r => (.scalar r.1, r.2)
    else if tag = 4 then (parseItems fuel s).map fun r => (.sequence r.1, r.2)
    else if tag = 5 then (parseEntries fuel s).map fun r => (.map r.1, r.2)
    else none

def parseItems : Nat → List UInt8 → Option (List Document × List UInt8)
  | 0, _ => none
  | _ + 1, [] => none
  | fuel + 1, mark :: s =>
    if mark = 0 then some ([], s)
    else
      (parse fuel s).bind fun n =>
        (parseItems fuel n.2).map fun r => (n.1 :: r.1, r.2)

def parseEntries : Nat → List UInt8 → Option (List (Document × Document) × List UInt8)
  | 0, _ => none
  | _ + 1, [] => none
  | fuel + 1, mark :: s =>
    if mark = 0 then some ([], s)
    else
      (parse fuel s).bind fun k =>
        (parse fuel k.2).bind fun v =>
          (parseEntries fuel v.2).map fun r => ((k.1, v.1) :: r.1, r.2)

end

lemma parseText_printText (text rest : List UInt8) :
    parseText (printText text ++ rest) = some (text, rest) := by
  induction text with
  | nil => rfl
  | cons b text ih => simp [printText, parseText, ih]

mutual

/-- A printed tree is read back, whatever follows it. -/
theorem parse_print : ∀ (n : Document) (fuel : Nat) (rest : List UInt8), (print n).length ≤ fuel →
    parse fuel (print n ++ rest) = some (n, rest)
  | n, 0, rest, h => by
      cases n <;> simp [print] at h
  | .null, fuel + 1, rest, _ => by simp [print, parse]
  | .scalar text, fuel + 1, rest, _ => by simp [print, parse, parseText_printText]
  | .sequence items, fuel + 1, rest, h => by
      have hitems : (printItems items).length ≤ fuel := by simpa [print] using h
      simp [print, parse, parseItems_printItems items fuel rest hitems]
  | .map entries, fuel + 1, rest, h => by
      have hentries : (printEntries entries).length ≤ fuel := by simpa [print] using h
      simp [print, parse, parseEntries_printEntries entries fuel rest hentries]

lemma parseItems_printItems : ∀ (items : List Document) (fuel : Nat) (rest : List UInt8),
    (printItems items).length ≤ fuel →
    parseItems fuel (printItems items ++ rest) = some (items, rest)
  | items, 0, rest, h => by
      cases items <;> simp [printItems] at h
  | [], fuel + 1, rest, _ => by simp [printItems, parseItems]
  | n :: items, fuel + 1, rest, h => by
      simp only [printItems, length_cons, length_append] at h
      have hn := parse_print n fuel (printItems items ++ rest) (by omega)
      have hitems := parseItems_printItems items fuel rest (by omega)
      simp [printItems, parseItems, append_assoc, hn, hitems]

lemma parseEntries_printEntries : ∀ (entries : List (Document × Document)) (fuel : Nat)
    (rest : List UInt8), (printEntries entries).length ≤ fuel →
    parseEntries fuel (printEntries entries ++ rest) = some (entries, rest)
  | entries, 0, rest, h => by
      cases entries <;> simp [printEntries] at h
  | [], fuel + 1, rest, _ => by simp [printEntries, parseEntries]
  | (k, v) :: entries, fuel + 1, rest, h => by
      simp only [printEntries, length_cons, length_append] at h
      have hk := parse_print k fuel (print v ++ (printEntries entries ++ rest)) (by omega)
      have hv := parse_print v fuel (printEntries entries ++ rest) (by omega)
      have hentries := parseEntries_printEntries entries fuel rest (by omega)
      simp [printEntries, parseEntries, append_assoc, hk, hv, hentries]

end

/-- Load a whole text.  The empty one is the null node. -/
def load (text : List UInt8) : Option Document :=
  if text = [] then some .null else (parse text.length text).map Prod.fst

/-- Loading a printed tree gives it back. -/
theorem load_print (n : Document) : load n.print = some n := by
  have hne : n.print ≠ [] := by cases n <;> simp [print]
  have hparse := parse_print n n.print.length [] (Nat.le_refl _)
  rw [append_nil] at hparse
  simp [load, hne, hparse]

end Document

end DocumentTree
end Foundation
