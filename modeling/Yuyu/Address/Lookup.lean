import Yuyu.Http.Request
import Mathlib.Data.List.Basic

/-!
# Node and service of a host string

`Address::Lookup` takes a host string apart for `getaddrinfo`.  `service` is set to the first
colon and keeps that value when a second one is found.
-/

namespace Yuyu.Address

open List
open Http (Bytes ascii cStr)

/-- `memchr` from a position to the end of the host string. -/
def memchr (host : Bytes) (c : UInt8) (pos : Nat) : Option Nat :=
  if c ∈ host.drop pos then some (pos + (host.drop pos).idxOf c) else none

/-- The part for a bracket in front: `node` and the position of `service`. -/
def lookupBracket (host : Bytes) : Bytes × Option Nat :=
  if host.head? = some 91 then
    match memchr host 93 1 with
    | some endipv6 =>
      ((host.drop 1).take (endipv6 - 1),
        if host.getD (endipv6 + 1) 0 = 58 then some (endipv6 + 2) else none)
    | none => ([], none)
  else ([], none)

def lookupColon (host : Bytes) : Bytes × Option Nat :=
  match memchr host 58 0 with
  | none => ([], none)
  | some service =>
    match memchr host 58 (service + 1) with
    | none => (host.take service, some (service + 1))
    | some _ => ([], some service)

def lookupArgs (host : Bytes) : Bytes × Option Bytes :=
  let r := lookupBracket host
  let r := if r.1 = [] then lookupColon host else r
  (cStr (if r.1 = [] then host else r.1), r.2.map fun pos => cStr (host.drop pos))

/-- A name or an IPv4 literal, and an IPv6 literal without and with brackets. -/
inductive Host where
  | name (n : Bytes)
  | bare (l : Bytes)
  | bracketed (l : Bytes)

namespace Host

def node : Host → Bytes
  | .name n => n
  | .bare l | .bracketed l => l

/-- Names have no colon and do not begin with a bracket; IPv6 literals have at least two colons and
no brackets. -/
def Valid : Host → Prop
  | .name n => n ≠ [] ∧ 58 ∉ n ∧ n.head? ≠ some 91 ∧ 0 ∉ n
  | .bare l | .bracketed l => 2 ≤ l.count 58 ∧ 91 ∉ l ∧ 93 ∉ l ∧ 0 ∉ l

/-- A service is not empty and has no colons and brackets; there is none behind a literal without
brackets. -/
def Takes : Host → Option Bytes → Prop
  | _, none => True
  | .bare _, some _ => False
  | _, some s => s ≠ [] ∧ 58 ∉ s ∧ 91 ∉ s ∧ 93 ∉ s ∧ 0 ∉ s

def text (h : Host) (service : Option Bytes) : Bytes :=
  let host := match h with
    | .name n => n
    | .bare l => l
    | .bracketed l => [91] ++ l ++ [93]
  host ++ service.elim [] (58 :: ·)

end Host

lemma memchr_of_notMem {host : Bytes} {c : UInt8} {pos : Nat} (h : c ∉ host.drop pos) :
    memchr host c pos = none := if_neg h

lemma memchr_append (f : Bytes) {x : Bytes} {c : UInt8} (hx : c ∉ x) (rest : Bytes) :
    memchr (f ++ x ++ c :: rest) c f.length = some (f.length + x.length) := by
  rw [memchr, append_assoc, drop_left, if_pos (by simp),
    idxOf_append_of_notMem hx, idxOf_cons_self, Nat.add_zero]

section Cases

variable {n l s : Bytes}

lemma lookupArgs_eq {host : Bytes} (h : host.head? ≠ some 91) :
    lookupArgs host =
      (cStr (if (lookupColon host).1 = [] then host else (lookupColon host).1),
        (lookupColon host).2.map fun pos => cStr (host.drop pos)) := by
  have hbracket : lookupBracket host = ([], none) := if_neg h
  rw [lookupArgs, hbracket]
  rfl

lemma lookupArgs_name (hcolon : 58 ∉ n) (hhead : n.head? ≠ some 91) (hnul : 0 ∉ n) :
    lookupArgs n = (n, none) := by
  have hfind : memchr n 58 0 = none := memchr_of_notMem hcolon
  rw [lookupArgs_eq hhead, lookupColon, hfind]
  simp [Http.cStr_of_notMem hnul]

lemma lookupArgs_name_service (hne : n ≠ []) (hcolon : 58 ∉ n) (hhead : n.head? ≠ some 91)
    (hnul : 0 ∉ n) (hs : 58 ∉ s) (hsnul : 0 ∉ s) : lookupArgs (n ++ 58 :: s) = (n, some s) := by
  have hfirst : memchr (n ++ 58 :: s) 58 0 = some n.length := by
    simpa using memchr_append [] hcolon s
  have hdrop : (n ++ 58 :: s).drop (n.length + 1) = s := by simp
  have hsecond : memchr (n ++ 58 :: s) 58 (n.length + 1) = none :=
    memchr_of_notMem (hdrop.symm ▸ hs)
  have hhead' : (n ++ 58 :: s).head? ≠ some 91 := by
    rwa [List.head?_append_of_ne_nil _ hne]
  have hparts : lookupColon (n ++ 58 :: s) = (n, some (n.length + 1)) := by
    simp [lookupColon, hfirst, hsecond]
  simp [lookupArgs_eq hhead', hparts, hne, hdrop, Http.cStr_of_notMem hnul,
    Http.cStr_of_notMem hsnul]

lemma lookupArgs_bare (hcolons : 2 ≤ l.count 58) (hbracket : 91 ∉ l) (hnul : 0 ∉ l) :
    ∃ x y, l = x ++ 58 :: y ∧ lookupArgs l = (l, some (58 :: y)) := by
  obtain ⟨x, y, rfl, hx⟩ := eq_append_cons_of_mem (count_pos_iff.mp (by omega : 0 < l.count 58))
  have hfirst : memchr (x ++ 58 :: y) 58 0 = some x.length := by
    simpa using memchr_append [] hx y
  have hmore : 58 ∈ y := by
    rw [count_append, count_eq_zero_of_not_mem hx, count_cons_self] at hcolons
    exact count_pos_iff.mp (by omega)
  obtain ⟨k, hsecond⟩ : ∃ k, memchr (x ++ 58 :: y) 58 (x.length + 1) = some k :=
    ⟨_, if_pos (by simpa using hmore)⟩
  have hparts : lookupColon (x ++ 58 :: y) = ([], some x.length) := by
    simp [lookupColon, hfirst, hsecond]
  have hhead : (x ++ 58 :: y).head? ≠ some 91 := fun heq => hbracket (mem_of_head? heq)
  have hynul : 0 ∉ 58 :: y := fun hmem => hnul (mem_append_right x hmem)
  refine ⟨x, y, rfl, ?_⟩
  simp [lookupArgs_eq hhead, hparts, Http.cStr_of_notMem hnul, Http.cStr_of_notMem hynul]

lemma lookupArgs_bracketed (hne : l ≠ []) (hbracket : 93 ∉ l) (hnul : 0 ∉ l) (rest : Bytes) :
    lookupArgs ([91] ++ l ++ 93 :: rest) =
      (l, if rest.getD 0 0 = 58 then some (cStr (rest.drop 1)) else none) := by
  have hfind : memchr ([91] ++ l ++ 93 :: rest) 93 1 = some (1 + l.length) :=
    memchr_append [91] hbracket rest
  have hdrop : ∀ k, ([91] ++ l ++ 93 :: rest).drop (1 + l.length + 1 + k) = rest.drop k := by
    intro k
    rw [← drop_drop]
    simp [Nat.add_comm 1]
  have hget : ([91] ++ l ++ 93 :: rest).getD (1 + l.length + 1) 0 = rest.getD 0 0 := by
    have hzero := congrArg List.head? (hdrop 0)
    rw [Nat.add_zero, drop_zero, List.head?_drop] at hzero
    rw [getD_eq_getElem?_getD, hzero, getD_eq_getElem?_getD, List.head?_eq_getElem?]
  have hnode : (([91] ++ l ++ 93 :: rest).drop 1).take (1 + l.length - 1) = l := by
    simp
  have hparts : lookupBracket ([91] ++ l ++ 93 :: rest) =
      (l, if rest.getD 0 0 = 58 then some (1 + l.length + 2) else none) := by
    refine (if_pos rfl).trans ?_
    rw [hfind]
    dsimp only
    rw [hnode, hget]
  rw [lookupArgs, hparts]
  rw [if_neg hne, if_neg hne, Http.cStr_of_notMem hnul]
  split
  · rw [Option.map_some, hdrop 1]
  · rfl

end Cases

/-- For every host string, node and service are passed as written exactly if the host is not a
literal without brackets. -/
theorem lookup_split_iff {h : Host} (hh : h.Valid) {service : Option Bytes} (hs : h.Takes service) :
    lookupArgs (h.text service) = (h.node, service) ↔ ∀ l, h ≠ .bare l := by
  cases h with
  | name n =>
    obtain ⟨hne, hcolon, hhead, hnul⟩ := hh
    refine iff_of_true ?_ (by simp)
    cases service with
    | none => simpa [Host.text, Host.node] using lookupArgs_name hcolon hhead hnul
    | some s => exact lookupArgs_name_service hne hcolon hhead hnul hs.2.1 hs.2.2.2.2
  | bare l =>
    obtain ⟨hcolons, hopen, -, hnul⟩ := hh
    refine iff_of_false ?_ (by simp)
    cases service with
    | none =>
      obtain ⟨x, y, -, hargs⟩ := lookupArgs_bare hcolons hopen hnul
      simp [Host.text, hargs]
    | some s => exact hs.elim
  | bracketed l =>
    obtain ⟨hcolons, -, hclose, hnul⟩ := hh
    have hne : l ≠ [] := by
      rintro rfl
      simp at hcolons
    refine iff_of_true ?_ (by simp)
    cases service with
    | none => simpa [Host.text, Host.node] using lookupArgs_bracketed hne hclose hnul []
    | some s =>
      simpa [Host.text, Host.node, Http.cStr_of_notMem hs.2.2.2.2] using
        lookupArgs_bracketed hne hclose hnul (58 :: s)

theorem lookup_split_bracketed :
    lookupArgs (ascii "[::1]:80") = (ascii "::1", some (ascii "80")) := by
  have hvalid : (Host.bracketed (ascii "::1")).Valid := by
    unfold Host.Valid
    decide
  have htakes : (Host.bracketed (ascii "::1")).Takes (some (ascii "80")) := by
    unfold Host.Takes
    decide
  exact (lookup_split_iff hvalid htakes).mpr (by simp)

/-- The literal `::1` is passed as node and as service. -/
theorem lookup_passes_literal : lookupArgs (ascii "::1") = (ascii "::1", some (ascii "::1")) := by
  decide

end Yuyu.Address
