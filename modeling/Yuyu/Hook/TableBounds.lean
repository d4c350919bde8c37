import Yuyu.Hook.FreshContext
import Yuyu.IOManager.ContextTable

/-!
# Accesses to the descriptor tables

`FdManager` and `IOManager` index their vectors with the descriptor that the application passes.
Their guards compare it with the size as an `int`, and only `FdManager::get` turns -1 away.
-/

namespace Yuyu.Hook

open Foundation Function
open IOManager (TableState TableOp tableSystem)

/-- The sections under the read lock and the write lock; `get` with `auto_create` has both. -/
inductive FdCall where
  | get (fd : Int)
  | create (fd : Int) (ctx : FdCtx)
  | del (fd : Int)

def FdCall.fd : FdCall → Int
  | .get fd | .create fd _ | .del fd => fd

/-- The sections of any threads on a new `FdManager`; `none` outside the vector. -/
def fdSystem : TransitionSystem FdManager FdCall where
  init m := m = .initial
  step m
    | .get fd => (m.get fd).map fun _ => m
    | .create fd ctx => m.create fd ctx
    | .del fd => m.del fd

/-- The size asked for is an `int`. -/
def FdCall.Small (_ : FdManager) (c : FdCall) : Prop := 3 * c.fd < 2 ^ 32
deriving Decidable

namespace FdManager

variable {m : FdManager}

lemma get_ne_none_iff (hpos : 0 < m.size) (hsmall : m.size < 2 ^ 31) (fd : Int) :
    m.get fd ≠ none ↔ -1 ≤ fd := by
  rw [get, toInt32_of_lt hsmall]
  split
  · simp
    omega
  split
  · simp
    omega
  rw [data]
  simp
  omega

lemma create_ne_none_iff (hpos : 2 ≤ m.size) (hsmall : m.size < 2 ^ 31) (fd : Int) (ctx : FdCtx) :
    m.create fd ctx ≠ none ↔ 0 ≤ fd := by
  rw [create, toInt32_of_lt hsmall]
  rw [ne_eq, ite_eq_right_iff]
  simp only [reduceCtorEq, imp_false]
  split
  · simp only [resize]
    omega
  · omega

lemma del_ne_none_iff (hpos : 0 < m.size) (hsmall : m.size < 2 ^ 31) (fd : Int) :
    m.del fd ≠ none ↔ 0 ≤ fd := by
  rw [del, toInt32_of_lt hsmall]
  split
  · simp
    omega
  simp
  omega

end FdManager

lemma size_of_reachable {m : FdManager} (h : fdSystem.ReachableWith FdCall.Small m) :
    2 ≤ m.size ∧ m.size < 2 ^ 31 := by
  refine TransitionSystem.ReachableWith.invariant (I := fun m => 2 ≤ m.size ∧ m.size < 2 ^ 31)
    ?_ ?_ h
  · rintro m rfl
    decide
  rintro m c m' ⟨hle, hlt⟩ hsmall hstep
  cases c with
  | get fd =>
    obtain ⟨-, -, rfl⟩ := Option.map_eq_some_iff.mp hstep
    exact ⟨hle, hlt⟩
  | create fd ctx =>
    refine ⟨?_, FdManager.size_create hstep hlt hsmall⟩
    obtain ⟨base, rfl | rfl, hnonneg, hin, rfl⟩ := FdManager.create_eq_some hstep
    · exact hle
    · simp only [FdManager.resize] at hin ⊢
      omega
  | del fd =>
    rw [FdManager.size_del hstep]
    exact ⟨hle, hlt⟩

/-- The size asked for is an `int`. -/
def AsksSmall (s : TableState) : TableOp → Prop
  | .grow t => ∀ call ∈ (s.pc t).growing, call.newSize < 2 ^ 31
  | _ => True

instance (s : TableState) (op : TableOp) : Decidable (AsksSmall s op) := by
  induction op using TableOp.casesOn <;> dsimp only [AsksSmall] <;> infer_instance

lemma find_eq_error_iff {s : IOManager.State} (hpos : 0 < s.size) (hsmall : s.size < 2 ^ 31)
    (call : IOManager.Call) : call.find s = .error .outOfBounds ↔ call.fd < 0 := by
  have hmap {α β : Type} (g : α → β) (x : Except IOManager.Fault α) :
      x.map g = .error .outOfBounds ↔ x = .error .outOfBounds := by
    cases x <;> simp [Except.map]
  have hlookup (fd : Int) : s.lookup fd = .error .outOfBounds ↔ fd < 0 := by
    rw [IOManager.State.lookup, toInt32_of_lt hsmall, IOManager.State.contextAt]
    split
    · simp
      omega
    · rw [hmap]
      split <;> simp <;> omega
  cases call with
  | addEvent fd event cb caller =>
    rw [IOManager.Call.find, toInt32_of_lt hsmall, IOManager.State.contextAt, IOManager.Call.fd]
    split
    · rw [hmap]
      split <;> simp <;> omega
    · simp
      omega
  | delEvent fd | cancelEvent fd | cancelAll fd => exact (hmap ..).trans (hlookup fd)

/-- The size is an `int`, and a thread about to resize needs more. -/
structure Roomy (s : TableState) : Prop where
  le_size : 32 ≤ s.books.size
  size_lt : s.books.size < 2 ^ 31
  growing : ∀ t call, s.pc t = .grow call → 32 ≤ call.fd

lemma Roomy.move {s : TableState} (h : Roomy s) (t : Nat) {pc : IOManager.Pc}
    (hpc : ∀ call, pc = .grow call → 32 ≤ call.fd) :
    Roomy { s with pc := update s.pc t pc } := by
  refine ⟨h.le_size, h.size_lt, fun t' call hcall => ?_⟩
  by_cases ht : t' = t
  · subst ht
    exact hpc call ((update_self ..).symm.trans hcall)
  · exact h.growing t' call ((update_of_ne ht ..).symm.trans hcall)

lemma fd_of_find_grow {s : IOManager.State} {call call' : IOManager.Call}
    (h : call.find s = .ok (.grow call')) : call' = call ∧ toInt32 s.size ≤ call.fd := by
  have hother {fd : Int} (h : (s.lookup fd).map
      (fun found => found.elim IOManager.Pc.idle (.locked call)) = .ok (.grow call')) : False := by
    cases hfound : s.lookup fd with
    | error f => simp [hfound, Except.map] at h
    | ok found => cases found <;> simp [hfound, Except.map] at h
  cases call with
  | addEvent fd event cb caller =>
    simp only [IOManager.Call.find] at h
    split at h
    · cases hat : s.contextAt fd <;> simp [hat, Except.map] at h
    rename_i hfd
    cases h
    exact ⟨rfl, not_lt.mp hfd⟩
  | delEvent | cancelEvent | cancelAll => exact (hother h).elim

lemma Roomy.step {s s' : TableState} {op : TableOp} (h : Roomy s) (hok : AsksSmall s op)
    (hstep : op.step s = some s') : Roomy s' := by
  have hbooks {books : IOManager.State} (hsize : books.size = s.books.size) :
      Roomy { s with books := books } :=
    ⟨hsize ▸ h.le_size, hsize ▸ h.size_lt, h.growing⟩
  cases TableOp.step_cases hstep with
  | @find t call pc hfind =>
    refine h.move t ?_
    rintro call' rfl
    obtain ⟨rfl, hfd⟩ := fd_of_find_grow hfind
    rw [toInt32_of_lt h.size_lt] at hfd
    have hle := h.le_size
    omega
  | @grow t call p hpc hat =>
    have hnew := hok call (by rw [hpc]; rfl)
    have hfd := h.growing t call hpc
    have hroomy : Roomy { s with books := s.books.contextResize call.newSize } :=
      ⟨show 32 ≤ 3 * call.fd.toNat / 2 by omega, hnew, h.growing⟩
    exact hroomy.move t (by simp)
  | @locked t fails call p books hpc hlocked =>
    exact (hbooks (IOManager.Call.locked_touches hlocked).size_eq).move t (by simp)
  | dispatch hdispatch =>
    rcases IOManager.dispatch_touches hdispatch with rfl | ⟨p, e, he, ht⟩
    · exact h
    · exact hbooks ht.size_eq

lemma roomy_of_reachable {s : TableState} (h : tableSystem.ReachableWith AsksSmall s) :
    Roomy s := by
  refine TransitionSystem.ReachableWith.invariant ?_ (fun s op s' => Roomy.step) h
  rintro s ⟨⟨tickleFd, hbooks⟩, hidle⟩
  refine ⟨?_, ?_, fun t call hcall => ?_⟩
  · rw [hbooks]
    exact le_refl _
  · rw [hbooks]
    exact (by decide : 32 < 2 ^ 31)
  · rw [hidle] at hcall
    contradiction

/-- As long as every size asked for is an `int`, the sections are in bounds exactly for the
descriptors from 0 on and, in `FdManager::get`, for -1. -/
theorem tables_in_bounds_iff {m : FdManager} (hm : fdSystem.ReachableWith FdCall.Small m)
    {s : TableState} (hs : tableSystem.ReachableWith AsksSmall s) :
    (∀ fd, m.get fd ≠ none ↔ -1 ≤ fd) ∧ (∀ fd ctx, m.create fd ctx ≠ none ↔ 0 ≤ fd) ∧
      (∀ fd, m.del fd ≠ none ↔ 0 ≤ fd) ∧
      (∀ call : IOManager.Call, call.find s.books ≠ .error .outOfBounds ↔ 0 ≤ call.fd) ∧
      ∀ t call, s.pc t = .grow call → ∃ r, call.grow s.books = .ok r := by
  obtain ⟨hle, hlt⟩ := size_of_reachable hm
  have hroomy := roomy_of_reachable hs
  refine ⟨FdManager.get_ne_none_iff (by omega) hlt, FdManager.create_ne_none_iff hle hlt,
    FdManager.del_ne_none_iff (by omega) hlt, fun call => ?_, fun t call hpc => ?_⟩
  · have hpos : 0 < s.books.size := lt_of_lt_of_le (by decide) hroomy.le_size
    rw [ne_eq, find_eq_error_iff hpos hroomy.size_lt, not_lt]
  have hfd := hroomy.growing t call hpc
  have hin : 0 ≤ call.fd ∧ call.fd < (3 * call.fd.toNat / 2 : Nat) := by omega
  have hat : (s.books.contextResize call.newSize).contextAt call.fd = .ok _ := if_pos hin
  rw [IOManager.Call.grow, if_neg (by omega)]
  dsimp only
  exact ⟨_, by rw [hat]; rfl⟩

def registerRead (fd : Int) : List TableOp :=
  [.find 0 (.addEvent fd .read none ⟨some 0, 3, true⟩), .grow 0, .locked 0 false]

theorem tables_in_bounds_forty :
    ∃ m s, fdSystem.runWith FdCall.Small .initial [.create 100 {}] = some m ∧ m.get 100 ≠ none ∧
      tableSystem.runWith AsksSmall IOManager.emptyTable (registerRead 40) = some s ∧
      IOManager.Call.find s.books (.cancelAll 40) ≠ .error .outOfBounds := by
  have hm : fdSystem.runWith FdCall.Small .initial [.create 100 {}] = some _ := rfl
  have hs : tableSystem.runWith AsksSmall IOManager.emptyTable (registerRead 40) = some _ := rfl
  have hreach := tables_in_bounds_iff
    (TransitionSystem.reachableWith_of_runWith (.init rfl) hm)
    (TransitionSystem.reachableWith_of_runWith (.init ⟨⟨9, rfl⟩, fun _ => rfl⟩) hs)
  exact ⟨_, _, hm, (hreach.1 100).mpr (by decide), hs,
    (hreach.2.2.2.1 (.cancelAll 40)).mpr (by decide)⟩

/-- On new tables `get(-2)`, `del(-1)` and `cancelAll(-1)` leave their vectors; so does
`addEvent(0)` after a size that is no `int`. -/
theorem tables_left :
    FdManager.initial.get (-2) = none ∧ FdManager.initial.del (-1) = none ∧
      IOManager.Call.find (.initial 9) (.cancelAll (-1)) = .error .outOfBounds ∧
      ∃ s s', tableSystem.run IOManager.emptyTable (registerRead 2147483647) = some s ∧
        tableSystem.run s [.find 0 (.addEvent 0 .read none ⟨some 0, 3, true⟩)] = some s' ∧
        IOManager.Call.grow s'.books (.addEvent 0 .read none ⟨some 0, 3, true⟩) =
          .error .outOfBounds :=
  ⟨rfl, rfl, rfl, _, _, rfl, rfl, rfl⟩

end Yuyu.Hook
