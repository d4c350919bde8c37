import Yuyu.Scheduler.Exclusion
import Yuyu.Scheduler.Footprint
import Yuyu.Scheduler.TimerWakeup

/-!
# Contexts of fibers

`Scheduler::run` swaps in fibers of the queue, the `cb_fiber` that it resets for one callback after
another, and its idle fiber. A run state adds whether the callback of a fiber is empty, and whether
its context is the one that `MainFunc` saves when it ends.
-/

namespace Yuyu.Scheduler

open Foundation Timer State Function

variable {n : Nat} {γ : Type}

namespace FiberState

def Resumable (st : FiberState) : Prop := st = .init ∨ st = .hold ∨ st = .ready
deriving Decidable

/-- The states in which `Fiber::reset` may be called. -/
def Resettable (st : FiberState) : Prop := st = .init ∨ st = .term ∨ st = .except
deriving Decidable

/-- The states that `MainFunc` ends in. -/
def Ended (st : FiberState) : Prop := st = .term ∨ st = .except
deriving Decidable

end FiberState

structure RunState (n : Nat) (γ : Type) where
  base : State n γ
  /-- `m_cb` of the fiber is not empty. -/
  hasCb : Nat → Bool
  /-- The context of the fiber is the one saved at the end of `MainFunc`. -/
  ended : Nat → Bool
  /-- The same for the idle fiber of a worker. -/
  idleEnded : Fin n → Bool

namespace RunState

/-- Workers that have been started at the clock value `now`. -/
def initial (n : Nat) (γ : Type) (now : Nat) : RunState n γ where
  base := State.initial n γ now
  hasCb _ := false
  ended _ := false
  idleEnded _ := false

def setContext (s : RunState n γ) (f : Nat) (cb ended : Bool) : RunState n γ :=
  { s with
    hasCb := update s.hasCb f cb
    ended := update s.ended f ended }

def setIdleEnded (s : RunState n γ) (w : Fin n) (ended : Bool) : RunState n γ :=
  { s with idleEnded := update s.idleEnded w ended }

/-- What an action does to callbacks and contexts.  `MainFunc` empties the
callback when it returns, not when it throws. -/
def contexts (s : RunState n γ) : Action n γ → RunState n γ
  | .newFiber | .newCbFiber .. => s.setContext s.base.nextFiber true false
  | .resetCbFiber _ _ _ f => s.setContext f true false
  | .yield _ f _ st => s.setContext f (s.hasCb f && st ≠ .term) (decide st.Ended)
  | .fixupEnded _ f isCb => if isCb then s.setContext f false false else s
  | .checkQueue w _ => if s.base.schedulerStopping then s.setIdleEnded w true else s
  | _ => s

def canDo (s : RunState n γ) : Action n γ → Bool
  | .yield _ f _ st => s.hasCb f || decide (st = .except)
  | _ => true

end RunState

/-- The actions of workers, and an idle function that yields, returns or throws. -/
inductive Deed (n : Nat) (γ : Type) where
  | act (a : Action n γ)
  /-- The idle function leaves its fiber in the given state. -/
  | idleLeaves (w : Fin n) (st : FiberState)
deriving DecidableEq

namespace Deed

def InsideIdle (p : Pc γ) : Prop := p.inIdle = true ∧ p ≠ .leaveIdle

instance [DecidableEq γ] (p : Pc γ) : Decidable (InsideIdle p) :=
  inferInstanceAs (Decidable (_ ∧ _))

def Enabled (s : RunState n γ) : Deed n γ → Prop
  | .act a => a.Enabled s.base ∧ s.canDo a = true
  | .idleLeaves w st => InsideIdle (s.base.pc w) ∧ st ≠ .exec ∧ st ≠ .init

instance [DecidableEq γ] (s : RunState n γ) (d : Deed n γ) : Decidable (d.Enabled s) :=
  match d with
  | .act _ => inferInstanceAs (Decidable (_ ∧ _))
  | .idleLeaves _ _ => inferInstanceAs (Decidable (_ ∧ _))

def next (s : RunState n γ) : Deed n γ → RunState n γ
  | .act a => { s.contexts a with base := a.next s.base }
  | .idleLeaves w st =>
    { s.setIdleEnded w (decide st.Ended) with
      base := (s.base.setIdleFiber w st).goto w .leaveIdle }

end Deed

def runSystem (n : Nat) (γ : Type) [DecidableEq γ] :
    TransitionSystem (RunState n γ) (Deed n γ) where
  init s := ∃ now, s = RunState.initial n γ now
  step s d := if d.Enabled s then some (d.next s) else none

lemma runSystem_step [DecidableEq γ] {s s' : RunState n γ} {d : Deed n γ}
    (h : (runSystem n γ).step s d = some s') : d.Enabled s ∧ s' = d.next s := by
  simp only [runSystem] at h
  split at h
  · exact ⟨‹_›, (Option.some.inj h).symm⟩
  · contradiction

/-- The switches and resets that `run` is about to make are in order, and no worker is behind the
end of a `MainFunc`. -/
structure RunState.Legal (s : RunState n γ) : Prop where
  swapIn : ∀ w f isCb, s.base.pc w = .swapIn f isCb → (s.base.fiber f).Resumable
  swapInIdle : ∀ w, s.base.pc w = .dispatch none → s.base.idleFiber w ≠ .term →
    (s.base.idleFiber w).Resumable
  reset : ∀ w cb thread f, s.base.pc w = .dispatch (some ⟨.cb cb, thread⟩) →
    s.base.cbFiber w = some f → (s.base.fiber f).Resettable
  unreachable : ∀ w f isCb, s.base.pc w = .running f isCb → s.ended f = false
  unreachableIdle : ∀ w, s.base.pc w = .idleTop → s.idleEnded w = false

/-- A worker that takes a fiber from the queue takes none that another worker has in
one of its windows or keeps as its `cb_fiber`. -/
def Apart (s : RunState n γ) : Deed n γ → Prop
  | .act (.scan w) => ∀ f ∈ (s.base.scanOf w).ft.bind Task.fiber?, ∀ v, v ≠ w →
      (s.base.pc v).window ≠ some f ∧ s.base.cbFiber v ≠ some f
  | _ => True

instance (s : RunState n γ) (d : Deed n γ) : Decidable (Apart s d) :=
  match d with
  | .act a => by
      induction a using Action.casesOn <;> dsimp only [Apart] <;> infer_instance
  | .idleLeaves _ _ => inferInstanceAs (Decidable True)

namespace RunState

variable {s : RunState n γ} {a : Action n γ}

lemma contexts_of_not_written {f : Nat} (h : a.written s.base ≠ some f) :
    (s.contexts a).hasCb f = s.hasCb f ∧ (s.contexts a).ended f = s.ended f := by
  have hne : ∀ {g : Nat}, a.written s.base = some g → f ≠ g := by
    rintro g hg rfl
    exact h hg
  cases a with
  | newFiber | newCbFiber | resetCbFiber | yield =>
    exact ⟨update_of_ne (hne rfl) _ _, update_of_ne (hne rfl) _ _⟩
  | fixupEnded w g isCb =>
    cases isCb with
    | true => exact ⟨update_of_ne (hne rfl) _ _, update_of_ne (hne rfl) _ _⟩
    | false => exact ⟨rfl, rfl⟩
  | checkQueue =>
    simp only [contexts]
    split <;> exact ⟨rfl, rfl⟩
  | _ => exact ⟨rfl, rfl⟩

lemma contexts_idleEnded {v : Fin n} (h : a.worker ≠ some v) :
    (s.contexts a).idleEnded v = s.idleEnded v := by
  cases a with
  | fixupEnded w g isCb => cases isCb <;> rfl
  | checkQueue w =>
    simp only [contexts]
    split
    · exact update_of_ne (fun heq => h (congrArg some heq.symm)) _ _
    · rfl
  | _ => rfl

end RunState

end Yuyu.Scheduler
