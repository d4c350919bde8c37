import Mathlib.Logic.Basic

/-!
# Labelled transition systems given by a partial step function

A system is a predicate on initial states with a partial step function.  Runs may be restricted to
steps that satisfy a side condition on the state before the step.
-/

namespace Foundation

universe u v

structure TransitionSystem (σ : Type u) (α : Type v) where
  init : σ → Prop
  step : σ → α → Option σ

namespace TransitionSystem

variable {σ : Type u} {α : Type v} (T : TransitionSystem σ α)

/-- States reached by runs all of whose steps satisfy `ok` in the state
before the step. -/
inductive ReachableWith (ok : σ → α → Prop) : σ → Prop
  | init {s : σ} : T.init s → ReachableWith ok s
  | step {s s' : σ} {a : α} :
      ReachableWith ok s → ok s a → T.step s a = some s' → ReachableWith ok s'

def Reachable (s : σ) : Prop := T.ReachableWith (fun _ _ => True) s

variable {T}

/-- A property of the initial states that every admissible step preserves holds in every state
reached. -/
theorem ReachableWith.invariant {ok : σ → α → Prop} {I : σ → Prop} (hinit : ∀ s, T.init s → I s)
    (hstep : ∀ s a s', I s → ok s a → T.step s a = some s' → I s')
    {s : σ} (h : T.ReachableWith ok s) : I s := by
  induction h with
  | init h₀ => exact hinit _ h₀
  | step _ hok hs ih => exact hstep _ _ _ ih hok hs

/-- A weaker side condition admits every state reached. -/
lemma ReachableWith.mono {ok ok' : σ → α → Prop} (hok : ∀ s a, ok s a → ok' s a) {s : σ}
    (h : T.ReachableWith ok s) : T.ReachableWith ok' s := by
  induction h with
  | init h₀ => exact .init h₀
  | step _ ha hs ih => exact .step ih (hok _ _ ha) hs

theorem Reachable.invariant {I : σ → Prop} (hinit : ∀ s, T.init s → I s)
    (hstep : ∀ s a s', I s → T.step s a = some s' → I s')
    {s : σ} (h : T.Reachable s) : I s :=
  ReachableWith.invariant hinit (fun s a s' hI _ hs => hstep s a s' hI hs) h

variable (T)

def startingAt (s : σ) : TransitionSystem σ α where
  init := (· = s)
  step := T.step

/-- Execute a list of actions, stopping at the first one that is not enabled or
violates the side condition. -/
def runWith (ok : σ → α → Prop) [∀ s a, Decidable (ok s a)] : σ → List α → Option σ
  | s, [] => some s
  | s, a :: as =>
    if ok s a then
      match T.step s a with
      | some s' => runWith ok s' as
      | none => none
    else none

def run : σ → List α → Option σ := T.runWith (fun _ _ => True)

variable {T}

/-- An executable run witnesses reachability. -/
theorem reachableWith_of_runWith {ok : σ → α → Prop} [∀ s a, Decidable (ok s a)]
    {s s' : σ} {as : List α} (hs : T.ReachableWith ok s)
    (hrun : T.runWith ok s as = some s') : T.ReachableWith ok s' := by
  induction as generalizing s with
  | nil =>
    simp only [runWith, Option.some.injEq] at hrun
    exact hrun ▸ hs
  | cons a as ih =>
    simp only [runWith] at hrun
    split at hrun
    · rename_i hok
      split at hrun
      · rename_i next hnext
        exact ih (.step hs hok hnext) hrun
      · contradiction
    · contradiction

/-- The same for a run that begins in an initial state. -/
lemma reachableWith_of_init {ok : σ → α → Prop} [∀ s a, Decidable (ok s a)] {s s' : σ}
    {as : List α} (hrun : T.runWith ok s as = some s') (hs : T.init s) : T.ReachableWith ok s' :=
  reachableWith_of_runWith (.init hs) hrun

lemma reachable_of_run {s s' : σ} {as : List α} (hs : T.init s)
    (hrun : T.run s as = some s') : T.Reachable s' := reachableWith_of_init hrun hs

end TransitionSystem
end Foundation
