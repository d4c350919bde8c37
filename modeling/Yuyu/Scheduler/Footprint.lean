import Yuyu.Scheduler.Steps

/-!
# What a step leaves alone

An action moves one worker at most and writes the state of one fiber at most.  What the worker has
in hand afterwards comes from the queue, from its own hand or from its `cb_fiber`.
-/

namespace Yuyu.Scheduler

open Foundation Timer State Function

variable {n : Nat} {γ : Type}

namespace Action

def worker : Action n γ → Option (Fin n)
  | .scan w | .tickleMe w _ | .tickleWrite w _ | .resume w _ _ | .skip w _ _
  | .newCbFiber w _ _ | .resetCbFiber w _ _ _ | .enterIdle w | .exit w | .swapIn w _ _
  | .yield w _ _ _ | .swapOut w _ _ | .returned w _ _ | .fixupReady w _ _ | .requeue w _ _
  | .fixupEnded w _ _ | .fixupOther w _ _ | .setHold w _ _ | .getNextTimer w
  | .checkEvents w _ | .checkQueue w _ | .wake w _ | .listExpiredCb w _ _
  | .scheduleExpired w _ | .swapOutIdle w | .leaveIdle w => some w
  | _ => none

def written (s : State n γ) : Action n γ → Option Nat
  | .newFiber | .newCbFiber .. => some s.nextFiber
  | .resetCbFiber _ _ _ f | .swapIn _ f _ | .yield _ f _ _ | .fixupEnded _ f _
  | .setHold _ f _ => some f
  | _ => none

variable {s : State n γ} {a : Action n γ}

/-- The workers and fibers that an action does not name are unchanged. -/
theorem next_pc {v : Fin n} (h : a.worker ≠ some v) : (a.next s).pc v = s.pc v := by
  cases a <;> first
    | rfl
    | exact update_of_ne (fun heq => h (congrArg some heq.symm)) _ _

theorem next_cbFiber {v : Fin n} (h : a.worker ≠ some v) : (a.next s).cbFiber v = s.cbFiber v := by
  cases a <;> first
    | rfl
    | exact update_of_ne (fun heq => h (congrArg some heq.symm)) _ _

theorem next_fiber {f : Nat} (h : a.written s ≠ some f) : (a.next s).fiber f = s.fiber f := by
  cases a <;> first
    | rfl
    | exact update_of_ne (fun heq => h (congrArg some heq.symm)) _ _

theorem next_idleFiber {v : Fin n} (h : a.worker ≠ some v) :
    (a.next s).idleFiber v = s.idleFiber v := by
  cases a <;> first
    | rfl
    | exact update_of_ne (fun heq => h (congrArg some heq.symm)) _ _

/-- Where the fibers that it names come from. -/
theorem written_source (ha : a.Enabled s) {f : Nat} (h : a.written s = some f) :
    f = s.nextFiber ∨ ∃ w, a.worker = some w ∧ ((s.pc w).held = some f ∨ s.cbFiber w = some f) := by
  cases a with
  | newFiber | newCbFiber w cb thread => exact Or.inl (Option.some.inj h).symm
  | resetCbFiber w cb thread g => exact Or.inr ⟨w, rfl, Or.inr (ha.2.1.trans h)⟩
  | swapIn w g isCb | yield w g isCb st | fixupEnded w g isCb =>
    refine Or.inr ⟨w, rfl, Or.inl ?_⟩
    rw [ha.1]
    exact h
  | setHold w g isCb =>
    refine Or.inr ⟨w, rfl, Or.inl ?_⟩
    rw [show s.pc w = _ from ha]
    exact h
  | _ => cases h

theorem held_source (ha : a.Enabled s) {w : Fin n} {f : Nat} (h : ((a.next s).pc w).held = some f) :
    (s.pc w).held = some f ∨
      (a = .scan w ∧ (s.scanOf w).ft.bind Task.fiber? = some f) ∨
      (a.next s).cbFiber w = some f := by
  by_cases hw : a.worker = some w
  · have held {p : Pc γ} (hpc : s.pc w = p) : (s.pc w).held = p.held := by rw [hpc]
    have moved {p : Pc γ} (hp : (update s.pc w p w).held = some f) : p.held = some f := by
      rwa [update_self] at hp
    cases a with
    | scan v =>
      cases hw
      have hft := moved h
      rw [held_ite] at hft
      exact Or.inr (Or.inl ⟨rfl, by simpa [Pc.held] using hft⟩)
    | tickleMe v ft =>
      cases hw
      have hft := moved h
      rw [held_ite] at hft
      exact Or.inl ((held ha).trans (by simpa [Pc.held] using hft))
    | tickleWrite v ft | swapOut v g isCb | returned v g isCb =>
      cases hw
      have hkeeps := moved h
      exact Or.inl ((held ha).trans hkeeps)
    | resume v g thread | swapIn v g isCb | yield v g isCb st | fixupReady v g isCb
    | fixupOther v g isCb =>
      cases hw
      have hkeeps := moved h
      exact Or.inl ((held ha.1).trans hkeeps)
    | newCbFiber v cb thread =>
      cases hw
      exact Or.inr (Or.inr ((update_self ..).trans (moved h)))
    | resetCbFiber v cb thread g =>
      cases hw
      exact Or.inr (Or.inr (ha.2.1.trans (moved h)))
    | getNextTimer v | checkEvents v clock | checkQueue v clock =>
      cases hw
      have hnone := moved h
      rw [held_ite, held_poll] at hnone
      exact absurd (hnone.symm.trans (ite_self none)) (by simp)
    | skip v | enterIdle v | exit v | requeue v | fixupEnded v | setHold v | wake v
    | listExpiredCb v | scheduleExpired v | swapOutIdle v | leaveIdle v =>
      cases hw
      exact absurd (moved h) (by simp [Pc.held])
    | _ => cases hw
  · rw [next_pc hw] at h
    exact Or.inl h

theorem cbFiber_source {v : Fin n} {f : Nat} (h : (a.next s).cbFiber v = some f) :
    s.cbFiber v = some f ∨ f = s.nextFiber ∧ ∃ cb thread, a = .newCbFiber v cb thread := by
  by_cases hv : a.worker = some v
  · cases a with
    | newCbFiber w cb thread =>
      cases hv
      have hnew : (update s.cbFiber v (some s.nextFiber)) v = some f := h
      rw [update_self] at hnew
      exact Or.inr ⟨(Option.some.inj hnew).symm, cb, thread, rfl⟩
    | requeue w g isCb | setHold w g isCb =>
      cases hv
      have hset : (update s.cbFiber v (if isCb then none else s.cbFiber v)) v = some f := h
      rw [update_self] at hset
      split at hset
      · cases hset
      · exact Or.inl hset
    | _ => exact Or.inl h
  · rw [next_cbFiber hv] at h
    exact Or.inl h

end Action

end Yuyu.Scheduler
