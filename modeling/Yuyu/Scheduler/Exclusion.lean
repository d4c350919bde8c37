import Yuyu.Scheduler.Steps

/-!
# A fiber runs on one worker at a time

The only guard against running a fiber twice is the test for `EXEC` in the scan. A fiber in hand
shows another state before `swapIn`, between the write of its state by a yield and the save of its
context, and from there to the end of the clean-up in `run`.
-/

namespace Yuyu.Scheduler

open Foundation Timer State Function

variable {n : Nat} {γ : Type}

def Pc.executing : Pc γ → Option Nat
  | .running f _ | .saving f _ => some f
  | _ => none

/-- The fiber that a worker has in hand while its state is not `EXEC`. -/
def Pc.window : Pc γ → Option Nat
  | .running _ _ => none
  | p => p.held

/-- No worker takes a fiber from the queue, or reuses it as its
`cb_fiber`, while another worker is in one of the windows for it. -/
def OutsideWindows (s : State n γ) : Action n γ → Prop
  | .scan w => ∀ f ∈ (s.scanOf w).ft.bind Task.fiber?, ∀ v, (s.pc v).window ≠ some f
  | .resetCbFiber _ _ _ f => ∀ v, (s.pc v).window ≠ some f
  | _ => True

instance (s : State n γ) (a : Action n γ) : Decidable (OutsideWindows s a) := by
  induction a using Action.casesOn <;> dsimp only [OutsideWindows] <;> infer_instance

/-- Every fiber is in the hands of one worker at most, and has the state
`EXEC` while it runs. -/
structure Exclusive (s : State n γ) : Prop where
  unique : ∀ w v f, (s.pc w).held = some f → (s.pc v).held = some f → w = v
  exec : ∀ w f isCb, s.pc w = .running f isCb → s.fiber f = .exec

lemma Pc.held_of_executing {p : Pc γ} {f : Nat} (h : p.executing = some f) : p.held = some f := by
  cases p <;> simp_all [Pc.executing, Pc.held]

namespace Exclusive

variable {s : State n γ} (h : Exclusive s)
include h

lemma others {w : Fin n} {f : Nat} (hw : (s.pc w).held = some f) :
    ∀ v ≠ w, (s.pc v).held ≠ some f := fun _ hne hv => hne (h.unique _ _ _ hv hw)

lemma free {f : Nat} (hf : s.fiber f ≠ .exec) (hwin : ∀ v, (s.pc v).window ≠ some f) :
    ∀ v, (s.pc v).held ≠ some f := by
  intro v hv
  cases hpc : s.pc v with
  | running g isCb =>
    rw [hpc] at hv
    obtain rfl : g = f := Option.some.inj hv
    exact hf (h.exec v g isCb hpc)
  | _ =>
    apply hwin v
    rw [hpc] at hv ⊢
    exact hv

lemma move {s' : State n γ} (w : Fin n) {p : Pc γ} (hpc : s'.pc = update s.pc w p)
    (htake : ∀ f, p.held = some f → ∀ v ≠ w, (s.pc v).held ≠ some f)
    (hwrite : ∀ f, s'.fiber f ≠ s.fiber f → ∀ v ≠ w, (s.pc v).held ≠ some f)
    (hrun : ∀ f isCb, p = .running f isCb → s'.fiber f = .exec) : Exclusive s' := by
  constructor
  · intro u v f hu hv
    rw [hpc] at hu hv
    by_cases huw : u = w <;> by_cases hvw : v = w
    · rw [huw, hvw]
    · subst huw
      rw [update_self] at hu
      rw [update_of_ne hvw] at hv
      exact absurd hv (htake f hu v hvw)
    · subst hvw
      rw [update_self] at hv
      rw [update_of_ne huw] at hu
      exact absurd hu (htake f hv u huw)
    rw [update_of_ne huw] at hu
    rw [update_of_ne hvw] at hv
    exact h.unique u v f hu hv
  intro v f isCb hv
  rw [hpc] at hv
  by_cases hvw : v = w
  · subst hvw
    rw [update_self] at hv
    exact hrun f isCb hv
  rw [update_of_ne hvw] at hv
  by_contra hne
  rw [← h.exec v f isCb hv] at hne
  exact hwrite f hne v hvw (by rw [hv]; rfl)

lemma carry {s' : State n γ} (w : Fin n) {p : Pc γ} (hpc : s'.pc = update s.pc w p)
    (hheld : p.held = (s.pc w).held ∨ p.held = none) (hfiber : s'.fiber = s.fiber)
    (hrun : ∀ f isCb, p ≠ .running f isCb) : Exclusive s' := by
  refine h.move w hpc (fun f hf => ?_) (fun f hne => absurd (by rw [hfiber]) hne)
    fun f isCb hp => absurd hp (hrun f isCb)
  rcases hheld with hheld | hheld
  · exact h.others (hheld ▸ hf)
  · simp [hheld] at hf

lemma write {s' : State n γ} (w : Fin n) {p : Pc γ} (hpc : s'.pc = update s.pc w p)
    {f : Nat} (hw : (s.pc w).held = some f) (hheld : p.held = some f ∨ p.held = none)
    {st : FiberState} (hfiber : s'.fiber = update s.fiber f st)
    (hrun : ∀ g isCb, p = .running g isCb → g = f ∧ st = .exec) : Exclusive s' := by
  refine h.move w hpc (fun g hg => ?_) (fun g hne => ?_) fun g isCb hp => ?_
  · rcases hheld with hheld | hheld
    · obtain rfl : f = g := Option.some.inj (hheld.symm.trans hg)
      exact h.others hw
    · simp [hheld] at hg
  · obtain rfl : g = f := by
      by_contra hgf
      exact hne (by rw [hfiber, update_of_ne hgf])
    exact h.others hw
  · obtain ⟨rfl, rfl⟩ := hrun g isCb hp
    rw [hfiber, update_self]

lemma idle {s' : State n γ} (w : Fin n) {p : Pc γ} (hpc : s'.pc = update s.pc w p)
    (hheld : p.held = none) (hfiber : s'.fiber = s.fiber) : Exclusive s' := by
  refine h.carry w hpc (Or.inr hheld) hfiber ?_
  rintro f isCb rfl
  simp [Pc.held] at hheld

lemma same {s' : State n γ} (hpc : s'.pc = s.pc) (hfiber : s'.fiber = s.fiber) :
    Exclusive s' := ⟨by rw [hpc]; exact h.unique, by rw [hpc, hfiber]; exact h.exec⟩

lemma next (hexist : FibersExist s) {a : Action n γ} (ha : a.Enabled s)
    (hout : OutsideWindows s a) : Exclusive (a.next s) := by
  have held {w : Fin n} {p : Pc γ} (hpc : s.pc w = p) : (s.pc w).held = p.held := by rw [hpc]
  have unheld (v : Fin n) : (s.pc v).held ≠ some s.nextFiber := fun hv =>
    lt_irrefl _ (hexist.held v _ hv)
  cases a with
  | scan w =>
    refine h.move w rfl (fun f hf v _ => ?_) (fun f hne => absurd rfl hne) fun f isCb hp => ?_
    · have hft : (s.scanOf w).ft.bind Task.fiber? = some f := by
        rw [held_ite] at hf
        simpa [Pc.held] using hf
      obtain ⟨t, ht, htf⟩ := Option.bind_eq_some_iff.mp hft
      exact h.free ((scanQueue_taken ht).2.2 f (Task.fiber?_eq_some.mp htf)) (hout f hft) v
    · split at hp <;> simp at hp
  | tickleMe w ft =>
    refine h.carry w rfl (Or.inl ?_) rfl fun f isCb hp => ?_
    · rw [held ha, held_ite]
      exact ite_self _
    · split at hp <;> simp at hp
  | tickleWrite w | swapOut w | returned w =>
    exact h.carry w rfl (Or.inl (held ha).symm) rfl (by simp)
  | resume w | fixupReady w | fixupOther w =>
    exact h.carry w rfl (Or.inl (held ha.1).symm) rfl (by simp)
  | skip w | requeue w | enterIdle w | exit w | wake w | listExpiredCb w | scheduleExpired w
  | swapOutIdle w | leaveIdle w => exact h.idle w rfl rfl rfl
  | newCbFiber w cb thread =>
    refine h.move w rfl (fun f hf v _ => ?_) (fun f hne v _ => ?_) (by simp)
    · exact Option.some.inj hf ▸ unheld v
    obtain rfl : f = s.nextFiber := by
      by_contra hf
      exact hne (update_of_ne hf _ _)
    exact unheld v
  | resetCbFiber w cb thread f =>
    have hfree := h.free (f := f) (by rcases ha.2.2 with hf | hf | hf <;> simp [hf]) hout
    refine h.move w rfl (fun g hg v _ => ?_) (fun g hne v _ => ?_) (by simp)
    · exact Option.some.inj hg ▸ hfree v
    obtain rfl : g = f := by
      by_contra hg
      exact hne (update_of_ne hg _ _)
    exact hfree v
  | swapIn w f isCb =>
    refine h.write w rfl (held ha.1) (Or.inl rfl) rfl fun g isCb' hp => ?_
    obtain ⟨rfl, -⟩ : f = g ∧ isCb = isCb' := by simpa using hp
    exact ⟨rfl, rfl⟩
  | yield w f isCb st => exact h.write w rfl (held ha.1) (Or.inl rfl) rfl (by simp)
  | fixupEnded w f isCb => exact h.write w rfl (held ha.1) (Or.inr rfl) rfl (by simp)
  | setHold w f isCb => exact h.write w rfl (held ha) (Or.inr rfl) rfl (by simp)
  | getNextTimer w | checkEvents w | checkQueue w =>
    refine h.idle w rfl ?_ rfl
    rw [held_ite, held_poll]
    exact ite_self none
  | newFiber =>
    refine ⟨h.unique, fun w f isCb hw => ?_⟩
    have hne : f ≠ s.nextFiber := fun hf => unheld w (by rw [show s.pc w = _ from hw, ← hf]; rfl)
    exact (update_of_ne hne _ _).trans (h.exec w f isCb hw)
  | drain | schedule | tickle | tickleDone | addEvent | trigger | delEvent | timer | tick | stop =>
    exact h.same rfl rfl

end Exclusive

lemma exclusive_of_reachable [DecidableEq γ] {s : State n γ}
    (h : (workerSystem n γ).ReachableWith OutsideWindows s) : FibersExist s ∧ Exclusive s := by
  refine TransitionSystem.ReachableWith.invariant (I := fun s => FibersExist s ∧ Exclusive s)
    ?_ ?_ h
  · rintro s ⟨now, rfl⟩
    exact ⟨⟨by simp [initial], by simp [initial], by simp [initial, Pc.held], by simp [initial]⟩,
      ⟨by simp [initial, Pc.held], by simp [initial]⟩⟩
  rintro s a s' ⟨hexist, hexcl⟩ hout hstep
  obtain ⟨ha, rfl⟩ := workerSystem_step hstep
  exact ⟨hexist.next ha, hexcl.next hexist ha hout⟩

/-- If no worker takes a fiber in one of its windows, no fiber is executed by two workers, and none
is swapped in before it has been saved. -/
theorem fiber_exclusive [DecidableEq γ] {s : State n γ}
    (h : (workerSystem n γ).ReachableWith OutsideWindows s) :
    (∀ w v f, (s.pc w).executing = some f → (s.pc v).executing = some f → w = v) ∧
      ∀ w f isCb, s.pc w = .swapIn f isCb → ∀ v, (s.pc v).executing ≠ some f := by
  obtain ⟨-, hexcl⟩ := exclusive_of_reachable h
  constructor
  · intro w v f hw hv
    exact hexcl.unique w v f (Pc.held_of_executing hw) (Pc.held_of_executing hv)
  intro w f isCb hw v hv
  have hheld : (s.pc w).held = some f := by rw [hw]; rfl
  obtain rfl := hexcl.unique w v f hheld (Pc.held_of_executing hv)
  simp [hw, Pc.executing] at hv

def runUntilWaiting : List (Action 2 Unit) :=
  [.newFiber, .schedule (some (.fiber 0)) none, .scan 0, .resume 0 0 none, .swapIn 0 0 false,
    .addEvent (.fiber 0), .yield 0 0 false .hold]

def resumeElsewhere : List (Action 2 Unit) :=
  [.trigger 0, .scan 1, .resume 1 0 none, .swapIn 1 0 false]

def cleanUp : List (Action 2 Unit) :=
  [.swapOut 0 0 false, .returned 0 0 false, .fixupOther 0 0 false, .setHold 0 0 false]

theorem fiber_exclusive_after_cleanup :
    ∃ s, (workerSystem 2 Unit).runWith OutsideWindows (initial 2 Unit 0)
        (runUntilWaiting ++ cleanUp ++ resumeElsewhere) = some s ∧
      (s.pc 1).executing = some 0 ∧ (s.pc 0).executing ≠ some 0 := by
  have hrun : (workerSystem 2 Unit).runWith OutsideWindows (initial 2 Unit 0)
      (runUntilWaiting ++ cleanUp ++ resumeElsewhere) = some _ := rfl
  have hreach := TransitionSystem.reachableWith_of_init hrun ⟨0, rfl⟩
  refine ⟨_, hrun, rfl, fun hzero => ?_⟩
  exact absurd ((fiber_exclusive hreach).1 0 1 0 hzero rfl) (by decide)

/-- When the event arrives before the context is saved, two workers execute the
fiber: worker 1 has switched to a context that worker 0 has not written. -/
theorem fiber_executed_twice :
    ∃ s, (workerSystem 2 Unit).run (initial 2 Unit 0) (runUntilWaiting ++ resumeElsewhere) =
        some s ∧
      (s.pc 0).executing = some 0 ∧ (s.pc 1).executing = some 0 :=
  ⟨_, rfl, rfl, rfl⟩

end Yuyu.Scheduler
