import Yuyu.Scheduler.Counters

/-!
# Shutdown

A worker leaves `run` when `IOManager::stopping` returns true, which reads the timers, the counter
of pending events, and then the queue and the active count. The three reads are no snapshot, and the
active count is decremented before a fiber is put back in the queue.
-/

namespace Yuyu.Scheduler

open Foundation Timer State Function

variable {n : Nat} {γ : Type}

namespace Pc

/-- `stopping` has found no timer. -/
def pastTimers : Pc γ → Bool
  | .idleEvents _ | .idleQueue _ => true
  | _ => false

/-- `stopping` has found no timer and no pending event. -/
def pastEvents : Pc γ → Bool
  | .idleQueue _ => true
  | _ => false

/-- The worker is about to put a fiber that yielded `READY` back in the queue. -/
def PutsBack (fiber : Nat → FiberState) : Pc γ → Prop
  | .fixup f _ => fiber f = .ready
  | .requeue _ _ => True
  | _ => False

instance (fiber : Nat → FiberState) (p : Pc γ) : Decidable (p.PutsBack fiber) := by
  induction p using Pc.casesOn <;> dsimp only [PutsBack] <;> infer_instance

lemma pastTimers_poll (clock nextTimeout : Nat) :
    (poll clock nextTimeout : Pc γ).pastTimers = false := by
  unfold poll
  split_ifs <;> rfl

lemma not_putsBack_poll (clock nextTimeout : Nat) (fiber : Nat → FiberState) :
    ¬ (poll clock nextTimeout : Pc γ).PutsBack fiber := by
  unfold poll
  split_ifs <;> exact id

end Pc

/-- The call adds a timer. -/
def addsTimer : Timer.Op γ → Bool
  | .addTimer _ _ _ _ _ | .addConditionTimer _ _ _ _ _ _ => true
  | _ => false

/-- No timer or event is added after a worker in `stopping` has found none, no fiber is put back
while a worker is about to read the active count, and no timer is due in `2^64 - 1` ms. -/
def KeepsOut (s : State n γ) : Action n γ → Prop
  | .getNextTimer _ =>
    ∀ a ∈ s.timers.timers, (s.timers.object a).next < s.now + (word64 - 1)
  | .timer op => addsTimer op = true → ∀ u, (s.pc u).pastTimers = false
  | .addEvent _ => ∀ u, (s.pc u).pastEvents = false
  | .checkEvents _ _ => s.waiting.isEmpty = true → ∀ v, ¬ (s.pc v).PutsBack s.fiber
  | .returned _ f _ => s.fiber f = .ready → ∀ u, (s.pc u).pastEvents = false
  | .yield _ f _ st => st = .ready →
      (∀ u, (s.pc u).pastEvents = false) ∨ ∀ v isCb, s.pc v ≠ .fixup f isCb
  | _ => True

/-- What a worker in `stopping` has read is still so. -/
structure ReadsHold (s : State n γ) : Prop where
  timers : ∀ u, (s.pc u).pastTimers = true → s.timers.timers = []
  events : ∀ u, (s.pc u).pastEvents = true → s.waiting = []
  ready : ∀ u, (s.pc u).pastEvents = true → ∀ v, ¬ (s.pc v).PutsBack s.fiber

lemma Pc.pastTimers_of_pastEvents {p : Pc γ} (h : p.pastEvents = true) : p.pastTimers = true := by
  cases p <;> simp_all [Pc.pastEvents, Pc.pastTimers]

lemma not_putsBack_update {fiber : Nat → FiberState} {f : Nat} {st : FiberState}
    (hst : st ≠ .ready) {p : Pc γ} (h : ¬ p.PutsBack fiber) :
    ¬ p.PutsBack (update fiber f st) := by
  cases p with
  | fixup g isCb =>
    by_cases hgf : g = f
    · simpa [Pc.PutsBack, hgf] using hst
    · simpa [Pc.PutsBack, hgf] using h
  | _ => exact h

lemma getNextTimer_none {m : TimerManager γ} {now : Nat}
    (hdue : ∀ a ∈ m.timers, (m.object a).next < now + (word64 - 1))
    (h : (m.getNextTimer now).2 = word64 - 1) : m.timers = [] := by
  cases htimers : m.timers with
  | nil => rfl
  | cons a rest =>
    have hnext := hdue a (by simp [htimers])
    simp only [TimerManager.getNextTimer, htimers, sub64, word64] at h hnext
    split at h <;> omega

lemma timers_of_call {m : TimerManager γ} {op : Timer.Op γ} {r : TimerManager γ × Bool}
    (hempty : m.timers = []) (hop : addsTimer op = false) (h : op.call m = some r) :
    r.1.timers = [] := by
  have hfind (a : Addr) : m.findTimer a = m.timers.length := by
    simp [TimerManager.findTimer, OrderedSet.find, hempty]
  cases op with
  | addTimer | addConditionTimer => contradiction
  | cancel a =>
    obtain ⟨r', hr, rfl⟩ := Option.map_eq_some_iff.mp h
    simp only [TimerManager.cancel] at hr
    split at hr
    · simp [TimerManager.eraseTimer, TimerManager.setObject, hempty, OrderedSet.erase] at hr
    · rw [← Option.some.inj hr]
      exact hempty
  | refresh a now =>
    obtain ⟨r', hr, rfl⟩ := Option.map_eq_some_iff.mp h
    simp only [TimerManager.refresh, hfind a, if_true, ite_self] at hr
    rw [← Option.some.inj hr]
    exact hempty
  | reset a ms fromNow now =>
    obtain ⟨r', hr, rfl⟩ := Option.map_eq_some_iff.mp h
    simp only [TimerManager.reset, hfind a, if_true, ite_self] at hr
    split at hr <;>
      · rw [← Option.some.inj hr]
        exact hempty
  | release a =>
    rw [← Option.some.inj h]
    exact hempty
  | getNextTimer | listExpiredCb => simp [Op.call] at h

namespace ReadsHold

variable {s : State n γ} (h : ReadsHold s)
include h

variable {s' : State n γ} {w : Fin n} {p : Pc γ}

lemma move (hpc : s'.pc = update s.pc w p)
    (hp : p.pastTimers = false) (htimers : s.timers.timers = [] → s'.timers.timers = [])
    (hwaiting : s'.waiting = s.waiting)
    (hback : (∀ v, ¬ (s.pc v).PutsBack s.fiber) → (∃ u, (s.pc u).pastEvents = true) →
      ¬ p.PutsBack s'.fiber ∧ ∀ v ≠ w, ¬ (s.pc v).PutsBack s'.fiber) : ReadsHold s' := by
  have hstay {test : Pc γ → Bool} (htest : test p = false) {u : Fin n}
      (hu : test (s'.pc u) = true) : test (s.pc u) = true := by
    rw [hpc] at hu
    by_cases huw : u = w
    · rw [huw, update_self, htest] at hu
      contradiction
    · rwa [update_of_ne huw] at hu
  have hp' : p.pastEvents = false := by
    by_contra hev
    simp [Pc.pastTimers_of_pastEvents (Bool.not_eq_false _ ▸ hev)] at hp
  refine ⟨fun u hu => htimers (h.timers u (hstay hp hu)),
    fun u hu => hwaiting ▸ h.events u (hstay hp' hu), fun u hu v => ?_⟩
  have hu' := hstay hp' hu
  obtain ⟨hself, hothers⟩ := hback (h.ready u hu') ⟨u, hu'⟩
  rw [hpc]
  by_cases hvw : v = w
  · rwa [hvw, update_self]
  · rw [update_of_ne hvw]
    exact hothers v hvw

lemma carry (hpc : s'.pc = update s.pc w p)
    (hp : p.pastTimers = false) (hback : ∀ fiber, ¬ p.PutsBack fiber)
    (htimers : s'.timers = s.timers) (hwaiting : s'.waiting = s.waiting)
    (hfiber : s'.fiber = s.fiber) : ReadsHold s' :=
  h.move hpc hp (by rw [htimers]; exact id) hwaiting fun hnone _ =>
    ⟨hback _, fun v _ => hfiber ▸ hnone v⟩

lemma write (hpc : s'.pc = update s.pc w p)
    (hp : p.pastTimers = false) (hback : ∀ fiber, ¬ p.PutsBack fiber)
    (htimers : s'.timers = s.timers) (hwaiting : s'.waiting = s.waiting) {f : Nat}
    {st : FiberState} (hst : st ≠ .ready) (hfiber : s'.fiber = update s.fiber f st) :
    ReadsHold s' := by
  refine h.move hpc hp (by rw [htimers]; exact id) hwaiting fun hnone _ => ⟨hback _, fun v _ => ?_⟩
  rw [hfiber]
  exact not_putsBack_update hst (hnone v)

lemma getNextTimer (hout : KeepsOut s (.getNextTimer w)) :
    ReadsHold ((Action.getNextTimer w).next s) := by
  simp only [Action.next]
  split
  · rename_i hnone
    have hempty : s.timers.timers = [] := getNextTimer_none hout hnone
    have hevents {u : Fin n}
        (hu : (update s.pc w (.idleEvents s.now) u).pastEvents = true) :
        (s.pc u).pastEvents = true := by
      by_cases huw : u = w
      · simp [huw, Pc.pastEvents] at hu
      · rwa [update_of_ne huw] at hu
    refine ⟨fun _ _ => hempty, fun u hu => h.events u (hevents hu), fun u hu v => ?_⟩
    change ¬ (update s.pc w (.idleEvents s.now) v).PutsBack s.fiber
    by_cases hvw : v = w
    · rw [hvw, update_self]
      exact id
    · rw [update_of_ne hvw]
      exact h.ready u (hevents hu) v
  · exact h.move rfl (Pc.pastTimers_poll _ _) id rfl fun hnone _ =>
      ⟨Pc.not_putsBack_poll _ _ _, fun v _ => hnone v⟩

lemma checkEvents {clock : Nat} (ha : (Action.checkEvents w clock).Enabled s)
    (hout : KeepsOut s (.checkEvents w clock)) :
    ReadsHold ((Action.checkEvents w clock).next s) := by
  have hw : s.pc w = .idleEvents clock := ha
  simp only [Action.next]
  split
  · rename_i hnone
    refine ⟨fun u hu => ?_, fun _ _ => List.isEmpty_iff.mp hnone, fun u hu v => ?_⟩
    · exact h.timers w (by rw [hw]; rfl)
    change ¬ (update s.pc w (.idleQueue clock) v).PutsBack s.fiber
    by_cases hvw : v = w
    · rw [hvw, update_self]
      exact id
    · rw [update_of_ne hvw]
      exact hout hnone v
  · exact h.carry rfl (Pc.pastTimers_poll _ _) (Pc.not_putsBack_poll _ _) rfl rfl rfl

lemma yield {f : Nat} {isCb : Bool} {st : FiberState}
    (hout : KeepsOut s (.yield w f isCb st)) : ReadsHold ((Action.yield w f isCb st).next s) := by
  by_cases hst : st = .ready
  · refine h.move rfl rfl id rfl fun hnone hread => ⟨fun hback => hback, fun v _ => ?_⟩
    obtain ⟨u, hu⟩ := hread
    have hfixup : ∀ v isCb, s.pc v ≠ .fixup f isCb := by
      rcases hout hst with hfree | hfixup
      · simp [hfree u] at hu
      · exact hfixup
    have hv := hnone v
    cases hpc : s.pc v with
    | fixup g isCb' =>
      have hgf : g ≠ f := by
        rintro rfl
        exact hfixup v isCb' hpc
      rw [hpc] at hv
      simpa [Pc.PutsBack, Action.next, goto, setFiber, hgf] using hv
    | _ =>
      rw [hpc] at hv
      exact hv
  · exact h.write rfl rfl (fun _ => id) rfl rfl hst rfl

lemma next {a : Action n γ} (ha : a.Enabled s) (hout : KeepsOut s a) : ReadsHold (a.next s) := by
  cases a with
  | scan w | tickleMe w =>
    refine h.carry rfl ?_ (fun _ => ?_) rfl rfl rfl
    · split <;> rfl
    · split <;> exact id
  | newCbFiber | resetCbFiber | swapIn | setHold =>
    exact h.write rfl rfl (fun _ => id) rfl rfl (by simp) rfl
  | yield w f isCb st => exact h.yield hout
  | returned w f isCb =>
    refine h.move rfl rfl id rfl fun hnone hread => ⟨fun hready => ?_, fun v _ => hnone v⟩
    obtain ⟨u, hu⟩ := hread
    simp [hout hready u] at hu
  | fixupReady w f isCb =>
    -- the worker was about to put the fiber back before
    refine h.move rfl rfl id rfl fun hnone _ => absurd ?_ (hnone w)
    rw [ha.1]
    exact ha.2
  | fixupEnded w f isCb =>
    refine h.write rfl rfl (fun _ => id) rfl rfl ?_ rfl
    rcases ha.2 with hf | hf <;> cases isCb <;> simp [hf]
  | getNextTimer w => exact h.getNextTimer hout
  | checkEvents w clock => exact h.checkEvents ha hout
  | checkQueue w clock =>
    refine h.carry rfl ?_ (fun _ => ?_) rfl rfl rfl
    · split
      · rfl
      · exact Pc.pastTimers_poll _ _
    split
    · exact id
    · exact Pc.not_putsBack_poll _ _ _
  | listExpiredCb w clock probe =>
    refine h.move rfl rfl (fun hempty => ?_) rfl fun hnone _ => ⟨id, fun v _ => hnone v⟩
    simp [Action.next, goto, TimerManager.listExpiredCb, hempty]
  | tickleWrite w | resume w | skip w | enterIdle w | exit w | swapOut w | requeue w | fixupOther w
  | wake w | scheduleExpired w | swapOutIdle w | leaveIdle w =>
    exact h.carry rfl rfl (fun _ => id) rfl rfl rfl
  | addEvent job =>
    refine ⟨h.timers, fun u hu => ?_, h.ready⟩
    have hu' : (s.pc u).pastEvents = true := hu
    simp [hout u] at hu'
  | trigger i =>
    refine ⟨h.timers, fun u hu => ?_, h.ready⟩
    simp [Action.next, State.schedule, callTickle, h.events u hu]
  | delEvent i =>
    refine ⟨h.timers, fun u hu => ?_, h.ready⟩
    simp [Action.next, h.events u hu]
  | timer op =>
    refine ⟨fun u hu => ?_, h.events, h.ready⟩
    obtain ⟨r, hr⟩ := Option.isSome_iff_exists.mp ha.2
    have hop : addsTimer op = false := by
      by_contra hadds
      have hu' : (s.pc u).pastTimers = true := hu
      simp [hout (by simpa using hadds) u] at hu'
    have hempty := timers_of_call (h.timers u hu) hop hr
    simpa [Action.next, callTickle, hr] using hempty
  | newFiber =>
    refine ⟨h.timers, h.events, fun u hu v => ?_⟩
    exact not_putsBack_update (by simp) (h.ready u hu v)
  | drain | schedule | tickle | tickleDone | tick | stop => exact ⟨h.timers, h.events, h.ready⟩

end ReadsHold

/-- Nothing is left to do. -/
structure Quiet (s : State n γ) : Prop where
  queue : s.queue = []
  tasks : ∀ v, (s.pc v).active = false
  ready : ∀ v, ¬ (s.pc v).PutsBack s.fiber
  events : s.waiting = []
  timers : s.timers.timers = []

instance [DecidableEq γ] (s : State n γ) (a : Action n γ) : Decidable (KeepsOut s a) := by
  induction a using Action.casesOn <;> dsimp only [KeepsOut] <;> infer_instance

variable [DecidableEq γ]

/-- The steps that keep out of the gaps.  A store moves no worker. -/
def AvoidsGaps (r : Split n γ) : SplitAction n γ → Prop
  | .act a => KeepsOut r.shared a
  | .store _ | .setIdle _ => True

instance (r : Split n γ) (b : SplitAction n γ) : Decidable (AvoidsGaps r b) := by
  induction b using SplitAction.casesOn <;> dsimp only [AvoidsGaps] <;> infer_instance

/-- The steps that keep out of the gaps and lose no change of the active count. -/
def Undisturbed (r : Split n γ) (b : SplitAction n γ) : Prop := AvoidsGaps r b ∧ Fresh r b

instance (r : Split n γ) (b : SplitAction n γ) : Decidable (Undisturbed r b) :=
  inferInstanceAs (Decidable (_ ∧ _))

lemma readsHold_of_reachable {r : Split n γ}
    (h : (splitSystem n γ).ReachableWith AvoidsGaps r) : ReadsHold r.shared := by
  refine TransitionSystem.ReachableWith.invariant (I := fun r => ReadsHold r.shared) ?_ ?_ h
  · rintro r ⟨now, rfl⟩
    exact ⟨by simp [Split.initial, State.initial, TimerManager.initial],
      by simp [Split.initial, State.initial], by simp [Split.initial, State.initial, Pc.PutsBack]⟩
  rintro r b r' hreads hout hstep
  obtain ⟨hb, rfl⟩ := splitSystem_step hstep
  refine SplitAction.next_shared (fun _ _ hs => ⟨hs.timers, hs.events, hs.ready⟩)
    (fun _ _ hs => ⟨hs.timers, hs.events, hs.ready⟩) (fun a hact ha => ?_) hreads hb
  subst hact
  exact hreads.next ha hout

/-- In every run that keeps out of the gaps and loses no change of the active count, nothing is left
to do when `stopping` returns true to a worker. -/
theorem shutdown_sound (hn : 2 * n < word64) {r : Split n γ}
    (h : (splitSystem n γ).ReachableWith Undisturbed r) {w : Fin n} {c : Nat}
    (hread : (SplitAction.act (.checkQueue w c)).Enabled r)
    (hstop : r.shared.schedulerStopping = true) : Quiet r.shared := by
  have hreads := readsHold_of_reachable (h.mono fun _ _ hb => hb.1)
  have hacc := (accounted_of_reachable (h.mono fun _ _ hb => hb.2)).2
  have hw : r.shared.pc w = .idleQueue c := hread.1
  have hpast : (r.shared.pc w).pastEvents = true := by rw [hw]; rfl
  simp only [schedulerStopping, Bool.and_eq_true, List.isEmpty_iff, beq_iff_eq] at hstop
  obtain ⟨⟨-, hqueue⟩, hactive⟩ := hstop
  -- the mutex is free, so no increment of the active count is under way
  have hups : r.pending true = 0 :=
    countWhere_eq_zero.mpr fun v => by simpa using fun hv => hread.2.2 rfl ⟨v, hv⟩
  have htasks : countWhere Pc.active r.shared.pc ≤ n := by simpa using countWhere_le (ι := Fin n)
  have hdowns : r.pending false ≤ n := by
    simpa [Split.pending] using countWhere_le (ι := Fin n)
  have hcount : 0 % word64 =
      (countWhere Pc.active r.shared.pc + r.pending false) % word64 := by
    rwa [Accounted, hups, hactive] at hacc
  rw [Nat.mod_eq_of_lt (show _ + _ < word64 by omega), Nat.zero_mod] at hcount
  have hzero : countWhere Pc.active r.shared.pc = 0 := Nat.eq_zero_of_add_eq_zero_right hcount.symm
  exact ⟨hqueue, countWhere_eq_zero.mp hzero, hreads.ready w hpast, hreads.events w hpast,
    hreads.timers w (Pc.pastTimers_of_pastEvents hpast)⟩

/-- Fiber `f` is scheduled and worker `w` swaps it in. -/
def runTask (w : Fin 2) (f : Nat) : List (SplitAction 2 Unit) :=
  [.act .newFiber, .act (.schedule (some (.fiber f)) none), .act (.scan w), .store w,
    .act (.resume w f none), .act (.swapIn w f false)]

/-- The fiber leaves worker `w`, which loads the active count. -/
def switchBack (w : Fin 2) (f : Nat) (st : FiberState) : List (SplitAction 2 Unit) :=
  [.act (.yield w f false st), .act (.swapOut w f false), .act (.returned w f false)]

/-- Worker `w` finds no task after `stop` and no timer in `stopping`. -/
def beginStopping (w : Fin 2) : List (SplitAction 2 Unit) :=
  [.act .stop, .act (.scan w), .act (.enterIdle w), .act (.getNextTimer w)]

/-- Fiber `f` waits for an event, is scheduled again by it and ends. -/
def waitAndEnd (w : Fin 2) (f : Nat) : List (SplitAction 2 Unit) :=
  runTask w f ++ [.act (.addEvent (.fiber f))] ++ switchBack w f .hold ++
    [.store w, .act (.fixupOther w f false), .act (.setHold w f false), .act (.trigger 0),
      .act (.scan w), .store w, .act (.resume w f none), .act (.swapIn w f false)] ++
    switchBack w f .term ++ [.store w, .act (.fixupEnded w f false)]

theorem shutdown_sound_with_event :
    ∃ r, (splitSystem 2 Unit).runWith Undisturbed (Split.initial 2 Unit 0)
        (waitAndEnd 0 0 ++ beginStopping 1 ++ [.act (.checkEvents 1 0)]) = some r ∧
      (SplitAction.act (.checkQueue 1 0)).Enabled r ∧ r.shared.schedulerStopping = true ∧
      Quiet r.shared := by
  have hrun : (splitSystem 2 Unit).runWith Undisturbed (Split.initial 2 Unit 0)
      (waitAndEnd 0 0 ++ beginStopping 1 ++ [.act (.checkEvents 1 0)]) = some _ := rfl
  have hreach := TransitionSystem.reachableWith_of_init hrun ⟨0, rfl⟩
  refine ⟨_, hrun, by decide +kernel, rfl, ?_⟩
  exact shutdown_sound (by decide) hreach (w := 1) (c := 0) (by decide +kernel) rfl

/-- `stopping` returns true although fiber 0 has set a timer, waits for an event or is not yet back
in the queue; and while fiber 1 runs, because worker 0 overwrites the count of worker 1. -/
theorem shutdown_early :
    (∃ r, (splitSystem 2 Unit).run (Split.initial 2 Unit 0) (runTask 0 0 ++ beginStopping 1 ++
          [.act (.timer (.addTimer 0 0 50 (.user ()) false))] ++ switchBack 0 0 .term ++
          [.store 0, .act (.checkEvents 1 0)]) = some r ∧
      (SplitAction.act (.checkQueue 1 0)).Enabled r ∧ r.shared.schedulerStopping = true ∧
      r.shared.timers.timers = [0]) ∧
    (∃ r, (splitSystem 2 Unit).run (Split.initial 2 Unit 0) (runTask 0 0 ++ beginStopping 1 ++
          [.act (.checkEvents 1 0), .act (.addEvent (.fiber 0))] ++ switchBack 0 0 .hold ++
          [.store 0]) = some r ∧
      (SplitAction.act (.checkQueue 1 0)).Enabled r ∧ r.shared.schedulerStopping = true ∧
      r.shared.waiting = [.fiber 0]) ∧
    (∃ r, (splitSystem 2 Unit).run (Split.initial 2 Unit 0) (runTask 0 0 ++ beginStopping 1 ++
          [.act (.checkEvents 1 0)] ++ switchBack 0 0 .ready ++ [.store 0]) = some r ∧
      (SplitAction.act (.checkQueue 1 0)).Enabled r ∧ r.shared.schedulerStopping = true ∧
      r.shared.pc 0 = .fixup 0 false ∧ r.shared.fiber 0 = .ready) ∧
    ∃ r, (splitSystem 2 Unit).runWith AvoidsGaps (Split.initial 2 Unit 0)
          (runTask 0 0 ++ switchBack 0 0 .term ++ runTask 1 1 ++
          [.store 0, .act (.fixupEnded 0 0 false)] ++ beginStopping 0 ++
          [.act (.checkEvents 0 0)]) = some r ∧
      (SplitAction.act (.checkQueue 0 0)).Enabled r ∧ r.shared.schedulerStopping = true ∧
      r.shared.pc 1 = .running 1 false :=
  ⟨⟨_, rfl, by decide +kernel, rfl, rfl⟩, ⟨_, rfl, by decide +kernel, rfl, rfl⟩,
    ⟨_, rfl, by decide +kernel, rfl, rfl, rfl⟩, ⟨_, rfl, by decide +kernel, rfl, rfl⟩⟩

end Yuyu.Scheduler
