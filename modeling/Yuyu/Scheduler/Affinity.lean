import Yuyu.Scheduler.Exclusion
import Yuyu.Scheduler.QueueOrder

/-!
# Tasks pinned to a thread

The second argument of `schedule` pins a task to a thread. When the task yields `READY`, `run` puts
its fiber back in the queue without a pin. A fiber has the pin of the only call of `schedule` that
names it, and `other` after several calls.
-/

namespace Yuyu.Scheduler

open Foundation Timer State Function

variable {n : Nat} {γ : Type}

/-- What the calls of `schedule` say about the thread of a fiber. -/
inductive Pin where
  | unnamed
  | pinned (thread : Nat)
  | other
deriving DecidableEq

namespace Pin

def ofThread : Option Nat → Pin
  | some thread => .pinned thread
  | none => .other

def Allows : Pin → Option Nat → Prop
  | .unnamed, _ => False
  | .pinned t, thread => thread = some t
  | .other, _ => True

def thread : Pin → Option Nat
  | .pinned t => some t
  | .unnamed | .other => none

lemma allows_ofThread {thread thread' : Option Nat} (h : thread = none ∨ thread = thread') :
    (ofThread thread).Allows thread' := by
  cases thread with
  | none => trivial
  | some t => simpa [ofThread, Allows, eq_comm] using h

lemma Allows.of_taken {pin : Pin} {thread : Option Nat} {w : Nat} (h : pin.Allows thread)
    (hw : thread = none ∨ thread = some w) : pin.Allows (some w) := by
  cases pin with
  | unnamed => exact h
  | pinned t =>
    obtain rfl : thread = some t := h
    simpa [Allows, eq_comm] using hw
  | other => trivial

end Pin

def NamedElsewhere (s : State n γ) (w : Fin n) (f : Nat) : Prop :=
  (∃ t ∈ s.queue, t.fiber? = some f) ∨ ∃ v, v ≠ w ∧ (s.pc v).held = some f
deriving Decidable

/-- The pin of a fiber after a call of `schedule` that names it. -/
def Pin.afterSchedule (pin : Pin) (thread : Option Nat) : Pin :=
  if pin = .unnamed then .ofThread thread else .other

lemma Pin.allows_afterSchedule (pin : Pin) (thread : Option Nat) :
    (pin.afterSchedule thread).Allows thread := by
  unfold Pin.afterSchedule
  split
  · exact Pin.allows_ofThread (Or.inr rfl)
  · trivial

/-- The pins after an action.  Only calls of `schedule` and the start of a
callback change them; putting a fiber back in the queue does not. -/
def Action.pins (s : State n γ) (pin : Nat → Pin) : Action n γ → Nat → Pin
  | .schedule (some (.fiber f)) thread =>
    update pin f ((pin f).afterSchedule thread)
  | .trigger i =>
    match s.waiting[i]? with
    | some (.fiber f) => update pin f ((pin f).afterSchedule none)
    | _ => pin
  | .newCbFiber _ _ thread => update pin s.nextFiber (.ofThread thread)
  | .resetCbFiber w _ thread f =>
    update pin f (if NamedElsewhere s w f then .other else .ofThread thread)
  | _ => pin

structure PinState (n : Nat) (γ : Type) where
  workers : State n γ
  pin : Nat → Pin

def pinSystem (n : Nat) (γ : Type) [DecidableEq γ] :
    TransitionSystem (PinState n γ) (Action n γ) where
  init q := (∃ now, q.workers = State.initial n γ now) ∧ ∀ f, q.pin f = .unnamed
  step q a := ((workerSystem n γ).step q.workers a).map fun s => ⟨s, a.pins q.workers q.pin⟩

/-- No task that is pinned yields `READY`. -/
def StaysPut (q : PinState n γ) : Action n γ → Prop
  | .yield _ f _ st => st = .ready → (q.pin f).thread = none
  | _ => True

instance (q : PinState n γ) (a : Action n γ) : Decidable (StaysPut q a) := by
  induction a using Action.casesOn <;> dsimp only [StaysPut] <;> infer_instance

/-! ## The invariant -/

/-- The task that a worker has taken from the queue and not yet tested. -/
def Pc.task : Pc γ → Option (Task γ)
  | .tickleMe ft | .tickleWrite ft | .dispatch ft => ft
  | _ => none

@[simp] lemma task_poll (clock nextTimeout : Nat) :
    (poll clock nextTimeout : Pc γ).task = none := by
  unfold poll
  split_ifs <;> rfl

@[simp] lemma task_ite {c : Prop} [Decidable c] (p q : Pc γ) :
    (if c then p else q).task = if c then p.task else q.task := by
  split <;> rfl

def Pc.requeued : Pc γ → Option Nat
  | .requeue f _ => some f
  | _ => none

structure Pc.Suits (pin : Nat → Pin) (v : Nat) (p : Pc γ) : Prop where
  held : ∀ f, p.held = some f → (pin f).Allows (some v)
  taken : ∀ t, p.task = some t → t.thread = none ∨ t.thread = some v
  requeued : ∀ f, p.requeued = some f → pin f = .other

/-- Queue entries and workers suit the pins, and no pinned fiber is `READY`. -/
structure Affine (s : State n γ) (pin : Nat → Pin) : Prop where
  queue : ∀ t ∈ s.queue, ∀ f, t.job = .fiber f → (pin f).Allows t.thread
  pc : ∀ v, (s.pc v).Suits pin v
  ready : ∀ f, s.fiber f = .ready → pin f = .other

lemma Pc.Suits.of_idle {pin : Nat → Pin} {v : Nat} {p : Pc γ} (hheld : p.held = none)
    (htask : p.task = none) : p.Suits pin v := by
  refine ⟨by simp [hheld], by simp [htask], fun f hf => ?_⟩
  cases p <;> simp_all [Pc.requeued, Pc.held]

lemma Pc.Suits.carry {pin : Nat → Pin} {v : Nat} {p q : Pc γ} (h : p.Suits pin v)
    (hheld : q.held = p.held) (htask : q.task = none) (hrequeued : q.requeued = none) :
    q.Suits pin v := ⟨fun f hf => h.held f (hheld ▸ hf), by simp [htask], by simp [hrequeued]⟩

namespace Affine

variable {s : State n γ} {pin : Nat → Pin} (h : Affine s pin)
include h

lemma move {w : Fin n} {p : Pc γ} (hp : p.Suits pin w) :
    ∀ v, (update s.pc w p v).Suits pin v :=
  (forall_update_iff s.pc fun v q => q.Suits pin v).mpr ⟨hp, fun v _ => h.pc v⟩

lemma write (f : Nat) {st : FiberState} (hst : st = .ready → pin f = .other) :
    ∀ g, update s.fiber f st g = .ready → pin g = .other :=
  (forall_update_iff s.fiber fun g st => st = .ready → pin g = .other).mpr
    ⟨hst, fun g _ => h.ready g⟩

lemma push {tasks : List (Task γ)}
    (htasks : ∀ t ∈ tasks, ∀ f, t.job = .fiber f → (pin f).Allows t.thread) :
    ∀ t ∈ s.queue ++ tasks, ∀ f, t.job = .fiber f → (pin f).Allows t.thread :=
  fun t ht => (List.mem_append.mp ht).elim (h.queue t) (htasks t)

lemma idle {s' : State n γ} (w : Fin n) {p : Pc γ} (hpc : s'.pc = update s.pc w p)
    (hheld : p.held = none) (htask : p.task = none) (hqueue : s'.queue = s.queue)
    (hfiber : s'.fiber = s.fiber) : Affine s' pin :=
  ⟨by rw [hqueue]; exact h.queue, by rw [hpc]; exact h.move (.of_idle hheld htask),
    by rw [hfiber]; exact h.ready⟩

lemma carry {s' : State n γ} {w : Fin n} {p q : Pc γ} (hw : s.pc w = p)
    (hpc : s'.pc = update s.pc w q) (hheld : q.held = p.held) (htask : q.task = none)
    (hrequeued : q.requeued = none) (hqueue : s'.queue = s.queue)
    (hfiber : ∀ f, s'.fiber f = .ready → pin f = .other) : Affine s' pin := by
  refine ⟨by rw [hqueue]; exact h.queue, ?_, hfiber⟩
  rw [hpc]
  refine h.move (Pc.Suits.carry (p := p) ?_ hheld htask hrequeued)
  exact hw ▸ h.pc w

lemma forget (f : Nat) : Affine s (update pin f .other) := by
  have hallows (g : Nat) {thread : Option Nat} (hg : (pin g).Allows thread) :
      (update pin f .other g).Allows thread := by
    by_cases hgf : g = f
    · rw [hgf, update_self]
      trivial
    · rwa [update_of_ne hgf]
  have hother (g : Nat) (hg : pin g = .other) : update pin f .other g = .other := by
    by_cases hgf : g = f
    · rw [hgf, update_self]
    · rwa [update_of_ne hgf]
  exact ⟨fun t ht g hg => hallows g (h.queue t ht g hg),
    fun v => ⟨fun g hg => hallows g ((h.pc v).held g hg), (h.pc v).taken,
      fun g hg => hother g ((h.pc v).requeued g hg)⟩,
    fun g hg => hother g (h.ready g hg)⟩

lemma repin {f : Nat} (hqueue : ∀ t ∈ s.queue, t.job ≠ .fiber f)
    (hheld : ∀ v, (s.pc v).held ≠ some f) (hready : s.fiber f ≠ .ready) (q : Pin) :
    Affine s (update pin f q) := by
  have hsame (g : Nat) (hg : g ≠ f) : update pin f q g = pin g := update_of_ne hg q pin
  refine ⟨fun t ht g hg => ?_, fun v => ⟨fun g hg => ?_, (h.pc v).taken, fun g hg => ?_⟩,
    fun g hg => ?_⟩
  · rw [hsame g (by rintro rfl; exact hqueue t ht hg)]
    exact h.queue t ht g hg
  · rw [hsame g (by rintro rfl; exact hheld v hg)]
    exact (h.pc v).held g hg
  · have hv : (s.pc v).held = some g := by
      cases hpc : s.pc v <;> simp_all [Pc.requeued, Pc.held]
    rw [hsame g (by rintro rfl; exact hheld v hv)]
    exact (h.pc v).requeued g hg
  · rw [hsame g (by rintro rfl; exact hready hg)]
    exact h.ready g hg

lemma named (f : Nat) (thread : Option Nat) :
    Affine s (update pin f ((pin f).afterSchedule thread)) := by
  unfold Pin.afterSchedule
  by_cases hf : pin f = .unnamed
  · rw [if_pos hf]
    refine h.repin (fun t ht hjob => ?_) (fun v hv => ?_) (fun hready => ?_) _
    · have := h.queue t ht f hjob
      rw [hf] at this
      exact this
    · have := (h.pc v).held f hv
      rw [hf] at this
      exact this
    · simp [h.ready f hready] at hf
  · rw [if_neg hf]
    exact h.forget f

lemma scan (w : Fin n) : Affine ((Action.scan w).next s) pin := by
  refine ⟨fun t ht => h.queue t (scanQueue_subset ht), h.move ?_, h.ready⟩
  have htask {t : Task γ} (ht : (s.scanOf w).ft = some t) :
      t ∈ s.queue ∧ (t.thread = none ∨ t.thread = some ↑w) :=
    (scanQueue_taken ht).imp id And.left
  refine ⟨fun f hf => ?_, fun t ht => ?_, fun f hf => ?_⟩
  · have hft : (s.scanOf w).ft.bind Task.fiber? = some f := by
      rw [held_ite] at hf
      simpa [Pc.held] using hf
    obtain ⟨t, ht, htf⟩ := Option.bind_eq_some_iff.mp hft
    obtain ⟨hmem, hthread⟩ := htask ht
    exact (h.queue t hmem f (Task.fiber?_eq_some.mp htf)).of_taken hthread
  · have hft : (s.scanOf w).ft = some t := by
      rw [task_ite] at ht
      simpa [Pc.task] using ht
    exact (htask hft).2
  · split at hf <;> simp [Pc.requeued] at hf

lemma newCbFiber (hexist : FibersExist s) {w : Fin n} {cb : Callback γ} {thread : Option Nat}
    (ha : (Action.newCbFiber w cb thread).Enabled s) :
    Affine ((Action.newCbFiber w cb thread).next s)
      (update pin s.nextFiber (.ofThread thread)) := by
  have htaken := (h.pc w).taken ⟨.cb cb, thread⟩ (by rw [ha.1]; rfl)
  -- nothing refers to a fiber that is not yet created
  have hafter : Affine (s.setFiber s.nextFiber .init) pin := ⟨h.queue, h.pc, h.write _ (by simp)⟩
  have hpin := hafter.repin (fun t ht hjob => lt_irrefl _ (hexist.queue t ht _ hjob))
    (fun v hv => lt_irrefl _ (hexist.held v _ hv))
    (by simp [State.setFiber]) (.ofThread thread)
  refine ⟨hpin.queue, hpin.move ⟨fun f hf => ?_, by simp [Pc.task], by simp [Pc.requeued]⟩,
    hpin.ready⟩
  obtain rfl : s.nextFiber = f := Option.some.inj hf
  rw [update_self]
  exact Pin.allows_ofThread htaken

lemma resetCbFiber {w : Fin n} {cb : Callback γ} {thread : Option Nat} {f : Nat}
    (ha : (Action.resetCbFiber w cb thread f).Enabled s) :
    Affine ((Action.resetCbFiber w cb thread f).next s)
      (update pin f (if NamedElsewhere s w f then .other else .ofThread thread)) := by
  have htaken := (h.pc w).taken ⟨.cb cb, thread⟩ (by rw [ha.1]; rfl)
  have hafter : Affine (s.setFiber f .init) pin := ⟨h.queue, h.pc, h.write _ (by simp)⟩
  have hpin : Affine (s.setFiber f .init)
      (update pin f (if NamedElsewhere s w f then .other else .ofThread thread)) := by
    split
    · exact hafter.forget f
    rename_i hnamed
    obtain ⟨hqueue, hheld⟩ := not_or.mp hnamed
    refine hafter.repin (fun t ht hjob => ?_) (fun v hv => ?_) (by simp [State.setFiber]) _
    · exact hqueue ⟨t, ht, Task.fiber?_eq_some.mpr hjob⟩
    by_cases hvw : v = w
    · have hv : (s.pc v).held = some f := hv
      rw [hvw, ha.1] at hv
      simp [Pc.held, Task.fiber?] at hv
    · exact hheld ⟨v, hvw, hv⟩
  refine ⟨hpin.queue, hpin.move ⟨fun g hg => ?_, by simp [Pc.task], by simp [Pc.requeued]⟩,
    hpin.ready⟩
  obtain rfl : f = g := Option.some.inj hg
  rw [update_self]
  split
  · trivial
  · exact Pin.allows_ofThread htaken

theorem schedule {s' : State n γ} {fc : Option (Job γ)} {thread : Option Nat}
    (hqueue : s'.queue = s.queue ++ tasksOf [fc] thread) (hpc : s'.pc = s.pc)
    (hfiber : s'.fiber = s.fiber) (hpin : ∀ f, fc = some (.fiber f) → (pin f).Allows thread) :
    Affine s' pin := by
  refine ⟨?_, by rw [hpc]; exact h.pc, by rw [hfiber]; exact h.ready⟩
  rw [hqueue]
  refine h.push fun t ht f hf => ?_
  cases fc with
  | none => simp [tasksOf] at ht
  | some job =>
    obtain rfl : t = ⟨job, thread⟩ := by simpa [tasksOf] using ht
    exact hpin f (congrArg some hf)

lemma next (hexist : FibersExist s) {a : Action n γ} (ha : a.Enabled s)
    (hput : StaysPut ⟨s, pin⟩ a) : Affine (a.next s) (a.pins s pin) := by
  cases a with
  | scan w => exact h.scan w
  | tickleMe w ft =>
    refine ⟨h.queue, h.move ?_, h.ready⟩
    have hw := h.pc w
    rw [show s.pc w = _ from ha] at hw
    refine ⟨fun f hf => hw.held f ?_, fun t ht => hw.taken t ?_, fun f hf => ?_⟩
    · rw [held_ite] at hf
      simpa [Pc.held] using hf
    · rw [task_ite] at ht
      simpa [Pc.task] using ht
    · split at hf <;> simp [Pc.requeued] at hf
  | tickleWrite w ft =>
    have hw := h.pc w
    rw [show s.pc w = _ from ha] at hw
    exact ⟨h.queue, h.move ⟨hw.held, hw.taken, by simp [Pc.requeued]⟩, h.ready⟩
  | resume | fixupOther => exact h.carry ha.1 rfl rfl rfl rfl rfl h.ready
  | newCbFiber w cb thread => exact h.newCbFiber hexist ha
  | resetCbFiber w cb thread f => exact h.resetCbFiber ha
  | swapIn w f isCb => exact h.carry ha.1 rfl rfl rfl rfl rfl (h.write f (by simp))
  | yield w f isCb st =>
    refine h.carry ha.1 rfl rfl rfl rfl rfl (h.write f fun hst => ?_)
    have hallows := (h.pc w).held f (by rw [ha.1]; rfl)
    cases hf : pin f with
    | unnamed => simp [hf, Pin.Allows] at hallows
    | pinned t =>
      have hnone := hput hst
      simp [hf, Pin.thread] at hnone
    | other => rfl
  | swapOut | returned => exact h.carry ha rfl rfl rfl rfl rfl h.ready
  | fixupReady w f isCb =>
    have hother := h.ready f ha.2
    refine ⟨h.queue, h.move ⟨fun g hg => ?_, by simp [Pc.task], fun g hg => ?_⟩, h.ready⟩
    · obtain rfl : f = g := Option.some.inj hg
      rw [hother]
      trivial
    · obtain rfl : f = g := Option.some.inj hg
      exact hother
  | requeue w f isCb =>
    have hother := (h.pc w).requeued f (by rw [show s.pc w = _ from ha]; rfl)
    refine ⟨?_, h.move (.of_idle rfl rfl), h.ready⟩
    refine (h.schedule (schedule_queue s (some (.fiber f)) none) rfl rfl ?_).queue
    rintro g hg
    obtain rfl : f = g := by simpa using hg
    rw [hother]
    trivial
  | fixupEnded w f isCb =>
    refine ⟨h.queue, h.move (.of_idle rfl rfl), h.write f fun hst => ?_⟩
    split at hst
    · contradiction
    · exact h.ready f hst
  | setHold w f isCb => exact ⟨h.queue, h.move (.of_idle rfl rfl), h.write f (by simp)⟩
  | getNextTimer w | checkEvents w | checkQueue w =>
    refine h.idle w rfl ?_ ?_ rfl rfl
    · rw [held_ite, held_poll]
      exact ite_self none
    · rw [task_ite, task_poll]
      exact ite_self none
  | scheduleExpired w cbs =>
    refine ⟨fun t ht => ?_, h.move (.of_idle rfl rfl), h.ready⟩
    rcases mem_scheduleRange.mp ht with ht | ⟨-, ht⟩
    · exact h.queue t ht
    · intro f hf
      simp [hf] at ht
  | skip w | enterIdle w | exit w | wake w | listExpiredCb w | swapOutIdle w | leaveIdle w =>
    exact h.idle w rfl rfl rfl rfl rfl
  | schedule fc thread =>
    cases fc with
    | none => exact h.schedule (schedule_queue s none thread) rfl rfl (by simp)
    | some job =>
      cases job with
      | cb cb => exact h.schedule (schedule_queue s _ thread) rfl rfl (by simp)
      | fiber f =>
        refine (h.named f thread).schedule (schedule_queue s _ thread) rfl rfl ?_
        intro g hg
        obtain rfl : f = g := by simpa using hg
        rw [update_self]
        exact Pin.allows_afterSchedule _ _
  | trigger i =>
    simp only [Action.pins]
    split
    · rename_i f hf
      refine (h.named f none).schedule (schedule_queue _ _ none) rfl rfl ?_
      intro g hg
      obtain rfl : f = g := by simpa [hf] using hg
      rw [update_self]
      exact Pin.allows_afterSchedule _ _
    · rename_i hf
      exact h.schedule (schedule_queue _ _ none) rfl rfl fun f hwait => absurd hwait (hf f)
  | newFiber => exact ⟨h.queue, h.pc, h.write _ (by simp)⟩
  | drain | tickle | tickleDone | addEvent | delEvent | timer | tick | stop =>
    exact ⟨h.queue, h.pc, h.ready⟩

end Affine

variable [DecidableEq γ]

lemma affine_of_reachable {q : PinState n γ} (h : (pinSystem n γ).ReachableWith StaysPut q) :
    FibersExist q.workers ∧ Affine q.workers q.pin := by
  refine TransitionSystem.ReachableWith.invariant
    (I := fun q => FibersExist q.workers ∧ Affine q.workers q.pin) ?_ ?_ h
  · rintro ⟨s, pin⟩ ⟨⟨now, rfl⟩, hpin⟩
    refine ⟨⟨by simp [initial], by simp [initial], by simp [initial, Pc.held], by simp [initial]⟩,
      ⟨by simp [initial], fun v => .of_idle rfl rfl, by simp [initial]⟩⟩
  rintro q a q' ⟨hexist, haffine⟩ hput hstep
  obtain ⟨s, hs, rfl⟩ := Option.map_eq_some_iff.mp hstep
  obtain ⟨ha, rfl⟩ := workerSystem_step hs
  exact ⟨hexist.next ha, haffine.next hexist ha hput⟩

/-- In every run in which no pinned task yields `READY`, a task that was scheduled once, for a
thread, is only taken up by the worker with this thread id. -/
theorem thread_affinity {q : PinState n γ} (h : (pinSystem n γ).ReachableWith StaysPut q) :
    (∀ (w : Fin n) f thread, q.pin f = .pinned thread → (q.workers.pc w).held = some f →
      thread = w) ∧
      ∀ (w : Fin n) t thread, (q.workers.pc w).task = some t → t.thread = some thread →
        thread = w := by
  obtain ⟨-, haffine⟩ := affine_of_reachable h
  constructor
  · intro w f thread hpin hheld
    have hallows := (haffine.pc w).held f hheld
    rw [hpin] at hallows
    exact (Option.some.inj hallows).symm
  intro w t thread htask hthread
  rcases (haffine.pc w).taken t htask with hnone | hsome
  · simp [hthread] at hnone
  · exact Option.some.inj (hthread.symm.trans hsome)

def unpinned : PinState 2 Unit := ⟨initial 2 Unit 0, fun _ => .unnamed⟩

def runPinned (w : Fin 2) : List (Action 2 Unit) :=
  [.newFiber, .schedule (some (.fiber 0)) (some 1), .scan w, .resume w 0 (some 1),
    .swapIn w 0 false]

def yieldReady (w : Fin 2) (isCb : Bool) : List (Action 2 Unit) :=
  [.yield w 0 isCb .ready, .swapOut w 0 isCb, .returned w 0 isCb, .fixupReady w 0 isCb,
    .requeue w 0 isCb]

def runElsewhere (w : Fin 2) : List (Action 2 Unit) :=
  [.scan w, .resume w 0 none, .swapIn w 0 false]

theorem thread_affinity_first_run :
    ∃ q, (pinSystem 2 Unit).runWith StaysPut unpinned (runPinned 1) = some q ∧
      q.pin 0 = .pinned 1 ∧ (q.workers.pc 1).executing = some 0 ∧
      (q.workers.pc 0).held ≠ some 0 := by
  have hrun : (pinSystem 2 Unit).runWith StaysPut unpinned (runPinned 1) = some _ := rfl
  have hinit : (pinSystem 2 Unit).ReachableWith StaysPut unpinned := .init ⟨⟨0, rfl⟩, fun _ => rfl⟩
  have hreach := TransitionSystem.reachableWith_of_runWith hinit hrun
  refine ⟨_, hrun, rfl, rfl, fun hzero => ?_⟩
  exact absurd ((thread_affinity hreach).1 0 0 1 rfl hzero) (by decide)

/-- A fiber scheduled for thread 1 yields `READY` once and is then executed by
worker 0.  The same happens to a callback scheduled for thread 1. -/
theorem thread_affinity_lost :
    (∃ q, (pinSystem 2 Unit).run unpinned (runPinned 1 ++ yieldReady 1 false ++ runElsewhere 0) =
        some q ∧
      q.pin 0 = .pinned 1 ∧ (q.workers.pc 0).executing = some 0) ∧
    ∃ q, (pinSystem 2 Unit).run unpinned ([.schedule (some (.cb (.user ()))) (some 1), .scan 1,
        .newCbFiber 1 (.user ()) (some 1), .swapIn 1 0 true] ++ yieldReady 1 true ++
          runElsewhere 0) = some q ∧
      q.pin 0 = .pinned 1 ∧ (q.workers.pc 0).executing = some 0 :=
  ⟨⟨_, rfl, rfl, rfl⟩, ⟨_, rfl, rfl, rfl⟩⟩

end Yuyu.Scheduler
