import Yuyu.Timer.Arming
import Mathlib.Data.Fintype.Basic

/-!
# Workers of an IO manager

`Scheduler::run` of `yuyu/scheduler.cc` with the fiber switches of `yuyu/fiber.cc` and
`IOManager::idle` of `yuyu/iomanager.cc`. Each action is one step that other threads can observe: a
critical section, or one access to a shared variable. A call of `tickle` made by other threads and
fibers is counted until it has read `m_idleThreadCount`, and then until it has written its byte.
-/

namespace Yuyu.Scheduler

open Foundation Timer Function

inductive FiberState where
  | init | hold | exec | term | ready | except
deriving DecidableEq

/-- The state that `run` leaves the idle fiber in. -/
def FiberState.settle (st : FiberState) : FiberState :=
  if st ≠ .term ∧ st ≠ .except then .hold else st

/-- What a task runs: an existing fiber, or a callback on a new one. -/
inductive Job (γ : Type) where
  | fiber (id : Nat)
  | cb (cb : Callback γ)
deriving DecidableEq

structure Task (γ : Type) where
  job : Job γ
  thread : Option Nat
deriving DecidableEq

/-- Where a worker stands in `run` and `idle`.  The flag `isCb` tells
`cb_fiber` from a fiber of the queue. -/
inductive Pc (γ : Type) where
  | scan
  /-- With `tickle_me` set, before `hasIdleThreads`. -/
  | tickleMe (ft : Option (Task γ))
  /-- Before the byte is written. -/
  | tickleWrite (ft : Option (Task γ))
  /-- Before the test of the task that the scan took. -/
  | dispatch (ft : Option (Task γ))
  | swapIn (f : Nat) (isCb : Bool)
  | running (f : Nat) (isCb : Bool)
  /-- The fiber has written its state and has not saved its context. -/
  | saving (f : Nat) (isCb : Bool)
  | returned (f : Nat) (isCb : Bool)
  /-- Before the fiber's state is looked at. -/
  | fixup (f : Nat) (isCb : Bool)
  /-- `READY` was read, before `schedule`. -/
  | requeue (f : Nat) (isCb : Bool)
  | hold (f : Nat) (isCb : Bool)
  /-- In `idle`, before `getNextTimer`. -/
  | idleTop
  /-- No timer was found at the clock value given. -/
  | idleEvents (clock : Nat)
  /-- No timer and no pending event was found. -/
  | idleQueue (clock : Nat)
  /-- Blocked in `epoll_wait`, without a deadline if the timeout is negative. -/
  | idleWait (deadline : Option Nat)
  | idleWoken
  /-- Before the expired callbacks are scheduled. -/
  | idleExpired (cbs : List (Option (Callback γ)))
  /-- In the loop over the entries of `epoll_wait`. -/
  | idleDispatch
  /-- Back in `run`, before `m_idleThreadCount` is decremented. -/
  | leaveIdle
  | exited
deriving DecidableEq

/-- Who calls `tickle` outside of the scan. -/
inductive Tickler where
  | schedule | timer | stop
deriving DecidableEq

/-- The shared data and the local state of `n` workers. -/
structure State (n : Nat) (γ : Type) where
  queue : List (Task γ)
  /-- `m_state` of each fiber created so far. -/
  fiber : Nat → FiberState
  nextFiber : Nat
  activeThreadCount : Nat
  idleThreadCount : Nat
  autoStop : Bool
  stopping : Bool
  /-- The waiters of `addEvent`, one for each pending event. -/
  waiting : List (Job γ)
  pipe : Nat
  /-- Calls of `tickle` that have not read the idle count. -/
  tickleCalls : Tickler → Nat
  /-- Calls of `tickle` that are about to write. -/
  tickleWrites : Tickler → Nat
  now : Nat
  timers : TimerManager γ
  pc : Fin n → Pc γ
  /-- `cb_fiber` of each worker. -/
  cbFiber : Fin n → Option Nat
  /-- `m_state` of each worker's `idle_fiber`. -/
  idleFiber : Fin n → FiberState

namespace State

variable {n : Nat} {γ : Type}

/-- `n` workers that have been started at the clock value `now`. -/
def initial (n : Nat) (γ : Type) (now : Nat) : State n γ where
  queue := []
  fiber _ := .init
  nextFiber := 0
  activeThreadCount := 0
  idleThreadCount := 0
  autoStop := false
  stopping := false
  waiting := []
  pipe := 0
  tickleCalls _ := 0
  tickleWrites _ := 0
  now := now
  timers := TimerManager.initial now
  pc _ := .scan
  cbFiber _ := none
  idleFiber _ := .init

def goto (s : State n γ) (w : Fin n) (p : Pc γ) : State n γ := { s with pc := update s.pc w p }

def setFiber (s : State n γ) (f : Nat) (st : FiberState) : State n γ :=
  { s with fiber := update s.fiber f st }

def setIdleFiber (s : State n γ) (w : Fin n) (st : FiberState) : State n γ :=
  { s with idleFiber := update s.idleFiber w st }

def setCbFiber (s : State n γ) (w : Fin n) (f : Option Nat) : State n γ :=
  { s with cbFiber := update s.cbFiber w f }

/-- A call of `tickle` begins if the flag is set. -/
def callTickle (s : State n γ) (t : Tickler) (needed : Bool) : State n γ :=
  { s with tickleCalls := update s.tickleCalls t (s.tickleCalls t + needed.toNat) }

/-! ## The queue -/

/-- The new queue and `need_tickle`.  An empty function or pointer is not pushed. -/
def scheduleNoLock (queue : List (Task γ)) (fc : Option (Job γ)) (thread : Option Nat) :
    List (Task γ) × Bool := (queue ++ (fc.map fun job => ⟨job, thread⟩).toList, queue.isEmpty)

def schedule (s : State n γ) (fc : Option (Job γ)) (thread : Option Nat) : State n γ :=
  let r := scheduleNoLock s.queue fc thread
  { s with queue := r.1 }.callTickle .schedule r.2

def scheduleRange (queue : List (Task γ)) (needTickle : Bool) :
    List (Option (Job γ)) → List (Task γ) × Bool
  | [] => (queue, needTickle)
  | fc :: rest =>
    let r := scheduleNoLock queue fc none
    scheduleRange r.1 (r.2 || needTickle) rest

def scheduleAll (s : State n γ) (fcs : List (Option (Job γ))) : State n γ :=
  let r := scheduleRange s.queue false fcs
  { s with queue := r.1 }.callTickle .schedule r.2

structure Scan (γ : Type) where
  ft : Option (Task γ)
  queue : List (Task γ)
  tickleMe : Bool

/-- The scan of the queue by the worker with thread id `thread`. -/
def scanQueue (fiber : Nat → FiberState) (thread : Nat) : List (Task γ) → Scan γ
  | [] => ⟨none, [], false⟩
  | it :: rest =>
    if it.thread ≠ none ∧ it.thread ≠ some thread then
      let r := scanQueue fiber thread rest
      ⟨r.ft, it :: r.queue, true⟩
    else
      match it.job with
      | .fiber f =>
        if fiber f = .exec then
          let r := scanQueue fiber thread rest
          ⟨r.ft, it :: r.queue, r.tickleMe⟩
        else ⟨some it, rest, !rest.isEmpty⟩
      | .cb _ => ⟨some it, rest, !rest.isEmpty⟩

def scanOf (s : State n γ) (w : Fin n) : Scan γ := scanQueue s.fiber w s.queue

def pollTimeout (nextTimeout : Nat) : Int :=
  if nextTimeout ≠ word64 - 1 then
    if toInt32 nextTimeout > 5000 then 5000 else toInt32 nextTimeout
  else 5000

/-- The worker after the call of `epoll_wait`: a timeout of zero returns at
once and a negative one sets no deadline. -/
def poll (clock nextTimeout : Nat) : Pc γ :=
  if pollTimeout nextTimeout = 0 then .idleWoken
  else if pollTimeout nextTimeout < 0 then .idleWait none
  else .idleWait (some (clock + (pollTimeout nextTimeout).toNat))

def schedulerStopping (s : State n γ) : Bool :=
  s.autoStop && s.stopping && s.queue.isEmpty && s.activeThreadCount == 0

end State

inductive Action (n : Nat) (γ : Type) where
  /-- The critical section at the top of the loop. -/
  | scan (w : Fin n)
  /-- `tickle` of the scan reads the idle count. -/
  | tickleMe (w : Fin n) (ft : Option (Task γ))
  /-- `tickle` of the scan writes its byte. -/
  | tickleWrite (w : Fin n) (ft : Option (Task γ))
  /-- The task is a fiber that can run. -/
  | resume (w : Fin n) (f : Nat) (thread : Option Nat)
  /-- The task is a fiber that has ended. -/
  | skip (w : Fin n) (f : Nat) (thread : Option Nat)
  /-- The task is a callback and there is no `cb_fiber`. -/
  | newCbFiber (w : Fin n) (cb : Callback γ) (thread : Option Nat)
  /-- The task is a callback and `cb_fiber` is reset to it. -/
  | resetCbFiber (w : Fin n) (cb : Callback γ) (thread : Option Nat) (f : Nat)
  /-- No task: the idle fiber is entered. -/
  | enterIdle (w : Fin n)
  /-- No task, and the idle fiber has ended. -/
  | exit (w : Fin n)
  | swapIn (w : Fin n) (f : Nat) (isCb : Bool)
  /-- The fiber writes its state, by `YieldToHold`, `YieldToReady` or at the
  end of `MainFunc`. -/
  | yield (w : Fin n) (f : Nat) (isCb : Bool) (st : FiberState)
  | swapOut (w : Fin n) (f : Nat) (isCb : Bool)
  /-- The active count is decremented. -/
  | returned (w : Fin n) (f : Nat) (isCb : Bool)
  /-- The worker reads `READY`. -/
  | fixupReady (w : Fin n) (f : Nat) (isCb : Bool)
  | requeue (w : Fin n) (f : Nat) (isCb : Bool)
  /-- The worker reads `TERM` or `EXCEPT`; a `cb_fiber` is reset. -/
  | fixupEnded (w : Fin n) (f : Nat) (isCb : Bool)
  /-- The worker reads another state. -/
  | fixupOther (w : Fin n) (f : Nat) (isCb : Bool)
  | setHold (w : Fin n) (f : Nat) (isCb : Bool)
  | getNextTimer (w : Fin n)
  /-- `stopping` reads the pending events. -/
  | checkEvents (w : Fin n) (clock : Nat)
  /-- `stopping` reads the queue. -/
  | checkQueue (w : Fin n) (clock : Nat)
  | wake (w : Fin n) (deadline : Option Nat)
  /-- `listExpiredCb`, which read the clock before it took the lock. -/
  | listExpiredCb (w : Fin n) (clock probe : Nat)
  | scheduleExpired (w : Fin n) (cbs : List (Option (Callback γ)))
  /-- The entry of the tickle pipe is handled. -/
  | drain (w : Fin n)
  | swapOutIdle (w : Fin n)
  | leaveIdle (w : Fin n)
  | schedule (fc : Option (Job γ)) (thread : Option Nat)
  /-- `tickle` reads the idle count. -/
  | tickle (t : Tickler)
  /-- `tickle` writes its byte. -/
  | tickleDone (t : Tickler)
  | addEvent (job : Job γ)
  /-- `triggerEvent`, by the loop over the entries or by a cancel. -/
  | trigger (i : Nat)
  | delEvent (i : Nat)
  | timer (op : Timer.Op γ)
  | tick (t : Nat)
  | newFiber
  /-- `Scheduler::stop` up to its calls of `tickle`. -/
  | stop
deriving DecidableEq

namespace Action

open State

variable {n : Nat} {γ : Type} [DecidableEq γ]

def JobExists (s : State n γ) : Job γ → Prop
  | .fiber f => f < s.nextFiber
  | .cb _ => True

instance (s : State n γ) (job : Job γ) : Decidable (JobExists s job) :=
  match job with
  | .fiber _ => inferInstanceAs (Decidable (_ < _))
  | .cb _ => inferInstanceAs (Decidable True)

omit [DecidableEq γ] in
def Enabled (s : State n γ) : Action n γ → Prop
  | .scan w => s.pc w = .scan
  | .tickleMe w ft => s.pc w = .tickleMe ft
  | .tickleWrite w ft => s.pc w = .tickleWrite ft
  | .resume w f thread =>
    s.pc w = .dispatch (some ⟨.fiber f, thread⟩) ∧ s.fiber f ≠ .term ∧ s.fiber f ≠ .except
  | .skip w f thread =>
    s.pc w = .dispatch (some ⟨.fiber f, thread⟩) ∧ (s.fiber f = .term ∨ s.fiber f = .except)
  | .newCbFiber w cb thread => s.pc w = .dispatch (some ⟨.cb cb, thread⟩) ∧ s.cbFiber w = none
  | .resetCbFiber w cb thread f =>
    s.pc w = .dispatch (some ⟨.cb cb, thread⟩) ∧ s.cbFiber w = some f ∧
      (s.fiber f = .init ∨ s.fiber f = .except ∨ s.fiber f = .term)
  | .enterIdle w => s.pc w = .dispatch none ∧ s.idleFiber w ≠ .term ∧ s.idleFiber w ≠ .exec
  | .exit w => s.pc w = .dispatch none ∧ s.idleFiber w = .term
  | .swapIn w f isCb => s.pc w = .swapIn f isCb ∧ s.fiber f ≠ .exec
  | .yield w f isCb st => s.pc w = .running f isCb ∧ st ≠ .exec ∧ st ≠ .init
  | .swapOut w f isCb => s.pc w = .saving f isCb
  | .returned w f isCb => s.pc w = .returned f isCb
  | .fixupReady w f isCb => s.pc w = .fixup f isCb ∧ s.fiber f = .ready
  | .requeue w f isCb => s.pc w = .requeue f isCb
  | .fixupEnded w f isCb => s.pc w = .fixup f isCb ∧ (s.fiber f = .term ∨ s.fiber f = .except)
  | .fixupOther w f isCb =>
    s.pc w = .fixup f isCb ∧ s.fiber f ≠ .ready ∧ s.fiber f ≠ .term ∧ s.fiber f ≠ .except
  | .setHold w f isCb => s.pc w = .hold f isCb
  | .getNextTimer w => s.pc w = .idleTop
  | .checkEvents w clock => s.pc w = .idleEvents clock
  | .checkQueue w clock => s.pc w = .idleQueue clock
  | .wake w deadline => s.pc w = .idleWait deadline
  | .listExpiredCb w _ probe => s.pc w = .idleWoken ∧ s.timers.live probe = false
  | .scheduleExpired w cbs => s.pc w = .idleExpired cbs
  | .drain w => s.pc w = .idleDispatch
  | .swapOutIdle w => s.pc w = .idleDispatch
  | .leaveIdle w => s.pc w = .leaveIdle
  | .schedule fc _ => ∀ job ∈ fc, JobExists s job
  | .tickle t => 0 < s.tickleCalls t
  | .tickleDone t => 0 < s.tickleWrites t
  | .addEvent job => JobExists s job
  | .trigger i | .delEvent i => i < s.waiting.length
  | .timer op => op.Allowed s.timers ∧ (op.call s.timers).isSome = true
  | .tick _ | .newFiber | .stop => True

instance (s : State n γ) (a : Action n γ) : Decidable (a.Enabled s) := by
  induction a using Action.casesOn <;> dsimp only [Enabled] <;> infer_instance

omit [DecidableEq γ] in
def next (s : State n γ) : Action n γ → State n γ
  | .scan w =>
    let r := s.scanOf w
    { s with
      queue := r.queue
      activeThreadCount := s.activeThreadCount + r.ft.isSome.toNat }.goto w
        (if r.tickleMe then .tickleMe r.ft else .dispatch r.ft)
  | .tickleMe w ft => s.goto w (if s.idleThreadCount > 0 then .tickleWrite ft else .dispatch ft)
  | .tickleWrite w ft => { s with pipe := s.pipe + 1 }.goto w (.dispatch ft)
  | .resume w f _ => s.goto w (.swapIn f false)
  | .skip w _ _ => { s with activeThreadCount := s.activeThreadCount - 1 }.goto w .scan
  | .newCbFiber w _ _ =>
    (({ s with nextFiber := s.nextFiber + 1 }.setFiber s.nextFiber .init).setCbFiber w
      (some s.nextFiber)).goto w (.swapIn s.nextFiber true)
  | .resetCbFiber w _ _ f => (s.setFiber f .init).goto w (.swapIn f true)
  | .enterIdle w =>
    ({ s with idleThreadCount := s.idleThreadCount + 1 }.setIdleFiber w .exec).goto w .idleTop
  | .exit w => s.goto w .exited
  | .swapIn w f isCb => (s.setFiber f .exec).goto w (.running f isCb)
  | .yield w f isCb st => (s.setFiber f st).goto w (.saving f isCb)
  | .swapOut w f isCb => s.goto w (.returned f isCb)
  | .returned w f isCb =>
    { s with activeThreadCount := s.activeThreadCount - 1 }.goto w (.fixup f isCb)
  | .fixupReady w f isCb => s.goto w (.requeue f isCb)
  | .requeue w f isCb =>
    ((s.schedule (some (.fiber f)) none).setCbFiber w
      (if isCb then none else s.cbFiber w)).goto w .scan
  | .fixupEnded w f isCb =>
    (s.setFiber f (if isCb then .init else s.fiber f)).goto w .scan
  | .fixupOther w f isCb => s.goto w (.hold f isCb)
  | .setHold w f isCb =>
    ((s.setFiber f .hold).setCbFiber w (if isCb then none else s.cbFiber w)).goto w .scan
  | .getNextTimer w =>
    let r := s.timers.getNextTimer s.now
    { s with timers := r.1 }.goto w
      (if r.2 = word64 - 1 then .idleEvents s.now else poll s.now r.2)
  | .checkEvents w clock =>
    s.goto w (if s.waiting.isEmpty then .idleQueue clock else poll clock (word64 - 1))
  | .checkQueue w clock =>
    (s.setIdleFiber w (if s.schedulerStopping then .term else s.idleFiber w)).goto w
      (if s.schedulerStopping then .leaveIdle else poll clock (word64 - 1))
  | .wake w _ => s.goto w .idleWoken
  | .listExpiredCb w clock probe =>
    let r := s.timers.listExpiredCb clock probe
    { s with timers := r.1 }.goto w (.idleExpired r.2)
  | .scheduleExpired w cbs => (s.scheduleAll (cbs.map (Option.map Job.cb))).goto w .idleDispatch
  | .drain _ => { s with pipe := 0 }
  | .swapOutIdle w => s.goto w .leaveIdle
  | .leaveIdle w =>
    ({ s with idleThreadCount := s.idleThreadCount - 1 }.setIdleFiber w
      (s.idleFiber w).settle).goto w .scan
  | .schedule fc thread => s.schedule fc thread
  | .tickle t =>
    { s with
      tickleCalls := update s.tickleCalls t (s.tickleCalls t - 1)
      tickleWrites := update s.tickleWrites t
        (s.tickleWrites t + (decide (s.idleThreadCount > 0)).toNat) }
  | .tickleDone t =>
    { s with
      pipe := s.pipe + 1
      tickleWrites := update s.tickleWrites t (s.tickleWrites t - 1) }
  | .addEvent job => { s with waiting := s.waiting ++ [job] }
  | .trigger i => { s with waiting := s.waiting.eraseIdx i }.schedule s.waiting[i]? none
  | .delEvent i => { s with waiting := s.waiting.eraseIdx i }
  | .timer op =>
    let r := (op.call s.timers).getD (s.timers, false)
    { s with timers := r.1 }.callTickle .timer r.2
  | .tick t => { s with now := t }
  | .newFiber => { s with nextFiber := s.nextFiber + 1 }.setFiber s.nextFiber .init
  | .stop =>
    { s with
      autoStop := true
      stopping := true
      tickleCalls := update s.tickleCalls .stop (s.tickleCalls .stop + n) }

end Action

def workerSystem (n : Nat) (γ : Type) [DecidableEq γ] :
    TransitionSystem (State n γ) (Action n γ) where
  init s := ∃ now, s = State.initial n γ now
  step s a := if a.Enabled s then some (a.next s) else none

lemma workerSystem_step {n : Nat} {γ : Type} [DecidableEq γ] {s s' : State n γ}
    {a : Action n γ} (h : (workerSystem n γ).step s a = some s') : a.Enabled s ∧ s' = a.next s := by
  simp only [workerSystem] at h
  split at h
  · exact ⟨‹_›, (Option.some.inj h).symm⟩
  · contradiction

end Yuyu.Scheduler
