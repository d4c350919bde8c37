import Yuyu.Foundation.TransitionSystem
import Yuyu.Hook.Descriptors
import Yuyu.IOManager.Events

/-!
# Fibers inside hooked system calls

The calls of `yuyu/hook.cc` that go through `do_io`, `connect_with_timeout`, `socket`, `accept` and
`close`, made by any number of fibers on the workers of one IO manager. A step is one access to
shared data. The kernel's answers and the expiries of timers are not determined. A timer's callback
runs in three steps. A fiber that has yielded runs again after its registration was handed to the
scheduler. Ghost data of a call are the file description of its descriptor and whether `cancelAll`
has woken it.
-/

namespace Yuyu.Hook

open Foundation Function
open IOManager (Event Events Handoff)

/-- The functions that go through `do_io`. -/
inductive IoFun where
  | accept
  | read
  | readv
  | recv
  | recvfrom
  | recvmsg
  | write
  | writev
  | send
  | sendto
  | sendmsg
deriving DecidableEq

namespace IoFun

def event : IoFun → Event
  | .accept | .read | .readv | .recv | .recvfrom | .recvmsg => .read
  | .write | .writev | .send | .sendto | .sendmsg => .write

/-- The argument `timeout_so` of `do_io`: also the writing functions pass
`SO_RCVTIMEO`. -/
def timeoutSo : IoFun → TimeoutSo
  | _ => .rcv

end IoFun

inductive Call where
  | io (fn : IoFun)
  | connect (timeoutMs : Nat)
deriving DecidableEq

def Call.event : Call → Event
  | .io fn => fn.event
  | .connect _ => .write

def Call.timeout (ctx : FdCtx) : Call → Nat
  | .io fn => ctx.getTimeout fn.timeoutSo
  | .connect timeoutMs => timeoutMs

/-- The values of `errno` that the code names, and the others. -/
inductive Errno where
  | eagain
  | eintr
  | einprogress
  | ebadf
  | etimedout
  | other (code : Nat)
deriving DecidableEq

inductive Result where
  | ok (n : Int)
  | error (e : Errno)
deriving DecidableEq

/-- The local data of a call.  `info` identifies its `timer_info`, and
`cancelled` is the member of it. -/
structure Frame where
  call : Call
  fd : Int
  info : Nat
  owner : Option Nat
  timeout : Nat := noTimeout
  cancelled : Bool := false
  closed : Bool := false
deriving DecidableEq

inductive Pc where
  | idle
  | get (fr : Frame)
  | inspect (fr : Frame) (ctx : Nat)
  | direct (fr : Frame)
  | apply (fr : Frame)
  | arm (fr : Frame)
  | register (fr : Frame) (timer : Option Nat)
  | failed (fr : Frame) (timer : Option Nat)
  | yield (fr : Frame) (timer : Option Nat) (waiter : Nat)
  | suspended (fr : Frame) (timer : Option Nat) (waiter : Nat)
  | resumed (fr : Frame) (timer : Option Nat)
  | check (fr : Frame)
  | sockopt (fr : Frame)
  | returned (fr : Frame) (r : Result)
  | track (fd : Int)
  | create (fd : Int)
  | closeGet (fd : Int)
  | closeCancel (fd : Int)
  | closeDel (fd : Int)
  | closeFd (fd : Int)
deriving DecidableEq

namespace Pc

def isFree : Pc → Bool
  | .idle | .returned .. => true
  | _ => false

def frame : Pc → Option Frame
  | .get fr | .inspect fr _ | .direct fr | .apply fr | .arm fr | .register fr _ | .failed fr _
  | .yield fr .. | .suspended fr .. | .resumed fr _ | .check fr | .sockopt fr => some fr
  | .idle | .returned .. | .track _ | .create _ | .closeGet _ | .closeCancel _ | .closeDel _
  | .closeFd _ => none

def mapFrame (g : Frame → Frame) : Pc → Pc
  | .get fr => .get (g fr)
  | .inspect fr ctx => .inspect (g fr) ctx
  | .direct fr => .direct (g fr)
  | .apply fr => .apply (g fr)
  | .arm fr => .arm (g fr)
  | .register fr timer => .register (g fr) timer
  | .failed fr timer => .failed (g fr) timer
  | .yield fr timer waiter => .yield (g fr) timer waiter
  | .suspended fr timer waiter => .suspended (g fr) timer waiter
  | .resumed fr timer => .resumed (g fr) timer
  | .check fr => .check (g fr)
  | .sockopt fr => .sockopt (g fr)
  | p => p

end Pc

/-- The state of a timer armed by `addConditionTimer`. -/
inductive Phase where
  | pending
  | cancelled
  | expired
  | marking
  | cancelling
  | done
deriving DecidableEq

structure Timer (n : Nat) where
  fiber : Fin n
  info : Nat
  fd : Int
  event : Event
  phase : Phase
deriving DecidableEq

variable {n : Nat}

/-- The IO manager, the kernel, the table of contexts, the timers armed so far
and the fibers. -/
structure State (n : Nat) where
  io : IOManager.State
  kernel : Kernel
  fds : FdManager
  timers : List (Timer n)
  nextInfo : Nat
  pc : Fin n → Pc

/-- The registration with number `w` was handed to the scheduler. -/
def Woken (handed : List Handoff) (w : Nat) : Prop := w ∈ handed.map Handoff.waiter
deriving Decidable

def Frame.mark (info : Nat) (fr : Frame) : Frame :=
  if fr.info = info then { fr with cancelled := true } else fr

@[simp] lemma Frame.mark_closed (info : Nat) (fr : Frame) : (fr.mark info).closed = fr.closed := by
  unfold Frame.mark
  split <;> rfl

/-- The data of a call on the descriptor `fd` when `cancelAll` hands its
registration over. -/
def Frame.wake (fd : Int) (before after : List Handoff) (w : Nat) (fr : Frame) : Frame :=
  if fr.fd = fd ∧ Woken after w ∧ ¬ Woken before w then { fr with closed := true } else fr

/-- Mark the calls on a descriptor that `cancelAll` wakes up. -/
def Pc.wake (fd : Int) (before after : List Handoff) : Pc → Pc
  | .yield fr timer w => .yield (fr.wake fd before after w) timer w
  | .suspended fr timer w => .suspended (fr.wake fd before after w) timer w
  | p => p

namespace State

def initial (tickleFd : Int) : State n where
  io := .initial tickleFd
  kernel := .initial
  fds := .initial
  timers := []
  nextInfo := 0
  pc _ := .idle

def move (s : State n) (f : Fin n) (p : Pc) : State n := { s with pc := update s.pc f p }

@[simp] lemma move_pc_self (s : State n) (f : Fin n) (p : Pc) : (s.move f p).pc f = p :=
  update_self ..

def isFree (s : State n) (fd : Int) : Prop := 0 ≤ fd ∧ fd ≠ s.io.tickleFd ∧ s.kernel.file fd = none
deriving Decidable

def canAnswer (s : State n) (fd : Int) (r : Result) : Prop :=
  s.kernel.file fd = none → r = .error .ebadf
deriving Decidable

def install (s : State n) (fd : Int) (socket : Bool) : State n :=
  { s with kernel := s.kernel.install fd socket }

def finish (s : State n) (f : Fin n) (fr : Frame) (r : Result) : Option (State n) :=
  match fr.call, r with
  | .io .accept, .ok fd =>
    if s.isFree fd then some ((s.install fd true).move f (.track fd)) else none
  | _, _ => some (s.move f (.returned fr r))

/-- `timer->cancel()`: it takes a timer out of the set if it is still there. -/
def cancelTimer (s : State n) : Option Nat → State n
  | none => s
  | some t =>
    match s.timers[t]? with
    | some timer =>
      if timer.phase = .pending then
        { s with timers := s.timers.set t { timer with phase := .cancelled } }
      else s
    | none => s

@[simp] lemma cancelTimer_pc (s : State n) (t : Option Nat) : (s.cancelTimer t).pc = s.pc := by
  unfold cancelTimer
  grind

@[simp] lemma cancelTimer_kernel (s : State n) (t : Option Nat) :
    (s.cancelTimer t).kernel = s.kernel := by
  unfold cancelTimer
  grind

lemma cancelTimer_move_pc (s : State n) (t : Option Nat) (f : Fin n) (p : Pc) :
    ((s.cancelTimer t).move f p).pc = update s.pc f p := by
  rw [move, cancelTimer_pc]

/-- The condition of the timer and the test in its callback: the call is still
there and not cancelled. -/
def mustCancel (s : State n) (timer : Timer n) : Prop :=
  ∃ fr ∈ (s.pc timer.fiber).frame, fr.info = timer.info ∧ fr.cancelled = false
deriving Decidable

def mark (s : State n) (timer : Timer n) : State n :=
  s.move timer.fiber ((s.pc timer.fiber).mapFrame (Frame.mark timer.info))

def setPhase (s : State n) (t : Nat) (timer : Timer n) (phase : Phase) : State n :=
  { s with timers := s.timers.set t { timer with phase := phase } }

end State

/-! ## Steps -/

/-- The thread that runs a fiber, as `addEvent` sees it. -/
def callerOf (f : Nat) : IOManager.State.Caller where
  scheduler := some 0
  fiber := f
  executing := true

namespace State

def getCtx (s : State n) (f : Fin n) (fr : Frame) : Option (State n) :=
  match s.fds.get fr.fd with
  | none => none
  | some (some p) => some (s.move f (.inspect fr p))
  | some none =>
    match fr.call with
    | .io _ => some (s.move f (.direct fr))
    | .connect _ => some (s.move f (.returned fr (.error .ebadf)))

/-- The tests on the context, up to the label `retry`. -/
def inspectCtx (s : State n) (f : Fin n) (fr : Frame) (ctx : FdCtx) : State n :=
  if ctx.isClosed then s.move f (.returned fr (.error .ebadf))
  else if !ctx.isSocket || ctx.userNonblock then s.move f (.direct fr)
  else s.move f (.apply { fr with timeout := fr.call.timeout ctx })

/-- The function is applied to the descriptor from the label `retry`. -/
def applyFun (s : State n) (f : Fin n) (fr : Frame) (r : Result) : Option (State n) :=
  match fr.call, r with
  | .io _, .error .eintr => some s
  | .io _, .error .eagain | .connect _, .error .einprogress => some (s.move f (.arm fr))
  | _, _ => s.finish f fr r

def armTimer (s : State n) (f : Fin n) (fr : Frame) : State n :=
  if fr.timeout = noTimeout then s.move f (.register fr none)
  else
    let timer : Timer n := ⟨f, fr.info, fr.fd, fr.call.event, .pending⟩
    { s with timers := s.timers ++ [timer] }.move f (.register fr (some s.timers.length))

def addEvent (s : State n) (f : Fin n) (fr : Frame) (timer : Option Nat) (fails : Bool) :
    Option (State n) :=
  if s.kernel.file fr.fd = none ∧ fails = false then none
  else
    match s.io.addEvent fr.fd fr.call.event none (callerOf f) fails with
    | .error _ => none
    | .ok (io, rt) =>
      if rt = 0 then some ({ s with io := io }.move f (.yield fr timer s.io.issued.length))
      else some ({ s with io := io }.move f (.failed fr timer))

/-- After a failed `addEvent`, `connect_with_timeout` goes on to read the
error of the socket. -/
def addFailed (s : State n) (f : Fin n) (fr : Frame) (timer : Option Nat) (r : Result) :
    Option (State n) :=
  match fr.call, r with
  | .io _, .error e => some ((s.cancelTimer timer).move f (.returned fr (.error e)))
  | .io _, .ok _ => none
  | .connect _, _ => some ((s.cancelTimer timer).move f (.sockopt fr))

def testCancelled (s : State n) (f : Fin n) (fr : Frame) : State n :=
  if fr.cancelled then s.move f (.returned fr (.error .etimedout))
  else
    match fr.call with
    | .io _ => s.move f (.apply fr)
    | .connect _ => s.move f (.sockopt fr)

def trackFd (s : State n) (f : Fin n) (fd : Int) : Option (State n) :=
  match s.fds.get fd with
  | none => none
  | some (some _) => some (s.move f .idle)
  | some none => some (s.move f (.create fd))

def createCtx (s : State n) (f : Fin n) (fd : Int) : Option (State n) :=
  let r := FdCtx.new s.kernel fd
  (s.fds.create fd r.2).map fun fds => { s with kernel := r.1, fds := fds }.move f .idle

def closeGet (s : State n) (f : Fin n) (fd : Int) : Option (State n) :=
  match s.fds.get fd with
  | none => none
  | some (some _) => some (s.move f (.closeCancel fd))
  | some none => some (s.move f (.closeFd fd))

def cancelAll (s : State n) (f : Fin n) (fd : Int) (fails : Bool) : Option (State n) :=
  match s.io.cancelAll fd fails with
  | .error _ => none
  | .ok (io, _) =>
    let pc g := (s.pc g).wake fd s.io.handed io.handed
    some ({ s with io := io, pc := pc }.move f (.closeDel fd))

lemma cancelAll_spec {s s' : State n} {f : Fin n} {fd : Int} {fails : Bool}
    (h : s.cancelAll f fd fails = some s') :
    ∃ io r, s.io.cancelAll fd fails = .ok (io, r) ∧ s' = State.move { s with
        io := io
        pc := fun g => (s.pc g).wake fd s.io.handed io.handed } f (.closeDel fd) := by
  unfold State.cancelAll at h
  split at h
  · contradiction
  rename_i io r hr
  cases h
  exact ⟨io, r, hr, rfl⟩

def closeDel (s : State n) (f : Fin n) (fd : Int) : Option (State n) :=
  (s.fds.del fd).map fun fds => { s with fds := fds }.move f (.closeFd fd)

/-- `close_f`: the kernel also drops its interest in the descriptor. -/
def closeFile (s : State n) (f : Fin n) (fd : Int) : State n :=
  if s.kernel.file fd = none then s.move f .idle
  else
    let io := s.io.setKernel (update s.io.kernel fd none)
    { s with kernel := s.kernel.close fd, io := io }.move f .idle

/-- The next step of a fiber, with the result of the system call it makes and the
outcome of the `epoll_ctl` it makes. -/
def runFiber (s : State n) (f : Fin n) (r : Result) (fails : Bool) : Option (State n) :=
  match s.pc f with
  | .idle | .returned .. => none
  | .get fr => s.getCtx f fr
  | .inspect fr p => some (s.inspectCtx f fr (s.fds.ctx p))
  | .direct fr => if s.canAnswer fr.fd r then s.finish f fr r else none
  | .apply fr => if s.canAnswer fr.fd r then s.applyFun f fr r else none
  | .arm fr => some (s.armTimer f fr)
  | .register fr timer => s.addEvent f fr timer fails
  | .failed fr timer => s.addFailed f fr timer r
  | .yield fr timer w => some (s.move f (.suspended fr timer w))
  | .suspended fr timer w =>
    if Woken s.io.handed w then some (s.move f (.resumed fr timer)) else none
  | .resumed fr timer => some ((s.cancelTimer timer).move f (.check fr))
  | .check fr => some (s.testCancelled f fr)
  | .sockopt fr => if s.canAnswer fr.fd r then some (s.move f (.returned fr r)) else none
  | .track fd => s.trackFd f fd
  | .create fd => s.createCtx f fd
  | .closeGet fd => s.closeGet f fd
  | .closeCancel fd => s.cancelAll f fd fails
  | .closeDel fd => s.closeDel f fd
  | .closeFd fd => some (s.closeFile f fd)

/-- The next step of a timer: `listExpiredCb` takes it out of the set, and then
its callback runs. -/
def runTimer (s : State n) (t : Nat) (timer : Timer n) (fails : Bool) : Option (State n) :=
  match timer.phase with
  | .pending => some (s.setPhase t timer .expired)
  | .expired => some (s.setPhase t timer (if s.mustCancel timer then .marking else .done))
  | .marking => some ((s.setPhase t timer .cancelling).mark timer)
  | .cancelling =>
    match s.io.cancelEvent timer.fd timer.event fails with
    | .error _ => none
    | .ok (io, _) => some { s.setPhase t timer .done with io := io }
  | .cancelled | .done => none

/-- The handling of an entry of `epoll_wait` for a context by `idle`. -/
def dispatch (s : State n) (i : Nat) (events : Events) (err hup fails : Bool) : Option (State n) :=
  if i < s.io.size then
    match s.io.dispatch ⟨.ptr (s.io.slot i), events, err, hup⟩ fails with
    | .error _ => none
    | .ok io => some { s with io := io }
  else none

end State

/-- The steps of the system: those of fibers, of timers, of a worker that handles an entry of
`epoll_wait`, and of the calls that write to a context. -/
inductive Action (n : Nat) where
  | call (f : Fin n) (c : Call) (fd : Int) (hookEnable : Bool)
  | socket (f : Fin n) (fd : Int)
  | close (f : Fin n) (fd : Int) (hookEnable : Bool)
  | run (f : Fin n) (r : Result) (fails : Bool)
  | timer (t : Nat) (fails : Bool)
  | dispatch (i : Nat) (events : Events) (err hup fails : Bool)
  | setTimeout (ctx : Nat) (so : TimeoutSo) (v : Nat)
  | setUserNonblock (ctx : Nat) (v : Bool)
  | openFile (fd : Int) (socket : Bool)
deriving DecidableEq

/-- One step; `none` when it is not enabled or aborts. -/
def Action.step (s : State n) : Action n → Option (State n)
  | .call f c fd hookEnable =>
    if (s.pc f).isFree then
      let fr : Frame := { call := c, fd := fd, info := s.nextInfo, owner := s.kernel.owner fd }
      some ({ s with nextInfo := s.nextInfo + 1 }.move f
        (if hookEnable then .get fr else .direct fr))
    else none
  | .socket f fd =>
    if (s.pc f).isFree ∧ s.isFree fd then some ((s.install fd true).move f (.track fd))
    else none
  | .close f fd hookEnable =>
    if (s.pc f).isFree then some (s.move f (if hookEnable then .closeGet fd else .closeFd fd))
    else none
  | .run f r fails => s.runFiber f r fails
  | .timer t fails =>
    match s.timers[t]? with
    | none => none
    | some armed => s.runTimer t armed fails
  | .dispatch i events err hup fails => s.dispatch i events err hup fails
  | .setTimeout p so v =>
    if p < s.fds.nextCtx ∧ v < word64 then
      some { s with fds := s.fds.modify p fun ctx => ctx.setTimeout v so }
    else none
  | .setUserNonblock p v =>
    if p < s.fds.nextCtx then
      some { s with fds := s.fds.modify p fun ctx => { ctx with userNonblock := v } }
    else none
  | .openFile fd isSocket => if s.isFree fd then some (s.install fd isSocket) else none

def hookSystem (n : Nat) : TransitionSystem (State n) (Action n) where
  init s := ∃ tickleFd, s = State.initial tickleFd
  step s a := a.step s

def go (f : Fin n) (r : Result) : Action n := .run f r false

def openSocket (f : Fin n) (fd : Int) : List (Action n) :=
  [.socket f fd, go f (.ok 0), go f (.ok 0)]

end Yuyu.Hook
