import Yuyu.Foundation.MachineInt

/-!
# Event registration in the IO manager

The table of contexts of `yuyu/iomanager.cc`, the operations that add, delete and cancel events, and
the handling of one `epoll` entry by `idle`, each as one step under the mutex of the context.
Contexts are objects at addresses. `epoll_ctl` fails when its operation does not fit the interest
set, and may fail for any other reason. Each successful `addEvent` gets a number, as ghost data.
-/

namespace Yuyu.IOManager

open Foundation Function

inductive Event where
  | read
  | write
deriving DecidableEq

structure Events where
  read : Bool := false
  write : Bool := false
deriving DecidableEq

namespace Events

def has (s : Events) : Event → Bool
  | .read => s.read
  | .write => s.write

def add (s : Events) : Event → Events
  | .read => { s with read := true }
  | .write => { s with write := true }

def remove (s : Events) : Event → Events
  | .read => { s with read := false }
  | .write => { s with write := false }

def inter (s t : Events) : Events := ⟨s.read && t.read, s.write && t.write⟩

def diff (s t : Events) : Events := ⟨s.read && !t.read, s.write && !t.write⟩

def union (s t : Events) : Events := ⟨s.read || t.read, s.write || t.write⟩

def isEmpty (s : Events) : Bool := !s.read && !s.write

end Events

inductive Job where
  | fiber (id : Nat)
  | cb (id : Nat)
deriving DecidableEq

/-- `FdContext::EventContext`.  `waiter` is the ghost number of the
registration that filled it. -/
structure EventContext where
  scheduler : Option Nat := none
  fiber : Option Nat := none
  cb : Option Nat := none
  waiter : Nat := 0
deriving DecidableEq

structure FdContext where
  fd : Int
  events : Events := {}
  read : EventContext := {}
  write : EventContext := {}
deriving DecidableEq

/-- What the data word of an `epoll` event identifies. -/
inductive Data where
  | tickle
  | ptr (p : Nat)
deriving DecidableEq

structure Interest where
  events : Events
  data : Data
deriving DecidableEq

structure Handoff where
  scheduler : Nat
  job : Job
  waiter : Nat
deriving DecidableEq

structure Registration where
  fd : Int
  event : Event
  scheduler : Option Nat
  job : Job
deriving DecidableEq

/-- How an operation can abort: a failed `YUYU_ASSERT`, a call through a
null scheduler, or an index outside the table. -/
inductive Fault where
  | assertion
  | nullScheduler
  | outOfBounds
deriving DecidableEq

/-- The state of an `IOManager`; `handed`, `issued` and `deleted` are logs of the calls of
`schedule`, of the registrations and of those removed by `delEvent`. -/
structure State where
  size : Nat
  slot : Nat → Nat
  object : Nat → FdContext
  nextPtr : Nat
  tickleFd : Int
  kernel : Int → Option Interest
  pendingEventCount : Nat
  issued : List Registration
  handed : List Handoff
  deleted : List Nat

namespace FdContext

def getContext (c : FdContext) : Event → EventContext
  | .read => c.read
  | .write => c.write

/-- Write through the reference `getContext` returns. -/
def setContext (c : FdContext) (ctx : EventContext) : Event → FdContext
  | .read => { c with read := ctx }
  | .write => { c with write := ctx }

def resetContext (c : FdContext) (event : Event) : FdContext :=
  c.setContext { c.getContext event with scheduler := none, fiber := none, cb := none } event

/-- The pointer form of `schedule` empties the member it is given, and ignores an empty one. -/
def triggerEvent (c : FdContext) (event : Event) : Except Fault (FdContext × List Handoff) :=
  if !c.events.has event then .error .assertion
  else
    let c := { c with events := c.events.remove event }
    let ctx := c.getContext event
    match ctx.scheduler with
    | none => .error .nullScheduler
    | some scheduler =>
      match ctx.cb with
      | some f =>
        .ok (c.setContext { ctx with scheduler := none, cb := none } event,
          [⟨scheduler, .cb f, ctx.waiter⟩])
      | none =>
        .ok (c.setContext { ctx with scheduler := none, fiber := none } event,
          match ctx.fiber with
          | some f => [⟨scheduler, .fiber f, ctx.waiter⟩]
          | none => [])

end FdContext

inductive CtlOp where
  | add
  | mod
  | del
deriving DecidableEq

def CtlOp.extend (events : Events) : CtlOp := if events.isEmpty then .add else .mod

def CtlOp.reduce (newEvents : Events) : CtlOp := if newEvents.isEmpty then .del else .mod

/-- The interest set after a successful call. -/
def epollCtl (kernel : Int → Option Interest) (op : CtlOp) (fd : Int) (events : Events)
    (data : Data) (fails : Bool) : Option (Int → Option Interest) :=
  if fails then none
  else
    match op, kernel fd with
    | .add, none => some (update kernel fd (some ⟨events, data⟩))
    | .mod, some _ => some (update kernel fd (some ⟨events, data⟩))
    | .del, some _ => some (update kernel fd none)
    | _, _ => none

namespace State

def contextResize (s : State) (size : Nat) : State :=
  let kept := min s.size size
  { s with
    size := size
    slot := fun i => if i < kept then s.slot i else s.nextPtr + i
    object := fun p =>
      if s.nextPtr + kept ≤ p ∧ p < s.nextPtr + size then { fd := toInt32 (p - s.nextPtr) }
      else s.object p
    nextPtr := s.nextPtr + size }

def initial (tickleFd : Int) : State :=
  contextResize
    { size := 0
      slot := fun _ => 0
      object := fun _ => { fd := 0 }
      nextPtr := 0
      tickleFd := tickleFd
      kernel := update (fun _ => none) tickleFd (some ⟨{ read := true }, .tickle⟩)
      pendingEventCount := 0
      issued := []
      handed := []
      deleted := [] } 32

def contextAt (s : State) (fd : Int) : Except Fault Nat :=
  if 0 ≤ fd ∧ fd < s.size then .ok (s.slot fd.toNat) else .error .outOfBounds

/-- The context `addEvent` works on, after growing the table to
`fd * 1.5` entries when it is too small. -/
def growTo (s : State) (fd : Int) : Except Fault (State × Nat) :=
  if toInt32 s.size > fd then (s.contextAt fd).map fun p => (s, p)
  else if fd < 0 then .error .outOfBounds
  else
    let s := s.contextResize (3 * fd.toNat / 2)
    (s.contextAt fd).map fun p => (s, p)

def lookup (s : State) (fd : Int) : Except Fault (Option Nat) :=
  if toInt32 s.size ≤ fd then .ok none
  else (s.contextAt fd).map some

/-- The common start of `delEvent`, `cancelEvent` and `cancelAll`:
they return false when the table is too small, and else lock the context. -/
def onContext (s : State) (fd : Int) (locked : Nat → Except Fault (State × Bool)) :
    Except Fault (State × Bool) := do
  match ← s.lookup fd with
  | none => return (s, false)
  | some p => locked p

def setObject (s : State) (p : Nat) (c : FdContext) : State :=
  { s with object := update s.object p c }

/-- The state after a successful `epoll_ctl`. -/
def setKernel (s : State) (kernel : Int → Option Interest) : State := { s with kernel := kernel }

/-! ## The operations -/

/-- The thread that calls `addEvent`: its `Scheduler::GetThis()`, its
`Fiber::GetThis()`, and whether that fiber's state is `EXEC`. -/
structure Caller where
  scheduler : Option Nat
  fiber : Nat
  executing : Bool
deriving DecidableEq

/-- `addEvent` under the mutex of the context. -/
def addLocked (s : State) (p : Nat) (fd : Int) (event : Event) (cb : Option Nat)
    (caller : Caller) (fails : Bool) : Except Fault (State × Int) :=
  let c := s.object p
  if c.events.has event then .error .assertion
  else
    match epollCtl s.kernel (.extend c.events) fd (c.events.add event) (.ptr p) fails with
    | none => .ok (s, -1)
    | some kernel =>
      let ctx := c.getContext event
      if ctx.scheduler.isSome || ctx.fiber.isSome || ctx.cb.isSome then .error .assertion
      else
        let job := match cb with
          | some f => .cb f
          | none => .fiber caller.fiber
        if cb.isNone && !caller.executing then .error .assertion
        else
          let ctx : EventContext :=
            { scheduler := caller.scheduler
              fiber := if cb.isSome then none else some caller.fiber
              cb := cb
              waiter := s.issued.length }
          .ok ({ s with
            object := update s.object p
              ({ c with events := c.events.add event }.setContext ctx event)
            kernel := kernel
            pendingEventCount := add64 s.pendingEventCount 1
            issued := s.issued ++ [⟨fd, event, caller.scheduler, job⟩] }, 0)

def addEvent (s : State) (fd : Int) (event : Event) (cb : Option Nat) (caller : Caller)
    (fails : Bool) : Except Fault (State × Int) := do
  let r ← s.growTo fd
  r.1.addLocked r.2 fd event cb caller fails

def trigger (s : State) (p : Nat) (event : Event) : Except Fault State := do
  let r ← (s.object p).triggerEvent event
  return { s.setObject p r.1 with
    handed := s.handed ++ r.2
    pendingEventCount := sub64 s.pendingEventCount 1 }

/-- `delEvent` under the mutex of the context. -/
def delLocked (s : State) (p : Nat) (fd : Int) (event : Event) (fails : Bool) :
    Except Fault (State × Bool) :=
  let c := s.object p
  if !c.events.has event then .ok (s, false)
  else
    let newEvents := c.events.remove event
    match epollCtl s.kernel (.reduce newEvents) fd newEvents (.ptr p) fails with
    | none => .ok (s, false)
    | some kernel =>
      .ok ({ s with
        object := update s.object p
          ({ c with events := newEvents }.resetContext event)
        kernel := kernel
        pendingEventCount := sub64 s.pendingEventCount 1
        deleted := s.deleted ++ [(c.getContext event).waiter] }, true)

def delEvent (s : State) (fd : Int) (event : Event) (fails : Bool) :
    Except Fault (State × Bool) := s.onContext fd fun p => s.delLocked p fd event fails

/-- `cancelEvent` under the mutex of the context. -/
def cancelLocked (s : State) (p : Nat) (fd : Int) (event : Event) (fails : Bool) :
    Except Fault (State × Bool) :=
  let c := s.object p
  if !c.events.has event then .ok (s, false)
  else
    let newEvents := c.events.remove event
    match epollCtl s.kernel (.reduce newEvents) fd newEvents (.ptr p) fails with
    | none => .ok (s, false)
    | some kernel => do
        let s ← (s.setKernel kernel).trigger p event
        return (s, true)

def cancelEvent (s : State) (fd : Int) (event : Event) (fails : Bool) :
    Except Fault (State × Bool) := s.onContext fd fun p => s.cancelLocked p fd event fails

def triggerIf (s : State) (p : Nat) (event : Event) (cond : Bool) : Except Fault State :=
  if cond then s.trigger p event else .ok s

/-- `cancelAll` under the mutex of the context. -/
def cancelAllLocked (s : State) (p : Nat) (fd : Int) (fails : Bool) :
    Except Fault (State × Bool) :=
  if (s.object p).events.isEmpty then .ok (s, false)
  else
    match epollCtl s.kernel .del fd {} (.ptr p) fails with
    | none => .ok (s, false)
    | some kernel => do
        let s := s.setKernel kernel
        let s ← s.triggerIf p .read ((s.object p).events.has .read)
        let s ← s.triggerIf p .write ((s.object p).events.has .write)
        if (s.object p).events.isEmpty then return (s, true) else throw .assertion

def cancelAll (s : State) (fd : Int) (fails : Bool) : Except Fault (State × Bool) :=
  s.onContext fd fun p => s.cancelAllLocked p fd fails

/-- One entry of the array `epoll_wait` fills. -/
structure Entry where
  data : Data
  events : Events
  err : Bool := false
  hup : Bool := false
deriving DecidableEq

/-- The events that `idle` takes an entry for. -/
def realEvents (entry : Entry) (c : FdContext) : Events :=
  if entry.err || entry.hup then entry.events.union c.events else entry.events

/-- The handling of one entry by `idle`, under the mutex of its context. -/
def dispatchLocked (s : State) (p : Nat) (entry : Entry) (fails : Bool) : Except Fault State :=
  let c := s.object p
  let realEvents := realEvents entry c
  if (c.events.inter realEvents).isEmpty then .ok s
  else
    let leftEvents := c.events.diff realEvents
    match epollCtl s.kernel (.reduce leftEvents) c.fd leftEvents (.ptr p) fails with
    | none => .ok s
    | some kernel => do
        let s ← (s.setKernel kernel).triggerIf p .read realEvents.read
        s.triggerIf p .write realEvents.write

/-- The handling of one entry by `idle`; an entry of the pipe only drains it. -/
def dispatch (s : State) (entry : Entry) (fails : Bool) : Except Fault State :=
  match entry.data with
  | .tickle => .ok s
  | .ptr p => s.dispatchLocked p entry fails

end State
end Yuyu.IOManager
