import Yuyu.Foundation.MachineInt
import Yuyu.Foundation.OrderedSet

/-!
# The timer manager

The timers of `yuyu/timer.cc` live at addresses, and the manager keeps the pending ones in a set
ordered by `(m_next, address)`. Operations take the clock value as an argument; those that erase an
element return `none` when they would erase the end iterator.
-/

namespace Yuyu.Timer

open Foundation Function

universe u

abbrev Addr := Nat

/-- A non-empty `std::function`: a user callback, or the binding of
`OnTimer` to a weak condition and a callback that may itself be empty. -/
inductive Callback (γ : Type u) where
  | user (cb : γ)
  | onTimer (weakCond : Nat) (cb : Option γ)
deriving DecidableEq

/-- A `Timer` object.  The empty callback is `none`. -/
structure TimerObject (γ : Type u) where
  ms : Nat := 0
  cb : Option (Callback γ) := none
  recurring : Bool := false
  next : Nat := 0

/-- The state of a `TimerManager`, together with the objects it created.
`live a` says that the object at `a` has not been destroyed. -/
structure TimerManager (γ : Type u) where
  timers : List Addr
  object : Addr → TimerObject γ
  live : Addr → Bool
  tickled : Bool
  previousTime : Nat

variable {γ : Type u}

def comparator (object : Addr → TimerObject γ) : Option Addr → Option Addr → Bool
  | none, none => false
  | none, some _ => true
  | some _, none => false
  | some lhs, some rhs =>
    if (object lhs).next < (object rhs).next then true
    else if (object lhs).next > (object rhs).next then false
    else decide (lhs < rhs)

namespace TimerManager

def initial (now : Nat) : TimerManager γ where
  timers := []
  object := fun _ => {}
  live := fun _ => false
  tickled := false
  previousTime := now

/-- The order of the set under the current `m_next` values. -/
def before (m : TimerManager γ) (lhs rhs : Addr) : Bool := comparator m.object (some lhs) (some rhs)

def setObject (m : TimerManager γ) (a : Addr) (t : TimerObject γ) : TimerManager γ :=
  { m with object := update m.object a t }

def allocate (m : TimerManager γ) (a : Addr) (t : TimerObject γ) : TimerManager γ :=
  { m.setObject a t with live := update m.live a true }

def insertTimer (m : TimerManager γ) (val : Addr) : TimerManager γ :=
  { m with timers := OrderedSet.insert m.before val m.timers }

def findTimer (m : TimerManager γ) (val : Addr) : Nat := OrderedSet.find m.before val m.timers

def eraseTimer (m : TimerManager γ) (it : Nat) : Option (TimerManager γ) :=
  (OrderedSet.erase it m.timers).map fun l => { m with timers := l }

/-- `TimerManager::addTimer(Timer::ptr, lock)`.  The flag says whether
`onTimerInsertedAtFront` is still to be called once the lock is released. -/
def addTimerLocked (m : TimerManager γ) (val : Addr) : TimerManager γ × Bool :=
  let atFront := OrderedSet.lowerBound (fun y => m.before y val) m.timers == 0 && !m.tickled
  ({ m.insertTimer val with tickled := m.tickled || atFront }, atFront)

/-- The object is allocated at `a` and constructed when the clock reads `now`. -/
def addTimer (m : TimerManager γ) (a : Addr) (now ms : Nat)
    (cb : Option (Callback γ)) (recurring : Bool) : TimerManager γ × Bool :=
  (m.allocate a
    { ms := ms, cb := cb, recurring := recurring, next := add64 now ms }).addTimerLocked a

def addConditionTimer (m : TimerManager γ) (a : Addr) (now ms : Nat)
    (cb : Option γ) (weakCond : Nat) (recurring : Bool) : TimerManager γ × Bool :=
  m.addTimer a now ms (some (.onTimer weakCond cb)) recurring

def cancel (m : TimerManager γ) (a : Addr) : Option (TimerManager γ × Bool) :=
  if (m.object a).cb.isSome then
    let m := m.setObject a { m.object a with cb := none }
    (m.eraseTimer (m.findTimer a)).map fun m => (m, true)
  else some (m, false)

def refresh (m : TimerManager γ) (a : Addr) (now : Nat) :
    Option (TimerManager γ × Bool) :=
  if (m.object a).cb.isNone then some (m, false)
  else
    let it := m.findTimer a
    if it = m.timers.length then some (m, false)
    else
      (m.eraseTimer it).map fun m =>
        let m := m.setObject a
          { m.object a with next := add64 now (m.object a).ms }
        (m.insertTimer a, true)

/-- The result of `Timer::reset`: the manager, the returned value and
whether `onTimerInsertedAtFront` is still to be called. -/
structure ResetResult (γ : Type u) where
  manager : TimerManager γ
  result : Bool
  atFront : Bool

def reset (m : TimerManager γ) (a : Addr) (ms : Nat) (fromNow : Bool) (now : Nat) :
    Option (ResetResult γ) :=
  if ms = (m.object a).ms ∧ fromNow = false then some ⟨m, true, false⟩
  else if (m.object a).cb.isNone then some ⟨m, false, false⟩
  else
    let it := m.findTimer a
    if it = m.timers.length then some ⟨m, false, false⟩
    else
      (m.eraseTimer it).map fun m =>
        let start := if fromNow then now else sub64 (m.object a).next (m.object a).ms
        let m := m.setObject a
          { m.object a with ms := ms, next := add64 start ms }
        let r := m.addTimerLocked a
        ⟨r.1, true, r.2⟩

def getNextTimer (m : TimerManager γ) (now : Nat) : TimerManager γ × Nat :=
  ({ m with tickled := false },
    match m.timers with
    | [] => word64 - 1
    | next :: _ =>
      if now ≥ (m.object next).next then 0
      else sub64 (m.object next).next now)

def detectClockRollover (m : TimerManager γ) (now : Nat) : TimerManager γ × Bool :=
  ({ m with previousTime := now },
    decide (now < m.previousTime) &&
      decide (now < sub64 m.previousTime (60 * 60 * 1000)))

/-- The end of the range of expired timers.  The probe object is allocated at
`probe`, which decides the order among timers due exactly now. -/
def expiredEnd (m : TimerManager γ) (now : Nat) (probe : Addr) (rollover : Bool) : Nat :=
  let nowTimer := m.setObject probe { next := now }
  let it :=
    if rollover then m.timers.length
    else OrderedSet.lowerBound (fun y => nowTimer.before y probe) m.timers
  it + ((m.timers.drop it).takeWhile fun a => (m.object a).next == now).length

def expireOne (now : Nat) (acc : TimerManager γ × List (Option (Callback γ)))
    (a : Addr) : TimerManager γ × List (Option (Callback γ)) :=
  let m := acc.1
  let cbs := acc.2 ++ [(m.object a).cb]
  if (m.object a).recurring then
    ((m.setObject a
      { m.object a with next := add64 now (m.object a).ms }).insertTimer a, cbs)
  else (m.setObject a { m.object a with cb := none }, cbs)

def listExpiredCb (m : TimerManager γ) (now : Nat) (probe : Addr) :
    TimerManager γ × List (Option (Callback γ)) :=
  match m.timers with
  | [] => (m, [])
  | first :: _ =>
    let r := m.detectClockRollover now
    if !r.2 && decide ((m.object first).next > now) then (r.1, [])
    else
      let it := r.1.expiredEnd now probe r.2
      (r.1.timers.take it).foldl (expireOne now)
        ({ r.1 with timers := r.1.timers.drop it }, [])

end TimerManager
end Yuyu.Timer
