import Yuyu.Foundation.CountWhere
import Yuyu.Foundation.MachineInt
import Yuyu.Foundation.TransitionSystem

/-!
# Connection pools

`HttpConnectionPool::getConnection` and `ReleasePtr` of `http_connection.cc`, called by any number
of clients, each of which takes one connection at a time. The shared pointers of a client are one
owner. A step is one access to shared data. Connecting may fail, a socket may be closed at any time,
and the clock moves forward between steps. Ghost data are whether a connection is alive, the time of
its creation, the number of times it was handed out, and what was handed out or discarded.
-/

namespace Yuyu.Http
namespace Pool

open Foundation Function

structure Limits where
  maxSize : Nat
  maxAliveTime : Nat
  maxRequest : Nat
deriving DecidableEq

/-- `HttpConnection`, as the pool sees it, with ghost data. -/
structure Conn where
  /-- `m_createTime`, which nothing but the initialiser sets. -/
  createTime : Nat := 0
  request : Nat := 0
  connected : Bool := true
  /-- Ghost: not deleted. -/
  live : Bool := false
  /-- Ghost: the time of the creation. -/
  born : Nat := 0
  /-- Ghost: the number of times it was handed out. -/
  handed : Nat := 0
deriving DecidableEq

namespace Limits

variable (lim : Limits)

def expired (conn : Conn) (now : Nat) : Bool := conn.createTime + lim.maxAliveTime > now

def expiredOnRelease (conn : Conn) (now : Nat) : Bool := conn.createTime + lim.maxAliveTime ≥ now

/-- The condition of `ReleasePtr` to delete the connection. -/
def drops (conn : Conn) (now : Nat) : Bool :=
  !conn.connected || lim.expiredOnRelease conn now || conn.request ≥ lim.maxRequest

end Limits

/-- The loop of `getConnection` under the lock: the invalid connections, the one
that is taken, and what is left in `m_conns`. -/
def popLoop (lim : Limits) (table : Nat → Conn) (now : Nat) :
    List Nat → List Nat × Option Nat × List Nat
  | [] => ([], none, [])
  | c :: rest =>
    if !(table c).connected || lim.expired (table c) now then
      let r := popLoop lim table now rest
      (c :: r.1, r.2)
    else ([], some c, rest)

/-- Where a client is.  The first group is `getConnection`, the second is
`ReleasePtr`. -/
inductive Pc where
  | idle
  /-- `now_ms` was read. -/
  | lookup (now : Nat)
  /-- The connections `left` are still to be deleted out of `size`. -/
  | purge (left : List Nat) (size : Nat) (ptr : Option Nat)
  | connecting
  /-- The connection exists and is not counted yet. -/
  | created (c : Nat)
  | holding (c : Nat)
  /-- `m_request` was incremented. -/
  | releasing (c : Nat)
  | dropping (c : Nat)
  /-- The connection is deleted and still counted. -/
  | dropped
  | pushing (c : Nat)
deriving DecidableEq

variable {n : Nat}

structure State (n : Nat) where
  clock : Nat
  table : Nat → Conn
  nextConn : Nat
  conns : List Nat
  total : Int
  pc : Fin n → Pc
  /-- Ghost: the connections returned by `getConnection`, with the time. -/
  handouts : List (Nat × Nat)
  /-- Ghost: the connections that are connected and below `max_request` and are
  discarded because of their age, with the time. -/
  discards : List (Nat × Nat)

namespace State

def initial (clock : Nat) : State n where
  clock := clock
  table _ := {}
  nextConn := 0
  conns := []
  total := 0
  pc _ := .idle
  handouts := []
  discards := []

def move (s : State n) (i : Fin n) (p : Pc) : State n := { s with pc := update s.pc i p }

def modify (s : State n) (c : Nat) (g : Conn → Conn) : State n :=
  { s with table := update s.table c (g (s.table c)) }

def delete (s : State n) (c : Nat) : State n := s.modify c fun conn => { conn with live := false }

def addTotal (s : State n) (k : Int) : State n := { s with total := wrap32 (s.total + k) }

def handOut (s : State n) (i : Fin n) (c : Nat) : State n :=
  { s.modify c fun conn => { conn with handed := conn.handed + 1 } with
    handouts := s.handouts ++ [(c, s.clock)] }.move i (.holding c)

def create (s : State n) (i : Fin n) : State n :=
  { s with
    table := update s.table s.nextConn { live := true, born := s.clock }
    nextConn := s.nextConn + 1 }.move i (.created s.nextConn)

def discard (s : State n) (lim : Limits) (expired : Conn → Bool) (cs : List Nat) : State n :=
  let aged := cs.filter fun c =>
    (s.table c).connected && expired (s.table c) && (s.table c).request < lim.maxRequest
  { s with discards := s.discards ++ aged.map fun c => (c, s.clock) }

/-! ## Steps -/

/-- The next step of a client; `ok` says whether connecting succeeds. -/
def runClient (lim : Limits) (s : State n) (i : Fin n) (ok : Bool) : State n :=
  match s.pc i with
  | .idle => s.move i (.lookup s.clock)
  | .lookup now =>
    let r := popLoop lim s.table now s.conns
    { s.discard lim (fun conn => lim.expired conn now) r.1 with conns := r.2.2 }.move i
      (.purge r.1 r.1.length r.2.1)
  | .purge (c :: left) size ptr => (s.delete c).move i (.purge left size ptr)
  | .purge [] size (some c) => (s.addTotal (-size)).handOut i c
  | .purge [] size none => (s.addTotal (-size)).move i .connecting
  | .connecting => if ok then s.create i else s.move i .idle
  | .created c => (s.addTotal 1).handOut i c
  | .holding c =>
    (s.modify c fun conn => { conn with request := conn.request + 1 }).move i (.releasing c)
  | .releasing c =>
    if lim.drops (s.table c) s.clock then
      (s.discard lim (fun conn => lim.expiredOnRelease conn s.clock) [c]).move i (.dropping c)
    else s.move i (.pushing c)
  | .dropping c => (s.delete c).move i .dropped
  | .dropped => (s.addTotal (-1)).move i .idle
  | .pushing c => { s with conns := s.conns ++ [c] }.move i .idle

/-- What a step of a client does, by the place it starts from. -/
inductive Moved (lim : Limits) (s : State n) (i : Fin n) : State n → Prop
  | enter (hpc : s.pc i = .idle) : Moved lim s i (s.move i (.lookup s.clock))
  | search (now : Nat) (r : List Nat × Option Nat × List Nat) (hpc : s.pc i = .lookup now)
      (hr : popLoop lim s.table now s.conns = r) :
      Moved lim s i ({ s.discard lim (fun conn => lim.expired conn now) r.1 with
        conns := r.2.2 }.move i (.purge r.1 r.1.length r.2.1))
  | purge (c : Nat) (left : List Nat) (size : Nat) (ptr : Option Nat)
      (hpc : s.pc i = .purge (c :: left) size ptr) :
      Moved lim s i ((s.delete c).move i (.purge left size ptr))
  | reuse (size c : Nat) (hpc : s.pc i = .purge [] size (some c)) :
      Moved lim s i ((s.addTotal (-size)).handOut i c)
  | miss (size : Nat) (hpc : s.pc i = .purge [] size none) :
      Moved lim s i ((s.addTotal (-size)).move i .connecting)
  | connect (hpc : s.pc i = .connecting) : Moved lim s i (s.create i)
  | refuse (hpc : s.pc i = .connecting) : Moved lim s i (s.move i .idle)
  | count (c : Nat) (hpc : s.pc i = .created c) : Moved lim s i ((s.addTotal 1).handOut i c)
  | release (c : Nat) (hpc : s.pc i = .holding c) :
      Moved lim s i ((s.modify c fun conn => { conn with request := conn.request + 1 }).move i
        (.releasing c))
  | drop (c : Nat) (hpc : s.pc i = .releasing c) :
      Moved lim s i ((s.discard lim (fun conn => lim.expiredOnRelease conn s.clock) [c]).move i
        (.dropping c))
  | keep (c : Nat) (hpc : s.pc i = .releasing c)
      (hdrops : ¬ lim.drops (s.table c) s.clock = true) : Moved lim s i (s.move i (.pushing c))
  | delete (c : Nat) (hpc : s.pc i = .dropping c) : Moved lim s i ((s.delete c).move i .dropped)
  | uncount (hpc : s.pc i = .dropped) : Moved lim s i ((s.addTotal (-1)).move i .idle)
  | push (c : Nat) (hpc : s.pc i = .pushing c) :
      Moved lim s i ({ s with conns := s.conns ++ [c] }.move i .idle)

lemma moved_runClient (lim : Limits) (s : State n) (i : Fin n) (ok : Bool) :
    Moved lim s i (s.runClient lim i ok) := by
  unfold runClient
  split
  · exact .enter ‹_›
  · exact .search _ _ ‹_› rfl
  · exact .purge _ _ _ _ ‹_›
  · exact .reuse _ _ ‹_›
  · exact .miss _ ‹_›
  · split
    · exact .connect ‹_›
    · exact .refuse ‹_›
  · exact .count _ ‹_›
  · exact .release _ ‹_›
  · split
    · exact .drop _ ‹_›
    · exact .keep _ ‹_› ‹_›
  · exact .delete _ ‹_›
  · exact .uncount ‹_›
  · exact .push _ ‹_›

end State

inductive Action (n : Nat) where
  | run (i : Fin n) (ok : Bool)
  /-- The socket of a connection is closed, by its holder or by the peer. -/
  | disconnect (c : Nat)
  | tick (clock : Nat)
deriving DecidableEq

def State.step (lim : Limits) (s : State n) : Action n → Option (State n)
  | .run i ok => some (s.runClient lim i ok)
  | .disconnect c => some (s.modify c fun conn => { conn with connected := false })
  | .tick clock => if s.clock ≤ clock then some { s with clock := clock } else none

/-- A pool with `n` clients; the clock shows `start` when it is created. -/
def poolSystem (n : Nat) (lim : Limits) (start : Nat) : TransitionSystem (State n) (Action n) where
  init := (· = .initial start)
  step := State.step lim

lemma State.step_cases {lim : Limits} {s s' : State n} {a : Action n} (h : s.step lim a = some s') :
    (∃ i, s.Moved lim i s') ∨
    (∃ c, s' = s.modify c fun conn => { conn with connected := false }) ∨
    ∃ clock, a = .tick clock ∧ s.clock ≤ clock ∧ s' = { s with clock := clock } := by
  cases a with
  | run i ok => exact .inl ⟨i, Option.some.inj h ▸ s.moved_runClient lim i ok⟩
  | disconnect c => exact .inr (.inl ⟨c, (Option.some.inj h).symm⟩)
  | tick clock =>
    simp only [step] at h
    split at h
    · rename_i hle
      exact .inr (.inr ⟨clock, rfl, hle, (Option.some.inj h).symm⟩)
    · contradiction

lemma State.modify_rel {R : Conn → Conn → Prop} (hrefl : ∀ conn, R conn conn) {g : Conn → Conn}
    (hg : ∀ conn, R (g conn) conn) (s : State n) (c c' : Nat) :
    R ((s.modify c g).table c') (s.table c') := by
  by_cases hc : c' = c
  · subst hc
    simpa [modify] using hg (s.table c')
  · simpa [modify, hc] using hrefl (s.table c')

/-- The loop over the idle connections splits their list. -/
theorem popLoop_eq (lim : Limits) (table : Nat → Conn) (now : Nat) (conns : List Nat) :
    conns = (popLoop lim table now conns).1 ++ (popLoop lim table now conns).2.1.toList ++
      (popLoop lim table now conns).2.2 := by
  induction conns with
  | nil => rfl
  | cons c rest ih =>
    simp only [popLoop]
    split
    · exact congrArg (c :: ·) ih
    · rfl

lemma mem_of_popLoop (lim : Limits) (table : Nat → Conn) (now : Nat) (conns : List Nat) :
    (∀ c ∈ (popLoop lim table now conns).2.1, c ∈ conns) ∧
      ∀ c ∈ (popLoop lim table now conns).2.2, c ∈ conns := by
  refine ⟨fun c hc => ?_, fun c hc => ?_⟩
  · rw [popLoop_eq lim table now conns]
    exact List.mem_append_left _ (List.mem_append_right _ (Option.mem_toList.mpr hc))
  · rw [popLoop_eq lim table now conns]
    exact List.mem_append_right _ hc

lemma popLoop_rest_of_none {lim : Limits} {table : Nat → Conn} {now : Nat} {conns : List Nat}
    (h : (popLoop lim table now conns).2.1 = none) : (popLoop lim table now conns).2.2 = [] := by
  induction conns with
  | nil => rfl
  | cons c rest ih =>
    simp only [popLoop] at h ⊢
    split at h
    · rename_i hinvalid
      rw [if_pos hinvalid]
      exact ih h
    · contradiction

end Pool
end Yuyu.Http
