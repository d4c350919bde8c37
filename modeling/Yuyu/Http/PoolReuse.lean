import Yuyu.Http.Exchange
import Yuyu.Http.PoolLimits

/-!
# What the connections in a pool have behind them

The clients of a pool call `HttpConnectionPool::doRequest`. The state is that of the pool together
with the wire of every connection. `ReleasePtr` puts every connection back whose socket is open.
-/

namespace Yuyu.Http
namespace Pool

open Foundation List Function

structure Wired (n : Nat) where
  pool : State n
  wire : Nat → Wire

inductive Deed (n : Nat) where
  /-- A step of `getConnection` or of `ReleasePtr`. -/
  | run (i : Fin n) (ok : Bool)
  /-- The client sends its request and reads the response. -/
  | exchange (i : Fin n) (x : Exchange)
  | tick (clock : Nat)

variable {n : Nat} {cfg : ClientConfig} {lim : Limits} {start : Nat}

namespace Wired

def initial (clock : Nat) : Wired n where
  pool := .initial clock
  wire _ := {}

/-- The exchange on a connection, and the begin of `ReleasePtr`. -/
def finish (lim : Limits) (s : Wired n) (i : Fin n) (c : Nat) (w : Wire) (closed : Bool) :
    Wired n where
  pool :=
    State.runClient lim
      (if closed then s.pool.modify c fun conn => { conn with connected := false }
        else s.pool) i true
  wire := update s.wire c w

/-- One step.  A client that has a connection exchanges before it gives it back. -/
def step (cfg : ClientConfig) (lim : Limits) (s : Wired n) : Deed n → Option (Wired n)
  | .run i ok =>
    match s.pool.pc i with
    | .holding _ => none
    | _ => some { s with pool := s.pool.runClient lim i ok }
  | .exchange i x =>
    match s.pool.pc i with
    | .holding c => ((s.wire c).exchange cfg x).map fun r => s.finish lim i c r.1 r.2
    | _ => none
  | .tick clock =>
    if s.pool.clock ≤ clock then some { s with pool := { s.pool with clock := clock } } else none

end Wired

/-- All exchanges are of the given kind. -/
def Only (P : Exchange → Prop) (_ : Wired n) : Deed n → Prop
  | .exchange _ x => P x
  | _ => True

variable {s s' : Wired n} {i : Fin n} {c : Nat}

lemma step_cases {a : Deed n} (h : s.step cfg lim a = some s') :
    (∃ i ok, a = .run i ok ∧ (∀ c, s.pool.pc i ≠ .holding c) ∧
      s' = { s with pool := s.pool.runClient lim i ok }) ∨
    (∃ i x c w closed, a = .exchange i x ∧ s.pool.pc i = .holding c ∧
      (s.wire c).exchange cfg x = some (w, closed) ∧ s' = s.finish lim i c w closed) ∨
    ∃ clock, a = .tick clock ∧ s.pool.clock ≤ clock ∧
      s' = { s with pool := { s.pool with clock := clock } } := by
  cases a with
  | run i ok =>
    simp only [Wired.step] at h
    split at h
    · contradiction
    · next hpc => exact .inl ⟨i, ok, rfl, hpc, (Option.some.inj h).symm⟩
  | exchange i x =>
    simp only [Wired.step] at h
    split at h
    · next c hpc =>
        obtain ⟨r, hr, rfl⟩ := Option.map_eq_some_iff.mp h
        exact .inr (.inl ⟨i, x, c, r.1, r.2, rfl, hpc, hr, rfl⟩)
    · contradiction
  | tick clock =>
    simp only [Wired.step] at h
    split at h
    · next hle => exact .inr (.inr ⟨clock, rfl, hle, (Option.some.inj h).symm⟩)
    · contradiction

section Frame

variable {p p' : State n}

lemma connected_modify (p : State n) (c c' : Nat) {g : Conn → Conn}
    (hg : ∀ conn, (g conn).connected = conn.connected) :
    ((p.modify c g).table c').connected = (p.table c').connected :=
  State.modify_rel (R := fun a b => a.connected = b.connected) (fun _ => rfl) hg p c c'

lemma connected_moved (hmoved : p.Moved lim i p') (hc : c ≠ p.nextConn) :
    (p'.table c).connected = (p.table c).connected := by
  cases hmoved with
  | purge c' | delete c' =>
    exact connected_modify p c' c (g := fun conn => { conn with live := false }) fun _ => rfl
  | reuse size c' | count c' =>
    exact connected_modify p c' c (g := fun conn => { conn with handed := conn.handed + 1 })
      fun _ => rfl
  | connect => simp [State.create, State.move, hc]
  | release c' =>
    exact connected_modify p c' c (g := fun conn => { conn with request := conn.request + 1 })
      fun _ => rfl
  | _ => rfl

lemma nextConn_le_moved (hmoved : p.Moved lim i p') : p.nextConn ≤ p'.nextConn := by
  cases hmoved with
  | connect => exact Nat.le_succ _
  | _ => exact le_rfl

lemma pc_moved_of_ne (hmoved : p.Moved lim i p') {j : Fin n} (hj : j ≠ i) : p'.pc j = p.pc j := by
  cases hmoved <;> exact update_of_ne hj _ _

end Frame

def Pc.Tidy (wire : Nat → Wire) (table : Nat → Conn) : Pc → Prop
  | .purge _ _ ptr => ∀ c ∈ ptr, (wire c).Clean
  | .created c | .holding c | .pushing c => (wire c).Clean
  | .releasing c => (table c).connected = true → (wire c).Clean
  | .idle | .lookup _ | .connecting | .dropping _ | .dropped => True

/-- The connections in the pool are clean, and so are those that can come back to it. -/
structure Tidy (s : Wired n) : Prop where
  fresh : ∀ c, s.pool.nextConn ≤ c → (s.wire c).Clean
  idle : ∀ c ∈ s.pool.conns, (s.wire c).Clean
  client : ∀ i, (s.pool.pc i).Tidy s.wire s.pool.table

lemma Pc.Tidy.congr {p : Pc} {wire wire' : Nat → Wire} {table table' : Nat → Conn}
    (h : p.Tidy wire table)
    (hsame : ∀ c ∈ p.hands, wire' c = wire c ∧ (table' c).connected = (table c).connected) :
    p.Tidy wire' table' := by
  cases p with
  | purge left size ptr =>
    intro c hc
    have hmem : c ∈ left ++ ptr.toList := mem_append_right left (Option.mem_toList.mpr hc)
    rw [(hsame c hmem).1]
    exact h c hc
  | created c | holding c | pushing c =>
    obtain ⟨hwire, _⟩ := hsame c mem_cons_self
    simpa only [Pc.Tidy, hwire] using h
  | releasing c =>
    obtain ⟨hwire, hconnected⟩ := hsame c mem_cons_self
    simpa only [Pc.Tidy, hwire, hconnected] using h
  | idle | lookup now | connecting | dropping c | dropped => trivial

lemma Tidy.client_moved (h : Tidy s) (hpc : ∀ c, s.pool.pc i ≠ .holding c) {p : State n}
    (hmoved : s.pool.Moved lim i p) (table : Nat → Conn) :
    (p.pc i).Tidy s.wire table ∧ ∀ c ∈ p.conns, (s.wire c).Clean := by
  have hi := h.client i
  cases hmoved with
  | search now r hpc hr =>
    subst hr
    have hmem := mem_of_popLoop lim s.pool.table now s.pool.conns
    refine ⟨?_, fun c hc => h.idle c (hmem.2 c hc)⟩
    simp only [State.move, update_self, Pc.Tidy]
    exact fun c hc => h.idle c (hmem.1 c hc)
  | purge c left size ptr heq | count c heq =>
    rw [heq] at hi
    refine ⟨?_, h.idle⟩
    simpa only [State.handOut, State.move, update_self, Pc.Tidy] using hi
  | reuse size c heq =>
    rw [heq] at hi
    refine ⟨?_, h.idle⟩
    simp only [State.handOut, State.move, update_self, Pc.Tidy]
    exact hi c rfl
  | connect =>
    refine ⟨?_, h.idle⟩
    simp only [State.create, State.move, update_self, Pc.Tidy]
    exact h.fresh _ le_rfl
  | release c heq => exact absurd heq (hpc c)
  | keep c heq hdrops =>
    rw [heq] at hi
    refine ⟨?_, h.idle⟩
    simp only [Limits.drops, Bool.or_eq_true, not_or, Bool.not_eq_true',
      Bool.not_eq_false] at hdrops
    simp only [State.move, update_self, Pc.Tidy]
    exact hi hdrops.1.1
  | push c heq =>
    rw [heq] at hi
    refine ⟨by simp [State.move, Pc.Tidy], fun c' hc' => ?_⟩
    rcases mem_append.mp hc' with hold | hnew
    · exact h.idle c' hold
    · rw [mem_singleton.mp hnew]
      exact hi
  | _ => exact ⟨by simp [State.move, Pc.Tidy], h.idle⟩

lemma Tidy.moved (h : Tidy s) (ho : Owned s.pool) (hpc : ∀ c, s.pool.pc i ≠ .holding c)
    {p : State n} (hmoved : s.pool.Moved lim i p) : Tidy { s with pool := p } where
  fresh c hc := h.fresh c ((nextConn_le_moved hmoved).trans hc)
  idle := (h.client_moved hpc hmoved s.pool.table).2
  client j := by
    by_cases hj : j = i
    · subst hj
      exact (h.client_moved hpc hmoved _).1
    rw [pc_moved_of_ne hmoved hj]
    refine (h.client j).congr fun c hc => ⟨rfl, ?_⟩
    exact connected_moved hmoved (ho.lt_nextConn hc).ne

lemma Wired.pool_finish (lim : Limits) (hpc : s.pool.pc i = .holding c) (w : Wire) (closed : Bool) :
    ∃ conn : Conn, (closed = true → conn.connected = false) ∧
      (s.finish lim i c w closed).pool =
        { s.pool with table := update s.pool.table c conn }.move i (.releasing c) := by
  cases closed with
  | false =>
    refine ⟨{ s.pool.table c with request := (s.pool.table c).request + 1 }, by simp, ?_⟩
    simp only [Wired.finish, Bool.false_eq_true, if_false, State.runClient, hpc, State.modify]
  | true =>
    refine ⟨{ s.pool.table c with connected := false, request := (s.pool.table c).request + 1 },
      fun _ => rfl, ?_⟩
    simp only [Wired.finish, if_true, State.runClient, State.modify, hpc, update_self, update_idem]

lemma Tidy.finish (h : Tidy s) (ho : Owned s.pool) (hpc : s.pool.pc i = .holding c) {w : Wire}
    {closed : Bool} (hclean : closed = false → w.Clean) : Tidy (s.finish lim i c w closed) := by
  have hhands : c ∈ (s.pool.pc i).hands := by
    rw [hpc]
    exact mem_singleton_self c
  obtain ⟨hidle, -, hothers, -⟩ := ho.sole hhands
  obtain ⟨conn, hclosed, hpool⟩ := Wired.pool_finish lim hpc w closed
  have hwire : ∀ c', c' ≠ c → (s.finish lim i c w closed).wire c' = s.wire c' :=
    fun c' hc' => update_of_ne hc' _ _
  refine ⟨fun c' hc' => ?_, fun c' hc' => ?_, fun j => ?_⟩
  · rw [hpool] at hc'
    rw [hwire c' ((ho.lt_nextConn hhands).trans_le hc').ne']
    exact h.fresh c' hc'
  · rw [hpool] at hc'
    have hne : c' ≠ c := fun heq => hidle (heq ▸ hc')
    rw [hwire c' hne]
    exact h.idle c' hc'
  rw [hpool]
  by_cases hj : j = i
  · subst hj
    simp only [State.move, update_self, Pc.Tidy, Wired.finish]
    intro hconnected
    refine hclean (Bool.eq_false_iff.mpr fun hshut => ?_)
    rw [hclosed hshut] at hconnected
    contradiction
  simp only [State.move, update_of_ne hj]
  refine (h.client j).congr fun c' hc' => ?_
  have hne : c' ≠ c := fun heq => hothers j hj (heq ▸ hc')
  exact ⟨hwire c' hne, by rw [update_of_ne hne]⟩

lemma Tidy.step {P : Exchange → Prop} (horderly : ∀ x, P x → x.SendsAll ∧ x.Settles cfg)
    (h : Tidy s) (ho : Owned s.pool) {a : Deed n} (hok : Only P s a)
    (hstep : s.step cfg lim a = some s') : Tidy s' := by
  obtain ⟨i, ok, rfl, hpc, rfl⟩ | ⟨i, x, c, w, closed, rfl, hpc, hx, rfl⟩ | ⟨clock, rfl, _, rfl⟩ :=
    step_cases hstep
  · exact h.moved ho hpc (s.pool.moved_runClient lim i ok)
  · have hi := h.client i
    rw [hpc] at hi
    refine h.finish ho hpc fun hopen => ?_
    subst hopen
    exact (Wire.Clean.exchange_iff hi x).mpr (horderly x hok) w hx
  · exact ⟨h.fresh, h.idle, h.client⟩

/-! ## Whole runs -/

section Runs

variable {P : Exchange → Prop} {x : Exchange} {w : Wire}

end Runs

end Pool
end Yuyu.Http
