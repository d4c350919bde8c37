import Yuyu.Http.PoolOwnership

/-!
# The limits of a connection pool

`m_maxSize` is never read. `m_createTime` is never set, and the tests of the age are the wrong way
round: a connection is discarded while the clock shows less than the maximal age.
-/

namespace Yuyu.Http
namespace Pool

open Foundation Function

variable {n : Nat} {lim : Limits} {start : Nat} {s s' : State n} {i : Fin n} {c : Nat}

def Pc.slot : Pc → Nat
  | .purge .. | .connecting | .created _ | .holding _ | .releasing _ | .dropping _
  | .pushing _ => 1
  | .idle | .lookup _ | .dropped => 0

def Pc.out : Pc → Nat
  | .purge _ _ (some _) | .created _ | .holding _ | .releasing _ | .dropping _ | .pushing _ => 1
  | .purge _ _ none | .idle | .lookup _ | .connecting | .dropped => 0

def State.connections (s : State n) : Nat := s.conns.length + ∑ i, (s.pc i).out

lemma Pc.slot_le (p : Pc) : p.slot ≤ 1 := by
  cases p <;> simp [slot]

lemma Pc.out_le_slot (p : Pc) : p.out ≤ p.slot := by
  cases p with
  | purge left size ptr => cases ptr <;> simp [out, slot]
  | _ => simp [out, slot]

lemma sum_slot_le (s : State n) : ∑ i, (s.pc i).slot ≤ n := by
  have h := Finset.sum_le_card_nsmul Finset.univ (fun i => (s.pc i).slot) 1
    fun i _ => (s.pc i).slot_le
  simpa using h

def Spare (s : State n) : Prop := s.conns.length + ∑ i, (s.pc i).slot ≤ n

lemma Spare.of_move (h : Spare s) {p : Pc} (hpc : s'.pc = update s.pc i p)
    (hle : s'.conns.length + p.slot ≤ s.conns.length + (s.pc i).slot) : Spare s' := by
  have hsum := sum_update_add Pc.slot s.pc i p
  unfold Spare at h ⊢
  rw [hpc]
  omega

lemma Spare.moved (h : Spare s) (hmoved : s.Moved lim i s') : Spare s' := by
  cases hmoved with
  | search now r hpc hr =>
    cases hptr : r.2.1 with
    | none =>
      -- nothing is idle any more, and every client has at most one connection
      have hrest : r.2.2 = [] := by
        subst hr
        exact popLoop_rest_of_none hptr
      refine (Nat.add_le_add_left (sum_slot_le _) _).trans ?_
      simp [State.move, State.discard, hrest]
    | some c =>
      refine h.of_move rfl ?_
      have hlen : r.2.2.length + (r.1.length + r.2.1.toList.length) = s.conns.length := by
        subst hr
        exact length_popLoop lim s.table now s.conns
      rw [hptr, Option.toList_some, List.length_singleton] at hlen
      rw [hpc]
      simp only [State.move, State.discard, Pc.slot]
      omega
  | refuse hpc | delete c hpc | push c hpc =>
    refine h.of_move rfl ?_
    rw [hpc]
    simp [State.delete, State.modify, State.move, Pc.slot]
  | enter hpc | purge c left size ptr hpc | reuse size c hpc | miss size hpc | connect hpc
  | count c hpc | release c hpc | drop c hpc | keep c hpc | uncount hpc =>
    exact h.of_move rfl (by rw [hpc]; rfl)

lemma Spare.step (h : Spare s) {a : Action n} (hstep : s.step lim a = some s') : Spare s' := by
  obtain ⟨i, hmoved⟩ | ⟨c, rfl⟩ | ⟨clock, -, -, rfl⟩ := State.step_cases hstep
  · exact h.moved hmoved
  · exact h
  · exact h

lemma connections_le (h : (poolSystem n lim start).Reachable s) : s.connections ≤ n := by
  have hspare : Spare s := by
    refine TransitionSystem.Reachable.invariant (I := Spare) ?_ ?_ h
    · rintro s rfl
      simp [Spare, State.initial, Pc.slot]
    · intro s a s' hs hstep
      exact hs.step hstep
  refine le_trans ?_ hspare
  exact Nat.add_le_add_left (Finset.sum_le_sum fun i _ => (s.pc i).out_le_slot) _

lemma reachable_checkout (h : (poolSystem n lim start).Reachable s) (hidle : s.pc i = .idle)
    (hconns : s.conns = []) :
    ∃ s' c, (poolSystem n lim start).Reachable s' ∧ s'.conns = [] ∧
      s'.pc = update s.pc i (.holding c) := by
  have hrun := TransitionSystem.reachableWith_of_runWith h
    (show (poolSystem n lim start).runWith (fun _ _ => True) s (checkout i) = some _ from rfl)
  refine ⟨_, s.nextConn, hrun, ?_, ?_⟩
  · simp [State.runClient, hidle, hconns, popLoop, State.move, State.discard, State.addTotal,
      State.create, State.handOut, State.modify]
  · simp [State.runClient, hidle, hconns, popLoop, State.move, State.discard, State.addTotal,
      State.create, State.handOut, State.modify]

lemma reachable_holding (n : Nat) (lim : Limits) (start k : Nat) (hk : k ≤ n) :
    ∃ s : State n, (poolSystem n lim start).Reachable s ∧ s.conns = [] ∧
      ∀ i : Fin n, if i.1 < k then ∃ c, s.pc i = .holding c else s.pc i = .idle := by
  induction k with
  | zero => exact ⟨.initial start, .init rfl, rfl, fun i => by simp [State.initial]⟩
  | succ k ih =>
    obtain ⟨s, hreach, hconns, hpc⟩ := ih (by omega)
    have hidle : s.pc ⟨k, hk⟩ = .idle := by simpa using hpc ⟨k, hk⟩
    obtain ⟨s', c, hreach', hconns', hpc'⟩ := reachable_checkout hreach hidle hconns
    refine ⟨s', hreach', hconns', fun i => ?_⟩
    rw [hpc']
    by_cases hi : i = ⟨k, hk⟩
    · subst hi
      simp
    have hne : i.1 ≠ k := fun heq => hi (Fin.ext heq)
    have hlt : i.1 < k + 1 ↔ i.1 < k := by omega
    rw [update_of_ne hi]
    simpa only [hlt] using hpc i

/-- The number of connections stays within `max_size` in every run exactly if there
are not more clients at a time than that. -/
theorem size_limit_iff (n : Nat) (lim : Limits) (start : Nat) :
    (∀ s, (poolSystem n lim start).Reachable s → s.connections ≤ lim.maxSize) ↔
      n ≤ lim.maxSize := by
  constructor
  · intro hall
    obtain ⟨s, hreach, -, hpc⟩ := reachable_holding n lim start n le_rfl
    have hout : ∑ i, (s.pc i).out = n := by
      have hone : ∀ i ∈ Finset.univ, (s.pc i).out = 1 := by
        intro i _
        have hi := hpc i
        rw [if_pos i.2] at hi
        obtain ⟨c, hc⟩ := hi
        rw [hc]
        rfl
      rw [Finset.sum_congr rfl hone]
      simp
    have hle := hall s hreach
    unfold State.connections at hle
    omega
  · intro hn s hreach
    exact (connections_le hreach).trans hn

/-- Two clients of a pool for one connection. -/
theorem size_exceeded :
    ∃ s, (poolSystem 2 ⟨1, 30, 5⟩ 1000).run (.initial 1000) (checkout 0 ++ checkout 1) = some s ∧
      s.connections = 2 ∧ s.pc 0 = .holding 0 ∧ s.pc 1 = .holding 1 :=
  ⟨_, rfl, rfl, rfl, rfl⟩

/-! ## The age of connections -/

/-- A connection that is returned is younger than the maximal age, and one that is discarded because
of its age is not. -/
structure AgeRespected (lim : Limits) (s : State n) : Prop where
  handouts : ∀ e ∈ s.handouts, e.2 < (s.table e.1).born + lim.maxAliveTime
  discards : ∀ e ∈ s.discards, (s.table e.1).born + lim.maxAliveTime ≤ e.2

/-- The clock does not pass `last`. -/
def Until (last : Nat) (_ : State n) : Action n → Prop
  | .tick clock => clock ≤ last
  | _ => True

instance (last : Nat) (s : State n) : (a : Action n) → Decidable (Until last s a)
  | .tick clock => inferInstanceAs (Decidable (clock ≤ last))
  | .run .. | .disconnect _ => inferInstanceAs (Decidable True)

/-- The times that occur in a state are between `start` and `last`. -/
structure Timely (start last : Nat) (s : State n) : Prop where
  clock : start ≤ s.clock ∧ s.clock ≤ last
  lookup : ∀ i now, s.pc i = .lookup now → start ≤ now
  born : ∀ c, c < s.nextConn → start ≤ (s.table c).born
  handouts : ∀ e ∈ s.handouts, e.1 < s.nextConn ∧ e.2 ≤ last
  createTime : ∀ c, (s.table c).createTime = 0

def Conn.SameTimes (a b : Conn) : Prop := a.born = b.born ∧ a.createTime = b.createTime

lemma sameTimes_modify (s : State n) (c c' : Nat) {g : Conn → Conn}
    (hg : ∀ conn, (g conn).SameTimes conn) : ((s.modify c g).table c').SameTimes (s.table c') :=
  State.modify_rel (fun _ => ⟨rfl, rfl⟩) hg s c c'

section Timely

variable {last : Nat}

lemma Timely.of_same (h : Timely start last s) {p : Pc} (hclock : s'.clock = s.clock)
    (hpc : s'.pc = update s.pc i p) (hp : ∀ now, p = .lookup now → start ≤ now)
    (hnext : s'.nextConn = s.nextConn) (hsame : ∀ c, (s'.table c).SameTimes (s.table c))
    (hout : ∀ e ∈ s'.handouts, e ∈ s.handouts ∨ e.1 < s.nextConn ∧ e.2 = s.clock) :
    Timely start last s' where
  clock := hclock ▸ h.clock
  lookup j now hj := by
    rw [hpc] at hj
    by_cases hji : j = i
    · subst hji
      rw [update_self] at hj
      exact hp now hj
    · rw [update_of_ne hji] at hj
      exact h.lookup j now hj
  born c hc := by
    rw [(hsame c).1]
    exact h.born c (hnext ▸ hc)
  handouts e he := by
    rw [hnext]
    obtain hold | ⟨hlt, htime⟩ := hout e he
    · exact h.handouts e hold
    · exact ⟨hlt, htime ▸ h.clock.2⟩
  createTime c := by
    rw [(hsame c).2]
    exact h.createTime c

lemma Timely.handOut (h : Timely start last s) (ho : Owned s) (hc : c ∈ (s.pc i).hands) (k : Int) :
    Timely start last ((s.addTotal k).handOut i c) := by
  have hlt : c < s.nextConn := ho.lt_nextConn hc
  refine h.of_same rfl rfl (fun now hnow => by contradiction) rfl (fun c' => ?_) fun e he => ?_
  · exact sameTimes_modify s c c' (g := fun conn => { conn with handed := conn.handed + 1 })
      fun _ => ⟨rfl, rfl⟩
  rcases List.mem_append.mp he with hold | hnew
  · exact .inl hold
  · rw [List.mem_singleton.mp hnew]
    exact .inr ⟨hlt, rfl⟩

lemma Timely.create (h : Timely start last s) (i : Fin n) : Timely start last (s.create i) where
  clock := h.clock
  lookup j now hj := by
    by_cases hji : j = i
    · subst hji
      simp [State.create, State.move] at hj
    · simp only [State.create, State.move, update_of_ne hji] at hj
      exact h.lookup j now hj
  born c hc := by
    by_cases heq : c = s.nextConn
    · simpa [State.create, State.move, heq] using h.clock.1
    · have hlt : c < s.nextConn := lt_of_le_of_ne (Nat.le_of_lt_succ hc) heq
      simpa [State.create, State.move, heq] using h.born c hlt
  handouts e he := ⟨(h.handouts e he).1.trans (Nat.lt_succ_self _), (h.handouts e he).2⟩
  createTime c := by
    by_cases heq : c = s.nextConn
    · simp [State.create, State.move, heq]
    · simpa [State.create, State.move, heq] using h.createTime c

lemma Timely.moved (h : Timely start last s) (ho : Owned s) (hmoved : s.Moved lim i s') :
    Timely start last s' := by
  cases hmoved with
  | enter =>
    refine h.of_same rfl rfl (fun now hnow => ?_) rfl (fun _ => ⟨rfl, rfl⟩) fun _ => .inl
    cases hnow
    exact h.clock.1
  | purge c | delete c =>
    refine h.of_same rfl rfl (by rintro now ⟨⟩) rfl (fun c' => ?_) fun _ => .inl
    exact sameTimes_modify s c c' (g := fun conn => { conn with live := false }) fun _ => ⟨rfl, rfl⟩
  | reuse size c hpc | count c hpc =>
    exact h.handOut ho (by rw [hpc]; exact List.mem_singleton_self c) _
  | connect => exact h.create i
  | release c =>
    refine h.of_same rfl rfl (by rintro now ⟨⟩) rfl (fun c' => ?_) fun _ => .inl
    exact sameTimes_modify s c c' (g := fun conn => { conn with request := conn.request + 1 })
      fun _ => ⟨rfl, rfl⟩
  | _ => exact h.of_same rfl rfl (by rintro now ⟨⟩) rfl (fun _ => ⟨rfl, rfl⟩) fun _ => .inl

lemma Timely.step (h : Timely start last s) (ho : Owned s) {a : Action n} (hok : Until last s a)
    (hstep : s.step lim a = some s') : Timely start last s' := by
  obtain ⟨i, hmoved⟩ | ⟨c, rfl⟩ | ⟨clock, rfl, hle, rfl⟩ := State.step_cases hstep
  · exact h.moved ho hmoved
  · have hsame := fun c' => sameTimes_modify s c c'
      (g := fun conn => { conn with connected := false }) fun _ => ⟨rfl, rfl⟩
    refine ⟨h.clock, h.lookup, fun c' hc' => ?_, h.handouts, fun c' => ?_⟩
    · rw [(hsame c').1]
      exact h.born c' hc'
    · rw [(hsame c').2]
      exact h.createTime c'
  · exact ⟨⟨h.clock.1.trans hle, hok⟩, h.lookup, h.born, h.handouts, h.createTime⟩

end Timely

/-- With `max_request` at most one, no connection comes back to the pool. -/
structure Single (s : State n) : Prop where
  conns : s.conns = []
  releasing : ∀ i c, s.pc i = .releasing c → 0 < (s.table c).request
  pushing : ∀ i c, s.pc i ≠ .pushing c

lemma Single.of_move (h : Single s) {p : Pc} (hconns : s'.conns = [])
    (hpc : s'.pc = update s.pc i p)
    (hreleasing : ∀ c, p = .releasing c → 0 < (s'.table c).request) (hpushing : ∀ c, p ≠ .pushing c)
    (hmono : ∀ j c, s.pc j = .releasing c → (s.table c).request ≤ (s'.table c).request) :
    Single s' where
  conns := hconns
  releasing j c hj := by
    rw [hpc] at hj
    by_cases hji : j = i
    · subst hji
      rw [update_self] at hj
      exact hreleasing c hj
    · rw [update_of_ne hji] at hj
      exact (h.releasing j c hj).trans_le (hmono j c hj)
  pushing j c := by
    rw [hpc]
    by_cases hji : j = i
    · subst hji
      rw [update_self]
      exact hpushing c
    · rw [update_of_ne hji]
      exact h.pushing j c

lemma request_le_modify (s : State n) (c c' : Nat) {g : Conn → Conn}
    (hg : ∀ conn, conn.request ≤ (g conn).request) :
    (s.table c').request ≤ ((s.modify c g).table c').request :=
  State.modify_rel (R := fun a b => b.request ≤ a.request) (fun _ => le_rfl) hg s c c'

lemma Single.moved (h : Single s) (ho : Owned s) (hmax : lim.maxRequest ≤ 1)
    (hmoved : s.Moved lim i s') : Single s' := by
  cases hmoved with
  | search now r hpc hr =>
    subst hr
    refine h.of_move ?_ rfl (by rintro c ⟨⟩) (by rintro c ⟨⟩) fun _ _ _ => le_rfl
    simp [State.move, h.conns, popLoop]
  | purge c | delete c =>
    exact h.of_move h.conns rfl (by rintro c ⟨⟩) (by rintro c ⟨⟩) fun j c' _ =>
      request_le_modify s c c' (g := fun conn => { conn with live := false }) fun _ => le_rfl
  | reuse size c | count c =>
    exact h.of_move h.conns rfl (by rintro c ⟨⟩) (by rintro c ⟨⟩) fun j c' _ =>
      request_le_modify s c c' (g := fun conn => { conn with handed := conn.handed + 1 })
        fun _ => le_rfl
  | connect =>
    refine h.of_move h.conns rfl (by rintro c ⟨⟩) (by rintro c ⟨⟩) fun j c' hj => ?_
    have hne : c' ≠ s.nextConn := by
      rintro rfl
      refine (ho.notMem_of_fresh (le_refl s.nextConn)).2 j ?_
      rw [hj]
      exact List.mem_singleton_self _
    simp [State.create, State.move, hne]
  | release c =>
    refine h.of_move h.conns rfl ?_ (by rintro c ⟨⟩) fun j c' _ =>
      request_le_modify s c c' (g := fun conn => { conn with request := conn.request + 1 })
        fun _ => Nat.le_succ _
    rintro c' ⟨⟩
    simp [State.move, State.modify]
  | keep c hpc hdrops =>
    -- the connection has been used once, which is enough to drop it
    have hpos := h.releasing i c hpc
    simp only [Limits.drops, Bool.or_eq_true, not_or, decide_eq_true_eq] at hdrops
    omega
  | push c hpc => exact absurd hpc (h.pushing i c)
  | _ => exact h.of_move h.conns rfl (by rintro c ⟨⟩) (by rintro c ⟨⟩) fun _ _ _ => le_rfl

lemma Single.step (h : Single s) (ho : Owned s) (hmax : lim.maxRequest ≤ 1) {a : Action n}
    (hstep : s.step lim a = some s') : Single s' := by
  obtain ⟨i, hmoved⟩ | ⟨c, rfl⟩ | ⟨clock, -, -, rfl⟩ := State.step_cases hstep
  · exact h.moved ho hmax hmoved
  · refine ⟨h.conns, fun j c' hj => ?_, h.pushing⟩
    exact (h.releasing j c' hj).trans_le (request_le_modify s c c'
      (g := fun conn => { conn with connected := false }) fun _ => le_rfl)
  · exact ⟨h.conns, h.releasing, h.pushing⟩

lemma discards_moved {last : Nat} (h : Timely start last s)
    (hcond : lim.maxRequest ≤ 1 ∧ Single s ∨ lim.maxAliveTime < start)
    (hmoved : s.Moved lim i s') : s'.discards = s.discards := by
  cases hmoved with
  | search now r hpc hr =>
    subst hr
    have hnow := h.lookup i now hpc
    obtain ⟨-, hsingle⟩ | hpast := hcond
    · simp [State.move, State.discard, hsingle.conns, popLoop]
    have hexpired : ∀ conn : Conn, conn.createTime = 0 → lim.expired conn now = false := by
      intro conn hzero
      simp only [Limits.expired, hzero, decide_eq_false_iff_not]
      omega
    simp [State.move, State.discard, hexpired _ (h.createTime _)]
  | drop c hpc =>
    have hclock := h.clock.1
    obtain ⟨hmax, hsingle⟩ | hpast := hcond
    · have hpos := hsingle.releasing i c hpc
      have hnot : ¬ (s.table c).request < lim.maxRequest := by omega
      simp [State.move, State.discard, hnot]
    have hexpired : lim.expiredOnRelease (s.table c) s.clock = false := by
      simp only [Limits.expiredOnRelease, h.createTime, decide_eq_false_iff_not]
      omega
    simp [State.move, State.discard, hexpired]
  | _ => rfl

section Window

variable {last : Nat}

lemma reachable_run (h : (poolSystem n lim start).ReachableWith (Until last) s) (i : Fin n)
    (ok : Bool) : (poolSystem n lim start).ReachableWith (Until last) (s.runClient lim i ok) :=
  .step (a := .run i ok) h trivial rfl

def State.afterCreate (lim : Limits) (start : Nat) (i : Fin n) : State n :=
  ((((State.initial start).runClient lim i true).runClient lim i true).runClient lim i
    true).runClient lim i true

lemma reachable_afterCreate (lim : Limits) (start last : Nat) (i : Fin n) :
    (poolSystem n lim start).ReachableWith (Until last) (State.afterCreate lim start i) :=
  reachable_run (reachable_run (reachable_run (reachable_run (.init rfl) i true) i true) i true)
    i true

lemma afterCreate_spec (lim : Limits) (start : Nat) (i : Fin n) :
    (State.afterCreate lim start i).pc i = .created 0 ∧
    (State.afterCreate lim start i).clock = start ∧
    (State.afterCreate lim start i).table 0 = { live := true, born := start } ∧
    (State.afterCreate lim start i).handouts = [] ∧
    (State.afterCreate lim start i).discards = [] := by
  simp [State.afterCreate, State.initial, State.runClient, State.move, State.discard, popLoop,
    State.addTotal, State.create]

lemma exists_old_handout (lim : Limits) (i : Fin n) (hwindow : start ≤ last) :
    ∃ s, (poolSystem n lim start).ReachableWith (Until last) s ∧
      (0, last) ∈ s.handouts ∧ (s.table 0).born = start := by
  obtain ⟨hpc, hclock, htable, hhandouts, -⟩ := afterCreate_spec lim start i
  have hle : (State.afterCreate lim start i).clock ≤ last := by
    rw [hclock]
    exact hwindow
  have htick : (poolSystem n lim start).ReachableWith (Until last)
      { State.afterCreate lim start i with clock := last } :=
    .step (a := .tick last) (reachable_afterCreate lim start last i) (le_refl last) (if_pos hle)
  refine ⟨_, reachable_run htick i true, ?_, ?_⟩
  · simp [State.runClient, hpc, State.handOut, State.move, State.addTotal, State.modify]
  · simp [State.runClient, hpc, State.handOut, State.move, State.addTotal, State.modify, htable]

lemma exists_young_discard (lim : Limits) (i : Fin n) (last : Nat) (hmax : 1 < lim.maxRequest)
    (hearly : start ≤ lim.maxAliveTime) :
    ∃ s, (poolSystem n lim start).ReachableWith (Until last) s ∧
      (0, start) ∈ s.discards ∧ (s.table 0).born = start := by
  obtain ⟨hpc, hclock, htable, -, -⟩ := afterCreate_spec lim start i
  have hreach := reachable_run (reachable_run (reachable_run
    (reachable_afterCreate lim start last i) i true) i true) i true
  refine ⟨_, hreach, ?_, ?_⟩
  · simp [State.runClient, hpc, State.handOut, State.move, State.addTotal, State.modify, htable,
      hclock, State.discard, Limits.drops, Limits.expiredOnRelease, hearly, hmax]
  · simp [State.runClient, hpc, State.handOut, State.move, State.addTotal, State.modify, htable,
      hclock, State.discard, Limits.drops, Limits.expiredOnRelease, hearly]

/-- The maximal age is respected in every run within a span of time exactly if the span is shorter
and, if connections are used again, begins later than it. -/
theorem age_limit_iff (hn : 0 < n) (hwindow : start ≤ last) :
    (∀ s, (poolSystem n lim start).ReachableWith (Until last) s → AgeRespected lim s) ↔
      last < start + lim.maxAliveTime ∧ (lim.maxRequest ≤ 1 ∨ lim.maxAliveTime < start) := by
  constructor
  · intro hall
    have hspan : last < start + lim.maxAliveTime := by
      obtain ⟨s, hreach, hmem, hborn⟩ := exists_old_handout lim ⟨0, hn⟩ hwindow
      have hyoung := (hall s hreach).handouts _ hmem
      rwa [hborn] at hyoung
    refine ⟨hspan, ?_⟩
    by_contra hneither
    obtain ⟨hmax, hearly⟩ := not_or.mp hneither
    obtain ⟨s, hreach, hmem, hborn⟩ :=
      exists_young_discard lim ⟨0, hn⟩ last (Nat.lt_of_not_le hmax) (Nat.le_of_not_lt hearly)
    have hold := (hall s hreach).discards _ hmem
    rw [hborn] at hold
    omega
  rintro ⟨hspan, hcond⟩ s hreach
  have hinv : Owned s ∧ Timely start last s ∧ (lim.maxRequest ≤ 1 → Single s) ∧
      s.discards = [] := by
    refine TransitionSystem.ReachableWith.invariant (I := fun s => Owned s ∧
      Timely start last s ∧ (lim.maxRequest ≤ 1 → Single s) ∧ s.discards = []) ?_ ?_ hreach
    · rintro s rfl
      refine ⟨owned_initial start, ⟨⟨le_rfl, hwindow⟩, ?_, ?_, ?_, fun _ => rfl⟩, ?_, rfl⟩
      · rintro i now ⟨⟩
      · rintro c ⟨⟩
      · rintro e ⟨⟩
      · exact fun _ => ⟨rfl, by rintro i c ⟨⟩, by rintro i c ⟨⟩⟩
    rintro s a s' ⟨howned, htimely, hsingle, hnone⟩ hok hstep
    refine ⟨howned.step hstep, htimely.step howned hok hstep,
      fun hmax => (hsingle hmax).step howned hmax hstep, ?_⟩
    obtain ⟨i, hmoved⟩ | ⟨c, rfl⟩ | ⟨clock, -, -, rfl⟩ := State.step_cases hstep
    · rw [discards_moved htimely _ hmoved, hnone]
      exact hcond.imp_left fun hmax => ⟨hmax, hsingle hmax⟩
    · exact hnone
    · exact hnone
  obtain ⟨-, htimely, -, hnone⟩ := hinv
  refine ⟨fun e he => ?_, fun e he => ?_⟩
  · obtain ⟨hlt, htime⟩ := htimely.handouts e he
    have hborn := htimely.born e.1 hlt
    omega
  · rw [hnone] at he
    contradiction

theorem age_limit_iff_short :
    1700000000000 ≤ 1700000020000 ∧
      ∀ s, (poolSystem 3 ⟨10, 30000, 5⟩ 1700000000000).ReachableWith (Until 1700000020000) s →
        AgeRespected ⟨10, 30000, 5⟩ s :=
  ⟨by decide, (age_limit_iff (by decide) (by decide)).mpr ⟨by decide, .inr (by decide)⟩⟩

end Window

/-- A connection with a maximal age of 30 seconds is returned a minute after its
creation. -/
theorem age_exceeded :
    ∃ s, (poolSystem 1 ⟨10, 30000, 5⟩ 1700000000000).run (.initial 1700000000000)
        (checkout 0 ++ giveBack 0 ++ [.tick 1700000060000, .run 0 true, .run 0 true, .run 0 true]) =
          some s ∧
      (s.table 0).born = 1700000000000 ∧ (0, 1700000060000) ∈ s.handouts ∧
      ¬ AgeRespected ⟨10, 30000, 5⟩ s := by
  refine ⟨_, rfl, rfl, by decide, ?_⟩
  intro hage
  have hyoung := hage.handouts (0, 1700000060000) (by decide)
  revert hyoung
  decide

end Pool
end Yuyu.Http
