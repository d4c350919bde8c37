import Yuyu.Foundation.CountWhere
import Yuyu.Scheduler.Steps

/-!
# Wake-ups for timers

A timer inserted in front calls `tickle`, unless `m_tickled` says that this has happened since the
last `getNextTimer`. While the flag is set, some worker still calls `getNextTimer` or a byte is in
the pipe or on its way.
-/

namespace Yuyu.Scheduler

open Foundation Timer State Function

variable {n : Nat} {γ : Type}

def Pc.inIdle : Pc γ → Bool
  | .idleTop | .idleEvents _ | .idleQueue _ | .idleWait _ | .idleWoken | .idleExpired _
  | .idleDispatch | .leaveIdle => true
  | _ => false

/-- The worker calls `getNextTimer` before it can block. -/
def Pc.recomputes : Pc γ → Bool
  | .idleEvents _ | .idleQueue _ | .idleWait _ | .exited => false
  | _ => true

lemma Pc.recomputes_of_outside {p : Pc γ} (hout : p.inIdle = false) (hexit : p ≠ .exited) :
    p.recomputes = true := by
  cases p <;> simp_all [Pc.inIdle, Pc.recomputes]

@[simp] lemma inIdle_poll (clock nextTimeout : Nat) :
    (poll clock nextTimeout : Pc γ).inIdle = true := by
  unfold poll
  split_ifs <;> rfl

/-- The idle count is right, and a worker inside `idle` has an idle fiber that
has not ended. -/
structure IdleInv (s : State n γ) : Prop where
  count : s.idleThreadCount = countWhere Pc.inIdle s.pc
  notEnded : ∀ w, (s.pc w).inIdle = true → s.pc w ≠ .leaveIdle → s.idleFiber w ≠ .term

namespace IdleInv

variable {s : State n γ} (h : IdleInv s)
include h

lemma move {s' : State n γ} (w : Fin n) {p q : Pc γ} (hpc : s'.pc = update s.pc w p)
    (hq : s.pc w = q)
    (hcount : s'.idleThreadCount + q.inIdle.toNat = s.idleThreadCount + p.inIdle.toNat)
    (hother : ∀ v ≠ w, s'.idleFiber v = s.idleFiber v)
    (hself : p.inIdle = true → p ≠ .leaveIdle → s'.idleFiber w ≠ .term) : IdleInv s' := by
  constructor
  · have hupdate := countWhere_update Pc.inIdle s.pc w p
    rw [hq, ← hpc, ← h.count] at hupdate
    omega
  rw [hpc]
  refine (forall_update_iff s.pc fun v r =>
    r.inIdle = true → r ≠ .leaveIdle → s'.idleFiber v ≠ .term).mpr ⟨hself, fun v hv => ?_⟩
  rw [hother v hv]
  exact h.notEnded v

lemma outside {s' : State n γ} (w : Fin n) {p q : Pc γ}
    (hpc : s'.pc = update s.pc w p) (hq : s.pc w = q) (hqin : q.inIdle = false)
    (hpin : p.inIdle = false) (hcount : s'.idleThreadCount = s.idleThreadCount)
    (hfiber : s'.idleFiber = s.idleFiber) : IdleInv s' :=
  h.move w hpc hq (by rw [hqin, hpin, hcount]) (fun _ _ => by rw [hfiber]) (by simp [hpin])

lemma inside {s' : State n γ} (w : Fin n) {p q : Pc γ}
    (hpc : s'.pc = update s.pc w p) (hq : s.pc w = q) (hqin : q.inIdle = true)
    (hleave : q ≠ .leaveIdle) (hpin : p.inIdle = true)
    (hcount : s'.idleThreadCount = s.idleThreadCount)
    (hfiber : s'.idleFiber = s.idleFiber) : IdleInv s' := by
  refine h.move w hpc hq (by rw [hqin, hpin, hcount]) (fun _ _ => by rw [hfiber]) fun _ _ => ?_
  rw [hfiber]
  exact h.notEnded w (by rw [hq, hqin]) (hq ▸ hleave)

lemma count_pos {w : Fin n} (hw : (s.pc w).inIdle = true) : 0 < s.idleThreadCount := by
  rw [h.count, Nat.pos_iff_ne_zero]
  intro hzero
  simp [countWhere_eq_zero.mp hzero w] at hw

lemma next {a : Action n γ} (ha : a.Enabled s) : IdleInv (a.next s) := by
  cases a with
  | scan w | tickleMe w =>
    refine h.outside w rfl ha rfl ?_ rfl rfl
    split <;> rfl
  | enterIdle w =>
    refine h.move w rfl ha.1 rfl (fun v hv => update_of_ne hv _ _) fun _ _ => ?_
    simp [Action.next, goto, setIdleFiber]
  | leaveIdle w =>
    refine h.move w rfl ha ?_ (fun v hv => update_of_ne hv _ _) (by simp [Pc.inIdle])
    exact Nat.sub_add_cancel (h.count_pos (congrArg Pc.inIdle ha))
  | getNextTimer w | checkEvents w =>
    refine h.inside w rfl ha rfl (by simp) ?_ rfl rfl
    split
    · rfl
    · exact inIdle_poll _ _
  | checkQueue w clock =>
    cases hstop : s.schedulerStopping with
    | true =>
      refine h.move w rfl ha ?_ (fun v hv => update_of_ne hv _ _) ?_
      · simp only [hstop, if_true]
        rfl
      · simp [hstop]
    | false =>
      refine h.move w rfl ha ?_ (fun v hv => update_of_ne hv _ _) fun _ _ => ?_
      · simp only [hstop, Bool.false_eq_true, if_false, inIdle_poll]
        rfl
      simp only [Action.next, hstop, Bool.false_eq_true, if_false, goto, setIdleFiber, update_self]
      have hpc : s.pc w = .idleQueue clock := ha
      exact h.notEnded w (by rw [hpc]; rfl) (by simp [hpc])
  | wake w | scheduleExpired w | swapOutIdle w =>
    exact h.inside w rfl ha rfl (by simp) rfl rfl rfl
  | listExpiredCb w => exact h.inside w rfl ha.1 rfl (by simp) rfl rfl rfl
  | resume w | skip w | newCbFiber w | resetCbFiber w | exit w | swapIn w | yield w | fixupReady w
  | fixupEnded w | fixupOther w =>
    exact h.outside w rfl ha.1 rfl rfl rfl rfl
  | tickleWrite w | swapOut w | returned w | requeue w | setHold w =>
    exact h.outside w rfl ha rfl rfl rfl rfl
  | drain | schedule | tickle | tickleDone | addEvent | trigger | delEvent | timer | tick | newFiber
  | stop => exact ⟨h.count, h.notEnded⟩

end IdleInv

/-! ## Timeouts -/

lemma poll_zero (clock : Nat) : (poll clock 0 : Pc γ) = .idleWoken := rfl

lemma poll_of_lt (clock timeout : Nat) (hpos : 0 < timeout) (hlt : timeout < 2 ^ 31) :
    ∃ d, (poll clock timeout : Pc γ) = .idleWait (some d) ∧ d ≤ clock + timeout := by
  have hne : timeout ≠ word64 - 1 := by
    unfold word64
    omega
  have htimeout :
      pollTimeout timeout = if (timeout : Int) > 5000 then 5000 else (timeout : Int) := by
    rw [pollTimeout, if_pos hne, toInt32_of_lt hlt]
  refine ⟨clock + (pollTimeout timeout).toNat, ?_, ?_⟩
  · rw [poll, if_neg (by rw [htimeout]; split <;> omega),
      if_neg (by rw [htimeout]; split <;> omega)]
  · rw [htimeout]
    split <;> omega

lemma first_le {m : TimerManager γ} (h : m.Inv) {a : Nat} {rest : List Nat}
    (htimers : m.timers = a :: rest) : ∀ b ∈ m.timers, (m.object a).next ≤ (m.object b).next := by
  intro b hb
  rw [htimers] at hb
  rcases List.mem_cons.mp hb with rfl | hb
  · exact le_rfl
  have hsorted := h.sorted
  rw [htimers] at hsorted
  have := (m.before_iff a b).mp ((List.pairwise_cons.mp hsorted).1 b hb)
  omega

def Late (s : State n γ) : Option Nat → Prop
  | none => True
  | some d => ∃ a ∈ s.timers.timers, (s.timers.object a).next < d

/-- A timer is pending, every worker that has not left `run` is blocked in
`epoll_wait` beyond the earliest due time, and no wake-up is on its way. -/
def TimerLost (s : State n γ) : Prop :=
  s.timers.timers ≠ [] ∧ (∃ w, s.pc w ≠ .exited) ∧
    (∀ w, s.pc w ≠ .exited → ∃ deadline, s.pc w = .idleWait deadline ∧ Late s deadline) ∧
    s.pipe = 0 ∧ s.tickleCalls .timer = 0 ∧ s.tickleWrites .timer = 0

/-- The clock does not go backwards, the clock values read are not in the
future, and timers are armed to be due soon. -/
def Timely (s : State n γ) : Action n γ → Prop
  | .tick t => s.now ≤ t
  | .timer op => op.Timely s.now s.timers
  | .listExpiredCb _ clock _ =>
    clock ≤ s.now ∧ ∀ a ∈ s.timers.timers, (s.timers.object a).recurring = true →
      DueSoon s.now (clock + (s.timers.object a).ms)
  | _ => True

instance (s : State n γ) (a : Action n γ) : Decidable (Timely s a) := by
  induction a using Action.casesOn <;> dsimp only [Timely] <;> infer_instance

/-- A worker that can still enter `idle`, or is in it. -/
def Alive (s : State n γ) (w : Fin n) : Prop := s.pc w ≠ .exited ∧ s.idleFiber w ≠ .term

/-- Some worker still calls `getNextTimer`, or a byte is in the pipe or on its
way to it. -/
def Alert (s : State n γ) : Prop :=
  (∃ w, (s.pc w).recomputes = true ∧ s.idleFiber w ≠ .term) ∨
    0 < s.pipe ∨ 0 < s.tickleCalls .timer ∨ 0 < s.tickleWrites .timer

def Guarded (s : State n γ) : Prop :=
  ∃ w d, s.pc w = .idleWait (some d) ∧ ∀ a ∈ s.timers.timers, d ≤ (s.timers.object a).next

/-- The invariant that ties the flag `m_tickled`, the pipe and the deadlines of
the workers to the timers. -/
structure TimersWatched (s : State n γ) : Prop where
  inv : s.timers.Inv
  armed : Armed s.now s.timers
  front : s.timers.timers ≠ [] → (∃ w, Alive s w) → Alert s ∨ Guarded s
  tickled : s.timers.tickled = true → (∃ w, Alive s w) → Alert s

lemma TimersWatched.of_alert {s : State n γ} (hinv : s.timers.Inv) (harmed : Armed s.now s.timers)
    (h : Alert s) : TimersWatched s := ⟨hinv, harmed, fun _ _ => Or.inl h, fun _ _ => h⟩

/-- What a step of one worker from `q` to `p` leaves alone. -/
structure WorkerStep (s s' : State n γ) (w : Fin n) (q p : Pc γ) : Prop where
  before : s.pc w = q
  pc : s'.pc = update s.pc w p
  idleFiber : ∀ v ≠ w, s'.idleFiber v = s.idleFiber v
  timers : s'.timers = s.timers
  now : s'.now = s.now
  pipe : s.pipe ≤ s'.pipe
  calls : s.tickleCalls .timer ≤ s'.tickleCalls .timer
  writes : s.tickleWrites .timer ≤ s'.tickleWrites .timer

namespace TimersWatched

variable {s : State n γ} (h : TimersWatched s)
include h

lemma move {s' : State n γ} {w : Fin n} {q p : Pc γ} (hstep : WorkerStep s s' w q p)
    (hwait : ∀ d, q ≠ .idleWait d)
    (hkeep : q.recomputes = true → s.idleFiber w ≠ .term →
      p.recomputes = true ∧ s'.idleFiber w ≠ .term)
    (halive : p ≠ .exited → s'.idleFiber w ≠ .term → q ≠ .exited ∧ s.idleFiber w ≠ .term) :
    TimersWatched s' := by
  have hself : s'.pc w = p := by rw [hstep.pc, update_self]
  have hpc {v : Fin n} (hv : v ≠ w) : s'.pc v = s.pc v := by
    rw [hstep.pc, update_of_ne hv]
  have hlive : (∃ v, Alive s' v) → ∃ v, Alive s v := by
    rintro ⟨v, hexit, hfiber⟩
    refine ⟨v, ?_⟩
    by_cases hv : v = w
    · subst hv
      rw [Alive, hstep.before]
      exact halive (hself ▸ hexit) hfiber
    rw [hpc hv] at hexit
    rw [hstep.idleFiber v hv] at hfiber
    exact ⟨hexit, hfiber⟩
  have halert : Alert s → Alert s' := by
    rintro (⟨v, hrec, hfiber⟩ | hpipe | hcalls | hwrites)
    · refine Or.inl ⟨v, ?_⟩
      by_cases hv : v = w
      · subst hv
        rw [hself]
        exact hkeep (hstep.before ▸ hrec) hfiber
      · rw [hpc hv, hstep.idleFiber v hv]
        exact ⟨hrec, hfiber⟩
    · exact Or.inr (Or.inl (lt_of_lt_of_le hpipe hstep.pipe))
    · exact Or.inr (Or.inr (Or.inl (lt_of_lt_of_le hcalls hstep.calls)))
    · exact Or.inr (Or.inr (Or.inr (lt_of_lt_of_le hwrites hstep.writes)))
  have hguard : Guarded s → Guarded s' := by
    rintro ⟨v, d, hv, hle⟩
    refine ⟨v, d, ?_, by rw [hstep.timers]; exact hle⟩
    rw [hpc fun hvw => hwait _ (hstep.before.symm.trans (hvw ▸ hv))]
    exact hv
  refine ⟨hstep.timers ▸ h.inv, ?_, fun hne hex => ?_, fun ht hex => ?_⟩
  · rw [hstep.now, hstep.timers]
    exact h.armed
  · rw [hstep.timers] at hne
    exact (h.front hne (hlive hex)).imp halert hguard
  · rw [hstep.timers] at ht
    exact halert (h.tickled ht (hlive hex))

lemma busy {s' : State n γ} {w : Fin n} {q p : Pc γ} (hstep : WorkerStep s s' w q p)
    (hwait : ∀ d, q ≠ .idleWait d) (hexit : q ≠ .exited) (hp : p.recomputes = true)
    (hfiber : s'.idleFiber w = s.idleFiber w) : TimersWatched s' := by
  refine h.move hstep hwait (fun _ hend => ⟨hp, ?_⟩) fun _ hend => ⟨hexit, ?_⟩
  · rwa [hfiber]
  · rwa [hfiber] at hend

lemma same {s' : State n γ} (hpc : s'.pc = s.pc) (hfiber : s'.idleFiber = s.idleFiber)
    (htimers : s'.timers = s.timers) (hnow : s'.now = s.now) (halert : Alert s → Alert s') :
    TimersWatched s' := by
  have hlive : (∃ v, Alive s' v) → ∃ v, Alive s v := by
    rintro ⟨v, hexit, hend⟩
    exact ⟨v, hpc ▸ hexit, hfiber ▸ hend⟩
  refine ⟨htimers ▸ h.inv, ?_, fun hne hex => ?_, fun ht hex => ?_⟩
  · rw [hnow, htimers]
    exact h.armed
  · rw [htimers] at hne
    refine (h.front hne (hlive hex)).imp halert ?_
    rintro ⟨v, d, hv, hle⟩
    exact ⟨v, d, by rw [hpc, hv], by rw [htimers]; exact hle⟩
  · rw [htimers] at ht
    exact halert (h.tickled ht (hlive hex))

theorem getNextTimer {w : Fin n} (hend : s.idleFiber w ≠ .term) :
    TimersWatched ((Action.getNextTimer w).next s) := by
  have hinv : (s.timers.getNextTimer s.now).1.Inv :=
    ⟨h.inv.live_of_mem, h.inv.live_of_out, h.inv.out_not_mem, h.inv.out_nodup, h.inv.mem_iff,
      h.inv.sorted⟩
  refine ⟨hinv, h.armed, fun hne _ => ?_, fun ht => Bool.noConfusion ht⟩
  obtain ⟨a, rest, htimers⟩ := List.exists_cons_of_ne_nil (show s.timers.timers ≠ [] from hne)
  obtain ⟨-, -, hsoon, hword⟩ := h.armed a (by simp [htimers])
  have hself : ((Action.getNextTimer w).next s).pc w =
      if (s.timers.getNextTimer s.now).2 = word64 - 1 then .idleEvents s.now
      else poll s.now (s.timers.getNextTimer s.now).2 := update_self _ _ _
  by_cases hdue : s.now ≥ (s.timers.object a).next
  · have htimeout : (s.timers.getNextTimer s.now).2 = 0 := by
      simp only [TimerManager.getNextTimer, htimers, if_pos hdue]
    rw [htimeout, if_neg (by decide), poll_zero] at hself
    exact Or.inl (Or.inl ⟨w, by rw [hself]; rfl, hend⟩)
  have htimeout : (s.timers.getNextTimer s.now).2 = (s.timers.object a).next - s.now := by
    simp only [TimerManager.getNextTimer, htimers, if_neg hdue]
    exact sub64_eq hword (by omega)
  obtain ⟨d, hpoll, hd⟩ := poll_of_lt (γ := γ) s.now ((s.timers.object a).next - s.now)
    (by omega) (by omega)
  rw [htimeout, if_neg (by unfold word64; omega), hpoll] at hself
  refine Or.inr ⟨w, d, hself, fun b hb => ?_⟩
  have hfirst : (s.timers.object a).next ≤ (s.timers.object b).next :=
    first_le h.inv htimers b hb
  have hle : d ≤ (s.timers.object b).next := by omega
  exact hle

lemma timer {op : Timer.Op γ} (ha : (Action.timer op : Action n γ).Enabled s)
    (htimely : op.Timely s.now s.timers) :
    TimersWatched ((Action.timer op : Action n γ).next s) := by
  obtain ⟨hop, hcall⟩ := ha
  obtain ⟨r, hr⟩ := Option.isSome_iff_exists.mp hcall
  have hrearms := Timer.Op.call_spec h.inv hop h.armed htimely hr
  have hnext : (Action.timer op : Action n γ).next s =
      { s with timers := r.1 }.callTickle .timer r.2 := by
    simp only [Action.next, hr, Option.getD_some]
  rw [hnext]
  set s' : State n γ := { s with timers := r.1 }.callTickle .timer r.2 with hs'
  have hcalls : s'.tickleCalls .timer = s.tickleCalls .timer + r.2.toNat := by
    simp [hs', callTickle]
  have halert : Alert s → Alert s' := by
    rintro (hrec | hpipe | hcall | hwrite)
    · exact Or.inl hrec
    · exact Or.inr (Or.inl hpipe)
    · exact Or.inr (Or.inr (Or.inl (by omega)))
    · exact Or.inr (Or.inr (Or.inr hwrite))
  have hfront : r.2 = true → Alert s' := fun hr2 =>
    Or.inr (Or.inr (Or.inl (by simp [hcalls, hr2])))
  refine ⟨Timer.Op.inv_of_call h.inv hop hr, hrearms.armed, fun hne hex => ?_, fun ht hex => ?_⟩
  · by_cases hr2 : r.2 = true
    · exact Or.inl (hfront hr2)
    by_cases htickled : s.timers.tickled = true
    · exact Or.inl (halert (h.tickled htickled hex))
    -- no due time has become earlier, so a blocked worker still wakes up in time
    have hlater := hrearms.later (by simpa using hr2) (by simpa using htickled)
    obtain ⟨a, rest, htimers⟩ := List.exists_cons_of_ne_nil (show r.1.timers ≠ [] from hne)
    obtain ⟨b, hb, -⟩ := hlater a (by simp [htimers])
    refine (h.front (List.ne_nil_of_mem hb) hex).imp halert ?_
    rintro ⟨v, d, hv, hle⟩
    refine ⟨v, d, hv, fun x hx => ?_⟩
    obtain ⟨c, hc, hcx⟩ := hlater x hx
    exact le_trans (hle c hc) hcx
  have ht' : (s.timers.tickled || r.2) = true := hrearms.tickled ▸ ht
  rcases Bool.or_eq_true_iff.mp ht' with htickled | hr2
  · exact halert (h.tickled htickled hex)
  · exact hfront hr2

theorem tickle (hidle : IdleInv s) (t : Tickler) :
    TimersWatched ((Action.tickle t : Action n γ).next s) := by
  cases t with
  | schedule | stop => exact h.same rfl rfl rfl rfl id
  | timer =>
    have halert (hex : ∃ w, Alive s w) : Alert ((Action.tickle .timer : Action n γ).next s) := by
      by_cases hzero : s.idleThreadCount = 0
      · obtain ⟨w, hexit, hend⟩ := hex
        have hout := countWhere_eq_zero.mp (hidle.count.symm.trans hzero) w
        exact Or.inl ⟨w, Pc.recomputes_of_outside hout hexit, hend⟩
      · right; right; right
        simp [Action.next, Nat.pos_of_ne_zero hzero]
    exact ⟨h.inv, h.armed, fun _ hex => Or.inl (halert hex), fun _ hex => halert hex⟩

lemma next (hidle : IdleInv s) {a : Action n γ} (ha : a.Enabled s) (htimely : Timely s a) :
    TimersWatched (a.next s) := by
  have hstep {w : Fin n} {q p : Pc γ} {s' : State n γ} (hq : s.pc w = q)
      (hpc : s'.pc = update s.pc w p) (hfiber : s'.idleFiber = s.idleFiber)
      (htimers : s'.timers = s.timers) (hnow : s'.now = s.now) (hpipe : s.pipe ≤ s'.pipe)
      (hcalls : s.tickleCalls .timer ≤ s'.tickleCalls .timer)
      (hwrites : s.tickleWrites .timer ≤ s'.tickleWrites .timer) : WorkerStep s s' w q p :=
    ⟨hq, hpc, fun v _ => by rw [hfiber], htimers, hnow, hpipe, hcalls, hwrites⟩
  cases a with
  | scan | tickleMe =>
    refine h.busy (hstep ha rfl rfl rfl rfl le_rfl le_rfl le_rfl) (by simp) (by simp) ?_ rfl
    split <;> rfl
  | tickleWrite w ft =>
    exact h.busy (hstep ha rfl rfl rfl rfl (Nat.le_succ _) le_rfl le_rfl) (by simp) (by simp)
      rfl rfl
  | resume w | skip w | newCbFiber w | resetCbFiber w | swapIn w | yield w | fixupReady w
  | fixupEnded w | fixupOther w =>
    exact h.busy (hstep ha.1 rfl rfl rfl rfl le_rfl le_rfl le_rfl) (by simp) (by simp) rfl rfl
  | swapOut w | returned w | requeue w | setHold w | scheduleExpired w | swapOutIdle w =>
    exact h.busy (hstep ha rfl rfl rfl rfl le_rfl le_rfl le_rfl) (by simp) (by simp) rfl rfl
  | exit w =>
    refine h.move (hstep ha.1 rfl rfl rfl rfl le_rfl le_rfl le_rfl) (by simp) ?_ (by simp)
    exact fun _ hend => absurd ha.2 hend
  | enterIdle w =>
    refine .of_alert h.inv h.armed (Or.inl ⟨w, ?_, ?_⟩) <;>
      simp [Action.next, goto, setIdleFiber, Pc.recomputes]
  | getNextTimer w =>
    have hpc : s.pc w = .idleTop := ha
    exact h.getNextTimer (hidle.notEnded w (by rw [hpc]; rfl) (by simp [hpc]))
  | checkEvents w clock =>
    refine h.move (hstep ha rfl rfl rfl rfl le_rfl le_rfl le_rfl) (by simp) ?_ ?_
    · simp [Pc.recomputes]
    · exact fun _ hend => ⟨by simp, hend⟩
  | checkQueue w clock =>
    refine h.move ⟨ha, rfl, fun v hv => update_of_ne hv _ _, rfl, rfl, le_rfl, le_rfl,
      le_rfl⟩ (by simp) (by simp [Pc.recomputes]) fun _ hend => ⟨by simp, ?_⟩
    simp only [Action.next, goto, setIdleFiber, update_self] at hend
    split at hend
    · simp at hend
    · exact hend
  | wake w deadline =>
    have hpc : s.pc w = .idleWait deadline := ha
    have hend := hidle.notEnded w (by rw [hpc]; rfl) (by simp [hpc])
    exact .of_alert h.inv h.armed (Or.inl ⟨w, by simp [Action.next, goto, Pc.recomputes], hend⟩)
  | listExpiredCb w clock probe =>
    have hend := hidle.notEnded w (by rw [ha.1]; rfl) (by simp [ha.1])
    refine .of_alert (h.inv.listExpiredCb clock probe) ?_
      (Or.inl ⟨w, by simp [Action.next, goto, Pc.recomputes], hend⟩)
    exact Armed.listExpiredCb h.inv h.armed htimely.1 htimely.2 probe
  | drain w =>
    have hpc : s.pc w = .idleDispatch := ha
    have hend := hidle.notEnded w (by rw [hpc]; rfl) (by simp [hpc])
    exact .of_alert h.inv h.armed (Or.inl ⟨w, congrArg Pc.recomputes hpc, hend⟩)
  | leaveIdle w =>
    refine h.move ⟨ha, rfl, fun v hv => update_of_ne hv _ _, rfl, rfl, le_rfl, le_rfl,
      le_rfl⟩ (by simp) (fun _ hend => ⟨rfl, ?_⟩) fun _ hend => ⟨by simp, ?_⟩
    · simp only [Action.next, goto, setIdleFiber, update_self, FiberState.settle]
      split <;> simp [hend]
    · rintro hterm
      simp [Action.next, goto, setIdleFiber, FiberState.settle, hterm] at hend
  | tickle t => exact h.tickle hidle t
  | tickleDone t =>
    exact .of_alert h.inv h.armed (Or.inr (Or.inl (Nat.succ_pos _)))
  | timer op => exact h.timer ha htimely
  | tick t => exact ⟨h.inv, h.armed.mono htimely, h.front, h.tickled⟩
  | schedule | addEvent | trigger | delEvent | newFiber | stop => exact h.same rfl rfl rfl rfl id

end TimersWatched

lemma timersWatched_of_reachable [DecidableEq γ] {s : State n γ}
    (h : (workerSystem n γ).ReachableWith Timely s) : IdleInv s ∧ TimersWatched s := by
  refine TransitionSystem.ReachableWith.invariant (I := fun s => IdleInv s ∧ TimersWatched s)
    ?_ ?_ h
  · rintro s ⟨now, rfl⟩
    refine ⟨⟨?_, by simp [initial, Pc.inIdle]⟩, ?_⟩
    · exact (countWhere_eq_zero.mpr fun _ => rfl).symm
    · exact ⟨Timer.inv_of_reachable (.init ⟨now, rfl⟩),
        by simp [Armed, initial, TimerManager.initial],
        by simp [initial, TimerManager.initial], by simp [initial, TimerManager.initial]⟩
  rintro s a s' ⟨hidle, hwatched⟩ htimely hstep
  obtain ⟨ha, rfl⟩ := workerSystem_step hstep
  exact ⟨hidle.next ha, hwatched.next hidle ha htimely⟩

/-- With a clock that does not go backwards and timers due within `2^31` ms, no
timer is left to workers that wake up too late without a wake-up on its way. -/
theorem timer_wakeup [DecidableEq γ] {s : State n γ}
    (h : (workerSystem n γ).ReachableWith Timely s) : ¬ TimerLost s := by
  rintro ⟨hne, ⟨w, hw⟩, hblocked, hpipe, hcalls, hwrites⟩
  obtain ⟨hidle, hwatched⟩ := timersWatched_of_reachable h
  have halive : Alive s w := by
    obtain ⟨deadline, hpc, -⟩ := hblocked w hw
    exact ⟨hw, hidle.notEnded w (by rw [hpc]; rfl) (by simp [hpc])⟩
  rcases hwatched.front hne ⟨w, halive⟩ with (⟨v, hrec, -⟩ | hway | hway | hway) | ⟨v, d, hv, hle⟩
  · obtain ⟨deadline, hpc, -⟩ := hblocked v fun hexit => by simp [hexit, Pc.recomputes] at hrec
    simp [hpc, Pc.recomputes] at hrec
  · omega
  · omega
  · omega
  obtain ⟨deadline, hpc, hlate⟩ := hblocked v (by simp [hv])
  obtain rfl : some d = deadline := by simpa [hv] using hpc
  obtain ⟨a, ha, hlt⟩ := hlate
  exact absurd (hle a ha) (by omega)

def timerForSleeper : List (Action 1 Unit) :=
  let w : Fin 1 := Fin.last 0
  [.scan w, .enterIdle w, .getNextTimer w, .checkEvents w 100, .checkQueue w 100,
    .timer (.addTimer 0 100 50 (.user ()) false), .tickle .timer, .tickleDone .timer]

theorem timer_wakeup_sleeper :
    ∃ s, (workerSystem 1 Unit).runWith Timely (initial 1 Unit 100) timerForSleeper = some s ∧
      s.pc 0 = .idleWait (some 5100) ∧ s.timers.timers = [0] ∧
      (s.timers.object 0).next = 150 ∧ s.pipe = 1 ∧ ¬ TimerLost s := by
  have hrun : (workerSystem 1 Unit).runWith Timely (initial 1 Unit 100) timerForSleeper =
      some _ := rfl
  exact ⟨_, hrun, rfl, rfl, rfl, rfl,
    timer_wakeup (TransitionSystem.reachableWith_of_init hrun ⟨100, rfl⟩)⟩

end Yuyu.Scheduler
