import Yuyu.Timer.Expiry
import Yuyu.Timer.Reports

/-!
# The table of pending timers

What the manager is for: a table of the pending timers. The ordered set with its mutable keys, and
the callbacks that the code tests instead of the set, realise this table.
-/

namespace Yuyu.Timer

open Foundation List Function

universe u

variable {γ : Type u}

abbrev Table (γ : Type u) := Addr → Option (TimerObject γ)

/-- What a call does to the table.  The flag says that the clock has been set back. -/
def Table.after (T : Table γ) (rollover : Bool) : Op γ → Table γ
  | .addTimer a now ms cb recurring => update T a (some ⟨ms, some cb, recurring, add64 now ms⟩)
  | .addConditionTimer a now ms cb weakCond recurring =>
    update T a (some ⟨ms, some (.onTimer weakCond cb), recurring, add64 now ms⟩)
  | .cancel a => update T a none
  | .refresh a now => update T a ((T a).map fun t => { t with next := add64 now t.ms })
  | .reset a ms fromNow now =>
    update T a ((T a).map fun t =>
      { t with ms := ms, next := add64 (if fromNow then now else sub64 t.next t.ms) ms })
  | .getNextTimer _ | .release _ => T
  | .listExpiredCb now _ => fun a => (T a).bind fun t =>
    if rollover = false ∧ now < t.next then some t
    else if t.recurring then some { t with next := add64 now t.ms }
    else none

namespace TimerManager

def table (m : TimerManager γ) : Table γ :=
  fun a => if a ∈ m.timers then some (m.object a) else none

/-- The call finds that the clock has been set back. -/
def rollsOver (m : TimerManager γ) : Op γ → Bool
  | .listExpiredCb now _ => (m.detectClockRollover now).2
  | _ => false

/-- The call hands out the callback of the timer `a`. -/
def fires (m : TimerManager γ) (a : Addr) : Op γ → Bool
  | .listExpiredCb now _ => decide (a ∈ m.due now)
  | _ => false

end TimerManager

open TimerManager

variable {m m' : TimerManager γ} {a : Addr} {t : TimerObject γ} {op : Op γ}

lemma table_eq_none : m.table a = none ↔ a ∉ m.timers := by
  simp [table]

lemma table_of_mem (ha : a ∈ m.timers) : m.table a = some (m.object a) := if_pos ha

lemma table_update (h : m.Inv) (h' : m'.Inv) (hobject : m'.object = update m.object a t)
    (hlive : m'.live = update m.live a true) :
    m'.table = update m.table a (if t.cb.isSome then some t else none) := by
  funext x
  simp only [table, pending_iff h', hobject, hlive]
  by_cases hx : x = a
  · subst hx
    cases hcb : t.cb <;> simp [hcb]
  · simp [hx, table, pending_iff h]

lemma Rewrites.table (h : m.Inv) (h' : m'.Inv) (ha : m.live a = true) (hr : Rewrites m a t m') :
    m'.table = update m.table a (if t.cb.isSome then some t else none) := by
  refine table_update h h' hr.object ?_
  rw [hr.live, ← ha, update_eq_self]

lemma table_map (h : m.Inv) (h' : m'.Inv) (ha : m.live a = true)
    {f : TimerObject γ → TimerObject γ} (hcb : ∀ t, (f t).cb = t.cb) (hsame : a ∉ m.timers → m' = m)
    (hdone : a ∈ m.timers → Rewrites m a (f (m.object a)) m') :
    m'.table = update m.table a ((m.table a).map f) := by
  by_cases hmem : a ∈ m.timers
  · have hsome := Option.isSome_iff_ne_none.mpr ((pending_iff h a).mp hmem).2
    rw [(hdone hmem).table h h' ha, table_of_mem hmem, hcb, if_pos hsome, Option.map_some]
  · rw [hsame hmem, table_eq_none.mpr hmem, Option.map_none, ← table_eq_none.mpr hmem,
      update_eq_self]

lemma listExpiredCb_table (h : m.Inv) {probe : Addr} (hprobe : m.live probe = false) (now : Nat) :
    (m.listExpiredCb now probe).1.table =
      m.table.after (m.detectClockRollover now).2 (.listExpiredCb now probe) := by
  have hmem : probe ∉ m.timers := fun hin => by simp [h.live_of_mem probe hin] at hprobe
  obtain ⟨-, rest, hrest, hall⟩ := listExpiredCb_renewed h.sorted hmem now
  funext x
  have hdue : x ∈ m.due now ↔ x ∈ m.timers ∧
      ¬ ((m.detectClockRollover now).2 = false ∧ now < (m.object x).next) := by
    simp [due, or_iff_not_imp_left]
  simp only [TimerManager.table, Table.after, hall.mem_iff, hall.object, hrest, hdue]
  by_cases hx : x ∈ m.timers
  · by_cases hwait : (m.detectClockRollover now).2 = false ∧ now < (m.object x).next
    · simp [hx, hwait]
    · cases hrec : (m.object x).recurring <;> simp [hx, hwait, hrec, renew]
  · simp [hx]

lemma exec_table (h : m.Inv) (hwords : Words m) (hop : op.Allowed m) (hexec : op.exec m = some m') :
    m'.table = m.table.after (m.rollsOver op) op := by
  obtain ⟨m₁, hexec', hinv⟩ := Op.exec_inv h hop
  cases hexec.symm.trans hexec'
  cases op with
  | addTimer a now ms cb recurring | addConditionTimer a now ms cb weakCond recurring =>
    cases hexec
    exact table_update h hinv rfl rfl
  | cancel a =>
    obtain ⟨m₁, r, hrun, hiff, hsame, hdone⟩ := cancel_reports h hop
    simp only [Op.exec, hrun, Option.map_some, Option.some.injEq] at hexec
    subst hexec
    cases r with
    | false =>
      have hnone : m.table a = none := table_eq_none.mpr (by simpa using hiff)
      rw [hsame rfl, Table.after, ← hnone, update_eq_self]
    | true => exact (hdone rfl).2.table h hinv hop
  | refresh a now =>
    obtain ⟨m₁, r, hrun, hiff, hsame, hdone⟩ := refresh_reports h hop now
    simp only [Op.exec, hrun, Option.map_some, Option.some.injEq] at hexec
    subst hexec
    refine table_map h hinv hop (fun _ => rfl) (fun hnot => hsame ?_) fun hmem =>
      (hdone (hiff.mpr hmem)).2
    simpa [← hiff] using hnot
  | reset a ms fromNow now =>
    obtain ⟨r, hrun, -, hsame, hdone⟩ := reset_reports h hop (hwords a) ms fromNow now
    simp only [Op.exec, hrun, Option.map_some, Option.some.injEq] at hexec
    subst hexec
    exact table_map h hinv hop (fun _ => rfl) hsame fun hmem => (hdone hmem).2.2
  | getNextTimer now =>
    cases hexec
    rfl
  | release a =>
    cases hexec
    rfl
  | listExpiredCb now probe =>
    cases hexec
    exact listExpiredCb_table h hop now

/-- In every state reached a call succeeds and acts on the table of the pending timers; nothing else
of the state, but for a clock that has been set back, decides how. -/
theorem manager_refines_table (h : (timerSystem γ).Reachable m) (hop : op.Allowed m) :
    ∃ m', op.exec m = some m' ∧ m'.table = m.table.after (m.rollsOver op) op := by
  have hinv := inv_of_reachable h
  obtain ⟨m', hexec, -⟩ := Op.exec_inv hinv hop
  exact ⟨m', hexec, exec_table hinv (words_of_reachable h) hop hexec⟩

theorem manager_refines_table_refresh :
    ∃ m m', (timerSystem Nat).run (.initial 100) [.addTimer 7 100 50 (.user 1) false] = some m ∧
      (Op.refresh 7 120).exec m = some m' ∧
      m'.table = m.table.after (m.rollsOver (.refresh 7 120)) (.refresh 7 120) ∧
      (m'.table 7).map TimerObject.next = some 170 := by
  have hadd : (timerSystem Nat).run (.initial 100) [.addTimer 7 100 50 (.user 1) false] =
      some _ := rfl
  have hreach : (timerSystem Nat).Reachable _ := TransitionSystem.reachable_of_run ⟨100, rfl⟩ hadd
  obtain ⟨m', hexec, htable⟩ :=
    manager_refines_table hreach (show (Op.refresh 7 120).Allowed _ by decide)
  refine ⟨_, m', hadd, hexec, htable, ?_⟩
  rw [htable]
  rfl

/-! ## The life of a timer -/

def Op.constructs : Op γ → Option Addr
  | .addTimer a .. | .addConditionTimer a .. => some a
  | _ => none

/-- How often the callback of the timer `a` is handed out when the calls are made. -/
def firings (a : Addr) : TimerManager γ → List (Op γ) → Nat
  | _, [] => 0
  | m, op :: ops => (m.fires a op).toNat + ((op.exec m).map fun m => firings a m ops).getD 0

/-- The call finds the timer due. -/
def Op.expires (rollover : Bool) (t : TimerObject γ) : Op γ → Bool
  | .listExpiredCb now _ => rollover || decide (t.next ≤ now)
  | _ => false

lemma Table.after_none {T : Table γ} {r : Bool} (hT : T a = none) (hnew : op.constructs ≠ some a) :
    T.after r op a = none := by
  cases op with
  | addTimer b | addConditionTimer b =>
    have hb : a ≠ b := fun heq => hnew (congrArg some heq.symm)
    simpa [Table.after, hb] using hT
  | cancel b | refresh b | reset b =>
    rcases eq_or_ne a b with rfl | hb
    · simp [Table.after, hT]
    · simp [Table.after, hT, hb]
  | getNextTimer | release => exact hT
  | listExpiredCb => simp [Table.after, hT]

lemma Table.after_some {T : Table γ} {r : Bool} (hT : T a = some t)
    (hnew : op.constructs ≠ some a) :
    (T.after r op a = none ↔ op = .cancel a ∨ op.expires r t = true ∧ t.recurring = false) ∧
      ∀ t' ∈ T.after r op a, t'.recurring = t.recurring := by
  cases op with
  | addTimer b | addConditionTimer b =>
    have hb : a ≠ b := fun heq => hnew (congrArg some heq.symm)
    simp [Table.after, Op.expires, hb, hT]
  | cancel b | refresh b | reset b =>
    rcases eq_or_ne b a with rfl | hb
    · simp [Table.after, Op.expires, hT]
    · simp [Table.after, Op.expires, hT, hb, hb.symm]
  | getNextTimer | release => simp [Table.after, Op.expires, hT]
  | listExpiredCb now probe =>
    simp only [Table.after, Op.expires, hT, Option.bind_some]
    split_ifs with hwait hrec
    · simp [hwait]
    · simp [hrec]
    · simpa [hrec, or_iff_not_imp_left] using hwait

lemma pending_exec (h : (timerSystem γ).Reachable m) (hop : op.Allowed m)
    (hexec : op.exec m = some m') (hnew : op.constructs ≠ some a) :
    (a ∉ m.timers → a ∉ m'.timers ∧ m.fires a op = false) ∧
      (a ∈ m.timers → (a ∈ m'.timers ↔
          op ≠ .cancel a ∧ (m.fires a op = true → (m.object a).recurring = true)) ∧
        (a ∈ m'.timers → (m'.object a).recurring = (m.object a).recurring)) := by
  have htable := congrFun (exec_table (inv_of_reachable h) (words_of_reachable h) hop hexec) a
  constructor <;> intro ha
  · refine ⟨table_eq_none.mp (htable.trans (Table.after_none (table_eq_none.mpr ha) hnew)), ?_⟩
    cases op with
    | listExpiredCb now probe => simp [fires, due, ha]
    | _ => rfl
  · have hfires : m.fires a op = op.expires (m.rollsOver op) (m.object a) := by
      cases op with
      | listExpiredCb now probe => simp [fires, due, ha, Op.expires, rollsOver]
      | _ => rfl
    obtain ⟨hnone, hrec⟩ := Table.after_some (r := m.rollsOver op) (table_of_mem ha) hnew
    rw [← htable, table_eq_none, ← hfires] at hnone
    rw [← htable] at hrec
    refine ⟨?_, fun hmem => hrec _ (table_of_mem hmem)⟩
    rw [← not_iff_not, hnone]
    simp [imp_iff_not_or]

/-- A timer that is not pending never fires again, a recurring one stays pending until it is
cancelled, and a one-shot timer fires at most once. -/
theorem timer_life (h : (timerSystem γ).Reachable m) {ops : List (Op γ)}
    (hrun : (timerSystem γ).run m ops = some m') (hnew : ∀ op ∈ ops, op.constructs ≠ some a) :
    (a ∉ m.timers → firings a m ops = 0 ∧ a ∉ m'.timers) ∧
      (a ∈ m.timers → (m.object a).recurring = true → (a ∈ m'.timers ↔ .cancel a ∉ ops)) ∧
      (a ∈ m.timers → (m.object a).recurring = false → firings a m ops ≤ 1 ∧
        (a ∈ m'.timers ↔ firings a m ops = 0 ∧ .cancel a ∉ ops)) := by
  induction ops generalizing m with
  | nil =>
    cases hrun
    simp +contextual [firings]
  | cons op ops ih =>
    simp only [TransitionSystem.run, TransitionSystem.runWith, if_true] at hrun
    split at hrun
    · next m₁ hstep =>
      have hreach : (timerSystem γ).Reachable m₁ := .step h trivial hstep
      have hallowed : op.Allowed m ∧ op.exec m = some m₁ := by
        simp only [timerSystem] at hstep
        split at hstep
        · exact ⟨‹_›, hstep⟩
        · contradiction
      obtain ⟨hout, hin⟩ := pending_exec h hallowed.1 hallowed.2 (hnew op (by simp))
      obtain ⟨iout, irec, ione⟩ := ih hreach hrun fun o ho => hnew o (by simp [ho])
      have hfirings : firings a m (op :: ops) = (m.fires a op).toNat + firings a m₁ ops := by
        simp [firings, hallowed.2]
      have hcons : op ≠ .cancel a → (.cancel a ∉ op :: ops ↔ .cancel a ∉ ops) := fun hc => by
        simp [hc.symm]
      refine ⟨fun ha => ?_, fun ha hrec => ?_, fun ha hrec => ?_⟩
      · obtain ⟨hnot, hfire⟩ := hout ha
        rw [hfirings, hfire]
        simpa using iout hnot
      · by_cases hc : op = .cancel a
        · have hnot : a ∉ m₁.timers := fun hmem => ((hin ha).1.mp hmem).1 hc
          exact iff_of_false (iout hnot).2 (by simp [hc])
        · have hmem : a ∈ m₁.timers := (hin ha).1.mpr ⟨hc, fun _ => hrec⟩
          rw [hcons hc]
          exact irec hmem (((hin ha).2 hmem).trans hrec)
      · by_cases hkept : a ∈ m₁.timers
        · obtain ⟨hc, hfire⟩ := (hin ha).1.mp hkept
          have hquiet : m.fires a op = false := by simpa [hrec] using hfire
          rw [hfirings, hquiet, hcons hc, Bool.toNat_false, Nat.zero_add]
          exact ione hkept (((hin ha).2 hkept).trans hrec)
        · have hrest := iout hkept
          rw [hfirings, hrest.1, Nat.add_zero]
          refine ⟨Bool.toNat_le _, iff_of_false hrest.2 ?_⟩
          rintro ⟨hfire, hc⟩
          refine hkept ((hin ha).1.mpr ⟨fun heq => hc (by simp [heq]), ?_⟩)
          intro hfired
          simp [hfired] at hfire
    · contradiction

theorem timer_life_once :
    ∃ m m', (timerSystem Nat).run (.initial 100) [.addTimer 7 100 50 (.user 1) false] = some m ∧
      (timerSystem Nat).run m [.listExpiredCb 150 9, .listExpiredCb 160 9] = some m' ∧
      firings 7 m [.listExpiredCb 150 9, .listExpiredCb 160 9] ≤ 1 := by
  have hadd : (timerSystem Nat).run (.initial 100) [.addTimer 7 100 50 (.user 1) false] =
      some _ := rfl
  have hreach : (timerSystem Nat).Reachable _ := TransitionSystem.reachable_of_run ⟨100, rfl⟩ hadd
  exact ⟨_, _, hadd, rfl,
    ((timer_life (a := 7) hreach rfl (by decide)).2.2 (by decide) (by decide)).1⟩

end Yuyu.Timer
