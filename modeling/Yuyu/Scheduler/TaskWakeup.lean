import Yuyu.Scheduler.Steps

/-!
# Wake-ups for new tasks

A call of `schedule` that finds the queue empty calls `tickle`, which writes a byte only if some
worker is counted as idle.  A worker that has scanned the empty queue and is not yet counted
misses both.
-/

namespace Yuyu.Scheduler

open Foundation Timer State Function

variable {n : Nat} {γ : Type}

def Pc.willScan : Pc γ → Bool
  | .tickleMe ft | .tickleWrite ft | .dispatch ft => ft.isSome
  | .idleTop | .idleEvents _ | .idleQueue _ | .idleWait _ | .exited => false
  | _ => true

/-- A worker that has not left `run` and may run the task. -/
def CanRun (s : State n γ) (w : Fin n) (t : Task γ) : Prop := s.pc w ≠ .exited ∧ t.MayRun s.fiber w

/-- A task waits, every worker that could run it is blocked in
`epoll_wait`, and no wake-up is on its way. -/
def TaskLost (s : State n γ) : Prop :=
  ∃ t ∈ s.queue, (∃ w, CanRun s w t) ∧
    (∀ w, CanRun s w t → ∃ deadline, s.pc w = .idleWait deadline) ∧
    s.pipe = 0 ∧ s.tickleCalls .schedule = 0 ∧ s.tickleWrites .schedule = 0

/-- Tasks are not pinned, and a call of `schedule` whose `tickle` finds no
idle worker is made while some worker still scans the queue. -/
def Prompt (s : State n γ) : Action n γ → Prop
  | .schedule _ thread => thread = none
  | .tickle .schedule => s.idleThreadCount = 0 → ∃ w, (s.pc w).willScan = true
  | _ => True

instance (s : State n γ) (a : Action n γ) : Decidable (Prompt s a) := by
  induction a using Action.casesOn with
  | tickle t => induction t using Tickler.casesOn <;> dsimp only [Prompt] <;> infer_instance
  | _ => dsimp only [Prompt]; infer_instance

/-- A fiber whose state is `EXEC` runs on some worker. -/
def ExecRuns (s : State n γ) : Prop := ∀ f, s.fiber f = .exec → ∃ w isCb, s.pc w = .running f isCb

namespace ExecRuns

variable {s : State n γ} (h : ExecRuns s)
include h

lemma move {s' : State n γ} (w : Fin n) {p : Pc γ} (hpc : s'.pc = update s.pc w p)
    (hfiber : ∀ f, s'.fiber f = .exec → s.fiber f = .exec ∨ ∃ isCb, p = .running f isCb)
    (hleave : ∀ f isCb, s.pc w = .running f isCb → s'.fiber f ≠ .exec) : ExecRuns s' := by
  intro f hf
  rcases hfiber f hf with hexec | ⟨isCb, rfl⟩
  · obtain ⟨v, isCb, hv⟩ := h f hexec
    have hvw : v ≠ w := by
      rintro rfl
      exact hleave f isCb hv hf
    exact ⟨v, isCb, by rw [hpc, update_of_ne hvw, hv]⟩
  · exact ⟨w, isCb, by rw [hpc, update_self]⟩

lemma carry {s' : State n γ} (w : Fin n) {p : Pc γ} (hpc : s'.pc = update s.pc w p)
    (hfiber : s'.fiber = s.fiber) {q : Pc γ} (hq : s.pc w = q)
    (hrun : ∀ f isCb, q ≠ .running f isCb) :
    ExecRuns s' :=
  h.move w hpc (fun _ hf => Or.inl (hfiber ▸ hf)) fun f isCb hw => absurd (hq ▸ hw) (hrun f isCb)

lemma write {s' : State n γ} (w : Fin n) {p : Pc γ} (hpc : s'.pc = update s.pc w p)
    {f : Nat} {st : FiberState} (hfiber : s'.fiber = update s.fiber f st)
    (hst : st ≠ .exec) {q : Pc γ} (hq : s.pc w = q) (hrun : ∀ f isCb, q ≠ .running f isCb) :
    ExecRuns s' := by
  refine h.move w hpc (fun g hg => Or.inl ?_) fun g isCb hw => absurd (hq ▸ hw) (hrun g isCb)
  rw [hfiber, update_apply] at hg
  split at hg
  · exact absurd hg hst
  · exact hg

lemma next {a : Action n γ} (ha : a.Enabled s) : ExecRuns (a.next s) := by
  cases a with
  | newCbFiber w | resetCbFiber w => exact h.write w rfl rfl (by simp) ha.1 (by simp)
  | swapIn w f isCb =>
    refine h.move w rfl (fun g hg => ?_) (fun g isCb' hw => ?_)
    · by_cases hgf : g = f
      · exact Or.inr ⟨isCb, by rw [hgf]⟩
      · exact Or.inl ((update_of_ne hgf _ _).symm.trans hg)
    · simp [ha.1] at hw
  | yield w f isCb st =>
    refine h.move w rfl (fun g hg => Or.inl ?_) (fun g isCb' hw hg => ?_)
    · by_cases hgf : g = f
      · exact absurd (hgf ▸ hg) (by simpa [Action.next, goto, setFiber] using ha.2.1)
      · exact (update_of_ne hgf _ _).symm.trans hg
    · obtain ⟨rfl, -⟩ : f = g ∧ isCb = isCb' := by simpa [ha.1] using hw
      exact ha.2.1 ((update_self _ _ _).symm.trans hg)
  | fixupEnded w f isCb =>
    refine h.write w rfl rfl ?_ ha.1 (by simp)
    rcases ha.2 with hf | hf <;> cases isCb <;> simp [hf]
  | setHold w f isCb => exact h.write w rfl rfl (by simp) ha (by simp)
  | newFiber =>
    intro f hf
    by_cases hne : f = s.nextFiber
    · exact absurd (hne ▸ hf) (by simp [Action.next, setFiber])
    · exact h f ((update_of_ne hne _ _).symm.trans hf)
  | resume w | skip w | enterIdle w | exit w | fixupReady w | fixupOther w | listExpiredCb w =>
    exact h.carry w rfl rfl ha.1 (by simp)
  | scan w | tickleMe w | tickleWrite w | swapOut w | returned w | requeue w | getNextTimer w
  | checkEvents w | checkQueue w | wake w | scheduleExpired w | swapOutIdle w | leaveIdle w =>
    exact h.carry w rfl rfl ha (by simp)
  | drain | schedule | tickle | tickleDone | addEvent | trigger | delEvent | timer | tick | stop =>
    exact h

end ExecRuns

/-! ## Attended queues -/

def Attended (s : State n γ) : Prop :=
  (∃ w, (s.pc w).willScan = true) ∨
    0 < s.pipe ∨ 0 < s.tickleCalls .schedule ∨ 0 < s.tickleWrites .schedule

structure QueueAttended (s : State n γ) : Prop where
  unpinned : ∀ t ∈ s.queue, t.thread = none
  attended : s.queue ≠ [] → Attended s

lemma attended_of_willScan {s : State n γ} {w : Fin n} (h : (s.pc w).willScan = true) :
    Attended s := Or.inl ⟨w, h⟩

lemma Attended.move {s s' : State n γ} (h : Attended s) (w : Fin n) {p : Pc γ}
    (hpc : s'.pc = update s.pc w p)
    (hscan : (s.pc w).willScan = true → p.willScan = true) (hpipe : s.pipe ≤ s'.pipe)
    (hcalls : s'.tickleCalls = s.tickleCalls) (hwrites : s'.tickleWrites = s.tickleWrites) :
    Attended s' := by
  rcases h with ⟨v, hv⟩ | hpipe' | hway
  · left
    rw [hpc]
    refine (exists_update_iff s.pc fun _ q => q.willScan = true).mpr ?_
    by_cases hvw : v = w
    · exact Or.inl (hscan (hvw ▸ hv))
    · exact Or.inr ⟨v, hvw, hv⟩
  · exact Or.inr (Or.inl (lt_of_lt_of_le hpipe' hpipe))
  · rw [Attended, hcalls, hwrites]
    exact Or.inr (Or.inr hway)

namespace QueueAttended

variable {s : State n γ} (h : QueueAttended s)
include h

lemma move {s' : State n γ} (w : Fin n) {p : Pc γ} (hpc : s'.pc = update s.pc w p)
    (hscan : (s.pc w).willScan = true → p.willScan = true) (hqueue : s'.queue = s.queue)
    (hpipe : s.pipe ≤ s'.pipe) (hcalls : s'.tickleCalls = s.tickleCalls)
    (hwrites : s'.tickleWrites = s.tickleWrites) : QueueAttended s' := by
  refine ⟨hqueue ▸ h.unpinned, fun hne => ?_⟩
  exact (h.attended (hqueue ▸ hne)).move w hpc hscan hpipe hcalls hwrites

lemma scanning {s' : State n γ} (w : Fin n) {p : Pc γ}
    (hpc : s'.pc = update s.pc w p) (hp : p.willScan = true)
    (hqueue : ∀ t ∈ s'.queue, t ∈ s.queue ∨ t.thread = none) : QueueAttended s' := by
  refine ⟨fun t ht => (hqueue t ht).elim (h.unpinned t) id, fun _ => ?_⟩
  exact attended_of_willScan (w := w) (by rw [hpc, update_self, hp])

lemma push (fc : Option (Job γ)) : QueueAttended (s.schedule fc none) := by
  constructor
  · intro t ht
    rcases List.mem_append.mp ht with ht | ht
    · exact h.unpinned t ht
    · obtain ⟨job, -, rfl⟩ : ∃ job, fc = some job ∧ (⟨job, none⟩ : Task γ) = t := by simpa using ht
      rfl
  intro _
  have hcalls : (s.schedule fc none).tickleCalls .schedule =
      s.tickleCalls .schedule + s.queue.isEmpty.toNat := by
    simp [schedule, callTickle, scheduleNoLock]
  by_cases hempty : s.queue = []
  · right; right; left
    rw [hcalls, hempty]
    exact Nat.succ_pos _
  rcases h.attended hempty with hscan | hpipe | hcall | hwrite
  · exact Or.inl hscan
  · exact Or.inr (Or.inl hpipe)
  · right; right; left
    rw [hcalls]
    exact Nat.lt_add_right _ hcall
  · exact Or.inr (Or.inr (Or.inr hwrite))

lemma scan (hexec : ExecRuns s) {w : Fin n} (hw : s.pc w = .scan) :
    QueueAttended ((Action.scan w).next s) := by
  cases hft : (s.scanOf w).ft with
  | some t =>
    refine h.scanning w rfl ?_ fun t ht => Or.inl (scanQueue_subset ht)
    split <;> simp [Pc.willScan, hft]
  | none =>
    obtain ⟨hqueue, hnone⟩ := scanQueue_none hft
    have hqueue' : ((Action.scan w).next s).queue = s.queue := hqueue
    refine ⟨hqueue' ▸ h.unpinned, fun hne => ?_⟩
    rw [hqueue'] at hne
    obtain ⟨t, rest, hcons⟩ := List.exists_cons_of_ne_nil hne
    have ht : t ∈ s.queue := by simp [hcons]
    have hnot := hnone t ht
    simp only [Task.MayRun, h.unpinned t ht, true_or, true_and, not_forall, not_not] at hnot
    obtain ⟨f, -, hf⟩ := hnot
    obtain ⟨v, isCb, hv⟩ := hexec f hf
    have hvw : v ≠ w := by
      rintro rfl
      simp [hw] at hv
    refine attended_of_willScan (w := v) ?_
    have hpc : ((Action.scan w).next s).pc v = s.pc v := update_of_ne hvw _ _
    rw [hpc, hv]
    rfl

theorem tickle {t : Tickler} (ha : (Action.tickle t).Enabled s) (hprompt : Prompt s (.tickle t)) :
    QueueAttended ((Action.tickle t : Action n γ).next s) := by
  refine ⟨h.unpinned, fun hne => ?_⟩
  rcases h.attended hne with hscan | hpipe | hway
  · exact Or.inl hscan
  · exact Or.inr (Or.inl hpipe)
  cases t with
  | schedule =>
    by_cases hidle : s.idleThreadCount = 0
    · exact Or.inl (hprompt hidle)
    · right; right; right
      simp [Action.next, Nat.pos_of_ne_zero hidle]
  | timer | stop => simpa [Attended, Action.next] using Or.inr (Or.inr hway)

lemma next (hexec : ExecRuns s) {a : Action n γ} (ha : a.Enabled s) (hprompt : Prompt s a) :
    QueueAttended (a.next s) := by
  have falling {w : Fin n} {p q : Pc γ} (hpc : s.pc w = p) (hp : p.willScan = false)
      (hw : (s.pc w).willScan = true) : q.willScan = true := by
    simp [hpc, hp] at hw
  cases a with
  | scan w => exact h.scan hexec ha
  | tickleMe w ft =>
    refine h.move w rfl (fun hw => ?_) rfl le_rfl rfl rfl
    rw [show s.pc w = _ from ha] at hw
    split <;> exact hw
  | tickleWrite w ft =>
    refine h.move w rfl (fun hw => ?_) rfl (Nat.le_succ _) rfl rfl
    rw [show s.pc w = _ from ha] at hw
    exact hw
  | enterIdle w | exit w => exact h.move w rfl (falling ha.1 rfl) rfl le_rfl rfl rfl
  | getNextTimer w | checkEvents w | checkQueue w =>
    exact h.move w rfl (falling ha rfl) rfl le_rfl rfl rfl
  | resume w | skip w | newCbFiber w | resetCbFiber w | swapIn w | yield w | swapOut w
  | returned w | fixupReady w | fixupEnded w | fixupOther w | setHold w | wake w
  | listExpiredCb w | swapOutIdle w | leaveIdle w =>
    exact h.scanning w rfl rfl fun t ht => Or.inl ht
  | requeue w f isCb =>
    exact h.scanning w rfl rfl fun t ht => Or.inr ((h.push (some (.fiber f))).unpinned t ht)
  | scheduleExpired w cbs =>
    exact h.scanning w rfl rfl fun t ht => (mem_scheduleRange.mp ht).imp id And.left
  | drain w =>
    refine ⟨h.unpinned, fun _ => attended_of_willScan (w := w) ?_⟩
    exact congrArg Pc.willScan (show s.pc w = .idleDispatch from ha)
  | schedule fc thread =>
    obtain rfl : thread = none := hprompt
    exact h.push fc
  | trigger i =>
    have hdel : QueueAttended { s with waiting := s.waiting.eraseIdx i } := ⟨h.unpinned, h.attended⟩
    exact hdel.push s.waiting[i]?
  | tickle t => exact h.tickle ha hprompt
  | tickleDone t =>
    exact ⟨h.unpinned, fun _ => Or.inr (Or.inl (Nat.succ_pos _))⟩
  | timer | stop | addEvent | delEvent | tick | newFiber => exact ⟨h.unpinned, h.attended⟩

end QueueAttended

lemma queueAttended_of_reachable [DecidableEq γ] {s : State n γ}
    (h : (workerSystem n γ).ReachableWith Prompt s) : ExecRuns s ∧ QueueAttended s := by
  refine TransitionSystem.ReachableWith.invariant (I := fun s => ExecRuns s ∧ QueueAttended s)
    ?_ ?_ h
  · rintro s ⟨now, rfl⟩
    exact ⟨by simp [ExecRuns, initial], by simp [initial], by simp [initial]⟩
  rintro s a s' ⟨hexec, hqueue⟩ hprompt hstep
  obtain ⟨ha, rfl⟩ := workerSystem_step hstep
  exact ⟨hexec.next ha, hqueue.next hexec ha hprompt⟩

/-- In every run of prompt steps no task is left to blocked workers without a
wake-up on its way. -/
theorem task_wakeup [DecidableEq γ] {s : State n γ}
    (h : (workerSystem n γ).ReachableWith Prompt s) : ¬ TaskLost s := by
  rintro ⟨t, ht, ⟨w, hw⟩, hblocked, hpipe, hcalls, hwrites⟩
  obtain ⟨-, hqueue⟩ := queueAttended_of_reachable h
  rcases hqueue.attended (List.ne_nil_of_mem ht) with ⟨v, hv⟩ | hway | hway | hway
  · have hcan : CanRun s v t := by
      refine ⟨fun hexit => by simp [hexit, Pc.willScan] at hv, Or.inl (hqueue.unpinned t ht), ?_⟩
      exact hw.2.2
    obtain ⟨deadline, hwait⟩ := hblocked v hcan
    simp [hwait, Pc.willScan] at hv
  · omega
  · omega
  · omega

def fallAsleep : List (Action 1 Unit) :=
  [.enterIdle 0, .getNextTimer 0, .checkEvents 0 0, .checkQueue 0 0]

def scheduleOne : List (Action 1 Unit) :=
  [.schedule (some (.cb (.user ()))) none, .tickle .schedule]

theorem task_wakeup_asleep :
    ∃ s, (workerSystem 1 Unit).runWith Prompt (initial 1 Unit 0)
        ([.scan 0] ++ fallAsleep ++ scheduleOne ++ [.tickleDone .schedule]) = some s ∧
      s.pc 0 = .idleWait (some 5000) ∧ s.pipe = 1 ∧ ¬ TaskLost s := by
  have hrun : (workerSystem 1 Unit).runWith Prompt (initial 1 Unit 0)
      ([.scan 0] ++ fallAsleep ++ scheduleOne ++ [.tickleDone .schedule]) = some _ := rfl
  exact ⟨_, hrun, rfl, rfl, task_wakeup (TransitionSystem.reachableWith_of_init hrun ⟨0, rfl⟩)⟩

/-- A task scheduled between the worker's empty scan and the count of idle
workers is lost: `tickle` sees nobody idle, and the worker blocks. -/
theorem task_wakeup_lost :
    ∃ s, (workerSystem 1 Unit).run (initial 1 Unit 0) ([.scan 0] ++ scheduleOne ++ fallAsleep) =
        some s ∧ TaskLost s := by
  refine ⟨_, rfl, ⟨.cb (.user ()), none⟩, List.mem_singleton_self _, ⟨0, ?_, Or.inl rfl, ?_⟩, ?_,
    rfl, rfl, rfl⟩
  · decide
  · exact fun f h => by simp at h
  · exact fun w _ => ⟨some 5000, by rw [Subsingleton.elim w 0]; rfl⟩

end Yuyu.Scheduler
