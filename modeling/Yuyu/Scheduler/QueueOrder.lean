import Yuyu.Foundation.NumberedQueue
import Yuyu.Scheduler.Steps

/-!
# The task queue

Tasks enter the queue of `yuyu/scheduler.h` by value, through a pointer that is emptied by a swap,
or in a batch of such pointers. The scan passes over tasks pinned to other threads and fibers that
are being executed. A ledger numbers the tasks.
-/

namespace Yuyu.Scheduler

open Foundation Timer State Function

variable {n : Nat} {γ : Type}

instance (fiber : Nat → FiberState) (thread : Nat) (t : Task γ) :
    Decidable (t.MayRun fiber thread) :=
  match t with
  | ⟨.fiber f, pin⟩ =>
    decidable_of_iff ((pin = none ∨ pin = some thread) ∧ fiber f ≠ .exec) (by simp [Task.MayRun])
  | ⟨.cb _, pin⟩ =>
    decidable_of_iff (pin = none ∨ pin = some thread) (by simp [Task.MayRun])

def firstFor (fiber : Nat → FiberState) (thread : Nat) (l : List (Task γ)) : Nat :=
  l.findIdx fun t => decide (t.MayRun fiber thread)

lemma scanQueue_first (fiber : Nat → FiberState) (thread : Nat) (l : List (Task γ)) :
    (scanQueue fiber thread l).ft = l[firstFor fiber thread l]? ∧
      (scanQueue fiber thread l).queue = l.eraseIdx (firstFor fiber thread l) := by
  induction l with
  | nil => exact ⟨rfl, rfl⟩
  | cons it rest ih =>
    by_cases hrun : it.MayRun fiber thread
    · have hzero : firstFor fiber thread (it :: rest) = 0 := by
        simp [firstFor, List.findIdx_cons, hrun]
      have hthread : ¬ (it.thread ≠ none ∧ it.thread ≠ some thread) := by
        have := hrun.1
        tauto
      rw [hzero, scanQueue, if_neg hthread]
      split
      · rename_i f hjob
        rw [if_neg (hrun.2 f hjob)]
        exact ⟨rfl, rfl⟩
      · exact ⟨rfl, rfl⟩
    have hsucc : firstFor fiber thread (it :: rest) = firstFor fiber thread rest + 1 := by
      simp [firstFor, List.findIdx_cons, hrun]
    rw [hsucc, scanQueue]
    split
    · exact ⟨ih.1, congrArg (it :: ·) ih.2⟩
    rename_i hthread
    have hfree : it.thread = none ∨ it.thread = some thread := by tauto
    split
    · rename_i f hjob
      have hexec : fiber f = .exec := by
        by_contra hne
        refine hrun ⟨hfree, fun g hg => ?_⟩
        obtain rfl : f = g := by simpa [hjob] using hg
        exact hne
      rw [if_pos hexec]
      exact ⟨ih.1, congrArg (it :: ·) ih.2⟩
    · rename_i cb hjob
      exact absurd ⟨hfree, by simp [hjob]⟩ hrun

lemma not_mayRun_of_mem_take {fiber : Nat → FiberState} {thread : Nat} {l : List (Task γ)}
    {t : Task γ} (h : t ∈ l.take (firstFor fiber thread l)) : ¬ t.MayRun fiber thread := by
  obtain ⟨i, hi, rfl⟩ := List.mem_take_iff_getElem.mp h
  have hlt : i < firstFor fiber thread l := by omega
  simpa using List.not_of_lt_findIdx hlt

/-- What a scan may do with the queue: take the first task that may run, or none
if no task may. -/
def TakesFirst (fiber : Nat → FiberState) (thread : Nat) (queue : List (Task γ))
    (ft : Option (Task γ)) (queue' : List (Task γ)) : Prop :=
  match ft with
  | none => queue' = queue ∧ ∀ t ∈ queue, ¬ t.MayRun fiber thread
  | some t => ∃ before after, queue = before ++ t :: after ∧ queue' = before ++ after ∧
      t.MayRun fiber thread ∧ ∀ u ∈ before, ¬ u.MayRun fiber thread

lemma scanQueue_takesFirst (fiber : Nat → FiberState) (thread : Nat) (l : List (Task γ)) :
    TakesFirst fiber thread l (scanQueue fiber thread l).ft (scanQueue fiber thread l).queue := by
  cases hft : (scanQueue fiber thread l).ft with
  | none => exact scanQueue_none hft
  | some t =>
    obtain ⟨hfirst, hqueue⟩ := scanQueue_first fiber thread l
    rw [hft] at hfirst
    obtain ⟨hlt, hget⟩ := List.getElem?_eq_some_iff.mp hfirst.symm
    refine ⟨l.take (firstFor fiber thread l), l.drop (firstFor fiber thread l + 1), ?_, ?_,
      (scanQueue_taken hft).2, fun u hu => not_mayRun_of_mem_take hu⟩
    · rw [← hget, List.getElem_cons_drop, List.take_append_drop]
    · rw [hqueue, List.eraseIdx_eq_take_drop_succ]

/-! ## Tasks accepted -/

def tasksOf (fcs : List (Option (Job γ))) (thread : Option Nat) : List (Task γ) :=
  (fcs.filterMap id).map fun job => ⟨job, thread⟩

lemma schedule_queue (s : State n γ) (fc : Option (Job γ)) (thread : Option Nat) :
    (s.schedule fc thread).queue = s.queue ++ tasksOf [fc] thread := by
  cases fc <;> rfl

lemma scheduleRange_queue (queue : List (Task γ)) (needTickle : Bool)
    (fcs : List (Option (Job γ))) :
    (scheduleRange queue needTickle fcs).1 = queue ++ tasksOf fcs none := by
  induction fcs generalizing queue needTickle with
  | nil => simp [scheduleRange, tasksOf]
  | cons fc rest ih =>
    rw [scheduleRange, ih]
    cases fc <;> simp [scheduleNoLock, tasksOf]

lemma scheduleAll_queue (s : State n γ) (fcs : List (Option (Job γ))) :
    (s.scheduleAll fcs).queue = s.queue ++ tasksOf fcs none := scheduleRange_queue s.queue false fcs

def Action.accepts (s : State n γ) : Action n γ → List (Task γ)
  | .requeue _ f _ => tasksOf [some (.fiber f)] none
  | .scheduleExpired _ cbs => tasksOf (cbs.map (Option.map Job.cb)) none
  | .schedule fc thread => tasksOf [fc] thread
  | .trigger i => tasksOf [s.waiting[i]?] none
  | _ => []

def Action.scanner : Action n γ → Option (Fin n)
  | .scan w => some w
  | _ => none

lemma queue_next (s : State n γ) {a : Action n γ} (ha : a.scanner = none) :
    (a.next s).queue = s.queue ++ a.accepts s := by
  cases a with
  | scan w => contradiction
  | requeue w f isCb => exact schedule_queue s _ _
  | scheduleExpired w cbs => exact scheduleAll_queue s _
  | schedule fc thread => exact schedule_queue s fc thread
  | trigger i => exact schedule_queue _ _ none
  | _ => exact (List.append_nil _).symm

lemma queue_scan (s : State n γ) (w : Fin n) :
    ((Action.scan w).next s).queue = s.queue.eraseIdx (firstFor s.fiber w s.queue) :=
  (scanQueue_first s.fiber w s.queue).2

/-- The pointer constructors of `FiberAndThread`: the new member, which is
empty, is swapped with the variable pointed to. -/
def takeCell (cells : Nat → Option (Job γ)) (c : Nat) :
    Option (Job γ) × (Nat → Option (Job γ)) := (cells c, update cells c none)

def takeCells (cells : Nat → Option (Job γ)) :
    List Nat → List (Option (Job γ)) × (Nat → Option (Job γ))
  | [] => ([], cells)
  | c :: cs =>
    let r := takeCell cells c
    let rest := takeCells r.2 cs
    (r.1 :: rest.1, rest.2)

/-- The workers, the variables that callers of `schedule` point to, and the
ledger of the queue. -/
structure QueueState (n : Nat) (γ : Type) where
  workers : State n γ
  cells : Nat → Option (Job γ)
  ledger : Ledger (Task γ) (Fin n)

/-- Steps of the workers, and calls of `schedule` with pointers. -/
inductive QueueOp (n : Nat) (γ : Type) where
  | worker (a : Action n γ)
  | setCell (c : Nat) (fc : Option (Job γ))
  /-- `schedule(fc, thread)` with a pointer. -/
  | schedulePtr (c : Nat) (thread : Option Nat)
  /-- `schedule(begin, end)`. -/
  | scheduleCells (cs : List Nat)

namespace QueueOp

variable [DecidableEq γ]

def record (q : QueueState n γ) (a : Action n γ) : Ledger (Task γ) (Fin n) :=
  match a.scanner with
  | some w => q.ledger.remove (firstFor q.workers.fiber w q.workers.queue) w
  | none => q.ledger.accept (a.accepts q.workers)

def step (q : QueueState n γ) : QueueOp n γ → Option (QueueState n γ)
  | .worker a =>
    ((workerSystem n γ).step q.workers a).map fun s =>
      { q with workers := s, ledger := record q a }
  | .setCell c fc =>
    if ∀ job ∈ fc, Action.JobExists q.workers job then
      some { q with cells := update q.cells c fc }
    else none
  | .schedulePtr c thread =>
    let r := takeCell q.cells c
    some ⟨q.workers.schedule r.1 thread, r.2, q.ledger.accept (tasksOf [r.1] thread)⟩
  | .scheduleCells cs =>
    let r := takeCells q.cells cs
    some ⟨q.workers.scheduleAll r.1, r.2, q.ledger.accept (tasksOf r.1 none)⟩

end QueueOp

def queueSystem (n : Nat) (γ : Type) [DecidableEq γ] :
    TransitionSystem (QueueState n γ) (QueueOp n γ) where
  init q := (∃ now, q.workers = State.initial n γ now) ∧ q.ledger = .empty
  step q op := op.step q

def Task.isFreeCb (t : Task γ) : Bool :=
  match t with
  | ⟨.cb _, none⟩ => true
  | _ => false

lemma Task.mayRun_of_isFreeCb {t : Task γ} (h : t.isFreeCb = true)
    (fiber : Nat → FiberState) (thread : Nat) : t.MayRun fiber thread := by
  unfold Task.isFreeCb at h
  split at h
  · exact ⟨Or.inl rfl, by simp⟩
  · contradiction

lemma takeCells_empties (cells : Nat → Option (Job γ)) (cs : List Nat) :
    ∀ c, (c ∈ cs ∨ cells c = none) → (takeCells cells cs).2 c = none := by
  induction cs generalizing cells with
  | nil => simp [takeCells]
  | cons d cs ih =>
    intro c hc
    apply ih
    by_cases hcd : c = d
    · exact Or.inr (by simp [takeCell, hcd])
    · simpa [takeCell, hcd] using hc

structure QueueInv (q : QueueState n γ) : Prop where
  tracks : q.ledger.Tracks q.workers.queue
  inOrder : q.ledger.InOrder Task.isFreeCb

namespace QueueInv

variable {q : QueueState n γ} (h : QueueInv q)
include h

lemma append {s : State n γ} {cells : Nat → Option (Job γ)} {tasks : List (Task γ)}
    (hqueue : s.queue = q.workers.queue ++ tasks) : QueueInv ⟨s, cells, q.ledger.accept tasks⟩ := by
  refine ⟨?_, h.inOrder.accept h.tracks tasks⟩
  rw [show s.queue = _ from hqueue]
  exact h.tracks.accept tasks

lemma scan (w : Fin n) : QueueInv { q with
      workers := (Action.scan w).next q.workers
      ledger := q.ledger.remove (firstFor q.workers.fiber w q.workers.queue) w } := by
  constructor
  · have hqueue := queue_scan q.workers w
    rw [hqueue]
    exact h.tracks.remove _ w
  -- a free callback may run anywhere, so the first task that may run has none before it
  refine h.inOrder.remove h.tracks w fun x _ _ y hy => ?_
  by_contra hfree
  exact not_mayRun_of_mem_take hy (Task.mayRun_of_isFreeCb (by simpa using hfree) _ _)

lemma step [DecidableEq γ] {op : QueueOp n γ} {q' : QueueState n γ}
    (hstep : op.step q = some q') : QueueInv q' := by
  cases op with
  | worker a =>
    obtain ⟨s, hs, rfl⟩ := Option.map_eq_some_iff.mp hstep
    obtain ⟨-, rfl⟩ := workerSystem_step hs
    cases hscan : a.scanner with
    | none =>
      simp only [QueueOp.record, hscan]
      exact h.append (queue_next q.workers hscan)
    | some w =>
      obtain rfl : a = .scan w := by
        cases a <;> simp_all [Action.scanner]
      exact h.scan w
  | setCell c fc =>
    simp only [QueueOp.step] at hstep
    split at hstep
    · rw [← Option.some.inj hstep]
      exact ⟨h.tracks, h.inOrder⟩
    · contradiction
  | schedulePtr c thread =>
    rw [← Option.some.inj hstep]
    exact h.append (schedule_queue _ _ _)
  | scheduleCells cs =>
    rw [← Option.some.inj hstep]
    exact h.append (scheduleAll_queue _ _)

end QueueInv

variable [DecidableEq γ]

lemma queueInv_of_reachable {q : QueueState n γ} (h : (queueSystem n γ).Reachable q) :
    QueueInv q := by
  refine TransitionSystem.Reachable.invariant (I := QueueInv) ?_ ?_ h
  · rintro ⟨s, cells, ledger⟩ ⟨⟨now, rfl⟩, rfl⟩
    exact ⟨Ledger.tracks_empty, Ledger.inOrder_empty _⟩
  · exact fun q op q' hq hstep => hq.step hstep

def QueueOp.accepts (q : QueueState n γ) : QueueOp n γ → List (Task γ)
  | .worker a => a.accepts q.workers
  | .setCell _ _ => []
  | .schedulePtr c thread => tasksOf [q.cells c] thread
  | .scheduleCells cs => tasksOf (takeCells q.cells cs).1 none

/-- Each task accepted waits in the queue or was removed, one of these and once; callbacks that are
not pinned leave in the order of acceptance. -/
theorem queue_conserved {q : QueueState n γ} (h : (queueSystem n γ).Reachable q) :
    q.ledger.Tracks q.workers.queue ∧ q.ledger.InOrder Task.isFreeCb ∧
      (∀ w q', (QueueOp.worker (.scan w)).step q = some q' →
        ∃ (number : Option Nat) (ft : Option (Task γ)),
          (q'.workers.pc w = .tickleMe ft ∨ q'.workers.pc w = .dispatch ft) ∧
          TakesFirst q.workers.fiber w q.workers.queue ft q'.workers.queue ∧
          ft = number.bind (q.ledger.accepted[·]?) ∧
          q'.ledger.accepted = q.ledger.accepted ∧
          q'.ledger.removed = q.ledger.removed ++ (number.map fun i => (i, w)).toList) ∧
      (∀ (op : QueueOp n γ) (q' : QueueState n γ), (∀ w, op ≠ .worker (.scan w)) →
        op.step q = some q' →
        q'.workers.queue = q.workers.queue ++ op.accepts q ∧
          q'.ledger.accepted = q.ledger.accepted ++ op.accepts q ∧
          q'.ledger.removed = q.ledger.removed) ∧
      (∀ c thread q', (QueueOp.schedulePtr c thread).step q = some q' → q'.cells c = none) ∧
      ∀ cs q', (QueueOp.scheduleCells cs).step q = some q' → ∀ c ∈ cs, q'.cells c = none := by
  have hinv := queueInv_of_reachable h
  refine ⟨hinv.tracks, hinv.inOrder, ?_, ?_, ?_, ?_⟩
  · intro w q' hstep
    obtain ⟨s, hs, rfl⟩ := Option.map_eq_some_iff.mp hstep
    obtain ⟨-, rfl⟩ := workerSystem_step hs
    have hfirst := (scanQueue_first q.workers.fiber w q.workers.queue).1
    refine ⟨q.ledger.waiting[firstFor q.workers.fiber w q.workers.queue]?,
      (q.workers.scanOf w).ft, ?_, scanQueue_takesFirst _ _ _, ?_, rfl, rfl⟩
    · by_cases htickle : (q.workers.scanOf w).tickleMe = true
      · left
        simp [Action.next, State.goto, htickle]
      · right
        simp [Action.next, State.goto, htickle]
    rw [State.scanOf, hfirst]
    cases hk : q.ledger.waiting[firstFor q.workers.fiber w q.workers.queue]? with
    | none =>
      have hlen := List.getElem?_eq_none_iff.mp hk
      rw [← hinv.tracks.length_eq] at hlen
      exact List.getElem?_eq_none hlen
    | some i => exact hinv.tracks.entry hk
  · intro op q' hop hstep
    cases op with
    | worker a =>
      obtain ⟨s, hs, rfl⟩ := Option.map_eq_some_iff.mp hstep
      obtain ⟨-, rfl⟩ := workerSystem_step hs
      have hscan : a.scanner = none := by
        cases a with
        | scan w => exact absurd rfl (hop w)
        | _ => rfl
      simp only [QueueOp.record, hscan]
      exact ⟨queue_next q.workers hscan, rfl, rfl⟩
    | setCell c fc =>
      simp only [QueueOp.step] at hstep
      split at hstep
      · rw [← Option.some.inj hstep]
        simp [QueueOp.accepts]
      · contradiction
    | schedulePtr c thread =>
      rw [← Option.some.inj hstep]
      exact ⟨schedule_queue _ _ _, rfl, rfl⟩
    | scheduleCells cs =>
      rw [← Option.some.inj hstep]
      exact ⟨scheduleAll_queue _ _, rfl, rfl⟩
  · intro c thread q' hstep
    rw [← Option.some.inj hstep]
    simp [takeCell]
  intro cs q' hstep c hc
  rw [← Option.some.inj hstep]
  exact takeCells_empties q.cells cs c (Or.inl hc)

def mixedSchedules : List (QueueOp 3 Nat) :=
  [.setCell 0 (some (.cb (.user 7))), .schedulePtr 0 none,
    .worker (.schedule (some (.cb (.user 8))) (some 1)),
    .worker (.schedule (some (.cb (.user 9))) none),
    .worker (.scan 0), .worker (.scan 2)]

theorem queue_conserved_mixed :
    ∃ q, (queueSystem 3 Nat).run ⟨State.initial 3 Nat 0, fun _ => none, .empty⟩ mixedSchedules =
        some q ∧
      q.ledger.removed = [(0, 0), (2, 2)] ∧ q.ledger.waiting = [1] ∧ q.cells 0 = none ∧
      q.ledger.Tracks q.workers.queue ∧ q.ledger.InOrder Task.isFreeCb := by
  have hrun : ∃ q, (queueSystem 3 Nat).run
      ⟨State.initial 3 Nat 0, fun _ => none, .empty⟩ mixedSchedules = some q := ⟨_, rfl⟩
  obtain ⟨q, hq⟩ := hrun
  obtain ⟨htracks, horder, -⟩ :=
    queue_conserved (TransitionSystem.reachable_of_run ⟨⟨0, rfl⟩, rfl⟩ hq)
  obtain rfl := Option.some.inj hq
  exact ⟨_, rfl, rfl, rfl, rfl, htracks, horder⟩

end Yuyu.Scheduler
