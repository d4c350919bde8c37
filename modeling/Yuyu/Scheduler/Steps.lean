import Yuyu.Scheduler.Model

/-!
# Facts about single steps

What the scan of the queue finds, and which fields the helper functions of the
model change.  The fibers named anywhere in a state have been created.
-/

namespace Yuyu.Scheduler

open Foundation Timer State List Function

variable {n : Nat} {γ : Type}

def Task.MayRun (fiber : Nat → FiberState) (thread : Nat) (t : Task γ) : Prop :=
  (t.thread = none ∨ t.thread = some thread) ∧ ∀ f, t.job = .fiber f → fiber f ≠ .exec

variable {fiber : Nat → FiberState} {thread : Nat} {l : List (Task γ)} {t : Task γ}

/-- The scan takes a task of the queue that may run. -/
theorem scanQueue_taken (h : (scanQueue fiber thread l).ft = some t) :
    t ∈ l ∧ t.MayRun fiber thread := by
  induction l with
  | nil => simp [scanQueue] at h
  | cons it rest ih =>
    rw [scanQueue] at h
    split at h
    · exact (ih h).imp (mem_cons_of_mem _) id
    rename_i hthread
    have hfree : it.thread = none ∨ it.thread = some thread := by tauto
    split at h
    · rename_i f hjob
      split at h
      · exact (ih h).imp (mem_cons_of_mem _) id
      rename_i hexec
      obtain rfl : it = t := Option.some.inj h
      refine ⟨mem_cons_self, hfree, fun g hg => ?_⟩
      obtain rfl : f = g := by simpa [hjob] using hg
      exact hexec
    rename_i cb hjob
    obtain rfl : it = t := Option.some.inj h
    exact ⟨mem_cons_self, hfree, by simp [hjob]⟩

lemma scanQueue_subset (h : t ∈ (scanQueue fiber thread l).queue) : t ∈ l := by
  induction l with
  | nil => simp [scanQueue] at h
  | cons it rest ih =>
    rw [scanQueue] at h
    split at h
    · rcases mem_cons.mp h with rfl | h
      · exact mem_cons_self
      · exact mem_cons_of_mem _ (ih h)
    split at h
    · split at h
      · rcases mem_cons.mp h with rfl | h
        · exact mem_cons_self
        · exact mem_cons_of_mem _ (ih h)
      · exact mem_cons_of_mem _ h
    · exact mem_cons_of_mem _ h

/-- When it takes none, no task of the queue may run. -/
theorem scanQueue_none (h : (scanQueue fiber thread l).ft = none) :
    (scanQueue fiber thread l).queue = l ∧ ∀ t ∈ l, ¬ t.MayRun fiber thread := by
  induction l with
  | nil => simp [scanQueue]
  | cons it rest ih =>
    rw [scanQueue] at h ⊢
    split at h
    · rename_i hthread
      rw [if_pos hthread]
      obtain ⟨hqueue, hnone⟩ := ih h
      refine ⟨by simp [hqueue], forall_mem_cons.mpr ⟨fun hrun => ?_, hnone⟩⟩
      have := hrun.1
      tauto
    rename_i hthread
    rw [if_neg hthread]
    split at h
    · rename_i f hjob
      split at h
      · rename_i hexec
        obtain ⟨hqueue, hnone⟩ := ih h
        rw [if_pos hexec]
        exact ⟨by simp [hqueue], forall_mem_cons.mpr ⟨fun hrun => hrun.2 f hjob hexec, hnone⟩⟩
      · contradiction
    · contradiction

lemma mem_scheduleRange {queue : List (Task γ)} {needTickle : Bool} {fcs : List (Option (Job γ))} :
    t ∈ (scheduleRange queue needTickle fcs).1 ↔
      t ∈ queue ∨ t.thread = none ∧ some t.job ∈ fcs := by
  induction fcs generalizing queue needTickle with
  | nil => simp [scheduleRange]
  | cons fc rest ih =>
    rw [scheduleRange, ih]
    cases fc with
    | none => simp [scheduleNoLock]
    | some job =>
      have ht : t = ⟨job, none⟩ ↔ t.thread = none ∧ t.job = job := by
        cases t
        simp [and_comm]
      simp only [scheduleNoLock, Option.map_some, Option.toList_some, mem_append, ht,
        mem_cons, Option.some.injEq]
      tauto

/-! ## Named fibers -/

def Task.fiber? (t : Task γ) : Option Nat :=
  match t.job with
  | .fiber f => some f
  | .cb _ => none

def Pc.held : Pc γ → Option Nat
  | .tickleMe ft | .tickleWrite ft | .dispatch ft => ft.bind Task.fiber?
  | .swapIn f _ | .running f _ | .saving f _ | .returned f _ | .fixup f _ | .requeue f _
  | .hold f _ => some f
  | _ => none

lemma Task.fiber?_eq_some {f : Nat} : t.fiber? = some f ↔ t.job = .fiber f := by
  unfold Task.fiber?
  split <;> simp_all

@[simp] lemma held_poll (clock nextTimeout : Nat) :
    (poll clock nextTimeout : Pc γ).held = none := by
  unfold poll
  split_ifs <;> rfl

@[simp] lemma held_ite {c : Prop} [Decidable c] (p q : Pc γ) :
    (if c then p else q).held = if c then p.held else q.held := by
  split <;> rfl

structure FibersExist (s : State n γ) : Prop where
  queue : ∀ t ∈ s.queue, ∀ f, t.job = .fiber f → f < s.nextFiber
  waiting : ∀ job ∈ s.waiting, ∀ f, job = .fiber f → f < s.nextFiber
  held : ∀ w f, (s.pc w).held = some f → f < s.nextFiber
  cbFiber : ∀ w f, s.cbFiber w = some f → f < s.nextFiber

lemma jobExists {s : State n γ} {job : Job γ} (h : Action.JobExists s job) :
    ∀ f, job = .fiber f → f < s.nextFiber := by
  rintro f rfl
  exact h

namespace FibersExist

variable {s : State n γ} (h : FibersExist s)
include h

lemma move (w : Fin n) {p : Pc γ} (hp : ∀ f, p.held = some f → f < s.nextFiber) :
    ∀ v f, (update s.pc w p v).held = some f → f < s.nextFiber :=
  (Function.forall_update_iff s.pc fun _ q => ∀ f, q.held = some f → f < s.nextFiber).mpr
    ⟨hp, fun v _ => h.held v⟩

lemma keep {w : Fin n} {p q : Pc γ} (hpc : s.pc w = p) (hq : q.held = p.held) :
    ∀ v f, (update s.pc w q v).held = some f → f < s.nextFiber :=
  h.move w fun f hf => h.held w f (by rw [hpc, ← hq, hf])

lemma release (w : Fin n) {p : Pc γ} (hp : p.held = none) :
    ∀ v f, (update s.pc w p v).held = some f → f < s.nextFiber :=
  h.move w fun f hf => by simp [hp] at hf

lemma push {fc : Option (Job γ)} (hfc : ∀ job ∈ fc, ∀ f, job = .fiber f → f < s.nextFiber)
    (thread : Option Nat) :
    ∀ t ∈ (s.schedule fc thread).queue, ∀ f, t.job = .fiber f → f < s.nextFiber := by
  intro t ht
  rcases mem_append.mp ht with ht | ht
  · exact h.queue t ht
  cases fc with
  | none => simp at ht
  | some job =>
    obtain rfl : t = ⟨job, thread⟩ := by simpa using ht
    exact hfc job rfl

lemma setCbFiber (w : Fin n) {g : Option Nat} (hg : ∀ f, g = some f → f < s.nextFiber) :
    ∀ v f, update s.cbFiber w g v = some f → f < s.nextFiber :=
  (Function.forall_update_iff s.cbFiber fun _ q => ∀ f, q = some f → f < s.nextFiber).mpr
    ⟨hg, fun v _ => h.cbFiber v⟩

lemma fresh : FibersExist { s with nextFiber := s.nextFiber + 1 } :=
  ⟨fun t ht f hf => Nat.lt_succ_of_lt (h.queue t ht f hf),
    fun job hjob f hf => Nat.lt_succ_of_lt (h.waiting job hjob f hf),
    fun w f hf => Nat.lt_succ_of_lt (h.held w f hf),
    fun w f hf => Nat.lt_succ_of_lt (h.cbFiber w f hf)⟩

/-- Named fibers exist after every step. -/
lemma next {a : Action n γ} (ha : a.Enabled s) : FibersExist (a.next s) := by
  cases a with
  | scan w =>
    refine ⟨fun t ht => h.queue t (scanQueue_subset ht), h.waiting, h.move w fun f hf => ?_,
      h.cbFiber⟩
    have hft : (s.scanOf w).ft.bind Task.fiber? = some f := by
      rw [held_ite] at hf
      simpa [Pc.held] using hf
    obtain ⟨t, ht, htf⟩ := Option.bind_eq_some_iff.mp hft
    exact h.queue t (scanQueue_taken ht).1 f (Task.fiber?_eq_some.mp htf)
  | tickleMe w ft =>
    exact ⟨h.queue, h.waiting, h.keep ha (by rw [held_ite]; exact ite_self _), h.cbFiber⟩
  | tickleWrite | swapOut | returned => exact ⟨h.queue, h.waiting, h.keep ha rfl, h.cbFiber⟩
  | resume | swapIn | yield | fixupReady | fixupOther =>
    exact ⟨h.queue, h.waiting, h.keep ha.1 rfl, h.cbFiber⟩
  | skip w | enterIdle w | exit w | fixupEnded w | wake w | listExpiredCb w | swapOutIdle w
  | leaveIdle w => exact ⟨h.queue, h.waiting, h.release w rfl, h.cbFiber⟩
  | newCbFiber w cb thread =>
    have hlt : s.nextFiber < s.nextFiber + 1 := Nat.lt_succ_self _
    have hbefore := h.fresh
    exact ⟨hbefore.queue, hbefore.waiting, hbefore.move w fun f hf => Option.some.inj hf ▸ hlt,
      hbefore.setCbFiber w fun f hf => Option.some.inj hf ▸ hlt⟩
  | resetCbFiber w cb thread g =>
    exact ⟨h.queue, h.waiting, h.move w fun f hf => h.cbFiber w f (ha.2.1.trans hf), h.cbFiber⟩
  | requeue w g isCb =>
    have hg : g < s.nextFiber := h.held w g (by rw [show s.pc w = _ from ha]; rfl)
    refine ⟨h.push (by simpa using hg) none, h.waiting, h.release w rfl, h.setCbFiber w ?_⟩
    split
    · simp
    · exact h.cbFiber w
  | setHold w g isCb =>
    refine ⟨h.queue, h.waiting, h.release w rfl, h.setCbFiber w ?_⟩
    split
    · simp
    · exact h.cbFiber w
  | getNextTimer w | checkEvents w | checkQueue w =>
    refine ⟨h.queue, h.waiting, h.release w ?_, h.cbFiber⟩
    rw [held_ite, held_poll]
    exact ite_self none
  | scheduleExpired w cbs =>
    refine ⟨fun t ht => ?_, h.waiting, h.release w rfl, h.cbFiber⟩
    rcases mem_scheduleRange.mp ht with ht | ⟨-, ht⟩
    · exact h.queue t ht
    · intro f hf
      simp [hf] at ht
  | drain | timer | tickle | tickleDone | tick | stop =>
    exact ⟨h.queue, h.waiting, h.held, h.cbFiber⟩
  | schedule fc thread =>
    exact ⟨h.push (fun job hjob => jobExists (ha job hjob)) thread, h.waiting, h.held, h.cbFiber⟩
  | trigger i =>
    refine ⟨h.push (fun job hjob => ?_) none, fun job hjob => ?_, h.held, h.cbFiber⟩
    · exact h.waiting job (mem_of_getElem? hjob)
    · exact h.waiting job (mem_of_mem_eraseIdx hjob)
  | addEvent job =>
    refine ⟨h.queue, fun job' hjob => ?_, h.held, h.cbFiber⟩
    rcases mem_append.mp hjob with hjob | hjob
    · exact h.waiting job' hjob
    · obtain rfl := mem_singleton.mp hjob
      exact jobExists ha
  | delEvent i =>
    exact ⟨h.queue, fun job hjob => h.waiting job (mem_of_mem_eraseIdx hjob), h.held, h.cbFiber⟩
  | newFiber => exact ⟨h.fresh.queue, h.fresh.waiting, h.fresh.held, h.fresh.cbFiber⟩

end FibersExist

end Yuyu.Scheduler
