import Yuyu.Scheduler.Footprint
import Yuyu.Scheduler.TaskWakeup
import Yuyu.Scheduler.TimerWakeup

/-!
# The counter of the active workers

`m_activeThreadCount` is a plain `size_t` member. `run` changes it with `++` and `--`, and only the
increment is made under `m_mutex`. Here each change is a load and a store, and is lost if another
worker changes the counter in between. `m_idleThreadCount` may take any value at any time, since
nothing but `tickle` reads it.
-/

namespace Yuyu.Scheduler

open Foundation Timer State Function

variable {n : Nat} {γ : Type}

namespace Pc

/-- The worker has taken a task and has not counted itself out after it. -/
def active : Pc γ → Bool
  | .tickleMe ft | .tickleWrite ft | .dispatch ft => ft.isSome
  | .swapIn _ _ | .running _ _ | .saving _ _ | .returned _ _ => true
  | _ => false

@[simp] lemma active_poll (clock nextTimeout : Nat) :
    (poll clock nextTimeout : Pc γ).active = false := by
  unfold poll
  split_ifs <;> rfl

end Pc

/-- A `++` or `--` that has loaded the counter and has not stored the new value. -/
structure Update where
  up : Bool
  loaded : Nat
deriving DecidableEq

namespace Update

/-- The value to be stored, in the arithmetic of `size_t`. -/
def value (u : Update) : Nat := (if u.up then u.loaded + 1 else u.loaded + (word64 - 1)) % word64

/-- The worker has a change of the given direction under way. -/
def pends (up : Bool) : Option Update → Bool
  | some u => u.up == up
  | none => false

end Update

namespace Action

/-- The change of the active count that an action of a worker makes. -/
def change (s : State n γ) : Action n γ → Option (Fin n × Bool)
  | .scan w => if (s.scanOf w).ft.isSome then some (w, true) else none
  | .skip w _ _ | .returned w _ _ => some (w, false)
  | _ => none

/-- The action changes the active count in the given direction. -/
def changes (s : State n γ) (a : Action n γ) (up : Bool) : Bool := (a.change s).any (·.2 == up)

/-- The actions that take `m_mutex`. -/
def locks : Action n γ → Bool
  | .scan _ | .requeue .. | .checkQueue .. | .scheduleExpired .. | .schedule .. | .trigger _ => true
  | _ => false

end Action

/-- Workers with the changes of the active count that are under way. -/
structure Split (n : Nat) (γ : Type) where
  shared : State n γ
  update : Fin n → Option Update

namespace Split

/-- Workers that have been started at the clock value `now`. -/
def initial (n : Nat) (γ : Type) (now : Nat) : Split n γ where
  shared := State.initial n γ now
  update _ := none

/-- The number of changes of the given direction that are under way. -/
def pending (r : Split n γ) (up : Bool) : Nat := countWhere (Update.pends up) r.update

/-- A worker is inside the critical section of the scan. -/
def Locked (r : Split n γ) : Prop := ∃ w, Update.pends true (r.update w) = true
deriving Decidable

end Split

/-- A step of the workers, up to the load of the active count if it is changed, or a store. -/
inductive SplitAction (n : Nat) (γ : Type) where
  | act (a : Action n γ)
  | store (w : Fin n)
  /-- A change of the idle count is stored. -/
  | setIdle (count : Nat)
deriving DecidableEq

namespace SplitAction

/-- A worker stores the active count before it goes on, and `m_mutex` is held until then. -/
def Enabled (r : Split n γ) : SplitAction n γ → Prop
  | .act a => a.Enabled r.shared ∧ (∀ w ∈ a.worker, r.update w = none) ∧
      (a.locks = true → ¬ r.Locked)
  | .store w => (r.update w).isSome = true
  | .setIdle _ => True

instance [DecidableEq γ] (r : Split n γ) (b : SplitAction n γ) : Decidable (b.Enabled r) := by
  induction b using SplitAction.casesOn <;> dsimp only [Enabled] <;> infer_instance

/-- The active count keeps its value until the store. -/
def next (r : Split n γ) : SplitAction n γ → Split n γ
  | .act a =>
    { shared := { a.next r.shared with activeThreadCount := r.shared.activeThreadCount }
      update :=
        match a.change r.shared with
        | some (w, up) => Function.update r.update w (some ⟨up, r.shared.activeThreadCount⟩)
        | none => r.update }
  | .store w =>
    match r.update w with
    | some u =>
      ⟨{ r.shared with activeThreadCount := u.value }, Function.update r.update w none⟩
    | none => r
  | .setIdle count => { r with shared.idleThreadCount := count }

/-- A property of the shared data that does not look at the counters is kept by a step that keeps
it when the counters are changed at once. -/
lemma next_shared {I : State n γ → Prop}
    (hactive : ∀ s k, I s → I { s with activeThreadCount := k })
    (hidle : ∀ s k, I s → I { s with idleThreadCount := k }) {r : Split n γ}
    {b : SplitAction n γ} (hnext : ∀ a, b = .act a → a.Enabled r.shared → I (a.next r.shared))
    (h : I r.shared) (hb : b.Enabled r) : I (b.next r).shared := by
  cases b with
  | act a => exact hactive _ _ (hnext a rfl hb.1)
  | store w =>
    simp only [next]
    cases r.update w with
    | none => exact h
    | some u => exact hactive _ _ h
  | setIdle count => exact hidle _ _ h

end SplitAction

/-- Workers whose changes of the active count take two steps. -/
def splitSystem (n : Nat) (γ : Type) [DecidableEq γ] :
    TransitionSystem (Split n γ) (SplitAction n γ) where
  init r := ∃ now, r = Split.initial n γ now
  step r b := if b.Enabled r then some (b.next r) else none

lemma splitSystem_step [DecidableEq γ] {r r' : Split n γ} {b : SplitAction n γ}
    (h : (splitSystem n γ).step r b = some r') : b.Enabled r ∧ r' = b.next r := by
  simp only [splitSystem] at h
  split at h
  · exact ⟨‹_›, (Option.some.inj h).symm⟩
  · contradiction

/-! ## Accounting -/

/-- No store of the active count overwrites a change made since its load. -/
def Fresh (r : Split n γ) : SplitAction n γ → Prop
  | .store w => ∀ u ∈ r.update w, u.loaded = r.shared.activeThreadCount
  | .act _ | .setIdle _ => True

instance (r : Split n γ) (b : SplitAction n γ) : Decidable (Fresh r b) := by
  induction b using SplitAction.casesOn <;> dsimp only [Fresh] <;> infer_instance

/-- The active count is right up to the changes under way, in the arithmetic of `size_t`. -/
def Accounted (r : Split n γ) : Prop :=
  (r.shared.activeThreadCount + r.pending true) % word64 =
    (countWhere Pc.active r.shared.pc + r.pending false) % word64

/-- The values of the active count are words of `size_t`. -/
structure WordSized (r : Split n γ) : Prop where
  count : r.shared.activeThreadCount < word64
  loaded : ∀ w, ∀ u ∈ r.update w, u.loaded < word64

lemma count_goto {pc : Fin n → Pc γ} {w : Fin n} {p q : Pc γ} {down up : Bool} (hw : pc w = p)
    (hmove : q.active.toNat + down.toNat = p.active.toNat + up.toNat) :
    countWhere Pc.active (Function.update pc w q) + down.toNat =
      countWhere Pc.active pc + up.toNat := by
  have hupdate := countWhere_update Pc.active pc w q
  rw [hw] at hupdate
  omega

/-- A step changes the number of active workers by what it adds to the counter. -/
lemma count_next {s : State n γ} {a : Action n γ} (ha : a.Enabled s) :
    countWhere Pc.active (a.next s).pc + (a.changes s false).toNat =
      countWhere Pc.active s.pc + (a.changes s true).toNat := by
  cases a with
  | scan w =>
    refine count_goto ha ?_
    cases hft : (s.scanOf w).ft <;> split <;>
      simp [Action.changes, Action.change, hft, Pc.active]
  | tickleMe w ft =>
    refine count_goto ha ?_
    split <;> rfl
  | tickleWrite | swapOut | requeue | setHold | wake | scheduleExpired | swapOutIdle | leaveIdle
  | returned => exact count_goto ha rfl
  | resume | newCbFiber | resetCbFiber | enterIdle | exit | swapIn | yield | fixupReady | skip
  | fixupEnded | fixupOther | listExpiredCb => exact count_goto ha.1 rfl
  | getNextTimer w | checkEvents w | checkQueue w =>
    refine count_goto ha ?_
    split
    · rfl
    · rw [Pc.active_poll]
      rfl
  | drain | schedule | tickle | tickleDone | addEvent | trigger | delEvent | timer | tick
  | newFiber | stop => rfl

variable {r : Split n γ}

lemma pending_update (r : Split n γ) (w : Fin n) (o : Option Update) (up : Bool) :
    countWhere (Update.pends up) (Function.update r.update w o) +
        (Update.pends up (r.update w)).toNat =
      r.pending up + (Update.pends up o).toNat :=
  countWhere_update _ _ _ _

lemma worker_of_change {s : State n γ} {a : Action n γ} {w : Fin n} {up : Bool}
    (h : a.change s = some (w, up)) : a.worker = some w := by
  cases a with
  | scan v =>
    simp only [Action.change] at h
    split_ifs at h
    simp_all [Action.worker]
  | skip | returned => simp_all [Action.change, Action.worker]
  | _ => simp [Action.change] at h

lemma pending_act {a : Action n γ} (hb : (SplitAction.act a).Enabled r) (up : Bool) :
    (SplitAction.next r (.act a)).pending up = r.pending up + (a.changes r.shared up).toNat := by
  simp only [Split.pending, SplitAction.next, Action.changes]
  cases hchange : a.change r.shared with
  | none => simp
  | some x =>
    obtain ⟨w, up'⟩ := x
    -- a worker that begins a change has none under way
    have hnone : r.update w = none := hb.2.1 w (worker_of_change hchange)
    have hupdate := pending_update r w (some ⟨up', r.shared.activeThreadCount⟩) up
    simp only [hnone, Update.pends, Split.pending] at hupdate
    simpa using hupdate

lemma WordSized.next (h : WordSized r) (b : SplitAction n γ) : WordSized (b.next r) := by
  have hloaded {w : Fin n} {o : Option Update} (ho : ∀ u ∈ o, u.loaded < word64) :
      ∀ v, ∀ u ∈ Function.update r.update w o v, u.loaded < word64 :=
    (forall_update_iff r.update fun _ o => ∀ u ∈ o, u.loaded < word64).mpr
      ⟨ho, fun v _ => h.loaded v⟩
  cases b with
  | act a =>
    refine ⟨h.count, ?_⟩
    simp only [SplitAction.next]
    cases a.change r.shared with
    | none => exact h.loaded
    | some x => exact hloaded fun u hu => Option.some.inj hu ▸ h.count
  | store w =>
    simp only [SplitAction.next]
    split
    · exact ⟨Nat.mod_lt _ (by decide), hloaded (by simp)⟩
    · exact h
  | setIdle count => exact ⟨h.count, h.loaded⟩

lemma value_iff {u : Update} {v up down count : Nat} (hv : v < word64) (hl : u.loaded < word64)
    (h : (v + (up + u.up.toNat)) % word64 = (count + (down + (!u.up).toNat)) % word64) :
    (u.value + up) % word64 = (count + down) % word64 ↔ u.loaded = v := by
  unfold Update.value
  unfold word64 at *
  cases hup : u.up <;> simp only [hup, Bool.toNat_true, Bool.toNat_false, Bool.not_true,
    Bool.not_false, if_true, if_false, Bool.false_eq_true] at h ⊢ <;> omega

/-- A step keeps the active count accounted for if and only if it loses no change. -/
lemma accounted_next_iff (hwords : WordSized r) (hacc : Accounted r) {b : SplitAction n γ}
    (hb : b.Enabled r) : Accounted (b.next r) ↔ Fresh r b := by
  cases b with
  | act a =>
    refine iff_of_true ?_ trivial
    have hcount := count_next hb.1
    unfold Accounted at hacc ⊢
    rw [pending_act hb, pending_act hb]
    change (r.shared.activeThreadCount + _) % _ =
      (countWhere Pc.active (a.next r.shared).pc + _) % _
    unfold word64 at hacc ⊢
    omega
  | store w =>
    obtain ⟨u, hu⟩ := Option.isSome_iff_exists.mp hb
    have hpending (up : Bool) :
        (SplitAction.next r (.store w)).pending up + (u.up == up).toNat = r.pending up := by
      have hupdate := pending_update r w none up
      simpa [SplitAction.next, Split.pending, hu, Update.pends] using hupdate
    have hups := hpending true
    have hdowns := hpending false
    rw [Accounted, ← hups, ← hdowns, beq_true, beq_false] at hacc
    have hiff := value_iff hwords.count (hwords.loaded w u hu) hacc
    simpa [Accounted, Fresh, SplitAction.next, hu] using hiff
  | setIdle count => exact iff_of_true hacc trivial

variable [DecidableEq γ]

/-- The active count is accounted for as long as no change of it is lost. -/
lemma accounted_of_reachable (h : (splitSystem n γ).ReachableWith Fresh r) :
    WordSized r ∧ Accounted r := by
  refine TransitionSystem.ReachableWith.invariant (I := fun r => WordSized r ∧ Accounted r) ?_ ?_ h
  · rintro r ⟨now, rfl⟩
    have hzero : countWhere Pc.active (Split.initial n γ now).shared.pc = 0 :=
      countWhere_eq_zero.mpr fun _ => rfl
    have hnone (up : Bool) : (Split.initial n γ now).pending up = 0 :=
      countWhere_eq_zero.mpr fun _ => rfl
    refine ⟨⟨Nat.two_pow_pos 64, by simp [Split.initial]⟩, ?_⟩
    rw [Accounted, hzero, hnone, hnone]
    rfl
  rintro r b r' ⟨hwords, hacc⟩ hfresh hstep
  obtain ⟨hb, rfl⟩ := splitSystem_step hstep
  exact ⟨hwords.next b, (accounted_next_iff hwords hacc hb).mpr hfresh⟩

/-- If no change of it is lost, the active count is the number of workers with a task, up to the
changes under way, and stays so exactly if the next step loses none. -/
theorem workers_accounted (hn : n < word64) (h : (splitSystem n γ).ReachableWith Fresh r) :
    Accounted r ∧
      ((∀ w, r.update w = none) → r.shared.activeThreadCount = countWhere Pc.active r.shared.pc) ∧
      (∀ b r', (splitSystem n γ).step r b = some r' → (Accounted r' ↔ Fresh r b)) ∧
      ∀ f, r.shared.fiber f = .exec → ∃ w isCb, r.shared.pc w = .running f isCb := by
  obtain ⟨hwords, hacc⟩ := accounted_of_reachable h
  refine ⟨hacc, fun hsettled => ?_, fun b r' hstep => ?_, ?_⟩
  · have hnone (up : Bool) : r.pending up = 0 :=
      countWhere_eq_zero.mpr fun w => by rw [hsettled w]; rfl
    have hcount : countWhere Pc.active r.shared.pc ≤ n := by
      simpa using countWhere_le (ι := Fin n)
    rwa [Accounted, hnone, hnone, Nat.add_zero, Nat.add_zero, Nat.mod_eq_of_lt hwords.count,
      Nat.mod_eq_of_lt (hcount.trans_lt hn)] at hacc
  · obtain ⟨hb, rfl⟩ := splitSystem_step hstep
    exact accounted_next_iff hwords hacc hb
  · refine TransitionSystem.ReachableWith.invariant (I := fun r => ExecRuns r.shared) ?_ ?_ h
    · rintro r ⟨now, rfl⟩
      simp [ExecRuns, Split.initial, State.initial]
    rintro r b r' hexec - hstep
    obtain ⟨hb, rfl⟩ := splitSystem_step hstep
    exact SplitAction.next_shared (fun _ _ => id) (fun _ _ => id) (fun a _ ha => hexec.next ha)
      hexec hb

theorem workers_accounted_two :
    ∃ r, (splitSystem 2 Unit).runWith Fresh (Split.initial 2 Unit 0)
        [.act (.scan 1), .act (.enterIdle 1), .act (.schedule (some (.cb (.user ()))) none),
          .act (.scan 0), .store 0] = some r ∧
      r.shared.activeThreadCount = countWhere Pc.active r.shared.pc ∧
      r.shared.activeThreadCount = 1 := by
  have hrun : (splitSystem 2 Unit).runWith Fresh (Split.initial 2 Unit 0)
      [.act (.scan 1), .act (.enterIdle 1), .act (.schedule (some (.cb (.user ()))) none),
        .act (.scan 0), .store 0] = some _ := rfl
  have hreach := TransitionSystem.reachableWith_of_init hrun ⟨0, rfl⟩
  exact ⟨_, hrun, (workers_accounted (by decide) hreach).2.1 (Fin.forall_fin_two.mpr ⟨rfl, rfl⟩),
    rfl⟩

end Yuyu.Scheduler
