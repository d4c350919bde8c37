import Yuyu.Foundation.TransitionSystem
import Mathlib.Data.List.Nodup

/-!
# Listeners of a configuration variable

`ConfigVar::setValue` of `yuyu/config.h` compares the values and notifies the listeners under the
read lock, and then stores the value under the write lock. Several calls can interleave. Listeners
record the pairs of values they are told.
-/

namespace Yuyu.Config

open Foundation Function

section Chains

variable {T : Type}

/-- The old value of each change is the new value of the one before. -/
def Chained (initial : T) : List (T × T) → Prop
  | [] => True
  | change :: rest => change.1 = initial ∧ Chained change.2 rest

def lastNew (initial : T) : List (T × T) → T
  | [] => initial
  | change :: rest => lastNew change.2 rest

lemma lastNew_append (initial : T) (log : List (T × T)) (change : T × T) :
    lastNew initial (log ++ [change]) = change.2 := by
  induction log generalizing initial with
  | nil => rfl
  | cons first rest ih => exact ih first.2

lemma Chained.append {initial : T} {log : List (T × T)} (h : Chained initial log)
    {change : T × T} (hold : change.1 = lastNew initial log) :
    Chained initial (log ++ [change]) := by
  induction log generalizing initial with
  | nil => exact ⟨hold, trivial⟩
  | cons first rest ih => exact ⟨h.1, ih h.2 hold⟩

end Chains

/-- Where a thread stands in `setValue`. -/
inductive Pc (T : Type) where
  | idle
  /-- Under the read lock, with listeners still to be notified. -/
  | notifying (v : T) (rest : List Nat)
  /-- The read lock is released, before the write lock is taken. -/
  | storing (v : T)

/-- The keys of `m_cbs` in their order.  A map has each key once. -/
structure Keys where
  keys : List Nat
  nodup : keys.Nodup

/-- A `ConfigVar`, what its listeners have recorded, and `n` threads. -/
structure ConfigVar (n : Nat) (T : Type) where
  val : T
  cbs : Keys
  log : Nat → List (T × T)
  pc : Fin n → Pc T

/-- The steps of a call by thread `t`. -/
inductive Op (n : Nat) (T : Type) where
  | compare (t : Fin n) (v : T)
  /-- One round of the loop over the listeners, or the end of it. -/
  | notify (t : Fin n)
  | store (t : Fin n)

variable {n : Nat} {T : Type}

def Op.thread : Op n T → Fin n
  | .compare t _ | .notify t | .store t => t

namespace Pc

def reads : Pc T → Bool
  | .notifying _ _ => true
  | _ => false

def isIdle : Pc T → Bool
  | .idle => true
  | _ => false

lemma isIdle_iff {p : Pc T} : p.isIdle = true ↔ p = .idle := by
  cases p <;> simp [isIdle]

end Pc

namespace ConfigVar

def initial (n : Nat) (val : T) (cbs : Keys) : ConfigVar n T :=
  ⟨val, cbs, fun _ => [], fun _ => .idle⟩

def getValue (s : ConfigVar n T) : T := s.val

def goto (s : ConfigVar n T) (t : Fin n) (pc : Pc T) : ConfigVar n T :=
  { s with pc := update s.pc t pc }

def tell (s : ConfigVar n T) (i : Nat) (v : T) : ConfigVar n T :=
  { s with log := update s.log i (s.log i ++ [(s.val, v)]) }

end ConfigVar

/-- One step of `setValue`.  The write lock waits for the readers. -/
def Op.step [BEq T] (s : ConfigVar n T) : Op n T → Option (ConfigVar n T)
  | .compare t v =>
    match s.pc t with
    | .idle => if v == s.val then some s else some (s.goto t (.notifying v s.cbs.keys))
    | _ => none
  | .notify t =>
    match s.pc t with
    | .notifying v (i :: rest) => some ((s.tell i v).goto t (.notifying v rest))
    | .notifying v [] => some (s.goto t (.storing v))
    | _ => none
  | .store t =>
    match s.pc t with
    | .storing v =>
      if ∀ u, (s.pc u).reads = false then some ({ s with val := v }.goto t .idle) else none
    | _ => none

def configSystem (n : Nat) (T : Type) [BEq T] (default : T) (cbs : Keys) :
    TransitionSystem (ConfigVar n T) (Op n T) where
  init s := s = ConfigVar.initial n default cbs
  step s op := op.step s

/-- A call that has a change to notify begins when no other call is under way. -/
def Alone [BEq T] (s : ConfigVar n T) : Op n T → Prop
  | .compare _ v => (v == s.val) = false → ∀ u, (s.pc u).isIdle = true
  | _ => True

instance [BEq T] (s : ConfigVar n T) (op : Op n T) : Decidable (Alone s op) :=
  match op with
  | .compare _ _ => inferInstanceAs (Decidable (_ = _ → _))
  | .notify _ | .store _ => inferInstanceAs (Decidable True)

/-! ## The invariant -/

def Pc.told (val : T) (i : Nat) : Pc T → T
  | .idle => val
  | .notifying v rest => if i ∈ rest then val else v
  | .storing v => v

def Pc.Pending (cbs : List Nat) : Pc T → Prop
  | .notifying _ rest => rest.Nodup ∧ ∀ i ∈ rest, i ∈ cbs
  | _ => True

/-- At most one thread is in a call, and the listeners have been told what its
place in the call says. -/
structure Agree (default : T) (s : ConfigVar n T) (t : Fin n) : Prop where
  chained : ∀ i ∈ s.cbs.keys, Chained default (s.log i)
  others : ∀ u, u ≠ t → s.pc u = .idle
  pending : (s.pc t).Pending s.cbs.keys
  last : ∀ i ∈ s.cbs.keys, lastNew default (s.log i) = (s.pc t).told s.val i

namespace Agree

variable {default : T} {s : ConfigVar n T} {t : Fin n} (h : Agree default s t)
include h

lemma eq_of_busy {u : Fin n} (hu : s.pc u ≠ .idle) : u = t := by
  by_contra hne
  exact hu (h.others u hne)

lemma othersIdle (p : Pc T) : ∀ u, u ≠ t → update s.pc t p u = .idle := by
  intro u hu
  rw [update_of_ne hu]
  exact h.others u hu

lemma begin (hidle : ∀ u, s.pc u = .idle) (u : Fin n) (v : T) :
    Agree default (s.goto u (.notifying v s.cbs.keys)) u := by
  refine ⟨h.chained, fun w hw => ?_, ?_, fun i hi => ?_⟩
  · change update s.pc u _ w = .idle
    rw [update_of_ne hw]
    exact hidle w
  · simpa [ConfigVar.goto, Pc.Pending] using s.cbs.nodup
  have hlast := h.last i hi
  rw [hidle t] at hlast
  have hi' : i ∈ s.cbs.keys := hi
  simpa [ConfigVar.goto, Pc.told, hi'] using hlast

lemma notify {v : T} {i : Nat} {rest : List Nat} (hpc : s.pc t = .notifying v (i :: rest)) :
    Agree default ((s.tell i v).goto t (.notifying v rest)) t := by
  have hpending := h.pending
  rw [hpc] at hpending
  obtain ⟨hnodup, hmem⟩ := hpending
  obtain ⟨hnot, hrest⟩ := List.nodup_cons.mp hnodup
  have hi : i ∈ s.cbs.keys := hmem i List.mem_cons_self
  have hold : lastNew default (s.log i) = s.val := by
    rw [h.last i hi, hpc]
    simp [Pc.told]
  refine ⟨fun j hj => ?_, h.othersIdle _, ?_, fun j hj => ?_⟩
  · change Chained default (update s.log i (s.log i ++ [(s.val, v)]) j)
    by_cases hji : j = i
    · rw [hji, update_self]
      exact (h.chained i hi).append hold.symm
    · rw [update_of_ne hji]
      exact h.chained j hj
  · simpa [ConfigVar.goto, ConfigVar.tell, Pc.Pending] using
      ⟨hrest, fun j hj => hmem j (List.mem_cons_of_mem i hj)⟩
  change lastNew default (update s.log i (s.log i ++ [(s.val, v)]) j) = _
  have hpc' : ((s.tell i v).goto t (.notifying v rest)).pc t = .notifying v rest :=
    update_self _ _ _
  rw [hpc']
  by_cases hji : j = i
  · rw [hji, update_self, lastNew_append]
    simp [Pc.told, hnot]
  · rw [update_of_ne hji, h.last j hj, hpc]
    simp [Pc.told, ConfigVar.goto, ConfigVar.tell, hji]

lemma unlock {v : T} (hpc : s.pc t = .notifying v []) :
    Agree default (s.goto t (.storing v)) t := by
  refine ⟨h.chained, h.othersIdle _, ?_, fun i hi => ?_⟩
  · simp [ConfigVar.goto, Pc.Pending]
  have hlast := h.last i hi
  rw [hpc] at hlast
  simpa [ConfigVar.goto, Pc.told] using hlast

lemma store {v : T} (hpc : s.pc t = .storing v) :
    Agree default ({ s with val := v }.goto t .idle) t := by
  refine ⟨h.chained, h.othersIdle _, ?_, fun i hi => ?_⟩
  · simp [ConfigVar.goto, Pc.Pending]
  have hlast := h.last i hi
  rw [hpc] at hlast
  simpa [ConfigVar.goto, Pc.told] using hlast

lemma step [BEq T] {op : Op n T} {s' : ConfigVar n T} (hop : Alone s op)
    (hstep : op.step s = some s') : ∃ u, Agree default s' u := by
  cases op with
  | compare u v =>
    simp only [Op.step] at hstep
    split at hstep
    · split at hstep
      · exact ⟨t, Option.some.inj hstep ▸ h⟩
      rename_i hne
      have hidle := fun w => Pc.isIdle_iff.mp (hop (by simpa using hne) w)
      exact ⟨u, Option.some.inj hstep ▸ h.begin hidle u v⟩
    · contradiction
  | notify u =>
    simp only [Op.step] at hstep
    split at hstep
    · rename_i v i rest hpc
      obtain rfl := h.eq_of_busy (u := u) (by simp [hpc])
      exact ⟨u, Option.some.inj hstep ▸ h.notify hpc⟩
    · rename_i v hpc
      obtain rfl := h.eq_of_busy (u := u) (by simp [hpc])
      exact ⟨u, Option.some.inj hstep ▸ h.unlock hpc⟩
    · contradiction
  | store u =>
    simp only [Op.step] at hstep
    split at hstep
    · rename_i v hpc
      obtain rfl := h.eq_of_busy (u := u) (by simp [hpc])
      split at hstep
      · exact ⟨u, Option.some.inj hstep ▸ h.store hpc⟩
      · contradiction
    · contradiction

end Agree

lemma agree_initial (default : T) (cbs : Keys) (t : Fin n) :
    Agree default (ConfigVar.initial n default cbs) t :=
  ⟨fun _ _ => trivial, fun _ _ => rfl, trivial, fun _ _ => rfl⟩

lemma cbs_of_step [BEq T] {op : Op n T} {s s' : ConfigVar n T} (h : op.step s = some s') :
    s'.cbs = s.cbs := by
  cases op <;> simp only [Op.step] at h <;> repeat' split at h
  all_goals cases h
  all_goals rfl

lemma agree_of_reachable [BEq T] {default : T} {cbs : Keys}
    {s : ConfigVar n T} (h : (configSystem n T default cbs).ReachableWith Alone s) :
    s.cbs = cbs ∧ (s = ConfigVar.initial n default cbs ∨ ∃ t, Agree default s t) := by
  refine TransitionSystem.ReachableWith.invariant
    (I := fun s => s.cbs = cbs ∧ (s = ConfigVar.initial n default cbs ∨ ∃ t, Agree default s t))
    ?_ ?_ h
  · rintro s rfl
    exact ⟨rfl, Or.inl rfl⟩
  rintro s op s' ⟨hs, hinv⟩ hop hstep
  refine ⟨(cbs_of_step hstep).trans hs, Or.inr ?_⟩
  rcases hinv with rfl | ⟨t, ht⟩
  · exact (agree_initial default cbs op.thread).step hop hstep
  · exact ht.step hop hstep

/-- If changing calls do not overlap, each listener is told a chain of changes from the default to
the value that the variable has in the end. -/
theorem listeners_agree [BEq T] {default : T} {cbs : Keys}
    {s : ConfigVar n T} (h : (configSystem n T default cbs).ReachableWith Alone s) :
    ∀ i ∈ cbs.keys, Chained default (s.log i) ∧
      ((∀ t, s.pc t = .idle) → lastNew default (s.log i) = s.getValue) := by
  intro i hi
  obtain ⟨hs, hinitial | ⟨t, ht⟩⟩ := agree_of_reachable h
  · rw [hinitial]
    exact ⟨trivial, fun _ => rfl⟩
  rw [← hs] at hi
  refine ⟨ht.chained i hi, fun hidle => ?_⟩
  rw [ht.last i hi, hidle t]
  rfl

/-- Thread `t` sets a variable with one listener. -/
def setValue (t : Fin 2) (v : Nat) : List (Op 2 Nat) :=
  [.compare t v, .notify t, .notify t, .store t]

def oneListener : Keys := ⟨[1], List.nodup_singleton 1⟩

theorem listeners_agree_in_turn :
    ∃ s, (configSystem 2 Nat 0 oneListener).runWith Alone (ConfigVar.initial 2 0 oneListener)
        (setValue 0 5 ++ setValue 1 6) = some s ∧
      s.log 1 = [(0, 5), (5, 6)] ∧ lastNew 0 (s.log 1) = s.getValue := by
  have hrun : (configSystem 2 Nat 0 oneListener).runWith Alone (ConfigVar.initial 2 0 oneListener)
      (setValue 0 5 ++ setValue 1 6) = some _ := rfl
  have hreach := TransitionSystem.reachableWith_of_init hrun rfl
  exact ⟨_, hrun, rfl, (listeners_agree hreach 1 List.mem_cons_self).2
    (Fin.forall_fin_two.mpr ⟨rfl, rfl⟩)⟩

/-- Two threads notify in one order and store in the other: the listener keeps 6 while the variable
is 5. -/
theorem listeners_diverge :
    ∃ s, (configSystem 2 Nat 0 oneListener).run (ConfigVar.initial 2 0 oneListener)
        [.compare 0 5, .compare 1 6, .notify 0, .notify 1, .notify 0, .notify 1, .store 1,
          .store 0] = some s ∧
      (∀ t, s.pc t = .idle) ∧ s.log 1 = [(0, 5), (0, 6)] ∧ lastNew 0 (s.log 1) = 6 ∧
      s.getValue = 5 :=
  ⟨_, rfl, Fin.forall_fin_two.mpr ⟨rfl, rfl⟩, rfl, rfl, rfl⟩

end Yuyu.Config
