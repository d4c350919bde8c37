import Yuyu.Foundation.TransitionSystem
import Yuyu.Timer.Manager
import Mathlib.Data.List.Nodup

/-!
# The timer set invariant

The set of pending timers is ordered by a mutable field of its elements, which every operation
writes while the timer is out of the set. The invariant is stated with a list of detached timers.
-/

namespace Yuyu.Timer

open Foundation List Function

universe u

variable {γ : Type u}

namespace TimerManager

lemma before_iff (m : TimerManager γ) (a b : Nat) :
    m.before a b = true ↔
      (m.object a).next < (m.object b).next ∨ (m.object a).next = (m.object b).next ∧ a < b := by
  simp only [before, comparator]
  split_ifs with h1 h2
  · simp [h1]
  · simp only [false_iff]
    omega
  · have heq : (m.object a).next = (m.object b).next := by omega
    simp [heq]

lemma before_strictTotal (m : TimerManager γ) : OrderedSet.StrictTotal m.before where
  irrefl a := by simp [before, comparator]
  trans := by
    intro (a : Nat) (b : Nat) (c : Nat) hab hbc
    rw [before_iff] at hab hbc ⊢
    omega
  connex := by
    intro (a : Nat) (b : Nat) hab hba
    rw [← Bool.not_eq_true, before_iff] at hab hba
    change (a : Nat) = b
    omega

variable {m : TimerManager γ} {a : Addr} {t : TimerObject γ} {out : List Addr}

lemma sorted_setObject {l : List Addr} (ha : a ∉ l) (h : OrderedSet.Sorted m.before l) :
    OrderedSet.Sorted (m.setObject a t).before l := by
  refine List.Pairwise.imp_of_mem ?_ h
  intro x y hx hy hxy
  have hxa : x ≠ a := fun heq => ha (heq ▸ hx)
  have hya : y ≠ a := fun heq => ha (heq ▸ hy)
  simpa [before, comparator, setObject, hxa, hya] using hxy

lemma before_clearCallback (m : TimerManager γ) (a : Addr) :
    (m.setObject a { m.object a with cb := none }).before = m.before := by
  funext x y
  by_cases hx : x = a <;> by_cases hy : y = a <;>
    simp [before, comparator, setObject, hx, hy]

/-- The set invariant while the timers in `out` are detached: they are
pending, but an operation has taken them out of the set. -/
structure InvOut (m : TimerManager γ) (out : List Addr) : Prop where
  live_of_mem : ∀ a ∈ m.timers, m.live a = true
  live_of_out : ∀ a ∈ out, m.live a = true
  out_not_mem : ∀ a ∈ out, a ∉ m.timers
  out_nodup : out.Nodup
  mem_iff : ∀ a, m.live a = true → ((a ∈ m.timers ∨ a ∈ out) ↔ (m.object a).cb ≠ none)
  sorted : OrderedSet.Sorted m.before m.timers

/-- The set invariant between two operations. -/
def Inv (m : TimerManager γ) : Prop := m.InvOut []

lemma InvOut.detach {p q : List Addr} (h : m.InvOut out) (hsplit : m.timers = p ++ a :: q) :
    InvOut { m with timers := p ++ q } (a :: out) := by
  have hsub : ∀ x ∈ p ++ q, x ∈ m.timers := by
    intro x hx
    rw [hsplit]
    simp only [mem_append, mem_cons] at hx ⊢
    tauto
  have hmem : a ∈ m.timers := by simp [hsplit]
  have hnodup : (p ++ a :: q).Nodup := hsplit ▸ h.sorted.nodup m.before_strictTotal
  have hnot : a ∉ p ++ q := fun hin => by
    have hperm : (a :: (p ++ q)).Nodup := (perm_middle.nodup_iff).mp hnodup
    exact (nodup_cons.mp hperm).1 hin
  refine ⟨fun x hx => h.live_of_mem x (hsub x hx), ?_, ?_, ?_, ?_, ?_⟩
  · intro x hx
    rcases mem_cons.mp hx with rfl | hx
    · exact h.live_of_mem x hmem
    · exact h.live_of_out x hx
  · intro x hx
    rcases mem_cons.mp hx with rfl | hx
    · exact hnot
    · exact fun hin => h.out_not_mem x hx (hsub x hin)
  · exact nodup_cons.mpr ⟨fun hin => h.out_not_mem a hin hmem, h.out_nodup⟩
  · intro x hx
    rw [← h.mem_iff x hx, hsplit]
    simp only [mem_append, mem_cons]
    tauto
  · have hsorted : OrderedSet.Sorted m.before (p ++ a :: q) := hsplit ▸ h.sorted
    exact List.Pairwise.sublist (List.Sublist.append_left (sublist_cons_self a q) p) hsorted

lemma InvOut.detachPrefix (h : m.Inv) (it : Nat) :
    InvOut { m with timers := m.timers.drop it } (m.timers.take it) := by
  have happ : m.timers.take it ++ m.timers.drop it = m.timers := take_append_drop it _
  have hnodup : (m.timers.take it ++ m.timers.drop it).Nodup :=
    happ.symm ▸ h.sorted.nodup m.before_strictTotal
  refine ⟨fun x hx => h.live_of_mem x (mem_of_mem_drop hx),
    fun x hx => h.live_of_mem x (mem_of_mem_take hx), ?_,
    (nodup_append.mp hnodup).1, ?_, List.Pairwise.drop h.sorted⟩
  · intro x hx hin
    exact (nodup_append.mp hnodup).2.2 x hx x hin rfl
  intro x hx
  rw [← h.mem_iff x hx]
  simp only [not_mem_nil, or_false]
  rw [← happ, mem_append, take_append_drop, or_comm]

lemma InvOut.setObject (h : m.InvOut (a :: out)) (hcb : t.cb ≠ none) :
    (m.setObject a t).InvOut (a :: out) := by
  refine ⟨h.live_of_mem, h.live_of_out, h.out_not_mem, h.out_nodup, ?_,
    sorted_setObject (h.out_not_mem a (by simp)) h.sorted⟩
  intro x hx
  by_cases hxa : x = a
  · subst hxa
    simpa [TimerManager.setObject] using hcb
  · simpa [TimerManager.setObject, hxa] using h.mem_iff x hx

lemma InvOut.cb_ne_none
    (h : m.InvOut (a :: out)) : (m.object a).cb ≠ none :=
  (h.mem_iff a (h.live_of_out a (by simp))).mp (Or.inr (by simp))

lemma InvOut.attach (h : m.InvOut (a :: out)) : (m.insertTimer a).InvOut out := by
  have hmem : ∀ x, x ∈ (m.insertTimer a).timers ↔ x = a ∨ x ∈ m.timers := fun x =>
    OrderedSet.mem_insert m.before_strictTotal
  have hnodup := nodup_cons.mp h.out_nodup
  refine ⟨?_, fun x hx => h.live_of_out x (by simp [hx]), ?_, hnodup.2, ?_,
    OrderedSet.insert_pairwise m.before_strictTotal h.sorted⟩
  · intro x hx
    rcases (hmem x).mp hx with rfl | hx
    · exact h.live_of_out x (by simp)
    · exact h.live_of_mem x hx
  · intro x hx hin
    rcases (hmem x).mp hin with rfl | hin
    · exact hnodup.1 hx
    · exact h.out_not_mem x (by simp [hx]) hin
  intro x hx
  rw [hmem x]
  refine Iff.trans ?_ (h.mem_iff x hx)
  simp only [mem_cons]
  tauto

lemma InvOut.clear
    (h : m.InvOut (a :: out)) (hcb : t.cb = none) : (m.setObject a t).InvOut out := by
  have hnodup := nodup_cons.mp h.out_nodup
  have hnot : a ∉ m.timers := h.out_not_mem a (by simp)
  refine ⟨h.live_of_mem, fun x hx => h.live_of_out x (by simp [hx]),
    fun x hx => h.out_not_mem x (by simp [hx]), hnodup.2, ?_, sorted_setObject hnot h.sorted⟩
  intro x hx
  by_cases hxa : x = a
  · subst hxa
    have hfalse : ¬ (x ∈ m.timers ∨ x ∈ out) := by
      rintro (hin | hin)
      · exact hnot hin
      · exact hnodup.1 hin
    simpa [TimerManager.setObject, hcb] using hfalse
  have hold := h.mem_iff x hx
  simpa [TimerManager.setObject, hxa] using hold

lemma InvOut.allocate (h : m.InvOut out) (ha : m.live a = false) (hcb : t.cb ≠ none) :
    (m.allocate a t).InvOut (a :: out) := by
  have hnot : a ∉ m.timers := fun hin => by simp [h.live_of_mem a hin] at ha
  have hout : a ∉ out := fun hin => by simp [h.live_of_out a hin] at ha
  have hlive : ∀ x, m.live x = true → (m.allocate a t).live x = true := by
    intro x hx
    by_cases hxa : x = a <;> simp [TimerManager.allocate, hxa, hx]
  refine ⟨fun x hx => hlive x (h.live_of_mem x hx), ?_, ?_,
    nodup_cons.mpr ⟨hout, h.out_nodup⟩, ?_, sorted_setObject hnot h.sorted⟩
  · intro x hx
    rcases mem_cons.mp hx with rfl | hx
    · simp [TimerManager.allocate]
    · exact hlive x (h.live_of_out x hx)
  · intro x hx
    rcases mem_cons.mp hx with rfl | hx
    · exact hnot
    · exact h.out_not_mem x hx
  intro x hx
  by_cases hxa : x = a
  · subst hxa
    simpa [TimerManager.allocate, TimerManager.setObject] using hcb
  have hx' : m.live x = true := by
    simpa [TimerManager.allocate, hxa] using hx
  simpa [TimerManager.allocate, TimerManager.setObject, hxa] using h.mem_iff x hx'

lemma Inv.eraseTimer_find (h : m.Inv) (ha : a ∈ m.timers) :
    ∃ m', m.eraseTimer (m.findTimer a) = some m' ∧ m'.InvOut [a] ∧
      m'.object = m.object ∧ m'.tickled = m.tickled ∧ m'.live = m.live ∧
      m.findTimer a < m.timers.length := by
  obtain ⟨p, q, hsplit, -, herase⟩ := OrderedSet.find_of_mem m.before_strictTotal h.sorted ha
  refine ⟨{ m with timers := p ++ q }, ?_, h.detach hsplit, rfl, rfl, rfl,
    OrderedSet.find_lt_length_of_mem m.before_strictTotal h.sorted ha⟩
  simp [eraseTimer, findTimer, herase]

lemma InvOut.addTimerLocked (h : m.InvOut [a]) : (m.addTimerLocked a).1.Inv := by
  have hattach := h.attach
  exact ⟨hattach.live_of_mem, hattach.live_of_out, hattach.out_not_mem, hattach.out_nodup,
    hattach.mem_iff, hattach.sorted⟩

lemma Inv.addTimer (h : m.Inv) (ha : m.live a = false)
    (now ms : Nat) {cb : Option (Callback γ)} (hcb : cb ≠ none) (recurring : Bool) :
    (m.addTimer a now ms cb recurring).1.Inv :=
  (InvOut.allocate h ha (t := ⟨ms, cb, recurring, add64 now ms⟩) hcb).addTimerLocked

lemma Inv.cancel (h : m.Inv) (ha : m.live a = true) : ∃ r, m.cancel a = some r ∧ r.1.Inv := by
  by_cases hcb : (m.object a).cb = none
  · exact ⟨(m, false), by simp [TimerManager.cancel, hcb], h⟩
  have hmem : a ∈ m.timers := by simpa using (h.mem_iff a ha).mpr hcb
  obtain ⟨p, q, hsplit, -, herase⟩ := OrderedSet.find_of_mem m.before_strictTotal h.sorted hmem
  refine ⟨({ m.setObject a { m.object a with cb := none } with timers := p ++ q }, true),
    ?_, (h.detach hsplit).clear rfl⟩
  have hsome : (m.object a).cb.isSome = true := Option.isSome_iff_ne_none.mpr hcb
  have htimers : (m.setObject a { m.object a with cb := none }).timers = m.timers := rfl
  simp [TimerManager.cancel, hsome, eraseTimer, findTimer, before_clearCallback, htimers, herase]

lemma Inv.refresh (h : m.Inv) (ha : m.live a = true)
    (now : Nat) : ∃ r, m.refresh a now = some r ∧ r.1.Inv := by
  by_cases hcb : (m.object a).cb = none
  · exact ⟨(m, false), by simp [TimerManager.refresh, hcb], h⟩
  have hmem : a ∈ m.timers := by simpa using (h.mem_iff a ha).mpr hcb
  obtain ⟨m', herase, hout, hobj, -, -, hpos⟩ := h.eraseTimer_find hmem
  have hcb' : (m'.object a).cb ≠ none := hout.cb_ne_none
  have hwritten := InvOut.setObject hout
    (t := { m'.object a with next := add64 now (m'.object a).ms }) hcb'
  refine ⟨(TimerManager.insertTimer _ a, true), ?_, hwritten.attach⟩
  have hne : m.findTimer a ≠ m.timers.length := Nat.ne_of_lt hpos
  simp [TimerManager.refresh, hcb, hne, herase]

lemma Inv.reset (h : m.Inv) (ha : m.live a = true) (ms : Nat) (fromNow : Bool) (now : Nat) :
    ∃ r, m.reset a ms fromNow now = some r ∧ r.manager.Inv := by
  by_cases hsame : ms = (m.object a).ms ∧ fromNow = false
  · exact ⟨⟨m, true, false⟩, by simp [TimerManager.reset, hsame], h⟩
  by_cases hcb : (m.object a).cb = none
  · exact ⟨⟨m, false, false⟩, by simp [TimerManager.reset, hsame, hcb], h⟩
  have hmem : a ∈ m.timers := by simpa using (h.mem_iff a ha).mpr hcb
  obtain ⟨m', herase, hout, hobj, -, -, hpos⟩ := h.eraseTimer_find hmem
  have hcb' : (m'.object a).cb ≠ none := hout.cb_ne_none
  have hne : m.findTimer a ≠ m.timers.length := Nat.ne_of_lt hpos
  have hwritten := InvOut.setObject hout (t := { m'.object a with
      ms := ms
      next := add64 (if fromNow then now else sub64 (m'.object a).next (m'.object a).ms) ms })
    hcb'
  rw [TimerManager.reset, if_neg hsame]
  simp only [Option.isNone_iff_eq_none, hcb, if_false, hne, herase, Option.map_some]
  exact ⟨_, rfl, hwritten.addTimerLocked⟩

lemma InvOut.expireOne (h : m.InvOut (a :: out)) (now : Nat) (cbs : List (Option (Callback γ))) :
    (TimerManager.expireOne now (m, cbs) a).1.InvOut out := by
  simp only [TimerManager.expireOne]
  split
  · exact (h.setObject (t := { m.object a with next := add64 now (m.object a).ms })
      h.cb_ne_none).attach
  · exact h.clear rfl

lemma InvOut.expireAll (now : Nat) (out : List Addr)
    (acc : TimerManager γ × List (Option (Callback γ))) (h : acc.1.InvOut out) :
    (out.foldl (TimerManager.expireOne now) acc).1.Inv := by
  induction out generalizing acc with
  | nil => exact h
  | cons a out ih => exact ih _ (h.expireOne now acc.2)

lemma Inv.listExpiredCb (h : m.Inv) (now : Nat) (probe : Addr) :
    (m.listExpiredCb now probe).1.Inv := by
  have hroll : (m.detectClockRollover now).1.Inv :=
    ⟨h.live_of_mem, h.live_of_out, h.out_not_mem, h.out_nodup, h.mem_iff, h.sorted⟩
  simp only [TimerManager.listExpiredCb]
  split
  · exact h
  split
  · exact hroll
  · exact InvOut.expireAll now _ _ (InvOut.detachPrefix hroll _)

lemma Inv.release (h : m.Inv) (ha : a ∉ m.timers) :
    Inv { m with live := update m.live a false } := by
  refine ⟨?_, by simp, by simp, nodup_nil, ?_, h.sorted⟩
  · intro x hx
    have hxa : x ≠ a := fun heq => ha (heq ▸ hx)
    simpa [hxa] using h.live_of_mem x hx
  intro x hx
  by_cases hxa : x = a
  · simp [hxa] at hx
  · exact h.mem_iff x (by simpa [hxa] using hx)

end TimerManager

/-! ## Sequences of operations -/

/-- The operations of the manager and of its timers.  The address given to an
operation that constructs an object is the one the allocator returns. -/
inductive Op (γ : Type u) where
  | addTimer (a : Addr) (now ms : Nat) (cb : Callback γ) (recurring : Bool)
  | addConditionTimer (a : Addr) (now ms : Nat) (cb : Option γ) (weakCond : Nat)
      (recurring : Bool)
  | cancel (a : Addr)
  | refresh (a : Addr) (now : Nat)
  | reset (a : Addr) (ms : Nat) (fromNow : Bool) (now : Nat)
  | getNextTimer (now : Nat)
  | listExpiredCb (now : Nat) (probe : Addr)
  | release (a : Addr)
deriving DecidableEq

/-- Constructors get a free address, methods are called on objects that exist, and only an object
that the set does not share can be destroyed. -/
def Op.Allowed (m : TimerManager γ) : Op γ → Prop
  | .addTimer a _ _ _ _ | .addConditionTimer a _ _ _ _ _ => m.live a = false
  | .cancel a | .refresh a _ | .reset a _ _ _ => m.live a = true
  | .getNextTimer _ => True
  | .listExpiredCb _ probe => m.live probe = false
  | .release a => m.live a = true ∧ a ∉ m.timers

instance (m : TimerManager γ) (op : Op γ) : Decidable (op.Allowed m) :=
  match op with
  | .addTimer .. | .addConditionTimer .. | .listExpiredCb .. | .cancel _ | .refresh .. |
    .reset .. => inferInstanceAs (Decidable (_ = _))
  | .getNextTimer _ => inferInstanceAs (Decidable True)
  | .release _ => inferInstanceAs (Decidable (_ ∧ _))

/-- Execute one operation; `none` when it erases the end iterator. -/
def Op.exec (m : TimerManager γ) : Op γ → Option (TimerManager γ)
  | .addTimer a now ms cb recurring => some (m.addTimer a now ms (some cb) recurring).1
  | .addConditionTimer a now ms cb weakCond recurring =>
    some (m.addConditionTimer a now ms cb weakCond recurring).1
  | .cancel a => (m.cancel a).map Prod.fst
  | .refresh a now => (m.refresh a now).map Prod.fst
  | .reset a ms fromNow now => (m.reset a ms fromNow now).map TimerManager.ResetResult.manager
  | .getNextTimer now => some (m.getNextTimer now).1
  | .listExpiredCb now probe => some (m.listExpiredCb now probe).1
  | .release a => some { m with live := update m.live a false }

lemma Op.exec_inv {m : TimerManager γ} {op : Op γ} (h : m.Inv) (hop : op.Allowed m) :
    ∃ m', op.exec m = some m' ∧ m'.Inv := by
  cases op with
  | addTimer a now ms cb recurring | addConditionTimer a now ms cb weakCond recurring =>
    exact ⟨_, rfl, h.addTimer hop now ms (by simp) recurring⟩
  | cancel a =>
    obtain ⟨r, hr, hinv⟩ := h.cancel hop
    exact ⟨r.1, by simp [Op.exec, hr], hinv⟩
  | refresh a now =>
    obtain ⟨r, hr, hinv⟩ := h.refresh hop now
    exact ⟨r.1, by simp [Op.exec, hr], hinv⟩
  | reset a ms fromNow now =>
    obtain ⟨r, hr, hinv⟩ := h.reset hop ms fromNow now
    exact ⟨r.manager, by simp [Op.exec, hr], hinv⟩
  | getNextTimer now =>
    exact ⟨_, rfl, h.live_of_mem, h.live_of_out, h.out_not_mem, h.out_nodup, h.mem_iff, h.sorted⟩
  | listExpiredCb now probe => exact ⟨_, rfl, h.listExpiredCb now probe⟩
  | release a => exact ⟨_, rfl, h.release hop.2⟩

def timerSystem (γ : Type u) : TransitionSystem (TimerManager γ) (Op γ) where
  init m := ∃ now, m = TimerManager.initial now
  step m op := if op.Allowed m then op.exec m else none

lemma inv_of_reachable {m : TimerManager γ} (h : (timerSystem γ).Reachable m) : m.Inv := by
  refine TransitionSystem.Reachable.invariant ?_ ?_ h
  · rintro m ⟨now, rfl⟩
    exact ⟨by simp [TimerManager.initial], by simp, by simp, nodup_nil,
      by simp [TimerManager.initial], List.Pairwise.nil⟩
  intro m op m' hinv hstep
  simp only [timerSystem] at hstep
  split at hstep
  · rename_i hop
    obtain ⟨m'', hexec, hinv'⟩ := Op.exec_inv hinv hop
    rw [hexec, Option.some.injEq] at hstep
    exact hstep ▸ hinv'
  · contradiction

/-- In every state reached the set holds exactly the existing timers with a callback, each once,
strictly sorted, and no allowed operation erases the end iterator. -/
theorem timer_set_invariant {m : TimerManager γ} (h : (timerSystem γ).Reachable m) :
    (∀ a ∈ m.timers, m.live a = true) ∧
      (∀ a, m.live a = true → (a ∈ m.timers ↔ (m.object a).cb ≠ none)) ∧
      (∀ a, m.live a = true → (m.object a).cb ≠ none → m.timers.count a = 1) ∧
      m.timers.Pairwise (fun a b =>
        (m.object a).next < (m.object b).next ∨
          (m.object a).next = (m.object b).next ∧ a < b) ∧
      (∀ a, m.live a = true → (m.object a).cb ≠ none →
        (m.setObject a { m.object a with cb := none }).findTimer a < m.timers.length) ∧
      ∀ op : Op γ, op.Allowed m → (op.exec m).isSome = true := by
  have hinv := inv_of_reachable h
  have hmem : ∀ a, m.live a = true → (a ∈ m.timers ↔ (m.object a).cb ≠ none) := fun a ha => by
    simpa using hinv.mem_iff a ha
  refine ⟨hinv.live_of_mem, hmem, ?_, ?_, ?_, ?_⟩
  · intro a ha hcb
    have hnodup := hinv.sorted.nodup m.before_strictTotal
    exact count_eq_one_of_mem hnodup ((hmem a ha).mpr hcb)
  · exact hinv.sorted.imp fun hab => (m.before_iff _ _).mp hab
  · intro a ha hcb
    rw [TimerManager.findTimer, TimerManager.before_clearCallback]
    exact OrderedSet.find_lt_length_of_mem m.before_strictTotal hinv.sorted ((hmem a ha).mpr hcb)
  intro op hop
  obtain ⟨m', hexec, -⟩ := Op.exec_inv hinv hop
  simp [hexec]

theorem timer_set_invariant_after_reset :
    ∃ m, (timerSystem Nat).run (TimerManager.initial 100)
        [.addTimer 7 100 50 (.user 1) false, .addConditionTimer 3 100 80 (some 2) 9 true,
          .reset 3 10 true 90] = some m ∧
      m.timers = [3, 7] ∧
      (m.setObject 3 { m.object 3 with cb := none }).findTimer 3 < m.timers.length := by
  have hrun : (timerSystem Nat).run (TimerManager.initial 100)
      [.addTimer 7 100 50 (.user 1) false, .addConditionTimer 3 100 80 (some 2) 9 true,
        .reset 3 10 true 90] = some _ := rfl
  exact ⟨_, hrun, rfl,
    (timer_set_invariant (TransitionSystem.reachable_of_run ⟨100, rfl⟩ hrun)).2.2.2.2.1 3
      (by decide) (by decide)⟩

end Yuyu.Timer
