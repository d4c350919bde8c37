import Yuyu.IOManager.Operations

/-!
# The event invariant over whole runs

From an empty IO manager, every sequence of operations keeps the books, as long as `addEvent` is
called on scheduler threads and for descriptors whose table size is an `int`.
-/

namespace Yuyu.IOManager

open Foundation State Function

def FdContext.bits (c : FdContext) : Nat := c.events.read.toNat + c.events.write.toNat

lemma FdContext.card_waiting (c : FdContext) : c.waiting.card = c.bits := by
  unfold FdContext.waiting FdContext.bits
  cases c.events.read <;> cases c.events.write <;> rfl

/-- An entry whose event bits are currently registered, with any error bits. -/
def Entry.Registered (entry : Entry) (c : FdContext) : Prop :=
  ∀ e, entry.events.has e = true → c.events.has e = true

def eventSystem : TransitionSystem State Op where
  init s := ∃ tickleFd, s = State.initial tickleFd
  step s op :=
    match op.exec s with
    | .ok r => some r.1
    | .error _ => none

lemma inv_initial (tickleFd : Int) : (State.initial tickleFd).Inv := by
  refine (resize_spec ?_ (Nat.zero_le _) (by decide)).1
  refine ⟨by norm_num, by simp, by simp, by simp, by simp, by simp, ?_, rfl, rfl, by simp⟩
  intro fd
  by_cases hfd : fd = tickleFd
  · simp [interest, hfd]
  · simp only [interest, hfd, if_false, update_of_ne hfd]
    rw [if_neg (by simp)]

lemma inv_of_reachable {P : Entry → FdContext → Prop}
    (hP : ∀ entry c, P entry c → NoPartialOverlap entry c) {s : State}
    (h : eventSystem.ReachableWith (fun s op => op.Allowed P s) s) : s.Inv ∧ 32 ≤ s.size := by
  refine TransitionSystem.ReachableWith.invariant (I := fun s => s.Inv ∧ 32 ≤ s.size) ?_ ?_ h
  · rintro s ⟨tickleFd, rfl⟩
    exact ⟨inv_initial tickleFd, le_refl _⟩
  rintro s op s' ⟨hinv, hsize⟩ hop hstep
  obtain ⟨s₁, r, hrun, hout⟩ := Op.exec_spec hinv hsize (hop.mono hP)
  obtain rfl : s₁ = s' := by simpa [eventSystem, hrun] using hstep
  exact ⟨hout.inv, hsize.trans hout.size_le⟩

/-- The bits, the slots, the counter, the interest set and the logs agree. -/
structure Agree (s : State) : Prop where
  /-- The counter is the number of event bits set. -/
  pending : s.pendingEventCount = ∑ i ∈ Finset.range s.size, (s.ctx i).bits
  /-- A bit is set iff its slot has a scheduler and exactly one of fiber and callback. -/
  slot_iff : ∀ fd e, (s.view fd).events.has e = true ↔ ((s.view fd).getContext e).Filled
  /-- The slot of a bit that is not set is empty. -/
  slot_vacant : ∀ fd e, (s.view fd).events.has e = false → ((s.view fd).getContext e).Vacant
  /-- The kernel is interested in exactly the events of the context. -/
  kernel : ∀ fd, fd ≠ s.tickleFd →
    (s.kernel fd).map Interest.events =
      if (s.view fd).events.isEmpty then none else some (s.view fd).events
  /-- What is handed over is the waiter's own job, to its own scheduler. -/
  handed_own : ∀ h ∈ s.handed, h.Ok s.issued
  /-- Every waiter is waiting, handed over or deleted, one of these and once. -/
  once : ∀ w < s.issued.length,
    s.waiting.count w + (s.handed.map Handoff.waiter).count w + s.deleted.count w = 1

lemma view_slotOk {s : State} (h : s.Inv) (fd : Int) (e : Event) :
    (s.view fd).SlotOk s.issued e := by
  unfold view
  split
  · exact h.slotOk _ (by omega) e
  · cases e <;> exact ⟨rfl, rfl, rfl⟩

lemma State.Inv.agree {s : State} (h : s.Inv) : Agree s where
  pending := by
    rw [h.pending_eq, waiting, Multiset.card_sum]
    exact Finset.sum_congr rfl fun i _ => FdContext.card_waiting _
  slot_iff fd e := by
    have hslot := view_slotOk h fd e
    unfold FdContext.SlotOk at hslot
    cases hbit : (s.view fd).events.has e with
    | true =>
      rw [hbit, if_pos rfl] at hslot
      simp [hslot.1]
    | false =>
      rw [hbit, if_neg (by simp)] at hslot
      simp [EventContext.Filled, hslot.1]
  slot_vacant fd e hbit := by
    have hslot := view_slotOk h fd e
    rwa [FdContext.SlotOk, hbit, if_neg (by simp)] at hslot
  kernel fd hfd := by
    rw [h.kernel_eq, interest, if_neg hfd, view]
    split
    · unfold interestOf
      split <;> rfl
    · rfl
  handed_own := h.handed_ok
  once w hw := by
    have hcount := congrArg (Multiset.count w) h.ledger
    rwa [Multiset.count_add, Multiset.count_add, Multiset.coe_count, Multiset.coe_count,
      Multiset.count_eq_one_of_mem (Multiset.nodup_range _) (Multiset.mem_range.mpr hw)] at hcount

lemma Outcome.cleared {s s' : State} {op : Op} {r : Option Bool} (h : s.Inv)
    (hout : Outcome s op s' r) {w : Nat} (hw : w ∈ s.waiting) (hw' : w ∉ s'.waiting) :
    (s'.handed.map Handoff.waiter).count w = if op.isDel then 0 else 1 := by
  have hlt : w < s.issued.length := by
    rw [← Multiset.mem_range, ← h.ledger]
    simp [hw]
  have hbefore := h.agree.once w hlt
  have hafter := hout.inv.agree.once w (lt_of_lt_of_le hlt hout.issued_extends.length_le)
  have hpos : 0 < s.waiting.count w := Multiset.count_pos.mpr hw
  have hzero : s'.waiting.count w = 0 := Multiset.count_eq_zero.mpr hw'
  cases hdel : op.isDel with
  | true =>
    rw [hout.handed_eq hdel]
    simp
    omega
  | false =>
    rw [hout.deleted_eq hdel] at hafter
    simp
    omega

/-- In every state reached the books agree and no operation aborts; a waiter is handed over exactly
once when a cancel or a dispatch clears its bit. -/
theorem event_bookkeeping {s : State}
    (h : eventSystem.ReachableWith (fun s op => op.Allowed Entry.Registered s) s) :
    Agree s ∧
      ∀ op : Op, op.Allowed Entry.Registered s →
        ∃ s' r, op.exec s = .ok (s', r) ∧
          (op.fails = true → SameBooks s s' ∧ r ≠ some true) ∧
          (op.isDel = true → s'.handed = s.handed) ∧
          ∀ w ∈ s.waiting, w ∉ s'.waiting →
            (s'.handed.map Handoff.waiter).count w = if op.isDel then 0 else 1 := by
  have hP : ∀ entry c, Entry.Registered entry c → NoPartialOverlap entry c :=
    fun entry c hentry => Or.inr hentry
  obtain ⟨hinv, hsize⟩ := inv_of_reachable hP h
  refine ⟨hinv.agree, fun op hop => ?_⟩
  obtain ⟨s', r, hrun, hout⟩ := Op.exec_spec hinv hsize (hop.mono hP)
  exact ⟨s', r, hrun, hout.failed, hout.handed_eq, fun w hw hw' => hout.cleared hinv hw hw'⟩

theorem event_bookkeeping_one_waiter :
    ∃ s, eventSystem.run (State.initial 9) [.addEvent 5 .read none ⟨some 0, 3, true⟩ false] =
        some s ∧ Agree s ∧ s.pendingEventCount = 1 ∧
      ∃ s' r, Op.exec s (.cancelEvent 5 .read false) = .ok (s', r) := by
  have hrun : eventSystem.run (State.initial 9)
      [.addEvent 5 .read none ⟨some 0, 3, true⟩ false] = some _ := rfl
  have hreach : eventSystem.ReachableWith (fun s op => op.Allowed Entry.Registered s) _ :=
    .step (a := .addEvent 5 .read none ⟨some 0, 3, true⟩ false) (.init ⟨9, rfl⟩)
      ⟨by decide, by decide, by decide, by decide⟩ rfl
  obtain ⟨hagree, hops⟩ := event_bookkeeping hreach
  obtain ⟨s', r, hexec, -⟩ := hops (.cancelEvent 5 .read false) (Int.natCast_nonneg 5)
  exact ⟨_, hrun, hagree, rfl, s', r, hexec⟩

/-- A waiter registered by a thread without a scheduler is cancelled through a null pointer; a size
that is no `int` cuts the table down. -/
theorem event_bookkeeping_limits :
    (∃ s, eventSystem.run (State.initial 9) [.addEvent 5 .read none ⟨none, 3, true⟩ false] =
        some s ∧
      (s.view 5).events.has .read = true ∧ ((s.view 5).getContext .read).scheduler = none ∧
      (s.cancelEvent 5 .read false).toOption.isNone = true) ∧
    ∃ s, eventSystem.run (State.initial 9)
        [.addEvent 1431655766 .read none ⟨some 0, 3, true⟩ false,
          .addEvent 5 .write none ⟨some 0, 4, true⟩ false] = some s ∧
      (s.kernel 1431655766).map Interest.events = some { read := true } ∧
      (s.view 1431655766).events.isEmpty = true ∧ s.pendingEventCount = 2 ∧
      ∑ i ∈ Finset.range s.size, (s.ctx i).bits = 1 :=
  ⟨⟨_, rfl, by decide, by decide, by decide⟩, ⟨_, rfl, by decide, by decide, by decide, by decide⟩⟩

end Yuyu.IOManager
