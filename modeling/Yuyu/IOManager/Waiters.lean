import Yuyu.IOManager.StaleBatch

/-!
# What a registered waiter can count on

A waiter is behind its bit until it is handed over, and a `cancelEvent` for its descriptor and event
hands it over.
-/

namespace Yuyu.IOManager

open Foundation State

variable {s s' : State}

variable {fd : Int} {e : Event} {fails r : Bool}

/-- A successful `addEvent` registers its caller. -/
theorem addEvent_outcome (h : s.Inv) (hsize : 32 ≤ s.size) (hmax : fd ≤ maxFd)
    {cb : Option Nat} {caller : Caller} (hcaller : caller.OnScheduler)
    {rt : Int} (hrun : s.addEvent fd e cb caller fails = .ok (s', rt)) :
    Outcome s (.addEvent fd e cb caller fails) s' (some (rt == 0)) ∧
      (rt = 0 → s'.issued = s.issued ++ [⟨fd, e, caller.scheduler, caller.job cb⟩]) := by
  have hpos : 0 ≤ fd := by
    by_contra hneg
    have hint : toInt32 s.size > fd := by
      rw [toInt32_of_lt h.size_lt]
      omega
    simp [State.addEvent, growTo, hint, contextAt, hneg, bind, Except.bind, Except.map] at hrun
  obtain ⟨s₁, hgrow, hinv, hbooks, hin, hsize₁, htickle, hslot⟩ := growTo_spec h hsize hpos hmax
  obtain ⟨i, rfl⟩ := Int.eq_ofNat_of_zero_le hpos
  rw [Int.toNat_natCast] at hgrow hin
  replace hrun : s₁.addLocked (s₁.slot i) i e cb caller fails = .ok (s', rt) := by
    simpa [State.addEvent, hgrow, bind, Except.bind] using hrun
  have hbit : (s₁.ctx i).events.has e = false := by
    by_contra hset
    rw [Bool.not_eq_false] at hset
    simp [addLocked, object_slot, hset] at hrun
  rcases addLocked_spec hinv hin hbit cb hcaller fails with ⟨hadd, -⟩ | ⟨s₂, c, hadd, hf, eff⟩
  · obtain ⟨rfl, rfl⟩ : s₁ = s' ∧ -1 = rt := by simpa [hadd] using hrun
    refine ⟨.of_sameBooks hinv hbooks hsize₁ hslot htickle (by simp), fun hrt => ?_⟩
    contradiction
  obtain ⟨rfl, rfl⟩ : s₂ = s' ∧ 0 = rt := by simpa [hadd] using hrun
  refine ⟨.of_effect hinv hin hbooks hsize₁ hslot htickle eff hf (fun _ => rfl) (fun _ => rfl),
    fun _ => ?_⟩
  rw [eff.issued_eq, hbooks.issued_eq]

lemma onContext_nonneg (h : s.Inv) {locked : Nat → Except Fault (State × Bool)}
    {r : State × Bool} (hrun : s.onContext fd locked = .ok r) : 0 ≤ fd := by
  by_contra hneg
  have hint : ¬ toInt32 s.size ≤ fd := by
    rw [toInt32_of_lt h.size_lt]
    omega
  simp [onContext, lookup, hint, contextAt, hneg, bind, Except.bind, Except.map] at hrun

lemma Op.outcome {op : Op} {res : Option Bool} (h : s.Inv) (hsize : 32 ≤ s.size)
    (hop : op.Allowed NoPartialOverlap s) (hrun : op.exec s = .ok (s', res)) :
    Outcome s op s' res := by
  obtain ⟨s₁, res₁, hexec, hout⟩ := Op.exec_spec h hsize hop
  rw [hrun] at hexec
  cases hexec
  exact hout

lemma cancelEvent_outcome (h : s.Inv) (hsize : 32 ≤ s.size)
    (hrun : s.cancelEvent fd e fails = .ok (s', r)) :
    Outcome s (.cancelEvent fd e fails) s' (some r) :=
  Op.outcome h hsize (onContext_nonneg h hrun) (by simp [Op.exec, hrun, Except.map])

lemma cancelAll_outcome (h : s.Inv) (hsize : 32 ≤ s.size)
    (hrun : s.cancelAll fd fails = .ok (s', r)) :
    Outcome s (.cancelAll fd fails) s' (some r) :=
  Op.outcome h hsize (onContext_nonneg h hrun) (by simp [Op.exec, hrun, Except.map])

lemma State.Inv.behind_bit (h : s.Inv) {w : Nat} {reg : Registration}
    (hreg : s.issued[w]? = some reg) (hhanded : w ∉ s.handed.map Handoff.waiter)
    (hdeleted : w ∉ s.deleted) : (s.view reg.fd).events.has reg.event = true := by
  have hmem : w ∈ s.waiting := by
    have hrange : w ∈ Multiset.range s.issued.length :=
      Multiset.mem_range.mpr (List.getElem?_eq_some_iff.mp hreg).1
    rw [← h.ledger, Multiset.mem_add, Multiset.mem_add] at hrange
    rcases hrange with (hw | hw) | hw
    · exact hw
    · exact (hhanded (Multiset.mem_coe.mp hw)).elim
    · exact (hdeleted (Multiset.mem_coe.mp hw)).elim
  obtain ⟨i, hi, hwi⟩ := Multiset.mem_sum.mp hmem
  replace hi : i < s.size := Finset.mem_range.mp hi
  obtain ⟨e, hbit, hwaiter⟩ : ∃ e, (s.ctx i).events.has e = true ∧
      ((s.ctx i).getContext e).waiter = w := by
    rw [FdContext.waiting, Multiset.mem_add] at hwi
    rcases hwi with hr | hw
    · refine ⟨.read, ?_⟩
      cases hread : (s.ctx i).events.read with
      | true => exact ⟨hread, by simpa [hread, FdContext.getContext, eq_comm] using hr⟩
      | false => simp [hread] at hr
    refine ⟨.write, ?_⟩
    cases hwrite : (s.ctx i).events.write with
    | true => exact ⟨hwrite, by simpa [hwrite, FdContext.getContext, eq_comm] using hw⟩
    | false => simp [hwrite] at hw
  have hslot := h.slotOk i hi e
  rw [FdContext.SlotOk, if_pos hbit, hwaiter, hreg, h.fd_eq i hi] at hslot
  obtain ⟨-, job, -, heq⟩ := hslot
  obtain rfl := Option.some.inj heq
  rw [view_of_lt s hi]
  exact hbit

lemma cancelLocked_events {p : Nat} (hrun : s.cancelLocked p fd e fails = .ok (s', true)) :
    (s'.object p).events.has e = false := by
  simp only [cancelLocked] at hrun
  split at hrun
  · simp at hrun
  split at hrun
  · simp at hrun
  rename_i kernel _
  cases htrigger : (s.setKernel kernel).trigger p e with
  | error fault => simp [htrigger, bind, Except.bind] at hrun
  | ok s₁ =>
    obtain rfl : s₁ = s' := by
      simpa [htrigger, bind, Except.bind, pure, Except.pure] using hrun
    have hif : (s.setKernel kernel).triggerIf p e true = .ok s₁ := htrigger
    rw [triggerIf_events hif, if_pos rfl, Events.has_remove]
    simp

lemma cancelEvent_clears (h : s.Inv)
    (hrun : s.cancelEvent fd e false = .ok (s', r)) : (s'.view fd).events.has e = false := by
  have hpos : 0 ≤ fd := onContext_nonneg h hrun
  obtain ⟨i, rfl⟩ := Int.eq_ofNat_of_zero_le hpos
  have hint : toInt32 s.size = s.size := toInt32_of_lt h.size_lt
  by_cases hin : i < s.size
  · have hlocked : s.cancelLocked (s.slot i) i e false = .ok (s', r) := by
      simpa [State.cancelEvent, onContext, lookup, hint, contextAt, hin, not_le.mpr hin, bind,
        Except.bind, Except.map] using hrun
    rcases cancelLocked_spec h hin e false with ⟨hsame, hbit⟩ | ⟨s₁, c, hands, hok, -, eff⟩
    · obtain ⟨rfl, -⟩ : s = s' ∧ false = r := by simpa [hsame] using hlocked
      rw [view_of_lt s hin]
      simpa using hbit
    obtain ⟨rfl, -⟩ : s₁ = s' ∧ true = r := by simpa [hok] using hlocked
    rw [view_of_lt s₁ (by rw [eff.size_eq]; exact hin), ctx, eff.slot_eq]
    exact cancelLocked_events hok
  obtain ⟨rfl, -⟩ : s = s' ∧ false = r := by
    simpa [State.cancelEvent, onContext, lookup, hint, not_lt.mp hin, bind, Except.bind, pure,
      Except.pure] using hrun
  rw [view, if_neg (by omega)]
  cases e <;> rfl

/-- A cancelled waiter is handed over. -/
theorem cancelEvent_hands (h : s.Inv) (hsize : 32 ≤ s.size) (hdeleted : s.deleted = []) {w : Nat}
    {reg : Registration} (hrun : s.cancelEvent reg.fd reg.event false = .ok (s', r))
    (hreg : s'.issued[w]? = some reg) : w ∈ s'.handed.map Handoff.waiter := by
  have hout := cancelEvent_outcome h hsize hrun
  by_contra hnot
  have hbit := hout.inv.behind_bit hreg hnot (by rw [hout.deleted_eq rfl, hdeleted]; simp)
  rw [cancelEvent_clears h hrun] at hbit
  contradiction

end Yuyu.IOManager
