import Yuyu.Foundation.TransitionSystem
import Yuyu.IOManager.Events
import Mathlib.Algebra.Order.BigOperators.Group.Finset
import Mathlib.Tactic.Abel

/-!
# Event bookkeeping

The event bits of the contexts, the slots behind them, the counter of pending events and the
kernel's interest set. Every successful operation is one `Effect` on them. The waiters behind set
bits, those handed over and those removed are together, as multisets, the waiters registered.
-/

namespace Yuyu.IOManager

open Foundation Function

def EventContext.Filled (x : EventContext) : Prop :=
  x.scheduler.isSome = true ∧ (x.fiber.isSome = !x.cb.isSome)

def EventContext.Vacant (x : EventContext) : Prop :=
  x.scheduler = none ∧ x.fiber = none ∧ x.cb = none

def EventContext.job (x : EventContext) : Option Job :=
  match x.cb with
  | some f => some (.cb f)
  | none => x.fiber.map .fiber

/-- The slot of a set bit holds the waiter registered for it, and the slot of a
bit that is not set is vacant. -/
def FdContext.SlotOk (issued : List Registration) (c : FdContext) (e : Event) : Prop :=
  if c.events.has e then
    (c.getContext e).Filled ∧
      ∃ job, (c.getContext e).job = some job ∧
        issued[(c.getContext e).waiter]? = some ⟨c.fd, e, (c.getContext e).scheduler, job⟩
  else (c.getContext e).Vacant

def FdContext.waiting (c : FdContext) : Multiset Nat :=
  (bif c.events.read then {c.read.waiter} else 0) +
    (bif c.events.write then {c.write.waiter} else 0)

def Handoff.Ok (issued : List Registration) (h : Handoff) : Prop :=
  ∃ fd e, issued[h.waiter]? = some ⟨fd, e, some h.scheduler, h.job⟩

def interestOf (p : Nat) (c : FdContext) : Option Interest :=
  if c.events.isEmpty then none else some ⟨c.events, .ptr p⟩

namespace Events

@[simp]
lemma has_remove (s : Events) (e e' : Event) :
    (s.remove e).has e' = (s.has e' && decide (e' ≠ e)) := by
  cases e <;> cases e' <;> simp [remove, has]

@[simp]
lemma has_add (s : Events) (e e' : Event) : (s.add e).has e' = (s.has e' || decide (e' = e)) := by
  cases e <;> cases e' <;> simp [add, has]

@[simp]
lemma has_diff (s t : Events) (e : Event) : (s.diff t).has e = (s.has e && !t.has e) := by
  cases e <;> rfl

@[simp]
lemma has_union (s t : Events) (e : Event) : (s.union t).has e = (s.has e || t.has e) := by
  cases e <;> rfl

lemma ext_has {s t : Events} (h : ∀ e, s.has e = t.has e) : s = t := by
  have hr := h .read
  have hw := h .write
  cases s
  cases t
  simp_all [has]

lemma isEmpty_add (s : Events) (e : Event) : (s.add e).isEmpty = false := by
  cases e <;> simp [add, isEmpty]

end Events

namespace FdContext

@[simp]
lemma getContext_setContext (c : FdContext) (ctx : EventContext) (e e' : Event) :
    (c.setContext ctx e).getContext e' = if e' = e then ctx else c.getContext e' := by
  cases e <;> cases e' <;> rfl

@[simp]
lemma setContext_events (c : FdContext) (ctx : EventContext) (e : Event) :
    (c.setContext ctx e).events = c.events := by
  cases e <;> rfl

@[simp]
lemma setContext_fd (c : FdContext) (ctx : EventContext) (e : Event) :
    (c.setContext ctx e).fd = c.fd := by
  cases e <;> rfl

@[simp]
lemma getContext_withEvents (c : FdContext) (s : Events) (e : Event) :
    ({ c with events := s } : FdContext).getContext e = c.getContext e := by
  cases e <;> rfl

lemma slotOk_clear {issued : List Registration} {c : FdContext} {ctx : EventContext} {e : Event}
    (h : ∀ e', c.SlotOk issued e') (hctx : ctx.Vacant) :
    ∀ e', (({ c with events := c.events.remove e }).setContext ctx e).SlotOk issued e' := by
  intro e'
  have he' := h e'
  unfold SlotOk at he' ⊢
  by_cases heq : e' = e
  · simp [heq, hctx]
  · simpa [heq] using he'

lemma waiting_clear {c : FdContext} {ctx : EventContext} {e : Event} (he : c.events.has e = true) :
    (({ c with events := c.events.remove e }).setContext ctx e).waiting +
      {(c.getContext e).waiter} = c.waiting := by
  cases e
  · have hr : c.events.read = true := he
    simp [waiting, setContext, Events.remove, getContext, hr, add_comm]
  · have hw : c.events.write = true := he
    simp [waiting, setContext, Events.remove, getContext, hw]

lemma triggerEvent_spec {issued : List Registration} {c : FdContext} {e : Event}
    (h : ∀ e', c.SlotOk issued e') (he : c.events.has e = true) :
    ∃ c' hd, c.triggerEvent e = .ok (c', [hd]) ∧ c'.fd = c.fd ∧
      c'.events = c.events.remove e ∧ (∀ e', c'.SlotOk issued e') ∧ hd.Ok issued ∧
      c'.waiting + {hd.waiter} = c.waiting := by
  have hslot := h e
  simp only [SlotOk, he, if_true] at hslot
  obtain ⟨⟨hsched, hone⟩, job, hjob, hreg⟩ := hslot
  obtain ⟨scheduler, hscheduler⟩ := Option.isSome_iff_exists.mp hsched
  rw [hscheduler] at hreg
  -- whichever member was filled, the slot is vacant afterwards
  suffices hrun : ∃ ctx : EventContext, ctx.Vacant ∧ c.triggerEvent e =
      .ok (({ c with events := c.events.remove e }).setContext ctx e,
        [⟨scheduler, job, (c.getContext e).waiter⟩]) by
    obtain ⟨ctx, hctx, hrun⟩ := hrun
    exact ⟨_, _, hrun, by simp, by simp, slotOk_clear h hctx, ⟨_, _, hreg⟩, waiting_clear he⟩
  cases hcb : (c.getContext e).cb with
  | some f =>
    have hfiber : (c.getContext e).fiber = none := by simpa [hcb] using hone
    obtain rfl : Job.cb f = job := by simpa [EventContext.job, hcb] using hjob
    exact ⟨{ c.getContext e with scheduler := none, cb := none }, ⟨rfl, hfiber, rfl⟩,
      by simp [triggerEvent, he, hscheduler, hcb]⟩
  | none =>
    obtain ⟨f, hfiber⟩ : ∃ f, (c.getContext e).fiber = some f := by
      rw [hcb] at hone
      exact Option.isSome_iff_exists.mp hone
    obtain rfl : Job.fiber f = job := by simpa [EventContext.job, hcb, hfiber] using hjob
    exact ⟨{ c.getContext e with scheduler := none, fiber := none }, ⟨rfl, rfl, hcb⟩,
      by simp [triggerEvent, he, hscheduler, hcb, hfiber]⟩

end FdContext

/-! ## The invariant -/

namespace State

def ctx (s : State) (i : Nat) : FdContext := s.object (s.slot i)

lemma object_slot (s : State) (i : Nat) : s.object (s.slot i) = s.ctx i := rfl

def waiting (s : State) : Multiset Nat := ∑ i ∈ Finset.range s.size, (s.ctx i).waiting

def interest (s : State) (fd : Int) : Option Interest :=
  if fd = s.tickleFd then some ⟨{ read := true }, .tickle⟩
  else if 0 ≤ fd ∧ fd < s.size then interestOf (s.slot fd.toNat) (s.ctx fd.toNat)
  else none

/-- The bookkeeping invariant. -/
structure Inv (s : State) : Prop where
  size_lt : s.size < 2 ^ 31
  slot_lt : ∀ i < s.size, s.slot i < s.nextPtr
  slot_inj : ∀ i < s.size, ∀ j < s.size, s.slot i = s.slot j → i = j
  fd_eq : ∀ i < s.size, (s.ctx i).fd = i
  slotOk : ∀ i < s.size, ∀ e, (s.ctx i).SlotOk s.issued e
  tickle_free : ∀ i < s.size, (i : Int) = s.tickleFd → (s.ctx i).events.isEmpty = true
  kernel_eq : ∀ fd, s.kernel fd = s.interest fd
  pending_eq : s.pendingEventCount = s.waiting.card
  ledger : s.waiting + s.handed.map Handoff.waiter + s.deleted = Multiset.range s.issued.length
  handed_ok : ∀ h ∈ s.handed, h.Ok s.issued

/-- A successful operation on the context with index `i`: the context
becomes `c`, and the counter, the kernel and the logs follow. -/
structure Effect (s s' : State) (i : Nat) (c : FdContext) (regs : List Registration)
    (hands : List Handoff) (dels : List Nat) : Prop where
  size_eq : s'.size = s.size
  slot_eq : s'.slot = s.slot
  nextPtr_eq : s'.nextPtr = s.nextPtr
  tickleFd_eq : s'.tickleFd = s.tickleFd
  object_eq : s'.object = update s.object (s.slot i) c
  kernel_eq : s'.kernel = update s.kernel i (interestOf (s.slot i) c)
  issued_eq : s'.issued = s.issued ++ regs
  handed_eq : s'.handed = s.handed ++ hands
  deleted_eq : s'.deleted = s.deleted ++ dels
  not_tickle : (i : Int) ≠ s.tickleFd
  fd_eq : c.fd = i
  slotOk : ∀ e, c.SlotOk s'.issued e
  pending_eq : s'.pendingEventCount + (s.ctx i).waiting.card = s.pendingEventCount + c.waiting.card
  ledger : Multiset.range s.issued.length + c.waiting + hands.map Handoff.waiter + dels =
    Multiset.range s'.issued.length + (s.ctx i).waiting
  handed_ok : ∀ h ∈ hands, h.Ok s'.issued

lemma getElem?_append_of_some {α : Type} {l r : List α} {i : Nat} {a : α}
    (h : l[i]? = some a) : (l ++ r)[i]? = some a := by
  rw [List.getElem?_append_left (List.getElem?_eq_some_iff.mp h).1]
  exact h

lemma slotOk_append {issued : List Registration} (regs : List Registration) {c : FdContext}
    {e : Event} (h : c.SlotOk issued e) : c.SlotOk (issued ++ regs) e := by
  unfold FdContext.SlotOk at h ⊢
  split
  · rename_i he
    rw [if_pos he] at h
    obtain ⟨hfilled, job, hjob, hreg⟩ := h
    exact ⟨hfilled, job, hjob, getElem?_append_of_some hreg⟩
  · rename_i he
    rwa [if_neg he] at h

lemma handoffOk_append {issued regs : List Registration} {h : Handoff}
    (hok : h.Ok issued) : h.Ok (issued ++ regs) := by
  obtain ⟨fd, e, hreg⟩ := hok
  exact ⟨fd, e, getElem?_append_of_some hreg⟩

namespace Effect

variable {s s' : State} {i : Nat} {c : FdContext} {regs : List Registration}
  {hands : List Handoff} {dels : List Nat}

lemma ctx_self (eff : Effect s s' i c regs hands dels) : s'.ctx i = c := by
  simp [ctx, eff.slot_eq, eff.object_eq]

lemma ctx_of_ne (eff : Effect s s' i c regs hands dels) (h : s.Inv) (hi : i < s.size) {j : Nat}
    (hj : j < s.size) (hne : j ≠ i) : s'.ctx j = s.ctx j := by
  have hslot : s.slot j ≠ s.slot i := fun heq => hne (h.slot_inj j hj i hi heq)
  simp [ctx, eff.slot_eq, eff.object_eq, hslot]

lemma waiting_eq (eff : Effect s s' i c regs hands dels) (h : s.Inv) (hi : i < s.size) :
    s'.waiting + (s.ctx i).waiting = s.waiting + c.waiting := by
  have hmem : i ∈ Finset.range s.size := Finset.mem_range.mpr hi
  have hrest : ∑ j ∈ (Finset.range s.size).erase i, (s'.ctx j).waiting =
      ∑ j ∈ (Finset.range s.size).erase i, (s.ctx j).waiting := by
    refine Finset.sum_congr rfl fun j hj => ?_
    obtain ⟨hne, hlt⟩ := Finset.mem_erase.mp hj
    rw [eff.ctx_of_ne h hi (Finset.mem_range.mp hlt) hne]
  rw [waiting, waiting, eff.size_eq, ← Finset.add_sum_erase _ _ hmem,
    ← Finset.add_sum_erase (Finset.range s.size) (fun j => (s.ctx j).waiting) hmem, hrest,
    eff.ctx_self]
  abel

lemma interest_eq (eff : Effect s s' i c regs hands dels) (h : s.Inv) (hi : i < s.size)
    (fd : Int) : s'.interest fd = update s.interest i (interestOf (s.slot i) c) fd := by
  by_cases hfd : fd = i
  · subst hfd
    have hin : (0 : Int) ≤ i ∧ (i : Int) < s.size := ⟨by omega, by omega⟩
    simp only [interest, eff.tickleFd_eq, eff.not_tickle, if_false, eff.size_eq, if_pos hin,
      Int.toNat_natCast, eff.slot_eq, eff.ctx_self, update_self]
  rw [update_of_ne hfd]
  simp only [interest, eff.tickleFd_eq, eff.size_eq, eff.slot_eq]
  split
  · rfl
  split
  · rename_i hin
    rw [eff.ctx_of_ne h hi (by omega) (by omega)]
  · rfl

/-- An effect keeps the invariant. -/
theorem inv (eff : Effect s s' i c regs hands dels) (h : s.Inv) (hi : i < s.size) : s'.Inv := by
  have hwait := eff.waiting_eq h hi
  refine ⟨?_, ?_, ?_, ?_, ?_, ?_, ?_, ?_, ?_, ?_⟩
  · rw [eff.size_eq]
    exact h.size_lt
  · rw [eff.size_eq, eff.slot_eq, eff.nextPtr_eq]
    exact h.slot_lt
  · rw [eff.size_eq, eff.slot_eq]
    exact h.slot_inj
  · intro j hj
    rw [eff.size_eq] at hj
    by_cases hji : j = i
    · rw [hji, eff.ctx_self, eff.fd_eq]
    · rw [eff.ctx_of_ne h hi hj hji, h.fd_eq j hj]
  · intro j hj e
    rw [eff.size_eq] at hj
    by_cases hji : j = i
    · rw [hji, eff.ctx_self]
      exact eff.slotOk e
    · rw [eff.ctx_of_ne h hi hj hji, eff.issued_eq]
      exact slotOk_append regs (h.slotOk j hj e)
  · intro j hj htickle
    rw [eff.size_eq] at hj
    rw [eff.tickleFd_eq] at htickle
    have hji : j ≠ i := fun heq => eff.not_tickle (heq ▸ htickle)
    rw [eff.ctx_of_ne h hi hj hji]
    exact h.tickle_free j hj htickle
  · intro fd
    rw [eff.kernel_eq, eff.interest_eq h hi]
    congr 1
    exact funext h.kernel_eq
  · have hcard := congrArg Multiset.card hwait
    simp only [Multiset.card_add] at hcard
    have hpending := eff.pending_eq
    have hold := h.pending_eq
    omega
  · have hledger := h.ledger
    have heff := eff.ledger
    rw [eff.handed_eq, eff.deleted_eq, List.map_append, ← Multiset.coe_add, ← Multiset.coe_add]
    apply add_right_cancel (b := (s.ctx i).waiting)
    rw [← heff, ← hledger]
    calc s'.waiting + (↑(s.handed.map Handoff.waiter) + ↑(hands.map Handoff.waiter)) +
          (↑s.deleted + ↑dels) + (s.ctx i).waiting
        = (s'.waiting + (s.ctx i).waiting) + (↑(s.handed.map Handoff.waiter) +
          ↑(hands.map Handoff.waiter)) + (↑s.deleted + ↑dels) := by abel
      _ = _ := by
          rw [hwait]
          abel
  intro hd hmem
  rw [eff.handed_eq, List.mem_append] at hmem
  rcases hmem with hmem | hmem
  · rw [eff.issued_eq]
    exact handoffOk_append (h.handed_ok hd hmem)
  · exact eff.handed_ok hd hmem

end Effect

/-! ## Growing the table -/

def view (s : State) (fd : Int) : FdContext :=
  if 0 ≤ fd ∧ fd < s.size then s.ctx fd.toNat else { fd := fd }

/-- Two states with the same bits, slots, counter, interest set and logs. -/
structure SameBooks (s s' : State) : Prop where
  view_eq : ∀ fd, s'.view fd = s.view fd
  kernel_eq : s'.kernel = s.kernel
  pending_eq : s'.pendingEventCount = s.pendingEventCount
  issued_eq : s'.issued = s.issued
  handed_eq : s'.handed = s.handed
  deleted_eq : s'.deleted = s.deleted

lemma SameBooks.refl (s : State) : SameBooks s s := ⟨fun _ => rfl, rfl, rfl, rfl, rfl, rfl⟩

lemma view_of_lt (s : State) {i : Nat} (hi : i < s.size) : s.view i = s.ctx i := by
  rw [view, if_pos ⟨by omega, by omega⟩, Int.toNat_natCast]

section Resize

variable {s : State} {n : Nat} (h : s.Inv) (hle : s.size ≤ n) (hlt : n < 2 ^ 31)

include h hle

lemma resize_ctx_old {i : Nat} (hi : i < s.size) :
    (s.contextResize n).slot i = s.slot i ∧ (s.contextResize n).ctx i = s.ctx i := by
  have hslot := h.slot_lt i hi
  have hnot : ¬ (s.nextPtr + s.size ≤ s.slot i ∧ s.slot i < s.nextPtr + n) := by omega
  have hs : (s.contextResize n).slot i = s.slot i := by
    simp [contextResize, Nat.min_eq_left hle, hi]
  refine ⟨hs, ?_⟩
  rw [ctx, hs]
  simp [contextResize, Nat.min_eq_left hle, hnot, ctx]

include hlt

omit h in
lemma resize_ctx_new {i : Nat} (hi : s.size ≤ i) (hin : i < n) :
    (s.contextResize n).slot i = s.nextPtr + i ∧
      (s.contextResize n).ctx i = { fd := (i : Int) } := by
  have hs : (s.contextResize n).slot i = s.nextPtr + i := by
    simp [contextResize, Nat.min_eq_left hle, Nat.not_lt.mpr hi]
  refine ⟨hs, ?_⟩
  rw [ctx, hs]
  simp [contextResize, Nat.min_eq_left hle, hi, hin, toInt32_of_lt (lt_trans hin hlt)]

lemma resize_waiting : (s.contextResize n).waiting = s.waiting := by
  have hsub : Finset.range s.size ⊆ Finset.range n := Finset.range_mono hle
  rw [waiting, waiting, show (s.contextResize n).size = n from rfl]
  rw [← Finset.sum_subset hsub]
  · refine Finset.sum_congr rfl fun i hi => ?_
    rw [(resize_ctx_old h hle (Finset.mem_range.mp hi)).2]
  intro i hi hnot
  have hge : s.size ≤ i := Nat.not_lt.mp fun hlt => hnot (Finset.mem_range.mpr hlt)
  rw [(resize_ctx_new hle hlt hge (Finset.mem_range.mp hi)).2]
  rfl

lemma resize_view (fd : Int) : (s.contextResize n).view fd = s.view fd := by
  rw [view, view, show (s.contextResize n).size = n from rfl]
  by_cases hin : 0 ≤ fd ∧ fd < s.size
  · rw [if_pos hin, if_pos ⟨hin.1, by omega⟩, (resize_ctx_old h hle (by omega)).2]
  rw [if_neg hin]
  split
  · rw [(resize_ctx_new hle hlt (by omega) (by omega)).2]
    congr 1
    omega
  · rfl

lemma resize_interest (fd : Int) : (s.contextResize n).interest fd = s.interest fd := by
  have hempty : ∀ (p : Nat) (j : Int), interestOf p { fd := j } = none := fun _ _ => rfl
  rw [interest, interest, show (s.contextResize n).size = n from rfl,
    show (s.contextResize n).tickleFd = s.tickleFd from rfl]
  split
  · rfl
  by_cases hin : 0 ≤ fd ∧ fd < s.size
  · obtain ⟨hslot, hctx⟩ := resize_ctx_old h hle (by omega : fd.toNat < s.size)
    rw [if_pos hin, if_pos ⟨hin.1, by omega⟩, hslot, hctx]
  rw [if_neg hin]
  split
  · rw [(resize_ctx_new hle hlt (by omega) (by omega)).2, hempty]
  · rfl

lemma resize_spec : (s.contextResize n).Inv ∧ SameBooks s (s.contextResize n) := by
  have hcases : ∀ i < n, (s.contextResize n).slot i = s.nextPtr + i ∧ s.size ≤ i ∨
      (s.contextResize n).slot i = s.slot i ∧ i < s.size := by
    intro i hi
    by_cases hold : i < s.size
    · exact Or.inr ⟨(resize_ctx_old h hle hold).1, hold⟩
    · exact Or.inl ⟨(resize_ctx_new hle hlt (by omega) hi).1, by omega⟩
  refine ⟨⟨hlt, ?_, ?_, ?_, ?_, ?_, ?_, ?_, ?_, h.handed_ok⟩,
    resize_view h hle hlt, rfl, rfl, rfl, rfl, rfl⟩
  · intro i hi
    show (s.contextResize n).slot i < s.nextPtr + n
    have hi' : i < n := hi
    rcases hcases i hi with ⟨hs, -⟩ | ⟨hs, hold⟩
    · omega
    · have hslot := h.slot_lt i hold
      omega
  · intro i hi j hj heq
    rcases hcases i hi with ⟨hs, -⟩ | ⟨hs, hold⟩ <;> rcases hcases j hj with ⟨hs', -⟩ | ⟨hs', hold'⟩
    · omega
    · have hslot := h.slot_lt j hold'
      omega
    · have hslot := h.slot_lt i hold
      omega
    · exact h.slot_inj i hold j hold' (by omega)
  · intro i hi
    by_cases hold : i < s.size
    · rw [(resize_ctx_old h hle hold).2, h.fd_eq i hold]
    · rw [(resize_ctx_new hle hlt (by omega) hi).2]
  · intro i hi e
    by_cases hold : i < s.size
    · rw [(resize_ctx_old h hle hold).2]
      exact h.slotOk i hold e
    · rw [(resize_ctx_new hle hlt (by omega) hi).2]
      cases e <;> exact ⟨rfl, rfl, rfl⟩
  · intro i hi htickle
    by_cases hold : i < s.size
    · rw [(resize_ctx_old h hle hold).2]
      exact h.tickle_free i hold htickle
    · rw [(resize_ctx_new hle hlt (by omega) hi).2]
      rfl
  · intro fd
    rw [resize_interest h hle hlt]
    exact h.kernel_eq fd
  · rw [resize_waiting h hle hlt]
    exact h.pending_eq
  · rw [resize_waiting h hle hlt]
    exact h.ledger

end Resize

/-- The largest descriptor for which the table size `fd * 1.5` is an `int`. -/
def maxFd : Int := 1431655765

lemma growTo_spec {s : State} (h : s.Inv) (hsize : 32 ≤ s.size) {fd : Int} (hpos : 0 ≤ fd)
    (hmax : fd ≤ maxFd) :
    ∃ s', s.growTo fd = .ok (s', s'.slot fd.toNat) ∧ s'.Inv ∧ SameBooks s s' ∧
      fd.toNat < s'.size ∧ s.size ≤ s'.size ∧ s'.tickleFd = s.tickleFd ∧
      ∀ i < s.size, s'.slot i = s.slot i := by
  have hint : toInt32 s.size = s.size := toInt32_of_lt h.size_lt
  unfold maxFd at hmax
  rw [growTo, hint]
  split
  · refine ⟨s, ?_, h, SameBooks.refl s, by omega, le_refl _, rfl, fun _ _ => rfl⟩
    rw [contextAt, if_pos ⟨hpos, by omega⟩]
    rfl
  have hge : s.size ≤ 3 * fd.toNat / 2 := by omega
  obtain ⟨hinv, hbooks⟩ := resize_spec h hge (by omega)
  rw [if_neg (by omega)]
  refine ⟨s.contextResize (3 * fd.toNat / 2), ?_, hinv, hbooks, ?_, hge, rfl,
    fun i hi => (resize_ctx_old h hge hi).1⟩
  · have hin : 0 ≤ fd ∧ fd < (s.contextResize (3 * fd.toNat / 2)).size :=
      ⟨hpos, by show fd < ((3 * fd.toNat / 2 : Nat) : Int); omega⟩
    simp only [contextAt, if_pos hin]
    rfl
  · show fd.toNat < 3 * fd.toNat / 2
    omega

end State

end Yuyu.IOManager
