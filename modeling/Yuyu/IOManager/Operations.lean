import Yuyu.IOManager.Bookkeeping

/-!
# What the event operations do

Each operation either leaves the books unchanged or has one effect on them.
With the invariant of the books no assertion fails on the way.
-/

namespace Yuyu.IOManager

open Foundation Function

namespace State

variable {s : State} {i : Nat}

lemma Inv.not_tickle (h : s.Inv) (hi : i < s.size) (hne : (s.ctx i).events.isEmpty = false) :
    (i : Int) ≠ s.tickleFd := fun heq => by
  simp [h.tickle_free i hi heq] at hne

lemma Inv.kernel_of_ne (h : s.Inv) (hi : i < s.size) (htickle : (i : Int) ≠ s.tickleFd) :
    s.kernel i = interestOf (s.slot i) (s.ctx i) := by
  rw [h.kernel_eq, interest, if_neg htickle, if_pos ⟨by omega, by omega⟩, Int.toNat_natCast]

lemma epollCtl_reduce (h : s.Inv) (hi : i < s.size)
    (hne : (s.ctx i).events.isEmpty = false) (c : FdContext) (fails : Bool) :
    epollCtl s.kernel (.reduce c.events) i c.events (.ptr (s.slot i)) fails =
      if fails then none else some (update s.kernel i (interestOf (s.slot i) c)) := by
  have hk := h.kernel_of_ne hi (h.not_tickle hi hne)
  rw [interestOf, hne] at hk
  cases hempty : c.events.isEmpty <;> cases fails <;> 
    simp [epollCtl, CtlOp.reduce, hk, interestOf, hempty]

lemma epollCtl_extend (h : s.Inv) (hi : i < s.size) (c : FdContext)
    (hc : c.events.isEmpty = false) (fails : Bool) :
    epollCtl s.kernel (.extend (s.ctx i).events) i c.events (.ptr (s.slot i)) fails =
      if fails ∨ (i : Int) = s.tickleFd then none
      else some (update s.kernel i (interestOf (s.slot i) c)) := by
  by_cases htickle : (i : Int) = s.tickleFd
  · have hempty := h.tickle_free i hi htickle
    have hk : s.kernel i = some ⟨{ read := true }, .tickle⟩ := by
      rw [h.kernel_eq, interest, if_pos htickle]
    rw [if_pos (Or.inr htickle)]
    cases fails <;> simp [epollCtl, CtlOp.extend, hempty, hk]
  have hk := h.kernel_of_ne hi htickle
  cases hempty : (s.ctx i).events.isEmpty <;> cases fails <;>
    simp [epollCtl, CtlOp.extend, hk, hempty, htickle, interestOf, hc]

lemma Inv.waiting_le (h : s.Inv) (hi : i < s.size) :
    (s.ctx i).waiting.card ≤ s.pendingEventCount := by
  rw [h.pending_eq, waiting, ← Finset.add_sum_erase _ _ (Finset.mem_range.mpr hi),
    Multiset.card_add]
  exact Nat.le_add_right _ _

lemma waiting_card_le (c : FdContext) : c.waiting.card ≤ 2 := by
  unfold FdContext.waiting
  cases c.events.read <;> cases c.events.write <;> simp

lemma Inv.pending_lt (h : s.Inv) : s.pendingEventCount < 2 ^ 32 := by
  have hsum : s.waiting.card ≤ s.size * 2 := by
    rw [waiting, Multiset.card_sum]
    calc ∑ i ∈ Finset.range s.size, (s.ctx i).waiting.card
        ≤ ∑ _i ∈ Finset.range s.size, 2 := Finset.sum_le_sum fun i _ => waiting_card_le _
      _ = s.size * 2 := by simp
  have hlt := h.size_lt
  rw [h.pending_eq]
  omega

def handOver (s : State) (p : Nat) (c : FdContext) (hands : List Handoff) : State :=
  { s with
    object := update s.object p c
    handed := s.handed ++ hands
    pendingEventCount := s.pendingEventCount - hands.length }

lemma triggerIf_spec {s : State} (p : Nat) (e : Event) (cond : Bool)
    (hok : ∀ e', (s.object p).SlotOk s.issued e')
    (hcond : cond = true → (s.object p).events.has e = true)
    (hle : (s.object p).waiting.card ≤ s.pendingEventCount) (hlt : s.pendingEventCount < 2 ^ 32) :
    ∃ c hands, s.triggerIf p e cond = .ok (s.handOver p c hands) ∧ c.fd = (s.object p).fd ∧
      c.events = (if cond then (s.object p).events.remove e else (s.object p).events) ∧
      (∀ e', c.SlotOk s.issued e') ∧ (∀ h ∈ hands, h.Ok s.issued) ∧
      c.waiting + hands.map Handoff.waiter = (s.object p).waiting := by
  cases cond with
  | false =>
    refine ⟨s.object p, [], ?_, rfl, rfl, hok, by simp, by simp⟩
    simp [triggerIf, handOver]
  | true =>
    obtain ⟨c, hd, hrun, hfd, hevents, hok', hhd, hwait⟩ :=
      FdContext.triggerEvent_spec hok (hcond rfl)
    have hpos : 0 < s.pendingEventCount := by
      have hcard := congrArg Multiset.card hwait
      rw [Multiset.card_add, Multiset.card_singleton] at hcard
      omega
    have hsub : sub64 s.pendingEventCount 1 = s.pendingEventCount - 1 :=
      sub64_eq (lt_trans hlt (by decide)) hpos
    refine ⟨c, [hd], ?_, hfd, hevents, hok', by simpa using hhd, hwait⟩
    simp [triggerIf, trigger, hrun, bind, Except.bind, pure, Except.pure, handOver, setObject, hsub]

lemma triggerBoth_spec {s : State} (p : Nat) (ev : Events)
    (hok : ∀ e', (s.object p).SlotOk s.issued e')
    (hsub : ∀ e, ev.has e = true → (s.object p).events.has e = true)
    (hle : (s.object p).waiting.card ≤ s.pendingEventCount) (hlt : s.pendingEventCount < 2 ^ 32) :
    ∃ c hands, (s.triggerIf p .read ev.read >>= fun s => s.triggerIf p .write ev.write) =
        .ok (s.handOver p c hands) ∧ c.fd = (s.object p).fd ∧
      c.events = (s.object p).events.diff ev ∧
      (∀ e', c.SlotOk s.issued e') ∧ (∀ h ∈ hands, h.Ok s.issued) ∧
      c.waiting + hands.map Handoff.waiter = (s.object p).waiting := by
  obtain ⟨c₁, hands₁, hrun₁, hfd₁, hev₁, hok₁, hh₁, hw₁⟩ :=
    triggerIf_spec p .read ev.read hok (hsub .read) hle hlt
  have hobj : (s.handOver p c₁ hands₁).object p = c₁ := by simp [handOver]
  have hcard := congrArg Multiset.card hw₁
  rw [Multiset.card_add, Multiset.coe_card, List.length_map] at hcard
  have hset : ev.write = true → c₁.events.has .write = true := by
    intro hw
    have hold := hsub .write hw
    rw [hev₁]
    split <;> simp [hold]
  obtain ⟨c₂, hands₂, hrun₂, hfd₂, hev₂, hok₂, hh₂, hw₂⟩ :=
    triggerIf_spec (s := s.handOver p c₁ hands₁) p .write ev.write
      (by rw [hobj]; exact hok₁) (by rw [hobj]; exact hset)
      (by rw [hobj]; show c₁.waiting.card ≤ s.pendingEventCount - hands₁.length; omega)
      (by show s.pendingEventCount - hands₁.length < 2 ^ 32; omega)
  rw [hobj] at hfd₂ hev₂ hw₂
  refine ⟨c₂, hands₁ ++ hands₂, ?_, hfd₂.trans hfd₁, ?_, hok₂, ?_, ?_⟩
  · rw [hrun₁]
    simp only [bind, Except.bind, hrun₂]
    simp [handOver, Nat.sub_sub]
  · rw [hev₂, hev₁]
    apply Events.ext_has
    intro e
    cases e <;> cases hr : ev.read <;> cases hw : ev.write <;>
      simp [Events.has, Events.diff, Events.remove, hr, hw]
  · intro h hmem
    rcases List.mem_append.mp hmem with hmem | hmem
    · exact hh₁ h hmem
    · exact hh₂ h hmem
  · rw [List.map_append, ← Multiset.coe_add, ← hw₁, ← hw₂]
    abel

/-! ## The operations on one context -/

lemma isEmpty_of_has {ev : Events} {e : Event} (he : ev.has e = true) : ev.isEmpty = false := by
  cases e <;> simp_all [Events.has, Events.isEmpty]

lemma effect_handOver (h : s.Inv) (hi : i < s.size) (hne : (s.ctx i).events.isEmpty = false)
    {c : FdContext} {hands : List Handoff} (hfd : c.fd = (s.ctx i).fd)
    (hok : ∀ e, c.SlotOk s.issued e) (hhands : ∀ hd ∈ hands, hd.Ok s.issued)
    (hwait : c.waiting + hands.map Handoff.waiter = (s.ctx i).waiting) : Effect s
      ((s.setKernel (update s.kernel i (interestOf (s.slot i) c))).handOver
        (s.slot i) c hands) i c [] hands [] := by
  have hle := h.waiting_le hi
  have hcard := congrArg Multiset.card hwait
  rw [Multiset.card_add, Multiset.coe_card, List.length_map] at hcard
  refine ⟨rfl, rfl, rfl, rfl, rfl, rfl, (List.append_nil _).symm, rfl, (List.append_nil _).symm,
    h.not_tickle hi hne, hfd.trans (h.fd_eq i hi), hok, ?_, ?_, hhands⟩
  · show s.pendingEventCount - hands.length + (s.ctx i).waiting.card =
      s.pendingEventCount + c.waiting.card
    omega
  · show _ = Multiset.range s.issued.length + _
    rw [← hwait, Multiset.coe_nil, add_zero, add_assoc]

lemma interestOf_congr {p : Nat} {c c' : FdContext} (h : c.events = c'.events) :
    interestOf p c = interestOf p c' := by
  simp [interestOf, h]

lemma cancelLocked_spec (h : s.Inv) (hi : i < s.size) (e : Event) (fails : Bool) :
    (s.cancelLocked (s.slot i) i e fails = .ok (s, false) ∧
        ((s.ctx i).events.has e = false ∨ fails = true)) ∨
      ∃ s' c hands, s.cancelLocked (s.slot i) i e fails = .ok (s', true) ∧ fails = false ∧
        Effect s s' i c [] hands [] := by
  cases he : (s.ctx i).events.has e with
  | false =>
    exact Or.inl ⟨by simp [cancelLocked, object_slot, he], Or.inl rfl⟩
  | true =>
    have hne := isEmpty_of_has he
    let left : FdContext := { s.ctx i with events := (s.ctx i).events.remove e }
    have hctl := epollCtl_reduce h hi hne left fails
    change epollCtl _ (.reduce ((s.ctx i).events.remove e)) _ ((s.ctx i).events.remove e) _ _ = _
      at hctl
    obtain ⟨c, hands, hrun, hfd, hev, hok, hhands, hwait⟩ :=
      triggerIf_spec (s := s.setKernel (update s.kernel i (interestOf (s.slot i) left)))
        (s.slot i) e true (h.slotOk i hi) (fun _ => he) (h.waiting_le hi) h.pending_lt
    have hev : c.events = left.events := hev
    cases fails with
    | true =>
      refine Or.inl ⟨?_, Or.inr rfl⟩
      simp only [cancelLocked, object_slot, he, Bool.not_true, Bool.false_eq_true, if_false,
        hctl, if_true]
    | false =>
      refine Or.inr ⟨_, c, hands, ?_, rfl, effect_handOver h hi hne hfd hok hhands hwait⟩
      rw [← interestOf_congr hev, triggerIf, if_pos rfl] at hrun
      rw [← interestOf_congr hev] at hctl
      simp only [cancelLocked, object_slot, he, Bool.not_true, Bool.false_eq_true, if_false,
        hctl, hrun]
      rfl

lemma delLocked_spec (h : s.Inv) (hi : i < s.size) (e : Event) (fails : Bool) :
    (s.delLocked (s.slot i) i e fails = .ok (s, false) ∧
        ((s.ctx i).events.has e = false ∨ fails = true)) ∨
      ∃ s' c, s.delLocked (s.slot i) i e fails = .ok (s', true) ∧ fails = false ∧
        Effect s s' i c [] [] [((s.ctx i).getContext e).waiter] := by
  cases he : (s.ctx i).events.has e with
  | false =>
    exact Or.inl ⟨by simp [delLocked, object_slot, he], Or.inl rfl⟩
  | true =>
    have hne := isEmpty_of_has he
    let c := ({ s.ctx i with events := (s.ctx i).events.remove e } : FdContext).resetContext e
    have hev : c.events = (s.ctx i).events.remove e := by simp [c, FdContext.resetContext]
    have hctl := epollCtl_reduce h hi hne c fails
    rw [hev] at hctl
    cases fails with
    | true =>
      refine Or.inl ⟨?_, Or.inr rfl⟩
      simp only [if_true] at hctl
      simp only [delLocked, object_slot, he, Bool.not_true, Bool.false_eq_true, if_false, hctl]
    | false =>
      have hwait : c.waiting + {((s.ctx i).getContext e).waiter} = (s.ctx i).waiting :=
        FdContext.waiting_clear he
      have hcard := congrArg Multiset.card hwait
      have hle := h.waiting_le hi
      rw [Multiset.card_add, Multiset.card_singleton] at hcard
      have hsub : sub64 s.pendingEventCount 1 = s.pendingEventCount - 1 :=
        sub64_eq (lt_trans h.pending_lt (by decide)) (by omega)
      refine Or.inr ⟨{ s with
          object := update s.object (s.slot i) c
          kernel := update s.kernel i (interestOf (s.slot i) c)
          pendingEventCount := sub64 s.pendingEventCount 1
          deleted := s.deleted ++ [((s.ctx i).getContext e).waiter] }, c, ?_, rfl, ?_⟩
      · simp only [delLocked, object_slot, he, Bool.not_true, Bool.false_eq_true, if_false, hctl]
        rfl
      refine ⟨rfl, rfl, rfl, rfl, rfl, rfl, (List.append_nil _).symm,
        (List.append_nil _).symm, rfl, h.not_tickle hi hne, ?_, ?_, ?_, ?_, by simp⟩
      · simp [c, FdContext.resetContext, h.fd_eq i hi]
      · exact FdContext.slotOk_clear (h.slotOk i hi) ⟨rfl, rfl, rfl⟩
      · show sub64 s.pendingEventCount 1 + (s.ctx i).waiting.card =
          s.pendingEventCount + c.waiting.card
        omega
      show _ = Multiset.range s.issued.length + _
      rw [← hwait]
      simp [add_assoc]

lemma triggerIf_events {s s' : State} {p : Nat} {e : Event} {cond : Bool}
    (h : s.triggerIf p e cond = .ok s') :
    (s'.object p).events =
      if cond then (s.object p).events.remove e else (s.object p).events := by
  cases cond with
  | false =>
    obtain rfl : s = s' := by simpa [triggerIf] using h
    rfl
  | true =>
    simp only [triggerIf, if_true, trigger, FdContext.triggerEvent] at h
    split at h
    · contradiction
    split at h
    · contradiction
    split at h <;>
      simp only [bind, Except.bind, pure, Except.pure, Except.ok.injEq] at h <;>
      subst h <;> simp [setObject]

lemma triggerAll_eq {s s' : State} {p : Nat}
    (h : (s.triggerIf p .read (s.object p).events.read >>= fun s₁ =>
      s₁.triggerIf p .write (s.object p).events.write) = .ok s') :
    (s.triggerIf p .read ((s.object p).events.has .read) >>= fun s₁ =>
      s₁.triggerIf p .write ((s₁.object p).events.has .write)) = .ok s' := by
  change (s.triggerIf p .read ((s.object p).events.has .read) >>= _) = _ at h
  cases hfirst : s.triggerIf p .read ((s.object p).events.has .read) with
  | error f =>
    rw [hfirst] at h
    contradiction
  | ok s₁ =>
    have hbit : (s₁.object p).events.has .write = (s.object p).events.write := by
      rw [triggerIf_events hfirst]
      split <;> rfl
    rw [hfirst] at h
    simp only [bind, Except.bind, hbit] at h ⊢
    exact h

lemma cancelAllLocked_spec (h : s.Inv) (hi : i < s.size) (fails : Bool) :
    (s.cancelAllLocked (s.slot i) i fails = .ok (s, false) ∧
        ((s.ctx i).events.isEmpty = true ∨ fails = true)) ∨
      ∃ s' c hands, s.cancelAllLocked (s.slot i) i fails = .ok (s', true) ∧ fails = false ∧
        Effect s s' i c [] hands [] := by
  cases hne : (s.ctx i).events.isEmpty with
  | true =>
    exact Or.inl ⟨by simp [cancelAllLocked, object_slot, hne], Or.inl rfl⟩
  | false =>
    cases fails with
    | true =>
      exact Or.inl ⟨by simp [cancelAllLocked, object_slot, hne, epollCtl], Or.inr rfl⟩
    | false =>
      let left : FdContext := { s.ctx i with events := {} }
      have hctl := epollCtl_reduce h hi hne left false
      change epollCtl _ .del _ {} _ _ = _ at hctl
      obtain ⟨c, hands, hrun, hfd, hev, hok, hhands, hwait⟩ :=
        triggerBoth_spec
          (s := s.setKernel (update s.kernel i (interestOf (s.slot i) left)))
          (s.slot i) (s.ctx i).events (h.slotOk i hi) (fun _ he => he) (h.waiting_le hi)
          h.pending_lt
      have hnone : c.events = left.events := by
        rw [hev]
        apply Events.ext_has
        intro e
        change ((s.ctx i).events.diff (s.ctx i).events).has e = ({} : Events).has e
        rw [Events.has_diff]
        cases (s.ctx i).events.has e <;> cases e <;> rfl
      refine Or.inr ⟨_, c, hands, ?_, rfl, effect_handOver h hi hne hfd hok hhands hwait⟩
      rw [← interestOf_congr hnone] at hrun hctl
      simp only [cancelAllLocked, object_slot, hne, Bool.false_eq_true, if_false, hctl]
      have hempty : c.events.isEmpty = true := by
        rw [hnone]
        rfl
      have hall := triggerAll_eq (s := s.setKernel _) hrun
      have hobj : ((s.setKernel (update s.kernel i (interestOf (s.slot i) c))).handOver
          (s.slot i) c hands).object (s.slot i) = c := update_self ..
      exact (bind_assoc _ _ _).symm.trans (by
        rw [hall]
        simp only [bind, Except.bind, hobj, hempty, if_true]
        rfl)

/-- A caller of `addEvent` on a scheduler thread: it has a scheduler, and
its fiber, which is the one running, is in state `EXEC`. -/
def Caller.OnScheduler (caller : Caller) : Prop :=
  caller.scheduler.isSome = true ∧ caller.executing = true
deriving Decidable

/-- The job that `addEvent` registers. -/
def Caller.job (caller : Caller) (cb : Option Nat) : Job :=
  match cb with
  | some f => .cb f
  | none => .fiber caller.fiber

def Caller.slot (caller : Caller) (cb : Option Nat) (waiter : Nat) : EventContext where
  scheduler := caller.scheduler
  fiber := if cb.isSome then none else some caller.fiber
  cb := cb
  waiter := waiter

lemma waiting_fill {c : FdContext} {ctx : EventContext} {e : Event} (he : c.events.has e = false) :
    ({ c with events := c.events.add e }.setContext ctx e).waiting = c.waiting + {ctx.waiter} := by
  cases e
  · have hr : c.events.read = false := he
    simp [FdContext.waiting, FdContext.setContext, Events.add, hr, add_comm]
  · have hw : c.events.write = false := he
    simp [FdContext.waiting, FdContext.setContext, Events.add, hw]

lemma slotOk_fill {issued : List Registration} {c : FdContext} {fd : Int} (hfd : c.fd = fd)
    (e : Event) {caller : Caller} (cb : Option Nat) (h : ∀ e', c.SlotOk issued e')
    (hcaller : caller.OnScheduler) : ∀ e', ({ c with events := c.events.add e }.setContext
      (caller.slot cb issued.length) e).SlotOk
        (issued ++ [(⟨fd, e, caller.scheduler, caller.job cb⟩ : Registration)]) e' := by
  subst hfd
  intro e'
  by_cases heq : e' = e
  · subst heq
    simp only [FdContext.SlotOk, FdContext.setContext_events, Events.has_add, decide_true,
      Bool.or_true, if_true, FdContext.getContext_setContext, FdContext.setContext_fd]
    refine ⟨⟨hcaller.1, ?_⟩, caller.job cb, ?_, ?_⟩
    · cases cb <;> rfl
    · cases cb <;> rfl
    · simp [Caller.slot]
  have hold := slotOk_append [(⟨c.fd, e, caller.scheduler, caller.job cb⟩ : Registration)] (h e')
  unfold FdContext.SlotOk at hold ⊢
  simpa [heq] using hold

lemma addLocked_spec (h : s.Inv) (hi : i < s.size) {e : Event}
    (he : (s.ctx i).events.has e = false) (cb : Option Nat) {caller : Caller}
    (hcaller : caller.OnScheduler) (fails : Bool) :
    (s.addLocked (s.slot i) i e cb caller fails = .ok (s, -1) ∧
        (fails = true ∨ (i : Int) = s.tickleFd)) ∨
      ∃ s' c, s.addLocked (s.slot i) i e cb caller fails = .ok (s', 0) ∧ fails = false ∧
        Effect s s' i c [⟨i, e, caller.scheduler, caller.job cb⟩] [] [] := by
  let c := ({ s.ctx i with events := (s.ctx i).events.add e } : FdContext).setContext
    (caller.slot cb s.issued.length) e
  have hev : c.events = (s.ctx i).events.add e := by simp [c]
  have hctl := epollCtl_extend h hi c (by rw [hev, Events.isEmpty_add]) fails
  rw [hev] at hctl
  by_cases hfail : fails = true ∨ (i : Int) = s.tickleFd
  · refine Or.inl ⟨?_, hfail⟩
    rw [if_pos hfail] at hctl
    simp only [addLocked, object_slot, he, Bool.false_eq_true, if_false, hctl]
  obtain ⟨hfails, htickle⟩ := not_or.mp hfail
  rw [if_neg hfail] at hctl
  have hslot := h.slotOk i hi e
  simp only [FdContext.SlotOk, he, Bool.false_eq_true, if_false] at hslot
  obtain ⟨hsched, hfiber, hcb⟩ := hslot
  have hadd : add64 s.pendingEventCount 1 = s.pendingEventCount + 1 :=
    add64_eq (by have := h.pending_lt; unfold word64; omega)
  refine Or.inr ⟨{ s with
      object := update s.object (s.slot i) c
      kernel := update s.kernel i (interestOf (s.slot i) c)
      pendingEventCount := add64 s.pendingEventCount 1
      issued := s.issued ++ [⟨i, e, caller.scheduler, caller.job cb⟩] }, c, ?_,
      by simpa using hfails,
    rfl, rfl, rfl, rfl, rfl, rfl, rfl, (List.append_nil _).symm, (List.append_nil _).symm,
    htickle, ?_, ?_, ?_, ?_, by simp⟩
  · simp only [addLocked, object_slot, he, Bool.false_eq_true, if_false, hctl, hsched, hfiber,
      hcb, hcaller.2, Option.isSome_none, Bool.or_self, Bool.not_true, Bool.and_false]
    rfl
  · simp [c, h.fd_eq i hi]
  · exact slotOk_fill (h.fd_eq i hi) e cb (h.slotOk i hi) hcaller
  · show add64 s.pendingEventCount 1 + (s.ctx i).waiting.card =
      s.pendingEventCount + c.waiting.card
    rw [hadd, waiting_fill he, Multiset.card_add, Multiset.card_singleton]
    omega
  show Multiset.range s.issued.length + c.waiting + _ + _ =
    Multiset.range (s.issued ++ [_]).length + _
  rw [waiting_fill he, List.length_append, List.length_singleton, Multiset.range_succ,
    ← Multiset.singleton_add]
  simp only [List.map_nil, Multiset.coe_nil, add_zero, Caller.slot]
  abel

/-- The entries that `idle` handles without a failing assertion: either no
event it would take is registered, or all of them are. -/
def NoPartialOverlap (entry : Entry) (c : FdContext) : Prop :=
  (c.events.inter (realEvents entry c)).isEmpty = true ∨
    ∀ e, entry.events.has e = true → c.events.has e = true

instance (entry : Entry) (c : FdContext) : Decidable (NoPartialOverlap entry c) :=
  decidable_of_iff
    ((c.events.inter (realEvents entry c)).isEmpty = true ∨
      (entry.events.has .read = true → c.events.has .read = true) ∧
        (entry.events.has .write = true → c.events.has .write = true))
    (or_congr_right ⟨fun h e => by cases e; exacts [h.1, h.2], fun h => ⟨h .read, h .write⟩⟩)

lemma dispatchLocked_spec (h : s.Inv) (hi : i < s.size) {entry : Entry} (fails : Bool)
    (hentry : NoPartialOverlap entry (s.ctx i)) :
    s.dispatchLocked (s.slot i) entry fails = .ok s ∨
      ∃ s' c hands, s.dispatchLocked (s.slot i) entry fails = .ok s' ∧ fails = false ∧
        Effect s s' i c [] hands [] := by
  set ev := realEvents entry (s.ctx i) with hev
  cases hov : ((s.ctx i).events.inter ev).isEmpty with
  | true =>
    exact Or.inl (by simp [dispatchLocked, object_slot, ← hev, hov])
  | false =>
    have hsub : ∀ e, ev.has e = true → (s.ctx i).events.has e = true := by
      rcases hentry with hnone | hall
      · rw [← hev, hov] at hnone
        contradiction
      intro e he
      rw [hev, realEvents] at he
      split at he
      · rw [Events.has_union, Bool.or_eq_true] at he
        exact he.elim (hall e) id
      · exact hall e he
    have hne : (s.ctx i).events.isEmpty = false := by
      cases hr : (s.ctx i).events.read <;> cases hw : (s.ctx i).events.write <;>
        simp_all [Events.inter, Events.isEmpty]
    let left : FdContext := { s.ctx i with events := (s.ctx i).events.diff ev }
    obtain ⟨c, hands, hrun, hfd, hcev, hok, hhands, hwait⟩ :=
      triggerBoth_spec (s := s.setKernel (update s.kernel i (interestOf (s.slot i) left)))
        (s.slot i) ev (h.slotOk i hi) hsub (h.waiting_le hi) h.pending_lt
    change c.fd = (s.ctx i).fd at hfd
    change c.events = (s.ctx i).events.diff ev at hcev
    have hctl := epollCtl_reduce h hi hne c fails
    rw [hcev] at hctl
    cases fails with
    | true =>
      refine Or.inl ?_
      simp only [dispatchLocked, object_slot, ← hev, hov, h.fd_eq i hi, hctl, if_true,
        Bool.false_eq_true, if_false]
    | false =>
      refine Or.inr ⟨_, c, hands, ?_, rfl, effect_handOver h hi hne hfd hok hhands hwait⟩
      have hint : interestOf (s.slot i) left = interestOf (s.slot i) c := by
        simp [interestOf, hcev, left]
      rw [hint] at hrun
      simp only [dispatchLocked, object_slot, ← hev, hov, h.fd_eq i hi, hctl,
        Bool.false_eq_true, if_false]
      exact hrun

end State

/-! ## Sequences of operations -/

open State

/-- The operations, each with the choice whether `epoll_ctl` fails. -/
inductive Op where
  | addEvent (fd : Int) (event : Event) (cb : Option Nat) (caller : Caller) (fails : Bool)
  | delEvent (fd : Int) (event : Event) (fails : Bool)
  | cancelEvent (fd : Int) (event : Event) (fails : Bool)
  | cancelAll (fd : Int) (fails : Bool)
  | dispatch (entry : Entry) (fails : Bool)
deriving DecidableEq

namespace Op

def exec (s : State) : Op → Except Fault (State × Option Bool)
  | .addEvent fd event cb caller fails =>
    (s.addEvent fd event cb caller fails).map fun r => (r.1, some (r.2 == 0))
  | .delEvent fd event fails => (s.delEvent fd event fails).map fun r => (r.1, some r.2)
  | .cancelEvent fd event fails => (s.cancelEvent fd event fails).map fun r => (r.1, some r.2)
  | .cancelAll fd fails => (s.cancelAll fd fails).map fun r => (r.1, some r.2)
  | .dispatch entry fails => (s.dispatch entry fails).map fun s' => (s', none)

def fails : Op → Bool
  | .addEvent _ _ _ _ fails | .delEvent _ _ fails | .cancelEvent _ _ fails | .cancelAll _ fails
  | .dispatch _ fails => fails

def isDel : Op → Bool
  | .delEvent .. => true
  | _ => false

/-- Descriptors are not negative, `addEvent` is called on a scheduler thread for a bit that is not
set and a descriptor up to `maxFd`. -/
def Allowed (P : Entry → FdContext → Prop) (s : State) : Op → Prop
  | .addEvent fd event _ caller _ =>
    0 ≤ fd ∧ fd ≤ maxFd ∧ (s.view fd).events.has event = false ∧ caller.OnScheduler
  | .delEvent fd _ _ | .cancelEvent fd _ _ | .cancelAll fd _ => 0 ≤ fd
  | .dispatch entry _ =>
    entry.data = .tickle ∨ ∃ i < s.size, entry.data = .ptr (s.slot i) ∧ P entry (s.ctx i)

end Op

lemma Op.Allowed.mono {P Q : Entry → FdContext → Prop} (hPQ : ∀ entry c, P entry c → Q entry c)
    {s : State} {op : Op} (h : op.Allowed P s) : op.Allowed Q s := by
  cases op with
  | dispatch entry fails =>
    exact h.imp id fun ⟨i, hi, hdata, hentry⟩ => ⟨i, hi, hdata, hPQ _ _ hentry⟩
  | addEvent | delEvent | cancelEvent | cancelAll => exact h

/-- What is known about every allowed operation. -/
structure Outcome (s : State) (op : Op) (s' : State) (r : Option Bool) : Prop where
  inv : s'.Inv
  size_le : s.size ≤ s'.size
  slot_eq : ∀ i < s.size, s'.slot i = s.slot i
  tickleFd_eq : s'.tickleFd = s.tickleFd
  issued_extends : s.issued <+: s'.issued
  handed_extends : s.handed <+: s'.handed
  handed_eq : op.isDel = true → s'.handed = s.handed
  deleted_eq : op.isDel = false → s'.deleted = s.deleted
  failed : op.fails = true → SameBooks s s' ∧ r ≠ some true

namespace Outcome

variable {s s' : State} {op : Op} {r : Option Bool}

lemma of_sameBooks (h : s'.Inv) (hbooks : SameBooks s s') (hsize : s.size ≤ s'.size)
    (hslot : ∀ i < s.size, s'.slot i = s.slot i) (htickle : s'.tickleFd = s.tickleFd)
    (hr : r ≠ some true) : Outcome s op s' r where
  inv := h
  size_le := hsize
  slot_eq := hslot
  tickleFd_eq := htickle
  issued_extends := by rw [hbooks.issued_eq]
  handed_extends := by rw [hbooks.handed_eq]
  handed_eq _ := hbooks.handed_eq
  deleted_eq _ := hbooks.deleted_eq
  failed _ := ⟨hbooks, hr⟩

lemma of_effect {s₁ : State} {i : Nat} {c : FdContext} {regs : List Registration}
    {hands : List Handoff} {dels : List Nat} (h : s₁.Inv) (hi : i < s₁.size)
    (hbooks : SameBooks s s₁) (hsize : s.size ≤ s₁.size)
    (hslot : ∀ i < s.size, s₁.slot i = s.slot i) (htickle : s₁.tickleFd = s.tickleFd)
    (eff : Effect s₁ s' i c regs hands dels) (hfails : op.fails = false)
    (hhands : op.isDel = true → hands = []) (hdels : op.isDel = false → dels = []) :
    Outcome s op s' r where
  inv := eff.inv h hi
  size_le := eff.size_eq ▸ hsize
  slot_eq := eff.slot_eq ▸ hslot
  tickleFd_eq := eff.tickleFd_eq.trans htickle
  issued_extends := ⟨regs, by rw [eff.issued_eq, hbooks.issued_eq]⟩
  handed_extends := ⟨hands, by rw [eff.handed_eq, hbooks.handed_eq]⟩
  handed_eq hdel := by rw [eff.handed_eq, hbooks.handed_eq, hhands hdel, List.append_nil]
  deleted_eq hdel := by rw [eff.deleted_eq, hbooks.deleted_eq, hdels hdel, List.append_nil]
  failed hf := by simp [hfails] at hf

end Outcome

lemma onContext_spec {s : State} (h : s.Inv) {fd : Int} (hpos : 0 ≤ fd) (op : Op)
    (locked : Nat → Except Fault (State × Bool))
    (hlocked : ∀ i < s.size, fd = i → locked (s.slot i) = .ok (s, false) ∨
      ∃ s', locked (s.slot i) = .ok (s', true) ∧ Outcome s op s' (some true)) :
    ∃ s' r, s.onContext fd locked = .ok (s', r) ∧ Outcome s op s' (some r) := by
  have hsame : Outcome s op s (some false) :=
    .of_sameBooks h (SameBooks.refl s) (le_refl _) (fun _ _ => rfl) rfl (by simp)
  have hint : toInt32 s.size = s.size := toInt32_of_lt h.size_lt
  by_cases hin : fd < s.size
  · have hfind : s.lookup fd = .ok (some (s.slot fd.toNat)) := by
      rw [lookup, hint, if_neg (by omega), contextAt, if_pos ⟨hpos, hin⟩]
      rfl
    have hrun : s.onContext fd locked = locked (s.slot fd.toNat) := by
      simp [onContext, hfind, bind, Except.bind]
    rcases hlocked fd.toNat (by omega) (by omega) with hfalse | ⟨s', htrue, hout⟩
    · exact ⟨s, false, hrun.trans hfalse, hsame⟩
    · exact ⟨s', true, hrun.trans htrue, hout⟩
  · refine ⟨s, false, ?_, hsame⟩
    simp [onContext, lookup, hint, not_lt.mp hin, bind, Except.bind, pure, Except.pure]

/-- An operation has no effect or is one, and does not abort. -/
lemma Op.exec_spec {s : State} (h : s.Inv) (hsize : 32 ≤ s.size) {op : Op}
    (hop : op.Allowed NoPartialOverlap s) :
    ∃ s' r, op.exec s = .ok (s', r) ∧ Outcome s op s' r := by
  have hrefl := SameBooks.refl s
  cases op with
  | addEvent fd event cb caller fails =>
    obtain ⟨hpos, hmax, hbit, hcaller⟩ := hop
    obtain ⟨s₁, hgrow, hinv, hbooks, hin, hsize₁, htickle, hslot⟩ := growTo_spec h hsize hpos hmax
    obtain ⟨i, rfl⟩ := Int.eq_ofNat_of_zero_le hpos
    rw [Int.toNat_natCast] at hgrow hin
    have hbit' : (s₁.ctx i).events.has event = false := by
      rw [← view_of_lt s₁ hin, hbooks.view_eq]
      exact hbit
    have hrun : Op.exec s (.addEvent i event cb caller fails) =
        (s₁.addLocked (s₁.slot i) i event cb caller fails).map fun r => (r.1, some (r.2 == 0)) := by
      simp [exec, State.addEvent, hgrow, bind, Except.bind]
    rcases addLocked_spec hinv hin hbit' cb hcaller fails with ⟨hadd, -⟩ | ⟨s', c, hadd, hf, eff⟩
    · exact ⟨s₁, some false, by rw [hrun, hadd]; rfl,
        .of_sameBooks hinv hbooks hsize₁ hslot htickle (by simp)⟩
    · exact ⟨s', some true, by rw [hrun, hadd]; rfl,
        .of_effect hinv hin hbooks hsize₁ hslot htickle eff hf (fun _ => rfl) (fun _ => rfl)⟩
  | delEvent fd event fails =>
    obtain ⟨s', r, hrun, hout⟩ := onContext_spec h hop (.delEvent fd event fails)
      (fun p => s.delLocked p fd event fails) (by
        rintro i hi rfl
        refine (delLocked_spec h hi event fails).imp And.left ?_
        rintro ⟨s', c, hrun, hf, eff⟩
        exact ⟨s', hrun, .of_effect h hi hrefl (le_refl _) (fun _ _ => rfl) rfl eff hf
          (fun _ => rfl) (by simp [isDel])⟩)
    exact ⟨s', some r, by rw [exec, State.delEvent, hrun]; rfl, hout⟩
  | cancelEvent fd event fails =>
    obtain ⟨s', r, hrun, hout⟩ := onContext_spec h hop (.cancelEvent fd event fails)
      (fun p => s.cancelLocked p fd event fails) (by
        rintro i hi rfl
        refine (cancelLocked_spec h hi event fails).imp And.left ?_
        rintro ⟨s', c, hands, hrun, hf, eff⟩
        exact ⟨s', hrun, .of_effect h hi hrefl (le_refl _) (fun _ _ => rfl) rfl eff hf
          (by simp [isDel]) (fun _ => rfl)⟩)
    exact ⟨s', some r, by rw [exec, State.cancelEvent, hrun]; rfl, hout⟩
  | cancelAll fd fails =>
    obtain ⟨s', r, hrun, hout⟩ := onContext_spec h hop (.cancelAll fd fails)
      (fun p => s.cancelAllLocked p fd fails) (by
        rintro i hi rfl
        refine (cancelAllLocked_spec h hi fails).imp And.left ?_
        rintro ⟨s', c, hands, hrun, hf, eff⟩
        exact ⟨s', hrun, .of_effect h hi hrefl (le_refl _) (fun _ _ => rfl) rfl eff hf
          (by simp [isDel]) (fun _ => rfl)⟩)
    exact ⟨s', some r, by rw [exec, State.cancelAll, hrun]; rfl, hout⟩
  | dispatch entry fails =>
    rcases hop with htickle | ⟨i, hi, hdata, hentry⟩
    · exact ⟨s, none, by simp [exec, State.dispatch, htickle, Except.map],
        .of_sameBooks h hrefl (le_refl _) (fun _ _ => rfl) rfl (by simp)⟩
    rcases dispatchLocked_spec h hi fails hentry with hrun | ⟨s', c, hands, hrun, hf, eff⟩
    · exact ⟨s, none, by simp [exec, State.dispatch, hdata, hrun, Except.map],
        .of_sameBooks h hrefl (le_refl _) (fun _ _ => rfl) rfl (by simp)⟩
    exact ⟨s', none, by simp [exec, State.dispatch, hdata, hrun, Except.map],
      .of_effect h hi hrefl (le_refl _) (fun _ _ => rfl) rfl eff hf
      (by simp [isDel]) (fun _ => rfl)⟩

end Yuyu.IOManager
