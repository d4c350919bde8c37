import Yuyu.IOManager.ContextTable

/-!
# Which waiters an operation hands over

A set bit of a context is that of a registration for its descriptor and event, also after a
descriptor was closed. So an operation hands over waiters of its descriptor and of the events it
triggers only.
-/

namespace Yuyu.IOManager

open Foundation State Function

namespace State

def IsHanded (s : State) (w : Nat) : Prop := w ∈ s.handed.map Handoff.waiter

/-- The contexts of the table are distinct, each set bit is that of a registration for its
descriptor and event, and only registrations are handed over. -/
structure Linked (s : State) : Prop where
  slot_lt : ∀ i < s.size, s.slot i < s.nextPtr
  slot_inj : ∀ i < s.size, ∀ j < s.size, s.slot i = s.slot j → i = j
  registered : ∀ i < s.size, ∀ e, (s.ctx i).events.has e = true →
    ∃ scheduler job, s.issued[((s.ctx i).getContext e).waiter]? = some ⟨i, e, scheduler, job⟩
  handed_lt : ∀ w, s.IsHanded w → w < s.issued.length

end State

/-- The operation registers nobody and hands over only registrations in `P`. -/
structure HandsOver (P : Registration → Prop) (s s' : State) : Prop where
  linked : s'.Linked
  size_eq : s'.size = s.size
  slot_eq : s'.slot = s.slot
  issued_eq : s'.issued = s.issued
  handed : ∀ w, s'.IsHanded w → s.IsHanded w ∨ ∃ reg, s.issued[w]? = some reg ∧ P reg

variable {s s' s₁ : State} {P Q : Registration → Prop}

namespace HandsOver

lemma refl (h : s.Linked) : HandsOver P s s := ⟨h, rfl, rfl, rfl, fun _ => Or.inl⟩

lemma mono (h : HandsOver P s s') (hPQ : ∀ reg, P reg → Q reg) : HandsOver Q s s' := by
  refine ⟨h.linked, h.size_eq, h.slot_eq, h.issued_eq, fun w hw => ?_⟩
  rcases h.handed w hw with hold | ⟨reg, hreg, hP⟩
  · exact Or.inl hold
  · exact Or.inr ⟨reg, hreg, hPQ reg hP⟩

lemma trans (h : HandsOver P s s₁) (h' : HandsOver P s₁ s') : HandsOver P s s' where
  linked := h'.linked
  size_eq := h'.size_eq.trans h.size_eq
  slot_eq := h'.slot_eq.trans h.slot_eq
  issued_eq := h'.issued_eq.trans h.issued_eq
  handed w hw := by
    rcases h'.handed w hw with hold | ⟨reg, hreg, hP⟩
    · exact h.handed w hold
    · rw [h.issued_eq] at hreg
      exact Or.inr ⟨reg, hreg, hP⟩

lemma of_setKernel {kernel : Int → Option Interest} (h : HandsOver P (s.setKernel kernel) s') :
    HandsOver P s s' := ⟨h.linked, h.size_eq, h.slot_eq, h.issued_eq, h.handed⟩

end HandsOver

lemma State.Linked.setKernel (h : s.Linked) (kernel : Int → Option Interest) :
    (s.setKernel kernel).Linked := ⟨h.slot_lt, h.slot_inj, h.registered, h.handed_lt⟩

variable {e : Event} {i : Nat} {fails r : Bool} {fd : Int}

lemma triggerEvent_cases {c c' : FdContext} {hands : List Handoff}
    (h : c.triggerEvent e = .ok (c', hands)) :
    c.events.has e = true ∧ c'.events = c.events.remove e ∧
      (∀ e', e' ≠ e → c'.getContext e' = c.getContext e') ∧
      ∀ hd ∈ hands, hd.waiter = (c.getContext e).waiter := by
  unfold FdContext.triggerEvent at h
  split at h
  · contradiction
  rename_i hbit
  have hset : c.events.has e = true := by simpa using hbit
  dsimp only at h
  split at h
  · contradiction
  split at h
  · obtain ⟨rfl, rfl⟩ := Prod.mk.inj (Except.ok.inj h)
    exact ⟨hset, by simp, fun e' he' => by simp [he'], by simp⟩
  obtain ⟨rfl, rfl⟩ := Prod.mk.inj (Except.ok.inj h)
  refine ⟨hset, by simp, fun e' he' => by simp [he'], fun hd hmem => ?_⟩
  split at hmem
  · simp [List.mem_singleton.mp hmem]
  · contradiction

lemma State.Linked.replace (h : s.Linked) (hi : i < s.size) {c : FdContext}
    (hobject : s'.object = update s.object (s.slot i) c) (hsize : s'.size = s.size)
    (hslot : s'.slot = s.slot) (hnext : s'.nextPtr = s.nextPtr)
    (hissued : ∀ (w : Nat) (reg : Registration), s.issued[w]? = some reg → s'.issued[w]? = some reg)
    (hbits : ∀ e, c.events.has e = true → ∃ scheduler job,
      s'.issued[(c.getContext e).waiter]? = some ⟨i, e, scheduler, job⟩)
    (hhanded : ∀ w, s'.IsHanded w → w < s'.issued.length) : s'.Linked := by
  refine ⟨?_, ?_, ?_, hhanded⟩
  · rw [hsize, hslot, hnext]
    exact h.slot_lt
  · rw [hsize, hslot]
    exact h.slot_inj
  intro j hj e he
  rw [hsize] at hj
  rw [State.ctx, hslot, hobject] at he ⊢
  by_cases hji : j = i
  · subst hji
    rw [update_self] at he ⊢
    exact hbits e he
  have hne : s.slot j ≠ s.slot i := fun heq => hji (h.slot_inj j hj i hi heq)
  rw [update_of_ne hne] at he ⊢
  obtain ⟨scheduler, job, hreg⟩ := h.registered j hj e he
  exact ⟨scheduler, job, hissued _ _ hreg⟩

lemma trigger_handsOver (h : s.Linked) (hi : i < s.size) (hrun : s.trigger (s.slot i) e = .ok s') :
    HandsOver (fun reg => reg.fd = i ∧ reg.event = e) s s' := by
  simp only [trigger, bind, Except.bind] at hrun
  split at hrun
  · contradiction
  rename_i r hr
  obtain rfl := Except.ok.inj hrun
  obtain ⟨hset, hevents, hother, hhands⟩ := triggerEvent_cases hr
  obtain ⟨scheduler, job, hreg⟩ := h.registered i hi e hset
  have hnew : ∀ hd ∈ r.2, s.issued[hd.waiter]? = some ⟨i, e, scheduler, job⟩ := by
    intro hd hmem
    rw [hhands hd hmem]
    exact hreg
  have hhanded : ∀ w, w ∈ (s.handed ++ r.2).map Handoff.waiter →
      s.IsHanded w ∨ s.issued[w]? = some ⟨i, e, scheduler, job⟩ := by
    intro w hw
    rw [List.map_append, List.mem_append] at hw
    rcases hw with hold | hmem
    · exact Or.inl hold
    · obtain ⟨hd, hhd, rfl⟩ := List.mem_map.mp hmem
      exact Or.inr (hnew hd hhd)
  refine ⟨?_, rfl, rfl, rfl, fun w hw => (hhanded w hw).imp_right fun hw => ⟨_, hw, rfl, rfl⟩⟩
  refine h.replace hi rfl rfl rfl rfl (fun _ _ => id) (fun e' he' => ?_) fun w hw => ?_
  · rw [hevents, Events.has_remove, Bool.and_eq_true, decide_eq_true_eq] at he'
    rw [hother e' he'.2]
    exact h.registered i hi e' he'.1
  rcases hhanded w hw with hold | hw
  · exact h.handed_lt w hold
  · exact (List.getElem?_eq_some_iff.mp hw).1

lemma triggerIf_handsOver (h : s.Linked) (hi : i < s.size) {cond : Bool}
    (hrun : s.triggerIf (s.slot i) e cond = .ok s') :
    HandsOver (fun reg => reg.fd = i ∧ reg.event = e ∧ cond = true) s s' := by
  unfold triggerIf at hrun
  split at hrun
  · rename_i hcond
    exact (trigger_handsOver h hi hrun).mono fun reg hreg => ⟨hreg.1, hreg.2, hcond⟩
  · obtain rfl := Except.ok.inj hrun
    exact .refl h

lemma cancelLocked_handsOver (h : s.Linked) (hi : i < s.size)
    (hrun : s.cancelLocked (s.slot i) i e fails = .ok (s', r)) :
    HandsOver (fun reg => reg.fd = i ∧ reg.event = e) s s' := by
  simp only [cancelLocked] at hrun
  split at hrun
  · obtain ⟨rfl, -⟩ := Prod.mk.inj (Except.ok.inj hrun)
    exact .refl h
  split at hrun
  · obtain ⟨rfl, -⟩ := Prod.mk.inj (Except.ok.inj hrun)
    exact .refl h
  rename_i kernel _
  cases htrigger : (s.setKernel kernel).trigger (s.slot i) e with
  | error fault => simp [htrigger, bind, Except.bind] at hrun
  | ok s₁ =>
    obtain ⟨rfl, -⟩ : s₁ = s' ∧ true = r := by
      simpa [htrigger, bind, Except.bind, pure, Except.pure] using hrun
    exact (trigger_handsOver (h.setKernel kernel) hi htrigger).of_setKernel

lemma cancelAllLocked_handsOver (h : s.Linked) (hi : i < s.size)
    (hrun : s.cancelAllLocked (s.slot i) fd fails = .ok (s', r)) :
    HandsOver (fun reg => reg.fd = i) s s' := by
  simp only [cancelAllLocked] at hrun
  split at hrun
  · obtain ⟨rfl, -⟩ := Prod.mk.inj (Except.ok.inj hrun)
    exact .refl h
  split at hrun
  · obtain ⟨rfl, -⟩ := Prod.mk.inj (Except.ok.inj hrun)
    exact .refl h
  rename_i kernel _
  simp only [bind, Except.bind] at hrun
  split at hrun
  · contradiction
  rename_i s₁ hread
  split at hrun
  · contradiction
  rename_i s₂ hwrite
  split at hrun
  · obtain ⟨rfl, -⟩ := Prod.mk.inj (Except.ok.inj hrun)
    have h₁ := triggerIf_handsOver (h.setKernel kernel) hi hread
    have hslot : s₁.slot i = s.slot i := congrFun h₁.slot_eq i
    rw [← hslot] at hwrite
    have h₂ := triggerIf_handsOver h₁.linked (h₁.size_eq ▸ hi) hwrite
    have hboth := (h₁.mono fun reg hreg => hreg.1).trans (h₂.mono fun reg hreg => hreg.1)
    exact hboth.of_setKernel
  · contradiction

lemma onContext_handsOver (h : s.Linked)
    {locked : Nat → Except Fault (State × Bool)} (hrun : s.onContext fd locked = .ok (s', r))
    (hlocked : ∀ i : Nat, i < s.size → fd = i → locked (s.slot i) = .ok (s', r) →
      HandsOver P s s') : HandsOver P s s' := by
  simp only [onContext, bind, Except.bind] at hrun
  split at hrun
  · contradiction
  rename_i found hfound
  cases found with
  | none =>
    obtain ⟨rfl, -⟩ := Prod.mk.inj (Except.ok.inj hrun)
    exact .refl h
  | some p =>
    obtain ⟨hpos, hlt, rfl⟩ := lookup_some hfound
    exact hlocked fd.toNat (by omega) (by omega) hrun

/-- The registrations that an operation hands over. -/
theorem cancelEvent_handsOver (h : s.Linked) (hrun : s.cancelEvent fd e fails = .ok (s', r)) :
    HandsOver (fun reg => reg.fd = fd ∧ reg.event = e) s s' := by
  refine onContext_handsOver h hrun fun i hi hfd hlocked => ?_
  subst hfd
  exact cancelLocked_handsOver h hi hlocked

theorem cancelAll_handsOver (h : s.Linked) (hrun : s.cancelAll fd fails = .ok (s', r)) :
    HandsOver (fun reg => reg.fd = fd) s s' := by
  refine onContext_handsOver h hrun fun i hi hfd hlocked => ?_
  subst hfd
  exact cancelAllLocked_handsOver h hi hlocked

theorem dispatch_handsOver (h : s.Linked) (hi : i < s.size) {entry : Entry}
    (hentry : entry.data = .ptr (s.slot i)) (hrun : s.dispatch entry fails = .ok s') :
    HandsOver (fun reg => reg.fd = i ∧
      (entry.events.has reg.event = true ∨ entry.err = true ∨ entry.hup = true)) s s' := by
  have hreal : ∀ e, (realEvents entry (s.ctx i)).has e = true →
      entry.events.has e = true ∨ entry.err = true ∨ entry.hup = true := by
    intro e he
    unfold realEvents at he
    split at he
    · rename_i herr
      exact Or.inr (by simpa using herr)
    · exact Or.inl he
  simp only [State.dispatch, hentry, dispatchLocked] at hrun
  split at hrun
  · obtain rfl := Except.ok.inj hrun
    exact .refl h
  split at hrun
  · obtain rfl := Except.ok.inj hrun
    exact .refl h
  rename_i kernel _
  simp only [bind, Except.bind] at hrun
  split at hrun
  · contradiction
  rename_i s₁ hread
  have h₁ := triggerIf_handsOver (h.setKernel kernel) hi hread
  have hslot : s₁.slot i = s.slot i := congrFun h₁.slot_eq i
  rw [← hslot] at hrun
  have h₂ := triggerIf_handsOver h₁.linked (h₁.size_eq ▸ hi) hrun
  refine (HandsOver.trans (h₁.mono ?_) (h₂.mono ?_)).of_setKernel
  · rintro reg ⟨hfd, hevent, hcond⟩
    exact ⟨hfd, hevent ▸ hreal .read hcond⟩
  · rintro reg ⟨hfd, hevent, hcond⟩
    exact ⟨hfd, hevent ▸ hreal .write (by rwa [hslot] at hcond)⟩

lemma State.Linked.contextResize (h : s.Linked) (size : Nat) : (s.contextResize size).Linked := by
  have hslot : ∀ i, (s.contextResize size).slot i =
      if i < min s.size size then s.slot i else s.nextPtr + i := fun _ => rfl
  have hold : ∀ i < min s.size size, s.slot i < s.nextPtr := fun i hi => h.slot_lt i (by omega)
  refine ⟨fun i hi => ?_, fun i hi j hj heq => ?_, fun i hi e he => ?_, h.handed_lt⟩
  · change _ < s.nextPtr + size
    replace hi : i < size := hi
    rw [hslot]
    split
    · rename_i hkept
      have := hold i hkept
      omega
    · omega
  · rw [hslot, hslot] at heq
    split at heq <;> split at heq
    · rename_i hi' hj'
      exact h.slot_inj i (by omega) j (by omega) heq
    · rename_i hi' hj'
      have := hold i hi'
      omega
    · rename_i hi' hj'
      have := hold j hj'
      omega
    · omega
  replace hi : i < size := hi
  by_cases hkept : i < min s.size size
  · have hctx : (s.contextResize size).ctx i = s.ctx i := by
      have hlt := hold i hkept
      rw [State.ctx, hslot, if_pos hkept]
      exact if_neg (by omega)
    rw [hctx] at he ⊢
    exact h.registered i (by omega) e he
  have hctx : ((s.contextResize size).ctx i).events = {} := by
    rw [State.ctx, hslot, if_neg hkept]
    simp only [State.contextResize]
    rw [if_pos (by omega)]
  rw [hctx] at he
  cases e <;> contradiction

lemma linked_initial (tickleFd : Int) : (State.initial tickleFd).Linked := by
  refine State.Linked.contextResize ⟨?_, ?_, ?_, ?_⟩ 32
  · exact fun i hi => (Nat.not_lt_zero i hi).elim
  · exact fun i hi => (Nat.not_lt_zero i hi).elim
  · exact fun i hi => (Nat.not_lt_zero i hi).elim
  · exact fun w hw => (List.not_mem_nil hw).elim

lemma growTo_linked (h : s.Linked) {p : Nat} (hrun : s.growTo fd = .ok (s', p)) :
    s'.Linked ∧ s'.issued = s.issued ∧ s'.handed = s.handed ∧
      ∃ i : Nat, i < s'.size ∧ fd = i ∧ p = s'.slot i := by
  have hat : ∀ s₁ : State, (s₁.contextAt fd).map (fun p => (s₁, p)) = .ok (s', p) →
      s₁ = s' ∧ ∃ i : Nat, i < s'.size ∧ fd = i ∧ p = s'.slot i := by
    intro s₁ hrun
    unfold contextAt at hrun
    split at hrun
    · obtain ⟨rfl, rfl⟩ := Prod.mk.inj (Except.ok.inj hrun)
      exact ⟨rfl, fd.toNat, by omega, by omega, rfl⟩
    · contradiction
  unfold growTo at hrun
  split at hrun
  · obtain ⟨rfl, hslot⟩ := hat s hrun
    exact ⟨h, rfl, rfl, hslot⟩
  split at hrun
  · contradiction
  · obtain ⟨rfl, hslot⟩ := hat _ hrun
    exact ⟨h.contextResize _, rfl, rfl, hslot⟩

/-- A new registration is not handed over yet. -/
theorem addEvent_linked (h : s.Linked) {cb : Option Nat} {caller : Caller}
    {rt : Int} (hrun : s.addEvent fd e cb caller fails = .ok (s', rt)) :
    s'.Linked ∧ s'.handed = s.handed ∧
      ((rt ≠ 0 ∧ s'.issued = s.issued) ∨
        rt = 0 ∧ ∃ job, s'.issued = s.issued ++ [⟨fd, e, caller.scheduler, job⟩]) := by
  simp only [State.addEvent, bind, Except.bind] at hrun
  split at hrun
  · contradiction
  rename_i r hgrow
  obtain ⟨s₁, p⟩ := r
  obtain ⟨hlinked, hissued, hhanded, i, hi, rfl, rfl⟩ := growTo_linked h hgrow
  rw [← hissued, ← hhanded]
  simp only [addLocked] at hrun
  split at hrun
  · contradiction
  split at hrun
  · obtain ⟨rfl, rfl⟩ := Prod.mk.inj (Except.ok.inj hrun)
    exact ⟨hlinked, rfl, Or.inl ⟨by decide, rfl⟩⟩
  split at hrun
  · contradiction
  split at hrun
  · contradiction
  obtain ⟨rfl, rfl⟩ := Prod.mk.inj (Except.ok.inj hrun)
  refine ⟨?_, rfl, Or.inr ⟨rfl, _, rfl⟩⟩
  have hmore : ∀ (regs : List Registration) (w : Nat) (reg : Registration),
      s₁.issued[w]? = some reg → (s₁.issued ++ regs)[w]? = some reg :=
    fun regs w reg => getElem?_append_of_some
  refine hlinked.replace hi rfl rfl rfl rfl (hmore _) (fun e' he' => ?_) fun w hw => ?_
  · rw [FdContext.setContext_events, Events.has_add, Bool.or_eq_true, decide_eq_true_eq] at he'
    rw [FdContext.getContext_setContext]
    by_cases hee : e' = e
    · subst hee
      exact ⟨_, _, by rw [if_pos rfl, List.getElem?_concat_length]⟩
    rw [if_neg hee, FdContext.getContext_withEvents]
    obtain ⟨scheduler, job, hreg⟩ := hlinked.registered i hi e' (he'.resolve_right hee)
    exact ⟨scheduler, job, hmore _ _ _ hreg⟩
  have hlt := hlinked.handed_lt w hw
  rw [List.length_append]
  omega

end Yuyu.IOManager
