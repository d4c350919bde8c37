import Yuyu.IOManager.EventInvariant

/-!
# Stale epoll batches

Between `epoll_wait` and the handling of an entry other threads can change the registrations.
-/

namespace Yuyu.IOManager

open Foundation State Function

lemma triggerIf_of_unset {s : State} {p : Nat} {e : Event}
    (h : (s.object p).events.has e = false) : s.triggerIf p e true = .error .assertion := by
  simp [triggerIf, trigger, FdContext.triggerEvent, h, bind, Except.bind]

lemma dispatchLocked_aborts {s : State} {i : Nat} (h : s.Inv) (hi : i < s.size) {entry : Entry}
    (hentry : ¬ NoPartialOverlap entry (s.ctx i)) :
    s.dispatchLocked (s.slot i) entry false = .error .assertion := by
  obtain ⟨hov, hmissing⟩ := not_or.mp hentry
  set ev := realEvents entry (s.ctx i) with hev
  obtain ⟨e, hset, hunset⟩ : ∃ e, ev.has e = true ∧ (s.ctx i).events.has e = false := by
    obtain ⟨e, he⟩ := not_forall.mp hmissing
    obtain ⟨hset, hunset⟩ := Classical.not_imp.mp he
    refine ⟨e, ?_, by simpa using hunset⟩
    rw [hev, realEvents]
    split <;> simp [hset]
  have hne : (s.ctx i).events.isEmpty = false := by
    cases hr : (s.ctx i).events.read <;> cases hw : (s.ctx i).events.write <;>
      simp_all [Events.inter, Events.isEmpty]
  have hctl := epollCtl_reduce h hi hne { s.ctx i with events := (s.ctx i).events.diff ev } false
  change epollCtl _ (.reduce ((s.ctx i).events.diff ev)) _ ((s.ctx i).events.diff ev) _ _ = _
    at hctl
  simp only [dispatchLocked, object_slot, ← hev, hov, h.fd_eq i hi, hctl, Bool.false_eq_true,
    if_false]
  generalize update s.kernel i _ = kernel
  have hobj : (s.setKernel kernel).object (s.slot i) = s.ctx i := rfl
  by_cases hread : ev.read = true → (s.ctx i).events.has .read = true
  · -- the first trigger is skipped or succeeds, so the missing event is the second one
    obtain ⟨c, hands, hfirst, -⟩ :=
      triggerIf_spec (s := s.setKernel kernel) (s.slot i) .read ev.read
      (h.slotOk i hi) hread (h.waiting_le hi) h.pending_lt
    obtain rfl : e = .write := by
      cases e with
      | read => simp [hread hset] at hunset
      | write => rfl
    have hbit := congrArg (Events.has · .write) (triggerIf_events hfirst)
    have hwrite : ev.write = true := hset
    rw [hfirst, hwrite]
    refine triggerIf_of_unset ?_
    rw [hbit, hobj]
    split <;> simp [hunset]
  obtain ⟨hset', hunset'⟩ := Classical.not_imp.mp hread
  rw [hset', triggerIf_of_unset (by rw [hobj]; simpa using hunset')]
  rfl

lemma dispatch_ok_iff {s : State} (h : s.Inv) {i : Nat} (hi : i < s.size) {entry : Entry}
    (hdata : entry.data = .ptr (s.slot i)) (fails : Bool) :
    (∃ s', s.dispatch entry fails = .ok s') ↔ fails = true ∨ NoPartialOverlap entry (s.ctx i) := by
  have hrun : s.dispatch entry fails = s.dispatchLocked (s.slot i) entry fails := by
    simp [dispatch, hdata]
  rw [hrun]
  by_cases hentry : NoPartialOverlap entry (s.ctx i)
  · refine ⟨fun _ => Or.inr hentry, fun _ => ?_⟩
    rcases dispatchLocked_spec h hi fails hentry with hok | ⟨s', -, -, hok, -⟩
    · exact ⟨s, hok⟩
    · exact ⟨s', hok⟩
  cases fails with
  | true =>
    refine ⟨fun _ => Or.inl rfl, fun _ => ⟨s, ?_⟩⟩
    simp [dispatchLocked, epollCtl]
  | false =>
    rw [dispatchLocked_aborts h hi hentry]
    simp [hentry]

/-! ## Workers with batches -/

/-- The books, and for each worker the entries of its last `epoll_wait` that
it has still to handle. -/
structure BatchState where
  books : State
  batch : Nat → List Entry

/-- An entry that `epoll_wait` can return: it carries the data word of a
registered interest and reports events of that interest, or errors. -/
def Reportable (s : State) (entry : Entry) : Prop :=
  ∃ fd interest, s.kernel fd = some interest ∧ entry.data = interest.data ∧
    ∀ e, entry.events.has e = true → interest.events.has e = true

inductive BatchOp where
  | other (op : Op)
  | wait (worker : Nat) (entries : List Entry)
  | handle (worker : Nat) (fails : Bool)

/-- One step; `none` when it aborts. -/
def BatchOp.step (s : BatchState) : BatchOp → Option BatchState
  | .other op =>
    match op.exec s.books with
    | .ok r => some { s with books := r.1 }
    | .error _ => none
  | .wait worker entries => some { s with batch := update s.batch worker entries }
  | .handle worker fails =>
    match s.batch worker with
    | [] => some s
    | entry :: rest =>
      match s.books.dispatch entry fails with
      | .ok books => some ⟨books, update s.batch worker rest⟩
      | .error _ => none

/-- The steps that the code can take: other threads call the event operations,
and a worker that has handled its last batch waits for registered interests. -/
def BatchOp.Possible (s : BatchState) : BatchOp → Prop
  | .other op => (∀ entry fails, op ≠ .dispatch entry fails) ∧ op.Allowed NoPartialOverlap s.books
  | .wait worker entries => s.batch worker = [] ∧ ∀ entry ∈ entries, Reportable s.books entry
  | .handle worker _ => s.batch worker ≠ []

/-- The condition on a step under which batches are harmless: an entry handled
does not overlap the registered events in part, or `epoll_ctl` fails. -/
def BatchOp.Harmless (s : BatchState) : BatchOp → Prop
  | .handle worker fails =>
    ∀ entry rest p, s.batch worker = entry :: rest → entry.data = .ptr p →
      fails = true ∨ NoPartialOverlap entry (s.books.object p)
  | _ => True

def batchSystem : TransitionSystem BatchState BatchOp where
  init s := (∃ tickleFd, s.books = State.initial tickleFd) ∧ ∀ worker, s.batch worker = []
  step s op := op.step s

def InTable (s : State) (entry : Entry) : Prop :=
  entry.data = .tickle ∨ ∃ i < s.size, entry.data = .ptr (s.slot i)

lemma Reportable.inTable {s : State} (h : s.Inv) {entry : Entry} (hr : Reportable s entry) :
    InTable s entry := by
  obtain ⟨fd, interest, hk, hdata, -⟩ := hr
  rw [h.kernel_eq, State.interest] at hk
  split at hk
  · exact Or.inl (by rw [hdata, ← Option.some.inj hk])
  split at hk
  · rename_i hin
    unfold interestOf at hk
    split at hk
    · contradiction
    · exact Or.inr ⟨fd.toNat, by omega, by rw [hdata, ← Option.some.inj hk]⟩
  · contradiction

structure BatchInv (s : BatchState) : Prop where
  inv : s.books.Inv
  size_le : 32 ≤ s.books.size
  inTable : ∀ worker, ∀ entry ∈ s.batch worker, InTable s.books entry

lemma Outcome.inTable {s s' : State} {op : Op} {r : Option Bool} (hout : Outcome s op s' r)
    {entry : Entry} (h : InTable s entry) : InTable s' entry := by
  rcases h with htickle | ⟨i, hi, hdata⟩
  · exact Or.inl htickle
  · exact Or.inr ⟨i, lt_of_lt_of_le hi hout.size_le, by rw [hout.slot_eq i hi, hdata]⟩

lemma handle_ok_iff {s : BatchState} (h : BatchInv s) {worker : Nat} {entry : Entry}
    {rest : List Entry} (hbatch : s.batch worker = entry :: rest) (fails : Bool) :
    (∃ books, s.books.dispatch entry fails = .ok books) ↔
      (BatchOp.handle worker fails).Harmless s := by
  rcases h.inTable worker entry (by simp [hbatch]) with htickle | ⟨i, hi, hdata⟩
  · refine ⟨fun _ e _ p he hp => ?_, fun _ => ⟨s.books, by simp [dispatch, htickle]⟩⟩
    obtain ⟨rfl, -⟩ := List.cons.inj (hbatch.symm.trans he)
    simp [htickle] at hp
  rw [dispatch_ok_iff h.inv hi hdata fails]
  refine ⟨fun hok e _ p he hp => ?_, fun hharm => hharm entry rest _ hbatch hdata⟩
  obtain ⟨rfl, -⟩ := List.cons.inj (hbatch.symm.trans he)
  obtain rfl : s.books.slot i = p := by simpa [hdata] using hp
  exact hok

lemma dispatch_outcome {s : State} (h : s.Inv) (hsize : 32 ≤ s.size) {entry : Entry}
    (hin : InTable s entry) {fails : Bool} {s' : State} (hrun : s.dispatch entry fails = .ok s') :
    Outcome s (.dispatch entry fails) s' none := by
  have hexec : Op.exec s (.dispatch entry fails) = .ok (s', none) := by
    simp [Op.exec, hrun, Except.map]
  have hallowed (hop : (Op.dispatch entry fails).Allowed NoPartialOverlap s) :
      Outcome s (.dispatch entry fails) s' none := by
    obtain ⟨s₁, r, hrun', hout⟩ := Op.exec_spec h hsize hop
    obtain ⟨rfl, rfl⟩ : s' = s₁ ∧ none = r := by simpa [hexec] using hrun'
    exact hout
  rcases hin with htickle | ⟨i, hi, hdata⟩
  · exact hallowed (Or.inl htickle)
  rcases (dispatch_ok_iff h hi hdata fails).mp ⟨s', hrun⟩ with rfl | hentry
  · -- with a failing `epoll_ctl` the entry is skipped
    obtain rfl : s = s' := by
      simpa [dispatch, hdata, dispatchLocked, epollCtl] using hrun
    exact .of_sameBooks h (SameBooks.refl s) (le_refl _) (fun _ _ => rfl) rfl (by simp)
  · exact hallowed (Or.inr ⟨i, hi, hdata, hentry⟩)

lemma inTable_update {books : State} {batch : Nat → List Entry}
    (h : ∀ worker, ∀ entry ∈ batch worker, InTable books entry) (worker : Nat)
    {entries : List Entry} (hnew : ∀ entry ∈ entries, InTable books entry) :
    ∀ w, ∀ entry ∈ update batch worker entries w, InTable books entry :=
  (Function.forall_update_iff batch fun _ l => ∀ entry ∈ l, InTable books entry).mpr
    ⟨hnew, fun w _ => h w⟩

lemma BatchInv.step {s s' : BatchState} {op : BatchOp} (h : BatchInv s) (hop : op.Possible s)
    (hstep : op.step s = some s') : BatchInv s' := by
  cases op with
  | other op =>
    obtain ⟨books, r, hrun, hout⟩ := Op.exec_spec h.inv h.size_le hop.2
    obtain rfl : { s with books := books } = s' := by
      simpa [BatchOp.step, hrun] using hstep
    exact ⟨hout.inv, h.size_le.trans hout.size_le,
      fun worker entry hentry => hout.inTable (h.inTable worker entry hentry)⟩
  | wait worker entries =>
    obtain rfl := Option.some.inj hstep
    exact ⟨h.inv, h.size_le,
      inTable_update h.inTable worker fun entry hentry => (hop.2 entry hentry).inTable h.inv⟩
  | handle worker fails =>
    simp only [BatchOp.step] at hstep
    split at hstep
    · exact Option.some.inj hstep ▸ h
    rename_i entry rest hbatch
    split at hstep
    · rename_i books hrun
      obtain rfl := Option.some.inj hstep
      have hout := dispatch_outcome h.inv h.size_le (h.inTable worker entry (by simp [hbatch])) hrun
      refine ⟨hout.inv, h.size_le.trans hout.size_le, inTable_update
        (fun w e he => hout.inTable (h.inTable w e he)) worker fun e he => ?_⟩
      exact hout.inTable (h.inTable worker e (by simp [hbatch, he]))
    · contradiction

lemma batchInv_of_reachable {s : BatchState}
    (h : batchSystem.ReachableWith (fun s op => op.Possible s) s) : BatchInv s := by
  refine TransitionSystem.ReachableWith.invariant (I := BatchInv) ?_ ?_ h
  · rintro ⟨books, batch⟩ ⟨⟨tickleFd, rfl⟩, hempty⟩
    refine ⟨inv_initial tickleFd, le_refl _, fun worker entry hentry => ?_⟩
    rw [hempty worker] at hentry
    simp at hentry
  · exact fun s op s' hinv hop hstep => hinv.step hop hstep

/-- In every state reached the counter is the number of event bits set, and a possible step passes
all assertions exactly when it is harmless. -/
theorem stale_batch_safe {s : BatchState}
    (h : batchSystem.ReachableWith (fun s op => op.Possible s) s) :
    Agree s.books ∧
      ∀ op : BatchOp, op.Possible s → ((∃ s', op.step s = some s') ↔ op.Harmless s) := by
  have hinv := batchInv_of_reachable h
  refine ⟨hinv.inv.agree, fun op hop => ?_⟩
  cases op with
  | other op =>
    obtain ⟨books, r, hrun, -⟩ := Op.exec_spec hinv.inv hinv.size_le hop.2
    simp [BatchOp.step, BatchOp.Harmless, hrun]
  | wait worker entries => simp [BatchOp.step, BatchOp.Harmless]
  | handle worker fails =>
    obtain ⟨entry, rest, hbatch⟩ := List.exists_cons_of_ne_nil hop
    rw [← handle_ok_iff hinv hbatch fails]
    simp only [BatchOp.step, hbatch]
    cases s.books.dispatch entry fails with
    | ok | error => simp

def bothReady : Entry :=
  { data := .ptr ((State.initial 9).slot 5), events := { read := true, write := true } }

def reportBoth : List BatchOp :=
  [.other (.addEvent 5 .read none ⟨some 0, 3, true⟩ false),
    .other (.addEvent 5 .write none ⟨some 0, 4, true⟩ false),
    .wait 0 [bothReady]]

lemma reachable_other (op : Op) {s s' : BatchState}
    (hs : batchSystem.ReachableWith (fun s op => op.Possible s) s)
    (hother : ∀ entry fails, op ≠ .dispatch entry fails)
    (hop : op.Allowed NoPartialOverlap s.books) (hstep : (BatchOp.other op).step s = some s') :
    batchSystem.ReachableWith (fun s op => op.Possible s) s' :=
  hs.step (a := .other op) ⟨hother, hop⟩ hstep

lemma reportBoth_reachable :
    ∃ s, batchSystem.run ⟨State.initial 9, fun _ => []⟩ reportBoth = some s ∧
      batchSystem.ReachableWith (fun s op => op.Possible s) s := by
  have hempty : batchSystem.ReachableWith (fun s op => op.Possible s)
      ⟨State.initial 9, fun _ => []⟩ := .init ⟨⟨9, rfl⟩, fun _ => rfl⟩
  have hread := reachable_other (.addEvent 5 .read none ⟨some 0, 3, true⟩ false) hempty (by simp)
    ⟨by decide, by decide, by decide, by decide⟩ rfl
  have hboth := reachable_other (.addEvent 5 .write none ⟨some 0, 4, true⟩ false) hread (by simp)
    ⟨by decide, by decide, by decide, by decide⟩ rfl
  refine ⟨_, rfl, hboth.step (a := .wait 0 [bothReady]) ?_ rfl⟩
  refine ⟨rfl, List.forall_mem_singleton.mpr ?_⟩
  exact ⟨5, ⟨bothReady.events, _⟩, rfl, rfl, fun _ h => h⟩

theorem stale_batch_safe_both_ready :
    ∃ s s', batchSystem.run ⟨State.initial 9, fun _ => []⟩ reportBoth = some s ∧
      Agree s.books ∧ s.books.pendingEventCount = 2 ∧
      (BatchOp.handle 0 false).step s = some s' := by
  obtain ⟨s, hrun, hs⟩ := reportBoth_reachable
  obtain rfl := Option.some.inj hrun
  obtain ⟨hagree, hok⟩ := stale_batch_safe hs
  obtain ⟨s', hstep⟩ := (hok (.handle 0 false) (List.cons_ne_nil _ _)).mpr (by
    rintro entry rest p hbatch hp
    obtain ⟨rfl, -⟩ := List.cons.inj (hbatch : [bothReady] = _)
    obtain rfl : (State.initial 9).slot 5 = p := by simpa [bothReady] using hp
    exact Or.inr (by decide))
  exact ⟨_, s', rfl, hagree, rfl, hstep⟩

/-- When another thread deletes the write event in between, the entry still asks
for it and the assertion of `triggerEvent` fails. -/
theorem stale_batch_aborts :
    ∃ s, batchSystem.run ⟨State.initial 9, fun _ => []⟩
        (reportBoth ++ [.other (.delEvent 5 .write false)]) = some s ∧
      batchSystem.ReachableWith (fun s op => op.Possible s) s ∧
      s.batch 0 = [bothReady] ∧ (s.books.view 5).events = { read := true } ∧
      s.books.dispatch bothReady false = .error .assertion := by
  obtain ⟨s, hrun, hs⟩ := reportBoth_reachable
  obtain rfl := Option.some.inj hrun
  have hdel := reachable_other (.delEvent 5 .write false) hs (by simp) (Int.natCast_nonneg 5) rfl
  exact ⟨_, rfl, hdel, rfl, rfl, rfl⟩

end Yuyu.IOManager
