import Yuyu.IOManager.EventInvariant

/-!
# Growth of the context table

When the table is too small `addEvent` gives up the read lock and takes the write lock to resize it,
without testing the size again. Each critical section is a step.
-/

namespace Yuyu.IOManager

open Foundation State Function

inductive Call where
  | addEvent (fd : Int) (event : Event) (cb : Option Nat) (caller : Caller)
  | delEvent (fd : Int) (event : Event)
  | cancelEvent (fd : Int) (event : Event)
  | cancelAll (fd : Int)
deriving DecidableEq

inductive Pc where
  | idle
  /-- The table was too small, before the write lock is taken. -/
  | grow (call : Call)
  /-- The context was found, before its mutex is taken. -/
  | locked (call : Call) (p : Nat)
deriving DecidableEq

namespace Call

def fd : Call → Int
  | .addEvent fd _ _ _ | .delEvent fd _ | .cancelEvent fd _ | .cancelAll fd => fd

def find (s : State) (call : Call) : Except Fault Pc :=
  match call with
  | .addEvent fd _ _ _ =>
    if toInt32 s.size > fd then (s.contextAt fd).map (.locked call) else .ok (.grow call)
  | .delEvent fd _ | .cancelEvent fd _ | .cancelAll fd =>
    (s.lookup fd).map fun found => found.elim .idle (.locked call)

/-- The size `fd * 1.5` that a call asks for. -/
def newSize (call : Call) : Nat := 3 * call.fd.toNat / 2

/-- The section of `addEvent` under the write lock. -/
def grow (s : State) (call : Call) : Except Fault (State × Pc) :=
  if call.fd < 0 then .error .outOfBounds
  else
    let s := s.contextResize call.newSize
    (s.contextAt call.fd).map fun p => (s, .locked call p)

def locked (s : State) (p : Nat) (fails : Bool) : Call → Except Fault State
  | .addEvent fd event cb caller => (s.addLocked p fd event cb caller fails).map Prod.fst
  | .delEvent fd event => (s.delLocked p fd event fails).map Prod.fst
  | .cancelEvent fd event => (s.cancelLocked p fd event fails).map Prod.fst
  | .cancelAll fd => (s.cancelAllLocked p fd fails).map Prod.fst

end Call

lemma addEvent_sections (s : State) (fd : Int) (event : Event) (cb : Option Nat)
    (caller : Caller) (fails : Bool) :
    (s.addEvent fd event cb caller fails).map Prod.fst =
      let call := Call.addEvent fd event cb caller
      (do
        match ← call.find s with
        | .locked _ p => call.locked s p fails
        | .grow _ =>
          match ← call.grow s with
          | (s', .locked _ p) => call.locked s' p fails
          | (s', _) => return s'
        | .idle => return s) := by
  simp only [addEvent, growTo, Call.find, Call.grow, Call.newSize, Call.fd, Call.locked]
  split
  · cases s.contextAt fd <;> rfl
  by_cases hneg : fd < 0
  · simp only [hneg, if_true]
    rfl
  · simp only [hneg, if_false]
    cases (s.contextResize (3 * fd.toNat / 2)).contextAt fd <;> rfl

def Pc.growing : Pc → Option Call
  | .grow call => some call
  | _ => none

structure TableState where
  books : State
  pc : Nat → Pc

/-- The critical sections of threads, and the handling of `epoll` entries. -/
inductive TableOp where
  | find (t : Nat) (call : Call)
  | grow (t : Nat)
  | locked (t : Nat) (fails : Bool)
  | dispatch (entry : Entry) (fails : Bool)

namespace TableOp

/-- One step; `none` when it is not possible or aborts. -/
def step (s : TableState) : TableOp → Option TableState
  | .find t call =>
    if s.pc t = .idle then
      match call.find s.books with
      | .ok pc => some { s with pc := update s.pc t pc }
      | .error _ => none
    else none
  | .grow t =>
    match s.pc t with
    | .grow call =>
      match call.grow s.books with
      | .ok (books, pc) => some ⟨books, update s.pc t pc⟩
      | .error _ => none
    | _ => none
  | .locked t fails =>
    match s.pc t with
    | .locked call p =>
      match call.locked s.books p fails with
      | .ok books => some ⟨books, update s.pc t .idle⟩
      | .error _ => none
    | _ => none
  | .dispatch entry fails =>
    match s.books.dispatch entry fails with
    | .ok books => some { s with books := books }
    | .error _ => none

/-- A resize does not ask for less than the table has, nor for a size that is
not an `int`. -/
def Grows (s : TableState) : TableOp → Prop
  | .grow t => ∀ call ∈ (s.pc t).growing, s.books.size ≤ call.newSize ∧ call.newSize < 2 ^ 31
  | _ => True

instance (s : TableState) (op : TableOp) : Decidable (op.Grows s) :=
  match op with
  | .grow _ => inferInstanceAs (Decidable (∀ _ ∈ _, _))
  | .find _ _ | .locked _ _ | .dispatch _ _ => inferInstanceAs (Decidable True)

end TableOp

def tableSystem : TransitionSystem TableState TableOp where
  init s := (∃ tickleFd, s.books = State.initial tickleFd) ∧ ∀ t, s.pc t = .idle
  step s op := op.step s

/-! ## What a section changes -/

structure Touches (s s' : State) (p : Nat) : Prop where
  size_eq : s'.size = s.size
  slot_eq : s'.slot = s.slot
  nextPtr_eq : s'.nextPtr = s.nextPtr
  fd_eq : ∀ q, (s'.object q).fd = (s.object q).fd
  events : ∀ q e, (s'.object q).events.has e = true → (s.object q).events.has e = true ∨ q = p

namespace Touches

lemma refl (s : State) (p : Nat) : Touches s s p :=
  ⟨rfl, rfl, rfl, fun _ => rfl, fun _ _ h => Or.inl h⟩

lemma trans {s s' s'' : State} {p : Nat} (h : Touches s s' p) (h' : Touches s' s'' p) :
    Touches s s'' p where
  size_eq := h'.size_eq.trans h.size_eq
  slot_eq := h'.slot_eq.trans h.slot_eq
  nextPtr_eq := h'.nextPtr_eq.trans h.nextPtr_eq
  fd_eq q := (h'.fd_eq q).trans (h.fd_eq q)
  events q e he := (h'.events q e he).elim (h.events q e) Or.inr

lemma of_object {s s' : State} {p : Nat} {c : FdContext} (hsize : s'.size = s.size)
    (hslot : s'.slot = s.slot) (hnext : s'.nextPtr = s.nextPtr)
    (hobject : s'.object = update s.object p c) (hfd : c.fd = (s.object p).fd) :
    Touches s s' p := by
  refine ⟨hsize, hslot, hnext, fun q => ?_, fun q e he => ?_⟩
  · by_cases hq : q = p
    · rw [hobject, hq, update_self, hfd]
    · rw [hobject, update_of_ne hq]
  by_cases hq : q = p
  · exact Or.inr hq
  · rw [hobject, update_of_ne hq] at he
    exact Or.inl he

end Touches

variable {e event : Event} {s s' : State} {p : Nat} {fd : Int} {fails : Bool} {r : State × Bool}

lemma triggerEvent_fd {c c' : FdContext} {hands : List Handoff}
    (h : c.triggerEvent e = .ok (c', hands)) : c'.fd = c.fd := by
  unfold FdContext.triggerEvent at h
  split at h
  · contradiction
  dsimp only at h
  split at h
  · contradiction
  split at h <;>
    · rw [← (Prod.mk.inj (Except.ok.inj h)).1]
      simp

lemma trigger_touches (h : s.trigger p e = .ok s') : Touches s s' p := by
  simp only [trigger, bind, Except.bind] at h
  split at h
  · contradiction
  rename_i r hr
  obtain rfl := Except.ok.inj h
  exact .of_object rfl rfl rfl rfl (triggerEvent_fd hr)

lemma triggerIf_touches {cond : Bool} (h : s.triggerIf p e cond = .ok s') : Touches s s' p := by
  unfold triggerIf at h
  split at h
  · exact trigger_touches h
  · rw [← Except.ok.inj h]
    exact .refl s p

lemma setKernel_touches (s : State) (kernel : Int → Option Interest) (p : Nat) :
    Touches s (s.setKernel kernel) p := ⟨rfl, rfl, rfl, fun _ => rfl, fun _ _ h => Or.inl h⟩

lemma addLocked_touches {cb : Option Nat} {caller : Caller} {r : State × Int}
    (h : s.addLocked p fd event cb caller fails = .ok r) : Touches s r.1 p := by
  simp only [addLocked] at h
  split at h
  · contradiction
  split at h
  · rw [← Except.ok.inj h]
    exact .refl s p
  split at h
  · contradiction
  split at h
  · contradiction
  · rw [← Except.ok.inj h]
    exact .of_object rfl rfl rfl rfl (by simp)

lemma delLocked_touches (h : s.delLocked p fd event fails = .ok r) : Touches s r.1 p := by
  simp only [delLocked] at h
  split at h
  · rw [← Except.ok.inj h]
    exact .refl s p
  split at h
  · rw [← Except.ok.inj h]
    exact .refl s p
  · rw [← Except.ok.inj h]
    exact .of_object rfl rfl rfl rfl (by simp [FdContext.resetContext])

lemma cancelLocked_touches (h : s.cancelLocked p fd event fails = .ok r) : Touches s r.1 p := by
  simp only [cancelLocked, bind, Except.bind] at h
  split at h
  · rw [← Except.ok.inj h]
    exact .refl s p
  split at h
  · rw [← Except.ok.inj h]
    exact .refl s p
  split at h
  · contradiction
  rename_i htrigger
  rw [← Except.ok.inj h]
  exact (setKernel_touches s _ p).trans (trigger_touches htrigger)

lemma cancelAllLocked_touches (h : s.cancelAllLocked p fd fails = .ok r) : Touches s r.1 p := by
  simp only [cancelAllLocked, bind, Except.bind] at h
  split at h
  · rw [← Except.ok.inj h]
    exact .refl s p
  split at h
  · rw [← Except.ok.inj h]
    exact .refl s p
  split at h
  · contradiction
  rename_i hread
  split at h
  · contradiction
  rename_i hwrite
  have hboth := (setKernel_touches s _ p).trans
    ((triggerIf_touches hread).trans (triggerIf_touches hwrite))
  split at h
  · rw [← Except.ok.inj h]
    exact hboth
  · contradiction

lemma Call.locked_touches {call : Call} (h : call.locked s p fails = .ok s') : Touches s s' p := by
  have hmap {α : Type} {x : Except Fault (State × α)} (hx : x.map Prod.fst = .ok s') :
      ∃ r, x = .ok r ∧ r.1 = s' := by
    cases x with
    | error f => contradiction
    | ok r => exact ⟨r, rfl, Except.ok.inj hx⟩
  cases call with
  | addEvent fd event cb caller =>
    obtain ⟨r, hr, rfl⟩ := hmap h
    exact addLocked_touches hr
  | delEvent fd event =>
    obtain ⟨r, hr, rfl⟩ := hmap h
    exact delLocked_touches hr
  | cancelEvent fd event =>
    obtain ⟨r, hr, rfl⟩ := hmap h
    exact cancelLocked_touches hr
  | cancelAll fd =>
    obtain ⟨r, hr, rfl⟩ := hmap h
    exact cancelAllLocked_touches hr

lemma dispatch_touches {entry : Entry} (h : s.dispatch entry fails = .ok s') :
    s' = s ∨ ∃ p e, (s.object p).events.has e = true ∧ Touches s s' p := by
  unfold dispatch at h
  split at h
  · exact Or.inl (Except.ok.inj h).symm
  rename_i p hdata
  simp only [dispatchLocked, bind, Except.bind] at h
  split at h
  · exact Or.inl (Except.ok.inj h).symm
  rename_i hov
  split at h
  · exact Or.inl (Except.ok.inj h).symm
  split at h
  · contradiction
  rename_i hread
  have hsome : ∃ e, (s.object p).events.has e = true := by
    by_contra hnone
    have hread := not_exists.mp hnone .read
    have hwrite := not_exists.mp hnone .write
    apply hov
    simp_all [Events.isEmpty, Events.inter, Events.has]
  obtain ⟨e, he⟩ := hsome
  exact Or.inr ⟨p, e, he, (setKernel_touches s _ p).trans
    ((triggerIf_touches hread).trans (triggerIf_touches h))⟩

/-! ## The invariant of the table -/

/-- Slots are allocated and belong to their descriptor, contexts with events are
in the table, and threads hold contexts of the table. -/
structure TableInv (s : TableState) : Prop where
  size_lt : s.books.size < 2 ^ 31
  slot_lt : ∀ i < s.books.size, s.books.slot i < s.books.nextPtr
  fd_eq : ∀ i < s.books.size, (s.books.object (s.books.slot i)).fd = i
  home : ∀ p e, (s.books.object p).events.has e = true → ∃ i < s.books.size, s.books.slot i = p
  held : ∀ t call p, s.pc t = .locked call p → s.books.lookup call.fd = .ok (some p)

lemma lookup_of_lt (hsize : s.size < 2 ^ 31) (hfd : 0 ≤ fd)
    (hlt : fd < s.size) : s.lookup fd = .ok (some (s.slot fd.toNat)) := by
  rw [lookup, toInt32_of_lt hsize, if_neg (by omega), contextAt, if_pos ⟨hfd, hlt⟩]
  rfl

lemma lookup_some (h : s.lookup fd = .ok (some p)) :
    0 ≤ fd ∧ fd < s.size ∧ s.slot fd.toNat = p := by
  unfold lookup contextAt at h
  split at h
  · simp at h
  split at h
  · rename_i hin
    exact ⟨hin.1, hin.2, by simpa [Except.map] using h⟩
  · simp [Except.map] at h

structure Extends (s s' : State) : Prop where
  size_le : s.size ≤ s'.size
  slot_eq : ∀ i < s.size, s'.slot i = s.slot i

namespace Extends

lemma refl (s : State) : Extends s s := ⟨le_refl _, fun _ _ => rfl⟩

lemma trans {s s' s'' : State} (h : Extends s s') (h' : Extends s' s'') : Extends s s'' where
  size_le := h.size_le.trans h'.size_le
  slot_eq i hi := (h'.slot_eq i (lt_of_lt_of_le hi h.size_le)).trans (h.slot_eq i hi)

lemma lookup {s s' : State} (h : Extends s s') (hsize : s'.size < 2 ^ 31) {fd : Int} {p : Nat}
    (hp : s.lookup fd = .ok (some p)) : s'.lookup fd = .ok (some p) := by
  obtain ⟨hfd, hlt, rfl⟩ := lookup_some hp
  have hle := h.size_le
  rw [lookup_of_lt hsize hfd (by omega), h.slot_eq _ (by omega)]

end Extends

lemma Touches.extends (h : Touches s s' p) : Extends s s' :=
  ⟨h.size_eq.ge, fun i _ => by rw [h.slot_eq]⟩

namespace TableInv

variable {s : TableState} (h : TableInv s)
include h

lemma lookup_event {p : Nat} {e : Event} (he : (s.books.object p).events.has e = true) :
    s.books.lookup (s.books.object p).fd = .ok (some p) := by
  obtain ⟨i, hi, rfl⟩ := h.home p e he
  rw [h.fd_eq i hi, lookup_of_lt h.size_lt (by omega) (by omega), Int.toNat_natCast]

lemma move (t : Nat) {pc : Pc}
    (hpc : ∀ call p, pc = .locked call p → s.books.lookup call.fd = .ok (some p)) :
    ∀ u call p, update s.pc t pc u = .locked call p → s.books.lookup call.fd = .ok (some p) :=
  (Function.forall_update_iff s.pc fun _ q => ∀ call p, q = .locked call p →
    s.books.lookup call.fd = .ok (some p)).mpr ⟨hpc, fun u _ => h.held u⟩

lemma touch {books : State} {pc : Nat → Pc} {p : Nat} (ht : Touches s.books books p)
    (hp : ∃ i < s.books.size, s.books.slot i = p)
    (hheld : ∀ t call q, pc t = .locked call q → s.books.lookup call.fd = .ok (some q)) :
    TableInv ⟨books, pc⟩ ∧ Extends s.books books := by
  have hsize : books.size < 2 ^ 31 := ht.size_eq ▸ h.size_lt
  refine ⟨⟨hsize, ?_, ?_, ?_, ?_⟩, ht.extends⟩
  · intro i hi
    rw [ht.size_eq] at hi
    rw [ht.slot_eq, ht.nextPtr_eq]
    exact h.slot_lt i hi
  · intro i hi
    rw [ht.size_eq] at hi
    rw [ht.slot_eq, ht.fd_eq]
    exact h.fd_eq i hi
  · intro q e he
    rw [ht.size_eq, ht.slot_eq]
    rcases ht.events q e he with he | rfl
    · exact h.home q e he
    · exact hp
  · intro t call q hq
    exact ht.extends.lookup hsize (hheld t call q hq)

lemma resize {size : Nat} (hle : s.books.size ≤ size) (hlt : size < 2 ^ 31) :
    TableInv { s with books := s.books.contextResize size } ∧
      Extends s.books (s.books.contextResize size) := by
  have hkept : min s.books.size size = s.books.size := Nat.min_eq_left hle
  have hold : ∀ i < s.books.size, (s.books.contextResize size).slot i = s.books.slot i := by
    intro i hi
    simp [contextResize, hkept, hi]
  have hext : Extends s.books (s.books.contextResize size) := ⟨hle, hold⟩
  have hobject : ∀ i < s.books.size, (s.books.contextResize size).object (s.books.slot i) =
      s.books.object (s.books.slot i) := by
    intro i hi
    have hslot := h.slot_lt i hi
    simp only [contextResize, hkept]
    rw [if_neg (by omega)]
  refine ⟨⟨hlt, ?_, ?_, ?_, ?_⟩, hext⟩
  · intro i hi
    by_cases hi' : i < s.books.size
    · rw [hold i hi']
      exact Nat.lt_add_right _ (h.slot_lt i hi')
    · simp only [contextResize, hkept, hi', if_false]
      exact Nat.add_lt_add_left hi _
  · intro i hi
    by_cases hi' : i < s.books.size
    · rw [hold i hi', hobject i hi']
      exact h.fd_eq i hi'
    have hi : i < size := hi
    simp only [contextResize, hkept, hi', if_false]
    rw [if_pos (by omega), Nat.add_sub_cancel_left]
    exact toInt32_of_lt (by omega)
  · intro p e he
    simp only [contextResize, hkept] at he
    split at he
    · -- a new context has no events
      cases e <;> simp [Events.has] at he
    · obtain ⟨i, hi, hp⟩ := h.home p e he
      exact ⟨i, lt_of_lt_of_le hi hle, (hold i hi).trans hp⟩
  · intro t call p hp
    exact hext.lookup hlt (h.held t call p hp)

end TableInv

lemma Call.find_locked {call call' : Call}
    (h : call.find s = .ok (.locked call' p)) : s.lookup call'.fd = .ok (some p) := by
  have hother (fd : Int) (hfd : call.fd = fd)
      (hfind : (s.lookup fd).map (fun found => found.elim Pc.idle (Pc.locked call)) =
        .ok (Pc.locked call' p)) : s.lookup call'.fd = .ok (some p) := by
    cases hl : s.lookup fd with
    | error f => simp [hl, Except.map] at hfind
    | ok found =>
      cases found with
      | none => simp [hl, Except.map] at hfind
      | some q =>
        obtain ⟨rfl, rfl⟩ : call = call' ∧ q = p := by simpa [hl, Except.map] using hfind
        rw [hfd, hl]
  cases call with
  | addEvent fd event cb caller =>
    simp only [Call.find] at h
    split at h
    · rename_i hin
      cases hc : s.contextAt fd with
      | error f => simp [hc, Except.map] at h
      | ok q =>
        obtain ⟨rfl, rfl⟩ : Call.addEvent fd event cb caller = call' ∧ q = p := by
          simpa [hc, Except.map] using h
        rw [lookup, Call.fd, if_neg (by omega), hc]
        rfl
    · simp at h
  | delEvent fd | cancelEvent fd | cancelAll fd => exact hother fd rfl h

lemma Call.grow_eq_ok {call : Call} {pc : Pc} (h : call.grow s = .ok (s', pc)) :
    s' = s.contextResize call.newSize ∧ ∃ p, s'.contextAt call.fd = .ok p ∧
      pc = .locked call p := by
  simp only [Call.grow] at h
  split at h
  · contradiction
  cases hc : (s.contextResize call.newSize).contextAt call.fd with
  | error f => simp [hc, Except.map] at h
  | ok p =>
    obtain ⟨rfl, rfl⟩ : s.contextResize call.newSize = s' ∧ Pc.locked call p = pc := by
      simpa [hc, Except.map] using h
    exact ⟨rfl, p, hc, rfl⟩

inductive TableStep (s : TableState) : TableOp → TableState → Prop where
  | find {t call pc} (hfind : Call.find s.books call = .ok pc) :
      TableStep s (.find t call) { s with pc := update s.pc t pc }
  | grow {t call p} (hpc : s.pc t = .grow call)
      (hat : (s.books.contextResize call.newSize).contextAt call.fd = .ok p) :
      TableStep s (.grow t)
        ⟨s.books.contextResize call.newSize, update s.pc t (.locked call p)⟩
  | locked {t fails call p books} (hpc : s.pc t = .locked call p)
      (hlocked : call.locked s.books p fails = .ok books) :
      TableStep s (.locked t fails) ⟨books, update s.pc t .idle⟩
  | dispatch {entry fails books} (hdispatch : s.books.dispatch entry fails = .ok books) :
      TableStep s (.dispatch entry fails) { s with books := books }

lemma TableOp.step_cases {s s' : TableState} {op : TableOp} (h : op.step s = some s') :
    TableStep s op s' := by
  cases op with
  | find t call =>
    simp only [TableOp.step] at h
    split at h
    · split at h
      · rename_i pc hfind
        cases h
        exact .find hfind
      · contradiction
    · contradiction
  | grow t =>
    simp only [TableOp.step] at h
    split at h
    · rename_i call hpc
      split at h
      · rename_i books pc hgrow
        cases h
        obtain ⟨rfl, p, hat, rfl⟩ := Call.grow_eq_ok hgrow
        exact .grow hpc hat
      · contradiction
    · contradiction
  | locked t fails =>
    simp only [TableOp.step] at h
    split at h
    · rename_i call p hpc
      split at h
      · rename_i books hlocked
        cases h
        exact .locked hpc hlocked
      · contradiction
    · contradiction
  | dispatch entry fails =>
    simp only [TableOp.step] at h
    split at h
    · rename_i books hdispatch
      cases h
      exact .dispatch hdispatch
    · contradiction

lemma TableInv.step {s s' : TableState} {op : TableOp} (h : TableInv s) (hop : op.Grows s)
    (hstep : op.step s = some s') : TableInv s' ∧ Extends s.books s'.books := by
  cases TableOp.step_cases hstep with
  | @find t call pc hfind =>
    refine ⟨⟨h.size_lt, h.slot_lt, h.fd_eq, h.home, h.move t ?_⟩, .refl _⟩
    rintro call' p rfl
    exact Call.find_locked hfind
  | @grow t call p hpc hat =>
    obtain ⟨hle, hlt⟩ := hop call (by rw [hpc]; rfl)
    obtain ⟨hinv, hext⟩ := h.resize hle hlt
    refine ⟨⟨hinv.size_lt, hinv.slot_lt, hinv.fd_eq, hinv.home, hinv.move t ?_⟩, hext⟩
    rintro call' q hq
    obtain ⟨rfl, rfl⟩ := Pc.locked.inj hq
    unfold contextAt at hat
    split at hat
    · rename_i hin
      rw [lookup_of_lt hinv.size_lt hin.1 hin.2, Except.ok.inj hat]
    · contradiction
  | @locked t fails call p books hpc hlocked =>
    obtain ⟨hfd, hlt, hslot⟩ := lookup_some (h.held t call p hpc)
    exact h.touch (Call.locked_touches hlocked) ⟨call.fd.toNat, by omega, hslot⟩
      (h.move t (by simp))
  | dispatch hdispatch =>
    rcases dispatch_touches hdispatch with rfl | ⟨p, e, he, ht⟩
    · exact ⟨h, .refl _⟩
    · exact h.touch ht (h.home p e he) h.held

lemma tableInv_init {s : TableState} (h : tableSystem.init s) : TableInv s := by
  obtain ⟨⟨tickleFd, hbooks⟩, hidle⟩ := h
  have hinv := inv_initial tickleFd
  refine ⟨?_, ?_, ?_, ?_, ?_⟩
  · rw [hbooks]
    exact hinv.size_lt
  · rw [hbooks]
    exact hinv.slot_lt
  · rw [hbooks]
    exact hinv.fd_eq
  · intro p e he
    rw [hbooks] at he
    simp only [State.initial, contextResize] at he
    split at he <;> cases e <;> simp [Events.has] at he
  intro t call p hp
  rw [hidle t] at hp
  contradiction

/-- In every run whose resizes ask for no less than the table has, no context is replaced, and a
context found for a descriptor is found through it for ever. -/
theorem contextTable_grows {s s' : TableState}
    (h : tableSystem.ReachableWith (fun s op => op.Grows s) s)
    (h' : (tableSystem.startingAt s).ReachableWith (fun s op => op.Grows s) s') :
    s.books.size ≤ s'.books.size ∧ (∀ i < s.books.size, s'.books.slot i = s.books.slot i) ∧
      (∀ t call p, s.pc t = .locked call p → s'.books.lookup call.fd = .ok (some p)) ∧
      ∀ p e, (s'.books.object p).events.has e = true →
        s'.books.lookup (s'.books.object p).fd = .ok (some p) := by
  have hinv : TableInv s := TransitionSystem.ReachableWith.invariant (I := TableInv)
    (fun _ => tableInv_init) (fun _ _ _ hI hop hstep => (hI.step hop hstep).1) h
  have hlater : TableInv s' ∧ Extends s.books s'.books := by
    refine TransitionSystem.ReachableWith.invariant
      (I := fun r => TableInv r ∧ Extends s.books r.books) ?_ ?_ h'
    · rintro r rfl
      exact ⟨hinv, .refl _⟩
    rintro r op r' ⟨hr, hext⟩ hop hstep
    obtain ⟨hr', hext'⟩ := hr.step hop hstep
    exact ⟨hr', hext.trans hext'⟩
  obtain ⟨hinv', hext⟩ := hlater
  exact ⟨hext.size_le, hext.slot_eq,
    fun t call p hp => hext.lookup hinv'.size_lt (hinv.held t call p hp),
    fun p e he => hinv'.lookup_event he⟩

def emptyTable : TableState := ⟨State.initial 9, fun _ => .idle⟩

def addRead (fd : Int) : Call := .addEvent fd .read none ⟨some 0, 3, true⟩

theorem contextTable_grows_forty :
    ∃ s s', tableSystem.run emptyTable [.find 0 (addRead 40), .grow 0] = some s ∧
      (tableSystem.startingAt s).run s [.locked 0 false] = some s' ∧
      s'.books.size = 60 ∧ ((s'.books.object (s'.books.slot 40)).events.has .read = true) ∧
      s'.books.lookup 40 = .ok (some (s.books.slot 40)) := by
  have hempty : tableSystem.ReachableWith (fun s op => op.Grows s) emptyTable :=
    .init ⟨⟨9, rfl⟩, fun _ => rfl⟩
  have hfind : tableSystem.runWith (fun s op => op.Grows s) emptyTable
      [.find 0 (addRead 40), .grow 0] = some _ := rfl
  have hgrown := TransitionSystem.reachableWith_of_runWith hempty hfind
  have hadd (s s' : TableState) (hrun : (tableSystem.startingAt s).runWith
      (fun s op => op.Grows s) s [.locked 0 false] = some s') :=
    TransitionSystem.reachableWith_of_runWith (.init rfl) hrun
  obtain ⟨-, -, hheld, -⟩ := contextTable_grows hgrown (hadd _ _ rfl)
  exact ⟨_, _, rfl, rfl, rfl, rfl, hheld 0 (addRead 40) _ rfl⟩

/-- Thread 0 finds the table too small for descriptor 40; thread 1 grows it and registers descriptor
100; thread 0 resizes it to 60 entries. -/
theorem contextTable_shrinks :
    ∃ s s', tableSystem.run emptyTable [.find 0 (addRead 40), .find 1 (addRead 100), .grow 1,
        .locked 1 false] = some s ∧
      (tableSystem.startingAt s).run s [.grow 0] = some s' ∧
      s.books.size = 150 ∧ s'.books.size = 60 ∧
      (s'.books.object (s.books.slot 100)).events.has .read = true ∧
      s.books.lookup 100 = .ok (some (s.books.slot 100)) ∧
      s'.books.lookup 100 = .ok none ∧
      s'.books.delEvent 100 .read false = .ok (s'.books, false) ∧
      s'.books.cancelEvent 100 .read false = .ok (s'.books, false) ∧
      s'.books.cancelAll 100 false = .ok (s'.books, false) :=
  ⟨_, _, rfl, rfl, rfl, rfl, rfl, rfl, rfl, rfl, rfl, rfl⟩

end Yuyu.IOManager
