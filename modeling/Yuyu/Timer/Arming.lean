import Yuyu.Timer.SetInvariant

/-!
# When timers are due

As long as the clock does not go backwards and due times stay close to it, a pending timer's start,
`m_next - m_ms`, is not in the future. A refresh therefore never makes a timer due earlier.
-/

namespace Yuyu.Timer

open Foundation TimerManager Function

variable {γ : Type}

/-- The operations on timers made outside of `idle`: the manager, and whether
`onTimerInsertedAtFront` is still to be called. -/
def Op.call (m : TimerManager γ) : Op γ → Option (TimerManager γ × Bool)
  | .addTimer a now ms cb recurring => some (m.addTimer a now ms (some cb) recurring)
  | .addConditionTimer a now ms cb weakCond recurring =>
    some (m.addConditionTimer a now ms cb weakCond recurring)
  | .cancel a => (m.cancel a).map fun r => (r.1, false)
  | .refresh a now => (m.refresh a now).map fun r => (r.1, false)
  | .reset a ms fromNow now => (m.reset a ms fromNow now).map fun r => (r.manager, r.atFront)
  | .release a => some ({ m with live := update m.live a false }, false)
  | .getNextTimer _ | .listExpiredCb _ _ => none

variable {m m' m₁ : TimerManager γ} {op : Op γ} {r : TimerManager γ × Bool} {now clock : Nat}
   {a : Addr}

lemma Op.exec_of_call (h : op.call m = some r) : op.exec m = some r.1 := by
  cases op with
  | addTimer | addConditionTimer | release =>
    obtain rfl := Option.some.inj h
    rfl
  | cancel | refresh | reset =>
    obtain ⟨r', hr, rfl⟩ := Option.map_eq_some_iff.mp h
    simp [Op.exec, hr]
  | getNextTimer | listExpiredCb => simp [Op.call] at h

lemma Op.inv_of_call (hinv : m.Inv) (hop : op.Allowed m) (h : op.call m = some r) : r.1.Inv := by
  obtain ⟨m', hexec, hinv'⟩ := Op.exec_inv hinv hop
  rw [Op.exec_of_call h] at hexec
  exact Option.some.inj hexec ▸ hinv'

/-- A due time within `2^31` ms that fits in a word. -/
def DueSoon (now due : Nat) : Prop := due < now + 2 ^ 31 ∧ due < word64
deriving Decidable

structure TimerObject.Armed (now : Nat) (t : TimerObject γ) : Prop where
  ms_le : t.ms ≤ t.next
  next_le : t.next ≤ now + t.ms
  dueSoon : DueSoon now t.next

def Armed (now : Nat) (m : TimerManager γ) : Prop := ∀ a ∈ m.timers, (m.object a).Armed now

/-- The clock values that operations read are not in the future, those read under
the lock are current, and the timers they arm are due soon. -/
def Op.Timely (now : Nat) (m : TimerManager γ) : Op γ → Prop
  | .addTimer _ clock ms _ _ | .addConditionTimer _ clock ms _ _ _ =>
    clock ≤ now ∧ DueSoon now (clock + ms)
  | .refresh a clock => clock = now ∧ DueSoon now (now + (m.object a).ms)
  | .reset a ms fromNow clock =>
    clock = now ∧ DueSoon now ((if fromNow then now else (m.object a).next - (m.object a).ms) + ms)
  | _ => True

instance (now : Nat) (m : TimerManager γ) (op : Op γ) : Decidable (op.Timely now m) := by
  cases op <;> dsimp only [Op.Timely] <;> infer_instance

lemma TimerObject.armed_of_start {start : Nat} {t : TimerObject γ} (hstart : start ≤ now)
    (hdue : DueSoon now (start + t.ms)) (hnext : t.next = add64 start t.ms) : t.Armed now := by
  rw [add64_eq hdue.2] at hnext
  exact ⟨by omega, by omega, hnext ▸ hdue⟩

lemma Armed.mono {now' : Nat} (h : Armed now m) (hle : now ≤ now') : Armed now' m := by
  intro a ha
  obtain ⟨hms, hnext, hsoon, hword⟩ := h a ha
  exact ⟨hms, by omega, by omega, hword⟩

/-! ## The effect of one operation -/

/-- What an operation does to the due times and to `m_tickled`. -/
structure Rearms (now : Nat) (m m' : TimerManager γ) (atFront : Bool) : Prop where
  armed : Armed now m'
  tickled : m'.tickled = (m.tickled || atFront)
  /-- Unless a timer went to the front, no due time is earlier than before. -/
  later : atFront = false → m.tickled = false →
    ∀ a ∈ m'.timers, ∃ b ∈ m.timers, (m.object b).next ≤ (m'.object a).next

lemma Rearms.of_subset (h : Armed now m) (htickled : m'.tickled = m.tickled)
    (hsub : ∀ a ∈ m'.timers, a ∈ m.timers ∧ (m'.object a).ms = (m.object a).ms ∧
      (m'.object a).next = (m.object a).next) : Rearms now m m' false := by
  refine ⟨fun a ha => ?_, by simp [htickled], fun _ _ a ha => ?_⟩
  · obtain ⟨hmem, hms, hnext⟩ := hsub a ha
    obtain ⟨hms', hnext', hsoon⟩ := h a hmem
    exact ⟨by omega, by omega, hnext ▸ hsoon⟩
  · obtain ⟨hmem, -, hnext⟩ := hsub a ha
    exact ⟨a, hmem, hnext.ge⟩

lemma addTimerLocked_front (m : TimerManager γ) (a : Addr)
    (hfront : (m.addTimerLocked a).2 = false) (htickled : m.tickled = false) :
    ∃ b ∈ m.timers, (m.object b).next ≤ (m.object a).next := by
  simp only [addTimerLocked, htickled, Bool.not_false, Bool.and_true, beq_eq_false_iff_ne] at hfront
  cases htimers : m.timers with
  | nil => simp [htimers, OrderedSet.lowerBound] at hfront
  | cons b rest =>
    refine ⟨b, List.mem_cons_self, ?_⟩
    have hbefore : m.before b a = true := by
      by_contra hnot
      simp [htimers, OrderedSet.lowerBound, hnot] at hfront
    have := (m.before_iff b a).mp hbefore
    omega

lemma mem_insertTimer {x : Addr} (hx : x ∈ (m.insertTimer a).timers) :
    x = a ∨ x ∈ m.timers := (OrderedSet.mem_insert m.before_strictTotal).mp hx

/-- Pending timers of `m₁` are pending in `m` with the same due time. -/
def Keeps (m m₁ : TimerManager γ) : Prop := ∀ b ∈ m₁.timers, b ∈ m.timers ∧ m₁.object b = m.object b

lemma Keeps.armed_insert (hkeep : Keeps m m₁)
    (h : Armed now m) (ha : (m₁.object a).Armed now) : Armed now (m₁.insertTimer a) := by
  intro x hx
  rcases mem_insertTimer hx with rfl | hx
  · exact ha
  · obtain ⟨hx, hobj⟩ := hkeep x hx
    exact (congrArg (TimerObject.Armed now) hobj).mpr (h x hx)

lemma Keeps.later_insert (hkeep : Keeps m m₁)
    (ha : ∃ b ∈ m.timers, (m.object b).next ≤ (m₁.object a).next) :
    ∀ x ∈ (m₁.insertTimer a).timers, ∃ b ∈ m.timers,
      (m.object b).next ≤ ((m₁.insertTimer a).object x).next := by
  intro x hx
  rcases mem_insertTimer hx with rfl | hx
  · exact ha
  · obtain ⟨hx, hobj⟩ := hkeep x hx
    exact ⟨x, hx, (congrArg TimerObject.next hobj).ge⟩

lemma Keeps.rearms (hkeep : Keeps m m₁) (htickled : m₁.tickled = m.tickled) (h : Armed now m)
    (ha : (m₁.object a).Armed now) :
    Rearms now m (m₁.addTimerLocked a).1 (m₁.addTimerLocked a).2 := by
  refine ⟨hkeep.armed_insert h ha, ?_, fun hfront hnot => hkeep.later_insert ?_⟩
  · simp [addTimerLocked, htickled]
  obtain ⟨b, hb, hle⟩ := addTimerLocked_front m₁ a hfront (htickled.trans hnot)
  obtain ⟨hb, hobj⟩ := hkeep b hb
  exact ⟨b, hb, hobj ▸ hle⟩

lemma eraseTimer_some {it : Nat} (h : m.eraseTimer it = some m') :
    (∀ b ∈ m'.timers, b ∈ m.timers) ∧ m'.object = m.object ∧ m'.tickled = m.tickled := by
  simp only [eraseTimer, OrderedSet.erase] at h
  split at h
  · obtain rfl := Option.some.inj h
    exact ⟨fun b hb => List.mem_of_mem_eraseIdx hb, rfl, rfl⟩
  · contradiction

lemma TimerManager.Inv.mem_of_cb (h : m.Inv)
    (ha : m.live a = true) (hcb : ¬ (m.object a).cb.isNone = true) : a ∈ m.timers := by
  simpa using (h.mem_iff a ha).mpr (by simpa using hcb)

lemma keeps_erase (h : m.Inv) (ha : a ∈ m.timers)
    (herase : m.eraseTimer (m.findTimer a) = some m') (t : TimerObject γ) :
    Keeps m (m'.setObject a t) := by
  obtain ⟨m'', herase', hout, hobj, -⟩ := h.eraseTimer_find ha
  obtain rfl : m' = m'' := Option.some.inj (herase.symm.trans herase')
  intro b hb
  have hba : b ≠ a := by
    rintro rfl
    exact hout.out_not_mem b (by simp) hb
  refine ⟨(eraseTimer_some herase).1 b hb, ?_⟩
  simp [setObject, hba, hobj]

lemma rearms_addTimer {ms : Nat}
    (h : m.Inv) (harmed : Armed now m) (ha : m.live a = false) (hclock : clock ≤ now)
    (hdue : DueSoon now (clock + ms)) (cb : Option (Callback γ)) (recurring : Bool) :
    Rearms now m (m.addTimer a clock ms cb recurring).1 (m.addTimer a clock ms cb recurring).2 := by
  have hkeep : Keeps m (m.allocate a ⟨ms, cb, recurring, add64 clock ms⟩) := by
    refine fun b hb => ⟨hb, update_of_ne ?_ _ _⟩
    rintro rfl
    simp [h.live_of_mem b hb] at ha
  refine hkeep.rearms rfl harmed ?_
  simp only [allocate, setObject, update_self]
  exact TimerObject.armed_of_start hclock hdue rfl

lemma rearms_cancel (harmed : Armed now m)
    (hcall : m.cancel a = some r) : Rearms now m r.1 false := by
  simp only [cancel] at hcall
  split at hcall
  · obtain ⟨m', herase, rfl⟩ := Option.map_eq_some_iff.mp hcall
    obtain ⟨hsub, hobj, htickled⟩ := eraseTimer_some herase
    refine Rearms.of_subset harmed htickled fun b hb => ⟨hsub b hb, ?_⟩
    by_cases hba : b = a <;> simp [hobj, setObject, hba]
  · obtain rfl := Option.some.inj hcall
    exact Rearms.of_subset harmed rfl fun b hb => ⟨hb, rfl, rfl⟩

lemma rearms_refresh (h : m.Inv)
    (harmed : Armed now m) (ha : m.live a = true) (hdue : DueSoon now (now + (m.object a).ms))
    (hcall : m.refresh a now = some r) : Rearms now m r.1 false := by
  have hsame : Rearms now m m false := Rearms.of_subset harmed rfl fun b hb => ⟨hb, rfl, rfl⟩
  simp only [refresh] at hcall
  split_ifs at hcall with hcb hend
  · exact Option.some.inj hcall ▸ hsame
  · exact Option.some.inj hcall ▸ hsame
  obtain ⟨m', herase, rfl⟩ := Option.map_eq_some_iff.mp hcall
  obtain ⟨-, hobj, htickled⟩ := eraseTimer_some herase
  have hmem : a ∈ m.timers := h.mem_of_cb ha hcb
  have hkeep := keeps_erase h hmem herase { m'.object a with next := add64 now (m'.object a).ms }
  refine ⟨hkeep.armed_insert harmed ?_, by simp [insertTimer, setObject, htickled],
    fun _ _ => hkeep.later_insert ⟨a, hmem, ?_⟩⟩
  · simp only [setObject, update_self]
    exact TimerObject.armed_of_start le_rfl (hobj ▸ hdue) rfl
  -- the timer starts now, and before it did not start later
  simp only [setObject, update_self, hobj, add64_eq hdue.2]
  exact (harmed a hmem).next_le

lemma rearms_reset {ms : Nat} {fromNow : Bool} (h : m.Inv)
    (harmed : Armed now m) (ha : m.live a = true)
    (hdue : DueSoon now ((if fromNow then now else (m.object a).next - (m.object a).ms) + ms))
    {r : ResetResult γ} (hcall : m.reset a ms fromNow now = some r) :
    Rearms now m r.manager r.atFront := by
  have hsame : Rearms now m m false := Rearms.of_subset harmed rfl fun b hb => ⟨hb, rfl, rfl⟩
  rw [reset] at hcall
  split at hcall
  · exact Option.some.inj hcall ▸ hsame
  split at hcall
  · exact Option.some.inj hcall ▸ hsame
  rename_i hcb
  dsimp only at hcall
  split at hcall
  · exact Option.some.inj hcall ▸ hsame
  obtain ⟨m', herase, rfl⟩ := Option.map_eq_some_iff.mp hcall
  obtain ⟨-, hobj, htickled⟩ := eraseTimer_some herase
  have hmem : a ∈ m.timers := h.mem_of_cb ha hcb
  have hself := harmed a hmem
  refine (keeps_erase h hmem herase _).rearms htickled harmed ?_
  simp only [setObject, update_self, hobj, sub64_eq hself.dueSoon.2 hself.ms_le]
  refine TimerObject.armed_of_start ?_ hdue rfl
  split
  · exact le_rfl
  · have := hself.next_le
    omega

/-- What an operation does to due times and to the flag `m_tickled`. -/
theorem Op.call_spec (h : m.Inv)
    (hop : op.Allowed m) (harmed : Armed now m) (htimely : op.Timely now m)
    (hcall : op.call m = some r) : Rearms now m r.1 r.2 := by
  cases op with
  | addTimer | addConditionTimer =>
    obtain rfl := Option.some.inj hcall
    exact rearms_addTimer h harmed hop htimely.1 htimely.2 _ _
  | cancel a =>
    obtain ⟨r', hr, rfl⟩ := Option.map_eq_some_iff.mp hcall
    exact rearms_cancel (r := r') harmed hr
  | refresh a clock =>
    obtain ⟨r', hr, rfl⟩ := Option.map_eq_some_iff.mp hcall
    obtain ⟨rfl, hdue⟩ := htimely
    exact rearms_refresh (r := r') h harmed hop hdue hr
  | reset a ms fromNow clock =>
    obtain ⟨r', hr, rfl⟩ := Option.map_eq_some_iff.mp hcall
    obtain ⟨rfl, hdue⟩ := htimely
    exact rearms_reset h harmed hop hdue hr
  | release a =>
    obtain rfl := Option.some.inj hcall
    exact Rearms.of_subset harmed rfl fun b hb => ⟨hb, rfl, rfl⟩
  | getNextTimer | listExpiredCb => simp [Op.call] at hcall

lemma Armed.expireOne {out : List Addr}
    (hout : m.InvOut (a :: out)) (harmed : Armed now m) (hclock : clock ≤ now)
    (hdue : (m.object a).recurring = true → DueSoon now (clock + (m.object a).ms))
    (cbs : List (Option (Callback γ))) :
    Armed now (TimerManager.expireOne clock (m, cbs) a).1 ∧
      ∀ x ≠ a, (TimerManager.expireOne clock (m, cbs) a).1.object x = m.object x := by
  have hother (t : TimerObject γ) : Keeps m (m.setObject a t) := by
    refine fun b hb => ⟨hb, update_of_ne ?_ _ _⟩
    rintro rfl
    exact hout.out_not_mem b (by simp) hb
  simp only [TimerManager.expireOne]
  split
  · rename_i hrec
    refine ⟨(hother _).armed_insert harmed ?_, fun x hx => update_of_ne hx _ _⟩
    simp only [setObject, update_self]
    exact TimerObject.armed_of_start hclock (hdue hrec) rfl
  refine ⟨fun x hx => ?_, fun x hx => update_of_ne hx _ _⟩
  obtain ⟨hmem, hobj⟩ := hother _ x hx
  exact (congrArg (TimerObject.Armed now) hobj).mpr (harmed x hmem)

lemma Armed.expireAll (hclock : clock ≤ now) (out : List Addr)
    (acc : TimerManager γ × List (Option (Callback γ))) (hout : acc.1.InvOut out)
    (harmed : Armed now acc.1)
    (hdue : ∀ a ∈ out, (acc.1.object a).recurring = true →
      DueSoon now (clock + (acc.1.object a).ms)) :
    Armed now (out.foldl (TimerManager.expireOne clock) acc).1 := by
  induction out generalizing acc with
  | nil => exact harmed
  | cons a out ih =>
    obtain ⟨harmed', hobj⟩ := harmed.expireOne hout hclock (hdue a (by simp)) acc.2
    refine ih _ (hout.expireOne clock acc.2) harmed' fun x hx => ?_
    have hxa : x ≠ a := by
      rintro rfl
      exact (List.nodup_cons.mp hout.out_nodup).1 hx
    rw [hobj x hxa]
    exact hdue x (by simp [hx])

/-- Expiry keeps the bounds on due times. -/
theorem Armed.listExpiredCb (h : m.Inv) (harmed : Armed now m) (hclock : clock ≤ now)
    (hdue : ∀ a ∈ m.timers, (m.object a).recurring = true → DueSoon now (clock + (m.object a).ms))
    (probe : Addr) : Armed now (m.listExpiredCb clock probe).1 := by
  have hroll : (m.detectClockRollover clock).1.Inv :=
    ⟨h.live_of_mem, h.live_of_out, h.out_not_mem, h.out_nodup, h.mem_iff, h.sorted⟩
  simp only [TimerManager.listExpiredCb]
  split
  · exact harmed
  split
  · exact harmed
  refine Armed.expireAll hclock _ _ (InvOut.detachPrefix hroll _) ?_ fun a ha => ?_
  · exact fun a ha => harmed a (List.mem_of_mem_drop ha)
  · exact hdue a (List.mem_of_mem_take ha)

end Yuyu.Timer
