import Yuyu.Timer.SetInvariant
import Mathlib.Data.List.TakeWhile

/-!
# The timers that expire

The manager finds the expired timers with a probe object: it takes the lower bound of `(now,
address of the probe)` and then skips the timers due exactly now.
-/

namespace Yuyu.Timer

open Foundation List

universe u

variable {γ : Type u}

namespace TimerManager

/-- The timers due at `now`, in the order of the set.  All are due when the
clock was rolled back. -/
def due (m : TimerManager γ) (now : Nat) : List Addr :=
  m.timers.filter fun a =>
    (m.detectClockRollover now).2 || decide ((m.object a).next ≤ now)

/-- A timer after it has expired: a recurring one is due again one period from
now, a one-shot one has lost its callback. -/
def renew (now : Nat) (t : TimerObject γ) : TimerObject γ :=
  if t.recurring then { t with next := add64 now t.ms } else { t with cb := none }

variable {m : TimerManager γ} {now : Nat} {probe : Addr}

lemma next_le_of_sorted {l : List Addr} (h : OrderedSet.Sorted m.before l) :
    l.Pairwise fun a b => (m.object a).next ≤ (m.object b).next := by
  refine List.Pairwise.imp ?_ h
  intro a b hab
  rw [before_iff] at hab
  omega

lemma before_probe_iff {a probe : Nat} (ha : a ≠ probe) :
    (m.setObject probe { next := now }).before a probe = true ↔
      (m.object a).next < now ∨ (m.object a).next = now ∧ a < probe := by
  rw [before_iff]
  simp [setObject, ha]

lemma le_next_of_mem_dropWhile
    (hsorted : OrderedSet.Sorted m.before m.timers) (hprobe : probe ∉ m.timers) :
    ∀ a ∈ m.timers.dropWhile (fun y => (m.setObject probe { next := now }).before y probe),
      now ≤ (m.object a).next := by
  have hne : ∀ a ∈ m.timers, a ≠ probe := fun a ha heq => hprobe (heq ▸ ha)
  intro a ha
  have hmem : a ∈ m.timers := (dropWhile_sublist _).subset ha
  have hfalse := OrderedSet.eq_false_of_mem_dropWhile ?_ a ha
  · rw [← Bool.not_eq_true, before_probe_iff (hne a hmem)] at hfalse
    omega
  refine List.Pairwise.imp_of_mem ?_ hsorted
  intro (x : Nat) (y : Nat) hx hy hxy hearly
  rw [before_iff] at hxy
  rw [before_probe_iff (hne y hy)] at hearly
  rw [before_probe_iff (hne x hx)]
  omega

lemma lt_next_of_mem_dropWhile {late : List Addr}
    (hle : late.Pairwise fun a b => (m.object a).next ≤ (m.object b).next)
    (hlate : ∀ a ∈ late, now ≤ (m.object a).next) :
    ∀ a ∈ late.dropWhile (fun a => (m.object a).next == now), now < (m.object a).next := by
  intro a ha
  have hge := hlate a ((dropWhile_sublist _).subset ha)
  have hfalse := OrderedSet.eq_false_of_mem_dropWhile ?_ a ha
  · simp only [beq_eq_false_iff_ne] at hfalse
    omega
  refine List.Pairwise.imp_of_mem ?_ hle
  intro x y hx hy hxy heq
  have hx' := hlate x hx
  simp only [beq_iff_eq] at heq ⊢
  omega

lemma take_expiredEnd (hsorted : OrderedSet.Sorted m.before m.timers)
    (hprobe : probe ∉ m.timers) (now : Nat) :
    m.timers.take (m.expiredEnd now probe false) =
      m.timers.filter fun a => decide ((m.object a).next ≤ now) := by
  set early : Addr → Bool := fun y => (m.setObject probe { next := now }).before y probe
  set onTime : Addr → Bool := fun a => (m.object a).next == now
  have hlate : ∀ a ∈ m.timers.dropWhile early, now ≤ (m.object a).next :=
    le_next_of_mem_dropWhile hsorted hprobe
  have hrest : ∀ a ∈ (m.timers.dropWhile early).dropWhile onTime, now < (m.object a).next :=
    lt_next_of_mem_dropWhile ((next_le_of_sorted hsorted).sublist (dropWhile_sublist early)) hlate
  have hfront : ∀ a ∈ m.timers.takeWhile early ++ (m.timers.dropWhile early).takeWhile onTime,
      (m.object a).next ≤ now := by
    intro a ha
    rcases mem_append.mp ha with ha | ha
    · have hbefore := mem_takeWhile_imp ha
      have hne : a ≠ probe := fun heq => hprobe (heq ▸ (takeWhile_sublist early).subset ha)
      rw [before_probe_iff hne] at hbefore
      omega
    have heq := mem_takeWhile_imp ha
    simp only [onTime, beq_iff_eq] at heq
    omega
  have htimers : m.timers.takeWhile early ++ m.timers.dropWhile early = m.timers :=
    takeWhile_append_dropWhile
  have hdrop : m.timers.drop (m.timers.takeWhile early).length = m.timers.dropWhile early := by
    conv_lhs =>
      arg 2
      rw [← htimers]
    exact drop_left
  have hend : m.expiredEnd now probe false =
      (m.timers.takeWhile early ++ (m.timers.dropWhile early).takeWhile onTime).length := by
    rw [length_append, ← hdrop]
    rfl
  have hsplit : m.timers =
      m.timers.takeWhile early ++ (m.timers.dropWhile early).takeWhile onTime ++
        (m.timers.dropWhile early).dropWhile onTime := by
    rw [append_assoc, takeWhile_append_dropWhile, htimers]
  rw [hend]
  generalize m.timers.takeWhile early ++ (m.timers.dropWhile early).takeWhile onTime = front at *
  rw [hsplit, take_left, filter_append, filter_eq_self.mpr (by simpa using hfront),
    filter_eq_nil_iff.mpr (by simpa using hrest), append_nil]

/-- What the loop over the timers `out` has done to a manager `m`. -/
structure Renewed (m : TimerManager γ) (now : Nat) (out : List Addr)
    (m' : TimerManager γ) : Prop where
  sorted : OrderedSet.Sorted m'.before m'.timers
  mem_iff : ∀ a, a ∈ m'.timers ↔
    a ∈ m.timers ∨ a ∈ out ∧ (m.object a).recurring = true
  object : ∀ a, m'.object a = if a ∈ out then renew now (m.object a) else m.object a

lemma expireOne_renewed (hsorted : OrderedSet.Sorted m.before m.timers)
    {a : Addr} (ha : a ∉ m.timers) (now : Nat) (cbs : List (Option (Callback γ))) :
    (expireOne now (m, cbs) a).2 = cbs ++ [(m.object a).cb] ∧
      Renewed m now [a] (expireOne now (m, cbs) a).1 := by
  have hobject : ∀ x, (m.setObject a (renew now (m.object a))).object x =
      if x ∈ [a] then renew now (m.object x) else m.object x := by
    intro x
    by_cases hx : x = a <;> simp [setObject, hx]
  have hset : OrderedSet.Sorted (m.setObject a (renew now (m.object a))).before m.timers :=
    sorted_setObject ha hsorted
  by_cases hrec : (m.object a).recurring = true
  · have hround : expireOne now (m, cbs) a =
        ((m.setObject a (renew now (m.object a))).insertTimer a, cbs ++ [(m.object a).cb]) := by
      simp only [expireOne, renew, if_pos hrec]
    rw [hround]
    refine ⟨rfl, OrderedSet.insert_pairwise (before_strictTotal _) hset, ?_, hobject⟩
    intro x
    refine (OrderedSet.mem_insert (before_strictTotal _)).trans ?_
    rw [mem_singleton]
    constructor
    · rintro (rfl | hx)
      · exact Or.inr ⟨rfl, hrec⟩
      · exact Or.inl hx
    rintro (hx | ⟨hx, -⟩)
    · exact Or.inr hx
    · exact Or.inl hx
  have hround : expireOne now (m, cbs) a =
      (m.setObject a (renew now (m.object a)), cbs ++ [(m.object a).cb]) := by
    simp only [expireOne, renew, if_neg hrec]
  rw [hround]
  refine ⟨rfl, hset, ?_, hobject⟩
  intro x
  constructor
  · exact Or.inl
  rintro (hx | ⟨hx, hx'⟩)
  · exact hx
  · exact absurd (mem_singleton.mp hx ▸ hx') hrec

lemma expireAll_renewed (hsorted : OrderedSet.Sorted m.before m.timers)
    {out : List Addr} (hnodup : out.Nodup) (hout : ∀ a ∈ out, a ∉ m.timers) (now : Nat)
    (cbs : List (Option (Callback γ))) :
    (out.foldl (expireOne now) (m, cbs)).2 = cbs ++ out.map (fun a => (m.object a).cb) ∧
      Renewed m now out (out.foldl (expireOne now) (m, cbs)).1 := by
  induction out generalizing m cbs with
  | nil => exact ⟨by simp, hsorted, by simp, by simp⟩
  | cons a out ih =>
    obtain ⟨hfresh, hnodup⟩ := nodup_cons.mp hnodup
    obtain ⟨hcbs, hone⟩ := expireOne_renewed hsorted (hout a (by simp)) now cbs
    rw [foldl_cons]
    generalize hacc : expireOne now (m, cbs) a = acc at hcbs hone
    obtain ⟨m', cbs'⟩ := acc
    simp only at hcbs hone
    -- the timers still to come are neither written nor inserted by this round
    have hkeep : ∀ x ∈ out, m'.object x = m.object x ∧ x ∉ m'.timers := by
      intro x hx
      have hxa : x ≠ a := fun heq => hfresh (heq ▸ hx)
      refine ⟨by simpa [hxa] using hone.object x, fun hin => ?_⟩
      rcases (hone.mem_iff x).mp hin with hin | ⟨hin, -⟩
      · exact hout x (by simp [hx]) hin
      · exact hxa (mem_singleton.mp hin)
    obtain ⟨hcbs', hall⟩ := ih hone.sorted hnodup (fun x hx => (hkeep x hx).2) cbs'
    refine ⟨?_, hall.sorted, ?_, ?_⟩
    · rw [hcbs', hcbs, map_cons, append_assoc, singleton_append]
      rw [map_congr_left fun x hx => congrArg TimerObject.cb (hkeep x hx).1]
    · intro x
      rw [hall.mem_iff x, hone.mem_iff x, mem_singleton, mem_cons]
      constructor
      · rintro ((hx | ⟨hx, hrec⟩) | ⟨hx, hrec⟩)
        · exact Or.inl hx
        · exact Or.inr ⟨Or.inl hx, hrec⟩
        · exact Or.inr ⟨Or.inr hx, (hkeep x hx).1 ▸ hrec⟩
      rintro (hx | ⟨hx | hx, hrec⟩)
      · exact Or.inl (Or.inl hx)
      · exact Or.inl (Or.inr ⟨hx, hrec⟩)
      · exact Or.inr ⟨hx, (hkeep x hx).1.symm ▸ hrec⟩
    intro x
    rw [hall.object x]
    by_cases hx : x ∈ out
    · simp [hx, (hkeep x hx).1]
    · simpa [hx] using hone.object x

/-! ## The whole call -/

lemma take_expiredEnd_eq_due
    (hsorted : OrderedSet.Sorted m.before m.timers) (hprobe : probe ∉ m.timers) (now : Nat) :
    m.timers.take (m.expiredEnd now probe (m.detectClockRollover now).2) = m.due now := by
  cases hroll : (m.detectClockRollover now).2 with
  | false => simpa [due, hroll] using take_expiredEnd hsorted hprobe now
  | true => simp [due, hroll, expiredEnd]

lemma listExpiredCb_renewed
    (hsorted : OrderedSet.Sorted m.before m.timers) (hprobe : probe ∉ m.timers) (now : Nat) :
    (m.listExpiredCb now probe).2 = (m.due now).map (fun a => (m.object a).cb) ∧
      ∃ rest, (∀ a, a ∈ rest ↔ a ∈ m.timers ∧ a ∉ m.due now) ∧
        Renewed { m with timers := rest } now (m.due now) (m.listExpiredCb now probe).1 := by
  cases htimers : m.timers with
  | nil =>
    have hdue : m.due now = [] := by simp [due, htimers]
    have hcall : m.listExpiredCb now probe = (m, []) := by simp [listExpiredCb, htimers]
    rw [hcall, hdue]
    exact ⟨rfl, [], by simp, by simpa using hsorted, by simp [htimers], by simp⟩
  | cons first others =>
    by_cases hwait : (!(m.detectClockRollover now).2 && decide ((m.object first).next > now)) = true
    · have hcall : m.listExpiredCb now probe = ((m.detectClockRollover now).1, []) := by
        simp only [listExpiredCb, htimers, if_pos hwait]
      have hdue : m.due now = [] := by
        simp only [Bool.and_eq_true, Bool.not_eq_true', decide_eq_true_eq] at hwait
        have hle := next_le_of_sorted hsorted
        rw [htimers, pairwise_cons] at hle
        rw [due, filter_eq_nil_iff, htimers]
        intro a ha
        simp only [hwait.1, Bool.false_or, decide_eq_true_eq]
        rcases mem_cons.mp ha with rfl | ha
        · omega
        · have := hle.1 a ha
          omega
      rw [hcall, hdue, ← htimers]
      exact ⟨rfl, m.timers, by simp, hsorted, by simp [detectClockRollover], by
        simp [detectClockRollover]⟩
    have hcall : m.listExpiredCb now probe = (m.due now).foldl (expireOne now)
        ({ (m.detectClockRollover now).1 with
          timers := m.timers.drop (m.expiredEnd now probe (m.detectClockRollover now).2) },
          []) := by
      rw [← take_expiredEnd_eq_due hsorted hprobe now]
      simp only [listExpiredCb, htimers, if_neg hwait]
      rw [← htimers]
      rfl
    have hsplit := take_append_drop (m.expiredEnd now probe (m.detectClockRollover now).2) m.timers
    rw [take_expiredEnd_eq_due hsorted hprobe now] at hsplit
    generalize m.timers.drop (m.expiredEnd now probe (m.detectClockRollover now).2) = rest
      at hcall hsplit
    have hnodup : (m.due now ++ rest).Nodup := hsplit.symm ▸ hsorted.nodup m.before_strictTotal
    obtain ⟨hdueNodup, -, hdisjoint⟩ := nodup_append.mp hnodup
    have hrest : OrderedSet.Sorted m.before rest :=
      List.Pairwise.sublist (hsplit ▸ sublist_append_right _ _) hsorted
    obtain ⟨hcbs, hall⟩ := expireAll_renewed
      (m := { (m.detectClockRollover now).1 with timers := rest }) hrest hdueNodup
      (fun a ha hin => hdisjoint a ha a hin rfl) now []
    rw [hcall]
    refine ⟨hcbs, rest, ?_, hall.sorted, hall.mem_iff, hall.object⟩
    intro a
    rw [← htimers, ← hsplit, mem_append]
    constructor
    · intro ha
      exact ⟨Or.inr ha, fun hin => hdisjoint a hin a ha rfl⟩
    rintro ⟨ha | ha, hnot⟩
    · exact absurd ha hnot
    · exact ha

end TimerManager

open TimerManager in
/-- The callbacks of the timers due, all on a rollover, are appended in order, each once; recurring
timers are then due one period from now. -/
theorem listExpiredCb_exact {m : TimerManager γ}
    (hsorted : OrderedSet.Sorted m.before m.timers) {probe : Addr} (hprobe : probe ∉ m.timers)
    (now : Nat) :
    (∀ a, a ∈ m.due now ↔
        a ∈ m.timers ∧ ((m.detectClockRollover now).2 = true ∨ (m.object a).next ≤ now)) ∧
      (m.due now).Nodup ∧
      ((m.due now).Pairwise fun a b => (m.object a).next ≤ (m.object b).next) ∧
      (m.listExpiredCb now probe).2 = (m.due now).map (fun a => (m.object a).cb) ∧
      OrderedSet.Sorted (m.listExpiredCb now probe).1.before
        (m.listExpiredCb now probe).1.timers ∧
      (∀ a ∈ m.due now, (m.object a).recurring = false →
        a ∉ (m.listExpiredCb now probe).1.timers ∧
          (m.listExpiredCb now probe).1.object a = { m.object a with cb := none }) ∧
      (∀ a ∈ m.due now, (m.object a).recurring = true →
        a ∈ (m.listExpiredCb now probe).1.timers ∧
          (m.listExpiredCb now probe).1.object a =
            { m.object a with next := add64 now (m.object a).ms }) ∧
      ∀ a ∉ m.due now,
        (a ∈ (m.listExpiredCb now probe).1.timers ↔ a ∈ m.timers) ∧
          (m.listExpiredCb now probe).1.object a = m.object a := by
  obtain ⟨hcbs, rest, hrest, hall⟩ := listExpiredCb_renewed hsorted hprobe now
  have hsub : (m.due now).Sublist m.timers := filter_sublist
  refine ⟨fun a => by simp [due], hsub.nodup (hsorted.nodup m.before_strictTotal),
    (next_le_of_sorted hsorted).sublist hsub, hcbs, hall.sorted, ?_, ?_, ?_⟩
  · intro a ha hrec
    refine ⟨fun hin => ?_, ?_⟩
    · rcases (hall.mem_iff a).mp hin with hin | ⟨-, hrec'⟩
      · exact ((hrest a).mp hin).2 ha
      · exact absurd hrec' (by simp [hrec])
    · rw [hall.object a, if_pos ha, renew, if_neg (by simp [hrec])]
  · intro a ha hrec
    refine ⟨(hall.mem_iff a).mpr (Or.inr ⟨ha, hrec⟩), ?_⟩
    rw [hall.object a, if_pos ha, renew, if_pos hrec]
  intro a ha
  refine ⟨?_, by rw [hall.object a, if_neg ha]⟩
  rw [hall.mem_iff a, hrest a]
  simp [ha]

def dueNow : TimerManager Nat where
  timers := [3, 7, 9, 4]
  object := fun a =>
    { ms := 50, cb := some (.user a), recurring := a == 7, next := if a = 4 then 120 else 100 }
  live := fun a => decide (a ∈ [3, 7, 9, 4])
  tickled := false
  previousTime := 90

theorem listExpiredCb_exact_dueNow :
    (dueNow.listExpiredCb 100 5).2 = [some (.user 3), some (.user 7), some (.user 9)] ∧
      (dueNow.listExpiredCb 100 5).1.timers = [4, 7] :=
  ⟨(listExpiredCb_exact (by unfold OrderedSet.Sorted; decide)
    (show 5 ∉ dueNow.timers by decide) 100).2.2.2.1, rfl⟩

end Yuyu.Timer
