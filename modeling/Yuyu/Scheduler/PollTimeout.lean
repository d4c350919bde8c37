import Yuyu.Scheduler.TimerWakeup

/-!
# The timeout of epoll_wait

`IOManager::idle` passes the delay until the earliest timer, a 64-bit word, to `epoll_wait` as an
`int`, which can be negative. After an interrupted wait the timeout is computed once more, from the
value it already has and not from the clock.
-/

namespace Yuyu.Scheduler

open Foundation State
open Timer (TimerManager)

variable {γ : Type}

def stoppingTimeout (m : TimerManager γ) (now pendingEventCount : Nat) (stopping : Bool) :
    Nat × Bool :=
  let timeout := (m.getNextTimer now).2
  (timeout, decide (timeout = word64 - 1) && pendingEventCount == 0 && stopping)

def limitTimeout (nextTimeout : Nat) : Nat :=
  if nextTimeout ≠ word64 - 1 then
    if toInt32 nextTimeout > 5000 then 5000 else nextTimeout
  else 5000

/-- The calls of `epoll_wait` in the inner loop of `idle`, each with its clock value and timeout:
one at `clock`, and one more for each interrupted call. -/
def pollLoop : List Nat → Nat → Nat → List (Nat × Int)
  | [], clock, nextTimeout => [(clock, toInt32 (limitTimeout nextTimeout))]
  | retry :: retries, clock, nextTimeout =>
    (clock, toInt32 (limitTimeout nextTimeout)) ::
      pollLoop retries retry (limitTimeout nextTimeout)

/-- The calls of `epoll_wait` in one round of `idle` that begins at `now`, with the clock values at
which it is called again after an interruption. -/
def idleTimeouts (m : TimerManager γ) (now pendingEventCount : Nat) (stopping : Bool)
    (retries : List Nat) : List (Nat × Int) :=
  let r := stoppingTimeout m now pendingEventCount stopping
  if r.2 then [] else pollLoop retries now r.1

lemma limitTimeout_idem (t : Nat) : limitTimeout (limitTimeout t) = limitTimeout t := by
  have hmax : limitTimeout 5000 = 5000 := by decide
  by_cases hnone : t = word64 - 1
  · have ht : limitTimeout t = 5000 := by rw [limitTimeout, if_neg (not_not.mpr hnone)]
    rw [ht, hmax]
  by_cases hbig : toInt32 t > 5000
  · have ht : limitTimeout t = 5000 := by rw [limitTimeout, if_pos hnone, if_pos hbig]
    rw [ht, hmax]
  · have ht : limitTimeout t = t := by rw [limitTimeout, if_pos hnone, if_neg hbig]
    rw [ht, ht]

lemma toInt32_limitTimeout (t : Nat) : toInt32 (limitTimeout t) = pollTimeout t := by
  have hmax : toInt32 5000 = 5000 := by decide
  rw [limitTimeout, pollTimeout]
  split
  · split
    · exact hmax
    · rfl
  · exact hmax

/-- All calls get the timeout of the first. -/
lemma pollLoop_eq (retries : List Nat) (clock t : Nat) :
    pollLoop retries clock t = (clock :: retries).map fun c => (c, pollTimeout t) := by
  induction retries generalizing clock t with
  | nil => rw [pollLoop, toInt32_limitTimeout, List.map_singleton]
  | cons retry retries ih =>
    have hagain : pollTimeout (limitTimeout t) = pollTimeout t := by
      rw [← toInt32_limitTimeout, limitTimeout_idem, toInt32_limitTimeout]
    rw [pollLoop, ih, hagain, toInt32_limitTimeout]
    rfl

lemma pollTimeout_bounds_iff (t : Nat) :
    (0 ≤ pollTimeout t ∧ pollTimeout t ≤ 5000) ↔ t = word64 - 1 ∨ t % 2 ^ 32 < 2 ^ 31 := by
  rw [← toInt32_nonneg_iff, pollTimeout]
  by_cases hnone : t = word64 - 1
  · simp [hnone]
  rw [if_pos hnone, or_iff_right hnone]
  split
  · constructor <;> omega
  · constructor <;> omega

/-- The timeout in terms of the delay, if bit 31 is clear or there is no timer. -/
lemma pollTimeout_eq_min {t : Nat} (h : t = word64 - 1 ∨ t % 2 ^ 32 < 2 ^ 31) :
    pollTimeout t = (min (t % 2 ^ 32) 5000 : Nat) := by
  rw [pollTimeout]
  rcases h with rfl | hclear
  · rfl
  by_cases hnone : t = word64 - 1
  · rw [hnone]
    rfl
  have ht : toInt32 t = (t % 2 ^ 32 : Nat) := by
    rw [toInt32]
    exact if_pos hclear
  rw [if_pos hnone, ht]
  split <;> omega

/-- The delay is the time until the earliest timer. -/
lemma exists_earliest {m : TimerManager γ} (hinv : m.Inv)
    (hword : ∀ a ∈ m.timers, (m.object a).next < word64) (hne : m.timers ≠ []) (now : Nat) :
    ∃ a ∈ m.timers, (∀ b ∈ m.timers, (m.object a).next ≤ (m.object b).next) ∧
      (m.getNextTimer now).2 = (m.object a).next - now := by
  cases htimers : m.timers with
  | nil => exact absurd htimers hne
  | cons first rest =>
    have hfits := hword first (by simp [htimers])
    refine ⟨first, List.mem_cons_self, fun b hb => first_le hinv htimers b (htimers ▸ hb), ?_⟩
    simp only [TimerManager.getNextTimer, htimers]
    split
    · omega
    · rw [sub64_eq hfits (by omega)]

/-- When the timeouts of `idle` are between 0 and 5000 and at each call not beyond the earliest
timer. -/
theorem idleTimeouts_bounded_iff {m : TimerManager γ} (hinv : m.Inv)
    (hword : ∀ a ∈ m.timers, (m.object a).next < word64)
    (now pendingEventCount : Nat) (stopping : Bool) (retries : List Nat) :
    (∀ call ∈ idleTimeouts m now pendingEventCount stopping retries,
        0 ≤ call.2 ∧ call.2 ≤ 5000 ∧ ∀ a ∈ m.timers, call.2 ≤ ((m.object a).next - call.1 : Nat))
      ↔ (stoppingTimeout m now pendingEventCount stopping).2 = true ∨ m.timers = [] ∨
        ((m.getNextTimer now).2 = word64 - 1 ∨ (m.getNextTimer now).2 % 2 ^ 32 < 2 ^ 31) ∧
          ∀ retry ∈ retries, (m.getNextTimer now).2 % 2 ^ 32 = 0 ∨
            retry - now + min ((m.getNextTimer now).2 % 2 ^ 32) 5000 ≤ (m.getNextTimer now).2 := by
  rw [idleTimeouts]
  by_cases hstop : (stoppingTimeout m now pendingEventCount stopping).2 = true
  · simp [hstop]
  rw [if_neg hstop, or_iff_right hstop, stoppingTimeout, pollLoop_eq]
  simp only [List.forall_mem_map, List.forall_mem_cons]
  by_cases hempty : m.timers = []
  · have hnone : (m.getNextTimer now).2 = word64 - 1 := by simp [TimerManager.getNextTimer, hempty]
    obtain ⟨hnonneg, hmax⟩ := (pollTimeout_bounds_iff _).mpr (Or.inl hnone)
    simp [hempty, hnonneg, hmax]
  rw [or_iff_right hempty]
  obtain ⟨first, hfirst, hleast, hdelay⟩ := exists_earliest hinv hword hempty now
  constructor
  · rintro ⟨⟨hnonneg, hmax, -⟩, hretries⟩
    have hclear := (pollTimeout_bounds_iff _).mp ⟨hnonneg, hmax⟩
    refine ⟨hclear, fun retry hretry => ?_⟩
    have hle := (hretries retry hretry).2.2 first hfirst
    rw [pollTimeout_eq_min hclear] at hle
    omega
  · rintro ⟨hclear, hretries⟩
    obtain ⟨hnonneg, hmax⟩ := (pollTimeout_bounds_iff _).mpr hclear
    rw [pollTimeout_eq_min hclear] at hnonneg hmax ⊢
    refine ⟨⟨hnonneg, hmax, fun a ha => ?_⟩, fun retry hretry => ⟨hnonneg, hmax, fun a ha => ?_⟩⟩
    · have hnext := hleast a ha
      omega
    · have hnext := hleast a ha
      have hroom := hretries retry hretry
      omega

def oneTimer (ms : Nat) : TimerManager Nat :=
  ((TimerManager.initial 0).addTimer 1 0 ms (some (.user 0)) false).1

/-- A timer that is due in seven seconds, and a retry after two. -/
theorem near_timer_bounded :
    idleTimeouts (oneTimer 7000) 0 0 false [2000] = [(0, 5000), (2000, 5000)] ∧
      ∀ call ∈ idleTimeouts (oneTimer 7000) 0 0 false [2000],
        0 ≤ call.2 ∧ call.2 ≤ 5000 ∧ ∀ a ∈ (oneTimer 7000).timers,
          call.2 ≤ (((oneTimer 7000).object a).next - call.1 : Nat) := by
  have hempty : (TimerManager.initial 0 : TimerManager Nat).Inv :=
    Timer.inv_of_reachable (.init ⟨0, rfl⟩)
  have hinv : (oneTimer 7000).Inv := hempty.addTimer rfl 0 7000 (by simp) false
  exact ⟨by decide, (idleTimeouts_bounded_iff hinv (by decide) 0 0 false [2000]).mpr (by decide)⟩

/-- For a timer that is due in `2^31` ms, `epoll_wait` gets a negative timeout; for one due in 2000,
a wait interrupted after 1500 is begun again with 2000. -/
theorem far_timer_blocks :
    ((oneTimer (2 ^ 31)).getNextTimer 0).2 = 2 ^ 31 ∧
      idleTimeouts (oneTimer (2 ^ 31)) 0 0 false [] = [(0, -2 ^ 31)] ∧
      idleTimeouts (oneTimer 2000) 0 0 false [1500] = [(0, 2000), (1500, 2000)] := by
  decide

end Yuyu.Scheduler
