import Yuyu.Timer.Expiry

/-!
# Hooked sleeps

This module models `sleep`, `usleep` and `nanosleep` of `yuyu/hook.cc` up to the timer that wakes
the fiber up.  `sleep` multiplies 32-bit words, `usleep` divides, and `nanosleep` goes through an
`int`.
-/

namespace Yuyu.Hook

open Foundation
open Yuyu.Timer (TimerManager)

universe u

variable {γ : Type u}

inductive SleepCall where
  | sleep (seconds : Nat)
  | usleep (usec : Nat)
  | nanosleep (sec nsec : Int)
deriving DecidableEq

namespace SleepCall

/-- The arguments are of their types, and a `timespec` is valid. -/
def Valid : SleepCall → Prop
  | .sleep seconds => seconds < 2 ^ 32
  | .usleep usec => usec < 2 ^ 32
  | .nanosleep sec nsec => 0 ≤ sec ∧ sec < 2 ^ 63 ∧ 0 ≤ nsec ∧ nsec < 10 ^ 9

def timeoutMs (sec nsec : Int) : Int := wrap32 (sec * 1000 + (nsec.tdiv 1000).tdiv 1000)

def ms : SleepCall → Nat
  | .sleep seconds => seconds * 1000 % 2 ^ 32
  | .usleep usec => usec / 1000
  | .nanosleep sec nsec => (timeoutMs sec nsec % word64).toNat

def requested : SleepCall → Int
  | .sleep seconds => seconds * 10 ^ 9
  | .usleep usec => usec * 10 ^ 3
  | .nanosleep sec nsec => sec * 10 ^ 9 + nsec

/-- The manager after `addTimer`, with the timer at `a` constructed when the clock reads
`now`.  Its callback schedules the fiber. -/
def arm (c : SleepCall) (m : TimerManager γ) (a now : Nat) (fiber : γ) : TimerManager γ :=
  (m.addTimer a now c.ms (some (.user fiber)) false).1

/-- Durations that survive the conversion: whole milliseconds, and no overflow. -/
def Convertible : SleepCall → Prop
  | .sleep seconds => seconds * 1000 < 2 ^ 32
  | .usleep usec => 1000 ∣ usec
  | .nanosleep sec nsec => 10 ^ 6 ∣ nsec ∧ sec * 1000 + nsec / 10 ^ 6 < 2 ^ 31

lemma arm_next (c : SleepCall) (m : TimerManager γ) (a now : Nat) (fiber : γ) :
    ((c.arm m a now fiber).object a).next = add64 now c.ms := by
  simp [arm, TimerManager.addTimer, TimerManager.addTimerLocked, TimerManager.insertTimer,
    TimerManager.allocate, TimerManager.setObject]

lemma tdiv_million {nsec : Int} (h : 0 ≤ nsec) : (nsec.tdiv 1000).tdiv 1000 = nsec / 10 ^ 6 := by
  rw [Int.tdiv_eq_ediv_of_nonneg h, Int.tdiv_eq_ediv_of_nonneg (by omega)]
  omega

lemma ms_of_convertible {c : SleepCall} (hvalid : c.Valid) (h : c.Convertible) :
    (c.ms : Int) * 10 ^ 6 = c.requested ∧ c.ms < 2 ^ 32 := by
  cases c with
  | sleep seconds =>
    have hfits : seconds * 1000 % 2 ^ 32 = seconds * 1000 := Nat.mod_eq_of_lt h
    simp only [ms, requested, hfits]
    exact ⟨by push_cast; ring, h⟩
  | usleep usec =>
    obtain ⟨k, rfl⟩ := h
    simp only [ms, requested, Valid] at hvalid ⊢
    omega
  | nanosleep sec nsec =>
    obtain ⟨hsec, -, hnsec, -⟩ := hvalid
    obtain ⟨⟨k, rfl⟩, hlt⟩ := h
    have hms : timeoutMs sec (10 ^ 6 * k) = sec * 1000 + k := by
      rw [timeoutMs, tdiv_million hnsec, wrap32_of_lt] <;> omega
    simp only [ms, requested, hms, word64]
    omega

lemma ms_of_not_convertible {c : SleepCall} (hvalid : c.Valid) (h : ¬ c.Convertible) :
    (c.ms < 2 ^ 32 ∧ (c.ms : Int) * 10 ^ 6 < c.requested)
      ∨ (2 ^ 64 - 2 ^ 31 ≤ c.ms ∧ c.ms < 2 ^ 64 ∧ 0 ≤ c.requested) := by
  cases c with
  | sleep seconds =>
    simp only [ms, requested, Convertible] at h ⊢
    omega
  | usleep usec =>
    simp only [ms, requested, Convertible, Valid] at h hvalid ⊢
    omega
  | nanosleep sec nsec =>
    obtain ⟨hsec, -, hnsec, -⟩ := hvalid
    simp only [Convertible] at h
    simp only [ms, requested, timeoutMs, tdiv_million hnsec, wrap32, word64]
    have hbmod := Int.bmod_def (sec * 1000 + nsec / 10 ^ 6) (2 ^ 32)
    rw [hbmod]
    split <;> omega

lemma arm_next_iff {c : SleepCall} (hvalid : c.Valid) (m : TimerManager γ) (a : Nat) (fiber : γ) :
    (∀ start now : Nat, start ≤ now → now < 2 ^ 63 →
        start * 10 ^ 6 + c.requested ≤ ((c.arm m a now fiber).object a).next * 10 ^ 6)
      ↔ c.Convertible := by
  simp only [arm_next]
  constructor
  · intro h
    by_contra hconv
    have hlate := h (2 ^ 62) (2 ^ 62) (le_refl _) (by decide)
    -- a negative timeout brings the due time back before the starting time
    rcases ms_of_not_convertible hvalid hconv with ⟨hlt, hshort⟩ | ⟨hge, hlt, hpos⟩
    · rw [add64_eq (by unfold word64; omega)] at hlate
      omega
    have hwrap : add64 (2 ^ 62) c.ms = 2 ^ 62 + c.ms - 2 ^ 64 := by
      unfold add64 word64
      omega
    omega
  intro hconv start now hle hnow
  obtain ⟨hexact, hlt⟩ := ms_of_convertible hvalid hconv
  rw [add64_eq (by unfold word64; omega), ← hexact]
  omega

lemma next_le_of_due {m : TimerManager γ} {a t : Nat} (hclock : m.previousTime ≤ t)
    (h : a ∈ m.due t) : (m.object a).next ≤ t := by
  have hdue := (List.mem_filter.mp h).2
  simp only [TimerManager.detectClockRollover, Bool.or_eq_true, Bool.and_eq_true,
    decide_eq_true_eq] at hdue
  omega

lemma arm_previousTime (c : SleepCall) (m : TimerManager γ) (a now : Nat) (fiber : γ) :
    (c.arm m a now fiber).previousTime = m.previousTime := by
  simp [arm, TimerManager.addTimer, TimerManager.addTimerLocked, TimerManager.insertTimer,
    TimerManager.allocate, TimerManager.setObject]

end SleepCall

/-- For every valid argument: the timer does not expire before the duration is over, exactly if the
duration is convertible. -/
theorem sleep_long_enough_iff {c : SleepCall} (hvalid : c.Valid) (m : TimerManager γ) (a : Nat)
    (fiber : γ) :
    ((∀ start now : Nat, start ≤ now → now < 2 ^ 63 →
        start * 10 ^ 6 + c.requested ≤ ((c.arm m a now fiber).object a).next * 10 ^ 6)
      ↔ c.Convertible)
    ∧ (c.Convertible → ∀ start now t : Nat, start ≤ now → now < 2 ^ 63 → m.previousTime ≤ t →
        a ∈ (c.arm m a now fiber).due t → start * 10 ^ 6 + c.requested ≤ t * 10 ^ 6) := by
  refine ⟨SleepCall.arm_next_iff hvalid m a fiber, ?_⟩
  intro hconv start now t hle hnow hclock hdue
  have hnext := (SleepCall.arm_next_iff hvalid m a fiber).mpr hconv start now hle hnow
  have hdue' := SleepCall.next_le_of_due (by rwa [SleepCall.arm_previousTime]) hdue
  omega

theorem usleep_five_ms :
    SleepCall.Convertible (.usleep 5000)
      ∧ ∀ start now : Nat, start ≤ now → now < 2 ^ 63 →
          start * 10 ^ 6 + SleepCall.requested (.usleep 5000)
            ≤ ((SleepCall.arm (.usleep 5000) (TimerManager.initial 0) 1 now 0).object 1).next
              * 10 ^ 6 := by
  have hconv : SleepCall.Convertible (.usleep 5000) := ⟨5, rfl⟩
  have hvalid : SleepCall.Valid (.usleep 5000) := by
    unfold SleepCall.Valid
    decide
  exact ⟨hconv, (sleep_long_enough_iff hvalid (TimerManager.initial 0) 1 0).1.mpr hconv⟩

/-- The timer of `usleep(999)` is due at once, the one of `sleep(4294968)` after 704 ms, and the one
of `nanosleep` for `2^31` ms in the past. -/
theorem usleep_cut_short :
    ((SleepCall.arm (.usleep 999) (TimerManager.initial 0) 1 1000 0).object 1).next = 1000
      ∧ ((SleepCall.arm (.sleep 4294968) (TimerManager.initial 0) 1 1000 0).object 1).next = 1704
      ∧ ((SleepCall.arm (.nanosleep 2147483 648000000) (TimerManager.initial 0) 1
          (2 ^ 40) 0).object 1).next = 2 ^ 40 - 2 ^ 31 := by
  simp only [SleepCall.arm_next]
  decide

end Yuyu.Hook
