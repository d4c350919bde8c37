import Yuyu.Timer.SetInvariant

/-!
# What the operations of a timer report

`cancel`, `refresh` and `reset` return whether the timer is pending.  `reset` returns
`true` before it looks when neither the period nor the start is to change.
-/

namespace Yuyu.Timer

open Foundation Function

universe u

variable {γ : Type u} {m m' : TimerManager γ} {a : Addr} {t : TimerObject γ}

/-- The object at `a` is written, and the other timers are untouched. -/
structure Rewrites (m : TimerManager γ) (a : Addr) (t : TimerObject γ) (m' : TimerManager γ) :
    Prop where
  object : m'.object = update m.object a t
  live : m'.live = m.live
  others : ∀ x, x ≠ a → (x ∈ m'.timers ↔ x ∈ m.timers)

lemma pending_iff (h : m.Inv) (x : Addr) :
    x ∈ m.timers ↔ m.live x = true ∧ (m.object x).cb ≠ none := by
  constructor
  · intro hx
    have hlive := h.live_of_mem x hx
    exact ⟨hlive, (h.mem_iff x hlive).mp (.inl hx)⟩
  · rintro ⟨hlive, hcb⟩
    simpa using (h.mem_iff x hlive).mpr hcb

lemma Rewrites.of_inv (h : m.Inv) (h' : m'.Inv) (hobject : m'.object = update m.object a t)
    (hlive : m'.live = m.live) : Rewrites m a t m' := by
  refine ⟨hobject, hlive, fun x hx => ?_⟩
  rw [pending_iff h', pending_iff h, hlive, hobject, update_of_ne hx]

lemma cancel_reports (h : m.Inv) (ha : m.live a = true) :
    ∃ m' r, m.cancel a = some (m', r) ∧ (r = true ↔ a ∈ m.timers) ∧ (r = false → m' = m) ∧
      (r = true → a ∉ m'.timers ∧ Rewrites m a { m.object a with cb := none } m') := by
  rw [pending_iff h]
  by_cases hcb : (m.object a).cb = none
  · exact ⟨m, false, by simp [TimerManager.cancel, hcb], by simp [hcb], fun _ => rfl, by simp⟩
  obtain ⟨⟨m', r⟩, hrun, hinv⟩ := h.cancel ha
  have hrun' := hrun
  simp only [TimerManager.cancel, Option.isSome_iff_ne_none.mpr hcb, if_true,
    TimerManager.eraseTimer, Option.map_map, Option.map_eq_some_iff] at hrun'
  obtain ⟨l, -, heq⟩ := hrun'
  cases heq
  have hrewrites := Rewrites.of_inv h hinv rfl rfl
  refine ⟨_, true, hrun, by simp [ha, hcb], by simp, fun _ => ⟨?_, hrewrites⟩⟩
  rw [pending_iff hinv, hrewrites.object]
  simp

lemma refresh_reports (h : m.Inv) (ha : m.live a = true) (now : Nat) :
    ∃ m' r, m.refresh a now = some (m', r) ∧ (r = true ↔ a ∈ m.timers) ∧ (r = false → m' = m) ∧
      (r = true → a ∈ m'.timers ∧
        Rewrites m a { m.object a with next := add64 now (m.object a).ms } m') := by
  by_cases hcb : (m.object a).cb = none
  · rw [pending_iff h]
    exact ⟨m, false, by simp [TimerManager.refresh, hcb], by simp [hcb], fun _ => rfl, by simp⟩
  have hmem : a ∈ m.timers := (pending_iff h a).mpr ⟨ha, hcb⟩
  obtain ⟨⟨m', r⟩, hrun, hinv⟩ := h.refresh ha now
  obtain ⟨m₁, herase, -, hobject, -, hlive, hlt⟩ := h.eraseTimer_find hmem
  have hrun' := hrun
  simp only [TimerManager.refresh, Option.isNone_iff_eq_none, hcb, hlt.ne, herase] at hrun'
  cases hrun'
  have hrewrites := Rewrites.of_inv h hinv (a := a)
    (t := { m.object a with next := add64 now (m.object a).ms })
    (by simp [TimerManager.insertTimer, TimerManager.setObject, hobject])
    (by simp [TimerManager.insertTimer, TimerManager.setObject, hlive])
  refine ⟨_, true, hrun, by simp [hmem], by simp, fun _ => ⟨?_, hrewrites⟩⟩
  rw [pending_iff hinv, hrewrites.object, hrewrites.live, update_self]
  exact ⟨ha, hcb⟩

lemma reset_reports (h : m.Inv) (ha : m.live a = true) (hnext : (m.object a).next < word64)
    (ms : Nat) (fromNow : Bool) (now : Nat) :
    ∃ r, m.reset a ms fromNow now = some r ∧
      ((r.result = true ↔ a ∈ m.timers) ↔
        a ∈ m.timers ∨ ms ≠ (m.object a).ms ∨ fromNow = true) ∧
      (a ∉ m.timers → r.manager = m) ∧
      (a ∈ m.timers → r.result = true ∧ a ∈ r.manager.timers ∧ Rewrites m a { m.object a with
          ms := ms
          next := add64 (if fromNow then now else sub64 (m.object a).next (m.object a).ms) ms }
          r.manager) := by
  by_cases hsame : ms = (m.object a).ms ∧ fromNow = false
  · refine ⟨⟨m, true, false⟩, if_pos hsame, by simp [hsame], fun _ => rfl,
      fun hmem => ⟨rfl, hmem, ?_⟩⟩
    have hstart : add64 (sub64 (m.object a).next (m.object a).ms) (m.object a).ms =
        (m.object a).next := by
      unfold add64 sub64 word64 at *
      omega
    refine .of_inv h h ?_ rfl
    rw [hsame.1, hsame.2, if_neg (by simp), hstart]
    exact (update_eq_self a m.object).symm
  have hchange : ms ≠ (m.object a).ms ∨ fromNow = true := by
    rw [not_and_or, Bool.not_eq_false] at hsame
    exact hsame
  by_cases hcb : (m.object a).cb = none
  · have hnot : a ∉ m.timers := fun hmem => ((pending_iff h a).mp hmem).2 hcb
    refine ⟨⟨m, false, false⟩, ?_, by simp [hnot, hchange], fun _ => rfl,
      fun hmem => absurd hmem hnot⟩
    rw [TimerManager.reset, if_neg hsame, if_pos (by simp [hcb])]
  have hmem : a ∈ m.timers := (pending_iff h a).mpr ⟨ha, hcb⟩
  obtain ⟨r, hrun, hinv⟩ := h.reset ha ms fromNow now
  obtain ⟨m₁, herase, -, hobject, -, hlive, hlt⟩ := h.eraseTimer_find hmem
  have hrun' := hrun
  rw [TimerManager.reset, if_neg hsame] at hrun'
  simp only [Option.isNone_iff_eq_none, hcb, hlt.ne, herase] at hrun'
  cases hrun'
  have hrewrites := Rewrites.of_inv h hinv (a := a) (t := { m.object a with
      ms := ms
      next := add64 (if fromNow then now else sub64 (m.object a).next (m.object a).ms) ms })
    (by simp [TimerManager.addTimerLocked, TimerManager.insertTimer, TimerManager.setObject,
      hobject])
    (by simp [TimerManager.addTimerLocked, TimerManager.insertTimer, TimerManager.setObject, hlive])
  refine ⟨_, hrun, by simp [hmem], fun hnot => absurd hmem hnot, fun _ => ⟨rfl, ?_, hrewrites⟩⟩
  rw [pending_iff hinv, hrewrites.object, hrewrites.live, update_self]
  exact ⟨ha, hcb⟩

/-! ## Whole runs -/

def Words (m : TimerManager γ) : Prop := ∀ a, (m.object a).next < word64

lemma add64_lt (i j : Nat) : add64 i j < word64 := Nat.mod_lt _ (by decide)

lemma Words.of_update {k : TimerManager γ} (h : Words m)
    (hobject : k.object = update m.object a t) (ht : t.next < word64) : Words k := by
  intro x
  rw [hobject]
  by_cases hx : x = a
  · rw [hx, update_self]
    exact ht
  · rw [update_of_ne hx]
    exact h x

lemma Words.expireOne (now : Nat) {acc : TimerManager γ × List (Option (Callback γ))}
    (h : Words acc.1) (a : Addr) : Words (TimerManager.expireOne now acc a).1 := by
  simp only [TimerManager.expireOne]
  split
  · exact h.of_update rfl (add64_lt _ _)
  · exact h.of_update rfl (h a)

lemma Words.expireAll (now : Nat) (out : List Addr)
    {acc : TimerManager γ × List (Option (Callback γ))} (h : Words acc.1) :
    Words (out.foldl (TimerManager.expireOne now) acc).1 := by
  induction out generalizing acc with
  | nil => exact h
  | cons a out ih => exact ih (h.expireOne now a)

lemma Words.listExpiredCb (h : Words m) (now : Nat) (probe : Addr) :
    Words (m.listExpiredCb now probe).1 := by
  simp only [TimerManager.listExpiredCb]
  split
  · exact h
  split
  · exact h
  · exact Words.expireAll now _ h

lemma Words.exec (h : Words m) (hinv : m.Inv) {op : Op γ} (hop : op.Allowed m)
    (hexec : op.exec m = some m') : Words m' := by
  cases op with
  | addTimer a now ms cb recurring | addConditionTimer a now ms cb weakCond recurring =>
    cases hexec
    exact h.of_update rfl (add64_lt now ms)
  | cancel a =>
    obtain ⟨m₁, r, hrun, -, hsame, hdone⟩ := cancel_reports hinv hop
    simp only [Op.exec, hrun, Option.map_some, Option.some.injEq] at hexec
    subst hexec
    cases r with
    | false => exact hsame rfl ▸ h
    | true => exact h.of_update (hdone rfl).2.object (h a)
  | refresh a now =>
    obtain ⟨m₁, r, hrun, -, hsame, hdone⟩ := refresh_reports hinv hop now
    simp only [Op.exec, hrun, Option.map_some, Option.some.injEq] at hexec
    subst hexec
    cases r with
    | false => exact hsame rfl ▸ h
    | true => exact h.of_update (hdone rfl).2.object (add64_lt _ _)
  | reset a ms fromNow now =>
    obtain ⟨r, hrun, -, hsame, hdone⟩ := reset_reports hinv hop (h a) ms fromNow now
    simp only [Op.exec, hrun, Option.map_some, Option.some.injEq] at hexec
    subst hexec
    by_cases hmem : a ∈ m.timers
    · exact h.of_update (hdone hmem).2.2.object (add64_lt _ _)
    · exact hsame hmem ▸ h
  | getNextTimer now | release a =>
    cases hexec
    exact h
  | listExpiredCb now probe =>
    cases hexec
    exact h.listExpiredCb now probe

lemma words_of_reachable (h : (timerSystem γ).Reachable m) : Words m := by
  have hboth : m.Inv ∧ Words m := by
    refine TransitionSystem.Reachable.invariant (I := fun m => m.Inv ∧ Words m) ?_ ?_ h
    · rintro m ⟨now, rfl⟩
      exact ⟨inv_of_reachable (.init ⟨now, rfl⟩), fun _ => show 0 < word64 by decide⟩
    rintro m op m' ⟨hinv, hwords⟩ hstep
    simp only [timerSystem] at hstep
    split at hstep
    · rename_i hop
      obtain ⟨m₁, hexec, hinv'⟩ := Op.exec_inv hinv hop
      cases hexec.symm.trans hstep
      exact ⟨hinv', hwords.exec hinv hop hexec⟩
    · contradiction
  exact hboth.2

/-- In every state reached, `cancel` and `refresh` return whether the timer is pending, and so does
`reset` unless it keeps period and start. -/
theorem timer_reports (h : (timerSystem γ).Reachable m) (ha : m.live a = true) (now ms : Nat)
    (fromNow : Bool) :
    (∃ m' r, m.cancel a = some (m', r) ∧ (r = true ↔ a ∈ m.timers) ∧ (r = false → m' = m) ∧
      (r = true → a ∉ m'.timers ∧ Rewrites m a { m.object a with cb := none } m')) ∧
    (∃ m' r, m.refresh a now = some (m', r) ∧ (r = true ↔ a ∈ m.timers) ∧ (r = false → m' = m) ∧
      (r = true → a ∈ m'.timers ∧
        Rewrites m a { m.object a with next := add64 now (m.object a).ms } m')) ∧
    ∃ r, m.reset a ms fromNow now = some r ∧
      ((r.result = true ↔ a ∈ m.timers) ↔
        a ∈ m.timers ∨ ms ≠ (m.object a).ms ∨ fromNow = true) ∧
      (a ∉ m.timers → r.manager = m) ∧
      (a ∈ m.timers → r.result = true ∧ a ∈ r.manager.timers ∧
        Rewrites m a { m.object a with
          ms := ms
          next := add64 (if fromNow then now else sub64 (m.object a).next (m.object a).ms) ms }
          r.manager) := by
  have hinv := inv_of_reachable h
  refine ⟨cancel_reports hinv ha, refresh_reports hinv ha now, ?_⟩
  exact reset_reports hinv ha (words_of_reachable h a) ms fromNow now

theorem timer_reports_reset :
    ∃ m, (timerSystem Nat).run (.initial 100) [.addTimer 7 100 50 (.user 1) false] = some m ∧
      ∃ r, m.reset 7 80 false 120 = some r ∧ r.result = true ∧ (r.manager.object 7).next = 180 := by
  have hrun : (timerSystem Nat).run (.initial 100) [.addTimer 7 100 50 (.user 1) false] =
      some _ := rfl
  have hreach : (timerSystem Nat).Reachable _ := TransitionSystem.reachable_of_run ⟨100, rfl⟩ hrun
  obtain ⟨r, hreset, -, -, hpending⟩ := (timer_reports (a := 7) hreach (by decide) 120 80 false).2.2
  have hdone := hpending (by decide)
  refine ⟨_, hrun, r, hreset, hdone.1, ?_⟩
  rw [hdone.2.2.object]
  rfl

/-- A timer that has fired is reset to the period it has: the call returns `true`, and the timer is
not pending. -/
theorem reset_misreports :
    ∃ m, (timerSystem Nat).run (.initial 100)
        [.addTimer 7 100 50 (.user 1) false, .listExpiredCb 200 9] = some m ∧ m.timers = [] ∧
      (m.reset 7 50 false 200).map (fun r => (r.result, r.manager.timers)) = some (true, []) :=
  ⟨_, rfl, rfl, rfl⟩

end Yuyu.Timer
