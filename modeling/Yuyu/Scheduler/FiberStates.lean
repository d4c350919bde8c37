import Yuyu.Scheduler.RunStates

/-!
# Finished fibers are not resumed

The state of a fiber in hand follows from where its worker stands.  A `cb_fiber` that has ended
has no callback any more: the queue may still name it, but then it only throws.  For the idle
fiber `run` looks for `TERM`, not for `EXCEPT`.
-/

namespace Yuyu.Scheduler

open Foundation Timer State Function

variable {n : Nat} {γ : Type}

def Pc.Fits (fiber : Nat → FiberState) : Pc γ → Prop
  | .tickleMe ft | .tickleWrite ft | .dispatch ft => ∀ f ∈ ft.bind Task.fiber?, fiber f ≠ .exec
  | .swapIn f _ => (fiber f).Resumable
  | .running f _ => fiber f = .exec
  | .saving f _ | .returned f _ | .fixup f _ | .requeue f _ => fiber f ≠ .exec ∧ fiber f ≠ .init
  | .hold f _ => fiber f = .hold
  | _ => True

variable {p q : Pc γ} {s : RunState n γ} {a : Action n γ} {f : Nat} {w : Fin n}

lemma Pc.Fits.congr {fiber fiber' : Nat → FiberState} (h : p.Fits fiber)
    (heq : ∀ f, p.held = some f → fiber' f = fiber f) : p.Fits fiber' := by
  cases p with
  | tickleMe ft | tickleWrite ft | dispatch ft =>
    intro f hf
    rw [heq f hf]
    exact h f hf
  | swapIn f isCb | running f isCb | saving f isCb | returned f isCb | fixup f isCb
  | requeue f isCb | hold f isCb =>
    have hf := heq f rfl
    simp only [Pc.Fits] at h ⊢
    rwa [hf]
  | _ => trivial

lemma fits_of_held_none (fiber : Nat → FiberState) (h : p.held = none) :
    p.Fits fiber := by
  cases p with
  | tickleMe ft | tickleWrite ft | dispatch ft =>
    intro f hf
    cases h.symm.trans hf
  | swapIn | running | saving | returned | fixup | requeue | hold => cases h
  | _ => trivial

lemma Exclusive.written_unheld {s : State n γ} (h : Exclusive s) (hexist : FibersExist s)
    (ha : a.Enabled s) (hout : OutsideWindows s a)
    (hf : a.written s = some f) {v : Fin n} (hv : a.worker ≠ some v) :
    (s.pc v).held ≠ some f := by
  have fresh (hnew : s.nextFiber = f) : (s.pc v).held ≠ some f := fun hheld =>
    lt_irrefl _ (hnew ▸ hexist.held v f hheld)
  have other {w : Fin n} (hw : (s.pc w).held = some f) (hne : some w ≠ some v) :
      (s.pc v).held ≠ some f :=
    h.others hw v fun heq => hne (congrArg some heq.symm)
  cases a with
  | newFiber | newCbFiber w cb thread => exact fresh (Option.some.inj hf)
  | resetCbFiber w cb thread g =>
    cases hf
    exact h.free (by rcases ha.2.2 with hg | hg | hg <;> simp [hg]) hout v
  | swapIn w g isCb | yield w g isCb st | fixupEnded w g isCb =>
    exact other (by rw [ha.1]; exact hf) hv
  | setHold w g isCb => exact other (by rw [show s.pc w = _ from ha]; exact hf) hv
  | _ => cases hf

lemma Exclusive.fits_next {s : State n γ} (h : Exclusive s) (hexist : FibersExist s)
    (hfits : ∀ w, (s.pc w).Fits s.fiber) (ha : a.Enabled s)
    (hout : OutsideWindows s a) : ∀ w, ((a.next s).pc w).Fits (a.next s).fiber := by
  intro w
  by_cases hw : a.worker = some w
  · have now {p : Pc γ} (hpc : s.pc w = p) : p.Fits s.fiber := hpc ▸ hfits w
    have moved {fiber : Nat → FiberState} {p : Pc γ} (hp : p.Fits fiber) :
        (update s.pc w p w).Fits fiber := by
      rwa [update_self]
    cases a with
    | scan v =>
      cases hw
      have htaken : ∀ f ∈ (s.scanOf w).ft.bind Task.fiber?, s.fiber f ≠ .exec := by
        intro f hf
        obtain ⟨t, ht, htf⟩ := Option.bind_eq_some_iff.mp hf
        exact (scanQueue_taken ht).2.2 f (Task.fiber?_eq_some.mp htf)
      refine moved ?_
      split <;> exact htaken
    | tickleMe v ft =>
      cases hw
      have hft := now ha
      refine moved ?_
      split <;> exact hft
    | tickleWrite v ft =>
      cases hw
      have hft := now ha
      exact moved hft
    | swapOut v g isCb | returned v g isCb =>
      cases hw
      have hleft := now ha
      exact moved hleft
    | fixupReady v g isCb =>
      cases hw
      have hleft := now ha.1
      exact moved hleft
    | resume v g thread =>
      cases hw
      have hexec : s.fiber g ≠ .exec := now ha.1 g rfl
      have hresume : (s.fiber g).Resumable := by
        obtain ⟨-, hterm, hexcept⟩ := ha
        cases hg : s.fiber g <;> simp_all [FiberState.Resumable]
      exact moved hresume
    | newCbFiber v | resetCbFiber v =>
      cases hw
      exact moved (Or.inl (update_self ..))
    | swapIn v g isCb =>
      cases hw
      exact moved (update_self ..)
    | yield v g isCb st =>
      cases hw
      refine moved (show _ ∧ _ from ?_)
      rw [show ((Action.yield w g isCb st).next s).fiber g = st from update_self ..]
      exact ha.2
    | fixupOther v g isCb =>
      cases hw
      have hleft : s.fiber g ≠ .exec ∧ s.fiber g ≠ .init := now ha.1
      have hhold : s.fiber g = .hold := by
        obtain ⟨-, hready, hterm, hexcept⟩ := ha
        cases hg : s.fiber g <;> simp_all
      exact moved hhold
    | getNextTimer v | checkEvents v clock | checkQueue v clock =>
      cases hw
      refine moved (fits_of_held_none _ ?_)
      rw [held_ite, held_poll]
      exact ite_self none
    | skip v | enterIdle v | exit v | requeue v | fixupEnded v | setHold v | wake v
    | listExpiredCb v | scheduleExpired v | swapOutIdle v | leaveIdle v =>
      cases hw
      exact moved trivial
    | _ => cases hw
  rw [Action.next_pc hw]
  refine (hfits w).congr fun f hf => Action.next_fiber fun hwritten => ?_
  exact h.written_unheld hexist ha hout hwritten hw hf

lemma Pc.Fits.ne_exec {fiber : Nat → FiberState} (h : p.Fits fiber)
    (hheld : p.held = some f) (hrun : ∀ isCb, p ≠ .running f isCb) : fiber f ≠ .exec := by
  cases p with
  | tickleMe ft | tickleWrite ft | dispatch ft => exact h f hheld
  | swapIn g isCb =>
    cases hheld
    rcases (h : (fiber f).Resumable) with h | h | h <;> simp [h]
  | running g isCb =>
    cases hheld
    exact absurd rfl (hrun isCb)
  | saving g isCb | returned g isCb | fixup g isCb | requeue g isCb =>
    cases hheld
    exact h.1
  | hold g isCb =>
    cases hheld
    simp [show fiber f = .hold from h]
  | _ => cases hheld

/-! ## Contexts by state -/

lemma ended_next (hended : ∀ f, s.ended f = true ↔ (s.base.fiber f).Ended)
    (hfits : ∀ w, (s.base.pc w).Fits s.base.fiber) (ha : a.Enabled s.base) :
    ∀ f, (s.contexts a).ended f = true ↔ ((a.next s.base).fiber f).Ended := by
  intro f
  by_cases hf : a.written s.base = some f
  · have written {e : Bool} {st : FiberState} (he : (s.contexts a).ended f = e)
        (hst : (a.next s.base).fiber f = st) (h : e = true ↔ st.Ended) :
        (s.contexts a).ended f = true ↔ ((a.next s.base).fiber f).Ended := by
      rw [he, hst]
      exact h
    have fresh : (false = true) ↔ FiberState.init.Ended := by decide
    cases a with
    | newFiber | newCbFiber | resetCbFiber =>
      obtain rfl := Option.some.inj hf
      exact written (update_self ..) (update_self ..) fresh
    | swapIn w g isCb =>
      cases hf
      have hresume : (s.base.fiber f).Resumable := by
        have hg := hfits w
        rwa [ha.1] at hg
      have hold : s.ended f = false := by
        rw [← Bool.not_eq_true, hended f]
        rcases hresume with h | h | h <;> simp [h, FiberState.Ended]
      exact written hold (update_self ..) (by decide)
    | yield w g isCb st =>
      cases hf
      exact written (update_self ..) (update_self ..) decide_eq_true_iff
    | fixupEnded w g isCb =>
      cases hf
      cases isCb with
      | true => exact written (update_self ..) (update_self ..) fresh
      | false => exact written rfl (update_self ..) (hended f)
    | setHold w g isCb =>
      cases hf
      have hhold : s.base.fiber f = .hold := by
        have hg := hfits w
        rwa [show s.base.pc w = _ from ha] at hg
      exact written rfl ((update_self ..).trans hhold.symm) (hended f)
    | _ => cases hf
  · rw [(RunState.contexts_of_not_written hf).2, Action.next_fiber hf]
    exact hended f

/-- The fiber that a worker runs as its `cb_fiber`. -/
def Pc.usesCb : Pc γ → Option Nat
  | .swapIn f isCb | .running f isCb | .saving f isCb | .returned f isCb | .fixup f isCb
  | .requeue f isCb | .hold f isCb => if isCb then some f else none
  | _ => none

/-- A fiber without a callback that its worker does not run as its `cb_fiber`.  The
queue may name it, and then it throws. -/
structure Spent (s : RunState n γ) (p : Pc γ) (f : Nat) : Prop where
  noCb : s.hasCb f = false
  ne_hold : s.base.fiber f ≠ .hold
  ne_ready : s.base.fiber f ≠ .ready
  exec : s.base.fiber f = .exec → p.held = some f

structure Kept (s : RunState n γ) (w : Fin n) (f : Nat) : Prop where
  unheld : ∀ v ≠ w, (s.base.pc v).held ≠ some f
  unkept : ∀ v ≠ w, s.base.cbFiber v ≠ some f
  used : (s.base.pc w).usesCb = some f ∨ Spent s (s.base.pc w) f

lemma Kept.of_other (h : Kept s w f)
    (hf : s.base.cbFiber w = some f) (hexist : FibersExist s.base)
    (ha : a.Enabled s.base) (hapart : Apart s (.act a)) (hw : a.worker ≠ some w) :
    Kept (Deed.next s (.act a)) w f := by
  have hlt : f < s.base.nextFiber := hexist.cbFiber w f hf
  have hunkept : ∀ v ≠ w, (a.next s.base).cbFiber v ≠ some f := by
    intro v hv hcb
    rcases Action.cbFiber_source hcb with hcb | ⟨hnew, -⟩
    · exact h.unkept v hv hcb
    · exact hlt.ne hnew
  have hwritten : a.written s.base ≠ some f := by
    intro hwrite
    rcases Action.written_source ha hwrite with hnew | ⟨v, hv, hheld | hcb⟩
    · exact hlt.ne hnew
    · exact h.unheld v (fun heq => hw (heq ▸ hv)) hheld
    · exact h.unkept v (fun heq => hw (heq ▸ hv)) hcb
  have hpc : (a.next s.base).pc w = s.base.pc w := Action.next_pc hw
  have hfiber : (a.next s.base).fiber f = s.base.fiber f := Action.next_fiber hwritten
  refine ⟨?_, hunkept, ?_⟩
  · intro v hv hheld
    rcases Action.held_source ha hheld with hheld | ⟨rfl, htaken⟩ | hcb
    · exact h.unheld v hv hheld
    · exact (hapart f htaken w hv.symm).2 hf
    · exact hunkept v hv hcb
  rcases h.used with huse | hspent
  · exact Or.inl ((congrArg Pc.usesCb hpc).trans huse)
  refine Or.inr ⟨(RunState.contexts_of_not_written hwritten).1.trans hspent.noCb, ?_, ?_, ?_⟩
  · exact fun hhold => hspent.ne_hold (hfiber.symm.trans hhold)
  · exact fun hready => hspent.ne_ready (hfiber.symm.trans hready)
  · exact fun hexec => (congrArg Pc.held hpc).trans (hspent.exec (hfiber.symm.trans hexec))

lemma Spent.of_quiet {s' : RunState n γ} (h : Spent s p f)
    (hfits : p.Fits s.base.fiber) (hrun : ∀ isCb, p ≠ .running f isCb)
    (hcb : s'.hasCb f = s.hasCb f) (hfiber : s'.base.fiber f = s.base.fiber f) : Spent s' q f := by
  refine ⟨hcb.trans h.noCb, hfiber ▸ h.ne_hold, hfiber ▸ h.ne_ready, fun hexec => ?_⟩
  rw [hfiber] at hexec
  exact absurd hexec (hfits.ne_exec (h.exec hexec) hrun)

lemma used_of_uses (h : (s.base.pc w).usesCb = some f) (ha : a.Enabled s.base)
    (hw : a.worker = some w) (hf' : (a.next s.base).cbFiber w = some f) :
    ((a.next s.base).pc w).usesCb = some f ∨
      Spent (Deed.next s (.act a)) ((a.next s.base).pc w) f := by
  have stands {p : Pc γ} (hpc : s.base.pc w = p) : p.usesCb = some f := hpc ▸ h
  have moved {p : Pc γ} (hp : p.usesCb = some f) :
      (update s.base.pc w p w).usesCb = some f := by
    rwa [update_self]
  cases a with
  | swapIn v g isCb | yield v g isCb st | fixupReady v g isCb | fixupOther v g isCb =>
    cases hw
    have huse := stands ha.1
    exact Or.inl (moved huse)
  | swapOut v g isCb | returned v g isCb =>
    cases hw
    have huse := stands ha
    exact Or.inl (moved huse)
  | requeue v g isCb | setHold v g isCb =>
    cases hw
    have huse := stands ha
    have hset : update s.base.cbFiber w (if isCb then none else s.base.cbFiber w) w = some f := hf'
    rw [update_self] at hset
    cases isCb with
    | true => cases hset
    | false => cases huse
  | fixupEnded v g isCb =>
    cases hw
    have huse := stands ha.1
    cases isCb with
    | false => cases huse
    | true =>
      cases huse
      have hinit : ((Action.fixupEnded w f true).next s.base).fiber f = .init := update_self ..
      refine Or.inr ⟨update_self .., ?_, ?_, ?_⟩ <;>
        · change ((Action.fixupEnded w f true).next s.base).fiber f = _ → _
          simp [hinit]
  | scan v | tickleMe v | tickleWrite v | enterIdle v | exit v | getNextTimer v | checkEvents v
  | checkQueue v | wake v | listExpiredCb v | scheduleExpired v | swapOutIdle v | leaveIdle v
  | resume v | skip v | newCbFiber v | resetCbFiber v =>
    cases hw
    first
      | exact absurd (stands ha) (by simp [Pc.usesCb])
      | exact absurd (stands ha.1) (by simp [Pc.usesCb])
  | _ => cases hw

lemma used_of_spent (h : Spent s (s.base.pc w) f) (hfits : (s.base.pc w).Fits s.base.fiber)
    (hf : s.base.cbFiber w = some f) (hd : (Deed.act a).Enabled s) (hw : a.worker = some w) :
    ((a.next s.base).pc w).usesCb = some f ∨
      Spent (Deed.next s (.act a)) ((a.next s.base).pc w) f := by
  obtain ⟨ha, hcan⟩ := hd
  -- the worker stands at `p`, does not run `f` and does not write it
  have quiet {p : Pc γ} (hpc : s.base.pc w = p) (hrun : ∀ isCb, p ≠ .running f isCb)
      (hwritten : a.written s.base ≠ some f) :
      Spent (Deed.next s (.act a)) ((a.next s.base).pc w) f := by
    rw [hpc] at h hfits
    exact h.of_quiet hfits hrun (RunState.contexts_of_not_written hwritten).1
      (Action.next_fiber hwritten)
  have other {g : Nat} (hg : g ≠ f) : some g ≠ some f := fun heq => hg (Option.some.inj heq)
  cases a with
  | newCbFiber v cb thread =>
    cases hw
    cases ha.2.symm.trans hf
  | resetCbFiber v cb thread g =>
    cases hw
    obtain rfl : g = f := Option.some.inj (ha.2.1.symm.trans hf)
    have hpc : ((Action.resetCbFiber w cb thread g).next s.base).pc w = .swapIn g true :=
      update_self ..
    exact Or.inl (congrArg Pc.usesCb hpc)
  | swapIn v g isCb =>
    cases hw
    by_cases hg : g = f
    · subst hg
      have hexec : ((Action.swapIn w g isCb).next s.base).fiber g = .exec := update_self ..
      refine Or.inr ⟨h.noCb, ?_, ?_, fun _ => ?_⟩
      · change ((Action.swapIn w g isCb).next s.base).fiber g ≠ _
        simp [hexec]
      · change ((Action.swapIn w g isCb).next s.base).fiber g ≠ _
        simp [hexec]
      · exact congrArg Pc.held (update_self w (Pc.running g isCb) s.base.pc)
    · exact Or.inr (quiet ha.1 (by simp) (other hg))
  | yield v g isCb st =>
    cases hw
    by_cases hg : g = f
    · subst hg
      have hthrow : st = .except := by simpa [RunState.canDo, h.noCb] using hcan
      have hexcept : ((Action.yield w g isCb st).next s.base).fiber g = .except :=
        (update_self ..).trans hthrow
      refine Or.inr ⟨?_, ?_, ?_, ?_⟩
      · refine (update_self ..).trans ?_
        simp [h.noCb]
      all_goals
        change ((Action.yield w g isCb st).next s.base).fiber g = _ → _
        simp [hexcept]
    · refine Or.inr (quiet ha.1 (fun isCb' heq => hg ?_) (other hg))
      injection heq
  | fixupEnded v g isCb =>
    cases hw
    by_cases hg : g = f
    · subst hg
      cases isCb with
      | true =>
        have hinit : ((Action.fixupEnded w g true).next s.base).fiber g = .init := update_self ..
        refine Or.inr ⟨update_self .., ?_, ?_, ?_⟩ <;>
          · change ((Action.fixupEnded w g true).next s.base).fiber g = _ → _
            simp [hinit]
      | false =>
        rw [ha.1] at h hfits
        exact Or.inr (h.of_quiet hfits (by simp) rfl (update_self ..))
    · exact Or.inr (quiet ha.1 (by simp) (other hg))
  | setHold v g isCb =>
    cases hw
    have hhold : s.base.fiber g = .hold := by rwa [show s.base.pc w = _ from ha] at hfits
    have hg : g ≠ f := fun heq => h.ne_hold (heq ▸ hhold)
    exact Or.inr (quiet ha (by simp) (other hg))
  | scan v | tickleMe v | tickleWrite v | swapOut v | returned v | requeue v | getNextTimer v
  | checkEvents v | checkQueue v | wake v | scheduleExpired v | swapOutIdle v
  | leaveIdle v =>
    cases hw
    exact Or.inr (quiet ha (by simp) (by simp [Action.written]))
  | resume v | skip v | enterIdle v | exit v | fixupReady v | fixupOther v | listExpiredCb v =>
    cases hw
    exact Or.inr (quiet ha.1 (by simp) (by simp [Action.written]))
  | _ => cases hw

structure IdleFits (p : Pc γ) (st : FiberState) (ended : Bool) : Prop where
  ended_iff : ended = true ↔ st.Ended
  inside : Deed.InsideIdle p → st = .exec
  outside : p.inIdle = false → st ≠ .exec ∧ st ≠ .ready

lemma IdleFits.outside_next {st : FiberState} {ended : Bool}
    (h : IdleFits p st ended) (hp : p.inIdle = false) (hq : q.inIdle = false) :
    IdleFits q st ended :=
  ⟨h.ended_iff, fun hin => by simp [Deed.InsideIdle, hq] at hin, fun _ => h.outside hp⟩

lemma IdleFits.inside_next {st : FiberState} {ended : Bool}
    (h : IdleFits p st ended) (hp : Deed.InsideIdle p) (hq : q.inIdle = true) :
    IdleFits q st ended := ⟨h.ended_iff, fun _ => h.inside hp, fun hout => by simp [hq] at hout⟩

lemma idleFits_next (h : ∀ w, IdleFits (s.base.pc w) (s.base.idleFiber w) (s.idleEnded w))
    (ha : a.Enabled s.base) (hidle : ∀ w, a = .enterIdle w → s.base.idleFiber w ≠ .except) :
    ∀ w, IdleFits ((a.next s.base).pc w) ((a.next s.base).idleFiber w)
      ((s.contexts a).idleEnded w) := by
  intro w
  by_cases hw : a.worker = some w
  · have stands {p : Pc γ} (hpc : s.base.pc w = p) :
        IdleFits p (s.base.idleFiber w) (s.idleEnded w) := hpc ▸ h w
    have moved {p : Pc γ} {st : FiberState} {e : Bool} (hp : IdleFits p st e) :
        IdleFits (update s.base.pc w p w) st e := by
      rwa [update_self]
    cases a with
    | enterIdle v =>
      cases hw
      have hexec : ((Action.enterIdle w).next s.base).idleFiber w = .exec := update_self ..
      have hended : ¬ s.idleEnded w = true := by
        rw [(h w).ended_iff]
        rintro (hterm | hexcept)
        · exact ha.2.1 hterm
        · exact hidle w rfl hexcept
      rw [hexec]
      refine moved ⟨?_, fun _ => rfl, fun hout => by cases hout⟩
      exact iff_of_false hended (by decide)
    | checkQueue v clock =>
      cases hw
      have hin := stands ha
      have hfiber : ((Action.checkQueue w clock).next s.base).idleFiber w =
          if s.base.schedulerStopping then .term else s.base.idleFiber w :=
        update_self ..
      rw [hfiber]
      refine moved ?_
      simp only [RunState.contexts]
      split
      · refine ⟨iff_of_true (update_self ..) (Or.inl rfl), fun hinside => ?_, ?_⟩
        · exact absurd rfl hinside.2
        · exact fun hout => by cases hout
      · exact hin.inside_next ⟨rfl, by simp⟩ (inIdle_poll ..)
    | leaveIdle v =>
      cases hw
      have hended := (stands ha).ended_iff
      have hfiber : ((Action.leaveIdle w).next s.base).idleFiber w =
          (s.base.idleFiber w).settle := update_self ..
      rw [hfiber]
      refine moved
        ⟨hended.trans ?_, fun hinside => absurd hinside.1 (by simp [Pc.inIdle]), fun _ => ?_⟩
      · cases s.base.idleFiber w <;> decide
      · cases s.base.idleFiber w <;> decide
    | getNextTimer v | checkEvents v =>
      cases hw
      have hin := stands ha
      refine moved (hin.inside_next ⟨rfl, by simp⟩ ?_)
      split
      · rfl
      · exact inIdle_poll ..
    | wake v | scheduleExpired v | swapOutIdle v =>
      cases hw
      have hin := stands ha
      exact moved (hin.inside_next ⟨rfl, by simp⟩ rfl)
    | listExpiredCb v =>
      cases hw
      have hin := stands ha.1
      exact moved (hin.inside_next ⟨rfl, by simp⟩ rfl)
    | scan v | tickleMe v =>
      cases hw
      have hout := stands ha
      refine moved (hout.outside_next rfl ?_)
      split <;> rfl
    | tickleWrite v | swapOut v | returned v | requeue v | setHold v =>
      cases hw
      have hout := stands ha
      exact moved (hout.outside_next rfl rfl)
    | resume v | skip v | newCbFiber v | resetCbFiber v | exit v | swapIn v | yield v
    | fixupReady v | fixupOther v =>
      cases hw
      have hout := stands ha.1
      exact moved (hout.outside_next rfl rfl)
    | fixupEnded v g isCb =>
      cases hw
      have hout := stands ha.1
      cases isCb <;> exact moved (hout.outside_next rfl rfl)
    | _ => cases hw
  · rw [Action.next_pc hw, Action.next_idleFiber hw, RunState.contexts_idleEnded hw]
    exact h w

/-! ## Whole runs -/

structure Tracked (s : RunState n γ) : Prop where
  exist : FibersExist s.base
  excl : Exclusive s.base
  fits : ∀ w, (s.base.pc w).Fits s.base.fiber
  ended_iff : ∀ f, s.ended f = true ↔ (s.base.fiber f).Ended
  kept : ∀ w f, s.base.cbFiber w = some f → Kept s w f
  idle : ∀ w, IdleFits (s.base.pc w) (s.base.idleFiber w) (s.idleEnded w)

lemma tracked_initial (now : Nat) : Tracked (RunState.initial n γ now) where
  exist := ⟨by simp [RunState.initial, State.initial], by simp [RunState.initial, State.initial],
    by simp [RunState.initial, State.initial, Pc.held], by simp [RunState.initial, State.initial]⟩
  excl := ⟨by simp [RunState.initial, State.initial, Pc.held],
    by simp [RunState.initial, State.initial]⟩
  fits _ := trivial
  ended_iff _ := iff_of_false (by simp [RunState.initial]) (by
    simp [RunState.initial, State.initial, FiberState.Ended])
  kept _ _ h := by cases h
  idle _ := ⟨iff_of_false (by simp [RunState.initial]) (by
      simp [RunState.initial, State.initial, FiberState.Ended]),
    fun hin => absurd hin.1 (by simp [RunState.initial, State.initial, Pc.inIdle]),
    fun _ => by simp [RunState.initial, State.initial]⟩

namespace Tracked

variable {s : RunState n γ} (h : Tracked s)
include h

lemma outsideWindows {a : Action n γ} (ha : a.Enabled s.base) (hapart : Apart s (.act a)) :
    OutsideWindows s.base a := by
  cases a with
  | scan w =>
    intro f hf v
    by_cases hv : v = w
    · rw [hv, show s.base.pc w = _ from ha]
      exact nofun
    · exact (hapart f hf v hv).1
  | resetCbFiber w cb thread f =>
    intro v hwindow
    by_cases hv : v = w
    · rw [hv, ha.1] at hwindow
      cases hwindow
    refine (h.kept w f ha.2.1).unheld v hv ?_
    cases hpc : s.base.pc v <;> rw [hpc] at hwindow <;>
      first
        | exact hwindow
        | cases hwindow
  | _ => trivial

lemma act {a : Action n γ} (hd : (Deed.act a).Enabled s) (hapart : Apart s (.act a))
    (hidle : ∀ w, a = .enterIdle w → s.base.idleFiber w ≠ .except) :
    Tracked (Deed.next s (.act a)) := by
  have ha := hd.1
  have hout := h.outsideWindows ha hapart
  refine ⟨h.exist.next ha, h.excl.next h.exist ha hout, h.excl.fits_next h.exist h.fits ha hout,
    ended_next h.ended_iff h.fits ha, ?_, idleFits_next h.idle ha hidle⟩
  intro w f hf
  by_cases hw : a.worker = some w
  · have hothers : ∀ v ≠ w, a.worker ≠ some v := fun v hv heq =>
      hv (Option.some.inj (heq.symm.trans hw))
    rcases Action.cbFiber_source hf with hold | ⟨hnew, cb, thread, rfl⟩
    · have hkept := h.kept w f hold
      refine ⟨fun v hv => ?_, fun v hv => ?_, ?_⟩
      · rw [show (Deed.next s (.act a)).base.pc v = _ from Action.next_pc (hothers v hv)]
        exact hkept.unheld v hv
      · rw [show (Deed.next s (.act a)).base.cbFiber v = _ from Action.next_cbFiber (hothers v hv)]
        exact hkept.unkept v hv
      rcases hkept.used with huse | hspent
      · exact used_of_uses huse ha hw hf
      · exact used_of_spent hspent (h.fits w) hold hd hw
    -- the worker has just created the fiber
    have hpc : ((Action.newCbFiber w cb thread).next s.base).pc w =
        .swapIn s.base.nextFiber true := update_self ..
    refine ⟨fun v hv hheld => ?_, fun v hv hcb => ?_, Or.inl ?_⟩
    · rw [show (Deed.next s (.act (.newCbFiber w cb thread))).base.pc v = _ from
        Action.next_pc (hothers v hv)] at hheld
      exact (h.exist.held v f hheld).ne hnew
    · rw [show (Deed.next s (.act (.newCbFiber w cb thread))).base.cbFiber v = _ from
        Action.next_cbFiber (hothers v hv)] at hcb
      exact (h.exist.cbFiber v f hcb).ne hnew
    · exact (congrArg Pc.usesCb hpc).trans (congrArg some hnew.symm)
  · rw [show (Deed.next s (.act a)).base.cbFiber w = _ from Action.next_cbFiber hw] at hf
    exact (h.kept w f hf).of_other hf h.exist ha hapart hw

lemma idleLeaves {w : Fin n} {st : FiberState} (hd : (Deed.idleLeaves w st).Enabled s) :
    Tracked (Deed.next s (.idleLeaves w st)) := by
  have hnone : (s.base.pc w).held = none ∧ (s.base.pc w).usesCb = none := by
    cases hpc : s.base.pc w <;>
      simp_all [Deed.Enabled, Deed.InsideIdle, Pc.inIdle, Pc.held, Pc.usesCb]
  have hself : (Deed.next s (.idleLeaves w st)).base.pc w = .leaveIdle := update_self ..
  have hother : ∀ v ≠ w, (Deed.next s (.idleLeaves w st)).base.pc v = s.base.pc v :=
    fun v hv => update_of_ne hv _ _
  have hheld : ∀ v, ((Deed.next s (.idleLeaves w st)).base.pc v).held = (s.base.pc v).held := by
    intro v
    by_cases hv : v = w
    · rw [hv, hself, hnone.1]
      rfl
    · rw [hother v hv]
  refine ⟨⟨h.exist.queue, h.exist.waiting, h.exist.release w rfl, h.exist.cbFiber⟩,
    h.excl.idle w rfl rfl rfl, fun v => ?_, h.ended_iff, fun v f hf => ?_, fun v => ?_⟩
  · by_cases hv : v = w
    · rw [hv, hself]
      trivial
    · rw [hother v hv]
      exact h.fits v
  · have hkept := h.kept v f hf
    refine ⟨fun u hu => ?_, hkept.unkept, ?_⟩
    · rw [hheld u]
      exact hkept.unheld u hu
    by_cases hv : v = w
    · subst hv
      have hspent := hkept.used.resolve_left (by simp [hnone.2])
      refine Or.inr ⟨hspent.noCb, hspent.ne_hold, hspent.ne_ready, fun hexec => ?_⟩
      exact absurd (hspent.exec hexec) (by simp [hnone.1])
    rw [hother v hv]
    exact hkept.used.imp_right fun hspent =>
      ⟨hspent.noCb, hspent.ne_hold, hspent.ne_ready, hspent.exec⟩
  by_cases hv : v = w
  · subst hv
    have hfiber : (Deed.next s (.idleLeaves v st)).base.idleFiber v = st := update_self ..
    have hended : (Deed.next s (.idleLeaves v st)).idleEnded v = decide st.Ended := update_self ..
    rw [hself, hfiber, hended]
    exact ⟨decide_eq_true_iff, fun hin => absurd rfl hin.2, fun hout => by cases hout⟩
  have hfiber : (Deed.next s (.idleLeaves w st)).base.idleFiber v = s.base.idleFiber v :=
    update_of_ne hv _ _
  have hended : (Deed.next s (.idleLeaves w st)).idleEnded v = s.idleEnded v := update_of_ne hv _ _
  rw [hother v hv, hfiber, hended]
  exact h.idle v

lemma legal_iff : s.Legal ↔ ∀ w, s.base.pc w = .dispatch none → s.base.idleFiber w ≠ .except := by
  constructor
  · intro hlegal w hpc hexcept
    have hresume := hlegal.swapInIdle w hpc (by simp [hexcept])
    rw [hexcept] at hresume
    exact absurd hresume (by decide)
  intro hidle
  constructor
  · intro w f isCb hpc
    have hfits := h.fits w
    rwa [hpc] at hfits
  · intro w hpc hterm
    have hout := (h.idle w).outside (by rw [hpc]; rfl)
    cases hst : s.base.idleFiber w <;> simp_all [FiberState.Resumable]
  · intro w cb thread f hpc hcb
    have hspent := (h.kept w f hcb).used.resolve_left (by rw [hpc]; exact nofun)
    have hexec : s.base.fiber f ≠ .exec := by
      intro hexec
      have hheld := hspent.exec hexec
      rw [hpc] at hheld
      cases hheld
    have hhold := hspent.ne_hold
    have hready := hspent.ne_ready
    cases hst : s.base.fiber f <;> simp_all [FiberState.Resettable]
  · intro w f isCb hpc
    have hexec : s.base.fiber f = .exec := by
      have hfits := h.fits w
      rwa [hpc] at hfits
    rw [← Bool.not_eq_true, h.ended_iff f, hexec]
    decide
  intro w hpc
  have hexec := (h.idle w).inside (by rw [hpc]; exact ⟨rfl, by simp⟩)
  rw [← Bool.not_eq_true, (h.idle w).ended_iff, hexec]
  decide

lemma step {d : Deed n γ} (hd : d.Enabled s) (hapart : Apart s d) (hlegal : s.Legal) :
    Tracked (d.next s) := by
  cases d with
  | act a =>
    refine h.act hd hapart ?_
    rintro w rfl
    exact h.legal_iff.mp hlegal w hd.1.1
  | idleLeaves w st => exact h.idleLeaves hd

end Tracked

lemma apart_of_single (hn : n = 1) (s : RunState n γ) (d : Deed n γ) : Apart s d := by
  subst hn
  cases d with
  | act a =>
    cases a with
    | scan w => exact fun f _ v hv => absurd (Subsingleton.elim v w) hv
    | _ => trivial
  | idleLeaves => trivial

def Deed.throws : Deed n γ → Bool
  | .act _ => false
  | .idleLeaves _ st => decide (st = .except)

lemma idleFiber_next (h : ∀ w, s.base.idleFiber w ≠ .except) {d : Deed n γ}
    (hd : d.throws = false) : ∀ w, (d.next s).base.idleFiber w ≠ .except := by
  have write {v : Fin n} {st : FiberState} (hst : st ≠ .except) (w : Fin n) :
      update s.base.idleFiber v st w ≠ .except := by
    rw [update_apply]
    split
    · exact hst
    · exact h w
  cases d with
  | idleLeaves v st => exact write (by simpa [Deed.throws] using hd)
  | act a =>
    cases a with
    | enterIdle v => exact write (by decide)
    | checkQueue v clock =>
      refine write ?_
      split
      · decide
      · exact h v
    | leaveIdle v =>
      refine write ?_
      cases hst : s.base.idleFiber v <;> simp_all [FiberState.settle]
    | _ => exact h

/-- Workers that keep apart apply `swapIn` and `reset` only to fibers in their states if no idle
function throws; else exactly as long as no worker without a task has an idle fiber in `EXCEPT`. -/
theorem finished_never_resumed [DecidableEq γ] {s : RunState n γ} :
    ((runSystem n γ).ReachableWith (fun s d => (n = 1 ∨ Apart s d) ∧ d.throws = false) s →
      s.Legal) ∧
      ((runSystem n γ).ReachableWith (fun s d => (n = 1 ∨ Apart s d) ∧ s.Legal) s →
        (s.Legal ↔ ∀ w, s.base.pc w = .dispatch none → s.base.idleFiber w ≠ .except)) := by
  have apart {s : RunState n γ} {d : Deed n γ} (h : n = 1 ∨ Apart s d) : Apart s d :=
    h.elim (fun hn => apart_of_single hn s d) id
  constructor
  · intro h
    have hinv : Tracked s ∧ ∀ w, s.base.idleFiber w ≠ .except := by
      refine TransitionSystem.ReachableWith.invariant
        (I := fun s => Tracked s ∧ ∀ w, s.base.idleFiber w ≠ .except) ?_ ?_ h
      · rintro s ⟨now, rfl⟩
        exact ⟨tracked_initial now, by simp [RunState.initial, State.initial]⟩
      rintro s d s' ⟨htracked, hidle⟩ ⟨hapart, hthrows⟩ hstep
      obtain ⟨hd, rfl⟩ := runSystem_step hstep
      exact ⟨htracked.step hd (apart hapart) (htracked.legal_iff.mpr fun w _ => hidle w),
        idleFiber_next hidle hthrows⟩
    exact hinv.1.legal_iff.mpr fun w _ => hinv.2 w
  intro h
  have hinv : Tracked s := by
    refine TransitionSystem.ReachableWith.invariant ?_ ?_ h
    · rintro s ⟨now, rfl⟩
      exact tracked_initial now
    rintro s d s' htracked ⟨hapart, hlegal⟩ hstep
    obtain ⟨hd, rfl⟩ := runSystem_step hstep
    exact htracked.step hd (apart hapart) hlegal
  exact hinv.legal_iff

def twiceQueued (w : Fin 1) : List (Deed 1 Unit) :=
  [.act .newFiber, .act (.schedule (some (.fiber 0)) none), .act (.schedule (some (.fiber 0)) none),
    .act (.scan w), .act (.tickleMe w (some ⟨.fiber 0, none⟩)), .act (.resume w 0 none),
    .act (.swapIn w 0 false), .act (.yield w 0 false .term), .act (.swapOut w 0 false),
    .act (.returned w 0 false), .act (.fixupEnded w 0 false), .act (.scan w),
    .act (.skip w 0 none), .act (.schedule (some (.cb (.user ()))) none), .act (.scan w),
    .act (.newCbFiber w (.user ()) none), .act (.swapIn w 1 true),
    .act (.schedule (some (.fiber 1)) none), .act (.yield w 1 true .term),
    .act (.swapOut w 1 true), .act (.returned w 1 true), .act (.fixupEnded w 1 true),
    .act (.scan w), .act (.resume w 1 none), .act (.swapIn w 1 false),
    .act (.yield w 1 false .except), .act (.swapOut w 1 false), .act (.returned w 1 false),
    .act (.fixupEnded w 1 false), .act (.scan w), .act (.enterIdle w), .idleLeaves w .hold,
    .act (.leaveIdle w), .act (.scan w)]

theorem finished_never_resumed_twice_queued :
    ∃ s, (runSystem 1 Unit).runWith (fun s d => (1 = 1 ∨ Apart s d) ∧ d.throws = false)
        (RunState.initial 1 Unit 0) (twiceQueued 0) = some s ∧
      s.base.pc 0 = .dispatch none ∧ s.Legal := by
  have hrun : (runSystem 1 Unit).runWith (fun s d => (1 = 1 ∨ Apart s d) ∧ d.throws = false)
      (RunState.initial 1 Unit 0) (twiceQueued 0) = some _ := rfl
  have hreach := TransitionSystem.reachableWith_of_init hrun ⟨0, rfl⟩
  exact ⟨_, hrun, rfl, finished_never_resumed.1 hreach⟩

def throwIdle (w : Fin 1) : List (Deed 1 Unit) :=
  [.act (.scan w), .act (.enterIdle w), .idleLeaves w .except, .act (.leaveIdle w), .act (.scan w)]

def bothTake (w v : Fin 2) : List (Deed 2 Unit) :=
  [.act .newFiber, .act (.schedule (some (.fiber 0)) none), .act (.schedule (some (.fiber 0)) none),
    .act (.scan w), .act (.scan v), .act (.tickleMe w (some ⟨.fiber 0, none⟩)),
    .act (.resume w 0 none), .act (.resume v 0 none), .act (.swapIn w 0 false),
    .act (.yield w 0 false .term)]

/-- After the idle function has thrown, `run` swaps its fiber in once more. With two workers so is a
finished fiber that was queued twice. -/
theorem idle_resumed_after_throw :
    (∃ s s', (runSystem 1 Unit).run (RunState.initial 1 Unit 0) (throwIdle 0) = some s ∧ ¬ s.Legal ∧
        (runSystem 1 Unit).step s (.act (.enterIdle 0)) = some s' ∧
        s'.base.pc 0 = .idleTop ∧ s'.idleEnded 0 = true) ∧
      ∃ s, (runSystem 2 Unit).run (RunState.initial 2 Unit 0) (bothTake 0 1) = some s ∧
        s.base.pc 1 = .swapIn 0 false ∧ s.base.fiber 0 = .term ∧ ¬ s.Legal := by
  refine ⟨⟨_, _, rfl, fun hlegal => ?_, rfl, rfl, rfl⟩, _, rfl, rfl, rfl, fun hlegal => ?_⟩
  · exact absurd (hlegal.swapInIdle 0 rfl (by decide)) (by decide)
  · exact absurd (hlegal.swapIn 1 0 false rfl) (by decide)

end Yuyu.Scheduler
