import Yuyu.Hook.Model
import Yuyu.IOManager.Waiters

/-!
# Timeouts of hooked calls

A call with a timeout arms a timer, registers for its event and yields. If the timer's callback runs
before the event is registered there is nothing to cancel, and nobody wakes the fiber up.
-/

namespace Yuyu.Hook

open Foundation List Function
open IOManager (Handoff Outcome Registration)

variable {n : Nat}

/-- The call is on its way to its `addEvent`. -/
def Pc.inWindow : Pc → Bool
  | .get _ | .inspect .. | .apply _ | .arm _ | .register .. => true
  | _ => false

/-- A callback does not call `cancelEvent` while its call is in the window, and `epoll_ctl` does not
fail. -/
def State.CancelsLate (s : State n) (timer : Timer n) (fails : Bool) : Prop :=
  timer.phase = .cancelling → fails = false ∧
    ∀ fr ∈ (s.pc timer.fiber).frame, fr.info = timer.info → (s.pc timer.fiber).inWindow = false
deriving Decidable

/-- The table of events has a size that is an `int`, and no event is registered for a descriptor
when it is closed. -/
def Pc.Punctual (s : State n) : Pc → Prop
  | .register fr _ => fr.fd ≤ IOManager.State.maxFd
  | .closeFd fd => (s.io.view fd).events.isEmpty = true
  | _ => True

instance (s : State n) (p : Pc) : Decidable (p.Punctual s) := by
  induction p using Pc.casesOn <;> dsimp only [Pc.Punctual] <;> infer_instance

/-- The condition on the steps. -/
def Punctual (s : State n) : Action n → Prop
  | .run f _ _ => (s.pc f).Punctual s
  | .timer t fails => ∀ timer ∈ s.timers[t]?, s.CancelsLate timer fails
  | _ => True

instance (s : State n) (a : Action n) : Decidable (Punctual s a) := by
  induction a using Action.casesOn <;> dsimp only [Punctual] <;> infer_instance

/-- The timer was armed by this call. -/
def Timer.Of (x : Timer n) (f : Fin n) (fr : Frame) : Prop := x.fiber = f ∧ x.info = fr.info

/-- The callback has not yet written `cancelled`, and will run. -/
def Phase.isAhead : Phase → Bool
  | .pending | .expired | .marking => true
  | .cancelled | .cancelling | .done => false

def Frame.Running (timers : List (Timer n)) (f : Fin n) (fr : Frame) : Prop :=
  fr.cancelled = true → ∃ x ∈ timers, x.Of f fr ∧ x.phase = .cancelling

def Frame.Armed (timers : List (Timer n)) (f : Fin n) (fr : Frame) : Prop :=
  fr.timeout ≠ noTimeout → fr.cancelled = false → ∃ x ∈ timers, x.Of f fr ∧ x.phase.isAhead = true

/-- The timer a fiber holds is its own. -/
def Holds (timers : List (Timer n)) (f : Fin n) (timer : Option Nat) : Prop :=
  ∀ t ∈ timer, ∃ x, timers[t]? = some x ∧ x.fiber = f

/-- What `addEvent` registers for a call. -/
def Frame.registration (f : Fin n) (fr : Frame) : Registration :=
  ⟨fr.fd, fr.call.event, some 0, .fiber f⟩

def Pc.Waits (io : IOManager.State) (timers : List (Timer n)) (f : Fin n) : Pc → Prop
  | .get fr | .inspect fr _ | .apply fr | .arm fr => fr.Running timers f
  | .register fr timer => Holds timers f timer ∧ fr.Running timers f ∧ fr.Armed timers f
  | .failed _ timer | .resumed _ timer => Holds timers f timer
  | .yield fr timer w | .suspended fr timer w =>
    Holds timers f timer ∧ io.issued[w]? = some (fr.registration f) ∧
      (Woken io.handed w ∨ fr.Running timers f ∧ fr.Armed timers f)
  | _ => True

def Frame.key (fr : Frame) : Nat × Int × Call := (fr.info, fr.fd, fr.call)

def Pc.key (p : Pc) : Option (Nat × Int × Call) := p.frame.map Frame.key

section Fixed

variable {io io' : IOManager.State} {timers timers' : List (Timer n)} {f : Fin n} {p : Pc}

lemma Pc.Waits.extend (h : p.Waits io timers f) (hissued : io.issued <+: io'.issued)
    (hhanded : io.handed <+: io'.handed) : p.Waits io' timers f := by
  have hwait : ∀ (fr : Frame) (timer : Option Nat) (w : Nat),
      (Pc.yield fr timer w).Waits io timers f → (Pc.yield fr timer w).Waits io' timers f := by
    rintro fr timer w ⟨hholds, hreg, hahead⟩
    obtain ⟨more, hmore⟩ := hissued
    refine ⟨hholds, ?_, hahead.imp_left fun hwoken => ?_⟩
    · rw [← hmore]
      exact IOManager.State.getElem?_append_of_some hreg
    obtain ⟨hands, hhands⟩ := hhanded
    rw [Woken, ← hhands, map_append]
    exact mem_append_left _ hwoken
  cases p with
  | yield fr timer w | suspended fr timer w => exact hwait fr timer w h
  | _ => exact h

lemma Pc.Waits.imp (h : p.Waits io timers f) (hholds : ∀ t, Holds timers f t → Holds timers' f t)
    (hrunning : ∀ fr ∈ p.frame, fr.Running timers f → fr.Running timers' f)
    (harmed : ∀ fr ∈ p.frame, fr.Armed timers f → fr.Armed timers' f) : p.Waits io timers' f := by
  cases p with
  | get fr | inspect fr | apply fr | arm fr => exact hrunning fr rfl h
  | register fr timer => exact ⟨hholds _ h.1, hrunning fr rfl h.2.1, harmed fr rfl h.2.2⟩
  | failed fr timer | resumed fr timer => exact hholds _ h
  | yield fr timer w | suspended fr timer w =>
    exact ⟨hholds _ h.1, h.2.1, h.2.2.imp_right fun hahead =>
      ⟨hrunning fr rfl hahead.1, harmed fr rfl hahead.2⟩⟩
  | _ => trivial

lemma Pc.Waits.wake (h : p.Waits io timers f) (fd : Int) (before after : List Handoff) :
    (p.wake fd before after).Waits io timers f := by
  have hwake : ∀ (fr : Frame) (timer : Option Nat) (w : Nat),
      (Pc.yield fr timer w).Waits io timers f →
        (Pc.yield (fr.wake fd before after w) timer w).Waits io timers f := by
    intro fr timer w hfr
    unfold Frame.wake
    split
    · exact hfr
    · exact hfr
  cases p with
  | yield fr timer w | suspended fr timer w => exact hwake fr timer w h
  | _ => exact h

lemma Pc.key_wake (p : Pc) (fd : Int) (before after : List Handoff) :
    (p.wake fd before after).key = p.key := by
  cases p with
  | yield fr timer w | suspended fr timer w =>
    simp only [Pc.wake, Pc.key, Pc.frame, Frame.wake]
    split <;> rfl
  | _ => rfl

end Fixed

/-! ## Replacing a timer -/

section Replace

variable {timers : List (Timer n)} {t : Nat} {a b : Timer n} {f : Fin n} {fr : Frame}

lemma mem_set_of_mem {x : Timer n} (ha : timers[t]? = some a) (hx : x ∈ timers) :
    x = a ∨ x ∈ timers.set t b := by
  obtain ⟨i, hi⟩ := mem_iff_getElem?.mp hx
  by_cases hit : i = t
  · left
    rw [hit, ha] at hi
    exact (Option.some.inj hi).symm
  right
  rw [mem_iff_getElem?]
  exact ⟨i, by rw [List.getElem?_set_ne (Ne.symm hit), hi]⟩

lemma mem_set_self (ha : timers[t]? = some a) : b ∈ timers.set t b :=
  mem_set (List.getElem?_eq_some_iff.mp ha).1 b

lemma Holds.replace (ha : timers[t]? = some a) {phase : Phase} {timer : Option Nat}
    (h : Holds timers f timer) : Holds (timers.set t { a with phase := phase }) f timer := by
  intro i hi
  obtain ⟨x, hx, hxf⟩ := h i hi
  by_cases hit : t = i
  · subst hit
    obtain rfl : a = x := Option.some.inj (ha.symm.trans hx)
    refine ⟨{ a with phase := phase }, ?_, hxf⟩
    exact List.getElem?_set_self (List.getElem?_eq_some_iff.mp ha).1
  · exact ⟨x, by rw [List.getElem?_set_ne hit, hx], hxf⟩

lemma Frame.Running.replace (ha : timers[t]? = some a) (hphase : a.phase ≠ .cancelling)
    (h : fr.Running timers f) : fr.Running (timers.set t b) f := by
  intro hcancelled
  obtain ⟨x, hx, hof, hxphase⟩ := h hcancelled
  rcases mem_set_of_mem (b := b) ha hx with rfl | hmem
  · contradiction
  · exact ⟨x, hmem, hof, hxphase⟩

lemma Frame.Armed.replace (ha : timers[t]? = some a)
    (hahead : a.Of f fr → fr.cancelled = false → a.phase.isAhead = true →
      b.Of f fr ∧ b.phase.isAhead = true)
    (h : fr.Armed timers f) : fr.Armed (timers.set t b) f := by
  intro htimeout hcancelled
  obtain ⟨x, hx, hof, hxphase⟩ := h htimeout hcancelled
  rcases mem_set_of_mem (b := b) ha hx with rfl | hmem
  · exact ⟨b, mem_set_self ha, hahead hof hcancelled hxphase⟩
  · exact ⟨x, hmem, hof, hxphase⟩

lemma mem_of_mem_set {x : Timer n} {phase : Phase} (ha : timers[t]? = some a)
    (hx : x ∈ timers.set t { a with phase := phase }) :
    ∃ y ∈ timers, y.fiber = x.fiber ∧ y.info = x.info ∧ y.fd = x.fd ∧ y.event = x.event := by
  rcases mem_or_eq_of_mem_set hx with hmem | rfl
  · exact ⟨x, hmem, rfl, rfl, rfl, rfl⟩
  · exact ⟨a, mem_of_getElem? ha, rfl, rfl, rfl, rfl⟩

lemma Frame.Running.mark (ha : timers[t]? = some a) (hfiber : a.fiber = f)
    (hphase : a.phase = .marking) (h : fr.Running timers f) :
    (fr.mark a.info).Running (timers.set t { a with phase := .cancelling }) f := by
  unfold Frame.mark
  split
  · rename_i hinfo
    exact fun _ => ⟨_, mem_set_self ha, ⟨hfiber, hinfo.symm⟩, rfl⟩
  · exact h.replace ha (by simp [hphase])

lemma Frame.Armed.mark (ha : timers[t]? = some a) (h : fr.Armed timers f) :
    (fr.mark a.info).Armed (timers.set t { a with phase := .cancelling }) f := by
  unfold Frame.mark
  split
  · intro _ hcancelled
    contradiction
  · rename_i hinfo
    exact h.replace ha fun hof => (hinfo hof.2.symm).elim

lemma Frame.registration_mark (info : Nat) (fr : Frame) :
    (fr.mark info).registration f = fr.registration f := by
  unfold Frame.mark
  split <;> rfl

lemma Pc.Waits.mark {io : IOManager.State} {p : Pc} (h : p.Waits io timers f)
    (ha : timers[t]? = some a) (hfiber : a.fiber = f) (hphase : a.phase = .marking) :
    (p.mapFrame (Frame.mark a.info)).Waits io (timers.set t { a with phase := .cancelling }) f := by
  have hholds : ∀ timer, Holds timers f timer →
      Holds (timers.set t { a with phase := .cancelling }) f timer := fun _ => Holds.replace ha
  cases p with
  | get fr | inspect fr | apply fr | arm fr => exact Frame.Running.mark ha hfiber hphase h
  | register fr timer =>
    exact ⟨hholds _ h.1, Frame.Running.mark ha hfiber hphase h.2.1, Frame.Armed.mark ha h.2.2⟩
  | failed fr timer | resumed fr timer => exact hholds _ h
  | yield fr timer w | suspended fr timer w =>
    refine ⟨hholds _ h.1, ?_, h.2.2.imp_right fun hahead =>
      ⟨Frame.Running.mark ha hfiber hphase hahead.1, Frame.Armed.mark ha hahead.2⟩⟩
    rw [Frame.registration_mark]
    exact h.2.1
  | _ => trivial

lemma Pc.Waits.cancelled {io : IOManager.State} {p : Pc} (h : p.Waits io timers f)
    (ha : timers[t]? = some a) (hphase : a.phase = .cancelling)
    (hwindow : ∀ fr ∈ p.frame, a.Of f fr → p.inWindow = false)
    (hhands : ∀ fr ∈ p.frame, a.Of f fr → ∀ w, io.issued[w]? = some (fr.registration f) →
      Woken io.handed w) : p.Waits io (timers.set t { a with phase := .done }) f := by
  have hholds : ∀ timer, Holds timers f timer →
      Holds (timers.set t { a with phase := .done }) f timer := fun _ => Holds.replace ha
  have hrunning : ∀ fr, ¬ a.Of f fr → fr.Running timers f →
      fr.Running (timers.set t { a with phase := .done }) f := by
    intro fr hnot hrun hcancelled
    obtain ⟨x, hx, hof, hxphase⟩ := hrun hcancelled
    rcases mem_set_of_mem (b := { a with phase := .done }) ha hx with rfl | hmem
    · contradiction
    · exact ⟨x, hmem, hof, hxphase⟩
  have harmed : ∀ fr : Frame, fr.Armed timers f →
      fr.Armed (timers.set t { a with phase := .done }) f := by
    intro fr harm
    refine harm.replace ha fun _ _ hahead => ?_
    rw [hphase] at hahead
    contradiction
  -- in the window the callback is not a callback of this call
  have hother : p.inWindow = true → ∀ fr ∈ p.frame, ¬ a.Of f fr := by
    intro hin fr hfr hof
    rw [hwindow fr hfr hof] at hin
    contradiction
  cases p with
  | get fr | inspect fr | apply fr | arm fr => exact hrunning fr (hother rfl fr rfl) h
  | register fr timer =>
    exact ⟨hholds _ h.1, hrunning fr (hother rfl fr rfl) h.2.1, harmed fr h.2.2⟩
  | failed fr timer | resumed fr timer => exact hholds _ h
  | yield fr timer w | suspended fr timer w =>
    refine ⟨hholds _ h.1, h.2.1, ?_⟩
    by_cases hof : a.Of f fr
    · exact Or.inl (hhands fr rfl hof w h.2.1)
    · exact h.2.2.imp_right fun hahead => ⟨hrunning fr hof hahead.1, harmed fr hahead.2⟩
  | _ => trivial

lemma Pc.key_mark (p : Pc) (info : Nat) : (p.mapFrame (Frame.mark info)).key = p.key := by
  have hkey : ∀ fr : Frame, (fr.mark info).key = fr.key := by
    intro fr
    unfold Frame.mark
    split <;> rfl
  cases p <;> simp [Pc.mapFrame, Pc.key, Pc.frame, hkey]

end Replace

/-! ## The invariant -/

namespace State

/-- The books are in order, timers belong to calls made before, and every fiber
that waits will be woken up. -/
structure Timely (s : State n) : Prop where
  inv : s.io.Inv
  size_le : 32 ≤ s.io.size
  deleted_eq : s.io.deleted = []
  tickle : s.kernel.file s.io.tickleFd = none
  fresh : ∀ x ∈ s.timers, x.info < s.nextInfo
  called : ∀ f, ∀ k ∈ (s.pc f).key, k.1 < s.nextInfo
  captured : ∀ f, ∀ k ∈ (s.pc f).key, ∀ x ∈ s.timers, x.fiber = f → x.info = k.1 →
    x.fd = k.2.1 ∧ x.event = k.2.2.event
  waits : ∀ f, (s.pc f).Waits s.io s.timers f

namespace Timely

variable {s s' : State n} (h : s.Timely)
include h

variable {f : Fin n} {p : Pc} {t : Nat} {a : Timer n} {fails : Bool} {fr : Frame}

lemma move (hpc : s'.pc = update s.pc f p) (hio : s'.io = s.io)
    (htimers : s'.timers = s.timers) (hnext : s'.nextInfo = s.nextInfo)
    (hfile : s'.kernel.file s.io.tickleFd = none)
    (hkey : ∀ k ∈ p.key, k ∈ (s.pc f).key) (hp : p.Waits s.io s.timers f) : s'.Timely where
  inv := hio ▸ h.inv
  size_le := hio ▸ h.size_le
  deleted_eq := hio ▸ h.deleted_eq
  tickle := by
    rw [hio]
    exact hfile
  fresh := by
    rw [htimers, hnext]
    exact h.fresh
  called := by
    rw [hpc, hnext]
    exact (forall_update_iff s.pc fun g q => ∀ k ∈ q.key, k.1 < s.nextInfo).mpr
      ⟨fun k hk => h.called f k (hkey k hk), fun g _ => h.called g⟩
  captured := by
    rw [hpc, htimers]
    exact (forall_update_iff s.pc fun g q => ∀ k ∈ q.key, ∀ x ∈ s.timers, x.fiber = g →
      x.info = k.1 → x.fd = k.2.1 ∧ x.event = k.2.2.event).mpr
        ⟨fun k hk => h.captured f k (hkey k hk), fun g _ => h.captured g⟩
  waits := by
    rw [hpc, hio, htimers]
    exact (forall_update_iff s.pc fun g q => q.Waits s.io s.timers g).mpr ⟨hp, fun g _ => h.waits g⟩

lemma outcome {io : IOManager.State} {op : IOManager.Op} {r : Option Bool}
    (hout : Outcome s.io op io r) (hdel : op.isDel = false) :
    ({ s with io := io } : State n).Timely where
  inv := hout.inv
  size_le := h.size_le.trans hout.size_le
  deleted_eq := (hout.deleted_eq hdel).trans h.deleted_eq
  tickle := by
    show s.kernel.file io.tickleFd = none
    rw [hout.tickleFd_eq]
    exact h.tickle
  fresh := h.fresh
  called := h.called
  captured := h.captured
  waits f := (h.waits f).extend hout.issued_extends hout.handed_extends

lemma wake (fd : Int) (before after : List Handoff) :
    ({ s with pc := fun g => (s.pc g).wake fd before after } : State n).Timely where
  inv := h.inv
  size_le := h.size_le
  deleted_eq := h.deleted_eq
  tickle := h.tickle
  fresh := h.fresh
  called f := by
    rw [Pc.key_wake]
    exact h.called f
  captured f := by
    rw [Pc.key_wake]
    exact h.captured f
  waits f := (h.waits f).wake fd before after

lemma replace {phase : Phase} (ha : s.timers[t]? = some a)
    (htimers : s'.timers = s.timers.set t { a with phase := phase })
    (hio : s'.io = s.io) (hkernel : s'.kernel = s.kernel) (hnext : s'.nextInfo = s.nextInfo)
    (hkey : ∀ f, (s'.pc f).key = (s.pc f).key)
    (hwaits : ∀ f, (s'.pc f).Waits s.io (s.timers.set t { a with phase := phase }) f) :
    s'.Timely where
  inv := hio ▸ h.inv
  size_le := hio ▸ h.size_le
  deleted_eq := hio ▸ h.deleted_eq
  tickle := by
    rw [hio, hkernel]
    exact h.tickle
  fresh x hx := by
    rw [htimers] at hx
    obtain ⟨y, hy, -, hinfo, -⟩ := mem_of_mem_set ha hx
    rw [hnext, ← hinfo]
    exact h.fresh y hy
  called f := by
    rw [hkey, hnext]
    exact h.called f
  captured f k hk x hx hfiber hxinfo := by
    rw [htimers] at hx
    rw [hkey] at hk
    obtain ⟨y, hy, hyf, hinfo, hfd, hevent⟩ := mem_of_mem_set ha hx
    rw [← hfd, ← hevent]
    exact h.captured f k hk y hy (hyf.trans hfiber) (hinfo.trans hxinfo)
  waits f := by
    rw [hio, htimers]
    exact hwaits f

lemma setPhase {phase : Phase} (ha : s.timers[t]? = some a) (hphase : a.phase ≠ .cancelling)
    (hahead : ∀ f, ∀ fr ∈ (s.pc f).frame, a.Of f fr → fr.cancelled = false →
      a.phase.isAhead = true → phase.isAhead = true) : (s.setPhase t a phase).Timely := by
  refine h.replace ha rfl rfl rfl rfl (fun _ => rfl) fun f => ?_
  refine (h.waits f).imp (fun _ => Holds.replace ha)
    (fun _ _ => Frame.Running.replace ha hphase) fun fr hfr => ?_
  exact Frame.Armed.replace ha fun hof hc hold => ⟨hof, hahead f fr hfr hof hc hold⟩

lemma mark (ha : s.timers[t]? = some a) (hphase : a.phase = .marking) :
    ((s.setPhase t a .cancelling).mark a).Timely := by
  have hpc : ((s.setPhase t a .cancelling).mark a).pc =
      update s.pc a.fiber ((s.pc a.fiber).mapFrame (Frame.mark a.info)) := rfl
  refine h.replace ha rfl rfl rfl rfl (fun f => ?_) fun f => ?_
  · rw [hpc]
    by_cases hf : f = a.fiber
    · rw [hf, update_self, Pc.key_mark]
    · rw [update_of_ne hf]
  rw [hpc]
  by_cases hf : f = a.fiber
  · subst hf
    rw [update_self]
    exact (h.waits a.fiber).mark ha rfl hphase
  rw [update_of_ne hf]
  refine (h.waits f).imp (fun _ => Holds.replace ha)
    (fun _ _ => Frame.Running.replace ha (by simp [hphase])) fun fr _ => ?_
  exact Frame.Armed.replace ha fun hof => (hf hof.1.symm).elim

lemma cancelIo (ha : s.timers[t]? = some a)
    (hphase : a.phase = .cancelling) (hok : s.CancelsLate a fails)
    {io : IOManager.State} {r : Bool} (hrun : s.io.cancelEvent a.fd a.event fails = .ok (io, r)) :
    ({ s.setPhase t a .done with io := io } : State n).Timely := by
  obtain ⟨rfl, hlate⟩ := hok hphase
  have hout := IOManager.cancelEvent_outcome h.inv h.size_le hrun
  have hnew := h.outcome hout rfl
  refine hnew.replace ha rfl rfl rfl rfl (fun _ => rfl) fun f => ?_
  refine (hnew.waits f).cancelled ha hphase ?_ ?_
  · rintro fr hfr ⟨rfl, hinfo⟩
    exact hlate fr hfr hinfo.symm
  rintro fr hfr ⟨rfl, hinfo⟩ w hreg
  obtain ⟨hfd, hevent⟩ := h.captured a.fiber fr.key (Option.mem_map_of_mem _ hfr) a
    (mem_of_getElem? ha) rfl hinfo
  rw [hfd, hevent] at hrun
  exact IOManager.cancelEvent_hands h.inv h.size_le h.deleted_eq hrun hreg

lemma runTimer (ha : s.timers[t]? = some a)
    (hok : s.CancelsLate a fails) (hrun : s.runTimer t a fails = some s') : s'.Timely := by
  unfold State.runTimer at hrun
  split at hrun
  · rename_i hphase
    cases hrun
    exact h.setPhase ha (by simp [hphase]) fun _ _ _ _ _ _ => rfl
  · rename_i hphase
    cases hrun
    refine h.setPhase ha (by simp [hphase]) fun f fr hfr hof hcancelled _ => ?_
    obtain ⟨rfl, hinfo⟩ := hof
    have hmust : s.mustCancel a := ⟨fr, hfr, hinfo.symm, hcancelled⟩
    rw [if_pos hmust]
    rfl
  · rename_i hphase
    cases hrun
    exact h.mark ha hphase
  · rename_i hphase
    split at hrun
    · contradiction
    rename_i hio
    cases hrun
    exact h.cancelIo ha hphase hok hio
  · contradiction
  · contradiction

lemma cancelTimer {timer : Option Nat} (hholds : Holds s.timers f timer)
    (hkey : ∀ k ∈ p.key, k ∈ (s.pc f).key) (hp : ∀ timers, p.Waits s.io timers f) :
    ((s.cancelTimer timer).move f p).Timely := by
  have hmove : (s.move f p).Timely := h.move rfl rfl rfl rfl h.tickle hkey (hp _)
  unfold State.cancelTimer
  split
  · exact hmove
  rename_i t
  obtain ⟨a, ha, hfiber⟩ := hholds t rfl
  rw [ha]
  dsimp only
  split
  · rename_i hphase
    refine hmove.replace ha rfl rfl rfl rfl (fun _ => rfl) fun g => ?_
    by_cases hg : g = f
    · subst hg
      rw [move_pc_self]
      exact hp _
    refine (hmove.waits g).imp (fun _ => Holds.replace ha)
      (fun _ _ => Frame.Running.replace ha (by simp [hphase])) fun fr _ => ?_
    exact Frame.Armed.replace ha fun hof => (hg (hof.1.symm.trans hfiber)).elim
  · exact hmove

lemma append (hfr : (s.pc f).frame = some fr) (phase : Phase) :
    ({ s with timers := s.timers ++ [⟨f, fr.info, fr.fd, fr.call.event, phase⟩] } :
      State n).Timely where
  inv := h.inv
  size_le := h.size_le
  deleted_eq := h.deleted_eq
  tickle := h.tickle
  fresh x hx := by
    rcases mem_append.mp hx with hold | hnew
    · exact h.fresh x hold
    · rw [mem_singleton.mp hnew]
      exact h.called f fr.key (Option.mem_map_of_mem _ hfr)
  called := h.called
  captured g k hk x hx hfiber hinfo := by
    rcases mem_append.mp hx with hold | hnew
    · exact h.captured g k hk x hold hfiber hinfo
    rw [mem_singleton.mp hnew] at hfiber ⊢
    obtain rfl : f = g := hfiber
    obtain rfl : fr.key = k := by simpa [Pc.key, hfr] using hk
    exact ⟨rfl, rfl⟩
  waits g := by
    refine (h.waits g).imp (fun timer hholds t ht => ?_) (fun fr' _ hrunning hc => ?_)
      fun fr' _ harmed ht hc => ?_
    · obtain ⟨x, hx, hxf⟩ := hholds t ht
      exact ⟨x, IOManager.State.getElem?_append_of_some hx, hxf⟩
    · obtain ⟨x, hx, hof⟩ := hrunning hc
      exact ⟨x, mem_append_left _ hx, hof⟩
    · obtain ⟨x, hx, hof⟩ := harmed ht hc
      exact ⟨x, mem_append_left _ hx, hof⟩

lemma armTimer (hpc : s.pc f = .arm fr) : (s.armTimer f fr).Timely := by
  have hrunning : fr.Running s.timers f := by
    have hf := h.waits f
    rwa [hpc] at hf
  have hkey : fr.key ∈ (s.pc f).key := by
    rw [hpc]
    rfl
  unfold State.armTimer
  split
  · rename_i htimeout
    refine h.move rfl rfl rfl rfl h.tickle (fun k hk => ?_) ⟨by simp [Holds], hrunning, ?_⟩
    · cases hk
      exact hkey
    · exact fun hne => (hne htimeout).elim
  have hfr : (s.pc f).frame = some fr := by
    rw [hpc]
    rfl
  have happend := h.append hfr .pending
  refine happend.move rfl rfl rfl rfl h.tickle (fun k hk => ?_) ⟨?_, ?_, fun _ _ => ?_⟩
  · cases hk
    exact hkey
  · intro t ht
    cases ht
    exact ⟨_, List.getElem?_concat_length, rfl⟩
  · intro hcancelled
    obtain ⟨x, hx, hof⟩ := hrunning hcancelled
    exact ⟨x, mem_append_left _ hx, hof⟩
  · exact ⟨_, mem_append_right _ (mem_singleton_self _), ⟨rfl, rfl⟩, rfl⟩

lemma addEvent {timer : Option Nat} (hpc : s.pc f = .register fr timer)
    (hmax : fr.fd ≤ IOManager.State.maxFd)
    (hrun : s.addEvent f fr timer fails = some s') : s'.Timely := by
  have hf := h.waits f
  rw [hpc] at hf
  obtain ⟨hholds, hrunning, harmed⟩ := hf
  have hkey : fr.key ∈ (s.pc f).key := by
    rw [hpc]
    rfl
  unfold State.addEvent at hrun
  split at hrun
  · contradiction
  split at hrun
  · contradiction
  rename_i io rt hio
  have hcaller : (callerOf f).OnScheduler := ⟨rfl, rfl⟩
  obtain ⟨hout, hissued⟩ := IOManager.addEvent_outcome h.inv h.size_le hmax hcaller hio
  have hnew := h.outcome hout rfl
  split at hrun
  · rename_i hrt
    cases hrun
    refine hnew.move rfl rfl rfl rfl hnew.tickle (fun k hk => ?_)
      ⟨hholds, ?_, Or.inr ⟨hrunning, harmed⟩⟩
    · cases hk
      exact hkey
    · rw [hissued hrt]
      exact List.getElem?_concat_length
  cases hrun
  refine hnew.move rfl rfl rfl rfl hnew.tickle (fun k hk => ?_) hholds
  cases hk
  exact hkey

lemma closeFile {fd : Int} (hempty : (s.io.view fd).events.isEmpty = true) :
    (s.closeFile f fd).Timely := by
  unfold State.closeFile
  split
  · exact h.move rfl rfl rfl rfl h.tickle (by simp [Pc.key, Pc.frame]) trivial
  rename_i hfile
  have htickle : fd ≠ s.io.tickleFd := by
    rintro rfl
    exact hfile h.tickle
  have hkernel : s.io.kernel fd = none := by
    rw [h.inv.kernel_eq, IOManager.State.interest, if_neg htickle]
    split
    · rename_i hin
      rw [IOManager.State.view, if_pos hin] at hempty
      rw [IOManager.interestOf, if_pos hempty]
    · rfl
  have hsame : s.io.setKernel (update s.io.kernel fd none) = s.io := by
    rw [← hkernel, update_eq_self]
    rfl
  refine h.move rfl hsame rfl rfl ?_ (by simp [Pc.key, Pc.frame]) trivial
  show (s.kernel.close fd).file s.io.tickleFd = none
  simp [Kernel.close, htickle.symm, h.tickle]

lemma install {fd : Int} (hfree : s.isFree fd) (socket : Bool) : (s.install fd socket).Timely where
  inv := h.inv
  size_le := h.size_le
  deleted_eq := h.deleted_eq
  tickle := by
    show (s.kernel.install fd socket).file s.io.tickleFd = none
    simp [Kernel.install, hfree.2.1.symm, h.tickle]
  fresh := h.fresh
  called := h.called
  captured := h.captured
  waits := h.waits

lemma stay {q : Pc} (hpc : s.pc f = p) (hkey : q.key = p.key)
    (hq : q.Waits s.io s.timers f) : (s.move f q).Timely := by
  refine h.move rfl rfl rfl rfl h.tickle (fun k hk => ?_) hq
  rw [hpc, ← hkey]
  exact hk

lemma leave {q : Pc} (hkey : q.key = none) (hq : q.Waits s.io s.timers f) :
    (s.move f q).Timely := by
  refine h.move rfl rfl rfl rfl h.tickle (fun k hk => ?_) hq
  rw [hkey] at hk
  cases hk

lemma finish {r : Result} (hrun : s.finish f fr r = some s') : s'.Timely := by
  unfold State.finish at hrun
  split at hrun
  · split at hrun
    · rename_i hfree
      cases hrun
      exact (h.install hfree true).leave rfl trivial
    · contradiction
  · cases hrun
    exact h.leave rfl trivial

lemma runFiber {r : Result} (hok : (s.pc f).Punctual s)
    (hrun : s.runFiber f r fails = some s') : s'.Timely := by
  have hf := h.waits f
  unfold State.runFiber at hrun
  cases hpc : s.pc f with
  | idle | returned =>
    rw [hpc] at hrun
    contradiction
  | get fr =>
    rw [hpc] at hf hrun
    simp only [State.getCtx] at hrun
    split at hrun
    · contradiction
    · cases hrun
      exact h.stay hpc rfl hf
    split at hrun
    · cases hrun
      exact h.stay hpc rfl trivial
    · cases hrun
      exact h.leave rfl trivial
  | inspect fr p =>
    rw [hpc] at hf hrun
    cases hrun
    unfold State.inspectCtx
    split
    · exact h.leave rfl trivial
    split
    · exact h.stay hpc rfl trivial
    · exact h.stay hpc rfl hf
  | direct fr =>
    rw [hpc] at hrun
    simp only at hrun
    split at hrun
    · exact h.finish hrun
    · contradiction
  | apply fr =>
    rw [hpc] at hf hrun
    simp only at hrun
    split at hrun
    · unfold State.applyFun at hrun
      split at hrun
      · cases hrun
        exact h
      · cases hrun
        exact h.stay hpc rfl hf
      · cases hrun
        exact h.stay hpc rfl hf
      · exact h.finish hrun
    · contradiction
  | arm fr =>
    rw [hpc] at hrun
    cases hrun
    exact h.armTimer hpc
  | register fr timer =>
    rw [hpc] at hok hrun
    exact h.addEvent hpc hok hrun
  | failed fr timer =>
    rw [hpc] at hf hrun
    simp only [State.addFailed] at hrun
    split at hrun
    · cases hrun
      exact h.cancelTimer hf (by simp [Pc.key, Pc.frame]) fun _ => trivial
    · contradiction
    · cases hrun
      exact h.cancelTimer hf (by simp [hpc, Pc.key, Pc.frame]) fun _ => trivial
  | yield fr timer w =>
    rw [hpc] at hf hrun
    cases hrun
    exact h.stay hpc rfl hf
  | suspended fr timer w =>
    rw [hpc] at hf hrun
    simp only at hrun
    split at hrun
    · cases hrun
      exact h.stay hpc rfl hf.1
    · contradiction
  | resumed fr timer =>
    rw [hpc] at hf hrun
    cases hrun
    exact h.cancelTimer hf (by simp [hpc, Pc.key, Pc.frame]) fun _ => trivial
  | check fr =>
    rw [hpc] at hrun
    cases hrun
    unfold State.testCancelled
    split
    · exact h.leave rfl trivial
    rename_i hcancelled
    split
    · exact h.stay hpc rfl fun hc => (hcancelled hc).elim
    · exact h.stay hpc rfl trivial
  | sockopt fr =>
    rw [hpc] at hrun
    simp only at hrun
    split at hrun
    · cases hrun
      exact h.leave rfl trivial
    · contradiction
  | track fd =>
    rw [hpc] at hrun
    simp only [State.trackFd] at hrun
    split at hrun
    · contradiction
    · cases hrun
      exact h.leave rfl trivial
    · cases hrun
      exact h.leave rfl trivial
  | create fd =>
    rw [hpc] at hrun
    simp only [State.createCtx, Option.map_eq_some_iff] at hrun
    obtain ⟨fds, -, rfl⟩ := hrun
    refine h.move rfl rfl rfl rfl ?_ (by simp [Pc.key, Pc.frame]) trivial
    have howner : s.kernel.owner s.io.tickleFd = none := Option.map_eq_none_iff.mpr h.tickle
    rw [← FdCtx.owner_new s.kernel fd] at howner
    exact Option.map_eq_none_iff.mp howner
  | closeGet fd =>
    rw [hpc] at hrun
    simp only [State.closeGet] at hrun
    split at hrun
    · contradiction
    · cases hrun
      exact h.leave rfl trivial
    · cases hrun
      exact h.leave rfl trivial
  | closeCancel fd =>
    rw [hpc] at hrun
    obtain ⟨io, r, hio, rfl⟩ := cancelAll_spec hrun
    have hnew := h.outcome (IOManager.cancelAll_outcome h.inv h.size_le hio) rfl
    exact (hnew.wake fd s.io.handed io.handed).leave rfl trivial
  | closeDel fd =>
    rw [hpc] at hrun
    simp only [State.closeDel, Option.map_eq_some_iff] at hrun
    obtain ⟨fds, -, rfl⟩ := hrun
    exact h.move rfl rfl rfl rfl h.tickle (by simp [Pc.key, Pc.frame]) trivial
  | closeFd fd =>
    rw [hpc] at hok hrun
    cases hrun
    exact h.closeFile hok

lemma call (hfr : p.frame = some fr) (hinfo : fr.info = s.nextInfo) (hp : p.Waits s.io s.timers f) :
    (State.move { s with nextInfo := s.nextInfo + 1 } f p).Timely where
  inv := h.inv
  size_le := h.size_le
  deleted_eq := h.deleted_eq
  tickle := h.tickle
  fresh x hx := Nat.lt_succ_of_lt (h.fresh x hx)
  called := by
    refine (forall_update_iff s.pc fun g q => ∀ k ∈ q.key, k.1 < s.nextInfo + 1).mpr
      ⟨fun k hk => ?_, fun g _ k hk => Nat.lt_succ_of_lt (h.called g k hk)⟩
    obtain rfl : fr.key = k := by simpa [Pc.key, hfr] using hk
    show fr.info < s.nextInfo + 1
    omega
  captured := by
    refine (forall_update_iff s.pc fun g q => ∀ k ∈ q.key, ∀ x ∈ s.timers, x.fiber = g →
      x.info = k.1 → x.fd = k.2.1 ∧ x.event = k.2.2.event).mpr
        ⟨fun k hk x hx _ hxinfo => ?_, fun g _ => h.captured g⟩
    obtain rfl : fr.key = k := by simpa [Pc.key, hfr] using hk
    have hlt := h.fresh x hx
    have heq : x.info = fr.info := hxinfo
    omega
  waits := (forall_update_iff s.pc fun g q => q.Waits s.io s.timers g).mpr
    ⟨hp, fun g _ => h.waits g⟩

lemma step {a : Action n} (hok : Punctual s a) (hstep : a.step s = some s') : s'.Timely := by
  unfold Action.step at hstep
  cases a with
  | call f c fd hookEnable =>
    simp only at hstep
    split at hstep
    · cases hstep
      cases hookEnable with
      | true => exact h.call rfl rfl fun hc => by contradiction
      | false => exact h.call rfl rfl trivial
    · contradiction
  | socket f fd =>
    simp only at hstep
    split at hstep
    · rename_i hfree
      cases hstep
      exact (h.install hfree.2 true).leave rfl trivial
    · contradiction
  | close f fd hookEnable =>
    simp only at hstep
    split at hstep
    · cases hstep
      cases hookEnable with
      | true | false => exact h.leave rfl trivial
    · contradiction
  | run f r fails => exact h.runFiber hok hstep
  | timer t fails =>
    simp only at hstep
    split at hstep
    · contradiction
    · rename_i a ha
      exact h.runTimer ha (hok a ha) hstep
  | dispatch i events err hup fails =>
    simp only [State.dispatch] at hstep
    split at hstep
    · rename_i hi
      split at hstep
      · contradiction
      rename_i io hio
      cases hstep
      exact h.outcome (IOManager.dispatch_outcome h.inv h.size_le (Or.inr ⟨i, hi, rfl⟩) hio) rfl
    · contradiction
  | setTimeout | setUserNonblock =>
    simp only at hstep
    split at hstep
    · cases hstep
      exact ⟨h.inv, h.size_le, h.deleted_eq, h.tickle, h.fresh, h.called, h.captured, h.waits⟩
    · contradiction
  | openFile fd socket =>
    simp only at hstep
    split at hstep
    · rename_i hfree
      cases hstep
      exact h.install hfree socket
    · contradiction

end Timely

lemma timely_initial (tickleFd : Int) : (State.initial tickleFd : State n).Timely where
  inv := IOManager.inv_initial tickleFd
  size_le := le_refl _
  deleted_eq := rfl
  tickle := rfl
  fresh := by simp [State.initial]
  called := by simp [State.initial, Pc.key, Pc.frame]
  captured := by simp [State.initial, Pc.key, Pc.frame]
  waits f := trivial

end State

/-- If no timeout callback cancels before its call has registered, a suspended call with a timeout
is queued or has a timer still ahead. -/
theorem timeout_not_lost {s : State n} (h : (hookSystem n).ReachableWith Punctual s) {f : Fin n}
    {fr : Frame} {timer : Option Nat} {w : Nat} (hpc : s.pc f = .suspended fr timer w)
    (htimeout : fr.timeout ≠ noTimeout) :
    (Woken s.io.handed w ∨
      ∃ x ∈ s.timers, x.Of f fr ∧ (x.phase.isAhead = true ∨ x.phase = .cancelling)) ∧
    (fr.cancelled = true → (∀ x ∈ s.timers, x.Of f fr → x.phase ≠ .cancelling) →
      Woken s.io.handed w) := by
  have htimely : s.Timely := by
    refine TransitionSystem.ReachableWith.invariant (I := State.Timely) ?_ ?_ h
    · rintro s ⟨tickleFd, rfl⟩
      exact State.timely_initial tickleFd
    · intro s a s' hs hok hstep
      exact hs.step hok hstep
  have hf := htimely.waits f
  rw [hpc] at hf
  obtain ⟨-, -, hwoken | ⟨hrunning, harmed⟩⟩ := hf
  · exact ⟨Or.inl hwoken, fun _ _ => hwoken⟩
  constructor
  · right
    cases hc : fr.cancelled with
    | true =>
      obtain ⟨x, hx, hof, hphase⟩ := hrunning hc
      exact ⟨x, hx, hof, Or.inr hphase⟩
    | false =>
      obtain ⟨x, hx, hof, hphase⟩ := harmed htimeout hc
      exact ⟨x, hx, hof, Or.inl hphase⟩
  intro hc hnone
  obtain ⟨x, hx, hof, hphase⟩ := hrunning hc
  exact (hnone x hx hof hphase).elim

def startTimedRead (f : Fin n) : List (Action n) :=
  openSocket f 5 ++ [.setTimeout 0 .rcv 100, .call f (.io .read) 5 true, go f (.ok 0), go f (.ok 0),
    go f (.error .eagain), go f (.ok 0)]

def expireFirst : List (Action n) :=
  [.timer 0 false, .timer 0 false, .timer 0 false, .timer 0 false]

def registerAndYield (f : Fin n) : List (Action n) := [go f (.ok 0), go f (.ok 0)]

theorem timeout_not_lost_after_yield :
    ∃ s, (hookSystem 1).runWith Punctual (.initial 9)
        (startTimedRead 0 ++ registerAndYield 0 ++ expireFirst) = some s ∧
      (∃ fr, s.pc 0 = .suspended fr (some 0) 0 ∧ fr.timeout = 100 ∧ fr.cancelled = true) ∧
      Woken s.io.handed 0 := by
  have hrun : (hookSystem 1).runWith Punctual (.initial 9)
      (startTimedRead 0 ++ registerAndYield 0 ++ expireFirst) = some _ := rfl
  have hreach := TransitionSystem.reachableWith_of_init hrun ⟨9, rfl⟩
  refine ⟨_, hrun, ⟨_, rfl, rfl, rfl⟩, ?_⟩
  refine (timeout_not_lost hreach (f := 0) rfl (by decide)).2 rfl fun x hx _ => ?_
  obtain rfl := mem_singleton.mp hx
  decide

/-- The callback runs between `addConditionTimer` and `addEvent`: the call yields and nobody wakes
it up. -/
theorem timeout_lost :
    ∃ s, (hookSystem 1).run (.initial 9)
        (startTimedRead 0 ++ expireFirst ++ registerAndYield 0) = some s ∧
      (∃ fr, s.pc 0 = .suspended fr (some 0) 0 ∧ fr.timeout = 100 ∧ fr.cancelled = true) ∧
      (∀ x ∈ s.timers, x.phase = .done) ∧ ¬ Woken s.io.handed 0 :=
  ⟨_, rfl, ⟨_, rfl, rfl, rfl⟩, by decide, by decide⟩

end Yuyu.Hook
