import Yuyu.Hook.Model
import Yuyu.IOManager.Handoffs

/-!
# The result of a hooked connect

`connect_with_timeout` waits until its socket is writable and then takes the error of the socket for
the outcome. The kernel answers 0 to `SO_ERROR` also while the attempt is in progress. Attempts, one
for each descriptor, are settled at any moment and with any outcome. Any thread calls `cancelEvent`
and `cancelAll`.
-/

namespace Yuyu.Hook

open Foundation Function
open IOManager (Event Events Handoff Registration HandsOver)

variable {n : Nat}

/-- The connection of a socket, as the kernel has it.  A failed attempt leaves a pending error. -/
inductive Attempt where
  | unconnected
  | inProgress
  | established
  | failed (e : Errno)
deriving DecidableEq

namespace Attempt

def isFailed : Attempt → Bool
  | .failed _ => true
  | _ => false

def report (a : Attempt) : Result → Attempt
  | .ok _ => a
  | .error e => if a = .failed e then .unconnected else a

/-- `connect_f`: it starts an attempt on an unconnected socket only, and returns 0 for an
established connection only. -/
def connect (a : Attempt) : Result → Option Attempt
  | .ok v => if v = 0 ∧ (a = .unconnected ∨ a = .established) then some .established else none
  | .error .einprogress => if a = .unconnected then some .inProgress else none
  | .error e => some (a.report (.error e))

/-- `getsockopt` for `SO_ERROR`: it answers with the pending error, and with 0 when there
is none. -/
def soError (a : Attempt) : Result → Option Attempt
  | .ok v => if v = 0 ∧ a.isFailed = false then some a else none
  | .error e => some (a.report (.error e))

variable {a a' : Attempt} {r : Result}

lemma report_inProgress (h : a.report r = .inProgress) : a = .inProgress := by
  cases r with
  | ok v => exact h
  | error e =>
    simp only [report] at h
    split at h
    · contradiction
    · exact h

lemma connect_inProgress (h : a.connect r = some .inProgress) :
    a = .inProgress ∨ a = .unconnected := by
  unfold connect at h
  split at h
  · split at h
    · contradiction
    · contradiction
  · split at h
    · rename_i hnew
      exact Or.inr hnew
    · contradiction
  · exact Or.inl (report_inProgress (Option.some.inj h))

lemma soError_inProgress (h : a.soError r = some .inProgress) : a = .inProgress := by
  cases r with
  | ok v =>
    simp only [soError] at h
    split at h
    · exact Option.some.inj h
    · contradiction
  | error e => exact report_inProgress (Option.some.inj h)

lemma connect_ok {v : Int} (h : a.connect (.ok v) = some a') : v = 0 ∧ a' = .established := by
  simp only [connect] at h
  split at h
  · rename_i hv
    exact ⟨hv.1, (Option.some.inj h).symm⟩
  · contradiction

lemma connect_einprogress (h : a.connect (.error .einprogress) = some a') :
    a = .unconnected ∧ a' = .inProgress := by
  simp only [connect] at h
  split at h
  · rename_i hnew
    exact ⟨hnew, (Option.some.inj h).symm⟩
  · contradiction

lemma soError_ok {v : Int} (h : a.soError (.ok v) = some a') :
    v = 0 ∧ a.isFailed = false ∧ a' = a := by
  simp only [soError] at h
  split at h
  · rename_i hv
    exact ⟨hv.1, hv.2, (Option.some.inj h).symm⟩
  · contradiction

end Attempt

/-! ## The system -/

def Call.isConnect : Call → Bool
  | .connect _ => true
  | .io _ => false

/-- What the function of a call does to the attempt of its descriptor; one that goes through `do_io`
may report the pending error. -/
def Call.applied (a : Attempt) (r : Result) : Call → Option Attempt
  | .connect _ => a.connect r
  | .io _ => some (a.report r)

structure ConnectState (n : Nat) where
  hook : State n
  attempt : Int → Attempt

/-- The steps: one of the fibers, timers and workers, a cancellation by any thread, and the end of
an attempt in success or in an error. -/
inductive ConnectAction (n : Nat) where
  | hook (a : Action n)
  | cancelEvent (fd : Int) (event : Event) (fails : Bool)
  | cancelAll (fd : Int) (fails : Bool)
  | settle (fd : Int) (outcome : Option Errno)
deriving DecidableEq

namespace ConnectState

def initial (tickleFd : Int) : ConnectState n where
  hook := .initial tickleFd
  attempt _ := .unconnected

/-- The attempts after a step of the fibers; none when the kernel does not answer so.  `close_f`
ends the attempt of its descriptor. -/
def answer (s : ConnectState n) : Action n → Option (Int → Attempt)
  | .run f r _ =>
    match s.hook.pc f with
    | .direct fr | .apply fr =>
      (fr.call.applied (s.attempt fr.fd) r).map (Function.update s.attempt fr.fd)
    | .sockopt fr => ((s.attempt fr.fd).soError r).map (Function.update s.attempt fr.fd)
    | .closeFd fd => some (Function.update s.attempt fd .unconnected)
    | _ => some s.attempt
  | _ => some s.attempt

def withIo {α : Type} (s : ConnectState n) :
    Except IOManager.Fault (IOManager.State × α) → Option (ConnectState n)
  | .error _ => none
  | .ok (io, _) => some { s with hook := { s.hook with io := io } }

end ConnectState

/-- One step; `none` when it is not enabled or aborts. -/
def ConnectAction.step (s : ConnectState n) : ConnectAction n → Option (ConnectState n)
  | .hook a => do
      let hook ← a.step s.hook
      let attempt ← s.answer a
      return ⟨hook, attempt⟩
  | .cancelEvent fd event fails => s.withIo (s.hook.io.cancelEvent fd event fails)
  | .cancelAll fd fails => s.withIo (s.hook.io.cancelAll fd fails)
  | .settle fd outcome =>
    if s.attempt fd = .inProgress then
      some { s with attempt := Function.update s.attempt fd (outcome.elim .established .failed) }
    else none

def connectSystem (n : Nat) : TransitionSystem (ConnectState n) (ConnectAction n) where
  init s := ∃ tickleFd, s = .initial tickleFd
  step s a := a.step s

namespace Pc

def underWay : Pc → Option Frame
  | .arm fr | .register fr _ | .failed fr _ | .yield fr .. | .suspended fr .. | .resumed fr _
  | .check fr | .sockopt fr => if fr.call.isConnect then some fr else none
  | _ => none

def exposed : Pc → Option Frame
  | .yield fr .. | .suspended fr .. =>
    if fr.call.isConnect ∧ fr.cancelled = false then some fr else none
  | _ => none

end Pc

namespace ConnectState

def Exposed (s : ConnectState n) (fd : Int) : Prop :=
  s.attempt fd = .inProgress ∧ ∃ f, ∃ fr ∈ (s.hook.pc f).exposed, fr.fd = fd
deriving Decidable

def LeavesOthers (s : ConnectState n) (f : Fin n) (attempt : Int → Attempt) : Prop :=
  ∀ g, g ≠ f → ∀ fr ∈ (s.hook.pc g).underWay, attempt fr.fd ≠ .unconnected

instance (s : ConnectState n) (f : Fin n) (attempt : Int → Attempt) :
    Decidable (s.LeavesOthers f attempt) := inferInstanceAs (Decidable (∀ _, _ → ∀ fr ∈ _, _))

/-- `addEvent` does not fail for the call. -/
def Registers (s : ConnectState n) (f : Fin n) (fr : Frame) (fails : Bool) : Prop :=
  ∀ added ∈ (s.hook.io.addEvent fr.fd fr.call.event none (callerOf f) fails).toOption, added.2 = 0

instance (s : ConnectState n) (f : Fin n) (fr : Frame) (fails : Bool) :
    Decidable (s.Registers f fr fails) := inferInstanceAs (Decidable (∀ added ∈ _, _))

end ConnectState

/-- The condition on the next step of a fiber at `p`. -/
def Pc.Undisturbed (s : ConnectState n) (f : Fin n) (fails : Bool) : Pc → Prop
  | .register fr _ =>
    fr.call.isConnect = true → s.attempt fr.fd = .inProgress → s.Registers f fr fails
  | .closeCancel fd => ¬ s.Exposed fd
  | _ => True

instance (s : ConnectState n) (f : Fin n) (fails : Bool) (p : Pc) :
    Decidable (p.Undisturbed s f fails) := by
  induction p using Pc.casesOn <;> dsimp only [Pc.Undisturbed] <;> infer_instance

/-- A step that triggers the writers of a descriptor does not wake up a connect whose attempt is in
progress. -/
def Action.Undisturbed (s : ConnectState n) : Action n → Prop
  | .run f r fails =>
    (∀ attempt ∈ s.answer (.run f r fails), s.LeavesOthers f attempt) ∧
      (s.hook.pc f).Undisturbed s f fails
  | .timer t _ => ∀ timer ∈ s.hook.timers[t]?,
      timer.phase = .cancelling → timer.event = .write → ¬ s.Exposed timer.fd
  | .dispatch i events err hup _ =>
    events.write = true ∨ err = true ∨ hup = true → ¬ s.Exposed i
  | _ => True

instance (s : ConnectState n) (a : Action n) : Decidable (a.Undisturbed s) := by
  induction a using Action.casesOn <;> dsimp only [Action.Undisturbed] <;> infer_instance

/-- A connect whose attempt is in progress is woken up by its own timeout only, its `addEvent` does
not fail, and nobody else takes its error or closes its descriptor. -/
def Undisturbed (s : ConnectState n) : ConnectAction n → Prop
  | .hook a => a.Undisturbed s
  | .cancelEvent fd event _ => event = .write → ¬ s.Exposed fd
  | .cancelAll fd _ => ¬ s.Exposed fd
  | .settle .. => True

instance (s : ConnectState n) (a : ConnectAction n) : Decidable (Undisturbed s a) := by
  induction a using ConnectAction.casesOn <;> dsimp only [Undisturbed] <;> infer_instance

/-! ## The steps of a fiber -/

inductive Advances (handed : List Handoff) : Pc → Pc → Prop where
  | armed (fr timer) : Advances handed (.arm fr) (.register fr timer)
  | skipped (fr timer) : Advances handed (.failed fr timer) (.sockopt fr)
  | yielded (fr timer w) : Advances handed (.yield fr timer w) (.suspended fr timer w)
  | resumed (fr timer w) (hw : Woken handed w) :
      Advances handed (.suspended fr timer w) (.resumed fr timer)
  | returned (fr timer) : Advances handed (.resumed fr timer) (.check fr)
  | passed (fr) (hfr : fr.cancelled = false) : Advances handed (.check fr) (.sockopt fr)

/-- Where a result of a connect comes from: an error of the code itself, or the kernel's answer to
`connect_f` or `getsockopt`. -/
def Pc.Replies (before : Pc) (r : Result) : Pc → Prop
  | .returned fr res => fr.call.isConnect = true →
      (∃ e, res = .error e) ∨
        res = r ∧ (before = .direct fr ∨ before = .apply fr ∨ before = .sockopt fr)
  | _ => True

inductive FiberStep (s s' : State n) (f : Fin n) (r : Result) (fails : Bool) : Prop where
  | quiet (p : Pc) (kernel : Int → Option IOManager.Interest)
      (hpc : s'.pc = Function.update s.pc f p) (hio : s'.io = s.io.setKernel kernel)
      (hp : p.underWay = none) (hreply : (s.pc f).Replies r p)
  | started (fr : Frame) (hfrom : s.pc f = .apply fr)
      (hr : fr.call.isConnect = true → r = .error .einprogress)
      (hpc : s'.pc = Function.update s.pc f (.arm fr)) (hio : s'.io = s.io)
  | advanced (p : Pc) (hp : Advances s.io.handed (s.pc f) p)
      (hpc : s'.pc = Function.update s.pc f p) (hio : s'.io = s.io)
  | registered (fr : Frame) (timer : Option Nat) (rt : Int) (hfrom : s.pc f = .register fr timer)
      (hadd : s.io.addEvent fr.fd fr.call.event none (callerOf f) fails = .ok (s'.io, rt))
      (hpc : s'.pc = Function.update s.pc f
        (if rt = 0 then .yield fr timer s.io.issued.length else .failed fr timer))
  | cancelled (fd : Int) (done : Bool) (hfrom : s.pc f = .closeCancel fd)
      (hcancel : s.io.cancelAll fd fails = .ok (s'.io, done))
      (hpc : s'.pc = Function.update (fun g => (s.pc g).wake fd s.io.handed s'.io.handed) f
        (.closeDel fd))

namespace State

variable {s s' : State n} {f : Fin n} {r : Result} {fails : Bool}

lemma fiberStep_move {p : Pc} (hpc : s'.pc = Function.update s.pc f p) (hio : s'.io = s.io)
    (hp : p.underWay = none) (hreply : (s.pc f).Replies r p) : FiberStep s s' f r fails :=
  .quiet p s.io.kernel hpc hio hp hreply

lemma finish_fiberStep {fr : Frame} (hfrom : s.pc f = .direct fr ∨ s.pc f = .apply fr)
    (hrun : s.finish f fr r = some s') : FiberStep s s' f r fails := by
  unfold State.finish at hrun
  split at hrun
  · split at hrun
    · cases hrun
      exact fiberStep_move rfl rfl rfl trivial
    · contradiction
  cases hrun
  refine fiberStep_move rfl rfl rfl fun _ => Or.inr ⟨rfl, ?_⟩
  exact hfrom.imp_right Or.inl

@[simp] lemma cancelTimer_io (s : State n) (t : Option Nat) : (s.cancelTimer t).io = s.io := by
  unfold cancelTimer
  grind

lemma runFiber_fiberStep (hrun : s.runFiber f r fails = some s') : FiberStep s s' f r fails := by
  unfold State.runFiber at hrun
  cases hpc : s.pc f with
  | idle | returned =>
    rw [hpc] at hrun
    contradiction
  | get fr =>
    rw [hpc] at hrun
    simp only [State.getCtx] at hrun
    split at hrun
    · contradiction
    · cases hrun
      exact fiberStep_move rfl rfl rfl trivial
    split at hrun
    · cases hrun
      exact fiberStep_move rfl rfl rfl trivial
    · cases hrun
      exact fiberStep_move rfl rfl rfl fun _ => Or.inl ⟨_, rfl⟩
  | inspect fr p =>
    rw [hpc] at hrun
    cases hrun
    unfold State.inspectCtx
    split
    · exact fiberStep_move rfl rfl rfl fun _ => Or.inl ⟨_, rfl⟩
    split
    · exact fiberStep_move rfl rfl rfl trivial
    · exact fiberStep_move rfl rfl rfl trivial
  | direct fr =>
    rw [hpc] at hrun
    simp only at hrun
    split at hrun
    · exact finish_fiberStep (Or.inl hpc) hrun
    · contradiction
  | apply fr =>
    rw [hpc] at hrun
    simp only [State.applyFun] at hrun
    split at hrun
    · split at hrun
      · cases hrun
        refine fiberStep_move (p := .apply fr) ?_ rfl rfl trivial
        rw [← hpc, update_eq_self]
      · rename_i hcall _
        cases hrun
        exact .started fr hpc (by simp [hcall, Call.isConnect]) rfl rfl
      · cases hrun
        exact .started fr hpc (fun _ => rfl) rfl rfl
      · exact finish_fiberStep (Or.inr hpc) hrun
    · contradiction
  | arm fr =>
    rw [hpc] at hrun
    cases hrun
    unfold State.armTimer
    split
    · exact .advanced _ (hpc ▸ .armed fr none) rfl rfl
    · exact .advanced _ (hpc ▸ .armed fr (some s.timers.length)) rfl rfl
  | register fr timer =>
    rw [hpc] at hrun
    simp only [State.addEvent] at hrun
    split at hrun
    · contradiction
    split at hrun
    · contradiction
    rename_i io rt hadd
    split at hrun
    · rename_i hrt
      cases hrun
      exact .registered fr timer rt hpc hadd (by rw [if_pos hrt]; rfl)
    rename_i hrt
    cases hrun
    exact .registered fr timer rt hpc hadd (by rw [if_neg hrt]; rfl)
  | failed fr timer =>
    rw [hpc] at hrun
    simp only [State.addFailed] at hrun
    split at hrun
    · rename_i hcall
      cases hrun
      exact fiberStep_move (cancelTimer_move_pc ..) (cancelTimer_io ..) rfl (by simp [Pc.Replies])
    · contradiction
    · cases hrun
      exact .advanced _ (hpc ▸ .skipped fr timer) (cancelTimer_move_pc ..) (cancelTimer_io ..)
  | yield fr timer w =>
    rw [hpc] at hrun
    cases hrun
    exact .advanced _ (hpc ▸ .yielded fr timer w) rfl rfl
  | suspended fr timer w =>
    rw [hpc] at hrun
    simp only at hrun
    split at hrun
    · rename_i hw
      cases hrun
      exact .advanced _ (hpc ▸ .resumed fr timer w hw) rfl rfl
    · contradiction
  | resumed fr timer =>
    rw [hpc] at hrun
    cases hrun
    exact .advanced _ (hpc ▸ .returned fr timer) (cancelTimer_move_pc ..) (cancelTimer_io ..)
  | check fr =>
    rw [hpc] at hrun
    cases hrun
    unfold State.testCancelled
    split
    · exact fiberStep_move rfl rfl rfl fun _ => Or.inl ⟨_, rfl⟩
    rename_i hfr
    split
    · exact fiberStep_move rfl rfl rfl trivial
    · exact .advanced _ (hpc ▸ .passed fr (Bool.eq_false_iff.mpr hfr)) rfl rfl
  | sockopt fr =>
    rw [hpc] at hrun
    simp only at hrun
    split at hrun
    · cases hrun
      exact fiberStep_move rfl rfl rfl fun _ => Or.inr ⟨rfl, Or.inr (Or.inr hpc)⟩
    · contradiction
  | track fd =>
    rw [hpc] at hrun
    simp only [State.trackFd] at hrun
    split at hrun
    · contradiction
    · cases hrun
      exact fiberStep_move rfl rfl rfl trivial
    · cases hrun
      exact fiberStep_move rfl rfl rfl trivial
  | create fd =>
    rw [hpc] at hrun
    simp only [State.createCtx, Option.map_eq_some_iff] at hrun
    obtain ⟨fds, -, rfl⟩ := hrun
    exact fiberStep_move rfl rfl rfl trivial
  | closeGet fd =>
    rw [hpc] at hrun
    simp only [State.closeGet] at hrun
    split at hrun
    · contradiction
    · cases hrun
      exact fiberStep_move rfl rfl rfl trivial
    · cases hrun
      exact fiberStep_move rfl rfl rfl trivial
  | closeCancel fd =>
    rw [hpc] at hrun
    obtain ⟨io, done, hcancel, rfl⟩ := cancelAll_spec hrun
    exact .cancelled fd done hpc hcancel rfl
  | closeDel fd =>
    rw [hpc] at hrun
    simp only [State.closeDel, Option.map_eq_some_iff] at hrun
    obtain ⟨fds, -, rfl⟩ := hrun
    exact fiberStep_move rfl rfl rfl trivial
  | closeFd fd =>
    rw [hpc] at hrun
    cases hrun
    unfold State.closeFile
    split
    · exact fiberStep_move rfl rfl rfl trivial
    · exact .quiet .idle _ rfl rfl rfl trivial

end State

/-! ## The invariant -/

/-- Past the wait of a started connect, its attempt is settled or its timeout has cancelled it. -/
def Pc.Accounted (io : IOManager.State) (a : Attempt) (fr : Frame) : Pc → Prop
  | .yield _ _ w | .suspended _ _ w =>
    (∃ reg, io.issued[w]? = some reg ∧ reg.fd = fr.fd ∧ reg.event = .write) ∧
      (Woken io.handed w → a = .inProgress → fr.cancelled = true)
  | .resumed .. | .check _ => a = .inProgress → fr.cancelled = true
  | .failed .. | .sockopt _ => a ≠ .inProgress
  | _ => True

def Pc.Honest (io : IOManager.State) (attempt : Int → Attempt) (p : Pc) : Prop :=
  ∀ fr ∈ p.underWay, attempt fr.fd ≠ .unconnected ∧ p.Accounted io (attempt fr.fd) fr

namespace Pc

variable {io io' : IOManager.State} {attempt attempt' : Int → Attempt} {p p' : Pc}

lemma Honest.of_quiet (h : p.underWay = none) : p.Honest io attempt := by
  intro fr hfr
  rw [h] at hfr
  contradiction

lemma Honest.mono (h : p.Honest io attempt)
    (hissued : ∀ (w : Nat) (reg : Registration),
      io.issued[w]? = some reg → io'.issued[w]? = some reg)
    (hwoken : ∀ fr ∈ p.exposed, attempt fr.fd = .inProgress → ∀ (w : Nat) (reg : Registration),
      io.issued[w]? = some reg → reg.fd = fr.fd → reg.event = .write →
        Woken io'.handed w → Woken io.handed w)
    (hattempt : ∀ fr ∈ p.underWay, attempt' fr.fd ≠ .unconnected ∧
      (attempt' fr.fd = .inProgress → attempt fr.fd = .inProgress)) : p.Honest io' attempt' := by
  intro fr hfr
  obtain ⟨-, hplace⟩ := h fr hfr
  obtain ⟨hstarted, hkept⟩ := hattempt fr hfr
  refine ⟨hstarted, ?_⟩
  cases p with
  | yield fr' timer w | suspended fr' timer w =>
    obtain ⟨⟨reg, hreg, hfd, hevent⟩, hcancelled⟩ := hplace
    refine ⟨⟨reg, hissued w reg hreg, hfd, hevent⟩, fun hw ha => ?_⟩
    have hcall : fr'.call.isConnect = true ∧ fr' = fr := by
      simpa [underWay] using hfr
    obtain ⟨hconnect, rfl⟩ := hcall
    by_contra hnot
    have hexposed : fr' ∈ (Pc.suspended fr' timer w).exposed := by
      simp [exposed, hconnect, hnot]
    have hold := hwoken fr' hexposed (hkept ha) w reg hreg hfd hevent hw
    exact hnot (hcancelled hold (hkept ha))
  | resumed | check | failed | sockopt => exact fun ha => hplace (hkept ha)
  | _ => trivial

lemma Honest.advance (h : p.Honest io attempt) (hp : Advances io.handed p p') :
    p'.Honest io attempt := by
  intro fr hfr
  cases hp with
  | armed fr' timer => exact ⟨(h fr hfr).1, trivial⟩
  | skipped | yielded | returned => exact h fr hfr
  | resumed fr' timer w hw => exact ⟨(h fr hfr).1, (h fr hfr).2.2 hw⟩
  | passed fr' hcancelled =>
    have hfr' : fr' = fr := by
      have : fr'.call.isConnect = true ∧ fr' = fr := by simpa [underWay] using hfr
      exact this.2
    refine ⟨(h fr hfr).1, fun ha => ?_⟩
    have hset := (h fr hfr).2 ha
    rw [← hfr', hcancelled] at hset
    contradiction

lemma underWay_of_advances {handed : List Handoff} (hp : Advances handed p p') :
    p'.underWay = p.underWay := by
  cases hp <;> rfl

end Pc

structure Frame.Kept (g : Frame → Frame) : Prop where
  call_eq : ∀ fr, (g fr).call = fr.call
  fd_eq : ∀ fr, (g fr).fd = fr.fd
  cancelled : ∀ fr, fr.cancelled = true → (g fr).cancelled = true

lemma Frame.kept_id : Frame.Kept id := ⟨fun _ => rfl, fun _ => rfl, fun _ => id⟩

lemma Frame.kept_mark (info : Nat) : Frame.Kept (Frame.mark info) := by
  constructor <;> intro fr <;> unfold Frame.mark <;> split <;> simp

lemma Frame.kept_wake (fd : Int) (before after : List Handoff) (w : Nat) :
    Frame.Kept (Frame.wake fd before after w) := by
  constructor <;> intro fr <;> unfold Frame.wake <;> split <;> simp

namespace Pc

variable {io : IOManager.State} {attempt : Int → Attempt} {p : Pc} {g : Frame → Frame}

lemma mapFrame_id (p : Pc) : p.mapFrame id = p := by
  cases p <;> rfl

lemma wake_eq_mapFrame (fd : Int) (before after : List Handoff) (p : Pc) :
    ∃ g, Frame.Kept g ∧ p.wake fd before after = p.mapFrame g := by
  cases p with
  | yield fr timer w | suspended fr timer w => exact ⟨_, Frame.kept_wake fd before after w, rfl⟩
  | _ => exact ⟨id, Frame.kept_id, rfl⟩

lemma underWay_mapFrame (hg : Frame.Kept g) (p : Pc) :
    (p.mapFrame g).underWay = p.underWay.map g := by
  cases p with
  | arm | register | failed | yield | suspended | resumed | check | sockopt =>
    simp only [mapFrame, underWay, hg.call_eq]
    split <;> rfl
  | _ => rfl

lemma Honest.mapFrame (h : p.Honest io attempt) (hg : Frame.Kept g) :
    (p.mapFrame g).Honest io attempt := by
  intro fr' hfr'
  rw [underWay_mapFrame hg] at hfr'
  obtain ⟨fr, hfr, rfl⟩ := Option.map_eq_some_iff.mp hfr'
  obtain ⟨hstarted, hplace⟩ := h fr hfr
  rw [hg.fd_eq]
  refine ⟨hstarted, ?_⟩
  cases p with
  | yield fr₀ timer w | suspended fr₀ timer w =>
    obtain ⟨⟨reg, hreg, hfd, hevent⟩, hcancelled⟩ := hplace
    refine ⟨⟨reg, hreg, ?_, hevent⟩, fun hw ha => hg.cancelled fr (hcancelled hw ha)⟩
    rw [hg.fd_eq]
    exact hfd
  | resumed | check => exact fun ha => hg.cancelled fr (hplace ha)
  | failed | sockopt => exact hplace
  | _ => trivial

end Pc

namespace ConnectState

structure Honest (s : ConnectState n) : Prop where
  linked : s.hook.io.Linked
  fibers : ∀ f, (s.hook.pc f).Honest s.hook.io s.attempt
  single : ∀ f g, f ≠ g → ∀ fr ∈ (s.hook.pc f).underWay, ∀ fr' ∈ (s.hook.pc g).underWay,
    fr.fd ≠ fr'.fd

variable {s s' : ConnectState n}

lemma Honest.stay (h : s.Honest) (hlinked : s'.hook.io.Linked)
    (hfibers : ∀ f, (s.hook.pc f).Honest s'.hook.io s'.attempt)
    (hpc : ∀ f, ∃ g, Frame.Kept g ∧ s'.hook.pc f = (s.hook.pc f).mapFrame g) : s'.Honest := by
  refine ⟨hlinked, fun f => ?_, fun f f' hne fr hfr fr' hfr' => ?_⟩
  · obtain ⟨g, hg, heq⟩ := hpc f
    rw [heq]
    exact (hfibers f).mapFrame hg
  obtain ⟨g, hg, heq⟩ := hpc f
  obtain ⟨g', hg', heq'⟩ := hpc f'
  rw [heq, Pc.underWay_mapFrame hg] at hfr
  rw [heq', Pc.underWay_mapFrame hg'] at hfr'
  obtain ⟨fr₀, hfr₀, rfl⟩ := Option.map_eq_some_iff.mp hfr
  obtain ⟨fr₁, hfr₁, rfl⟩ := Option.map_eq_some_iff.mp hfr'
  rw [hg.fd_eq, hg'.fd_eq]
  exact h.single f f' hne fr₀ hfr₀ fr₁ hfr₁

variable {f : Fin n} {r : Result} {fails : Bool}

lemma Honest.update (h : s.Honest) {p : Pc}
    (hpc : s'.hook.pc = Function.update s.hook.pc f p) (hlinked : s'.hook.io.Linked)
    (hp : p.Honest s'.hook.io s'.attempt)
    (hothers : ∀ g, g ≠ f → (s.hook.pc g).Honest s'.hook.io s'.attempt)
    (hsingle : ∀ g, g ≠ f → ∀ fr ∈ p.underWay, ∀ fr' ∈ (s.hook.pc g).underWay, fr.fd ≠ fr'.fd) :
    s'.Honest := by
  refine ⟨hlinked, fun g => ?_, fun g g' hne fr hfr fr' hfr' => ?_⟩
  · rw [hpc]
    by_cases hg : g = f
    · rw [hg, update_self]
      exact hp
    · rw [update_of_ne hg]
      exact hothers g hg
  rw [hpc] at hfr hfr'
  by_cases hg : g = f
  · subst hg
    rw [update_self] at hfr
    rw [update_of_ne hne.symm] at hfr'
    exact hsingle g' hne.symm fr hfr fr' hfr'
  rw [update_of_ne hg] at hfr
  by_cases hg' : g' = f
  · subst hg'
    rw [update_self] at hfr'
    exact (hsingle g hg fr' hfr' fr hfr).symm
  · rw [update_of_ne hg'] at hfr'
    exact h.single g g' hne fr hfr fr' hfr'

lemma Honest.handsOver (h : s.Honest) {io : IOManager.State}
    (hio : HandsOver (fun reg => reg.event = .write → ¬ s.Exposed reg.fd) s.hook.io io)
    (f : Fin n) :
    (s.hook.pc f).Honest io s.attempt := by
  refine (h.fibers f).mono (fun w reg hreg => by rw [hio.issued_eq]; exact hreg) ?_
    fun fr hfr => ⟨(h.fibers f fr hfr).1, id⟩
  intro fr hfr ha w reg hreg hfd hevent hw
  rcases hio.handed w hw with hold | ⟨reg', hreg', hnot⟩
  · exact hold
  obtain rfl : reg = reg' := Option.some.inj (hreg.symm.trans hreg')
  have hexposed : s.Exposed reg.fd := ⟨by rw [hfd]; exact ha, f, fr, hfr, hfd.symm⟩
  exact (hnot hevent hexposed).elim

lemma Honest.operation (h : s.Honest) {io : IOManager.State}
    (hio : HandsOver (fun reg => reg.event = .write → ¬ s.Exposed reg.fd) s.hook.io io)
    (hs' : s'.hook.io = io) (hpc : s'.hook.pc = s.hook.pc) (hattempt : s'.attempt = s.attempt) :
    s'.Honest := by
  refine h.stay (hs' ▸ hio.linked) (fun f => ?_) fun f => ⟨id, Frame.kept_id, ?_⟩
  · rw [hs', hattempt]
    exact h.handsOver hio f
  · rw [hpc, Pc.mapFrame_id]

/-! ## Every step -/

lemma answer_inProgress {attempt : Int → Attempt}
    (h : s.answer (.run f r fails) = some attempt) {fd : Int} (hfd : attempt fd = .inProgress) :
    s.attempt fd = .inProgress ∨ s.attempt fd = .unconnected := by
  have hupdate : ∀ (fd' : Int) (a : Attempt),
      (a = .inProgress → s.attempt fd' = .inProgress ∨ s.attempt fd' = .unconnected) →
        Function.update s.attempt fd' a = attempt →
          s.attempt fd = .inProgress ∨ s.attempt fd = .unconnected := by
    rintro fd' a ha rfl
    by_cases heq : fd = fd'
    · subst heq
      rw [update_self] at hfd
      exact ha hfd
    · rw [update_of_ne heq] at hfd
      exact Or.inl hfd
  have happlied : ∀ fr : Frame,
      (fr.call.applied (s.attempt fr.fd) r).map (Function.update s.attempt fr.fd) = some attempt →
        s.attempt fd = .inProgress ∨ s.attempt fd = .unconnected := by
    intro fr h
    obtain ⟨a, ha, hattempt⟩ := Option.map_eq_some_iff.mp h
    refine hupdate fr.fd a (fun hin => ?_) hattempt
    subst hin
    cases hcall : fr.call with
    | connect timeoutMs => exact Attempt.connect_inProgress (by rwa [hcall] at ha)
    | io fn =>
      rw [hcall] at ha
      exact Or.inl (Attempt.report_inProgress (Option.some.inj ha))
  simp only [answer] at h
  split at h
  · exact happlied _ h
  · exact happlied _ h
  · obtain ⟨a, ha, hattempt⟩ := Option.map_eq_some_iff.mp h
    refine hupdate _ a (fun hin => Or.inl ?_) hattempt
    subst hin
    exact Attempt.soError_inProgress ha
  · exact hupdate _ _ (fun hin => by contradiction) (Option.some.inj h)
  · exact Or.inl (by rw [Option.some.inj h]; exact hfd)

lemma Honest.started (h : s.Honest) {fr : Frame}
    (hfrom : s.hook.pc f = .apply fr) (hr : fr.call.isConnect = true → r = .error .einprogress)
    (hpc : s'.hook.pc = Function.update s.hook.pc f (.arm fr)) (hio : s'.hook.io = s.hook.io)
    (hanswer : s.answer (.run f r fails) = some s'.attempt)
    (hothers : ∀ g, g ≠ f → (s.hook.pc g).Honest s.hook.io s'.attempt) : s'.Honest := by
  have hnew : ∀ fr' ∈ (Pc.arm fr).underWay, fr' = fr ∧ s.attempt fr.fd = .unconnected ∧
      s'.attempt fr.fd = .inProgress := by
    intro fr' hfr'
    obtain ⟨hconnect, rfl⟩ : fr.call.isConnect = true ∧ fr = fr' := by
      simpa [Pc.underWay] using hfr'
    cases hcall : fr.call with
    | io fn =>
      rw [hcall] at hconnect
      contradiction
    | connect timeoutMs =>
      simp only [answer, hfrom, hcall, hr hconnect] at hanswer
      obtain ⟨a, ha, heq⟩ := Option.map_eq_some_iff.mp hanswer
      obtain ⟨hold, rfl⟩ := Attempt.connect_einprogress ha
      exact ⟨rfl, hold, by rw [← heq, update_self]⟩
  refine h.update hpc (hio ▸ h.linked) (fun fr' hfr' => ?_) (fun g hg => ?_)
    fun g hg fr' hfr' fr'' hfr'' heq => ?_
  · obtain ⟨rfl, -, hin⟩ := hnew fr' hfr'
    exact ⟨by rw [hin]; simp, trivial⟩
  · rw [hio]
    exact hothers g hg
  obtain ⟨rfl, hold, -⟩ := hnew fr' hfr'
  rw [heq] at hold
  exact (h.fibers g fr'' hfr'').1 hold

lemma Honest.registered (h : s.Honest) {fr : Frame} {timer : Option Nat} {rt : Int}
    (hfrom : s.hook.pc f = .register fr timer)
    (hok : fr.call.isConnect = true → s.attempt fr.fd = .inProgress → s.Registers f fr fails)
    (hadd : s.hook.io.addEvent fr.fd fr.call.event none (callerOf f) fails = .ok (s'.hook.io, rt))
    (hpc : s'.hook.pc = Function.update s.hook.pc f
      (if rt = 0 then .yield fr timer s.hook.io.issued.length else .failed fr timer))
    (hattempt : s'.attempt = s.attempt) : s'.Honest := by
  obtain ⟨hlinked, hhanded, hissued⟩ := IOManager.addEvent_linked h.linked hadd
  have hstarted : ∀ fr' ∈ (Pc.register fr timer).underWay, s.attempt fr'.fd ≠ .unconnected := by
    intro fr' hfr'
    rw [← hfrom] at hfr'
    exact (h.fibers f fr' hfr').1
  have hsingle : ∀ g, g ≠ f → ∀ fr' ∈ (Pc.register fr timer).underWay,
      ∀ fr'' ∈ (s.hook.pc g).underWay, fr'.fd ≠ fr''.fd := by
    intro g hg
    rw [← hfrom]
    exact h.single f g hg.symm
  have hothers : ∀ g, (s.hook.pc g).Honest s'.hook.io s'.attempt := by
    intro g
    rw [hattempt]
    refine (h.fibers g).mono (fun w reg hreg => ?_) (fun _ _ _ _ _ _ _ _ hw => ?_)
      fun fr' hfr' => ⟨(h.fibers g fr' hfr').1, id⟩
    · rcases hissued with ⟨-, heq⟩ | ⟨-, job, heq⟩
      · rw [heq]
        exact hreg
      · rw [heq]
        exact IOManager.State.getElem?_append_of_some hreg
    · rwa [hhanded] at hw
  rcases hissued with ⟨hrt, -⟩ | ⟨hrt, job, hissued⟩
  · rw [if_neg hrt] at hpc
    refine h.update hpc hlinked (fun fr' hfr' => ?_) (fun g _ => hothers g) hsingle
    rw [hattempt]
    refine ⟨hstarted fr' hfr', fun hin => ?_⟩
    obtain ⟨hconnect, rfl⟩ : fr.call.isConnect = true ∧ fr = fr' := by
      simpa [Pc.underWay] using hfr'
    have hmem : (s'.hook.io, rt) ∈
        (s.hook.io.addEvent fr.fd fr.call.event none (callerOf f) fails).toOption := by
      rw [hadd]
      rfl
    exact hrt (hok hconnect hin _ hmem)
  rw [if_pos hrt] at hpc
  refine h.update hpc hlinked (fun fr' hfr' => ?_) (fun g _ => hothers g) hsingle
  rw [hattempt]
  refine ⟨hstarted fr' hfr', ?_, fun hw => ?_⟩
  · obtain ⟨hconnect, rfl⟩ : fr.call.isConnect = true ∧ fr = fr' := by
      simpa [Pc.underWay] using hfr'
    refine ⟨_, by rw [hissued, List.getElem?_concat_length], rfl, ?_⟩
    cases hcall : fr.call with
    | io fn =>
      rw [hcall] at hconnect
      contradiction
    | connect timeoutMs => rfl
  -- the new registration has not been handed over
  rw [hhanded] at hw
  exact (Nat.lt_irrefl _ (h.linked.handed_lt _ hw)).elim

lemma Honest.cancelled (h : s.Honest) {fd : Int} {done : Bool}
    (hok : ¬ s.Exposed fd) (hcancel : s.hook.io.cancelAll fd fails = .ok (s'.hook.io, done))
    (hpc : s'.hook.pc = Function.update
      (fun g => (s.hook.pc g).wake fd s.hook.io.handed s'.hook.io.handed) f (.closeDel fd))
    (hattempt : s'.attempt = s.attempt) : s'.Honest := by
  have hio := (IOManager.cancelAll_handsOver h.linked hcancel).mono
    (Q := fun reg => reg.event = .write → ¬ s.Exposed reg.fd) fun reg hreg _ => hreg ▸ hok
  let woken : ConnectState n :=
    { s with hook := { s.hook with
        io := s'.hook.io
        pc := fun g => (s.hook.pc g).wake fd s.hook.io.handed s'.hook.io.handed } }
  have hwoken : woken.Honest := h.stay hio.linked (h.handsOver hio) fun g => Pc.wake_eq_mapFrame ..
  refine hwoken.update hpc hio.linked (.of_quiet rfl) (fun g _ => ?_) fun g _ fr hfr => ?_
  · rw [hattempt]
    exact hwoken.fibers g
  · contradiction

lemma Honest.run (h : s.Honest) (hok : (Action.run f r fails).Undisturbed s)
    (hrun : s.hook.runFiber f r fails = some s'.hook)
    (hanswer : s.answer (.run f r fails) = some s'.attempt) : s'.Honest := by
  obtain ⟨hleaves, hplace⟩ := hok
  -- the attempts of the other fibers' connects stay or are settled
  have hothers : ∀ g, g ≠ f → (s.hook.pc g).Honest s.hook.io s'.attempt := by
    intro g hg
    refine (h.fibers g).mono (fun _ _ => id) (fun _ _ _ _ _ _ _ _ => id) fun fr hfr => ?_
    refine ⟨hleaves s'.attempt hanswer g hg fr hfr, fun hin => ?_⟩
    exact (answer_inProgress hanswer hin).resolve_right (h.fibers g fr hfr).1
  cases State.runFiber_fiberStep hrun with
  | quiet p kernel hpc hio hp hreply =>
    have hlinked : s'.hook.io.Linked := by
      rw [hio]
      exact h.linked.setKernel kernel
    refine h.update hpc hlinked (.of_quiet hp) (fun g hg => ?_) fun g hg fr hfr => ?_
    · rw [hio]
      exact hothers g hg
    · rw [hp] at hfr
      contradiction
  | started fr hfrom hr hpc hio => exact h.started hfrom hr hpc hio hanswer hothers
  | advanced p hp hpc hio =>
    have hsame : s'.attempt = s.attempt := by
      generalize hfrom : s.hook.pc f = p₀ at hp
      cases hp <;> simpa [answer, hfrom, eq_comm] using hanswer
    refine h.update hpc (hio ▸ h.linked) ?_ (fun g hg => ?_) fun g hg fr hfr => ?_
    · rw [hio, hsame]
      exact (h.fibers f).advance hp
    · rw [hio]
      exact hothers g hg
    · rw [Pc.underWay_of_advances hp] at hfr
      exact h.single f g hg.symm fr hfr
  | registered fr timer rt hfrom hadd hpc =>
    rw [hfrom] at hplace
    exact h.registered hfrom hplace hadd hpc (by simpa [answer, hfrom, eq_comm] using hanswer)
  | cancelled fd done hfrom hcancel hpc =>
    rw [hfrom] at hplace
    exact h.cancelled hplace hcancel hpc (by simpa [answer, hfrom, eq_comm] using hanswer)

lemma Honest.quiet (h : s.Honest) {p : Pc}
    (hpc : s'.hook.pc = Function.update s.hook.pc f p) (hio : s'.hook.io = s.hook.io)
    (hattempt : s'.attempt = s.attempt) (hp : p.underWay = none) : s'.Honest := by
  refine h.update hpc (hio ▸ h.linked) (.of_quiet hp) (fun g _ => ?_) fun g _ fr hfr => ?_
  · rw [hio, hattempt]
    exact h.fibers g
  · rw [hp] at hfr
    contradiction

lemma Honest.runTimer (h : s.Honest) {t : Nat} {timer : Timer n}
    (hok : timer.phase = .cancelling → timer.event = .write → ¬ s.Exposed timer.fd)
    (hrun : s.hook.runTimer t timer fails = some s'.hook) (hattempt : s'.attempt = s.attempt) :
    s'.Honest := by
  have hphase : ∀ phase, s.hook.setPhase t timer phase = s'.hook → s'.Honest := by
    intro phase heq
    exact h.operation (.refl h.linked) (by rw [← heq]; rfl) (by rw [← heq]; rfl) hattempt
  unfold State.runTimer at hrun
  split at hrun
  · exact hphase _ (Option.some.inj hrun)
  · exact hphase _ (Option.some.inj hrun)
  · have heq := Option.some.inj hrun
    have hio : s'.hook.io = s.hook.io := by
      rw [← heq]
      rfl
    refine h.stay (hio ▸ h.linked) (fun f => ?_) fun f => ?_
    · rw [hio, hattempt]
      exact h.fibers f
    rw [← heq]
    by_cases hf : f = timer.fiber
    · subst hf
      exact ⟨_, Frame.kept_mark timer.info, update_self ..⟩
    · exact ⟨id, Frame.kept_id, (update_of_ne hf ..).trans (Pc.mapFrame_id _).symm⟩
  · rename_i hcancelling
    split at hrun
    · contradiction
    rename_i io done hcancel
    have hio := (IOManager.cancelEvent_handsOver h.linked hcancel).mono
      (Q := fun reg => reg.event = .write → ¬ s.Exposed reg.fd) fun reg hreg hwrite => by
        rw [hreg.1]
        exact hok hcancelling (hreg.2.symm.trans hwrite)
    have heq := Option.some.inj hrun
    exact h.operation hio (by rw [← heq]) (by rw [← heq]; rfl) hattempt
  · contradiction
  · contradiction

lemma Honest.dispatch (h : s.Honest) {i : Nat} {events : Events} {err hup : Bool}
    (hok : events.write = true ∨ err = true ∨ hup = true → ¬ s.Exposed i)
    (hrun : s.hook.dispatch i events err hup fails = some s'.hook)
    (hattempt : s'.attempt = s.attempt) : s'.Honest := by
  unfold State.dispatch at hrun
  split at hrun
  · rename_i hi
    split at hrun
    · contradiction
    rename_i io hdispatch
    have hio := (IOManager.dispatch_handsOver h.linked hi rfl hdispatch).mono
      (Q := fun reg => reg.event = .write → ¬ s.Exposed reg.fd) fun reg hreg hwrite => by
        have hreported := hreg.2
        rw [hwrite] at hreported
        rw [hreg.1]
        exact hok hreported
    have heq := Option.some.inj hrun
    exact h.operation hio (by rw [← heq]) (by rw [← heq]) hattempt
  · contradiction

lemma Honest.hookStep (h : s.Honest) {a : Action n} (hok : a.Undisturbed s)
    (hstep : a.step s.hook = some s'.hook) (hanswer : s.answer a = some s'.attempt) :
    s'.Honest := by
  cases a with
  | run f r fails => exact h.run hok hstep hanswer
  | timer t fails =>
    simp only [Action.step] at hstep
    split at hstep
    · contradiction
    · rename_i timer htimer
      exact h.runTimer (hok timer htimer) hstep (Option.some.inj hanswer).symm
  | dispatch i events err hup fails =>
    exact h.dispatch hok hstep (Option.some.inj hanswer).symm
  | call | close =>
    simp only [Action.step] at hstep
    split at hstep
    · have heq := Option.some.inj hstep
      refine h.quiet (by rw [← heq]; rfl) (by rw [← heq]; rfl) (Option.some.inj hanswer).symm ?_
      split <;> rfl
    · contradiction
  | socket f fd =>
    simp only [Action.step] at hstep
    split at hstep
    · have heq := Option.some.inj hstep
      exact h.quiet (by rw [← heq]; rfl) (by rw [← heq]; rfl) (Option.some.inj hanswer).symm rfl
    · contradiction
  | setTimeout | setUserNonblock | openFile =>
    simp only [Action.step] at hstep
    split at hstep
    · have heq := Option.some.inj hstep
      have hio : s'.hook.io = s.hook.io := heq ▸ rfl
      have hpc : s'.hook.pc = s.hook.pc := heq ▸ rfl
      exact h.operation (.refl h.linked) hio hpc (Option.some.inj hanswer).symm
    · contradiction

lemma Honest.withIo (h : s.Honest) {α : Type}
    {result : Except IOManager.Fault (IOManager.State × α)} (hrun : s.withIo result = some s')
    (hio : ∀ io a, result = .ok (io, a) →
      HandsOver (fun reg => reg.event = .write → ¬ s.Exposed reg.fd) s.hook.io io) : s'.Honest := by
  unfold ConnectState.withIo at hrun
  split at hrun
  · contradiction
  rename_i io a
  cases hrun
  exact h.operation (hio io a rfl) rfl rfl rfl

lemma Honest.step (h : s.Honest) {a : ConnectAction n} (hok : Undisturbed s a)
    (hstep : a.step s = some s') : s'.Honest := by
  cases a with
  | hook a =>
    simp only [ConnectAction.step, Option.bind_eq_bind, Option.bind_eq_some_iff] at hstep
    obtain ⟨hook, hhook, attempt, hanswer, heq⟩ := hstep
    cases heq
    exact h.hookStep hok hhook hanswer
  | cancelEvent fd event fails =>
    refine h.withIo hstep fun io done hcancel => ?_
    refine (IOManager.cancelEvent_handsOver h.linked hcancel).mono fun reg hreg hwrite => ?_
    rw [hreg.1]
    exact hok (hreg.2.symm.trans hwrite)
  | cancelAll fd fails =>
    refine h.withIo hstep fun io done hcancel => ?_
    refine (IOManager.cancelAll_handsOver h.linked hcancel).mono fun reg hreg _ => ?_
    rw [hreg]
    exact hok
  | settle fd outcome =>
    simp only [ConnectAction.step] at hstep
    split at hstep
    · cases hstep
      refine h.stay h.linked (fun f => ?_) fun f => ⟨id, Frame.kept_id, (Pc.mapFrame_id _).symm⟩
      refine (h.fibers f).mono (fun _ _ => id) (fun _ _ _ _ _ _ _ _ => id) fun fr hfr => ?_
      dsimp only
      by_cases hfd : fr.fd = fd
      · subst hfd
        cases outcome <;> simp
      · rw [update_of_ne hfd]
        exact ⟨(h.fibers f fr hfr).1, id⟩
    · contradiction

lemma honest_of_reachable (h : (connectSystem n).ReachableWith Undisturbed s) : s.Honest := by
  refine TransitionSystem.ReachableWith.invariant ?_ ?_ h
  · rintro s ⟨tickleFd, rfl⟩
    exact ⟨IOManager.linked_initial tickleFd, fun f => .of_quiet rfl,
      fun f g _ fr hfr => nomatch hfr⟩
  · intro s a s' hs hok hstep
    exact hs.step hok hstep

end ConnectState

/-! ## The result -/

/-- In every run whose steps meet the condition, a connect that returns returns 0 with its
connection established, or fails. -/
theorem connect_truthful {s s' : ConnectState n}
    (h : (connectSystem n).ReachableWith Undisturbed s) {f : Fin n} {r : Result} {fails : Bool}
    (hstep : (connectSystem n).step s (.hook (.run f r fails)) = some s') {fr : Frame}
    {timeoutMs : Nat} (hcall : fr.call = .connect timeoutMs) {res : Result}
    (hreturned : s'.hook.pc f = .returned fr res) :
    (res = .ok 0 ∧ s'.attempt fr.fd = .established) ∨ ∃ e, res = .error e := by
  have hhonest := (ConnectState.honest_of_reachable h).fibers f
  have hconnect : fr.call.isConnect = true := by rw [hcall]; rfl
  simp only [connectSystem, ConnectAction.step, Option.bind_eq_bind,
    Option.bind_eq_some_iff] at hstep
  obtain ⟨hook, hrun, attempt, hanswer, heq⟩ := hstep
  cases heq
  dsimp only at hreturned ⊢
  have hreply : (s.hook.pc f).Replies r (.returned fr res) := by
    cases State.runFiber_fiberStep hrun with
    | quiet p kernel hpc hio hp hreply =>
      rw [hpc, update_self] at hreturned
      rwa [hreturned] at hreply
    | started fr' hfrom hr hpc | cancelled fd done hfrom hcancel hpc =>
      rw [hpc, update_self] at hreturned
      contradiction
    | advanced p hp hpc hio =>
      rw [hpc, update_self] at hreturned
      subst hreturned
      generalize s.hook.pc f = p₀ at hp
      cases hp
    | registered fr' timer rt hfrom hadd hpc =>
      rw [hpc, update_self] at hreturned
      split at hreturned <;> contradiction
  rcases hreply hconnect with herror | ⟨rfl, hfrom⟩
  · exact Or.inr herror
  cases res with
  | error e => exact Or.inr ⟨e, rfl⟩
  | ok v =>
    left
    rcases hfrom with hfrom | hfrom | hfrom
    · simp only [ConnectState.answer, hfrom, hcall] at hanswer
      obtain ⟨a, ha, rfl⟩ := Option.map_eq_some_iff.mp hanswer
      obtain ⟨rfl, rfl⟩ := Attempt.connect_ok ha
      exact ⟨rfl, update_self ..⟩
    · simp only [ConnectState.answer, hfrom, hcall] at hanswer
      obtain ⟨a, ha, rfl⟩ := Option.map_eq_some_iff.mp hanswer
      obtain ⟨rfl, rfl⟩ := Attempt.connect_ok ha
      exact ⟨rfl, update_self ..⟩
    -- the fiber got to SO_ERROR after the attempt was settled, and not in an error
    simp only [ConnectState.answer, hfrom] at hanswer
    obtain ⟨a, ha, rfl⟩ := Option.map_eq_some_iff.mp hanswer
    obtain ⟨rfl, hfailed, rfl⟩ := Attempt.soError_ok ha
    rw [hfrom] at hhonest
    obtain ⟨hstarted, hsettled⟩ := hhonest fr (by simp [Pc.underWay, hconnect])
    refine ⟨rfl, ?_⟩
    rw [update_self]
    cases hattempt : s.attempt fr.fd with
    | established => rfl
    | unconnected => exact (hstarted hattempt).elim
    | inProgress => exact (hsettled hattempt).elim
    | failed e =>
      rw [hattempt] at hfailed
      contradiction

def startConnect (f : Fin n) (fd : Int) : List (Action n) :=
  [.call f (.connect 100) fd true, go f (.ok 0), go f (.ok 0), go f (.error .einprogress),
    go f (.ok 0)]

def yieldConnect (f : Fin n) : List (Action n) := [go f (.ok 0), go f (.ok 0)]

def resumeConnect (f : Fin n) : List (Action n) := [go f (.ok 0), go f (.ok 0), go f (.ok 0)]

theorem connect_truthful_established :
    ∃ s s' fr, (connectSystem 1).runWith Undisturbed (.initial 9)
        ((openSocket 0 5 ++ startConnect 0 5 ++ yieldConnect 0).map .hook ++
          .settle 5 none :: (.dispatch 5 { write := true } false false false ::
            resumeConnect 0).map .hook) = some s ∧
      (connectSystem 1).step s (.hook (go 0 (.ok 0))) = some s' ∧
      s'.hook.pc 0 = .returned fr (.ok 0) ∧
      (((.ok 0 : Result) = .ok 0 ∧ s'.attempt fr.fd = .established) ∨
        ∃ e, (.ok 0 : Result) = .error e) := by
  have hrun : (connectSystem 1).runWith Undisturbed (.initial 9)
      ((openSocket 0 5 ++ startConnect 0 5 ++ yieldConnect 0).map .hook ++
        .settle 5 none :: (.dispatch 5 { write := true } false false false ::
          resumeConnect 0).map .hook) = some _ := rfl
  have hreach := TransitionSystem.reachableWith_of_init hrun ⟨9, rfl⟩
  exact ⟨_, _, _, hrun, rfl, rfl,
    @connect_truthful 1 _ _ hreach 0 (.ok 0) false rfl _ 100 rfl _ rfl⟩

/-- Connects that return 0 with the attempt in progress: `addEvent` fails, or another thread calls
`cancelEvent` or `cancelAll`. -/
theorem connect_untruthful : (∃ s fr, (connectSystem 1).run (.initial 9)
        ((openSocket 0 5 ++ startConnect 0 5 ++
          [Action.run 0 (.ok 0) true, go 0 (.ok 0), go 0 (.ok 0)]).map .hook) = some s ∧
      s.hook.pc 0 = .returned fr (.ok 0) ∧ fr.fd = 5 ∧ s.attempt 5 = .inProgress) ∧
    (∃ s fr, (connectSystem 1).run (.initial 9)
        ((openSocket 0 5 ++ startConnect 0 5 ++ yieldConnect 0).map .hook ++
          .cancelEvent 5 .write false :: (resumeConnect 0 ++ [go 0 (.ok 0)]).map .hook) = some s ∧
      s.hook.pc 0 = .returned fr (.ok 0) ∧ fr.fd = 5 ∧ s.attempt 5 = .inProgress) ∧
    ∃ s fr, (connectSystem 1).run (.initial 9)
        ((openSocket 0 5 ++ startConnect 0 5 ++ yieldConnect 0).map .hook ++
          .cancelAll 5 false :: (resumeConnect 0 ++ [go 0 (.ok 0)]).map .hook) = some s ∧
      s.hook.pc 0 = .returned fr (.ok 0) ∧ fr.fd = 5 ∧ s.attempt 5 = .inProgress :=
  ⟨⟨_, _, rfl, rfl, rfl, rfl⟩, ⟨_, _, rfl, rfl, rfl, rfl⟩, ⟨_, _, rfl, rfl, rfl, rfl⟩⟩

end Yuyu.Hook
