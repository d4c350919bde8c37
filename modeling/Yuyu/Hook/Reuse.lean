import Yuyu.Hook.Model
import Mathlib.Data.Fintype.Basic

/-!
# Descriptors that are closed and used again

A fiber that is suspended in a hooked call is woken up by `cancelAll` when another fiber closes the
descriptor, and applies its function to the number again; `m_isClosed` is never set.
-/

namespace Yuyu.Hook

open Foundation Function

variable {n : Nat}

namespace State

/-- A fiber has cancelled the events of the descriptor and not closed it yet. -/
def Closing (s : State n) (fd : Int) : Prop := ∃ g, s.pc g = .closeDel fd ∨ s.pc g = .closeFd fd
deriving Decidable

def Unused (s : State n) (fd : Int) : Prop := ∀ g, ∀ fr ∈ (s.pc g).frame, fr.fd ≠ fd
deriving Decidable

def AcceptsUnused (s : State n) (fr : Frame) : Result → Prop
  | .ok fd => fr.call = .io .accept → s.Unused fd
  | .error _ => True

instance (s : State n) (fr : Frame) (r : Result) : Decidable (s.AcceptsUnused fr r) := by
  cases r <;> dsimp only [AcceptsUnused] <;> infer_instance

def NotTimedOut (s : State n) (fd : Int) : Prop :=
  ∀ g, ∀ fr ∈ (s.pc g).frame, fr.fd = fd → fr.cancelled = false
deriving Decidable

/-- A callback that is about to write `cancelled` does not belong to a call
woken up by `cancelAll`. -/
def MarksOpen (s : State n) (timer : Timer n) : Prop :=
  timer.phase = .marking → ∀ fr ∈ (s.pc timer.fiber).frame, fr.info = timer.info → fr.closed = false
deriving Decidable

end State

/-- The condition on the next step of a fiber that gets the result `r`. -/
def Pc.Orderly (s : State n) (r : Result) : Pc → Prop
  | .direct fr => s.AcceptsUnused fr r
  | .apply fr => s.AcceptsUnused fr r ∧ (fr.closed = true → ¬ s.Closing fr.fd)
  | .sockopt fr => fr.closed = true → ¬ s.Closing fr.fd
  | .closeCancel fd => s.NotTimedOut fd
  | _ => True

instance (s : State n) (r : Result) (p : Pc) : Decidable (p.Orderly s r) := by
  induction p using Pc.casesOn <;> dsimp only [Pc.Orderly] <;> infer_instance

/-- No number in use is given to a new description; a call woken up by `cancelAll` goes on after
`close_f` and its timeout stays out of it. -/
def Orderly (s : State n) : Action n → Prop
  | .socket _ fd | .openFile fd _ => s.Unused fd
  | .run f r _ => (s.pc f).Orderly s r
  | .timer t _ => ∀ timer ∈ s.timers[t]?, s.MarksOpen timer
  | _ => True

instance (s : State n) (a : Action n) : Decidable (Orderly s a) := by
  induction a using Action.casesOn <;> dsimp only [Orderly] <;> infer_instance

def Frame.Own (owner : Int → Option Nat) (fr : Frame) : Prop :=
  owner fr.fd = none ∨ owner fr.fd = fr.owner

/-- A call woken up by `cancelAll` was not cancelled by its timeout, and its
descriptor is closed or about to be. -/
def Frame.Shut (owner : Int → Option Nat) (closing : Int → Prop) (fr : Frame) : Prop :=
  fr.closed = true → fr.cancelled = false ∧ (owner fr.fd = none ∨ closing fr.fd)

/-- What holds for a fiber, given the descriptions and the descriptors that are about to be closed.
-/
def Pc.Safe (owner : Int → Option Nat) (closing : Int → Prop) : Pc → Prop
  | .get fr | .inspect fr _ | .direct fr | .arm fr | .register fr _ | .failed fr _ =>
    fr.Own owner ∧ fr.closed = false
  | .apply fr | .yield fr .. | .suspended fr .. | .resumed fr _ | .check fr | .sockopt fr =>
    fr.Own owner ∧ fr.Shut owner closing
  | .returned fr r => fr.closed = true → r = .error .ebadf
  | .idle | .track _ | .create _ | .closeGet _ | .closeCancel _ | .closeDel _ | .closeFd _ => True

variable {owner : Int → Option Nat} {closing : Int → Prop} {fr : Frame} {p : Pc}

lemma Frame.Shut.of_open (h : fr.closed = false) : fr.Shut owner closing := by
  intro hclosed
  rw [h] at hclosed
  contradiction

section Mono

variable {owner owner' : Int → Option Nat} {closing closing' : Int → Prop}

lemma Frame.Own.mono {fr : Frame} (h : fr.Own owner)
    (howner : owner' fr.fd = none ∨ owner' fr.fd = owner fr.fd) : fr.Own owner' := by
  rcases howner with hnone | hsame
  · exact Or.inl hnone
  · exact h.imp hsame.trans hsame.trans

lemma Frame.Shut.mono {fr : Frame} (h : fr.Shut owner closing)
    (howner : owner' fr.fd = none ∨ owner' fr.fd = owner fr.fd)
    (hclosing : closing fr.fd → closing' fr.fd ∨ owner' fr.fd = none) :
    fr.Shut owner' closing' := by
  intro hclosed
  rcases h hclosed with ⟨hcancelled, hnone | hcl⟩
  · exact ⟨hcancelled, Or.inl (howner.elim id fun hsame => hsame.trans hnone)⟩
  · exact ⟨hcancelled, (hclosing hcl).symm⟩

lemma Pc.Safe.mono {p : Pc} (h : p.Safe owner closing)
    (howner : ∀ fr ∈ p.frame, owner' fr.fd = none ∨ owner' fr.fd = owner fr.fd)
    (hclosing : ∀ fd, closing fd → closing' fd ∨ owner' fd = none) : p.Safe owner' closing' := by
  cases p with
  | get fr | inspect fr | direct fr | arm fr | register fr | failed fr =>
    exact ⟨h.1.mono (howner fr rfl), h.2⟩
  | apply fr | yield fr | suspended fr | resumed fr | check fr | sockopt fr =>
    exact ⟨h.1.mono (howner fr rfl), h.2.mono (howner fr rfl) (hclosing fr.fd)⟩
  | returned fr r => exact h
  | idle | track | create | closeGet | closeCancel | closeDel | closeFd => trivial

end Mono

lemma Pc.Safe.own (h : p.Safe owner closing) : ∀ fr ∈ p.frame, fr.Own owner := by
  intro fr hfr
  cases p with
  | get | inspect | direct | arm | register | failed | apply | yield | suspended | resumed | check
  | sockopt =>
    cases hfr
    exact h.1
  | returned | idle | track | create | closeGet | closeCancel | closeDel | closeFd => cases hfr

lemma Frame.Own.wake (h : fr.Own owner) (fd : Int)
    (before after : List IOManager.Handoff) (w : Nat) : (fr.wake fd before after w).Own owner := by
  unfold Frame.wake
  split
  · exact h
  · exact h

lemma Frame.Shut.wake (h : fr.Shut owner closing) {fd : Int} (hclosing : closing fd)
    (hcancelled : fr.fd = fd → fr.cancelled = false) (before after : List IOManager.Handoff)
    (w : Nat) : (fr.wake fd before after w).Shut owner closing := by
  unfold Frame.wake
  split
  · rename_i hwoken
    exact fun _ => ⟨hcancelled hwoken.1, Or.inr (hwoken.1 ▸ hclosing)⟩
  · exact h

lemma Pc.Safe.wake (h : p.Safe owner closing) {fd : Int} (hclosing : closing fd)
    (hcancelled : ∀ fr ∈ p.frame, fr.fd = fd → fr.cancelled = false)
    (before after : List IOManager.Handoff) : (p.wake fd before after).Safe owner closing := by
  cases p with
  | yield fr timer w | suspended fr timer w =>
    exact ⟨h.1.wake fd before after w, h.2.wake hclosing (hcancelled fr rfl) before after w⟩
  | _ => exact h

lemma Pc.Safe.mark (h : p.Safe owner closing) (info : Nat)
    (hopen : ∀ fr ∈ p.frame, fr.info = info → fr.closed = false) :
    (p.mapFrame (Frame.mark info)).Safe owner closing := by
  have hshut : ∀ fr ∈ p.frame, fr.Shut owner closing → (fr.mark info).Shut owner closing := by
    intro fr hfr hshut
    unfold Frame.mark
    split
    · rename_i hinfo
      exact .of_open (hopen fr hfr hinfo)
    · exact hshut
  have hown : ∀ fr : Frame, fr.Own owner → (fr.mark info).Own owner := by
    intro fr hfr
    unfold Frame.mark
    split
    · exact hfr
    · exact hfr
  cases p with
  | get fr | inspect fr | direct fr | arm fr | register fr | failed fr =>
    exact ⟨hown fr h.1, by rw [Frame.mark_closed]; exact h.2⟩
  | apply fr | yield fr | suspended fr | resumed fr | check fr | sockopt fr =>
    exact ⟨hown fr h.1, hshut fr rfl h.2⟩
  | returned | idle | track | create | closeGet | closeCancel | closeDel | closeFd => exact h

namespace State

def Safe (s : State n) : Prop := ∀ f, (s.pc f).Safe s.kernel.owner s.Closing

variable {s s' : State n}

variable {f : Fin n} {p : Pc} {fd : Int} {fr : Frame} {r : Result} {fails : Bool}

lemma Safe.update (h : s.Safe) (hpc : s'.pc = Function.update s.pc f p)
    (howner : ∀ g, g ≠ f → ∀ fr ∈ (s.pc g).frame,
      s'.kernel.owner fr.fd = none ∨ s'.kernel.owner fr.fd = s.kernel.owner fr.fd)
    (hclosing : ∀ fd, s.Closing fd → s'.Closing fd ∨ s'.kernel.owner fd = none)
    (hp : p.Safe s'.kernel.owner s'.Closing) : s'.Safe := by
  intro g
  rw [hpc]
  by_cases hg : g = f
  · rw [hg, update_self]
    exact hp
  · rw [update_of_ne hg]
    exact (h g).mono (howner g hg) hclosing

lemma Closing.update (hpc : s'.pc = Function.update s.pc f p)
    (hf : s.pc f = .closeDel fd ∨ s.pc f = .closeFd fd → p = .closeDel fd ∨ p = .closeFd fd)
    (h : s.Closing fd) : s'.Closing fd := by
  obtain ⟨g, hg⟩ := h
  refine ⟨g, ?_⟩
  rw [hpc]
  by_cases hgf : g = f
  · subst hgf
    rw [update_self]
    exact hf hg
  · rw [update_of_ne hgf]
    exact hg

lemma Safe.move (h : s.Safe) (hpc : s'.pc = Function.update s.pc f p)
    (hkernel : s'.kernel.owner = s.kernel.owner)
    (hf : ∀ fd, s.pc f = .closeDel fd ∨ s.pc f = .closeFd fd → p = .closeDel fd ∨ p = .closeFd fd)
    (hp : p.Safe s.kernel.owner s.Closing) : s'.Safe := by
  have hclosing : ∀ fd, s.Closing fd → s'.Closing fd := fun fd => Closing.update hpc (hf fd)
  refine h.update hpc (fun g _ fr _ => Or.inr (by rw [hkernel]))
    (fun fd hfd => Or.inl (hclosing fd hfd)) ?_
  refine hp.mono (fun fr _ => Or.inr (by rw [hkernel])) fun fd hfd => Or.inl (hclosing fd hfd)

lemma Safe.install (h : s.Safe) (hfd : s.Unused fd) (socket : Bool) :
    (s.install fd socket).Safe := by
  intro g
  refine (h g).mono (fun fr hfr => Or.inr ?_) fun _ hcl => Or.inl hcl
  simp [State.install, hfd g fr hfr]

lemma Safe.finish (h : s.Safe)
    (hf : ∀ fd, ¬ (s.pc f = .closeDel fd ∨ s.pc f = .closeFd fd)) (haccept : s.AcceptsUnused fr r)
    (hr : fr.closed = true → r = .error .ebadf) (hrun : s.finish f fr r = some s') : s'.Safe := by
  unfold State.finish at hrun
  split at hrun
  · rename_i fd hcall
    split at hrun
    · cases hrun
      exact (h.install (haccept hcall) true).move rfl rfl (fun fd' hcl => (hf fd' hcl).elim) trivial
    · contradiction
  · cases hrun
    exact h.move rfl rfl (fun fd hcl => (hf fd hcl).elim) hr

lemma canAnswer_ebadf (hr : s.canAnswer fr.fd r)
    (hshut : fr.Shut s.kernel.owner s.Closing) (hok : fr.closed = true → ¬ s.Closing fr.fd)
    (hclosed : fr.closed = true) : r = .error .ebadf := by
  rcases (hshut hclosed).2 with hnone | hcl
  · exact hr (Option.map_eq_none_iff.mp hnone)
  · exact (hok hclosed hcl).elim

lemma Safe.applyFun (h : s.Safe) (hpc : s.pc f = .apply fr)
    (hok : (Pc.apply fr).Orderly s r) (hr : s.canAnswer fr.fd r)
    (hrun : s.applyFun f fr r = some s') : s'.Safe := by
  have hown : fr.Own s.kernel.owner ∧ fr.Shut s.kernel.owner s.Closing := by
    have hf := h f
    rwa [hpc] at hf
  have hebadf := canAnswer_ebadf hr hown.2 hok.2
  -- only an open call gets an answer that lets it wait
  have hopen : r ≠ .error .ebadf → fr.closed = false := fun hne =>
    Bool.eq_false_iff.mpr fun hclosed => hne (hebadf hclosed)
  have harm : r ≠ .error .ebadf → (s.move f (.arm fr)).Safe := fun hne =>
    h.move rfl rfl (by simp [hpc]) ⟨hown.1, hopen hne⟩
  unfold State.applyFun at hrun
  split at hrun
  · cases hrun
    exact h
  · cases hrun
    exact harm (by simp)
  · cases hrun
    exact harm (by simp)
  · exact h.finish (by simp [hpc]) hok.1 hebadf hrun

theorem Safe.cancelAll (h : s.Safe) (hpc : s.pc f = .closeCancel fd) (hok : s.NotTimedOut fd)
    (hrun : s.cancelAll f fd fails = some s') : s'.Safe := by
  obtain ⟨io, -, -, hs'⟩ := cancelAll_spec hrun
  have hkernel : s'.kernel = s.kernel := by rw [hs']; rfl
  have hupdate : s'.pc =
      Function.update (fun g => (s.pc g).wake fd s.io.handed io.handed) f (.closeDel fd) := by
    rw [hs']
    rfl
  have hclosing : s'.Closing fd := ⟨f, Or.inl (by rw [hupdate, update_self])⟩
  have hmore : ∀ fd', s.Closing fd' → s'.Closing fd' := by
    rintro fd' ⟨g, hg⟩
    have hne : g ≠ f := by
      rintro rfl
      simp [hpc] at hg
    refine ⟨g, ?_⟩
    rw [hupdate, update_of_ne hne]
    exact hg.imp (fun heq => by rw [heq]; rfl) (fun heq => by rw [heq]; rfl)
  intro g
  rw [hupdate, hkernel]
  by_cases hg : g = f
  · rw [hg, update_self]
    trivial
  rw [update_of_ne hg]
  have hstay := (h g).mono (fun _ _ => Or.inr rfl) fun fd' hcl => Or.inl (hmore fd' hcl)
  exact hstay.wake hclosing (hok g) _ _

lemma Safe.closeFile (h : s.Safe) (hpc : s.pc f = .closeFd fd) : (s.closeFile f fd).Safe := by
  have hnone : (s.closeFile f fd).kernel.owner fd = none := by
    unfold State.closeFile
    split
    · rename_i hfile
      simp [State.move, Kernel.owner, hfile]
    · simp [State.move]
  have howner : ∀ fd', (s.closeFile f fd).kernel.owner fd' = none ∨
      (s.closeFile f fd).kernel.owner fd' = s.kernel.owner fd' := by
    intro fd'
    unfold State.closeFile
    split
    · exact Or.inr rfl
    by_cases hfd : fd' = fd
    · simp [State.move, hfd]
    · simp [State.move, hfd]
  have hupdate : (s.closeFile f fd).pc = Function.update s.pc f .idle := by
    unfold State.closeFile
    split <;> rfl
  refine h.update hupdate (fun g _ fr _ => howner fr.fd) (fun fd' hcl => ?_) trivial
  by_cases hfd : fd' = fd
  · exact Or.inr (hfd ▸ hnone)
  refine Or.inl (Closing.update hupdate (fun hf => ?_) hcl)
  rw [hpc] at hf
  rcases hf with hf | hf
  · cases hf
  · cases hf
    contradiction

lemma Safe.runFiber (h : s.Safe)
    (hok : (s.pc f).Orderly s r) (hrun : s.runFiber f r fails = some s') : s'.Safe := by
  have hf := h f
  unfold State.runFiber at hrun
  cases hpc : s.pc f with
  | idle | returned =>
    rw [hpc] at hrun
    contradiction
  | get fr =>
    rw [hpc] at hf hrun
    simp only [State.getCtx] at hrun
    split at hrun
    · contradiction
    · cases hrun
      exact h.move rfl rfl (by simp [hpc]) hf
    split at hrun
    · cases hrun
      exact h.move rfl rfl (by simp [hpc]) hf
    · cases hrun
      exact h.move rfl rfl (by simp [hpc]) fun _ => rfl
  | inspect fr p =>
    rw [hpc] at hf hrun
    cases hrun
    unfold State.inspectCtx
    split
    · exact h.move rfl rfl (by simp [hpc]) fun _ => rfl
    split
    · exact h.move rfl rfl (by simp [hpc]) hf
    · exact h.move rfl rfl (by simp [hpc]) ⟨hf.1, .of_open hf.2⟩
  | direct fr =>
    rw [hpc] at hf hok hrun
    simp only at hrun
    split at hrun
    · exact h.finish (by simp [hpc]) hok (by simp [hf.2]) hrun
    · contradiction
  | apply fr =>
    rw [hpc] at hok hrun
    simp only at hrun
    split at hrun
    · rename_i hr
      exact h.applyFun hpc hok hr hrun
    · contradiction
  | arm fr =>
    rw [hpc] at hf hrun
    cases hrun
    unfold State.armTimer
    split
    · exact h.move rfl rfl (by simp [hpc]) hf
    · exact h.move rfl rfl (by simp [hpc]) hf
  | register fr timer =>
    rw [hpc] at hf hrun
    simp only [State.addEvent] at hrun
    split at hrun
    · contradiction
    split at hrun
    · contradiction
    split at hrun
    · cases hrun
      exact h.move rfl rfl (by simp [hpc]) ⟨hf.1, .of_open hf.2⟩
    · cases hrun
      exact h.move rfl rfl (by simp [hpc]) hf
  | failed fr timer =>
    rw [hpc] at hf hrun
    simp only [State.addFailed] at hrun
    split at hrun
    · cases hrun
      refine h.move (cancelTimer_move_pc ..) (congrArg Kernel.owner (cancelTimer_kernel s timer))
        (by simp [hpc]) (by simp [Pc.Safe, hf.2])
    · contradiction
    cases hrun
    exact h.move (cancelTimer_move_pc ..) (congrArg Kernel.owner (cancelTimer_kernel s timer))
      (by simp [hpc]) ⟨hf.1, .of_open hf.2⟩
  | yield fr timer w =>
    rw [hpc] at hf hrun
    cases hrun
    exact h.move rfl rfl (by simp [hpc]) hf
  | suspended fr timer w =>
    rw [hpc] at hf hrun
    simp only at hrun
    split at hrun
    · cases hrun
      exact h.move rfl rfl (by simp [hpc]) hf
    · contradiction
  | resumed fr timer =>
    rw [hpc] at hf hrun
    cases hrun
    exact h.move (cancelTimer_move_pc ..) (congrArg Kernel.owner (cancelTimer_kernel s timer))
      (by simp [hpc]) hf
  | check fr =>
    rw [hpc] at hf hrun
    cases hrun
    unfold State.testCancelled
    split
    · rename_i hcancelled
      refine h.move rfl rfl (by simp [hpc]) fun hclosed => ?_
      rw [(hf.2 hclosed).1] at hcancelled
      contradiction
    split
    · exact h.move rfl rfl (by simp [hpc]) hf
    · exact h.move rfl rfl (by simp [hpc]) hf
  | sockopt fr =>
    rw [hpc] at hf hok hrun
    simp only at hrun
    split at hrun
    · rename_i hr
      cases hrun
      exact h.move rfl rfl (by simp [hpc]) (canAnswer_ebadf hr hf.2 hok)
    · contradiction
  | track fd =>
    rw [hpc] at hrun
    simp only [State.trackFd] at hrun
    split at hrun
    · contradiction
    · cases hrun
      exact h.move rfl rfl (by simp [hpc]) trivial
    · cases hrun
      exact h.move rfl rfl (by simp [hpc]) trivial
  | create fd =>
    rw [hpc] at hrun
    simp only [State.createCtx, Option.map_eq_some_iff] at hrun
    obtain ⟨fds, -, rfl⟩ := hrun
    exact h.move rfl (by simp [State.move]) (by simp [hpc]) trivial
  | closeGet fd =>
    rw [hpc] at hrun
    simp only [State.closeGet] at hrun
    split at hrun
    · contradiction
    · cases hrun
      exact h.move rfl rfl (by simp [hpc]) trivial
    · cases hrun
      exact h.move rfl rfl (by simp [hpc]) trivial
  | closeCancel fd =>
    rw [hpc] at hok hrun
    exact h.cancelAll hpc hok hrun
  | closeDel fd =>
    rw [hpc] at hrun
    simp only [State.closeDel, Option.map_eq_some_iff] at hrun
    obtain ⟨fds, -, rfl⟩ := hrun
    exact h.move rfl rfl (by simp [hpc]) trivial
  | closeFd fd =>
    rw [hpc] at hrun
    cases hrun
    exact h.closeFile hpc

lemma Safe.mark (h : s.Safe) {timer : Timer n}
    (hopen : ∀ fr ∈ (s.pc timer.fiber).frame, fr.info = timer.info → fr.closed = false) :
    (s.mark timer).Safe := by
  have hp := (h timer.fiber).mark timer.info hopen
  refine h.move rfl rfl (fun fd hf => ?_) hp
  exact hf.imp (fun heq => by rw [heq]; rfl) (fun heq => by rw [heq]; rfl)

lemma Safe.runTimer (h : s.Safe) {t : Nat} {timer : Timer n}
    (hok : s.MarksOpen timer) (hrun : s.runTimer t timer fails = some s') : s'.Safe := by
  unfold State.runTimer at hrun
  split at hrun
  · cases hrun
    exact h
  · cases hrun
    exact h
  · rename_i hphase
    cases hrun
    exact Safe.mark (s := s.setPhase t timer .cancelling) h (hok hphase)
  · split at hrun
    · contradiction
    · cases hrun
      exact h
  · contradiction
  · contradiction

lemma Safe.start (h : s.Safe) (hpc : s'.pc = Function.update s.pc f p)
    (hkernel : s'.kernel.owner = s.kernel.owner) (hfree : (s.pc f).isFree = true)
    (hp : p.Safe s.kernel.owner s.Closing) : s'.Safe := by
  refine h.move hpc hkernel (fun fd hf => ?_) hp
  rcases hf with hf | hf <;> rw [hf] at hfree <;> contradiction

lemma Safe.step (h : s.Safe) {a : Action n} (hok : Orderly s a) (hstep : a.step s = some s') :
    s'.Safe := by
  unfold Action.step at hstep
  cases a with
  | call f c fd hookEnable =>
    simp only at hstep
    split at hstep
    · rename_i hfree
      cases hstep
      refine h.start rfl rfl hfree ?_
      split
      · exact ⟨Or.inr rfl, rfl⟩
      · exact ⟨Or.inr rfl, rfl⟩
    · contradiction
  | socket f fd =>
    simp only at hstep
    split at hstep
    · rename_i hfree
      cases hstep
      exact (h.install hok true).start rfl rfl hfree.1 trivial
    · contradiction
  | close f fd hookEnable =>
    simp only at hstep
    split at hstep
    · rename_i hfree
      cases hstep
      refine h.start rfl rfl hfree ?_
      split
      · trivial
      · trivial
    · contradiction
  | run f r fails => exact h.runFiber hok hstep
  | timer t fails =>
    simp only at hstep
    split at hstep
    · contradiction
    · rename_i timer htimer
      exact h.runTimer (hok timer htimer) hstep
  | dispatch i events err hup fails =>
    simp only [State.dispatch] at hstep
    split at hstep
    · split at hstep
      · contradiction
      · cases hstep
        exact h
    · contradiction
  | setTimeout | setUserNonblock =>
    simp only at hstep
    split at hstep
    · cases hstep
      exact h
    · contradiction
  | openFile fd socket =>
    simp only at hstep
    split at hstep
    · cases hstep
      exact h.install hok socket
    · contradiction

/-- The three steps of a fiber that is back from `YieldToHold`: it cancels its
timer, tests `cancelled` and makes the next system call. -/
def goOn (s : State n) (f : Fin n) (r : Result) : Option (State n) :=
  ((s.runFiber f r false).bind fun s => s.runFiber f r false).bind fun s => s.runFiber f r false

lemma Safe.goOn (h : s.Safe) {timer : Option Nat}
    (hpc : s.pc f = .resumed fr timer) (hclosed : fr.closed = true) (hfd : ¬ s.Closing fr.fd)
    (r : Result) : (s.goOn f r).map (fun s' => s'.pc f) =
      if r = .error .ebadf then some (.returned fr r) else none := by
  have hf := h f
  rw [hpc] at hf
  obtain ⟨hcancelled, hnone | hcl⟩ := hf.2 hclosed
  · have hanswer : s.canAnswer fr.fd r ↔ r = .error .ebadf := by
      have hfile : s.kernel.file fr.fd = none := Option.map_eq_none_iff.mp hnone
      simp [State.canAnswer, hfile]
    have hback : s.runFiber f r false = some ((s.cancelTimer timer).move f (.check fr)) := by
      rw [State.runFiber, hpc]
    have htest : ((s.cancelTimer timer).move f (.check fr)).runFiber f r false =
        some (((s.cancelTimer timer).move f (.check fr)).testCancelled f fr) := by
      rw [State.runFiber, move_pc_self]
    rw [State.goOn, hback, Option.bind_some, htest, Option.bind_some]
    cases hcall : fr.call with
    | io fn =>
      have hlast : State.runFiber
          (((s.cancelTimer timer).move f (.check fr)).testCancelled f fr) f r false =
            if s.canAnswer fr.fd r then
              State.applyFun (((s.cancelTimer timer).move f (.check fr)).testCancelled f fr) f fr r
            else none := by
        simp only [State.testCancelled, hcancelled, hcall, State.runFiber]
        simp [State.canAnswer, State.move]
      rw [hlast, if_congr hanswer rfl rfl]
      split
      · rename_i hr
        simp [State.applyFun, State.finish, hcall, hr]
      · rfl
    | connect timeoutMs =>
      have hlast : State.runFiber
          (((s.cancelTimer timer).move f (.check fr)).testCancelled f fr) f r false =
            if s.canAnswer fr.fd r then
              some ((((s.cancelTimer timer).move f (.check fr)).testCancelled f fr).move f
                (.returned fr r))
            else none := by
        simp only [State.testCancelled, hcancelled, hcall, State.runFiber]
        simp [State.canAnswer, State.move]
      rw [hlast, if_congr hanswer rfl rfl]
      split
      · simp
      · rfl
  · exact (hfd hcl).elim

end State

/-- In every run whose steps meet the condition, the descriptor of a call refers to the description
it had when the call was made, or to none. -/
theorem no_foreign_description {s : State n} (h : (hookSystem n).ReachableWith Orderly s) :
    (∀ f, ∀ fr ∈ (s.pc f).frame, s.kernel.owner fr.fd = none ∨ s.kernel.owner fr.fd = fr.owner) ∧
    (∀ f fr r, s.pc f = .returned fr r → fr.closed = true → r = .error .ebadf) ∧
    ∀ f fr timer, s.pc f = .resumed fr timer → fr.closed = true → ¬ s.Closing fr.fd →
      ∀ r, (s.goOn f r).map (fun s' => s'.pc f) =
        if r = .error .ebadf then some (.returned fr r) else none := by
  have hsafe : s.Safe := by
    refine TransitionSystem.ReachableWith.invariant (I := State.Safe) ?_ ?_ h
    · rintro s ⟨tickleFd, rfl⟩ f
      trivial
    · intro s a s' hs hok hstep
      exact hs.step hok hstep
  refine ⟨fun f fr hfr => ?_, fun f fr r hpc => ?_, fun f fr timer hpc hclosed hfd r => ?_⟩
  · exact (hsafe f).own fr hfr
  · have hf := hsafe f
    rwa [hpc] at hf
  · exact hsafe.goOn hpc hclosed hfd r

def startRead (f : Fin n) (fd : Int) : List (Action n) :=
  [.call f (.io .read) fd true, go f (.ok 0), go f (.ok 0), go f (.error .eagain), go f (.ok 0),
    go f (.ok 0), go f (.ok 0)]

def closeSocket (f : Fin n) (fd : Int) : List (Action n) :=
  [.close f fd true, go f (.ok 0), go f (.ok 0), go f (.ok 0), go f (.ok 0)]

def finishRead (f : Fin n) (r : Result) : List (Action n) :=
  [go f (.ok 0), go f (.ok 0), go f (.ok 0), go f r]

theorem no_foreign_description_closed :
    ∃ s, (hookSystem 2).runWith Orderly (.initial 9)
        (openSocket 0 5 ++ startRead 0 5 ++ closeSocket 1 5 ++ finishRead 0 (.error .ebadf)) =
          some s ∧
      ∃ fr r, s.pc 0 = .returned fr r ∧ fr.closed = true ∧ r = .error .ebadf := by
  have hrun : (hookSystem 2).runWith Orderly (.initial 9)
      (openSocket 0 5 ++ startRead 0 5 ++ closeSocket 1 5 ++ finishRead 0 (.error .ebadf)) =
        some _ := rfl
  have hreach := TransitionSystem.reachableWith_of_init hrun ⟨9, rfl⟩
  exact ⟨_, hrun, _, _, rfl, rfl, (no_foreign_description hreach).2.1 0 _ _ rfl rfl⟩

/-- Fiber 0 reads from descriptor 5. Fiber 1 closes it and gets the number for a new socket, from
which fiber 0 takes bytes. -/
theorem foreign_description :
    ∃ s s', (hookSystem 2).run (.initial 9)
        (openSocket 0 5 ++ startRead 0 5 ++ closeSocket 1 5 ++ openSocket 1 5 ++
          [go 0 (.ok 0), go 0 (.ok 0), go 0 (.ok 0)]) = some s ∧
      (hookSystem 2).run s [go 0 (.ok 7)] = some s' ∧
      ∃ fr, s.pc 0 = .apply fr ∧ fr.owner = some 0 ∧ s.kernel.owner fr.fd = some 1 ∧
        fr.closed = true ∧ s'.pc 0 = .returned fr (.ok 7) :=
  ⟨_, _, rfl, rfl, _, rfl, rfl, rfl, rfl, rfl⟩

end Yuyu.Hook
