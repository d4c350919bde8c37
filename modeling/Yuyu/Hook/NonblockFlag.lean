import Yuyu.Hook.FreshContext

/-!
# The non-blocking flag as the user sees it

The hook keeps every tracked socket non-blocking in the kernel and remembers in `m_userNonblock`
what the user asked for. `fcntl` rewrites flags in both directions; `ioctl` passes its argument on,
so `FIONBIO` with 0 makes the socket blocking.
-/

namespace Yuyu.Hook

open Foundation

inductive FlagCall where
  | setfl (arg : Flags)
  | getfl
  | fionbio (v : Int)
deriving DecidableEq

namespace FlagCall

/-- The call on the descriptor `fd`. -/
def on (fd : Int) : FlagCall → ControlCall
  | .setfl arg => .setfl fd arg
  | .getfl => .getfl fd
  | .fionbio v => .fionbio fd v

def request (before : Bool) : FlagCall → Bool
  | .setfl arg => nonblocking arg
  | .getfl => before
  | .fionbio v => v != 0

end FlagCall

/-- The last value that a sequence of calls asks for, blocking if there is none. -/
def requested (calls : List FlagCall) : Bool := calls.foldl FlagCall.request false

/-- The calls on `fd` in sequence. -/
def runFlags (K : Setfl) (fd : Int) (s : Sys) (calls : List FlagCall) : Option Sys :=
  (controlSystem K).run s (calls.map (FlagCall.on fd))

/-- What the design promises: the socket is non-blocking in the kernel while the
system flag is set, `F_GETFL` reports what the user asked for, and its other bits
are those of the kernel. -/
structure Virtualised (s : Sys) (fd : Int) (user : Bool) : Prop where
  kernel : ∃ p d, s.mgr.data fd = some (some p) ∧ s.file fd = some d ∧
    ((s.mgr.ctx p).sysNonblock = true → nonblocking (s.flags d.id) = true)
  getfl : ∃ r, s.getfl fd = some r ∧ nonblocking r = user ∧
    r &&& ~~~oNonblock = s.getflF fd &&& ~~~oNonblock

structure Held (s : Sys) (fd : Int) (p : Nat) (d : Descr) (user : Bool) : Prop where
  get : s.mgr.get fd = some (some p)
  usable : (s.mgr.ctx p).isClosed = false ∧ (s.mgr.ctx p).isSocket = true
  sys : (s.mgr.ctx p).sysNonblock = true
  user : (s.mgr.ctx p).userNonblock = user
  file : s.file fd = some d

namespace Held

variable {K : Setfl} {s : Sys} {fd : Int} {p : Nat} {d : Descr} {user : Bool}

lemma of_fresh (h : s.Fresh fd) (hsize : s.mgr.size < 2 ^ 31) :
    ∃ p d, Held s fd p d false ∧ nonblocking (s.flags d.id) = true := by
  obtain ⟨p, d, hdata, hctx, hfile, -, hnb⟩ := h
  refine ⟨p, d, ⟨FdManager.get_of_data hsize hdata, ?_, ?_, ?_, hfile⟩, hnb⟩
  all_goals simp [hctx, freshCtx]

lemma socketCtx (h : Held s fd p d user) : s.socketCtx fd = some (some p) := by
  simp [Sys.socketCtx, h.get, h.usable, Option.filter]

lemma update (h : Held s fd p d user) (v : Bool) (flags : Nat → Flags) :
    Held { s.setUserNonblock p v with flags := flags } fd p d v where
  get := h.get
  usable := by simpa [Sys.setUserNonblock, FdManager.modify] using h.usable
  sys := by simpa [Sys.setUserNonblock, FdManager.modify] using h.sys
  user := by simp [Sys.setUserNonblock, FdManager.modify]
  file := h.file

lemma setfl (h : Held s fd p d user) (arg : Flags) :
    ∃ s', s.step K (.setfl fd arg) = some s' ∧ Held s' fd p d (nonblocking arg) ∧
      (nonblocking (s.flags d.id) = true → nonblocking (s'.flags d.id) = true) := by
  have hsys : ((s.setUserNonblock p (nonblocking arg)).mgr.ctx p).sysNonblock = true :=
    (h.update (nonblocking arg) s.flags).sys
  have hfile : (s.setUserNonblock p (nonblocking arg)).file fd = some d := h.file
  have hstep : s.step K (.setfl fd arg) =
      some ((s.setUserNonblock p (nonblocking arg)).setflF K fd (arg ||| oNonblock)).1 := by
    simp only [Sys.step, Sys.setfl, h.socketCtx, hsys, if_true, Option.map_some]
  refine ⟨_, hstep, ?_⟩
  simp only [Sys.setflF, hfile]
  split
  · rename_i flags hflags
    refine ⟨h.update _ _, fun _ => ?_⟩
    simp [K.nonblock hflags]
  · exact ⟨h.update _ s.flags, id⟩

lemma fionbio (h : Held s fd p d user) (v : Int) :
    ∃ s', s.step K (.fionbio fd v) = some s' ∧ Held s' fd p d (v != 0) ∧
      nonblocking (s'.flags d.id) = (v != 0) := by
  have hfile : (s.setUserNonblock p (v != 0)).file fd = some d := h.file
  have hstep : s.step K (.fionbio fd v) =
      some ((s.setUserNonblock p (v != 0)).fionbioF fd v).1 := by
    simp only [Sys.step, Sys.fionbio, h.socketCtx, Option.map_some]
  refine ⟨_, hstep, ?_⟩
  simp only [Sys.fionbioF, hfile]
  refine ⟨h.update _ _, ?_⟩
  by_cases hv : v = 0
  · simp [hv]
  · simp [hv]

lemma getfl (h : Held s fd p d user) :
    ∃ r, s.getfl fd = some r ∧ nonblocking r = user ∧
      r &&& ~~~oNonblock = s.getflF fd &&& ~~~oNonblock := by
  cases huser : user with
  | true => exact ⟨s.getflF fd ||| oNonblock, by simp [Sys.getfl, h.socketCtx, h.user, huser]⟩
  | false =>
    exact ⟨s.getflF fd &&& ~~~oNonblock, by simp [Sys.getfl, h.socketCtx, h.user, huser]⟩

lemma step (h : Held s fd p d user) (call : FlagCall) :
    ∃ s', s.step K (call.on fd) = some s' ∧ Held s' fd p d (call.request user) ∧
      (call ≠ .fionbio 0 → nonblocking (s.flags d.id) = true → nonblocking (s'.flags d.id) = true) ∧
      (call = .fionbio 0 → nonblocking (s'.flags d.id) = false) := by
  cases call with
  | setfl arg =>
    obtain ⟨s', hstep, hheld, hnb⟩ := h.setfl (K := K) arg
    exact ⟨s', hstep, hheld, fun _ => hnb, by simp⟩
  | getfl =>
    obtain ⟨r, hr, -, -⟩ := h.getfl
    exact ⟨s, by simp [FlagCall.on, Sys.step, hr], h, fun _ => id, by simp⟩
  | fionbio v =>
    obtain ⟨s', hstep, hheld, hnb⟩ := h.fionbio (K := K) v
    refine ⟨s', hstep, hheld, fun hne _ => ?_, fun heq => ?_⟩
    · rw [hnb]
      simpa using hne
    · cases heq
      exact hnb

lemma runFlags_cons {s₁ : Sys} {call : FlagCall} (hstep : s.step K (call.on fd) = some s₁)
    (calls : List FlagCall) : runFlags K fd s (call :: calls) = runFlags K fd s₁ calls := by
  have hstep' : (controlSystem K).step s (call.on fd) = some s₁ := hstep
  simp only [runFlags, List.map_cons, TransitionSystem.run, TransitionSystem.runWith, if_true,
    hstep']

lemma run (h : Held s fd p d user) (calls : List FlagCall) :
    ∃ s', runFlags K fd s calls = some s' ∧ Held s' fd p d (calls.foldl FlagCall.request user) ∧
      (.fionbio 0 ∉ calls → nonblocking (s.flags d.id) = true →
        nonblocking (s'.flags d.id) = true) := by
  induction calls generalizing s user with
  | nil => exact ⟨s, rfl, h, fun _ => id⟩
  | cons call calls ih =>
    obtain ⟨s₁, hstep, hheld, hnb, -⟩ := h.step (K := K) call
    obtain ⟨s', hrun, hheld', hnb'⟩ := ih hheld
    refine ⟨s', ?_, hheld', fun hnone hset => ?_⟩
    · rw [runFlags_cons hstep, hrun]
    · rw [List.mem_cons, not_or] at hnone
      exact hnb' hnone.2 (hnb (Ne.symm hnone.1) hset)

lemma virtualised (h : Held s fd p d user) (hnb : nonblocking (s.flags d.id) = true) :
    Virtualised s fd user where
  kernel := ⟨p, d, FdManager.data_of_get h.get, h.file, fun _ => hnb⟩
  getfl := h.getfl

lemma not_virtualised (h : Held s fd p d user) (hnb : nonblocking (s.flags d.id) = false)
    (v : Bool) : ¬ Virtualised s fd v := by
  intro hvirt
  obtain ⟨q, e, hdata, hfile, hset⟩ := hvirt.kernel
  rw [FdManager.data_of_get h.get, Option.some.injEq, Option.some.injEq] at hdata
  rw [h.file, Option.some.injEq] at hfile
  subst hdata hfile
  rw [hset h.sys] at hnb
  contradiction

lemma run_fionbio_zero (h : Held s fd p d user) (calls : List FlagCall) :
    ∃ s' v, runFlags K fd s (calls ++ [.fionbio 0]) = some s' ∧ Held s' fd p d v ∧
      nonblocking (s'.flags d.id) = false := by
  induction calls generalizing s user with
  | nil =>
    obtain ⟨s', hstep, hheld, -, hnb⟩ := h.step (K := K) (.fionbio 0)
    refine ⟨s', _, ?_, hheld, hnb rfl⟩
    rw [List.nil_append, runFlags_cons hstep]
    rfl
  | cons call calls ih =>
    obtain ⟨s₁, hstep, hheld, -, -⟩ := h.step (K := K) call
    obtain ⟨s', v, hrun, hheld', hnb⟩ := ih hheld
    exact ⟨s', v, by rw [List.cons_append, runFlags_cons hstep, hrun], hheld', hnb⟩

end Held

/-- After each call on a new tracked socket the flags are as the design has them, exactly if none is
`FIONBIO` with 0. -/
theorem virtualised_iff (K : Setfl) {s : Sys} {fd : Int} (hfresh : s.Fresh fd)
    (hsize : s.mgr.size < 2 ^ 31) (calls : List FlagCall) :
    (∀ done, done <+: calls →
      ∃ s', runFlags K fd s done = some s' ∧ Virtualised s' fd (requested done)) ↔
    .fionbio 0 ∉ calls := by
  obtain ⟨p, d, hheld, hset⟩ := Held.of_fresh hfresh hsize
  constructor
  · intro hall hmem
    obtain ⟨before, after, rfl⟩ := List.append_of_mem hmem
    have hpre : before ++ [.fionbio 0] <+: before ++ .fionbio 0 :: after := ⟨after, by simp⟩
    obtain ⟨s', hrun, hvirt⟩ := hall _ hpre
    obtain ⟨s₁, v, hrun₁, hheld₁, hnb⟩ := hheld.run_fionbio_zero (K := K) before
    rw [hrun₁, Option.some.injEq] at hrun
    subst hrun
    exact hheld₁.not_virtualised hnb _ hvirt
  intro hnone done hpre
  obtain ⟨s', hrun, hheld', hnb⟩ := hheld.run (K := K) done
  exact ⟨s', hrun, hheld'.virtualised (hnb (fun hmem => hnone (hpre.subset hmem)) hset)⟩

def opened : Sys := ((controlSystem .all).run .initial [.socket true 5 0]).getD .initial

lemma fresh_opened : opened.Fresh 5 := ⟨_, _, rfl, rfl, rfl, rfl, rfl⟩

theorem virtualised_iff_fcntl :
    ∃ s', runFlags .all 5 opened [.fionbio 1, .setfl 0, .getfl] = some s' ∧
      Virtualised s' 5 false :=
  (virtualised_iff .all fresh_opened (by decide) [.fionbio 1, .setfl 0, .getfl]).mpr (by decide)
    _ (List.prefix_refl _)

/-- `FIONBIO` with 0 on a new socket: the system flag is set and the socket
blocks. -/
theorem fionbio_blocks :
    ∃ s' p d, runFlags .all 5 opened [.fionbio 0] = some s' ∧ s'.mgr.data 5 = some (some p) ∧
      s'.file 5 = some d ∧ (s'.mgr.ctx p).sysNonblock = true ∧
      nonblocking (s'.flags d.id) = false :=
  ⟨_, _, _, rfl, rfl, rfl, rfl, rfl⟩

end Yuyu.Hook
