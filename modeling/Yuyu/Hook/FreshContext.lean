import Yuyu.Hook.Control

/-!
# Contexts of new descriptors

A hooked `socket` or `accept` creates a context only if there is none for its number, and an entry
goes away only in a `close` with the hook enabled.
-/

namespace Yuyu.Hook

open Foundation Function

namespace FdManager

variable {m m' : FdManager} {fd fd' : Int} {p : Nat} {ctx : FdCtx}

lemma data_of_get (h : m.get fd = some (some p)) : m.data fd = some (some p) := by
  unfold get at h
  split at h
  · simp at h
  split at h
  · simp at h
  · exact h

lemma get_of_data (hsize : m.size < 2 ^ 31) (h : m.data fd = some (some p)) :
    m.get fd = some (some p) := by
  have hbounds : 0 ≤ fd ∧ fd < m.size := by
    by_contra hout
    simp [data, hout] at h
  rw [get, if_neg (by omega), toInt32_of_lt hsize, if_neg (by omega), h]

lemma create_eq_some (h : m.create fd ctx = some m') :
    ∃ base : FdManager, (base = m ∨ base = m.resize (3 * fd.toNat / 2)) ∧
      0 ≤ fd ∧ fd < base.size ∧ m' = { base with
        datas := update base.datas fd.toNat (some m.nextCtx)
        ctx := update m.ctx m.nextCtx ctx
        nextCtx := m.nextCtx + 1 } := by
  unfold create at h
  generalize hbase : (if fd ≥ toInt32 m.size then m.resize (3 * fd.toNat / 2) else m) = base at h
  dsimp only at h
  split at h
  · rename_i hfd
    refine ⟨base, ?_, hfd.1, hfd.2, (Option.some.inj h).symm⟩
    split at hbase
    · exact .inr hbase.symm
    · exact .inl hbase.symm
  · contradiction

lemma data_of_resize {size : Nat} (h : (m.resize size).data fd = some (some p)) :
    m.data fd = some (some p) := by
  unfold data resize at h
  dsimp only at h
  split at h
  · rw [Option.some.injEq] at h
    split at h
    · rw [data, if_pos (by omega), h]
    · contradiction
  · contradiction

lemma data_create (h : m.create fd ctx = some m') :
    m'.data fd = some (some m.nextCtx) ∧ m'.ctx m.nextCtx = ctx := by
  obtain ⟨base, -, hnonneg, hlt, rfl⟩ := create_eq_some h
  simp [data, hnonneg, hlt]

lemma data_of_create (h : m.create fd ctx = some m') (hd : m'.data fd' = some (some p)) :
    fd' = fd ∨ m.data fd' = some (some p) := by
  obtain ⟨base, hbase, hnonneg, hlt, rfl⟩ := create_eq_some h
  by_cases heq : fd' = fd
  · exact .inl heq
  right
  have hd' : base.data fd' = some (some p) := by
    unfold data at hd ⊢
    dsimp only at hd
    split at hd
    · rename_i hfd'
      have hne : fd'.toNat ≠ fd.toNat := by omega
      rw [update_of_ne hne] at hd
      rw [if_pos hfd', hd]
    · contradiction
  obtain rfl | rfl := hbase
  · exact hd'
  · exact data_of_resize hd'

lemma size_create (h : m.create fd ctx = some m') (hsize : m.size < 2 ^ 31)
    (hfd : 3 * fd < 2 ^ 32) : m'.size < 2 ^ 31 := by
  obtain ⟨base, rfl | rfl, hnonneg, hlt, rfl⟩ := create_eq_some h
  · exact hsize
  · simp only [resize]
    omega

lemma data_of_del (h : m.del fd = some m') (hsize : m.size < 2 ^ 31)
    (hd : m'.data fd' = some (some p)) : fd' ≠ fd ∧ m.data fd' = some (some p) := by
  unfold del at h
  rw [toInt32_of_lt hsize] at h
  split at h
  · rename_i hout
    cases h
    refine ⟨?_, hd⟩
    rintro rfl
    rw [data, if_neg (by omega)] at hd
    contradiction
  split at h
  · rename_i hfd
    cases h
    unfold data at hd ⊢
    dsimp only at hd
    split at hd
    · rename_i hfd'
      by_cases hne : fd'.toNat = fd.toNat
      · rw [hne, update_self] at hd
        simp at hd
      rw [update_of_ne hne] at hd
      refine ⟨fun heq => hne (by rw [heq]), ?_⟩
      rw [if_pos hfd', hd]
    · contradiction
  · contradiction

lemma size_del (h : m.del fd = some m') : m'.size = m.size := by
  unfold del at h
  split at h
  · cases h
    rfl
  split at h
  · cases h
    rfl
  · contradiction

@[simp] lemma data_modify (m : FdManager) (q : Nat) (g : FdCtx → FdCtx) (fd : Int) :
    (m.modify q g).data fd = m.data fd := rfl

@[simp] lemma size_modify (m : FdManager) (q : Nat) (g : FdCtx → FdCtx) :
    (m.modify q g).size = m.size := rfl

end FdManager

/-- The context that `FdCtx::init` makes for a socket: the user flag is off and
both timeouts are infinite. -/
def freshCtx : FdCtx := { isInit := true, isSocket := true, sysNonblock := true }

/-- The context stored for the number is a new one, and the socket is non-blocking. -/
def Sys.Fresh (s : Sys) (fd : Int) : Prop :=
  ∃ p d, s.mgr.data fd = some (some p) ∧ s.mgr.ctx p = freshCtx ∧
    s.file fd = some d ∧ d.socket = true ∧ nonblocking (s.flags d.id) = true

/-- A call that returns a tracked descriptor, with the flags it has at first. -/
def ControlCall.opens : ControlCall → Option (Int × Flags)
  | .socket true fd flags => some (fd, flags)
  | .accept fd flags => some (fd, flags)
  | _ => none

/-- The number has no context. -/
def Sys.Untracked (s : Sys) (fd : Int) : Prop := s.mgr.get fd = some none
deriving Decidable

namespace Sys

variable {K : Setfl} {s s' : Sys} {fd : Int} {flags : Flags} {a : ControlCall}

lemma step_opens (h : a.opens = some (fd, flags)) :
    s.step K a = if s.isFree fd then (s.install fd flags).track K fd else none := by
  cases a with
  | socket hook fd' flags' =>
    cases hook with
    | false => simp [ControlCall.opens] at h
    | true =>
      obtain ⟨rfl, rfl⟩ := h
      simp [step, socket]
  | accept fd' flags' =>
    obtain ⟨rfl, rfl⟩ := h
    simp [step, accept]
  | _ => simp [ControlCall.opens] at h

lemma fresh_of_untracked (hget : s.Untracked fd)
    (htrack : (s.install fd flags).track K fd = some s') : s'.Fresh fd := by
  have hfile : (s.install fd flags).file fd = some ⟨s.nextFile, true⟩ := by simp [install]
  have hget' : (s.install fd flags).mgr.get fd = some none := hget
  simp only [track, hget', Option.map_eq_some_iff] at htrack
  obtain ⟨mgr, hcreate, rfl⟩ := htrack
  obtain ⟨hdata, hctx⟩ := FdManager.data_create hcreate
  obtain ⟨hnew, word, hword, hset⟩ := initCtx_socket K hfile rfl
  rw [hset]
  refine ⟨_, ⟨s.nextFile, true⟩, hdata, ?_, hfile, rfl, ?_⟩
  · rw [hctx, hnew]
    rfl
  · simpa using hword

lemma track_of_get {p : Nat} (hget : s.mgr.get fd = some (some p)) : s.track K fd = some s := by
  rw [track, hget]

lemma fresh_install_iff {p : Nat} (hget : s.mgr.get fd = some (some p)) :
    (s.install fd flags).Fresh fd ↔ s.mgr.ctx p = freshCtx ∧ nonblocking flags = true := by
  have hdata := FdManager.data_of_get hget
  constructor
  · rintro ⟨q, d, hq, hctx, hfile, -, hnb⟩
    have hpq : p = q := by simpa [hdata, install] using hq
    have hd : d = ⟨s.nextFile, true⟩ := by simpa [install] using hfile.symm
    subst hpq hd
    exact ⟨hctx, by simpa [install] using hnb⟩
  · rintro ⟨hctx, hnb⟩
    exact ⟨p, ⟨s.nextFile, true⟩, hdata, hctx, by simp [install], rfl, by simpa [install] using hnb⟩

lemma step_opens_some (hopens : a.opens = some (fd, flags)) (hstep : s.step K a = some s') :
    s.isFree fd ∧ (s.install fd flags).track K fd = some s' ∧
      ∃ entry, s.mgr.get fd = some entry := by
  rw [step_opens hopens] at hstep
  split at hstep
  · rename_i hfree
    refine ⟨hfree, hstep, ?_⟩
    cases hget : s.mgr.get fd with
    | none =>
      have hget' : (s.install fd flags).mgr.get fd = none := hget
      rw [track, hget'] at hstep
      contradiction
    | some entry => exact ⟨entry, rfl⟩
  · contradiction

lemma fresh_step_iff (hopens : a.opens = some (fd, flags)) (hstep : s.step K a = some s') :
    s'.Fresh fd ↔ s.Untracked fd ∨
      ∃ p, s.mgr.get fd = some (some p) ∧ s.mgr.ctx p = freshCtx ∧ nonblocking flags = true := by
  obtain ⟨-, htrack, entry, hget⟩ := step_opens_some hopens hstep
  cases entry with
  | none => simp [Untracked, hget, fresh_of_untracked hget htrack]
  | some p =>
    have hget' : (s.install fd flags).mgr.get fd = some (some p) := hget
    rw [track_of_get hget', Option.some.injEq] at htrack
    rw [← htrack, fresh_install_iff hget]
    simp [Untracked, hget]

/-! ## Whole runs -/

/-- Every tracked number is open, and the size of the table fits in an `int`. -/
structure Live (s : Sys) : Prop where
  small : s.mgr.size < 2 ^ 31
  isOpen : ∀ fd p, s.mgr.data fd = some (some p) → (s.file fd).isSome

lemma live_initial : Sys.initial.Live where
  small := by decide
  isOpen fd p h := by
    unfold FdManager.data at h
    split at h
    · simp [Sys.initial, FdManager.initial] at h
    · contradiction

lemma Live.of_entries (h : s.Live) (hsize : s'.mgr.size = s.mgr.size)
    (hdata : ∀ fd p, s'.mgr.data fd = some (some p) →
      s.mgr.data fd = some (some p) ∧ ((s.file fd).isSome → (s'.file fd).isSome)) : s'.Live where
  small := hsize ▸ h.small
  isOpen fd p hp := (hdata fd p hp).2 (h.isOpen fd p (hdata fd p hp).1)

lemma Live.untracked (h : s.Live) (hfree : s.isFree fd) {entry : Option Nat}
    (hget : s.mgr.get fd = some entry) : s.Untracked fd := by
  cases entry with
  | none => exact hget
  | some p =>
    have hopen := h.isOpen fd p (FdManager.data_of_get hget)
    rw [hfree.2.2] at hopen
    contradiction

lemma Live.install (h : s.Live) (fd : Int) (flags : Flags) : (s.install fd flags).Live := by
  refine h.of_entries rfl fun fd' p hp => ⟨hp, fun hopen => ?_⟩
  by_cases hfd : fd' = fd
  · subst hfd
    simp [Sys.install]
  · simpa [Sys.install, hfd] using hopen

lemma Live.track (h : s.Live) {d : Descr} (hfile : s.file fd = some d)
    (hsocket : d.socket = true) (hfd : 3 * fd < 2 ^ 32) (htrack : s.track K fd = some s') :
    s'.Live := by
  unfold Sys.track at htrack
  split at htrack
  · contradiction
  · exact Option.some.inj htrack ▸ h
  obtain ⟨mgr, hcreate, rfl⟩ := Option.map_eq_some_iff.mp htrack
  obtain ⟨-, word, -, hset⟩ := initCtx_socket K hfile hsocket
  rw [hset]
  constructor
  · exact FdManager.size_create hcreate h.small hfd
  intro fd' p hp
  obtain rfl | hold := FdManager.data_of_create hcreate hp
  · simp [hfile]
  · exact h.isOpen fd' p hold

theorem Live.close (h : s.Live) {hook : Bool} (hok : hook = true ∨ s.Untracked fd)
    (hclose : s.close hook fd = some s') : s'.Live := by
  have hother : ∀ fd', fd' ≠ fd → (s.file fd').isSome → ((s.closeF fd).file fd').isSome := by
    intro fd' hfd hopen
    simpa [closeF, hfd] using hopen
  have huntracked : s.Untracked fd → (s.closeF fd).Live := by
    intro hnone
    refine h.of_entries rfl fun fd' p hp => ⟨hp, hother fd' ?_⟩
    rintro rfl
    rw [Untracked, FdManager.get_of_data h.small hp] at hnone
    simp at hnone
  unfold Sys.close at hclose
  split at hclose
  · split at hclose
    · contradiction
    · rename_i hget
      exact Option.some.inj hclose ▸ huntracked hget
    obtain ⟨mgr, hdel, rfl⟩ := Option.map_eq_some_iff.mp hclose
    refine h.of_entries (FdManager.size_del hdel) fun fd' p hp => ?_
    obtain ⟨hne, hold⟩ := FdManager.data_of_del hdel h.small hp
    exact ⟨hold, hother fd' hne⟩
  · rename_i hhook
    exact Option.some.inj hclose ▸ huntracked (hok.resolve_left hhook)

@[simp] lemma setflF_file (s : Sys) (fd : Int) (arg : Flags) :
    (s.setflF K fd arg).1.file = s.file := by
  unfold setflF
  split
  · split <;> rfl
  · rfl

@[simp] lemma setflF_mgr (s : Sys) (fd : Int) (arg : Flags) :
    (s.setflF K fd arg).1.mgr = s.mgr := by
  unfold setflF
  split
  · split <;> rfl
  · rfl

@[simp] lemma fionbioF_file (s : Sys) (fd : Int) (v : Int) : (s.fionbioF fd v).1.file = s.file := by
  unfold fionbioF
  split <;> rfl

@[simp] lemma fionbioF_mgr (s : Sys) (fd : Int) (v : Int) : (s.fionbioF fd v).1.mgr = s.mgr := by
  unfold fionbioF
  split <;> rfl

structure SameEntries (s s' : Sys) : Prop where
  file : s'.file = s.file
  size : s'.mgr.size = s.mgr.size
  data : s'.mgr.data = s.mgr.data

lemma Live.of_sameEntries (h : s.Live) (hsame : SameEntries s s') : s'.Live :=
  h.of_entries hsame.size fun _ _ hp => ⟨hsame.data ▸ hp, fun hopen => hsame.file ▸ hopen⟩

lemma SameEntries.refl (s : Sys) : SameEntries s s := ⟨rfl, rfl, rfl⟩

lemma sameEntries_setUserNonblock (s : Sys) (p : Nat) (v : Bool) :
    SameEntries s (s.setUserNonblock p v) := ⟨rfl, rfl, rfl⟩

lemma SameEntries.setflF (h : SameEntries s s') (fd : Int) (arg : Flags) :
    SameEntries s (s'.setflF K fd arg).1 :=
  ⟨by rw [setflF_file, h.file], by rw [setflF_mgr, h.size], by rw [setflF_mgr, h.data]⟩

lemma SameEntries.fionbioF (h : SameEntries s s') (fd : Int) (v : Int) :
    SameEntries s (s'.fionbioF fd v).1 :=
  ⟨by rw [fionbioF_file, h.file], by rw [fionbioF_mgr, h.size], by rw [fionbioF_mgr, h.data]⟩

lemma sameEntries_setfl {arg : Flags} {r : Sys × Int} (h : s.setfl K fd arg = some r) :
    SameEntries s r.1 := by
  unfold setfl at h
  split at h
  · contradiction
  · exact Option.some.inj h ▸ (SameEntries.refl s).setflF fd arg
  rename_i p _
  have hset := sameEntries_setUserNonblock s p (nonblocking arg)
  dsimp only at h
  split at h
  · exact Option.some.inj h ▸ hset.setflF fd _
  · exact Option.some.inj h ▸ hset.setflF fd _

lemma sameEntries_fionbio {v : Int} {r : Sys × Int} (h : s.fionbio fd v = some r) :
    SameEntries s r.1 := by
  unfold fionbio at h
  split at h
  · contradiction
  · exact Option.some.inj h ▸ (SameEntries.refl s).fionbioF fd v
  · rename_i p _
    exact Option.some.inj h ▸ (sameEntries_setUserNonblock s p (v != 0)).fionbioF fd v

lemma sameEntries_setsockopt {hook : Bool} {so : TimeoutSo} {sec usec : Int}
    (h : s.setsockopt hook fd so sec usec = some s') : SameEntries s s' := by
  unfold setsockopt at h
  split at h
  · split at h
    · contradiction
    · exact Option.some.inj h ▸ ⟨rfl, rfl, rfl⟩
    · exact Option.some.inj h ▸ ⟨rfl, rfl, rfl⟩
  · exact Option.some.inj h ▸ ⟨rfl, rfl, rfl⟩

end Sys

/-- A tracked number is closed by a thread with the hook enabled, and stays so small that the size
of the table fits in an `int`. -/
def Tidy (s : Sys) : ControlCall → Prop
  | .close hook fd => hook = true ∨ s.Untracked fd
  | a => ∀ o ∈ a.opens, 3 * o.1 < 2 ^ 32

instance (s : Sys) : (a : ControlCall) → Decidable (Tidy s a)
  | .close .. => inferInstanceAs (Decidable (_ ∨ _))
  | .socket .. | .accept .. | .setfl .. | .getfl .. | .dupfd .. | .fionbio .. | .setsockopt .. =>
    inferInstanceAs (Decidable (∀ o ∈ _, _))

namespace Sys

variable {K : Setfl} {s s' : Sys} {a : ControlCall}

lemma Live.step (h : s.Live) (hok : Tidy s a) (hstep : s.step K a = some s') : s'.Live := by
  cases hopens : a.opens with
  | some o =>
    obtain ⟨fd, flags⟩ := o
    have hfd : 3 * fd < 2 ^ 32 := by
      cases a with
      | close hook fd' => simp [ControlCall.opens] at hopens
      | _ => exact hok (fd, flags) hopens
    obtain ⟨-, htrack, -⟩ := step_opens_some hopens hstep
    have hfile : (s.install fd flags).file fd = some ⟨s.nextFile, true⟩ := by
      simp [Sys.install]
    exact (h.install fd flags).track hfile rfl hfd htrack
  | none =>
    cases a with
    | socket hook fd flags =>
      cases hook with
      | true => simp [ControlCall.opens] at hopens
      | false =>
        simp only [Sys.step, Sys.socket] at hstep
        split at hstep
        · exact Option.some.inj hstep ▸ h.install fd flags
        · contradiction
    | accept fd flags => simp [ControlCall.opens] at hopens
    | close hook fd => exact h.close hok hstep
    | setfl fd arg =>
      obtain ⟨r, hr, rfl⟩ := Option.map_eq_some_iff.mp hstep
      exact h.of_sameEntries (sameEntries_setfl hr)
    | getfl fd =>
      obtain ⟨r, -, rfl⟩ := Option.map_eq_some_iff.mp hstep
      exact h
    | dupfd fd new =>
      simp only [Sys.step] at hstep
      split at hstep
      · rename_i hfree
        refine Option.some.inj hstep ▸ h.of_entries rfl fun fd' p hp => ⟨hp, fun hopen => ?_⟩
        have hne : fd' ≠ new := by
          rintro rfl
          rw [hfree.2.2] at hopen
          contradiction
        simpa [dupF, hne] using hopen
      · contradiction
    | fionbio fd v =>
      obtain ⟨r, hr, rfl⟩ := Option.map_eq_some_iff.mp hstep
      exact h.of_sameEntries (sameEntries_fionbio hr)
    | setsockopt hook fd so sec usec =>
      exact h.of_sameEntries (sameEntries_setsockopt hstep)

end Sys

/-- The context stored for a new descriptor is fresh exactly if there was none, or one that looks
new; and it is in every tidy run. -/
theorem fresh_context (K : Setfl) :
    (∀ s s' a fd flags, a.opens = some (fd, flags) → (controlSystem K).step s a = some s' →
      (s'.Fresh fd ↔ s.Untracked fd ∨
        ∃ p, s.mgr.get fd = some (some p) ∧ s.mgr.ctx p = freshCtx ∧ nonblocking flags = true)) ∧
    ∀ s s' a fd flags, (controlSystem K).ReachableWith Tidy s → a.opens = some (fd, flags) →
      (controlSystem K).step s a = some s' → s'.Fresh fd := by
  refine ⟨fun s s' a fd flags hopens hstep => Sys.fresh_step_iff hopens hstep, ?_⟩
  intro s s' a fd flags hreach hopens hstep
  have hlive : s.Live := by
    refine TransitionSystem.ReachableWith.invariant (I := Sys.Live) ?_ ?_ hreach
    · rintro s rfl
      exact Sys.live_initial
    · intro s a s' h hok hstep
      exact h.step hok hstep
  obtain ⟨hfree, -, entry, hget⟩ := Sys.step_opens_some hopens hstep
  exact (Sys.fresh_step_iff hopens hstep).mpr (.inl (hlive.untracked hfree hget))

def openWithTimeout (fd : Int) : List ControlCall :=
  [.socket true fd 0, .setsockopt true fd .rcv 5 0]

theorem fresh_context_reused :
    ∃ s s', (controlSystem .all).runWith Tidy .initial (openWithTimeout 5 ++ [.close true 5]) =
        some s ∧
      (controlSystem .all).step s (.socket true 5 0) = some s' ∧ s'.Fresh 5 := by
  have hrun : (controlSystem .all).runWith Tidy .initial
      (openWithTimeout 5 ++ [.close true 5]) = some _ := rfl
  have hreach := TransitionSystem.reachableWith_of_runWith (.init rfl) hrun
  refine ⟨_, _, hrun, rfl, ?_⟩
  exact (fresh_context .all).2 _ _ (.socket true 5 0) 5 0 hreach rfl rfl

/-- The same number closed by a thread without the hook: the new socket has the
timeout of the old one, and it blocks. -/
theorem stale_context :
    ∃ s s', (controlSystem .all).run .initial (openWithTimeout 5 ++ [.close false 5]) = some s ∧
      (controlSystem .all).step s (.socket true 5 0) = some s' ∧ ¬ s'.Fresh 5 ∧
      ∃ p d, s'.mgr.data 5 = some (some p) ∧ s'.file 5 = some d ∧
        (s'.mgr.ctx p).recvTimeout = 5000 ∧ nonblocking (s'.flags d.id) = false := by
  refine ⟨_, _, rfl, rfl, ?_, _, _, rfl, rfl, rfl, rfl⟩
  rintro ⟨p, d, hdata, -, hfile, -, hnb⟩
  cases hfile
  cases hnb

end Yuyu.Hook
