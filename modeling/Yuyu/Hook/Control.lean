import Yuyu.Foundation.TransitionSystem
import Yuyu.Hook.Descriptors
import Mathlib.Data.List.Infix

/-!
# The calls that control a descriptor

`fcntl`, `ioctl`, `setsockopt`, `socket`, `accept` and `close` of `yuyu/hook.cc` as they act on the
flags and descriptors of the kernel and on the table of contexts. Descriptors made by `F_DUPFD`
share the flags of their file description. `fcntl`, `ioctl` and a part of `accept` do not look at
whether the hook is enabled.
-/

namespace Yuyu.Hook

open Foundation Function

abbrev Flags := BitVec 32

def oNonblock : Flags := 0x800#32

def nonblocking (flags : Flags) : Bool := flags &&& oNonblock != 0

lemma nonblocking_eq (flags : Flags) : nonblocking flags = flags.getLsbD 11 := by
  have hone : oNonblock = BitVec.twoPow 32 11 := by decide
  rw [nonblocking, hone, BitVec.and_twoPow]
  cases flags.getLsbD 11 <;> decide

@[simp] lemma nonblocking_set (flags : Flags) : nonblocking (flags ||| oNonblock) = true := by
  have hbit : oNonblock.getLsbD 11 = true := by decide
  rw [nonblocking_eq, BitVec.getLsbD_or, hbit, Bool.or_true]

@[simp] lemma nonblocking_clear (flags : Flags) : nonblocking (flags &&& ~~~oNonblock) = false := by
  have hbit : (~~~oNonblock).getLsbD 11 = false := by decide
  rw [nonblocking_eq, BitVec.getLsbD_and, hbit, Bool.and_false]

@[simp] lemma others_set (flags : Flags) :
    (flags ||| oNonblock) &&& ~~~oNonblock = flags &&& ~~~oNonblock := by
  ext i hi
  simp only [BitVec.getElem_and, BitVec.getElem_or, BitVec.getElem_not]
  cases flags[i] <;> cases oNonblock[i] <;> rfl

@[simp] lemma others_clear (flags : Flags) :
    flags &&& ~~~oNonblock &&& ~~~oNonblock = flags &&& ~~~oNonblock := by
  rw [BitVec.and_assoc, BitVec.and_self]

/-- What the kernel makes of `F_SETFL`: the flags after the call, or nothing if it refuses.
`O_NONBLOCK` is taken over, and adding it is not refused. -/
structure Setfl where
  apply : Flags → Flags → Option Flags
  nonblock : ∀ {old arg new}, apply old arg = some new → nonblocking new = nonblocking arg
  grants : ∀ old, (apply old (old ||| oNonblock)).isSome

def Setfl.all : Setfl where
  apply _ arg := some arg
  nonblock h := by rw [Option.some.inj h]
  grants _ := rfl

structure Descr where
  id : Nat
  socket : Bool
deriving DecidableEq

structure Sys where
  file : Int → Option Descr
  flags : Nat → Flags
  nextFile : Nat
  mgr : FdManager

namespace Sys

def initial : Sys := ⟨fun _ => none, fun _ => 0, 0, .initial⟩

def isFree (s : Sys) (fd : Int) : Prop := 0 ≤ fd ∧ fd < 2 ^ 31 ∧ s.file fd = none
deriving Decidable

def install (s : Sys) (fd : Int) (flags : Flags) : Sys :=
  { s with
    file := update s.file fd (some ⟨s.nextFile, true⟩)
    flags := update s.flags s.nextFile flags
    nextFile := s.nextFile + 1 }

def closeF (s : Sys) (fd : Int) : Sys := { s with file := update s.file fd none }

def dupF (s : Sys) (fd new : Int) : Sys := { s with file := update s.file new (s.file fd) }

def getflF (s : Sys) (fd : Int) : Flags :=
  match s.file fd with
  | some d => s.flags d.id
  | none => -1

def setflF (K : Setfl) (s : Sys) (fd : Int) (arg : Flags) : Sys × Int :=
  match s.file fd with
  | some d =>
    match K.apply (s.flags d.id) arg with
    | some flags => ({ s with flags := update s.flags d.id flags }, 0)
    | none => (s, -1)
  | none => (s, -1)

def fionbioF (s : Sys) (fd : Int) (v : Int) : Sys × Int :=
  match s.file fd with
  | some d =>
    let flags :=
      if v = 0 then s.flags d.id &&& ~~~oNonblock else s.flags d.id ||| oNonblock
    ({ s with flags := update s.flags d.id flags }, 0)
  | none => (s, -1)

def initCtx (K : Setfl) (s : Sys) (fd : Int) : Sys × FdCtx :=
  match s.file fd with
  | none => (s, {})
  | some d =>
    if d.socket then
      let flags := s.getflF fd
      (if nonblocking flags then s else (s.setflF K fd (flags ||| oNonblock)).1,
        { isInit := true, isSocket := true, sysNonblock := true })
    else (s, { isInit := true })

def track (K : Setfl) (s : Sys) (fd : Int) : Option Sys :=
  match s.mgr.get fd with
  | none => none
  | some (some _) => some s
  | some none =>
    let r := s.initCtx K fd
    (s.mgr.create fd r.2).map fun mgr => { r.1 with mgr := mgr }

/-- The context that `fcntl` and `ioctl` go through: there is one, it is not
closed and it belongs to a socket. -/
def socketCtx (s : Sys) (fd : Int) : Option (Option Nat) :=
  (s.mgr.get fd).map fun ctx =>
    ctx.filter fun p => !(s.mgr.ctx p).isClosed && (s.mgr.ctx p).isSocket

def setUserNonblock (s : Sys) (p : Nat) (v : Bool) : Sys :=
  { s with mgr := s.mgr.modify p fun c => { c with userNonblock := v } }

def setfl (K : Setfl) (s : Sys) (fd : Int) (arg : Flags) : Option (Sys × Int) :=
  match s.socketCtx fd with
  | none => none
  | some none => some (s.setflF K fd arg)
  | some (some p) =>
    let s := s.setUserNonblock p (nonblocking arg)
    if (s.mgr.ctx p).sysNonblock then some (s.setflF K fd (arg ||| oNonblock))
    else some (s.setflF K fd (arg &&& ~~~oNonblock))

def getfl (s : Sys) (fd : Int) : Option Flags :=
  let arg := s.getflF fd
  match s.socketCtx fd with
  | none => none
  | some none => some arg
  | some (some p) =>
    if (s.mgr.ctx p).userNonblock then some (arg ||| oNonblock)
    else some (arg &&& ~~~oNonblock)

def fionbio (s : Sys) (fd : Int) (v : Int) : Option (Sys × Int) :=
  match s.socketCtx fd with
  | none => none
  | some none => some (s.fionbioF fd v)
  | some (some p) => some ((s.setUserNonblock p (v != 0)).fionbioF fd v)

def socket (K : Setfl) (s : Sys) (hook : Bool) (fd : Int) (flags : Flags) : Option Sys :=
  if hook then (s.install fd flags).track K fd else some (s.install fd flags)

def accept (K : Setfl) (s : Sys) (fd : Int) (flags : Flags) : Option Sys :=
  (s.install fd flags).track K fd

def close (s : Sys) (hook : Bool) (fd : Int) : Option Sys :=
  if hook then
    match s.mgr.get fd with
    | none => none
    | some none => some (s.closeF fd)
    | some (some _) => (s.mgr.del fd).map fun mgr => { s with mgr := mgr }.closeF fd
  else some (s.closeF fd)

def timevalMs (sec usec : Int) : Nat := ((sec * 1000 + usec.tdiv 1000) % word64).toNat

/-- `setsockopt` with one of the two timeouts. -/
def setsockopt (s : Sys) (hook : Bool) (fd : Int) (so : TimeoutSo) (sec usec : Int) :
    Option Sys :=
  if hook then
    match s.mgr.get fd with
    | none => none
    | some none => some s
    | some (some p) =>
      some { s with mgr := s.mgr.modify p fun c => c.setTimeout (timevalMs sec usec) so }
  else some s

end Sys

/-- A call, with the hook of the calling thread, and the number and flags that the kernel gives to a
new descriptor. -/
inductive ControlCall where
  | socket (hook : Bool) (fd : Int) (flags : Flags)
  | accept (fd : Int) (flags : Flags)
  | close (hook : Bool) (fd : Int)
  | setfl (fd : Int) (arg : Flags)
  | getfl (fd : Int)
  | dupfd (fd new : Int)
  | fionbio (fd : Int) (v : Int)
  | setsockopt (hook : Bool) (fd : Int) (so : TimeoutSo) (sec usec : Int)
deriving DecidableEq

/-- One call.  It is not defined where `m_datas` is read outside its bounds. -/
def Sys.step (K : Setfl) (s : Sys) : ControlCall → Option Sys
  | .socket hook fd flags => if s.isFree fd then s.socket K hook fd flags else none
  | .accept fd flags => if s.isFree fd then s.accept K fd flags else none
  | .close hook fd => s.close hook fd
  | .setfl fd arg => (s.setfl K fd arg).map (·.1)
  | .getfl fd => (s.getfl fd).map fun _ => s
  | .dupfd fd new => if s.isFree new then some (s.dupF fd new) else none
  | .fionbio fd v => (s.fionbio fd v).map (·.1)
  | .setsockopt hook fd so sec usec => s.setsockopt hook fd so sec usec

def controlSystem (K : Setfl) : TransitionSystem Sys ControlCall where
  init := (· = .initial)
  step := Sys.step K

namespace Sys

variable {K : Setfl} {s : Sys} {fd : Int} {d : Descr}

lemma getflF_of_file (h : s.file fd = some d) : s.getflF fd = s.flags d.id := by
  simp only [getflF, h]

lemma setflF_grants (K : Setfl) (h : s.file fd = some d) :
    ∃ flags, nonblocking flags = true ∧
      (s.setflF K fd (s.flags d.id ||| oNonblock)).1 =
        { s with flags := update s.flags d.id flags } := by
  obtain ⟨flags, hflags⟩ := Option.isSome_iff_exists.mp (K.grants (s.flags d.id))
  refine ⟨flags, ?_, ?_⟩
  · rw [K.nonblock hflags, nonblocking_set]
  · simp only [setflF, h, hflags]

lemma initCtx_socket (K : Setfl) (h : s.file fd = some d) (hsocket : d.socket = true) :
    (s.initCtx K fd).2 = { isInit := true, isSocket := true, sysNonblock := true } ∧
      ∃ flags, nonblocking flags = true ∧
        (s.initCtx K fd).1 = { s with flags := update s.flags d.id flags } := by
  simp only [initCtx, h, hsocket, if_true, getflF_of_file h, true_and]
  cases hnb : nonblocking (s.flags d.id) with
  | true => exact ⟨s.flags d.id, hnb, by simp⟩
  | false => simpa using setflF_grants K h

end Sys
end Yuyu.Hook
