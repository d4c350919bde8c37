import Yuyu.Foundation.MachineInt

/-!
# Descriptors and their contexts

This module models the table of `FdCtx` objects of `yuyu/fd_manager.cc`.  A context is an object
at an address, since a call that has fetched it keeps it alive after it was deleted from the
table.
-/

namespace Yuyu.Hook

open Foundation Function

structure File where
  id : Nat
  socket : Bool
  nonblock : Bool := false
deriving DecidableEq

structure Kernel where
  file : Int → Option File
  nextFile : Nat

namespace Kernel

def initial : Kernel := ⟨fun _ => none, 0⟩

def owner (k : Kernel) (fd : Int) : Option Nat := (k.file fd).map File.id

def install (k : Kernel) (fd : Int) (socket : Bool) : Kernel where
  file := update k.file fd (some { id := k.nextFile, socket := socket })
  nextFile := k.nextFile + 1

def close (k : Kernel) (fd : Int) : Kernel := { k with file := update k.file fd none }

def setNonblock (k : Kernel) (fd : Int) : Kernel :=
  let file := (k.file fd).map fun file => { file with nonblock := true }
  { k with file := update k.file fd file }

@[simp] lemma owner_install (k : Kernel) (fd fd' : Int) (socket : Bool) :
    (k.install fd socket).owner fd' = if fd' = fd then some k.nextFile else k.owner fd' := by
  by_cases h : fd' = fd
  · simp [owner, install, h]
  · simp [owner, install, h]

@[simp] lemma owner_close (k : Kernel) (fd fd' : Int) :
    (k.close fd).owner fd' = if fd' = fd then none else k.owner fd' := by
  by_cases h : fd' = fd
  · simp [owner, close, h]
  · simp [owner, close, h]

@[simp] lemma owner_setNonblock (k : Kernel) (fd fd' : Int) :
    (k.setNonblock fd).owner fd' = k.owner fd' := by
  by_cases h : fd' = fd
  · subst h
    simp only [owner, setNonblock, update_self, Option.map_map]
    rfl
  · simp [owner, setNonblock, h]

end Kernel

inductive TimeoutSo where
  | rcv
  | snd
deriving DecidableEq

def noTimeout : Nat := word64 - 1

structure FdCtx where
  isInit : Bool := false
  isSocket : Bool := false
  sysNonblock : Bool := false
  userNonblock : Bool := false
  isClosed : Bool := false
  recvTimeout : Nat := noTimeout
  sendTimeout : Nat := noTimeout
deriving DecidableEq

namespace FdCtx

def new (k : Kernel) (fd : Int) : Kernel × FdCtx :=
  match k.file fd with
  | none => (k, {})
  | some file =>
    (if file.socket && !file.nonblock then k.setNonblock fd else k,
      { isInit := true, isSocket := file.socket, sysNonblock := file.socket })

@[simp] lemma owner_new (k : Kernel) (fd : Int) : (new k fd).1.owner = k.owner := by
  funext fd'
  unfold new
  split
  · rfl
  split
  · exact Kernel.owner_setNonblock k fd fd'
  · rfl

def setTimeout (c : FdCtx) (v : Nat) : TimeoutSo → FdCtx
  | .rcv => { c with recvTimeout := v }
  | .snd => { c with sendTimeout := v }

def getTimeout (c : FdCtx) : TimeoutSo → Nat
  | .rcv => c.recvTimeout
  | .snd => c.sendTimeout

end FdCtx

/-- `FdManager`, with the contexts it has created. -/
structure FdManager where
  size : Nat
  datas : Nat → Option Nat
  ctx : Nat → FdCtx
  nextCtx : Nat

namespace FdManager

def initial : FdManager := ⟨64, fun _ => none, fun _ => {}, 0⟩

/-- `m_datas[fd]`, undefined outside the vector. -/
def data (m : FdManager) (fd : Int) : Option (Option Nat) :=
  if 0 ≤ fd ∧ fd < m.size then some (m.datas fd.toNat) else none

/-- `FdManager::get` under the read lock: the context it returns, if any. -/
def get (m : FdManager) (fd : Int) : Option (Option Nat) :=
  if fd = -1 then some none
  else if toInt32 m.size ≤ fd then some none
  else m.data fd

def resize (m : FdManager) (size : Nat) : FdManager :=
  { m with size := size, datas := fun i => if i < min m.size size then m.datas i else none }

/-- `FdManager::get` with `auto_create` under the write lock: a new context
takes the place of the one there may be. -/
def create (m : FdManager) (fd : Int) (ctx : FdCtx) : Option FdManager :=
  let m' := if fd ≥ toInt32 m.size then m.resize (3 * fd.toNat / 2) else m
  if 0 ≤ fd ∧ fd < m'.size then
    some { m' with
      datas := update m'.datas fd.toNat (some m.nextCtx)
      ctx := update m.ctx m.nextCtx ctx
      nextCtx := m.nextCtx + 1 }
  else none

def del (m : FdManager) (fd : Int) : Option FdManager :=
  if toInt32 m.size ≤ fd then some m
  else if 0 ≤ fd ∧ fd < m.size then
    some { m with datas := update m.datas fd.toNat none }
  else none

def modify (m : FdManager) (p : Nat) (g : FdCtx → FdCtx) : FdManager :=
  { m with ctx := update m.ctx p (g (m.ctx p)) }

end FdManager
end Yuyu.Hook
