import Yuyu.Foundation.Binary64
import Yuyu.Foundation.MachineInt
import Yuyu.Foundation.Splice

/-!
# The byte array

The storage of `yuyu/bytearray.cc`: a chain of nodes of equal size, as a list from `m_root` on, with
a position and a node pointer `m_cur`. A memory error is a failure of its own kind. The bytes of new
nodes are arbitrary. Differences of `size_t` values wrap; sums stay below the sizes of objects in
memory.
-/

namespace Yuyu

open Foundation

abbrev Byte := BitVec 8

inductive Endian where
  | little
  | big
deriving DecidableEq

/-- How an operation can fail: by an exception, by an access to memory that is not there, or by
handing a negative number of bytes to a stream. -/
inductive Failure where
  | outOfRange (what : String)
  | lengthError
  | nullDereference
  | outOfBounds
  | negativeLength
deriving DecidableEq

def Failure.isException : Failure → Bool
  | .outOfRange _ | .lengthError => true
  | .nullDereference | .outOfBounds | .negativeLength => false

structure Node where
  size : Nat
  ptr : List Byte
  length_ptr : ptr.length = size

namespace Node

/-- `Node::Node(s)`, with the contents the allocator left there. -/
def new (s : Nat) (fresh : Nat → Byte) : Node where
  size := s
  ptr := (List.range s).map fresh
  length_ptr := by simp

def store (node : Node) (npos : Nat) (buf : List Byte) : Except Failure Node :=
  if h : npos + buf.length ≤ node.size then
    .ok { node with
      ptr := splice node.ptr npos buf
      length_ptr := (length_splice (node.length_ptr.symm ▸ h)).trans node.length_ptr }
  else .error .outOfBounds

def load (node : Node) (npos size : Nat) : Except Failure (List Byte) :=
  if npos + size ≤ node.size then .ok ((node.ptr.drop npos).take size)
  else .error .outOfBounds

def print (node : Node) (diff len : Int) : Except Failure (List Byte) :=
  if len < 0 then .error .negativeLength
  else if diff < 0 then .error .outOfBounds
  else node.load diff.toNat len.toNat

end Node

/-- An `iovec` that points into a node. -/
structure IoVec where
  node : Nat
  offset : Nat
  len : Nat
deriving DecidableEq

/-- The state of a `ByteArray`.  `fresh` are the bytes that the
allocator will hand out next. -/
structure ByteArray where
  baseSize : Nat
  position : Nat
  capacity : Nat
  size : Nat
  endian : Endian
  nodes : List Node
  cur : Option Nat
  fresh : Nat → Byte

namespace ByteArray

abbrev Action := EStateM Failure ByteArray

def new (baseSize : Nat) (fresh : Nat → Byte) : ByteArray where
  baseSize := baseSize
  position := 0
  capacity := baseSize
  size := 0
  endian := .big
  nodes := [Node.new baseSize fresh]
  cur := some 0
  fresh := fun j => fresh (baseSize + j)

def setIsLittleEndian (b : ByteArray) (val : Bool) : ByteArray :=
  { b with endian := if val then .little else .big }

def getReadSize (b : ByteArray) : Nat := sub64 b.size b.position

def getCapacity (b : ByteArray) : Nat := sub64 b.capacity b.position

/-- The number of the node `m_cur` points to; past the chain when null. -/
def curIndex (b : ByteArray) : Nat := b.cur.getD b.nodes.length

/-- The nodes from `m_cur` on. -/
def fromCur (b : ByteArray) : List Node := b.nodes.drop b.curIndex

/-- The pointer to a node reached along `next` pointers: null behind the last. -/
def nodeAt (b : ByteArray) (i : Nat) : Option Nat := if i < b.nodes.length then some i else none

def newNodes (baseSize count : Nat) (fresh : Nat → Byte) : List Node :=
  (List.range count).map fun i => Node.new baseSize fun j => fresh (i * baseSize + j)

def addCapacity (b : ByteArray) (size : Nat) : ByteArray :=
  if size = 0 then b
  else
    let oldCap := b.getCapacity
    if oldCap ≥ size then b
    else
      let size := sub64 size oldCap
      let count := Binary64.ceilDiv size b.baseSize
      let first := if count = 0 then none else some b.nodes.length
      { b with
        nodes := b.nodes ++ newNodes b.baseSize count b.fresh
        capacity := b.capacity + count * b.baseSize
        cur := if oldCap = 0 then first else b.cur
        fresh := fun j => b.fresh (count * b.baseSize + j) }

/-- The loop of `write` over the nodes from `m_cur` on: the nodes
after it and by how many nodes `m_cur` advanced. -/
def writeLoop : List Node → Nat → List Byte → Except Failure (List Node × Nat)
  | nodes, _, [] => .ok (nodes, 0)
  | [], _, _ :: _ => .error .nullDereference
  | node :: rest, npos, c :: cs => do
      let buf := c :: cs
      let ncap := sub64 node.size npos
      if ncap ≥ buf.length then
        let stored ← node.store npos buf
        return (stored :: rest, if node.size = npos + buf.length then 1 else 0)
      else
        let stored ← node.store npos (buf.take ncap)
        let r ← writeLoop rest 0 (buf.drop ncap)
        return (stored :: r.1, r.2 + 1)

def writeNodes (buf : List Byte) : Action Unit := fun b =>
  match writeLoop b.fromCur (b.position % b.baseSize) buf with
  | .error e => .error e b
  | .ok (nodes, advanced) =>
    let position := b.position + buf.length
    .ok ()
      { b with
        nodes := b.nodes.take b.curIndex ++ nodes
        cur := b.nodeAt (b.curIndex + advanced)
        position := position
        size := if position > b.size then position else b.size }

def write (buf : List Byte) : Action Unit := fun b =>
  if buf.length = 0 then .ok () b
  else writeNodes buf (b.addCapacity buf.length)

/-- The loop of `read` over the nodes from `m_cur` on: the bytes
copied and by how many nodes `m_cur` advanced. -/
def readLoop : List Node → Nat → Nat → Except Failure (List Byte × Nat)
  | _, _, 0 => .ok ([], 0)
  | [], _, _ + 1 => .error .nullDereference
  | node :: rest, npos, n + 1 => do
      let size := n + 1
      let ncap := sub64 node.size npos
      if ncap ≥ size then
        let bytes ← node.load npos size
        return (bytes, if node.size = npos + size then 1 else 0)
      else
        let bytes ← node.load npos ncap
        let r ← readLoop rest 0 (size - ncap)
        return (bytes ++ r.1, r.2 + 1)

/-- `ByteArray::read`.  The node is dereferenced for any size, zero included. -/
def read (size : Nat) : Action (List Byte) := fun b =>
  if size > b.getReadSize then .error (.outOfRange "not enough len") b
  else
    match b.fromCur with
    | [] => .error .nullDereference b
    | _ :: _ =>
      match readLoop b.fromCur (b.position % b.baseSize) size with
      | .error e => .error e b
      | .ok (bytes, advanced) =>
        .ok bytes
          { b with
            position := b.position + size
            cur := b.nodeAt (b.curIndex + advanced) }

/-- The walk of `setPosition` along the chain, as the number of nodes passed. -/
def seek : List Node → Nat → Except Failure Nat
  | [], _ => .error .nullDereference
  | node :: rest, v =>
    if v > node.size then (seek rest (v - node.size)).map (· + 1)
    else if v = node.size then .ok 1
    else .ok 0

def setPosition (v : Nat) : Action Unit := fun b =>
  if v > b.capacity then .error (.outOfRange "set_position out of range") b
  else
    let b := { b with position := v, size := if v > b.size then v else b.size }
    match seek b.nodes v with
    | .error e => .error e b
    | .ok i => .ok () { b with cur := b.nodeAt i }

def clear : Action Unit := fun b =>
  let b := { b with
    position := 0
    size := 0
    capacity := b.baseSize
    nodes := b.nodes.take 1 }
  .ok () { b with cur := b.nodeAt 0 }

/-- The loop of `getReadBuffers`, with the number of the first node given. -/
def readBuffersLoop : List Node → Nat → Nat → Nat → Except Failure (List IoVec)
  | _, _, _, 0 => .ok []
  | [], _, _, _ + 1 => .error .nullDereference
  | node :: rest, i, npos, n + 1 => do
      let len := n + 1
      let ncap := sub64 node.size npos
      if ncap ≥ len then return [⟨i, npos, len⟩]
      else
        let r ← readBuffersLoop rest (i + 1) 0 (len - ncap)
        return ⟨i, npos, ncap⟩ :: r

/-- The returned size and the vectors appended to `buffers`. -/
def getReadBuffers (len : Nat) : Action (Nat × List IoVec) := fun b =>
  let len := if len > b.getReadSize then b.getReadSize else len
  if len = 0 then .ok (0, []) b
  else
    match readBuffersLoop b.fromCur b.curIndex (b.position % b.baseSize) len with
    | .error e => .error e b
    | .ok buffers => .ok (len, buffers) b

/-- The memory an `iovec` refers to; undefined when it leaves its node. -/
def gather (nodes : List Node) (iov : IoVec) : Option (List Byte) :=
  nodes[iov.node]?.bind fun node =>
    if iov.offset + iov.len ≤ node.size then some ((node.ptr.drop iov.offset).take iov.len)
    else none

def gatherAll (nodes : List Node) : List IoVec → Option (List Byte)
  | [] => some []
  | iov :: rest => do
      let bytes ← gather nodes iov
      let more ← gatherAll nodes rest
      return bytes ++ more

/-- `ByteArray::read(buf, size, position)`: the loop starts at `m_cur`,
whatever the position. -/
def readAt (size position : Nat) : Action (List Byte) := fun b =>
  if size > sub64 b.size position then .error (.outOfRange "not enough len") b
  else
    match b.fromCur with
    | [] => .error .nullDereference b
    | _ :: _ =>
      match readLoop b.fromCur (position % b.baseSize) size with
      | .error e => .error e b
      | .ok (bytes, _) => .ok bytes b

def toString : Action (List Byte) := fun b =>
  if b.getReadSize = 0 then .ok [] b else readAt b.getReadSize b.position b

/-- `ByteArray::getReadBuffers(buffers, len, position)`, which cuts the length to what is unread
from `m_position` on. -/
def getReadBuffersAt (len position : Nat) : Action (Nat × List IoVec) := fun b =>
  let len := if len > b.getReadSize then b.getReadSize else len
  if len = 0 then .ok (0, []) b
  else
    let count := position / b.baseSize
    match readBuffersLoop (b.nodes.drop count) count (position % b.baseSize) len with
    | .error e => .error e b
    | .ok buffers => .ok (len, buffers) b

def getWriteBuffers (len : Nat) : Action (Nat × List IoVec) := fun b =>
  if len = 0 then .ok (0, []) b
  else
    let b := b.addCapacity len
    match readBuffersLoop b.fromCur b.curIndex (b.position % b.baseSize) len with
    | .error e => .error e b
    | .ok buffers => .ok (len, buffers) b

/-- Fill the memory of a list of vectors, as `recvmsg` does; undefined when the bytes do not fit. -/
def scatterAll : List Node → List IoVec → List Byte → Option (List Node)
  | nodes, _, [] => some nodes
  | _, [], _ :: _ => none
  | nodes, iov :: rest, c :: cs => do
      let node ← nodes[iov.node]?
      let stored ← (node.store iov.offset ((c :: cs).take iov.len)).toOption
      scatterAll (nodes.set iov.node stored) rest ((c :: cs).drop iov.len)

def receive (len : Nat) (buf : List Byte) : Action Unit := fun b =>
  match getWriteBuffers len b with
  | .error e b => .error e b
  | .ok (_, iovs) b =>
    match scatterAll b.nodes iovs buf with
    | none => .error .outOfBounds b
    | some nodes => .ok () { b with nodes := nodes }

/-- The loop of `writeToFile` over the nodes from `m_cur` on. `diff` is an `int`, and the
subtraction that gives `len` is one of 64-bit words. -/
def writeToFileLoop (baseSize : Nat) : List Node → Int → Int → Except Failure (List Byte)
  | [], readSize, _ => if readSize > 0 then .error .nullDereference else .ok []
  | node :: rest, readSize, pos => do
      if readSize > 0 then
        let diff := toInt32 ((pos % word64).toNat % baseSize)
        let len :=
          toInt64 ((if readSize > toInt64 baseSize then (baseSize : Int) else readSize) - diff)
        let bytes ← node.print diff len
        let more ← writeToFileLoop baseSize rest (readSize - len) (pos + len)
        return bytes ++ more
      else return []

def writeToFile : Action (List Byte) := fun b =>
  match writeToFileLoop b.baseSize b.fromCur (toInt64 b.getReadSize) (toInt64 b.position) with
  | .error e => .error e b
  | .ok bytes => .ok bytes b

/-- The loop of `readFromFile`. The stream is at its end once a read has returned fewer bytes than
asked for. -/
def readFromFileLoop : Nat → List Byte → Action Unit
  | 0, _ => return ()
  | fuel + 1, data => do
      let b ← get
      write (data.take b.baseSize)
      if data.length < b.baseSize then return ()
      else readFromFileLoop fuel (data.drop b.baseSize)

/-- `ByteArray::readFromFile` with a file that opens. Every round but the last takes a byte at
least. -/
def readFromFile (data : List Byte) : Action Unit := readFromFileLoop (data.length + 1) data

end ByteArray
end Yuyu
