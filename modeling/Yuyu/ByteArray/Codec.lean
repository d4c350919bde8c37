import Yuyu.ByteArray.Chain
import Yuyu.Foundation.WordBytes

/-!
# Typed values in a byte array

The typed writes and reads of `yuyu/bytearray.cc`. Values are bit vectors, `float` and `double` as
bit patterns. The byte orders of the machine and of `YUYU_BYTE_ORDER` are independent parameters.
-/

namespace Yuyu

open Foundation

/-- The order in which the machine stores the bytes of a word, and the one that `YUYU_BYTE_ORDER`
says it has. -/
structure Platform where
  memory : Endian
  byteOrder : Endian

namespace Platform

/-- The `n` bytes of a word in memory. -/
def bytesOf (p : Platform) {w : Nat} (n : Nat) (v : BitVec w) : List Byte :=
  match p.memory with
  | .little => WordBytes.leBytes n v
  | .big => (WordBytes.leBytes n v).reverse

def ofBytes (p : Platform) {w : Nat} (bytes : List Byte) : BitVec w :=
  match p.memory with
  | .little => WordBytes.ofLeBytes bytes
  | .big => WordBytes.ofLeBytes bytes.reverse

end Platform

namespace ByteArray

variable (p : Platform)

/-- The writes of integers of `n` bytes: swapped if the order of the array is not the order of the
machine. -/
def writeFixed {w : Nat} (n : Nat) (value : BitVec w) : Action Unit := do
  let b ← get
  let value := if b.endian ≠ p.byteOrder then WordBytes.byteswap n value else value
  write (p.bytesOf n value)

/-- The reads of integers of `n` bytes. -/
def readFixed (w n : Nat) : Action (BitVec w) := do
  let bytes ← read n
  let v : BitVec w := p.ofBytes bytes
  let b ← get
  if b.endian = p.byteOrder then return v else return WordBytes.byteswap n v

def writeFint8 (value : BitVec 8) : Action Unit := write (p.bytesOf 1 value)
def writeFuint8 (value : BitVec 8) : Action Unit := write (p.bytesOf 1 value)
def writeFint16 (value : BitVec 16) : Action Unit := writeFixed p 2 value
def writeFuint16 (value : BitVec 16) : Action Unit := writeFixed p 2 value
def writeFint32 (value : BitVec 32) : Action Unit := writeFixed p 4 value
def writeFuint32 (value : BitVec 32) : Action Unit := writeFixed p 4 value
def writeFint64 (value : BitVec 64) : Action Unit := writeFixed p 8 value
def writeFuint64 (value : BitVec 64) : Action Unit := writeFixed p 8 value

def readFint8 : Action (BitVec 8) := do return p.ofBytes (← read 1)
def readFuint8 : Action (BitVec 8) := do return p.ofBytes (← read 1)
def readFint16 : Action (BitVec 16) := readFixed p 16 2
def readFuint16 : Action (BitVec 16) := readFixed p 16 2
def readFint32 : Action (BitVec 32) := readFixed p 32 4
def readFuint32 : Action (BitVec 32) := readFixed p 32 4
def readFint64 : Action (BitVec 64) := readFixed p 64 8
def readFuint64 : Action (BitVec 64) := readFixed p 64 8

def encodeZigzag32 (v : BitVec 32) : BitVec 32 := WordBytes.zigzagEncode v

def encodeZigzag64 (v : BitVec 64) : BitVec 64 := WordBytes.zigzagEncode v

def decodeZigzag32 (v : BitVec 32) : BitVec 32 := WordBytes.zigzagDecode v

def decodeZigzag64 (v : BitVec 64) : BitVec 64 := WordBytes.zigzagDecode v

/-- The loop that fills `tmp`, with `room` entries of it left.  It
leaves the array when there is no entry left for a byte. -/
def encodeVarint {w : Nat} : Nat → BitVec w → Except Failure (List Byte)
  | 0, _ => .error .outOfBounds
  | room + 1, value =>
    if value ≥ 0x80#w then do
      let rest ← encodeVarint room (value >>> 7)
      return ((value &&& 0x7f#w) ||| 0x80#w).setWidth 8 :: rest
    else .ok [value.setWidth 8]

/-- The writes of variable-length integers, with `tmp` of the given size. -/
def writeVarint {w : Nat} (room : Nat) (value : BitVec w) : Action Unit := do
  match encodeVarint room value with
  | .ok tmp => write tmp
  | .error e => throw e

def writeUint32 (value : BitVec 32) : Action Unit := writeVarint 5 value

def writeUint64 (value : BitVec 64) : Action Unit := writeVarint 10 value

def writeInt32 (value : BitVec 32) : Action Unit := writeUint32 (encodeZigzag32 value)

def writeInt64 (value : BitVec 64) : Action Unit := writeUint64 (encodeZigzag64 value)

/-- The loop of the reads of variable-length integers, from shift `i` on:
one round for each `i` below the width. -/
def readVarint {w : Nat} : Nat → Nat → BitVec w → Action (BitVec w)
  | 0, _, result => return result
  | rounds + 1, i, result => do
      let b ← readFuint8 p
      if b < 0x80#8 then return result ||| b.setWidth w <<< i
      else readVarint rounds (i + 7) (result ||| (b &&& 0x7f#8).setWidth w <<< i)

def readUint32 : Action (BitVec 32) := readVarint p 5 0 0#32

def readUint64 : Action (BitVec 64) := readVarint p 10 0 0#64

def readInt32 : Action (BitVec 32) := do return decodeZigzag32 (← readUint32 p)

def readInt64 : Action (BitVec 64) := do return decodeZigzag64 (← readUint64 p)

def writeFloat (value : BitVec 32) : Action Unit := writeFuint32 p value

def writeDouble (value : BitVec 64) : Action Unit := writeFuint64 p value

def readFloat : Action (BitVec 32) := readFuint32 p

def readDouble : Action (BitVec 64) := readFuint64 p

def maxStringSize : Nat := 2 ^ 63 - 1

def readPayload (len : Nat) : Action (List Byte) := do
  if len > maxStringSize then throw .lengthError
  read len

def writeStringF16 (value : List Byte) : Action Unit := do
  writeFuint16 p (BitVec.ofNat 16 value.length)
  write value

def writeStringF32 (value : List Byte) : Action Unit := do
  writeFuint32 p (BitVec.ofNat 32 value.length)
  write value

def writeStringF64 (value : List Byte) : Action Unit := do
  writeFuint64 p (BitVec.ofNat 64 value.length)
  write value

def writeStringVint (value : List Byte) : Action Unit := do
  writeUint64 (BitVec.ofNat 64 value.length)
  write value

def readStringF16 : Action (List Byte) := do
  let len ← readFuint16 p
  readPayload len.toNat

def readStringF32 : Action (List Byte) := do
  let len ← readFuint32 p
  readPayload len.toNat

def readStringF64 : Action (List Byte) := do
  let len ← readFuint64 p
  readPayload len.toNat

def readStringVint : Action (List Byte) := do
  let len ← readUint64 p
  readPayload len.toNat

inductive Kind where
  | fint8 | fuint8 | fint16 | fuint16 | fint32 | fuint32 | fint64 | fuint64
  | int32 | uint32 | int64 | uint64 | float | double
deriving DecidableEq

def Kind.width : Kind → Nat
  | .fint8 | .fuint8 => 8
  | .fint16 | .fuint16 => 16
  | .fint32 | .fuint32 | .int32 | .uint32 | .float => 32
  | .fint64 | .fuint64 | .int64 | .uint64 | .double => 64

def writeValue : (k : Kind) → BitVec k.width → Action Unit
  | .fint8, v => writeFint8 p v
  | .fuint8, v => writeFuint8 p v
  | .fint16, v => writeFint16 p v
  | .fuint16, v => writeFuint16 p v
  | .fint32, v => writeFint32 p v
  | .fuint32, v => writeFuint32 p v
  | .fint64, v => writeFint64 p v
  | .fuint64, v => writeFuint64 p v
  | .int32, v => writeInt32 v
  | .uint32, v => writeUint32 v
  | .int64, v => writeInt64 v
  | .uint64, v => writeUint64 v
  | .float, v => writeFloat p v
  | .double, v => writeDouble p v

def readValue : (k : Kind) → Action (BitVec k.width)
  | .fint8 => readFint8 p
  | .fuint8 => readFuint8 p
  | .fint16 => readFint16 p
  | .fuint16 => readFuint16 p
  | .fint32 => readFint32 p
  | .fuint32 => readFuint32 p
  | .fint64 => readFint64 p
  | .fuint64 => readFuint64 p
  | .int32 => readInt32 p
  | .uint32 => readUint32 p
  | .int64 => readInt64 p
  | .uint64 => readUint64 p
  | .float => readFloat p
  | .double => readDouble p

inductive StringFormat where
  | f16 | f32 | f64 | vint
deriving DecidableEq

def StringFormat.length : StringFormat → Kind
  | .f16 => .fuint16
  | .f32 => .fuint32
  | .f64 => .fuint64
  | .vint => .uint64

def writeString : StringFormat → List Byte → Action Unit
  | .f16, value => writeStringF16 p value
  | .f32, value => writeStringF32 p value
  | .f64, value => writeStringF64 p value
  | .vint, value => writeStringVint value

def readString : StringFormat → Action (List Byte)
  | .f16 => readStringF16 p
  | .f32 => readStringF32 p
  | .f64 => readStringF64 p
  | .vint => readStringVint p

abbrev Value := (k : Kind) × BitVec k.width

def writeAll : List Value → Action Unit
  | [] => return ()
  | v :: vs => do
      writeValue p v.1 v.2
      writeAll vs

def readAll : List Kind → Action (List Value)
  | [] => return []
  | k :: ks => do
      let v ← readValue p k
      let vs ← readAll ks
      return ⟨k, v⟩ :: vs

def writeStrings : List (StringFormat × List Byte) → Action Unit
  | [] => return ()
  | item :: items => do
      writeString p item.1 item.2
      writeStrings items

def readStrings : List StringFormat → Action (List (List Byte))
  | [] => return []
  | f :: fs => do
      let value ← readString p f
      let values ← readStrings fs
      return value :: values

end ByteArray
end Yuyu
