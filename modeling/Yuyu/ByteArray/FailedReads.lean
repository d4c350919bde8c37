import Yuyu.ByteArray.Calls

/-!
# Reads that run out of bytes

Reads of variable-length integers and of strings ask for their bytes in parts, and what they have
read before is lost.
-/

namespace Yuyu.ByteArray

open Foundation

inductive Reader where
  | value (k : Kind)
  | string (f : StringFormat)
deriving DecidableEq

namespace Reader

def run (p : Platform) : Reader → Action Unit
  | .value k => do let _ ← readValue p k
  | .string f => do let _ ← readString p f

def firstRead : Reader → Nat
  | .value k => k.firstRead
  | .string f => f.length.firstRead

def fixedWidth : Reader → Bool
  | .value .int32 | .value .uint32 | .value .int64 | .value .uint64 => false
  | .value _ => true
  | .string _ => false

lemma firstRead_pos (rd : Reader) : 1 ≤ rd.firstRead := by
  cases rd with
  | value k => exact k.firstRead_pos
  | string f => exact f.length.firstRead_pos

lemma run_firstReads (p : Platform) (rd : Reader) : FirstReads rd.firstRead (rd.run p) := by
  cases rd with
  | value k => exact (readValue_firstReads p k).bind fun _ => OnlyMoves.pure ()
  | string f => exact (readString_firstReads p f).bind fun _ => OnlyMoves.pure ()

end Reader

def Total {α : Type} (act : Action α) : Prop := ∀ b, ∃ a b', act b = .ok a b'

lemma Total.pure {α : Type} (a : α) : Total (return a) := fun b => ⟨a, b, rfl⟩

lemma Total.bind {α β : Type} {x : Action α} {f : α → Action β} (hx : Total x)
    (hf : ∀ a, Total (f a)) : Total (x >>= f) := by
  intro b
  obtain ⟨a, b₁, hrun⟩ := hx b
  rw [bind_of_ok hrun]
  exact hf a b₁

lemma lt_of_read_error {α : Type} {n : Nat} (hn : 1 ≤ n) {f : List Byte → Action α}
    (hf : ∀ bytes, Total (f bytes)) {b b' : ByteArray} (hb : b.WellFormed) {e : Failure}
    (hrun : (read n >>= f) b = .error e b') : b.size - b.position < n := by
  by_contra henough
  obtain ⟨b₁, hread, -⟩ := (read_spec hb hn).2 (by omega)
  obtain ⟨a, b₂, hrest⟩ := hf (((contents b.nodes).drop b.position).take n) b₁
  rw [bind_of_ok hread, hrest] at hrun
  cases hrun

lemma Reader.exists_read_eq (p : Platform) {rd : Reader} (h : rd.fixedWidth = true) :
    ∃ f : List Byte → Action Unit, rd.run p = read rd.firstRead >>= f ∧
      ∀ bytes, Total (f bytes) := by
  have hget : Total (MonadState.get : Action ByteArray) := fun b => ⟨b, b, rfl⟩
  have hfixed : ∀ w n : Nat, ∃ f : List Byte → Action Unit,
      (do let _ ← readFixed p w n : Action Unit) = read n >>= f ∧ ∀ bytes, Total (f bytes) := by
    intro w n
    refine ⟨_, bind_assoc _ _ _, fun bytes => (hget.bind fun b => ?_).bind fun _ => Total.pure ()⟩
    split
    · exact Total.pure _
    · exact Total.pure _
  cases rd with
  | string f => cases h
  | value k =>
    cases k with
    | fint8 | fuint8 =>
      exact ⟨_, bind_assoc _ _ _, fun bytes => (Total.pure _).bind fun _ => Total.pure ()⟩
    | fint16 | fuint16 => exact hfixed 16 2
    | fint32 | fuint32 | float => exact hfixed 32 4
    | fint64 | fuint64 | double => exact hfixed 64 8
    | int32 | uint32 | int64 | uint64 => cases h

/-- The position, the node pointer, the size and the contents are the same. -/
structure Untouched (b b' : ByteArray) : Prop where
  position_eq : b'.position = b.position
  cur_eq : b'.cur = b.cur
  size_eq : b'.size = b.size
  contents_eq : contents b'.nodes = contents b.nodes

lemma Moved.untouched_iff {b b' : ByteArray} (h : Moved b b') (hb : b.WellFormed) :
    Untouched b b' ↔ b'.position = b.position := by
  constructor
  · exact Untouched.position_eq
  intro hpos
  refine ⟨hpos, ?_, h.size_eq, by rw [h.nodes_eq]⟩
  rw [h.wf.cur_eq, hb.cur_eq, hpos, h.capacity_eq hb, h.base_eq]

/-- A typed read that throws for lack of bytes leaves the array untouched exactly if there are too
few for its first read. -/
theorem failed_read_iff {p : Platform} {baseSize : Nat} (hpos : 1 ≤ baseSize)
    (hlt : baseSize < addressSpace) {b : ByteArray}
    (h : (callSystem p baseSize).ReachableWith Call.Fits b) {rd : Reader} {what : String}
    {b' : ByteArray} (hrun : rd.run p b = .error (.outOfRange what) b') :
    (Untouched b b' ↔ b.size - b.position < rd.firstRead) ∧
      (rd.fixedWidth = true → Untouched b b') := by
  have hwf := (inMemory_of_reachable hpos hlt h).wf
  have hfirst := rd.run_firstReads p
  have hmoved := hfirst.onlyMoves b hwf
  rw [hrun] at hmoved
  have hiff : Untouched b b' ↔ b.size - b.position < rd.firstRead :=
    (hmoved.untouched_iff hwf).trans (hfirst.error_iff rd.firstRead_pos hwf hrun)
  refine ⟨hiff, fun hfixed => hiff.mpr ?_⟩
  obtain ⟨f, heq, hf⟩ := Reader.exists_read_eq p hfixed
  rw [heq] at hrun
  exact lt_of_read_error rd.firstRead_pos hf hwf hrun

def oneByte : ByteArray := final ((do write [0x80]; setPosition 0 : Action Unit) (new 4 fun _ => 0))

lemma reachable_oneByte (p : Platform) : (callSystem p 4).ReachableWith Call.Fits oneByte :=
  have hrun : (callSystem p 4).runWith Call.Fits (new 4 fun _ => 0)
      [.write [0x80], .setPosition 0] = some oneByte := rfl
  TransitionSystem.reachableWith_of_runWith (.init ⟨fun _ => 0, rfl⟩) hrun

theorem failed_read_iff_fixed :
    ∃ b', Reader.run ⟨.little, .little⟩ (.value .fuint32) oneByte =
        .error (.outOfRange "not enough len") b' ∧ Untouched oneByte b' :=
  ⟨oneByte, rfl,
    (failed_read_iff (by decide) (by decide) (reachable_oneByte _)
      (show Reader.run ⟨.little, .little⟩ (.value .fuint32) oneByte = _ from rfl)).2 rfl⟩

/-- Reading a variable-length integer whose second byte is missing consumes the first. -/
theorem failed_varint_consumes :
    ∃ b', (callSystem ⟨.little, .little⟩ 4).ReachableWith Call.Fits oneByte ∧
      readUint32 ⟨.little, .little⟩ oneByte = .error (.outOfRange "not enough len") b' ∧
      oneByte.position = 0 ∧ b'.position = 1 ∧ ¬ Untouched oneByte b' := by
  refine ⟨_, reachable_oneByte _, rfl, rfl, rfl, ?_⟩
  intro huntouched
  exact absurd huntouched.position_eq (by decide)

end Yuyu.ByteArray
