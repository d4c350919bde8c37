import Yuyu.ByteArray.Loops
import Yuyu.Foundation.TransitionSystem

/-!
# The byte array refines a flat buffer

The abstract buffer is a list of bytes with a position and a size.  The invariant ties the node
pointer to the position, so every operation is one step of the flat buffer.
-/

namespace Yuyu.ByteArray

open Foundation List

/-- Nodes of the base size, and the node pointer is the one of the position, null at the end of the
capacity. -/
structure WellFormed (b : ByteArray) : Prop where
  base_pos : 0 < b.baseSize
  base_lt : b.baseSize < word64
  nodes_ne_nil : b.nodes ≠ []
  uniform : Uniform b.baseSize b.nodes
  capacity_eq : b.capacity = b.nodes.length * b.baseSize
  capacity_lt : b.capacity < word64
  position_le : b.position ≤ b.size
  size_le : b.size ≤ b.capacity
  cur_eq : b.cur = if b.position = b.capacity then none else some (b.position / b.baseSize)

lemma contents_split (b : ByteArray) :
    contents b.nodes = contents (b.nodes.take b.curIndex) ++ contents b.fromCur := by
  rw [← contents_append, fromCur, take_append_drop]

namespace WellFormed

variable {b : ByteArray}

lemma length_contents (h : b.WellFormed) : (contents b.nodes).length = b.capacity := by
  rw [h.uniform.length_contents, h.capacity_eq]

lemma position_le_capacity (h : b.WellFormed) : b.position ≤ b.capacity :=
  h.position_le.trans h.size_le

lemma getReadSize_eq (h : b.WellFormed) : b.getReadSize = b.size - b.position :=
  sub64_eq (lt_of_le_of_lt h.size_le h.capacity_lt) h.position_le

lemma getCapacity_eq (h : b.WellFormed) : b.getCapacity = b.capacity - b.position :=
  sub64_eq h.capacity_lt h.position_le_capacity

lemma capacity_div (h : b.WellFormed) : b.capacity / b.baseSize = b.nodes.length := by
  rw [h.capacity_eq, Nat.mul_div_cancel _ h.base_pos]

lemma curIndex_eq (h : b.WellFormed) : b.curIndex = b.position / b.baseSize := by
  rw [curIndex, h.cur_eq]
  split
  · rename_i heq
    rw [heq, h.capacity_div, Option.getD_none]
  · rw [Option.getD_some]

lemma nodeAt_div (h : b.WellFormed) {p : Nat} (hp : p ≤ b.capacity) :
    b.nodeAt (p / b.baseSize) = if p = b.capacity then none else some (p / b.baseSize) := by
  unfold nodeAt
  by_cases heq : p = b.capacity
  · rw [if_pos heq, heq, h.capacity_div, if_neg (Nat.lt_irrefl _)]
  have hlt : p / b.baseSize < b.nodes.length := by
    rw [Nat.div_lt_iff_lt_mul h.base_pos, ← h.capacity_eq]
    omega
  rw [if_neg heq, if_pos hlt]

lemma length_take_cur (h : b.WellFormed) : (b.nodes.take b.curIndex).length = b.curIndex := by
  rw [length_take, h.curIndex_eq, ← h.capacity_div]
  exact Nat.min_eq_left (Nat.div_le_div_right h.position_le_capacity)

lemma length_contents_take (h : b.WellFormed) :
    (contents (b.nodes.take b.curIndex)).length = b.curIndex * b.baseSize := by
  rw [(h.uniform.take _).length_contents, h.length_take_cur]

lemma position_split (h : b.WellFormed) :
    b.position = b.curIndex * b.baseSize + b.position % b.baseSize := by
  rw [h.curIndex_eq, Nat.mul_comm]
  exact (Nat.div_add_mod _ _).symm

lemma room_fromCur (h : b.WellFormed) {n : Nat} (hn : b.position + n ≤ b.capacity) :
    b.position % b.baseSize + n ≤ b.fromCur.length * b.baseSize := by
  have hsplit := h.position_split
  rw [fromCur, length_drop, Nat.sub_mul, ← h.capacity_eq]
  omega

lemma drop_fromCur (h : b.WellFormed) (n : Nat) :
    (contents b.fromCur).drop n = (contents b.nodes).drop (b.curIndex * b.baseSize + n) :=
  h.uniform.drop_contents (h.length_take_cur ▸ length_take_le' ..) n

lemma drop_contents (h : b.WellFormed) :
    (contents b.nodes).drop b.position = (contents b.fromCur).drop (b.position % b.baseSize) := by
  rw [h.drop_fromCur, ← h.position_split]

lemma advance_eq (h : b.WellFormed) (n : Nat) :
    b.curIndex + (b.position % b.baseSize + n) / b.baseSize = (b.position + n) / b.baseSize := by
  have hsum : b.position + n = (b.position % b.baseSize + n) + b.curIndex * b.baseSize := by
    have hsplit := h.position_split
    omega
  rw [hsum, Nat.add_mul_div_right _ _ h.base_pos, Nat.add_comm]

lemma move (h : b.WellFormed) {b' : ByteArray} (hbase : b'.baseSize = b.baseSize)
    (hcap : b'.capacity = b.capacity) (hlen : b'.nodes.length = b.nodes.length)
    (huni : Uniform b.baseSize b'.nodes) (hpos : b'.position ≤ b'.size)
    (hsize : b'.size ≤ b.capacity)
    (hcur : b'.cur = b.nodeAt (b'.position / b.baseSize)) : b'.WellFormed where
  base_pos := hbase ▸ h.base_pos
  base_lt := hbase ▸ h.base_lt
  nodes_ne_nil := by
    have hpos' := length_pos_iff.mpr h.nodes_ne_nil
    exact length_pos_iff.mp (hlen ▸ hpos')
  uniform := hbase ▸ huni
  capacity_eq := by rw [hcap, hlen, hbase, h.capacity_eq]
  capacity_lt := hcap ▸ h.capacity_lt
  position_le := hpos
  size_le := hcap ▸ hsize
  cur_eq := by rw [hcur, h.nodeAt_div (hpos.trans hsize), hcap, hbase]

end WellFormed

/-- By how many bytes the capacity grows for a write of `n` bytes: nothing
when they fit, else whole nodes until they do. -/
def growth (baseSize capacity position n : Nat) : Nat :=
  if position + n ≤ capacity then 0
  else (position + n - capacity + baseSize - 1) / baseSize * baseSize

lemma growth_bounds (baseSize capacity position n : Nat) (hbase : 0 < baseSize) :
    position + n ≤ capacity + growth baseSize capacity position n ∧
      (position + n ≤ capacity ∨
        capacity + growth baseSize capacity position n < position + n + baseSize) := by
  unfold growth
  split
  · omega
  have hdiv := Nat.div_add_mod (position + n - capacity + baseSize - 1) baseSize
  have hmod := Nat.mod_lt (position + n - capacity + baseSize - 1) hbase
  rw [Nat.mul_comm] at hdiv
  omega

lemma uniform_newNodes (baseSize count : Nat) (fresh : Nat → Byte) :
    Uniform baseSize (newNodes baseSize count fresh) := by
  intro node hnode
  simp only [newNodes, mem_map] at hnode
  obtain ⟨i, -, rfl⟩ := hnode
  rfl

/-- The number of nodes that `addCapacity` appends when the write does not fit. -/
def missingNodes (b : ByteArray) (n : Nat) : Nat :=
  (b.position + n - b.capacity + b.baseSize - 1) / b.baseSize

variable {b : ByteArray} {n : Nat}

lemma addCapacity_of_fits (h : b.WellFormed)
    (hfit : b.position + n ≤ b.capacity) : b.addCapacity n = b := by
  have hroom : b.getCapacity ≥ n := by
    rw [h.getCapacity_eq]
    omega
  simp [addCapacity, hroom]

lemma addCapacity_of_grows (h : b.WellFormed)
    (hn : n < 2 ^ 53) (hgrow : b.capacity < b.position + n) :
    0 < b.missingNodes n ∧ b.addCapacity n = { b with
        nodes := b.nodes ++ newNodes b.baseSize (b.missingNodes n) b.fresh
        capacity := b.capacity + b.missingNodes n * b.baseSize
        cur := if b.capacity = b.position then some b.nodes.length else b.cur
        fresh := fun j => b.fresh (b.missingNodes n * b.baseSize + j) } := by
  have hpos := h.position_le_capacity
  have hroom := h.getCapacity_eq
  have hcount_pos : 0 < b.missingNodes n := Nat.div_pos (by omega) h.base_pos
  have hmissing : sub64 n (b.capacity - b.position) = b.position + n - b.capacity := by
    rw [sub64_eq (by unfold word64; omega) (by omega)]
    omega
  have hcount : Binary64.ceilDiv (b.position + n - b.capacity) b.baseSize = b.missingNodes n :=
    Binary64.ceilDiv_eq (by omega) h.base_pos
  have hzero : b.capacity - b.position = 0 ↔ b.capacity = b.position := by omega
  refine ⟨hcount_pos, ?_⟩
  simp only [addCapacity, hroom, hmissing, hcount, ge_iff_le, hzero, hcount_pos.ne', if_false,
    if_neg (by omega : ¬ n = 0), if_neg (by omega : ¬ n ≤ b.capacity - b.position)]

lemma addCapacity_spec (h : b.WellFormed) (hn : n < 2 ^ 53)
    (hword : b.position + n + b.baseSize ≤ word64) :
    (b.addCapacity n).WellFormed ∧
      (b.addCapacity n).position = b.position ∧ (b.addCapacity n).size = b.size ∧
      (b.addCapacity n).baseSize = b.baseSize ∧ (b.addCapacity n).endian = b.endian ∧
      (b.addCapacity n).capacity = b.capacity + growth b.baseSize b.capacity b.position n ∧
      ∃ ext, contents (b.addCapacity n).nodes = contents b.nodes ++ ext ∧
        ext.length = growth b.baseSize b.capacity b.position n := by
  by_cases hfit : b.position + n ≤ b.capacity
  · have hzero : growth b.baseSize b.capacity b.position n = 0 := if_pos hfit
    rw [addCapacity_of_fits h hfit, hzero]
    exact ⟨h, rfl, rfl, rfl, rfl, rfl, [], by simp, rfl⟩
  obtain ⟨hcount, hgrown⟩ := addCapacity_of_grows h hn (by omega)
  have hgrowth : growth b.baseSize b.capacity b.position n =
      b.missingNodes n * b.baseSize := if_neg hfit
  have hbound := growth_bounds b.baseSize b.capacity b.position n h.base_pos
  have huni := uniform_newNodes b.baseSize (b.missingNodes n) b.fresh
  have hlen : (newNodes b.baseSize (b.missingNodes n) b.fresh).length = b.missingNodes n := by
    simp [newNodes]
  have hpos := h.position_le_capacity
  have hsize := h.size_le
  rw [hgrown, hgrowth]
  refine ⟨?_, rfl, rfl, rfl, rfl, rfl, _, contents_append _ _, by rw [huni.length_contents, hlen]⟩
  refine ⟨h.base_pos, h.base_lt, by simp [h.nodes_ne_nil], h.uniform.append huni, ?_, ?_,
    h.position_le, ?_, ?_⟩ <;> dsimp only
  · rw [length_append, hlen, Nat.add_mul, h.capacity_eq]
  · omega
  · omega
  rw [if_neg (by omega : ¬ b.position = b.capacity + b.missingNodes n * b.baseSize)]
  split
  · rename_i heq
    rw [← heq, h.capacity_div]
  · rw [h.cur_eq, if_neg (by omega)]

/-! ## The operations -/

lemma WellFormed.writeLoop_fromCur (h : b.WellFormed) (buf : List Byte)
    (hroom : b.position + buf.length ≤ b.capacity) :
    ∃ l, writeLoop b.fromCur (b.position % b.baseSize) buf =
        .ok (l, (b.position % b.baseSize + buf.length) / b.baseSize) ∧
      contents (b.nodes.take b.curIndex ++ l) = splice (contents b.nodes) b.position buf ∧
      Uniform b.baseSize (b.nodes.take b.curIndex ++ l) ∧
      (b.nodes.take b.curIndex ++ l).length = b.nodes.length := by
  obtain ⟨l, hloop, hcont, huni, hlen⟩ :=
    writeLoop_spec h.base_pos h.base_lt b.fromCur (b.position % b.baseSize) buf
      (h.uniform.drop _) (Nat.mod_lt _ h.base_pos) (h.room_fromCur hroom)
  refine ⟨l, hloop, ?_, (h.uniform.take _).append huni, ?_⟩
  · have hsplit := h.position_split
    have htake := h.length_contents_take
    rw [contents_append, hcont, b.contents_split, splice_append_right (by omega), htake]
    congr 2
    omega
  · rw [length_append, hlen, ← length_append, fromCur, take_append_drop]

lemma writeNodes_spec (h : b.WellFormed) (buf : List Byte)
    (hroom : b.position + buf.length ≤ b.capacity) :
    ∃ b', writeNodes buf b = .ok () b' ∧ b'.WellFormed ∧
      contents b'.nodes = splice (contents b.nodes) b.position buf ∧
      b'.position = b.position + buf.length ∧
      b'.size = max b.size (b.position + buf.length) ∧
      b'.baseSize = b.baseSize ∧ b'.endian = b.endian := by
  obtain ⟨nodes, hloop, hcont, huni, hlen⟩ := h.writeLoop_fromCur buf hroom
  have hsize : (if b.position + buf.length > b.size then b.position + buf.length else b.size) =
      max b.size (b.position + buf.length) := by
    split <;> omega
  have hle := h.size_le
  refine ⟨{ b with
      nodes := b.nodes.take b.curIndex ++ nodes
      cur := b.nodeAt ((b.position + buf.length) / b.baseSize)
      position := b.position + buf.length
      size := max b.size (b.position + buf.length) }, ?_, ?_, hcont, rfl, rfl, rfl, rfl⟩
  · simp only [writeNodes, hloop, hsize, h.advance_eq]
  refine h.move rfl rfl hlen huni (Nat.le_max_right _ _) ?_ rfl
  show max b.size (b.position + buf.length) ≤ b.capacity
  omega

lemma write_spec (h : b.WellFormed) {buf : List Byte}
    (hlen : buf.length < 2 ^ 53) (hword : b.position + buf.length + b.baseSize ≤ word64) :
    ∃ b' ext, write buf b = .ok () b' ∧ b'.WellFormed ∧
      ext.length = growth b.baseSize b.capacity b.position buf.length ∧
      contents b'.nodes = splice (contents b.nodes ++ ext) b.position buf ∧
      b'.position = b.position + buf.length ∧
      b'.size = max b.size (b.position + buf.length) ∧
      b'.baseSize = b.baseSize ∧ b'.endian = b.endian := by
  by_cases hempty : buf.length = 0
  · obtain rfl := length_eq_zero_iff.mp hempty
    refine ⟨b, [], rfl, h, ?_, by simp, rfl, ?_, rfl, rfl⟩
    · exact (if_pos h.position_le_capacity).symm
    · simp [h.position_le]
  obtain ⟨hwf, hpos, hsz, hbase, hendian, hcap, ext, hext, hextlen⟩ := addCapacity_spec h hlen hword
  have hbound := (growth_bounds b.baseSize b.capacity b.position buf.length h.base_pos).1
  obtain ⟨b', hwrite, hwf', hcont, hpos', hsize', hbase', hendian'⟩ :=
    writeNodes_spec hwf buf (by rw [hpos, hcap]; exact hbound)
  rw [hpos] at hcont hpos' hsize'
  refine ⟨b', ext, ?_, hwf', hextlen, hext ▸ hcont, hpos', hsz ▸ hsize', hbase'.trans hbase,
    hendian'.trans hendian⟩
  rw [write, if_neg hempty, hwrite]

lemma read_spec (h : b.WellFormed) (hn : 1 ≤ n) :
    (b.size - b.position < n → read n b = .error (.outOfRange "not enough len") b) ∧
      (n ≤ b.size - b.position → ∃ b',
        read n b = .ok (((contents b.nodes).drop b.position).take n) b' ∧ b'.WellFormed ∧
        b'.nodes = b.nodes ∧ b'.position = b.position + n ∧ b'.size = b.size ∧
        b'.baseSize = b.baseSize ∧ b'.endian = b.endian) := by
  have hread := h.getReadSize_eq
  have hle := h.size_le
  refine ⟨fun hfew => by simp [read, hread, hfew], fun henough => ?_⟩
  have hroom := h.room_fromCur (n := n) (by omega)
  have hloop := readLoop_spec h.base_pos h.base_lt b.fromCur (b.position % b.baseSize) n
    (h.uniform.drop _) (Nat.mod_lt _ h.base_pos) hroom
  -- with `n ≥ 1` the position is inside the capacity, so the node is not null
  obtain ⟨node, rest, hcur⟩ : ∃ node rest, b.fromCur = node :: rest := by
    cases hcur : b.fromCur with
    | nil =>
      rw [hcur] at hroom
      simp only [length_nil, Nat.zero_mul] at hroom
      omega
    | cons node rest => exact ⟨node, rest, rfl⟩
  refine ⟨{ b with position := b.position + n, cur := b.nodeAt ((b.position + n) / b.baseSize) },
    ?_, ?_, rfl, rfl, rfl, rfl, rfl⟩
  · simp only [read, hread, gt_iff_lt, Nat.not_lt.mpr henough, if_false, hcur]
    rw [← hcur, hloop]
    simp only [h.advance_eq, h.drop_contents]
  · exact h.move rfl rfl rfl h.uniform (show b.position + n ≤ b.size by omega) h.size_le rfl

lemma setPosition_spec (h : b.WellFormed) (v : Nat) :
    (b.capacity < v →
        setPosition v b = .error (.outOfRange "set_position out of range") b) ∧
      (v ≤ b.capacity → ∃ b', setPosition v b = .ok () b' ∧ b'.WellFormed ∧
        b'.nodes = b.nodes ∧ b'.position = v ∧ b'.size = max b.size v ∧
        b'.baseSize = b.baseSize ∧ b'.endian = b.endian) := by
  refine ⟨fun hbeyond => by simp [setPosition, hbeyond], fun hin => ?_⟩
  have hseek := seek_spec h.base_pos b.nodes v h.uniform h.nodes_ne_nil (h.capacity_eq ▸ hin)
  have hsize : (if v > b.size then v else b.size) = max b.size v := by
    split <;> omega
  have hle := h.size_le
  refine ⟨{ b with position := v, size := max b.size v, cur := b.nodeAt (v / b.baseSize) },
    ?_, ?_, rfl, rfl, rfl, rfl, rfl⟩
  · simp only [setPosition, gt_iff_lt, Nat.not_lt.mpr hin, if_false, hseek]
    rw [← hsize]
    rfl
  · exact h.move rfl rfl rfl h.uniform (Nat.le_max_right _ _)
      (show max b.size v ≤ b.capacity by omega) rfl

lemma clear_spec (h : b.WellFormed) :
    ∃ b', clear b = .ok () b' ∧ b'.WellFormed ∧
      contents b'.nodes = (contents b.nodes).take b.baseSize ∧ b'.position = 0 ∧ b'.size = 0 ∧
      b'.baseSize = b.baseSize ∧ b'.endian = b.endian := by
  obtain ⟨node, rest, hnodes⟩ := exists_cons_of_ne_nil h.nodes_ne_nil
  have huni : Uniform b.baseSize (node :: rest) := hnodes ▸ h.uniform
  have hlen : node.ptr.length = b.baseSize := node.length_ptr.trans huni.head
  have hbase := h.base_pos
  refine ⟨_, rfl, ?_, ?_, rfl, rfl, rfl, rfl⟩
  · refine ⟨h.base_pos, h.base_lt, ?_, h.uniform.take 1, ?_, ?_, le_refl _, Nat.zero_le _, ?_⟩
    · simp [hnodes]
    · simp [hnodes]
    · exact h.base_lt
    · simp [nodeAt, hnodes, hbase.ne]
  · simp [hnodes, take_append_of_le_length hlen.ge, take_of_length_le hlen.le]

lemma WellFormed.readBuffersLoop_fromCur (h : b.WellFormed) (hroom : b.position + n ≤ b.capacity) :
    ∃ iovs, readBuffersLoop b.fromCur b.curIndex (b.position % b.baseSize) n = .ok iovs ∧
      gatherAll b.nodes iovs = some (((contents b.nodes).drop b.position).take n) := by
  obtain ⟨iovs, hloop, hgather⟩ :=
    readBuffersLoop_spec h.base_pos h.base_lt (b.nodes.take b.curIndex) b.fromCur
      (b.position % b.baseSize) n (h.uniform.drop _) (Nat.mod_lt _ h.base_pos)
      (h.room_fromCur hroom)
  rw [h.length_take_cur] at hloop
  rw [fromCur, take_append_drop, ← fromCur, ← h.drop_contents] at hgather
  exact ⟨iovs, hloop, hgather⟩

lemma getReadBuffers_spec (h : b.WellFormed) (len : Nat) :
    ∃ iovs, getReadBuffers len b = .ok (min len (b.size - b.position), iovs) b ∧
      gatherAll b.nodes iovs =
        some (((contents b.nodes).drop b.position).take (min len (b.size - b.position))) := by
  have hread := h.getReadSize_eq
  have hle := h.size_le
  have hmin : (if len > b.getReadSize then b.getReadSize else len) =
      min len (b.size - b.position) := by
    rw [hread]
    split <;> omega
  by_cases hzero : min len (b.size - b.position) = 0
  · refine ⟨[], ?_, by simp [hzero, gatherAll]⟩
    simp only [getReadBuffers, hmin, hzero, if_true]
  obtain ⟨iovs, hloop, hgather⟩ :=
    h.readBuffersLoop_fromCur (n := min len (b.size - b.position)) (by omega)
  refine ⟨iovs, ?_, hgather⟩
  simp only [getReadBuffers, hmin, hzero, if_false, hloop]

/-! ## The flat buffer -/

inductive Op where
  | write (buf : List Byte)
  | read (size : Nat)
  | setPosition (v : Nat)
  | clear
  | getReadBuffers (len : Nat)
deriving DecidableEq

inductive Observation where
  | done
  | bytes (buf : List Byte)
  | buffers (size : Nat) (buf : List Byte)
  | failure (e : Failure)
deriving DecidableEq

structure Flat where
  bytes : List Byte
  position : Nat
  size : Nat
  position_le : position ≤ size
  size_le : size ≤ bytes.length

/-- The steps of the flat buffer.  Only the bytes by which a write extends the
buffer are left open. -/
def Flat.Step (baseSize : Nat) (f : Flat) : Op → Observation → Flat → Prop
  | .write buf, o, f' =>
    o = .done ∧
      (∃ ext, ext.length = growth baseSize f.bytes.length f.position buf.length ∧
        f'.bytes = splice (f.bytes ++ ext) f.position buf) ∧
      f'.position = f.position + buf.length ∧ f'.size = max f.size (f.position + buf.length)
  | .read n, o, f' =>
    if n > f.size - f.position then
      o = .failure (.outOfRange "not enough len") ∧ f' = f
    else
      o = .bytes ((f.bytes.drop f.position).take n) ∧
        f'.bytes = f.bytes ∧ f'.position = f.position + n ∧ f'.size = f.size
  | .setPosition v, o, f' =>
    if v > f.bytes.length then
      o = .failure (.outOfRange "set_position out of range") ∧ f' = f
    else
      o = .done ∧ f'.bytes = f.bytes ∧ f'.position = v ∧ f'.size = max f.size v
  | .clear, o, f' =>
    o = .done ∧ f'.bytes = f.bytes.take baseSize ∧ f'.position = 0 ∧ f'.size = 0
  | .getReadBuffers len, o, f' =>
    o = .buffers (min len (f.size - f.position))
        ((f.bytes.drop f.position).take (min len (f.size - f.position))) ∧
      f' = f

def flat (b : ByteArray) (h : b.WellFormed) : Flat where
  bytes := contents b.nodes
  position := b.position
  size := b.size
  position_le := h.position_le
  size_le := h.length_contents.symm ▸ h.size_le

@[simp]
lemma flat_bytes (b : ByteArray) (h : b.WellFormed) : (b.flat h).bytes = contents b.nodes := rfl

@[simp]
lemma flat_position (b : ByteArray) (h : b.WellFormed) : (b.flat h).position = b.position := rfl

@[simp]
lemma flat_size (b : ByteArray) (h : b.WellFormed) : (b.flat h).size = b.size := rfl

def observe {α : Type} (act : Action α) (see : α → ByteArray → Observation) (b : ByteArray) :
    Observation × ByteArray :=
  match act b with
  | .ok a b' => (see a b', b')
  | .error e b' => (.failure e, b')

/-- Execute one operation; the vectors of `getReadBuffers` are seen
through the memory they refer to. -/
def Op.exec (b : ByteArray) : Op → Observation × ByteArray
  | .write buf => observe (ByteArray.write buf) (fun _ _ => .done) b
  | .read n => observe (ByteArray.read n) (fun bytes _ => .bytes bytes) b
  | .setPosition v => observe (ByteArray.setPosition v) (fun _ _ => .done) b
  | .clear => observe ByteArray.clear (fun _ _ => .done) b
  | .getReadBuffers len =>
    observe (ByteArray.getReadBuffers len)
      (fun r b' =>
        match gatherAll b'.nodes r.2 with
        | some bytes => .buffers r.1 bytes
        | none => .failure .outOfBounds) b

/-- Reads of at least one byte, and writes of less than `2^53` bytes after which all sizes are still
words. -/
def Op.Sized (b : ByteArray) : Op → Prop
  | .write buf =>
    buf.length < 2 ^ 53 ∧ b.position + buf.length + b.baseSize ≤ word64
  | .read n => 1 ≤ n
  | _ => True

instance (b : ByteArray) (op : Op) : Decidable (op.Sized b) :=
  match op with
  | .write _ => inferInstanceAs (Decidable (_ ∧ _))
  | .read _ => inferInstanceAs (Decidable (_ ≤ _))
  | .setPosition _ | .clear | .getReadBuffers _ => inferInstanceAs (Decidable True)

lemma Op.exec_spec (h : b.WellFormed) (op : Op) (hop : op.Sized b) :
    (op.exec b).2.baseSize = b.baseSize ∧
      ∃ h' : (op.exec b).2.WellFormed,
        (b.flat h).Step b.baseSize op (op.exec b).1 ((op.exec b).2.flat h') := by
  cases op with
  | write buf =>
    obtain ⟨b', ext, hrun, hwf, hext, hcont, hpos, hsize, hbase, -⟩ := write_spec h hop.1 hop.2
    have hexec : Op.exec b (.write buf) = (.done, b') := by simp [Op.exec, observe, hrun]
    rw [hexec]
    refine ⟨hbase, hwf, rfl, ⟨ext, ?_, hcont⟩, hpos, hsize⟩
    simpa [flat, h.length_contents] using hext
  | read n =>
    obtain ⟨hfew, henough⟩ := read_spec h hop
    by_cases hlt : b.size - b.position < n
    · have hexec : Op.exec b (.read n) = (.failure (.outOfRange "not enough len"), b) := by
        simp [Op.exec, observe, hfew hlt]
      rw [hexec]
      exact ⟨rfl, h, by simp [Flat.Step, hlt]⟩
    obtain ⟨b', hrun, hwf, hnodes, hpos, hsize, hbase, -⟩ := henough (by omega)
    have hexec : Op.exec b (.read n) =
        (.bytes (((contents b.nodes).drop b.position).take n), b') := by
      simp [Op.exec, observe, hrun]
    rw [hexec]
    exact ⟨hbase, hwf, by simp [Flat.Step, hlt, hnodes, hpos, hsize]⟩
  | setPosition v =>
    obtain ⟨hbeyond, hin⟩ := setPosition_spec h v
    by_cases hlt : b.capacity < v
    · have hexec : Op.exec b (.setPosition v) =
          (.failure (.outOfRange "set_position out of range"), b) := by
        simp [Op.exec, observe, hbeyond hlt]
      rw [hexec]
      exact ⟨rfl, h, by simp [Flat.Step, h.length_contents, hlt]⟩
    obtain ⟨b', hrun, hwf, hnodes, hpos, hsize, hbase, -⟩ := hin (by omega)
    have hexec : Op.exec b (.setPosition v) = (.done, b') := by
      simp [Op.exec, observe, hrun]
    rw [hexec]
    exact ⟨hbase, hwf, by simp [Flat.Step, h.length_contents, hlt, hnodes, hpos, hsize]⟩
  | clear =>
    obtain ⟨b', hrun, hwf, hcont, hpos, hsize, hbase, -⟩ := clear_spec h
    have hexec : Op.exec b .clear = (.done, b') := by simp [Op.exec, observe, hrun]
    rw [hexec]
    exact ⟨hbase, hwf, rfl, hcont, hpos, hsize⟩
  | getReadBuffers len =>
    obtain ⟨iovs, hrun, hgather⟩ := getReadBuffers_spec h len
    have hexec : Op.exec b (.getReadBuffers len) = (.buffers (min len (b.size - b.position))
          (((contents b.nodes).drop b.position).take (min len (b.size - b.position))), b) := by
      simp [Op.exec, observe, hrun, hgather]
    rw [hexec]
    exact ⟨rfl, h, rfl, rfl⟩

lemma wellFormed_new {baseSize : Nat} (fresh : Nat → Byte) (hpos : 0 < baseSize)
    (hlt : baseSize < word64) : (new baseSize fresh).WellFormed where
  base_pos := hpos
  base_lt := hlt
  nodes_ne_nil := by simp [new]
  uniform := by
    intro node hnode
    obtain rfl := mem_singleton.mp hnode
    rfl
  capacity_eq := (Nat.one_mul baseSize).symm
  capacity_lt := hlt
  position_le := le_refl 0
  size_le := Nat.zero_le _
  cur_eq := by simp [new, hpos.ne]

lemma WellFormed.setIsLittleEndian (h : b.WellFormed) (val : Bool) :
    (b.setIsLittleEndian val).WellFormed := by
  obtain ⟨h1, h2, h3, h4, h5, h6, h7, h8, h9⟩ := h
  exact ⟨h1, h2, h3, h4, h5, h6, h7, h8, h9⟩

def byteArraySystem (baseSize : Nat) : TransitionSystem ByteArray Op where
  init b := ∃ fresh, b = new baseSize fresh
  step b op := some (op.exec b).2

/-- In every state reached from a fresh byte array the fields fit the chain, and every operation is
a step of the flat buffer, which has no memory errors. -/
theorem byteArray_refines_flat {baseSize : Nat} (hpos : 1 ≤ baseSize) (hlt : baseSize < word64)
    {b : ByteArray} (h : (byteArraySystem baseSize).ReachableWith (fun b op => op.Sized b) b) :
    b.position ≤ b.size ∧ b.size ≤ b.capacity ∧ b.capacity = b.nodes.length * baseSize ∧
      (b.cur = none ↔ b.position = b.capacity) ∧
      (b.position ≠ b.capacity → b.cur = some (b.position / baseSize)) ∧
      ∃ hwf : b.WellFormed, (b.flat hwf).bytes.length = b.capacity ∧
        ∀ op : Op, op.Sized b → ∃ hwf' : (op.exec b).2.WellFormed,
          (b.flat hwf).Step baseSize op (op.exec b).1 ((op.exec b).2.flat hwf') := by
  have hinv : b.WellFormed ∧ b.baseSize = baseSize := by
    refine TransitionSystem.ReachableWith.invariant
      (I := fun b => b.WellFormed ∧ b.baseSize = baseSize) ?_ ?_ h
    · rintro b ⟨fresh, rfl⟩
      exact ⟨wellFormed_new fresh hpos hlt, rfl⟩
    rintro b op b' ⟨hwf, hbase⟩ hop hstep
    obtain ⟨hbase', hwf', -⟩ := Op.exec_spec hwf op hop
    obtain rfl : (op.exec b).2 = b' := by simpa [byteArraySystem] using hstep
    exact ⟨hwf', hbase'.trans hbase⟩
  obtain ⟨hwf, rfl⟩ := hinv
  have hcur := hwf.cur_eq
  refine ⟨hwf.position_le, hwf.size_le, hwf.capacity_eq, ?_, ?_, hwf, hwf.length_contents, ?_⟩
  · rw [hcur]
    split <;> simp_all
  · intro hne
    rw [hcur, if_neg hne]
  · intro op hop
    exact (Op.exec_spec hwf op hop).2

theorem byteArray_refines_flat_after_write :
    ∃ b : ByteArray, b.position = 3 ∧
      ∃ hwf : b.WellFormed, ∃ hwf' : (Op.exec b (.setPosition 1)).2.WellFormed,
        (b.flat hwf).Step 2 (.setPosition 1) (Op.exec b (.setPosition 1)).1
          ((Op.exec b (.setPosition 1)).2.flat hwf') := by
  let start := new 2 fun _ => 0
  have hstart : start.WellFormed := wellFormed_new _ (by decide) (by decide)
  have hsized : Op.Sized start (.write [1, 2, 3]) := by
    show 3 < 2 ^ 53 ∧ 0 + 3 + 2 ≤ 2 ^ 64
    norm_num
  have hreach : (byteArraySystem 2).ReachableWith (fun b op => op.Sized b)
      (Op.exec start (.write [1, 2, 3])).2 :=
    .step (.init ⟨_, rfl⟩) hsized rfl
  obtain ⟨-, _, -, -, hpos, -⟩ := Op.exec_spec hstart (.write [1, 2, 3]) hsized
  rw [flat_position, flat_position, show start.position + [(1 : Byte), 2, 3].length = 3 from rfl]
    at hpos
  obtain ⟨-, -, -, -, -, hwf, -, hstep⟩ := byteArray_refines_flat (by decide) (by decide) hreach
  exact ⟨_, hpos, hwf, hstep (.setPosition 1) trivial⟩

end Yuyu.ByteArray
