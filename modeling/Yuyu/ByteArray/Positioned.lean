import Yuyu.ByteArray.Calls

/-!
# Reads at a position

`read` starts its loop at the node of the cursor and compares with a difference that wraps;
`getReadBuffers` starts at the first node, but cuts the length to what is unread from the cursor on.
-/

namespace Yuyu.ByteArray

open Foundation List

def range (b : ByteArray) (position n : Nat) : List Byte :=
  ((contents b.nodes).drop position).take n

/-- Where the loop of `read(buf, size, position)` starts: at the offset of the position
in the node of the cursor. -/
def cursorStart (b : ByteArray) (position : Nat) : Nat :=
  b.curIndex * b.baseSize + position % b.baseSize

namespace WellFormed

variable {b : ByteArray}

lemma length_range (h : b.WellFormed) {position n : Nat} (hle : position + n ≤ b.capacity) :
    (b.range position n).length = n := by
  rw [range, length_take, length_drop, h.length_contents]
  omega

lemma fromCur_length (h : b.WellFormed) :
    b.fromCur.length * b.baseSize = b.capacity - b.curIndex * b.baseSize := by
  rw [fromCur, length_drop, Nat.sub_mul, ← h.capacity_eq]

lemma fromCur_eq_nil (h : b.WellFormed) : b.fromCur = [] ↔ b.position = b.capacity := by
  rw [fromCur, drop_eq_nil_iff, h.curIndex_eq, Nat.le_div_iff_mul_le h.base_pos, ← h.capacity_eq]
  have hle := h.position_le_capacity
  omega

lemma cur_eq_none (h : b.WellFormed) : b.cur = none ↔ b.position = b.capacity := by
  rw [h.cur_eq]
  split <;> simp_all

lemma cursorStart_of_same_node (h : b.WellFormed) {position : Nat}
    (hsame : position / b.baseSize = b.position / b.baseSize) :
    b.cursorStart position = position := by
  rw [cursorStart, h.curIndex_eq, ← hsame, Nat.mul_comm]
  exact Nat.div_add_mod position b.baseSize

lemma not_off_end (h : b.WellFormed) {n : Nat}
    (hcur : b.position < b.capacity) (hn : n ≤ b.capacity) :
    ¬ (b.cur = none ∨ b.capacity < n) := by
  rw [not_or, h.cur_eq_none]
  omega

lemma cursorStart_lt (h : b.WellFormed) (hcur : b.position < b.capacity)
    (position : Nat) : b.cursorStart position < b.capacity := by
  have hmod : position % b.baseSize < b.baseSize := Nat.mod_lt _ h.base_pos
  have hlength := h.fromCur_length
  have hne : b.fromCur ≠ [] := by
    rw [Ne, h.fromCur_eq_nil]
    omega
  have hnode : b.baseSize ≤ b.fromCur.length * b.baseSize :=
    Nat.le_mul_of_pos_left _ (length_pos_iff.mpr hne)
  unfold cursorStart
  omega

lemma cursorStart_div (h : b.WellFormed) (position : Nat) :
    b.cursorStart position / b.baseSize = b.position / b.baseSize := by
  rw [cursorStart, h.curIndex_eq, Nat.add_comm, Nat.add_mul_div_right _ _ h.base_pos,
    Nat.div_eq_of_lt (Nat.mod_lt _ h.base_pos), Nat.zero_add]

end WellFormed

variable {b : ByteArray}

lemma readAt_eq (h : b.WellFormed) (size position : Nat) :
    readAt size position b =
      if size > sub64 b.size position then .error (.outOfRange "not enough len") b
      else if b.cur = none ∨ b.capacity < b.cursorStart position + size then
        .error .nullDereference b
      else .ok (b.range (b.cursorStart position) size) b := by
  have hnpos : position % b.baseSize < b.baseSize := Nat.mod_lt _ h.base_pos
  have hlength := h.fromCur_length
  unfold readAt
  split
  · rfl
  cases hcur : b.fromCur with
  | nil =>
    rw [if_pos (Or.inl (h.cur_eq_none.mpr (h.fromCur_eq_nil.mp hcur)))]
  | cons node rest =>
    have hsome : b.cur ≠ none := by
      rw [Ne, h.cur_eq_none, ← h.fromCur_eq_nil, hcur]
      exact cons_ne_nil _ _
    by_cases hshort : b.capacity < b.cursorStart position + size
    · have hsize : 0 < size := by
        by_contra hzero
        have hnode : b.baseSize ≤ b.fromCur.length * b.baseSize :=
          Nat.le_mul_of_pos_left _ (by simp [hcur])
        unfold cursorStart at hshort
        omega
      have hloop := readLoop_off_end h.base_pos h.base_lt b.fromCur _ size (h.uniform.drop _)
        hnpos hsize (by unfold cursorStart at hshort; omega)
      rw [hcur] at hloop
      simp only [hloop, if_pos (Or.inr hshort : b.cur = none ∨ _)]
    have hloop := readLoop_spec h.base_pos h.base_lt b.fromCur _ size (h.uniform.drop _)
      hnpos (by unfold cursorStart at hshort; omega)
    have hinside : ¬ (b.cur = none ∨ b.capacity < b.cursorStart position + size) := by
      rw [not_or]
      exact ⟨hsome, hshort⟩
    rw [h.drop_fromCur, hcur] at hloop
    simp only [hloop, if_neg hinside]
    rfl

lemma toString_spec (h : b.WellFormed) : toString b = .ok b.unread b := by
  have hread := h.getReadSize_eq
  have hle := h.size_le
  have hple := h.position_le
  by_cases hempty : b.size - b.position = 0
  · rw [toString, if_pos (hread.trans hempty), unread, hempty, take_zero]
  have hstart := h.cursorStart_of_same_node
    (show b.position / b.baseSize = b.position / b.baseSize from rfl)
  rw [toString, hread, if_neg hempty, readAt_eq h, hstart,
    sub64_eq (lt_of_le_of_lt hle h.capacity_lt) hple, if_neg (lt_irrefl _),
    if_neg (h.not_off_end (by omega) (by omega))]
  rfl

lemma getReadBuffersAt_spec (h : b.WellFormed) (len position : Nat) :
    (min len (b.size - b.position) = 0 → getReadBuffersAt len position b = .ok (0, []) b) ∧
      (0 < min len (b.size - b.position) →
        b.capacity < position + min len (b.size - b.position) →
          getReadBuffersAt len position b = .error .nullDereference b) ∧
      (0 < min len (b.size - b.position) →
        position + min len (b.size - b.position) ≤ b.capacity →
          ∃ iovs, getReadBuffersAt len position b =
              .ok (min len (b.size - b.position), iovs) b ∧
            gatherAll b.nodes iovs = some (b.range position (min len (b.size - b.position)))) := by
  have hmin : (if len > b.getReadSize then b.getReadSize else len) =
      min len (b.size - b.position) := by
    rw [h.getReadSize_eq]
    split <;> omega
  have hnpos : position % b.baseSize < b.baseSize := Nat.mod_lt _ h.base_pos
  have hsplit : position / b.baseSize * b.baseSize + position % b.baseSize = position :=
    Nat.div_add_mod' position b.baseSize
  have hlength : (b.nodes.drop (position / b.baseSize)).length * b.baseSize =
      b.capacity - position / b.baseSize * b.baseSize := by
    rw [length_drop, Nat.sub_mul, ← h.capacity_eq]
  generalize hn : min len (b.size - b.position) = n at *
  refine ⟨fun hzero => ?_, fun hpos hshort => ?_, fun hpos hroom => ?_⟩
  · simp only [getReadBuffersAt, hmin, hzero, if_true]
  · simp only [getReadBuffersAt, hmin, hpos.ne', if_false]
    rw [readBuffersLoop_off_end h.base_pos h.base_lt _ _ _ n (h.uniform.drop _) hnpos hpos
      (by omega)]
  have htake : (b.nodes.take (position / b.baseSize)).length = position / b.baseSize := by
    rw [length_take, ← h.capacity_div]
    exact Nat.min_eq_left (Nat.div_le_div_right (by omega))
  obtain ⟨iovs, hloop, hgather⟩ := readBuffersLoop_spec h.base_pos h.base_lt
    (b.nodes.take (position / b.baseSize)) (b.nodes.drop (position / b.baseSize))
    (position % b.baseSize) n (h.uniform.drop _) hnpos (by omega)
  rw [htake] at hloop
  rw [take_append_drop] at hgather
  have hbytes : (contents (b.nodes.drop (position / b.baseSize))).drop (position % b.baseSize) =
      (contents b.nodes).drop position := by
    rw [h.uniform.drop_contents (htake ▸ length_take_le' ..), hsplit]
  refine ⟨iovs, ?_, by rw [hgather, hbytes, range]⟩
  simp only [getReadBuffersAt, hmin, hpos.ne', if_false, hloop]

/-! ## When the bytes at the position are returned -/

/-- `read(buf, size, position)` throws exactly when the range is not inside the size, and else
returns the bytes there. -/
def ReadsAt (b : ByteArray) (size position : Nat) : Prop :=
  if b.size < position ∨ b.size - position < size then
    readAt size position b = .error (.outOfRange "not enough len") b
  else readAt size position b = .ok (b.range position size) b

/-- `getReadBuffers(buffers, len, position)` covers the bytes at the position, up to
the size. -/
def BuffersAt (b : ByteArray) (len position : Nat) : Prop :=
  ∃ n iovs, getReadBuffersAt len position b = .ok (n, iovs) b ∧
    gatherAll b.nodes iovs = some (b.range position (min len (b.size - position)))

/-- The arrays have the same sizes, so that they differ in their bytes only. -/
structure SameLayout (b b' : ByteArray) : Prop where
  position : b'.position = b.position
  size : b'.size = b.size
  capacity : b'.capacity = b.capacity

/-- Whether `read(buf, size, position)` can be relied on: it throws as it should, or `m_cur` is not
null and, unless nothing is read, the position lies in its node. -/
def Reliable (b : ByteArray) (size position : Nat) : Prop :=
  if b.size < position then word64 - (position - b.size) < size
  else b.size - position < size ∨ b.position < b.capacity ∧
    (size = 0 ∨ position / b.baseSize = b.position / b.baseSize)

lemma WellFormed.readsAt_of_reliable (h : b.WellFormed) {size position : Nat}
    (hposition : position < word64) (hreliable : b.Reliable size position) :
    b.ReadsAt size position := by
  have hlt := lt_of_le_of_lt h.size_le h.capacity_lt
  have hle := h.size_le
  unfold ReadsAt
  unfold Reliable at hreliable
  by_cases hbeyond : b.size < position
  · rw [if_pos hbeyond] at hreliable
    rw [if_pos (Or.inl hbeyond), readAt_eq h, sub64_borrow hbeyond hposition, if_pos hreliable]
  rw [if_neg hbeyond] at hreliable
  rw [readAt_eq h, sub64_eq hlt (Nat.not_lt.mp hbeyond)]
  by_cases hfew : b.size - position < size
  · rw [if_pos (Or.inr hfew), if_pos hfew]
  rw [if_neg (by rw [not_or]; exact ⟨hbeyond, hfew⟩), if_neg hfew]
  obtain ⟨hcur, hnode⟩ := hreliable.resolve_left hfew
  have hstart := h.cursorStart_lt hcur position
  rcases hnode with rfl | hsame
  · rw [if_neg (h.not_off_end hcur (by omega)), range, range, take_zero, take_zero]
  · rw [h.cursorStart_of_same_node hsame, if_neg (h.not_off_end hcur (by omega))]

/-- The bytes at the position are read only from the right place. -/
lemma WellFormed.getElem?_of_readsAt (h : b.WellFormed) {size position : Nat}
    (hin : position ≤ b.size) (hsize : size ≤ b.size - position)
    (hreads : b.ReadsAt size position) :
    b.position < b.capacity ∧ (0 < size → b.cursorStart position < b.capacity ∧
      (contents b.nodes)[b.cursorStart position]? = (contents b.nodes)[position]?) := by
  have hlt := lt_of_le_of_lt h.size_le h.capacity_lt
  have hle := h.position_le_capacity
  rw [ReadsAt, if_neg (by omega), readAt_eq h, sub64_eq hlt hin, if_neg (by omega)] at hreads
  split at hreads
  · simp at hreads
  next hinside =>
  rw [not_or, Nat.not_lt, h.cur_eq_none] at hinside
  simp only [EStateM.Result.ok.injEq, and_true] at hreads
  refine ⟨by omega, fun hpos => ⟨by omega, ?_⟩⟩
  have hhead := congrArg List.head? hreads
  simpa [range, head?_take, hpos.ne', head?_drop] using hhead

lemma exists_ne_byte (v : Option Byte) : ∃ w : Byte, v ≠ some w := by
  by_cases hzero : v = some 0
  · exact ⟨1, by rw [hzero]; decide⟩
  · exact ⟨0, hzero⟩

section Overwrite

variable {p : Platform} {baseSize : Nat} (hpos : 1 ≤ baseSize)
  (hlt : baseSize < addressSpace) (h : (callSystem p baseSize).ReachableWith Call.Fits b)

include hpos hlt h

/-- A program can put the cursor anywhere. -/
lemma exists_positioned {i : Nat} (hi : i ≤ b.capacity) :
    ∃ b', (callSystem p baseSize).ReachableWith Call.Fits b' ∧ b'.nodes = b.nodes ∧
      b'.position = i ∧ b'.size = max b.size i := by
  obtain ⟨b', hrun, -, hnodes, hposition, hsize, -, -⟩ :=
    (setPosition_spec (inMemory_of_reachable hpos hlt h).wf i).2 hi
  exact ⟨b', h.step (a := .setPosition i) (by rintro n ⟨⟩) (congrArg after hrun), hnodes,
    hposition, hsize⟩

/-- A program can overwrite one byte and put the cursor back. -/
lemma exists_overwritten {i : Nat} (hin : i < b.size) (hroom : i + 1 + baseSize ≤ addressSpace)
    (v : Byte) :
    ∃ b', (callSystem p baseSize).ReachableWith Call.Fits b' ∧ b.SameLayout b' ∧
      contents b'.nodes = (contents b.nodes).set i v := by
  have hmem := inMemory_of_reachable hpos hlt h
  have hle := hmem.wf.size_le
  have hcursor := hmem.wf.position_le
  have hlength := hmem.wf.length_contents
  obtain ⟨b₁, hreach₁, hnodes₁, hpos₁, hsize₁⟩ :=
    exists_positioned hpos hlt h (show i ≤ b.capacity by omega)
  have hmem₁ := inMemory_of_reachable hpos hlt hreach₁
  have hfits : b₁.position + [v].length + b₁.baseSize ≤ addressSpace := by
    rw [hpos₁, hmem₁.base_eq, length_singleton]
    exact hroom
  obtain ⟨b₂, ext, hrun₂, hwf₂, hext, hcont, -, hsize₂, -, -⟩ :=
    write_spec hmem₁.wf (show [v].length < 2 ^ 53 by simp) (hfits.trans (by decide))
  have hreach₂ : (callSystem p baseSize).ReachableWith Call.Fits b₂ := by
    refine hreach₁.step (a := .write [v]) ?_ (congrArg after hrun₂)
    rintro n ⟨⟩
    exact ⟨by simp, hfits⟩
  have hnone : ext = [] := by
    rw [← length_eq_zero_iff, hext, growth, if_pos]
    rw [hpos₁, ← hmem₁.wf.length_contents, hnodes₁, length_singleton]
    omega
  rw [hnone, append_nil, hnodes₁, hpos₁] at hcont
  have hset : contents b₂.nodes = (contents b.nodes).set i v := by
    rw [hcont, set_eq_take_append_cons_drop, if_pos (by omega)]
    simp [splice]
  have hcap₂ : b₂.capacity = b.capacity := by
    rw [← hwf₂.length_contents, hset, length_set, hlength]
  obtain ⟨b₃, hreach₃, hnodes₃, hpos₃, hsize₃⟩ :=
    exists_positioned hpos hlt hreach₂ (show b.position ≤ b₂.capacity by omega)
  have hcap₃ : b₃.capacity = b.capacity := by
    rw [← (inMemory_of_reachable hpos hlt hreach₃).wf.length_contents, hnodes₃,
      hwf₂.length_contents, hcap₂]
  rw [length_singleton, hpos₁, hsize₁] at hsize₂
  exact ⟨b₃, hreach₃, ⟨hpos₃, by omega, hcap₃⟩, by rw [hnodes₃, hset]⟩

/-- Two places in different nodes, of which a program can make the bytes differ. -/
lemma exists_ne_of_div_lt {i j : Nat} (hin : i < b.size) (hj : j < b.capacity)
    (hnode : i / baseSize < j / baseSize) :
    ∃ b', (callSystem p baseSize).ReachableWith Call.Fits b' ∧ b.SameLayout b' ∧
      (contents b'.nodes)[i]? ≠ (contents b'.nodes)[j]? := by
  have hmem := inMemory_of_reachable hpos hlt h
  have hcap := hmem.capacity_lt
  have hle := hmem.wf.size_le
  have hroom : i + 1 + baseSize ≤ addressSpace := by
    have hlast : j / baseSize < b.nodes.length := by
      rw [Nat.div_lt_iff_lt_mul hpos, ← hmem.base_eq, ← hmem.wf.capacity_eq]
      exact hj
    have hbehind : (i / baseSize + 1 + 1) * baseSize ≤ b.capacity := by
      rw [hmem.wf.capacity_eq, hmem.base_eq]
      exact Nat.mul_le_mul_right _ (by omega)
    have hi : i < (i / baseSize + 1) * baseSize := by
      rw [← Nat.div_lt_iff_lt_mul hpos]
      exact Nat.lt_succ_self _
    rw [Nat.add_mul _ 1, Nat.one_mul] at hbehind
    omega
  obtain ⟨w, hw⟩ := exists_ne_byte (contents b.nodes)[j]?
  obtain ⟨b', hreach, hlayout, hcont⟩ := exists_overwritten hpos hlt h hin hroom w
  have hij : i ≠ j := by
    rintro rfl
    omega
  refine ⟨b', hreach, hlayout, ?_⟩
  rw [hcont, getElem?_set_self (by rw [hmem.wf.length_contents]; omega), getElem?_set_ne hij]
  exact hw.symm

lemma exists_ne_of_div_ne {i j : Nat} (hin : i < b.size) (hj : j < b.capacity)
    (hnode : i / baseSize ≠ j / baseSize) :
    ∃ b', (callSystem p baseSize).ReachableWith Call.Fits b' ∧ b.SameLayout b' ∧
      (contents b'.nodes)[i]? ≠ (contents b'.nodes)[j]? := by
  have hle := (inMemory_of_reachable hpos hlt h).wf.size_le
  rcases Nat.lt_or_gt_of_ne hnode with hbefore | hbehind
  · exact exists_ne_of_div_lt hpos hlt h hin hj hbefore
  · have horder := Nat.lt_of_div_lt_div hbehind
    obtain ⟨b', h', hlayout, hne⟩ :=
      exists_ne_of_div_lt hpos hlt h (by omega) (by omega) hbehind
    exact ⟨b', h', hlayout, hne.symm⟩

end Overwrite

lemma WellFormed.buffersAt_iff (h : b.WellFormed) (len position : Nat) :
    b.BuffersAt len position ↔ min len (b.size - b.position) = min len (b.size - position) := by
  obtain ⟨hnone, hoff, hcovers⟩ := getReadBuffersAt_spec h len position
  have hle := h.size_le
  have hwanted : (b.range position (min len (b.size - position))).length =
      min len (b.size - position) := by
    by_cases hin : position ≤ b.size
    · exact h.length_range (by omega)
    · rw [range, show b.size - position = 0 by omega, Nat.min_zero, take_zero]
      rfl
  constructor
  · rintro ⟨n, iovs, hrun, hgather⟩
    rcases Nat.eq_zero_or_pos (min len (b.size - b.position)) with hzero | hpos
    · rw [hnone hzero] at hrun
      obtain ⟨⟨rfl, rfl⟩, -⟩ : (0 = n ∧ [] = iovs) ∧ b = b := by simpa using hrun
      have hnil := congrArg List.length (Option.some.inj hgather)
      rw [hwanted] at hnil
      rw [hzero, ← hnil]
      rfl
    rcases Nat.lt_or_ge b.capacity (position + min len (b.size - b.position)) with hshort | hroom
    · rw [hoff hpos hshort] at hrun
      simp at hrun
    obtain ⟨iovs', hrun', hgather'⟩ := hcovers hpos hroom
    rw [hrun'] at hrun
    obtain ⟨⟨-, rfl⟩, -⟩ : (_ = n ∧ iovs' = iovs) ∧ b = b := by simpa using hrun
    rw [hgather'] at hgather
    rw [← h.length_range hroom, Option.some.inj hgather, hwanted]
  intro hsame
  rcases Nat.eq_zero_or_pos (min len (b.size - b.position)) with hzero | hpos
  · refine ⟨0, [], hnone hzero, ?_⟩
    rw [← hsame, hzero, range, take_zero]
    rfl
  · obtain ⟨iovs, hrun, hgather⟩ := hcovers hpos (by omega)
    exact ⟨_, iovs, hrun, hsame ▸ hgather⟩

lemma WellFormed.cursorStart_eq {b' : ByteArray} (h : b.WellFormed) (h' : b'.WellFormed)
    (hbase : b'.baseSize = b.baseSize) (hlayout : b.SameLayout b') (position : Nat) :
    b'.cursorStart position = b.cursorStart position := by
  rw [cursorStart, cursorStart, h.curIndex_eq, h'.curIndex_eq, hlayout.position, hbase]

/-- In every state that calls reach: `read` is right for all arrays of the same layout exactly if it
is reliable, and when `getReadBuffers` is right. -/
theorem positioned_reads_iff {p : Platform} {baseSize : Nat} (hpos : 1 ≤ baseSize)
    (hlt : baseSize < addressSpace) {b : ByteArray}
    (h : (callSystem p baseSize).ReachableWith Call.Fits b) (size len : Nat) {position : Nat}
    (hposition : position < word64) :
    ((∀ b', (callSystem p baseSize).ReachableWith Call.Fits b' → b.SameLayout b' →
        b'.ReadsAt size position) ↔ b.Reliable size position) ∧
    (b.BuffersAt len position ↔
      min len (b.size - b.position) = min len (b.size - position)) := by
  have hmem := inMemory_of_reachable hpos hlt h
  have hbase := hmem.base_eq
  refine ⟨⟨fun hall => ?_, fun hreliable b' h' hlayout => ?_⟩, hmem.wf.buffersAt_iff len position⟩
  · have hreads := hall b h ⟨rfl, rfl, rfl⟩
    rw [Reliable]
    split
    · next hbeyond =>
      by_contra hfew
      rw [ReadsAt, if_pos (Or.inl hbeyond), readAt_eq hmem.wf, sub64_borrow hbeyond hposition,
        if_neg hfew] at hreads
      split at hreads <;> simp at hreads
    next hin =>
    by_contra hnot
    rw [not_or, not_and, not_or] at hnot
    obtain ⟨hcur, hstart⟩ := hmem.wf.getElem?_of_readsAt (by omega) (by omega) hreads
    obtain ⟨hsize, hnode⟩ := hnot.2 hcur
    have hstartLt := (hstart (by omega)).1
    -- a program can make the bytes at the two places differ
    rw [← hmem.wf.cursorStart_div position, hbase] at hnode
    obtain ⟨b', h', hlayout, hne⟩ := exists_ne_of_div_ne hpos hlt h (by omega) hstartLt hnode
    have hmem' := inMemory_of_reachable hpos hlt h'
    have hsame := (hmem'.wf.getElem?_of_readsAt (by rw [hlayout.size]; omega)
      (by rw [hlayout.size]; omega) (hall b' h' hlayout)).2 (by omega)
    rw [hmem.wf.cursorStart_eq hmem'.wf (hmem'.base_eq.trans hbase.symm) hlayout] at hsame
    exact hne hsame.2.symm
  · have hmem' := inMemory_of_reachable hpos hlt h'
    refine hmem'.wf.readsAt_of_reliable hposition ?_
    rw [Reliable, hlayout.size, hlayout.position, hlayout.capacity, hmem'.base_eq]
    rw [Reliable, hbase] at hreliable
    exact hreliable

lemma range_of_written {position n : Nat} (h : position + n ≤ b.position) :
    b.range position n = (b.written.drop position).take n := by
  rw [written, drop_take, take_take, Nat.min_eq_left (by omega), range]

lemma exists_three_bytes :
    ∃ b : ByteArray, (callSystem ⟨.little, .little⟩ 2).ReachableWith Call.Fits b ∧ b.WellFormed ∧
      b.baseSize = 2 ∧ b.position = 3 ∧ b.size = 3 ∧ b.capacity = 4 ∧ b.written = [1, 2, 3] := by
  obtain ⟨b, hreach, hmem, hpos, hsize, hwritten, hcap⟩ :=
    exists_written ⟨.little, .little⟩ 2 [1, 2, 3] (by decide) (by decide) (by decide) (by decide)
  exact ⟨b, hreach, hmem.wf, hmem.base_eq, hpos, hsize, hcap, hwritten⟩

theorem positioned_reads_iff_last :
    ∃ b : ByteArray, (callSystem ⟨.little, .little⟩ 2).ReachableWith Call.Fits b ∧
      b.ReadsAt 1 2 ∧ readAt 1 2 b = .ok [3] b := by
  obtain ⟨b, hreach, hwf, hbase, hpos, hsize, hcap, hwritten⟩ := exists_three_bytes
  have hreliable : b.Reliable 1 2 := by
    rw [Reliable, if_neg (by omega), hbase, hpos, hcap]
    exact .inr (by decide)
  have hreads : b.ReadsAt 1 2 :=
    (positioned_reads_iff (by decide) (by decide) hreach 1 0 (by decide)).1.mpr hreliable b hreach
      ⟨rfl, rfl, rfl⟩
  refine ⟨b, hreach, hreads, ?_⟩
  rw [ReadsAt, if_neg (by omega)] at hreads
  rw [hreads, range_of_written (by omega), hwritten]
  rfl

/-- With the cursor in the second node, position 0 has the third byte, the read beyond the size does
not throw, and the vectors cover nothing. -/
theorem positioned_reads_wrong :
    ∃ b : ByteArray, (callSystem ⟨.little, .little⟩ 2).ReachableWith Call.Fits b ∧
      b.range 0 3 = [1, 2, 3] ∧ b.size = 3 ∧
      readAt 1 0 b = .ok [3] b ∧ readAt 1 4 b = .ok [3] b ∧
      getReadBuffersAt 3 0 b = .ok (0, []) b := by
  obtain ⟨b, hreach, hwf, hbase, hpos, hsize, hcap, hwritten⟩ := exists_three_bytes
  have hstart : ∀ position, position % 2 = 0 → b.cursorStart position = 2 := by
    intro position heven
    rw [cursorStart, hwf.curIndex_eq, hbase, hpos, heven]
  have hlast : b.range 2 1 = [3] := by
    rw [range_of_written (by omega), hwritten]
    rfl
  have hread : ∀ position, position % 2 = 0 → ¬ 1 > sub64 3 position →
      readAt 1 position b = .ok [3] b := by
    intro position heven henough
    rw [readAt_eq hwf, hsize, if_neg henough, hstart position heven, hlast,
      if_neg (hwf.not_off_end (by omega) (by omega))]
  refine ⟨b, hreach, ?_, hsize, hread 0 rfl (by decide), hread 4 rfl (by decide), ?_⟩
  · rw [range_of_written (by omega), hwritten]
    rfl
  · exact (getReadBuffersAt_spec hwf 3 0).1 (by rw [hpos, hsize]; rfl)

end Yuyu.ByteArray
