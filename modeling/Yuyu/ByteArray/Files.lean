import Yuyu.ByteArray.Positioned

/-!
# Saving and loading

`writeToFile` takes what is left, or a whole node, and subtracts the offset in the node, also when
what is left would end inside the node. `readFromFile` appends a file in pieces of the base size.
-/

namespace Yuyu.ByteArray

open Foundation List

lemma readFromFileLoop_appends {e : Endian} (fuel : Nat) (data : List Byte)
    (hfuel : data.length < fuel) (hlen : data.length < 2 ^ 53) :
    Appends e (readFromFileLoop fuel data) data := by
  induction fuel generalizing data with
  | zero => omega
  | succ fuel ih =>
    intro b h he hend hword
    have hbase := h.base_pos
    rw [readFromFileLoop, bind_of_ok (show (get : Action ByteArray) b = .ok b b from rfl)]
    have htake : (data.take b.baseSize).length ≤ data.length := length_take_le' ..
    obtain ⟨b₁, hrun₁, h₁, he₁, hend₁, hbase₁, hw₁⟩ :=
      write_appends (show (data.take b.baseSize).length < 2 ^ 53 by omega) b h he hend (by omega)
    rw [bind_of_ok hrun₁]
    split
    · next hlast =>
      rw [take_of_length_le hlast.le] at hw₁
      exact ⟨b₁, rfl, h₁, he₁, hend₁, hbase₁, hw₁⟩
    next hmore =>
    have hpos₁ : b₁.position = b.position + (data.take b.baseSize).length := by
      rw [← h₁.length_written, hw₁, length_append, h.length_written]
    have hsplit : (data.take b.baseSize).length + (data.drop b.baseSize).length = data.length := by
      rw [← length_append, take_append_drop]
    have hdrop : (data.drop b.baseSize).length = data.length - b.baseSize := length_drop
    obtain ⟨b₂, hrun₂, h₂, he₂, hend₂, hbase₂, hw₂⟩ :=
      ih (data.drop b.baseSize) (by omega) (by omega) b₁ h₁ he₁ hend₁ (by omega)
    refine ⟨b₂, hrun₂, h₂, he₂, hend₂, hbase₂.trans hbase₁, ?_⟩
    rw [hw₂, hw₁, append_assoc, take_append_drop]

lemma readFromFile_appends {e : Endian} {data : List Byte} (hlen : data.length < 2 ^ 53) :
    Appends e (readFromFile data) data := readFromFileLoop_appends _ data (Nat.lt_succ_self _) hlen

lemma toString_readFromFile {baseSize : Nat} (fresh : Nat → Byte) {data : List Byte}
    (hpos : 1 ≤ baseSize) (hlen : data.length < 2 ^ 53)
    (hroom : data.length + baseSize ≤ addressSpace) :
    ∃ b₁ b₂, readFromFile data (new baseSize fresh) = .ok () b₁ ∧
      setPosition 0 b₁ = .ok () b₂ ∧ toString b₂ = .ok data b₂ := by
  have hword : data.length + baseSize ≤ word64 := hroom.trans (by decide)
  have hstart : (new baseSize fresh).WellFormed := by
    refine wellFormed_new fresh hpos ?_
    unfold addressSpace at hroom
    unfold word64
    omega
  obtain ⟨b₁, hrun₁, h₁, -, hend₁, -, hw₁⟩ :=
    readFromFile_appends hlen (new baseSize fresh) hstart rfl rfl (by
      show 0 + data.length + baseSize ≤ word64
      omega)
  obtain ⟨b₂, hrun₂, h₂, -, hun₂⟩ := setPosition_zero h₁ hend₁
  refine ⟨b₁, b₂, hrun₁, hrun₂, ?_⟩
  rw [toString_spec h₂, hun₂, hw₁]
  rfl

lemma roundLength_eq {baseSize : Nat} (hbase : baseSize < addressSpace) {r : Nat}
    (hr : r < addressSpace) {d : Nat} (hd : d < addressSpace) :
    toInt64 ((if (r : Int) > toInt64 baseSize then (baseSize : Int) else (r : Int)) - (d : Int)) =
      (min r baseSize : Nat) - (d : Int) := by
  unfold addressSpace at *
  rw [toInt64_of_lt (v := (baseSize : Int)) (by omega) (by omega)]
  have hmin : (if (r : Int) > (baseSize : Int) then (baseSize : Int) else (r : Int)) =
      ((min r baseSize : Nat) : Int) := by
    split <;> omega
  rw [hmin, toInt64_of_lt (by omega) (by omega)]

lemma offset_eq {baseSize pos : Nat} (hpos : pos < addressSpace) (hd : pos % baseSize < 2 ^ 31) :
    toInt32 (((pos : Int) % word64).toNat % baseSize) = ((pos % baseSize : Nat) : Int) := by
  have hword : ((pos : Int) % word64).toNat = pos := by
    unfold addressSpace at hpos
    unfold word64
    omega
  rw [hword, toInt32_of_lt hd]

section Save

variable {s : Nat} (hs : 0 < s) (hs63 : s < addressSpace)

lemma writeToFileLoop_zero (l : List Node) (pos : Int) : writeToFileLoop s l 0 pos = .ok [] := by
  cases l with
  | nil | cons => rfl

lemma print_ok (node : Node) {diff len : Nat} (h : diff + len ≤ node.size) :
    node.print diff len = .ok ((node.ptr.drop diff).take len) := by
  unfold Node.print
  rw [if_neg (by omega), if_neg (by omega), Int.toNat_natCast, Int.toNat_natCast]
  exact load_ok node diff len h

include hs63 in
lemma writeToFileLoop_cons {node : Node} {rest : List Node} {r pos len : Nat} (hr : 0 < r)
    (hr63 : r < addressSpace) (hpos : pos < addressSpace) (hd : pos % s < 2 ^ 31)
    (hsize : node.size = s) (hlen : pos % s + len = min r s) :
    writeToFileLoop s (node :: rest) r pos = do
      let more ← writeToFileLoop s rest ((r - len : Nat) : Int) ((pos + len : Nat) : Int)
      return (node.ptr.drop (pos % s)).take len ++ more := by
  have hround := roundLength_eq hs63 hr63 (d := pos % s) (by unfold addressSpace; omega)
  have hsub : ((min r s : Nat) : Int) - ((pos % s : Nat) : Int) = (len : Int) := by omega
  have hleft : (r : Int) - (len : Int) = ((r - len : Nat) : Int) := by omega
  have hprint : node.print ((pos % s : Nat) : Int) (len : Int) =
      .ok ((node.ptr.drop (pos % s)).take len) := print_ok node (by omega)
  simp only [writeToFileLoop, gt_iff_lt, Nat.cast_pos, hr, if_true, offset_eq hpos hd]
  rw [hround, hsub, hleft, hprint]
  rfl

include hs63 in
lemma writeToFileLoop_aligned (l : List Node) (r pos : Nat) (hl : Uniform s l)
    (hpos : pos + r < addressSpace) (haligned : pos % s = 0) (hroom : r ≤ l.length * s) :
    writeToFileLoop s l r pos = .ok ((contents l).take r) := by
  induction l generalizing r pos with
  | nil =>
    obtain rfl : r = 0 := by simpa using hroom
    exact writeToFileLoop_zero [] _
  | cons node rest ih =>
    rcases Nat.eq_zero_or_pos r with rfl | hr
    · rw [take_zero]
      exact writeToFileLoop_zero _ _
    have hptr : node.ptr.length = s := node.length_ptr.trans hl.head
    rw [writeToFileLoop_cons hs63 hr (by omega) (by omega) (by omega) hl.head
      (show pos % s + min r s = min r s by omega), haligned, drop_zero, contents_cons]
    rcases Nat.le_total r s with hle | hge
    · rw [Nat.min_eq_left hle, Nat.sub_self]
      simp only [Nat.cast_zero, writeToFileLoop_zero]
      rw [take_append_of_le_length (by omega)]
      simp [bind, Except.bind, pure, Except.pure]
    have hnext : (pos + s) % s = 0 := by rw [Nat.add_mod_right, haligned]
    rw [length_cons, Nat.succ_mul] at hroom
    have htake : (node.ptr ++ contents rest).take r =
        node.ptr.take s ++ (contents rest).take (r - s) := by
      rw [take_append, hptr, take_of_length_le (by omega), take_of_length_le hptr.le]
    rw [Nat.min_eq_right hge, ih (r - s) (pos + s) hl.tail (by omega) hnext (by omega), htake]
    rfl

include hs hs63 in
lemma writeToFileLoop_whole (l : List Node) (r pos : Nat) (hl : Uniform s l)
    (hpos : pos + r < addressSpace) (hd : pos % s < 2 ^ 31) (hr : s ≤ r)
    (hroom : pos % s + r ≤ l.length * s) :
    writeToFileLoop s l r pos = .ok (((contents l).drop (pos % s)).take r) := by
  have hmod : pos % s < s := Nat.mod_lt _ hs
  cases l with
  | nil =>
    rw [length_nil, Nat.zero_mul] at hroom
    omega
  | cons node rest =>
    have hptr : node.ptr.length = s := node.length_ptr.trans hl.head
    rw [length_cons, Nat.succ_mul] at hroom
    have hnext : (pos + (s - pos % s)) % s = 0 := by
      have hsplit := Nat.div_add_mod pos s
      have hsum : pos + (s - pos % s) = s * (pos / s + 1) := by
        rw [Nat.mul_add, Nat.mul_one]
        omega
      rw [hsum, Nat.mul_mod_right]
    have hlen : (node.ptr.drop (pos % s)).length = s - pos % s := by rw [length_drop, hptr]
    have htake : (node.ptr.drop (pos % s) ++ contents rest).take r =
        (node.ptr.drop (pos % s)).take (s - pos % s) ++
          (contents rest).take (r - (s - pos % s)) := by
      rw [take_append, hlen, take_of_length_le (by omega), take_of_length_le hlen.le]
    rw [writeToFileLoop_cons hs63 (by omega) (by omega) (by omega) hd hl.head
        (show pos % s + (s - pos % s) = min r s by omega),
      writeToFileLoop_aligned hs63 rest _ _ hl.tail (by omega) hnext (by omega),
      contents_cons, drop_append_of_le_length (by omega), htake]
    rfl

include hs63 in
lemma writeToFileLoop_inside (hs31 : s ≤ 2 ^ 31) (l : List Node) (r pos : Nat)
    (hl : Uniform s l) (hpos : pos + r < addressSpace) (hd : 0 < pos % s) (hr : 0 < r)
    (hrs : r < s) : ∃ e, writeToFileLoop s l r pos = .error e := by
  have hmod : pos % s < s := Nat.mod_lt _ (by omega)
  -- a round whose length is negative
  have hnegative : ∀ (l : List Node) (r pos : Nat), 0 < r → r < pos % s → pos % s < s →
      pos < addressSpace → ∃ e, writeToFileLoop s l r pos = .error e := by
    intro l r pos hr hlt hmod hpos
    cases l with
    | nil =>
      refine ⟨.nullDereference, ?_⟩
      simp [writeToFileLoop, hr]
    | cons node rest =>
      have hround := roundLength_eq hs63 (r := r) (by omega) (d := pos % s) (by omega)
      have hneg : ((min r s : Nat) : Int) - ((pos % s : Nat) : Int) < 0 := by omega
      refine ⟨.negativeLength, ?_⟩
      simp only [writeToFileLoop, gt_iff_lt, Nat.cast_pos, hr, if_true,
        offset_eq hpos (show pos % s < 2 ^ 31 by omega)]
      rw [hround, Node.print, if_pos hneg]
      rfl
  rcases Nat.lt_trichotomy r (pos % s) with hlt | heq | hgt
  · exact hnegative l r pos hr hlt hmod (by omega)
  · -- a round of length zero goes to the next node with everything else as it was
    refine ⟨.nullDereference, ?_⟩
    induction l with
    | nil => simp [writeToFileLoop, hr]
    | cons node rest ih =>
      rw [writeToFileLoop_cons hs63 hr (by omega) (by omega) (by omega) hl.head
        (show pos % s + 0 = min r s by omega), Nat.sub_zero, Nat.add_zero, ih hl.tail]
      rfl
  cases l with
  | nil =>
    refine ⟨.nullDereference, ?_⟩
    simp [writeToFileLoop, hr]
  | cons node rest =>
    have hnext : (pos + (r - pos % s)) % s = r := by
      have hsplit := Nat.div_add_mod pos s
      have hsum : pos + (r - pos % s) = r + s * (pos / s) := by omega
      rw [hsum, Nat.add_mul_mod_self_left, Nat.mod_eq_of_lt hrs]
    obtain ⟨e, he⟩ := hnegative rest (r - (r - pos % s)) (pos + (r - pos % s)) (by omega)
      (by omega) (by omega) (by omega)
    refine ⟨e, ?_⟩
    rw [writeToFileLoop_cons hs63 hr (by omega) (by omega) (by omega) hl.head
      (show pos % s + (r - pos % s) = min r s by omega), he]
    rfl

end Save

/-- `writeToFile` hands over what `toString` returns, and a new array of any base size into which
that is loaded returns the same. -/
def SavesUnread (b : ByteArray) : Prop :=
  ∃ bytes, writeToFile b = .ok bytes b ∧ toString b = .ok bytes b ∧
    ∀ (baseSize : Nat) (fresh : Nat → Byte), 1 ≤ baseSize → bytes.length < 2 ^ 53 →
      bytes.length + baseSize ≤ addressSpace →
      ∃ b₁ b₂, readFromFile bytes (new baseSize fresh) = .ok () b₁ ∧
        setPosition 0 b₁ = .ok () b₂ ∧ toString b₂ = .ok bytes b₂

lemma InMemory.savesUnread_iff {baseSize : Nat} {b : ByteArray} (h : InMemory baseSize b) :
    SavesUnread b ↔ writeToFileLoop baseSize b.fromCur ((b.size - b.position : Nat) : Int)
      (b.position : Int) = .ok b.unread := by
  have hsize := h.wf.size_le
  have hcap := h.capacity_lt
  have hple := h.wf.position_le
  have hargs : writeToFileLoop b.baseSize b.fromCur (toInt64 b.getReadSize) (toInt64 b.position) =
      writeToFileLoop baseSize b.fromCur ((b.size - b.position : Nat) : Int)
        (b.position : Int) := by
    unfold addressSpace at hcap
    rw [h.wf.getReadSize_eq, h.base_eq, toInt64_of_lt (by omega) (by omega),
      toInt64_of_lt (by omega) (by omega)]
  have hstring := toString_spec h.wf
  constructor
  · rintro ⟨bytes, hwrite, hsame, -⟩
    rw [hstring] at hsame
    obtain ⟨rfl, -⟩ := EStateM.Result.ok.inj hsame
    rw [writeToFile, hargs] at hwrite
    split at hwrite
    · cases hwrite
    next bytes hloop =>
    obtain ⟨rfl, -⟩ := EStateM.Result.ok.inj hwrite
    exact hloop
  intro hloop
  refine ⟨b.unread, ?_, hstring, fun base fresh hbase hlen hroom => ?_⟩
  · rw [writeToFile, hargs, hloop]
  · exact toString_readFromFile fresh hbase hlen hroom

/-- In every state that calls reach: when saving works, and that it works in no other case for a
base size up to `2^31`. -/
theorem writeToFile_iff {p : Platform} {baseSize : Nat} (hpos : 1 ≤ baseSize)
    (hlt : baseSize < addressSpace) {b : ByteArray}
    (h : (callSystem p baseSize).ReachableWith Call.Fits b) :
    (b.size = b.position ∨ b.position % baseSize < 2 ^ 31 ∧
        (b.position % baseSize = 0 ∨ baseSize ≤ b.size - b.position) → SavesUnread b) ∧
      (baseSize ≤ 2 ^ 31 → SavesUnread b →
        b.size = b.position ∨ b.position % baseSize = 0 ∨ baseSize ≤ b.size - b.position) := by
  have hmem := inMemory_of_reachable hpos hlt h
  have hsize := hmem.wf.size_le
  have hcap := hmem.capacity_lt
  have hple := hmem.wf.position_le
  have hroom := hmem.wf.room_fromCur (n := b.size - b.position) (by omega)
  have huni : Uniform b.baseSize b.fromCur := hmem.wf.uniform.drop b.curIndex
  have hdrop := hmem.wf.drop_contents
  rw [hmem.base_eq] at hroom huni hdrop
  rw [hmem.savesUnread_iff]
  refine ⟨?_, fun hs31 hloop => ?_⟩
  · rintro (hnone | ⟨hd, hzero | hwhole⟩)
    · rw [unread, hnone, Nat.sub_self, take_zero]
      exact writeToFileLoop_zero _ _
    · rw [hzero, drop_zero] at hdrop
      rw [writeToFileLoop_aligned hlt _ _ _ huni (by omega) hzero (by omega), unread, hdrop]
    · rw [writeToFileLoop_whole hpos hlt _ _ _ huni (by omega) hd hwhole hroom, unread, hdrop]
  by_contra hnot
  obtain ⟨e, herror⟩ := writeToFileLoop_inside hlt hs31 b.fromCur (b.size - b.position) b.position
    huni (by omega) (by omega) (by omega) (by omega)
  rw [herror] at hloop
  cases hloop

def threeBytes (position : Nat) : ByteArray :=
  final ((do write [1, 2, 3]; setPosition position : Action Unit) (new 4 fun _ => 0))

theorem writeToFile_iff_start : SavesUnread (threeBytes 0) := by
  have hrun : (callSystem ⟨.little, .little⟩ 4).runWith Call.Fits (new 4 fun _ => 0)
      [.write [1, 2, 3], .setPosition 0] = some (threeBytes 0) := rfl
  have hreach : (callSystem ⟨.little, .little⟩ 4).ReachableWith Call.Fits (threeBytes 0) :=
    TransitionSystem.reachableWith_of_runWith (.init ⟨fun _ => 0, rfl⟩) hrun
  exact (writeToFile_iff (by decide) (by decide) hreach).1 (.inr ⟨by decide, .inl rfl⟩)

/-- Saving two bytes from inside the node runs off the chain. -/
theorem save_inside_node :
    (callSystem ⟨.little, .little⟩ 4).runWith Call.Fits (new 4 fun _ => 0)
        [.write [1, 2, 3], .setPosition 1] = some (threeBytes 1) ∧
      toString (threeBytes 1) = .ok [2, 3] (threeBytes 1) ∧
      writeToFile (threeBytes 1) = .error .nullDereference (threeBytes 1) :=
  ⟨rfl, rfl, rfl⟩

end Yuyu.ByteArray
