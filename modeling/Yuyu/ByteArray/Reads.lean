import Yuyu.ByteArray.RoundTrip

/-!
# The frame of the typed reads

Whether a typed read succeeds or not, it changes nothing of the byte array but the cursor, and
moves that forward.
-/

namespace Yuyu.ByteArray

open Foundation

/-- The array `b'` is `b` with the cursor moved forward. -/
structure Moved (b b' : ByteArray) : Prop where
  wf : b'.WellFormed
  nodes_eq : b'.nodes = b.nodes
  size_eq : b'.size = b.size
  base_eq : b'.baseSize = b.baseSize
  endian_eq : b'.endian = b.endian
  position_le : b.position ≤ b'.position

variable {b b' : ByteArray} {α β : Type} {x : Action α} {f : α → Action β} {n : Nat}

lemma Moved.refl (h : b.WellFormed) : Moved b b := ⟨h, rfl, rfl, rfl, rfl, le_rfl⟩

lemma Moved.trans {b₁ b₂ b₃ : ByteArray} (h : Moved b₁ b₂) (h' : Moved b₂ b₃) : Moved b₁ b₃ where
  wf := h'.wf
  nodes_eq := h'.nodes_eq.trans h.nodes_eq
  size_eq := h'.size_eq.trans h.size_eq
  base_eq := h'.base_eq.trans h.base_eq
  endian_eq := h'.endian_eq.trans h.endian_eq
  position_le := h.position_le.trans h'.position_le

lemma Moved.capacity_eq (h : Moved b b') (hb : b.WellFormed) : b'.capacity = b.capacity := by
  rw [h.wf.capacity_eq, h.nodes_eq, h.base_eq, hb.capacity_eq]

def final {α : Type} : EStateM.Result Failure ByteArray α → ByteArray
  | .ok _ b => b
  | .error _ b => b

def OnlyMoves {α : Type} (act : Action α) : Prop :=
  ∀ b : ByteArray, b.WellFormed → Moved b (final (act b))

lemma OnlyMoves.pure (a : α) : OnlyMoves (return a) := fun _ h => .refl h

lemma OnlyMoves.get : OnlyMoves (MonadState.get : Action ByteArray) := fun _ h => .refl h

lemma bind_of_error {e : Failure} (h : x b = .error e b') : (x >>= f) b = .error e b' := by
  simp [bind, EStateM.bind, h]

lemma OnlyMoves.bind (hx : OnlyMoves x) (hf : ∀ a, OnlyMoves (f a)) : OnlyMoves (x >>= f) := by
  intro b h
  have hmoved := hx b h
  cases hrun : x b with
  | ok a b₁ =>
    rw [hrun] at hmoved
    rw [bind_of_ok hrun]
    exact hmoved.trans (hf a b₁ hmoved.wf)
  | error e b₁ =>
    rw [hrun] at hmoved
    rw [bind_of_error hrun]
    exact hmoved

lemma read_zero (h : b.WellFormed) :
    read 0 b = if b.position = b.capacity then .error .nullDereference b else .ok [] b := by
  have hcur := h.nodeAt_div h.position_le_capacity
  rw [← h.curIndex_eq, nodeAt] at hcur
  by_cases hend : b.position = b.capacity
  · have hnil : b.fromCur = [] := by
      rw [fromCur, List.drop_eq_nil_iff, h.curIndex_eq, hend, h.capacity_div]
    simp only [read, Nat.not_lt_zero, gt_iff_lt, if_false, hnil, if_pos hend]
  have hlt : b.curIndex < b.nodes.length := by
    by_contra hge
    simp [if_neg hge, if_neg hend] at hcur
  obtain ⟨node, rest, hcons⟩ : ∃ node rest, b.fromCur = node :: rest :=
    ⟨_, _, List.drop_eq_getElem_cons hlt⟩
  have hsame : b.nodeAt b.curIndex = b.cur := by
    rw [nodeAt, hcur, if_neg hend, h.curIndex_eq, h.cur_eq, if_neg hend]
  simp only [read, Nat.not_lt_zero, gt_iff_lt, if_false, hcons, readLoop, Nat.add_zero, hsame,
    if_neg hend]

lemma read_cases (h : b.WellFormed) (n : Nat) :
    (∃ e, read n b = .error e b) ∨
      ∃ bytes b', read n b = .ok bytes b' ∧ Moved b b' ∧ b'.position = b.position + n := by
  rcases Nat.eq_zero_or_pos n with rfl | hpos
  · rw [read_zero h]
    split
    · exact .inl ⟨_, rfl⟩
    · exact .inr ⟨[], b, rfl, .refl h, rfl⟩
  obtain ⟨hfew, henough⟩ := read_spec h hpos
  by_cases hlt : b.size - b.position < n
  · exact .inl ⟨_, hfew hlt⟩
  · obtain ⟨b', hrun, hwf, hnodes, hposition, hsize, hbase, hendian⟩ := henough (by omega)
    exact .inr ⟨_, b', hrun, ⟨hwf, hnodes, hsize, hbase, hendian, by omega⟩, hposition⟩

lemma read_onlyMoves (n : Nat) : OnlyMoves (read n) := by
  intro b h
  obtain ⟨e, hrun⟩ | ⟨bytes, b', hrun, hmoved, -⟩ := read_cases h n
  · rw [hrun]
    exact .refl h
  · rw [hrun]
    exact hmoved

/-- The action reads `n` bytes first, and only moves the cursor afterwards. -/
def FirstReads {α : Type} (n : Nat) (act : Action α) : Prop :=
  ∃ f : List Byte → Action α, act = read n >>= f ∧ ∀ bytes, OnlyMoves (f bytes)

lemma FirstReads.onlyMoves {act : Action α} (h : FirstReads n act) : OnlyMoves act := by
  obtain ⟨f, rfl, hf⟩ := h
  exact (read_onlyMoves n).bind hf

lemma FirstReads.bind
    (hx : FirstReads n x) (hf : ∀ a, OnlyMoves (f a)) : FirstReads n (x >>= f) := by
  obtain ⟨g, rfl, hg⟩ := hx
  exact ⟨fun bytes => g bytes >>= f, bind_assoc _ _ _, fun bytes => (hg bytes).bind hf⟩

lemma FirstReads.error_iff {act : Action α} (h : FirstReads n act)
    (hn : 1 ≤ n) (hb : b.WellFormed) {e : Failure}
    (hrun : act b = .error e b') : b'.position = b.position ↔ b.size - b.position < n := by
  obtain ⟨f, rfl, hf⟩ := h
  obtain ⟨hfew, henough⟩ := read_spec hb hn
  by_cases hlt : b.size - b.position < n
  · rw [bind_of_error (hfew hlt)] at hrun
    obtain ⟨-, rfl⟩ := EStateM.Result.error.inj hrun
    exact ⟨fun _ => hlt, fun _ => rfl⟩
  obtain ⟨b₁, hread, hwf, -, hposition, -⟩ := henough (by omega)
  rw [bind_of_ok hread] at hrun
  have hmoved := hf (((contents b.nodes).drop b.position).take n) b₁ hwf
  rw [hrun] at hmoved
  have hle : b₁.position ≤ b'.position := hmoved.position_le
  omega

variable (p : Platform)

lemma readFixed_firstReads (w n : Nat) : FirstReads n (readFixed p w n) := by
  refine ⟨_, rfl, fun bytes => OnlyMoves.get.bind fun b => ?_⟩
  split
  · exact OnlyMoves.pure _
  · exact OnlyMoves.pure _

lemma readByte_firstReads : FirstReads 1 (do return p.ofBytes (← read 1) : Action (BitVec 8)) :=
  ⟨_, rfl, fun _ => OnlyMoves.pure _⟩

lemma readVarint_onlyMoves {w : Nat} (rounds i : Nat) (result : BitVec w) :
    OnlyMoves (readVarint p rounds i result) := by
  induction rounds generalizing i result with
  | zero => exact OnlyMoves.pure _
  | succ rounds ih =>
    refine (readByte_firstReads p).onlyMoves.bind fun byte => ?_
    split
    · exact OnlyMoves.pure _
    · exact ih _ _

lemma readVarint_firstReads {w : Nat} (rounds i : Nat) (result : BitVec w) :
    FirstReads 1 (readVarint p (rounds + 1) i result) := by
  refine (readByte_firstReads p).bind fun byte => ?_
  split
  · exact OnlyMoves.pure _
  · exact readVarint_onlyMoves p _ _ _

def Kind.firstRead : Kind → Nat
  | .fint8 | .fuint8 => 1
  | .fint16 | .fuint16 => 2
  | .fint32 | .fuint32 | .float => 4
  | .fint64 | .fuint64 | .double => 8
  | .int32 | .uint32 | .int64 | .uint64 => 1

lemma Kind.firstRead_pos (k : Kind) : 1 ≤ k.firstRead := by
  cases k <;> decide

/-- The number of bytes of its first read. -/
theorem readValue_firstReads (k : Kind) : FirstReads k.firstRead (readValue p k) := by
  cases k with
  | fint8 | fuint8 => exact readByte_firstReads p
  | fint16 | fuint16 => exact readFixed_firstReads p 16 2
  | fint32 | fuint32 | float => exact readFixed_firstReads p 32 4
  | fint64 | fuint64 | double => exact readFixed_firstReads p 64 8
  | uint32 => exact readVarint_firstReads p 4 0 0#32
  | uint64 => exact readVarint_firstReads p 9 0 0#64
  | int32 => exact (readVarint_firstReads p 4 0 0#32).bind fun _ => OnlyMoves.pure _
  | int64 => exact (readVarint_firstReads p 9 0 0#64).bind fun _ => OnlyMoves.pure _

/-- A typed read only moves the cursor. -/
theorem readValue_onlyMoves (k : Kind) : OnlyMoves (readValue p k) :=
  (readValue_firstReads p k).onlyMoves

lemma readPayload_eq (len : Nat) (b : ByteArray) :
    readPayload len b = if len > maxStringSize then .error .lengthError b else read len b := by
  split
  · next hlong =>
    rw [readPayload, if_pos hlong]
    rfl
  · next hshort => simp [readPayload, hshort]

lemma readPayload_onlyMoves (len : Nat) : OnlyMoves (readPayload len) := by
  intro b h
  rw [readPayload_eq]
  split
  · exact .refl h
  · exact read_onlyMoves len b h

lemma readString_eq (f : StringFormat) :
    readString p f = readValue p f.length >>= fun len => readPayload len.toNat := by
  cases f <;> rfl

theorem readString_firstReads (f : StringFormat) :
    FirstReads f.length.firstRead (readString p f) := by
  rw [readString_eq]
  exact (readValue_firstReads p f.length).bind fun _ => readPayload_onlyMoves _

theorem readString_onlyMoves (f : StringFormat) : OnlyMoves (readString p f) :=
  (readString_firstReads p f).onlyMoves

end Yuyu.ByteArray
