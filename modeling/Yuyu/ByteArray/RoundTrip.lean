import Yuyu.ByteArray.Codec
import Yuyu.ByteArray.Refinement

/-!
# Round trip of numeric values

A write appends bytes at the end, and the matching read consumes exactly these and returns the
value.  Both facts are closed under sequencing.
-/

namespace Yuyu.ByteArray

open Foundation List

def written (b : ByteArray) : List Byte := (contents b.nodes).take b.position

def unread (b : ByteArray) : List Byte :=
  ((contents b.nodes).drop b.position).take (b.size - b.position)

variable {b : ByteArray} {α β : Type} {x : Action α} {a : α} {xs bytes : List Byte} {w n : Nat}

lemma WellFormed.length_written (h : b.WellFormed) : b.written.length = b.position := by
  rw [written, length_take, h.length_contents, Nat.min_eq_left h.position_le_capacity]

lemma WellFormed.length_unread (h : b.WellFormed) : b.unread.length = b.size - b.position := by
  have hle := h.size_le
  rw [unread, length_take, length_drop, h.length_contents]
  omega

/-- At the end of an array with byte order `e`, the action appends `bytes`. -/
def Appends (e : Endian) (act : Action Unit) (bytes : List Byte) : Prop :=
  ∀ b : ByteArray, b.WellFormed → b.endian = e → b.position = b.size →
    b.position + bytes.length + b.baseSize ≤ word64 →
    ∃ b', act b = .ok () b' ∧ b'.WellFormed ∧ b'.endian = e ∧ b'.position = b'.size ∧
      b'.baseSize = b.baseSize ∧ b'.written = b.written ++ bytes

/-- Before `bytes`, the action consumes them and returns `a`. -/
def Consumes {α : Type} (e : Endian) (act : Action α) (a : α) (bytes : List Byte) : Prop :=
  ∀ (b : ByteArray) (rest : List Byte), b.WellFormed → b.endian = e → b.unread = bytes ++ rest →
    ∃ b', act b = .ok a b' ∧ b'.WellFormed ∧ b'.endian = e ∧ b'.unread = rest

lemma bind_of_ok {f : α → Action β} {b' : ByteArray}
    (h : x b = .ok a b') : (x >>= f) b = f a b' := by
  simp [bind, EStateM.bind, h]

variable {e : Endian}

lemma Appends.nil : Appends e (return ()) [] :=
  fun b h he hend _ => ⟨b, rfl, h, he, hend, rfl, (append_nil _).symm⟩

lemma Appends.seq {x y : Action Unit} {ys : List Byte} (hx : Appends e x xs)
    (hy : Appends e y ys) : Appends e (do x; y) (xs ++ ys) := by
  intro b h he hend hword
  rw [length_append] at hword
  obtain ⟨b₁, hrun₁, h₁, he₁, hend₁, hbase₁, hw₁⟩ := hx b h he hend (by omega)
  have hpos₁ : b₁.position = b.position + xs.length := by
    rw [← h₁.length_written, hw₁, length_append, h.length_written]
  obtain ⟨b₂, hrun₂, h₂, he₂, hend₂, hbase₂, hw₂⟩ := hy b₁ h₁ he₁ hend₁ (by omega)
  refine ⟨b₂, (bind_of_ok hrun₁).trans hrun₂, h₂, he₂, hend₂, hbase₂.trans hbase₁, ?_⟩
  rw [hw₂, hw₁, append_assoc]

lemma Consumes.pure (a : α) : Consumes e (return a) a [] := fun b _ h he hun => ⟨b, rfl, h, he, hun⟩

lemma Consumes.bind {f : α → Action β} {c : β}
    {ys : List Byte} (hx : Consumes e x a xs) (hf : Consumes e (f a) c ys) :
    Consumes e (x >>= f) c (xs ++ ys) := by
  intro b rest h he hun
  obtain ⟨b₁, hrun₁, h₁, he₁, hun₁⟩ := hx b (ys ++ rest) h he (by rw [hun, append_assoc])
  obtain ⟨b₂, hrun₂, h₂, he₂, hun₂⟩ := hf b₁ rest h₁ he₁ hun₁
  exact ⟨b₂, (bind_of_ok hrun₁).trans hrun₂, h₂, he₂, hun₂⟩

lemma Consumes.map (f : α → β)
    (hx : Consumes e x a xs) : Consumes e (do return f (← x)) (f a) xs := by
  have hbind : Consumes e (x >>= fun a => return f a) (f a) (xs ++ []) :=
    hx.bind (Consumes.pure (f a))
  rwa [append_nil] at hbind

lemma write_appends (hlen : bytes.length < 2 ^ 53) : Appends e (write bytes) bytes := by
  intro b h he hend hword
  obtain ⟨b', ext, hrun, h', -, hcont, hpos, hsize, hbase, hendian⟩ := write_spec h hlen hword
  have hcap : b.position ≤ (contents b.nodes).length :=
    h.length_contents.symm ▸ h.position_le_capacity
  refine ⟨b', hrun, h', hendian.trans he, by omega, hbase, ?_⟩
  rw [written, hcont, hpos, take_splice (by rw [length_append]; omega), written,
    take_append_of_le_length hcap]

/-- With byte order `e`, the action is the write of `bytes`. -/
def WritesAs (e : Endian) (act : Action Unit) (bytes : List Byte) : Prop :=
  ∀ b : ByteArray, b.endian = e → act b = write bytes b

lemma WritesAs.appends {act : Action Unit} (h : WritesAs e act bytes)
    (hlen : bytes.length < 2 ^ 53) : Appends e act bytes := by
  intro b hwf he hend hword
  rw [h b he]
  exact write_appends hlen b hwf he hend hword

lemma read_consumes (hne : bytes ≠ []) : Consumes e (read bytes.length) bytes bytes := by
  intro b rest h he hun
  have hlen := h.length_unread
  rw [hun, length_append] at hlen
  obtain ⟨b', hrun, h', hnodes, hpos, hsize, -, hendian⟩ :=
    (read_spec h (length_pos_iff.mpr hne)).2 (by omega)
  have hbytes : ((contents b.nodes).drop b.position).take bytes.length = bytes := by
    have htake : b.unread.take bytes.length = bytes := by rw [hun, take_left]
    rwa [unread, take_take, Nat.min_eq_left (by omega)] at htake
  refine ⟨b', by rw [hrun, hbytes], h', hendian.trans he, ?_⟩
  have hdrop : b.unread.drop bytes.length = rest := by rw [hun, drop_left]
  rw [unread, drop_take, drop_drop] at hdrop
  rw [unread, hnodes, hpos, hsize, ← hdrop]
  congr 1
  omega

variable (p : Platform)

@[simp]
lemma length_bytesOf (n : Nat) (v : BitVec w) : (p.bytesOf n v).length = n := by
  unfold Platform.bytesOf
  split <;> simp

lemma ofBytes_bytesOf (hw : w = 8 * n) (v : BitVec w) : p.ofBytes (p.bytesOf n v) = v := by
  unfold Platform.ofBytes Platform.bytesOf
  cases p.memory <;> simp [WordBytes.ofLeBytes_leBytes hw]

def stored (e : Endian) {w : Nat} (n : Nat) (v : BitVec w) : BitVec w :=
  if e ≠ p.byteOrder then WordBytes.byteswap n v else v

lemma writeFixed_writesAs (v : BitVec w) :
    WritesAs e (writeFixed p n v) (p.bytesOf n (stored p e n v)) := by
  intro b he
  rw [writeFixed, bind_of_ok (show (get : Action ByteArray) b = .ok b b from rfl), he]
  rfl

lemma readFixed_consumes (hw : w = 8 * n) (hn : 0 < n) (v : BitVec w) :
    Consumes e (readFixed p w n) v (p.bytesOf n (stored p e n v)) := by
  intro b rest h he hun
  have hlen := length_bytesOf p n (stored p e n v)
  have hne : p.bytesOf n (stored p e n v) ≠ [] := by
    rw [← length_pos_iff, hlen]
    exact hn
  obtain ⟨b', hrun, h', he', hun'⟩ := read_consumes hne b rest h he hun
  rw [hlen] at hrun
  refine ⟨b', ?_, h', he', hun'⟩
  rw [readFixed, bind_of_ok hrun,
    bind_of_ok (show (get : Action ByteArray) b' = .ok b' b' from rfl),
    ofBytes_bytesOf p hw, he', stored]
  by_cases hsame : e = p.byteOrder
  · rw [if_pos hsame, if_neg (not_not.mpr hsame)]
    rfl
  · rw [if_neg hsame, if_pos hsame, WordBytes.byteswap_byteswap hw]
    rfl

lemma readByte_consumes (v : BitVec 8) :
    Consumes e (do return p.ofBytes (← read 1)) v (p.bytesOf 1 v) := by
  have hne : p.bytesOf 1 v ≠ [] := by
    rw [← length_pos_iff, length_bytesOf]
    decide
  have hread := (read_consumes (e := e) hne).map (p.ofBytes (w := 8))
  rwa [length_bytesOf, ofBytes_bytesOf p rfl] at hread

lemma encodeVarint_ok (hw : 8 ≤ w) (room : Nat) (v : BitVec w) (hroom : 0 < room)
    (hv : v.toNat < 2 ^ (7 * room)) :
    ∃ bytes, encodeVarint room v = .ok bytes ∧ bytes ≠ [] ∧ bytes.length ≤ room := by
  induction room generalizing v with
  | zero => omega
  | succ room ih =>
    have h128 : (0x80#w).toNat = 128 := by
      rw [BitVec.toNat_ofNat]
      exact Nat.mod_eq_of_lt (lt_of_lt_of_le (by decide) (Nat.pow_le_pow_right (by decide) hw))
    rw [encodeVarint]
    split
    · rename_i hge
      rw [ge_iff_le, BitVec.le_def, h128] at hge
      have hshift : (v >>> 7).toNat < 2 ^ (7 * room) := by
        rw [BitVec.toNat_ushiftRight, Nat.shiftRight_eq_div_pow]
        rw [Nat.mul_succ, Nat.pow_add] at hv
        exact Nat.div_lt_of_lt_mul (by rwa [Nat.mul_comm] at hv)
      have hpos : 0 < room := by
        rcases Nat.eq_zero_or_pos room with rfl | hpos
        · omega
        · exact hpos
      obtain ⟨bytes, hrun, -, hlen⟩ := ih (v >>> 7) hpos hshift
      exact ⟨_, by rw [hrun]; rfl, by simp, by simpa using hlen⟩
    · exact ⟨_, rfl, by simp, by simp⟩

lemma writeVarint_writesAs {room : Nat} {v : BitVec w}
    (henc : encodeVarint room v = .ok bytes) : WritesAs e (writeVarint room v) bytes := by
  intro b _
  rw [writeVarint, henc]

lemma bytesOf_one (v : BitVec 8) : p.bytesOf 1 v = [v] := by
  unfold Platform.bytesOf
  cases p.memory <;> simp [WordBytes.leBytes]

lemma readVarint_consumes (hw : 8 ≤ w) (room i : Nat) (result v : BitVec w)
    (bytes : List Byte) (henc : encodeVarint room v = .ok bytes) :
    Consumes e (readVarint p room i result) (result ||| v <<< i) bytes := by
  induction room generalizing i result v bytes with
  | zero => simp [encodeVarint] at henc
  | succ room ih =>
    rw [encodeVarint] at henc
    split at henc
    · cases hrest : encodeVarint room (v >>> 7) with
      | error f => simp [hrest, bind, Except.bind] at henc
      | ok rest =>
        obtain rfl : ((v &&& 0x7f#w) ||| 0x80#w).setWidth 8 :: rest = bytes := by
          simpa [hrest, bind, Except.bind, pure, Except.pure] using henc
        have hrec := ih (i + 7) (result ||| (v &&& 0x7f#w) <<< i) (v >>> 7) rest hrest
        rw [BitVec.or_assoc, WordBytes.shiftLeft_groups] at hrec
        have hbyte := readByte_consumes (e := e) p (((v &&& 0x7f#w) ||| 0x80#w).setWidth 8)
        rw [bytesOf_one] at hbyte
        show Consumes e (readFuint8 p >>= _) _ ([_] ++ rest)
        refine hbyte.bind ?_
        rw [if_neg (WordBytes.continued_ge hw v), WordBytes.group_of_continued]
        exact hrec
    rename_i hlt
    obtain rfl : [v.setWidth 8] = bytes := by simpa using henc
    obtain ⟨hwidth, hsmall⟩ := WordBytes.setWidth_of_lt hw (BitVec.not_le.mp hlt)
    have hbyte := readByte_consumes (e := e) p (v.setWidth 8)
    rw [bytesOf_one] at hbyte
    show Consumes e (readFuint8 p >>= _) _ ([_] ++ [])
    refine hbyte.bind ?_
    rw [if_pos hsmall, hwidth]
    exact Consumes.pure _

/-! ## Sequences of values -/

/-- The bytes `bytes` are the code of a value: its write appends them and
its read consumes them. -/
def IsCode (e : Endian) {α : Type} (wr : Action Unit) (rd : Action α) (v : α)
    (bytes : List Byte) : Prop := bytes.length ≤ 10 ∧ Appends e wr bytes ∧ Consumes e rd v bytes

structure Code (e : Endian) {α : Type} (wr : Action Unit) (rd : Action α) (v : α)
    (bytes : List Byte) : Prop where
  ne_nil : bytes ≠ []
  length_le : bytes.length ≤ 10
  writes : WritesAs e wr bytes
  reads : Consumes e rd v bytes

lemma Code.isCode {wr : Action Unit} {rd : Action α} {v : α}
    (h : Code e wr rd v bytes) : IsCode e wr rd v bytes := by
  have hlen := h.length_le
  exact ⟨hlen, h.writes.appends (by omega), h.reads⟩

lemma bytesOf_ne_nil (hn : 0 < n) (v : BitVec w) : p.bytesOf n v ≠ [] := by
  rwa [← length_pos_iff, length_bytesOf]

lemma code_byte (v : BitVec 8) :
    Code e (write (p.bytesOf 1 v)) (do return p.ofBytes (← read 1)) v (p.bytesOf 1 v) where
  ne_nil := bytesOf_ne_nil p (by decide) v
  length_le := by simp
  writes := fun _ _ => rfl
  reads := readByte_consumes p v

lemma code_fixed (hw : w = 8 * n) (hpos : 0 < n) (hn : n ≤ 8) (v : BitVec w) :
    Code e (writeFixed p n v) (readFixed p w n) v (p.bytesOf n (stored p e n v)) where
  ne_nil := bytesOf_ne_nil p hpos _
  length_le := by
    rw [length_bytesOf]
    omega
  writes := writeFixed_writesAs p v
  reads := readFixed_consumes p hw hpos v

lemma exists_code_varint (room : Nat) (hw : 8 ≤ w) (hpos : 0 < room)
    (hroom : room ≤ 10) (hbits : w ≤ 7 * room) (v : BitVec w) :
    ∃ bytes, encodeVarint room v = .ok bytes ∧
      Code e (writeVarint room v) (readVarint p room 0 0#w) v bytes := by
  have hv : v.toNat < 2 ^ (7 * room) :=
    lt_of_lt_of_le v.isLt (Nat.pow_le_pow_right (by decide) hbits)
  obtain ⟨bytes, henc, hne, hlen⟩ := encodeVarint_ok hw room v hpos hv
  have hread := readVarint_consumes (e := e) p hw room 0 0#w v bytes henc
  rw [BitVec.zero_or, BitVec.shiftLeft_zero] at hread
  exact ⟨bytes, henc, hne, by omega, writeVarint_writesAs henc, hread⟩

lemma exists_code_zigzag (room : Nat) (hw : 8 ≤ w) (hpos : 0 < room)
    (hroom : room ≤ 10) (hbits : w ≤ 7 * room) (v : BitVec w) :
    ∃ bytes, Code e (writeVarint room (WordBytes.zigzagEncode v))
      (do return WordBytes.zigzagDecode (← readVarint p room 0 0#w)) v bytes := by
  obtain ⟨bytes, -, hne, hlen, hwrite, hread⟩ :=
    exists_code_varint (e := e) p room hw hpos hroom hbits (WordBytes.zigzagEncode v)
  have hmap := hread.map WordBytes.zigzagDecode
  rw [WordBytes.zigzagDecode_zigzagEncode (by omega)] at hmap
  exact ⟨bytes, hne, hlen, hwrite, hmap⟩

lemma exists_value_code (e : Endian) (k : Kind) (v : BitVec k.width) :
    ∃ bytes, Code e (writeValue p k v) (readValue p k) v bytes := by
  cases k with
  | fint8 | fuint8 => exact ⟨_, code_byte p v⟩
  | fint16 | fuint16 =>
    exact ⟨_, code_fixed p (w := 16) (n := 2) rfl (by decide) (by decide) v⟩
  | fint32 | fuint32 | float =>
    exact ⟨_, code_fixed p (w := 32) (n := 4) rfl (by decide) (by decide) v⟩
  | fint64 | fuint64 | double =>
    exact ⟨_, code_fixed p (w := 64) (n := 8) rfl (by decide) (by decide) v⟩
  | uint32 =>
    exact (exists_code_varint p 5 (by decide) (by decide) (by decide) (by decide) v).imp
      fun _ h => h.2
  | uint64 =>
    exact (exists_code_varint p 10 (by decide) (by decide) (by decide) (by decide) v).imp
      fun _ h => h.2
  | int32 =>
    exact exists_code_zigzag p (w := 32) 5 (by decide) (by decide) (by decide) (by decide) v
  | int64 =>
    exact exists_code_zigzag p (w := 64) 10 (by decide) (by decide) (by decide) (by decide) v

lemma exists_code_all (e : Endian) (vs : List Value) :
    ∃ bytes, bytes.length ≤ 10 * vs.length ∧ Appends e (writeAll p vs) bytes ∧
      Consumes e (readAll p (vs.map Sigma.fst)) vs bytes := by
  induction vs with
  | nil => exact ⟨[], by simp, Appends.nil, Consumes.pure _⟩
  | cons v vs ih =>
    obtain ⟨bytes, hcode⟩ := exists_value_code p e v.1 v.2
    obtain ⟨hlen, hwrite, hread⟩ := hcode.isCode
    obtain ⟨more, hlen', hwrite', hread'⟩ := ih
    refine ⟨bytes ++ more, ?_, hwrite.seq hwrite', ?_⟩
    · rw [length_append, length_cons]
      omega
    · exact hread.bind (hread'.map (⟨v.1, v.2⟩ :: ·))

lemma encodeVarint_fits (room : Nat) (hw : 8 ≤ w) (hpos : 0 < room)
    (hbits : w ≤ 7 * room) (v : BitVec w) :
    ∃ tmp, encodeVarint room v = .ok tmp ∧ tmp.length ≤ room := by
  obtain ⟨tmp, henc, -, hlen⟩ := encodeVarint_ok hw room v hpos
    (lt_of_lt_of_le v.isLt (Nat.pow_le_pow_right (by decide) hbits))
  exact ⟨tmp, henc, hlen⟩

lemma setPosition_zero (h : b.WellFormed) (hend : b.position = b.size) :
    ∃ b', setPosition 0 b = .ok () b' ∧ b'.WellFormed ∧ b'.endian = b.endian ∧
      b'.unread = b.written := by
  obtain ⟨b', hrun, h', hnodes, hpos, hsize, -, hendian⟩ := (setPosition_spec h 0).2 (Nat.zero_le _)
  refine ⟨b', hrun, h', hendian, ?_⟩
  rw [unread, written, hnodes, hpos, hsize, hend, drop_zero, Nat.sub_zero, Nat.max_zero]

/-- Reading a sequence of values back with the matching functions and the same byte order returns
the sequence and leaves nothing unread. -/
theorem numeric_round_trip {baseSize : Nat} (hbase : 1 ≤ baseSize) (fresh : Nat → Byte)
    (littleEndian : Bool) (vs : List Value) (hsize : 10 * vs.length + baseSize < word64) :
    (∃ b₁ b₂ b₃, writeAll p vs ((new baseSize fresh).setIsLittleEndian littleEndian) = .ok () b₁ ∧
      setPosition 0 b₁ = .ok () b₂ ∧
      readAll p (vs.map Sigma.fst) b₂ = .ok vs b₃ ∧
      b₃.getReadSize = 0) ∧
    (∀ v : BitVec 32, ∃ tmp, encodeVarint 5 v = .ok tmp ∧ tmp.length ≤ 5) ∧
    ∀ v : BitVec 64, ∃ tmp, encodeVarint 10 v = .ok tmp ∧ tmp.length ≤ 10 := by
  refine ⟨?_, encodeVarint_fits 5 (by decide) (by decide) (by decide),
    encodeVarint_fits 10 (by decide) (by decide) (by decide)⟩
  let start := (new baseSize fresh).setIsLittleEndian littleEndian
  have hstart : start.WellFormed :=
    (wellFormed_new fresh hbase (by omega)).setIsLittleEndian littleEndian
  obtain ⟨bytes, hlen, hwrite, hread⟩ := exists_code_all p start.endian vs
  have hword : start.position + bytes.length + start.baseSize ≤ word64 := by
    show 0 + bytes.length + baseSize ≤ word64
    omega
  obtain ⟨b₁, hrun₁, h₁, he₁, hend₁, -, hw₁⟩ := hwrite start hstart rfl rfl hword
  obtain ⟨b₂, hrun₂, h₂, he₂, hun₂⟩ := setPosition_zero h₁ hend₁
  have hbytes : b₂.unread = bytes ++ [] := by
    rw [hun₂, hw₁, append_nil]
    rfl
  obtain ⟨b₃, hrun₃, h₃, -, hun₃⟩ := hread b₂ [] h₂ (he₂.trans he₁) hbytes
  refine ⟨b₁, b₂, b₃, hrun₁, hrun₂, hrun₃, ?_⟩
  rw [h₃.getReadSize_eq, ← h₃.length_unread, hun₃, length_nil]

theorem numeric_round_trip_extremes :
    ∃ b₁ b₂ b₃, writeAll ⟨.little, .little⟩
        [⟨.int32, BitVec.intMin 32⟩, ⟨.fint64, BitVec.intMin 64⟩, ⟨.uint64, BitVec.allOnes 64⟩]
        ((new 1 fun _ => 0).setIsLittleEndian false) = .ok () b₁ ∧
      setPosition 0 b₁ = .ok () b₂ ∧
      readAll ⟨.little, .little⟩ [.int32, .fint64, .uint64] b₂ =
        .ok [⟨.int32, BitVec.intMin 32⟩, ⟨.fint64, BitVec.intMin 64⟩,
          ⟨.uint64, BitVec.allOnes 64⟩] b₃ ∧
      b₃.getReadSize = 0 :=
  (numeric_round_trip ⟨.little, .little⟩ (by decide) (fun _ => 0) false
    [⟨.int32, BitVec.intMin 32⟩, ⟨.fint64, BitVec.intMin 64⟩, ⟨.uint64, BitVec.allOnes 64⟩]
    (by decide)).1

end Yuyu.ByteArray
