import Yuyu.ByteArray.Reads

/-!
# The byte arrays a program can reach

The calls that change a byte array.  A call that throws leaves the array in the state it reached;
a memory error ends the program.
-/

namespace Yuyu.ByteArray

open Foundation List

variable {b b' : ByteArray} {baseSize : Nat}

/-- Bytes received through vectors replace those from the position on, and the cursor stays. -/
theorem receive_spec (h : b.WellFormed) {len : Nat} {buf : List Byte}
    (hbuf : buf.length ≤ len) (hlen : len < 2 ^ 53)
    (hword : b.position + len + b.baseSize ≤ word64) :
    ∃ b', receive len buf b = .ok () b' ∧ b'.WellFormed ∧
      contents b'.nodes = splice (contents (b.addCapacity len).nodes) b.position buf ∧
      b'.position = b.position ∧ b'.size = b.size ∧
      b'.capacity = (b.addCapacity len).capacity ∧ b'.baseSize = b.baseSize ∧
      b'.endian = b.endian := by
  by_cases hzero : len = 0
  · subst hzero
    obtain rfl := length_eq_zero_iff.mp (Nat.le_zero.mp hbuf)
    have hgrown : b.addCapacity 0 = b := if_pos rfl
    have hrun : receive 0 [] b = .ok () b := by
      simp only [receive, getWriteBuffers, if_true, scatterAll]
    rw [hgrown]
    exact ⟨b, hrun, h, by rw [splice_nil], rfl, rfl, rfl, rfl, rfl⟩
  obtain ⟨hwf, hpos, hsize, hbase, hendian, hcap, -⟩ := addCapacity_spec h hlen hword
  have hroom : (b.addCapacity len).position + len ≤ (b.addCapacity len).capacity := by
    rw [hpos, hcap]
    exact (growth_bounds b.baseSize b.capacity b.position len h.base_pos).1
  generalize hgrown : b.addCapacity len = g at *
  obtain ⟨iovs, hiovs, -⟩ := hwf.readBuffersLoop_fromCur hroom
  obtain ⟨l, n, hloop, hscatter⟩ := scatterAll_eq_writeLoop hwf.base_pos hwf.base_lt
    (g.nodes.take g.curIndex) g.fromCur (g.position % g.baseSize) len buf (hwf.uniform.drop _)
    (Nat.mod_lt _ hwf.base_pos) (hwf.room_fromCur hroom) hbuf (hwf.length_take_cur.symm ▸ hiovs)
  obtain ⟨l', hloop', hcont, huni, hlength⟩ := hwf.writeLoop_fromCur buf (by omega)
  obtain rfl : l = l' := by
    rw [hloop] at hloop'
    exact congrArg Prod.fst (Except.ok.inj hloop')
  rw [fromCur, take_append_drop] at hscatter
  refine ⟨{ g with nodes := g.nodes.take g.curIndex ++ l }, ?_, ?_, hpos ▸ hcont, hpos, hsize,
    rfl, hbase, hendian⟩
  · simp only [receive, getWriteBuffers, hzero, if_false, hgrown, hiovs, hscatter]
  refine hwf.move rfl rfl hlength huni hwf.position_le hwf.size_le ?_
  show g.cur = g.nodeAt (g.position / g.baseSize)
  rw [hwf.nodeAt_div hwf.position_le_capacity, hwf.cur_eq]

/-- The calls that change a byte array.  `recvmsg` stores no more bytes than there
is room for. -/
inductive Call where
  | write (buf : List Byte)
  | writeValue (v : Value)
  | writeString (f : StringFormat) (value : List Byte)
  | read (size : Nat)
  | readValue (k : Kind)
  | readString (f : StringFormat)
  | setPosition (v : Nat)
  | clear
  | setIsLittleEndian (val : Bool)
  | receive (len : Nat) (buf : List Byte) (le : buf.length ≤ len)
  | readFromFile (data : List Byte)

def Call.run (p : Platform) : Call → Action Unit
  | .write buf => ByteArray.write buf
  | .writeValue v => ByteArray.writeValue p v.1 v.2
  | .writeString f value => ByteArray.writeString p f value
  | .read size => do let _ ← ByteArray.read size
  | .readValue k => do let _ ← ByteArray.readValue p k
  | .readString f => do let _ ← ByteArray.readString p f
  | .setPosition v => ByteArray.setPosition v
  | .clear => ByteArray.clear
  | .setIsLittleEndian val => modify fun b => b.setIsLittleEndian val
  | .receive len buf _ => ByteArray.receive len buf
  | .readFromFile data => ByteArray.readFromFile data

def after {α : Type} : EStateM.Result Failure ByteArray α → Option ByteArray
  | .ok _ b => some b
  | .error e b => if e.isException then some b else none

def addressSpace : Nat := 2 ^ 63

/-- The number of bytes a call may add behind the position; none for the calls that
add nothing. -/
def Call.room : Call → Option Nat
  | .write buf => some buf.length
  | .writeValue _ => some 10
  | .writeString _ value => some (10 + value.length)
  | .receive len _ _ => some len
  | .readFromFile data => some data.length
  | _ => none

/-- A call adds less than `2^53` bytes, inside the address space. -/
def Call.Fits (b : ByteArray) (c : Call) : Prop :=
  ∀ n ∈ c.room, n < 2 ^ 53 ∧ b.position + n + b.baseSize ≤ addressSpace

instance (b : ByteArray) (c : Call) : Decidable (c.Fits b) :=
  match h : c.room with
  | none => .isTrue fun n hn => by simp [h] at hn
  | some n =>
    decidable_of_iff (n < 2 ^ 53 ∧ b.position + n + b.baseSize ≤ addressSpace)
      (by simp [Call.Fits, h])

def callSystem (p : Platform) (baseSize : Nat) : TransitionSystem ByteArray Call where
  init b := ∃ fresh, b = new baseSize fresh
  step b c := after (c.run p b)

/-! ## The invariant along calls -/

structure InMemory (baseSize : Nat) (b : ByteArray) : Prop where
  wf : b.WellFormed
  base_eq : b.baseSize = baseSize
  capacity_lt : b.capacity < addressSpace

/-- The action adds at most `n` bytes and keeps the invariant. -/
def Writes (baseSize n : Nat) (act : Action Unit) : Prop :=
  ∀ b : ByteArray, InMemory baseSize b → n < 2 ^ 53 →
    b.position + n + baseSize ≤ addressSpace →
    ∃ b', act b = .ok () b' ∧ InMemory baseSize b' ∧ b'.position ≤ b.position + n

lemma InMemory.of_nodes (h : InMemory baseSize b)
    (hwf : b'.WellFormed) (hnodes : b'.nodes = b.nodes) (hbase : b'.baseSize = b.baseSize) :
    InMemory baseSize b' := by
  refine ⟨hwf, hbase.trans h.base_eq, ?_⟩
  rw [hwf.capacity_eq, hnodes, hbase, ← h.wf.capacity_eq]
  exact h.capacity_lt

lemma InMemory.of_moved (h : InMemory baseSize b)
    (hmoved : Moved b b') : InMemory baseSize b' :=
  h.of_nodes hmoved.wf hmoved.nodes_eq hmoved.base_eq

lemma eq_final_of_after {α : Type} {r : EStateM.Result Failure ByteArray α}
    (h : after r = some b') : b' = final r := by
  cases r with
  | ok a b => exact (Option.some.inj h).symm
  | error e b =>
    simp only [after, Option.ite_none_right_eq_some, Option.some.injEq] at h
    exact h.2.symm

section Closure

variable {baseSize : Nat} (p : Platform)

variable {n : Nat} {b b' : ByteArray}

lemma Writes.seq {m : Nat} {x y : Action Unit} (hx : Writes baseSize n x)
    (hy : Writes baseSize m y) : Writes baseSize (n + m) (do x; y) := by
  intro b h hlen hroom
  obtain ⟨b₁, hrun₁, h₁, hpos₁⟩ := hx b h (by omega) (by omega)
  obtain ⟨b₂, hrun₂, h₂, hpos₂⟩ := hy b₁ h₁ (by omega) (by omega)
  exact ⟨b₂, (bind_of_ok hrun₁).trans hrun₂, h₂, by omega⟩

lemma InMemory.addCapacity_lt (h : InMemory baseSize b)
    (hlen : n < 2 ^ 53) (hroom : b.position + n + baseSize ≤ addressSpace) :
    b.position + n + b.baseSize ≤ word64 ∧ (b.addCapacity n).capacity < addressSpace := by
  have hbase := h.base_eq
  have hword : b.position + n + b.baseSize ≤ word64 := by
    unfold word64
    unfold addressSpace at hroom
    omega
  obtain ⟨-, -, -, -, -, hcap, -⟩ := addCapacity_spec h.wf hlen hword
  refine ⟨hword, ?_⟩
  rw [hcap]
  rcases (growth_bounds b.baseSize b.capacity b.position n h.wf.base_pos).2 with hfits | hless
  · have hzero : growth b.baseSize b.capacity b.position n = 0 := if_pos hfits
    rw [hzero]
    exact h.capacity_lt
  · omega

lemma receive_writes {len : Nat} {buf : List Byte} (hbuf : buf.length ≤ len) :
    Writes baseSize len (receive len buf) := by
  intro b h hlen hroom
  obtain ⟨hword, hcap⟩ := h.addCapacity_lt hlen hroom
  obtain ⟨b', hrun, hwf, -, hpos, -, hcap', hbase, -⟩ := receive_spec h.wf hbuf hlen hword
  exact ⟨b', hrun, ⟨hwf, hbase.trans h.base_eq, hcap' ▸ hcap⟩, by omega⟩

lemma write_writes (buf : List Byte) : Writes baseSize buf.length (write buf) := by
  intro b h hlen hroom
  obtain ⟨hword, hcap⟩ := h.addCapacity_lt hlen hroom
  obtain ⟨-, -, -, -, -, hgrown, -⟩ := addCapacity_spec h.wf hlen hword
  obtain ⟨b', ext, hrun, hwf, hext, hcont, hpos, -, hbase, -⟩ := write_spec h.wf hlen hword
  have hlength : b'.capacity = (b.addCapacity buf.length).capacity := by
    have hle := (growth_bounds b.baseSize b.capacity b.position buf.length h.wf.base_pos).1
    rw [← hwf.length_contents, hcont, length_splice, length_append, h.wf.length_contents,
      hext, hgrown]
    rw [length_append, h.wf.length_contents, hext]
    exact hle
  exact ⟨b', hrun, ⟨hwf, hbase.trans h.base_eq, hlength ▸ hcap⟩, hpos.le⟩

lemma Writes.of_writesAs {act : Action Unit}
    (h : ∀ e, ∃ bytes, bytes.length ≤ n ∧ WritesAs e act bytes) : Writes baseSize n act := by
  intro b hb hlen hroom
  obtain ⟨bytes, hle, hwrites⟩ := h b.endian
  obtain ⟨b', hrun, hb', hpos⟩ := write_writes bytes b hb (by omega) (by omega)
  exact ⟨b', (hwrites b rfl).trans hrun, hb', by omega⟩

lemma writeValue_writes (k : Kind) (v : BitVec k.width) :
    Writes baseSize 10 (writeValue p k v) := by
  refine Writes.of_writesAs fun e => ?_
  obtain ⟨bytes, hcode⟩ := exists_value_code p e k v
  exact ⟨bytes, hcode.length_le, hcode.writes⟩

lemma writeString_writes (f : StringFormat) (value : List Byte) :
    Writes baseSize (10 + value.length) (writeString p f value) := by
  cases f with
  | f16 => exact (writeValue_writes p .fuint16 _).seq (write_writes value)
  | f32 => exact (writeValue_writes p .fuint32 _).seq (write_writes value)
  | f64 => exact (writeValue_writes p .fuint64 _).seq (write_writes value)
  | vint => exact (writeValue_writes p .uint64 _).seq (write_writes value)

lemma readFromFileLoop_writes (fuel : Nat) (data : List Byte) :
    Writes baseSize data.length (readFromFileLoop fuel data) := by
  induction fuel generalizing data with
  | zero => exact fun b h _ _ => ⟨b, rfl, h, by omega⟩
  | succ fuel ih =>
    intro b h hlen hroom
    rw [readFromFileLoop, bind_of_ok (show (get : Action ByteArray) b = .ok b b from rfl)]
    have htake : (data.take b.baseSize).length ≤ data.length := length_take_le' ..
    obtain ⟨b₁, hrun₁, h₁, hpos₁⟩ := write_writes (data.take b.baseSize) b h (by omega) (by omega)
    rw [bind_of_ok hrun₁]
    split
    · exact ⟨b₁, rfl, h₁, by omega⟩
    rw [length_take] at hpos₁
    have hdrop : (data.drop b.baseSize).length = data.length - b.baseSize := length_drop
    obtain ⟨b₂, hrun₂, h₂, hpos₂⟩ := ih (data.drop b.baseSize) b₁ h₁ (by omega) (by omega)
    exact ⟨b₂, hrun₂, h₂, by omega⟩

lemma Writes.inMemory_after {act : Action Unit} (h : Writes baseSize n act)
    (hb : InMemory baseSize b) (hfits : n < 2 ^ 53 ∧ b.position + n + b.baseSize ≤ addressSpace)
    (hafter : after (act b) = some b') : InMemory baseSize b' := by
  obtain ⟨b₁, hrun, hb₁, -⟩ := h b hb hfits.1 (hb.base_eq ▸ hfits.2)
  rw [hrun] at hafter
  obtain rfl := Option.some.inj hafter
  exact hb₁

lemma OnlyMoves.inMemory_after {α : Type} {act : Action α} (h : OnlyMoves act)
    (hb : InMemory baseSize b)
    (hafter : after ((do let _ ← act : Action Unit) b) = some b') : InMemory baseSize b' := by
  rw [eq_final_of_after hafter]
  exact hb.of_moved (h.bind (fun _ => OnlyMoves.pure ()) b hb.wf)

lemma setPosition_inMemory_after {v : Nat} (hb : InMemory baseSize b)
    (hafter : after (setPosition v b) = some b') : InMemory baseSize b' := by
  obtain ⟨hbeyond, hin⟩ := setPosition_spec hb.wf v
  rw [eq_final_of_after hafter]
  by_cases hlt : b.capacity < v
  · rw [hbeyond hlt]
    exact hb
  obtain ⟨b₁, hrun, hwf, hnodes, -, -, hbase, -⟩ := hin (by omega)
  rw [hrun]
  exact hb.of_nodes hwf hnodes hbase

lemma clear_inMemory_after (hb : InMemory baseSize b)
    (hafter : after (clear b) = some b') : InMemory baseSize b' := by
  obtain ⟨b₁, hrun, hwf, hcont, -, -, hbase, -⟩ := clear_spec hb.wf
  rw [eq_final_of_after hafter, hrun]
  refine ⟨hwf, hbase.trans hb.base_eq, ?_⟩
  have hle : b₁.capacity ≤ b.capacity := by
    rw [← hwf.length_contents, hcont, ← hb.wf.length_contents]
    exact length_take_le' ..
  exact lt_of_le_of_lt hle hb.capacity_lt

end Closure

/-- The invariant of the chain holds in every state that calls reach. -/
theorem inMemory_of_reachable {p : Platform} (hpos : 1 ≤ baseSize) (hlt : baseSize < addressSpace)
    (h : (callSystem p baseSize).ReachableWith Call.Fits b) : InMemory baseSize b := by
  refine TransitionSystem.ReachableWith.invariant (I := InMemory baseSize) ?_ ?_ h
  · rintro b ⟨fresh, rfl⟩
    exact ⟨wellFormed_new fresh hpos (hlt.trans (by decide)), rfl, hlt⟩
  intro b c b' hb hfits hstep
  have hrun : after (c.run p b) = some b' := hstep
  cases c with
  | write buf => exact (write_writes buf).inMemory_after hb (hfits _ rfl) hrun
  | writeValue v => exact (writeValue_writes p v.1 v.2).inMemory_after hb (hfits _ rfl) hrun
  | writeString f value =>
    exact (writeString_writes p f value).inMemory_after hb (hfits _ rfl) hrun
  | read size => exact (read_onlyMoves size).inMemory_after hb hrun
  | readValue k => exact (readValue_onlyMoves p k).inMemory_after hb hrun
  | readString f => exact (readString_onlyMoves p f).inMemory_after hb hrun
  | setPosition v => exact setPosition_inMemory_after hb hrun
  | clear => exact clear_inMemory_after hb hrun
  | setIsLittleEndian val =>
    obtain rfl := Option.some.inj hrun
    exact ⟨hb.wf.setIsLittleEndian val, hb.base_eq, hb.capacity_lt⟩
  | receive len buf hle => exact (receive_writes hle).inMemory_after hb (hfits _ rfl) hrun
  | readFromFile data =>
    exact (readFromFileLoop_writes _ data).inMemory_after hb (hfits _ rfl) hrun

lemma exists_written (p : Platform) (baseSize : Nat) (buf : List Byte) (hpos : 1 ≤ baseSize)
    (hlt : baseSize < addressSpace) (hlen : buf.length < 2 ^ 53)
    (hroom : buf.length + baseSize ≤ addressSpace) :
    ∃ b, (callSystem p baseSize).ReachableWith Call.Fits b ∧ InMemory baseSize b ∧
      b.position = buf.length ∧ b.size = buf.length ∧ b.written = buf ∧
      b.capacity = baseSize + growth baseSize baseSize 0 buf.length := by
  let start := new baseSize fun _ => 0
  have hword : baseSize < word64 := hlt.trans (by decide)
  have hstart : start.WellFormed := wellFormed_new _ hpos hword
  have hfits : start.position + buf.length + start.baseSize ≤ addressSpace := by
    show 0 + buf.length + baseSize ≤ addressSpace
    omega
  obtain ⟨b, ext, hrun, hwf, hext, hcont, hposition, hsize, hbase, -⟩ :=
    write_spec hstart hlen (hfits.trans (by decide))
  have hreach : (callSystem p baseSize).ReachableWith Call.Fits b := by
    have hinit : (callSystem p baseSize).ReachableWith Call.Fits start := .init ⟨_, rfl⟩
    refine hinit.step (a := .write buf) ?_ ?_
    · rintro n ⟨⟩
      exact ⟨hlen, hfits⟩
    show after (write buf start) = some b
    rw [hrun]
    rfl
  have hzero : start.position + buf.length = buf.length := Nat.zero_add _
  have hcapacity : start.capacity = baseSize := rfl
  rw [hzero] at hposition hsize
  have hle := (growth_bounds baseSize baseSize 0 buf.length hpos).1
  refine ⟨b, hreach, inMemory_of_reachable hpos hlt hreach, hposition, hsize.trans ?_, ?_, ?_⟩
  · exact Nat.max_eq_right (Nat.zero_le _)
  · have htake : (splice (contents start.nodes ++ ext) 0 buf).take (0 + buf.length) =
        (contents start.nodes ++ ext).take 0 ++ buf := take_splice (Nat.zero_le _)
    rw [Nat.zero_add] at htake
    rw [written, hposition, hcont]
    exact htake
  rw [← hwf.length_contents, hcont, length_splice, length_append, hstart.length_contents, hext]
  · rfl
  · rw [length_append, hstart.length_contents, hext, hzero, hcapacity]
    exact hle.trans' (by omega)

end Yuyu.ByteArray
