import Yuyu.ByteArray.Transfer

/-!
# Vectors through a TLS socket

`SSLSocket::recv` and `SSLSocket::send` make one call for each vector, until a vector is not filled
or a call fails. They then return the code of that call, whatever passed before it.
-/

namespace Yuyu.ByteArray

open Foundation List

/-- A vector of the list, and what `SSL_read` or `SSL_write` returns for it. -/
structure Asked where
  size : Nat
  answer : Int

namespace Asked

def Full (v : Asked) : Prop := 0 < v.answer ∧ v.answer = toInt32 v.size

def Fails : List Asked → Prop
  | [] => False
  | v :: vs => v.answer ≤ 0 ∨ v.Full ∧ Fails vs

def FailsLate : List Asked → Prop
  | [] => False
  | v :: vs => v.Full ∧ Fails vs

/-- The bytes that pass: those of the calls up to the first one that does not fill its vector. -/
def carried : List Asked → Nat
  | [] => 0
  | v :: vs => v.answer.toNat + if 0 < v.answer ∧ v.answer = toInt32 v.size then carried vs else 0

/-- A call lets at most its vector pass; its argument is an `int`. -/
def Allowed (vs : List Asked) : Prop := ∀ v ∈ vs, v.answer ≤ toInt32 v.size

end Asked

/-- The loop of `SSLSocket::recv` and `SSLSocket::send`: the returned number, an `int`, and that of
the bytes that passed. -/
def sslLoop : List Asked → Int → Nat → Int × Nat
  | [], total, passed => (total, passed)
  | v :: vs, total, passed =>
    if v.answer ≤ 0 then (v.answer, passed)
    else
      let total := wrap32 (total + v.answer)
      let passed := passed + v.answer.toNat
      if v.answer ≠ toInt32 v.size then (total, passed) else sslLoop vs total passed

def sslVectors (ssl : Bool) (vs : List Asked) : Int × Nat := if ssl then sslLoop vs 0 0 else (-1, 0)

/-- The returned number is that of the bytes that passed, and not positive if there are none. -/
def Truthful (r : Int × Nat) : Prop := (0 < r.2 → r.1 = r.2) ∧ (r.1 ≤ 0 → r.2 = 0)

lemma wrap32_zero : wrap32 (0 : Nat) = 0 := by
  decide

lemma wrap32_natCast_le (n : Nat) : wrap32 n ≤ n := by
  unfold wrap32
  rw [Int.bmod_def]
  omega

lemma wrap32_natCast_eq_iff (n : Nat) : wrap32 n = n ↔ n < 2 ^ 31 := by
  unfold wrap32
  rw [Int.bmod_def]
  omega

section Loop

variable {vs : List Asked}

lemma sslLoop_snd (vs : List Asked) (total : Int) (passed : Nat) :
    (sslLoop vs total passed).2 = passed + Asked.carried vs := by
  fun_induction sslLoop vs total passed with
  | case1 => rfl
  | case2 v vs total passed hfail =>
    simp [Asked.carried, not_lt.mpr hfail, Int.toNat_of_nonpos hfail]
  | case3 v vs total passed hpos total' passed' hpart => simp [Asked.carried, hpart, passed']
  | case4 v vs total passed hpos total' passed' hfull ih =>
    rw [ih, Asked.carried, if_pos ⟨not_le.mp hpos, not_not.mp hfull⟩, Nat.add_assoc]

lemma sslLoop_fst (vs : List Asked) {total : Int} {passed : Nat} (h : total = wrap32 passed) :
    (Asked.Fails vs ∧ (sslLoop vs total passed).1 ≤ 0) ∨
      (¬ Asked.Fails vs ∧ (sslLoop vs total passed).1 = wrap32 (sslLoop vs total passed).2) := by
  induction vs generalizing total passed with
  | nil => exact Or.inr ⟨id, h⟩
  | cons v vs ih =>
    by_cases hfail : v.answer ≤ 0
    · rw [sslLoop, if_pos hfail]
      exact Or.inl ⟨Or.inl hfail, hfail⟩
    have htotal : wrap32 (total + v.answer) = wrap32 ((passed + v.answer.toNat : Nat) : Int) := by
      rw [h, wrap32_wrap32_add, Nat.cast_add, Int.toNat_of_nonneg (by omega)]
    rw [sslLoop, if_neg hfail]
    by_cases hsize : v.answer = toInt32 v.size
    · rw [if_neg (not_not.mpr hsize)]
      have hfails : Asked.Fails (v :: vs) ↔ Asked.Fails vs := by
        simp [Asked.Fails, Asked.Full, ← hsize, not_le.mp hfail]
      rw [hfails]
      exact ih htotal
    rw [if_pos hsize]
    refine Or.inr ⟨?_, htotal⟩
    rintro (hle | hfull)
    · exact hfail hle
    · exact hsize hfull.1.2

lemma sslLoop_snd_of_fails (h : Asked.Fails vs) : Asked.FailsLate vs ↔ 0 < (sslLoop vs 0 0).2 := by
  cases vs with
  | nil => exact h.elim
  | cons v vs =>
    rw [sslLoop]
    rcases h with hfail | ⟨hfull, hfails⟩
    · rw [if_pos hfail]
      simp [Asked.FailsLate, Asked.Full, not_lt.mpr hfail]
    rw [if_neg (not_le.mpr hfull.1), if_neg (not_not.mpr hfull.2)]
    rw [sslLoop_snd]
    have hpos := hfull.1
    exact iff_of_true ⟨hfull, hfails⟩ (by omega)

lemma not_failsLate (h : ¬ Asked.Fails vs) : ¬ Asked.FailsLate vs := by
  cases vs with
  | nil => exact id
  | cons v vs => exact fun hlate => h (Or.inr hlate)

lemma sslLoop_fst_le (vs : List Asked) : (sslLoop vs 0 0).1 ≤ (sslLoop vs 0 0).2 := by
  rcases sslLoop_fst vs wrap32_zero.symm with ⟨-, hle⟩ | ⟨-, heq⟩
  · exact le_trans hle (Int.natCast_nonneg _)
  · exact heq.le.trans (wrap32_natCast_le _)

end Loop

/-- No call fails behind one that did not, and the number of bytes is an `int`. -/
def InStep (ssl : Bool) (vs : List Asked) : Prop :=
  ssl = true → ¬ Asked.FailsLate vs ∧ Asked.carried vs < 2 ^ 31

lemma truthful_iff (ssl : Bool) (vs : List Asked) :
    Truthful (sslVectors ssl vs) ↔ InStep ssl vs := by
  cases ssl with
  | false => simp [Truthful, sslVectors, InStep]
  | true =>
    have hsnd : Asked.carried vs = (sslLoop vs 0 0).2 := by rw [sslLoop_snd, Nat.zero_add]
    simp only [InStep, forall_true_left, sslVectors, if_true, Truthful, hsnd]
    rcases sslLoop_fst vs wrap32_zero.symm with ⟨hfails, hle⟩ | ⟨hfails, heq⟩
    · have hlate := sslLoop_snd_of_fails hfails
      rw [hlate]
      omega
    have hiff := wrap32_natCast_eq_iff (sslLoop vs 0 0).2
    have hlate := not_failsLate hfails
    simp only [hlate, not_false_eq_true, true_and, ← hiff]
    omega

/-! ## The byte array -/

/-- The vectors of a byte array with the answers, by the number of the call. -/
def asked (iovs : List IoVec) (answers : Nat → Int) : List Asked :=
  iovs.mapIdx fun i iov => ⟨iov.len, answers i⟩

def advance (rt : Int) : Action Unit := do
  let b ← get
  if rt > 0 then setPosition (b.position + rt.toNat)

/-- `SocketStream::read(ba, length)` on a TLS socket whose stream is `stream`: the returned number
and the bytes taken. -/
def tlsRead (ssl : Bool) (answers : Nat → Int) (stream : Nat → Byte) (length : Nat) :
    Action (Int × List Byte) := do
  let buffers ← getWriteBuffers length
  let r := sslVectors ssl (asked buffers.2 answers)
  let bytes := (List.range r.2).map stream
  let b ← get
  match scatterAll b.nodes buffers.2 bytes with
  | none => throw .outOfBounds
  | some nodes =>
    set { b with nodes := nodes }
    advance r.1
    return (r.1, bytes)

/-- `SocketStream::write(ba, length)` on a connected TLS socket: the returned number and the bytes
given. -/
def tlsWrite (ssl : Bool) (answers : Nat → Int) (length : Nat) : Action (Int × List Byte) := do
  let buffers ← getReadBuffers length
  let r := sslVectors ssl (asked buffers.2 answers)
  let b ← get
  match gatherAll b.nodes buffers.2 with
  | none => throw .outOfBounds
  | some memory =>
    advance r.1
    return (r.1, memory.take r.2)

lemma sum_len_readBuffersLoop {l : List Node} {i npos n : Nat} {iovs : List IoVec}
    (h : readBuffersLoop l i npos n = .ok iovs) : (iovs.map IoVec.len).sum = n := by
  fun_induction readBuffersLoop l i npos n generalizing iovs with
  | case1 =>
    cases h
    rfl
  | case2 => contradiction
  | case3 =>
    cases h
    rfl
  | case4 node rest i npos n len ncap hfit =>
    rename_i ih
    cases hmore : readBuffersLoop rest (i + 1) 0 (len - ncap) with
    | error e => simp [hmore] at h
    | ok more =>
      simp only [hmore, bind, Except.bind, pure, Except.pure, Except.ok.injEq] at h
      rw [← h, map_cons, sum_cons, ih hmore]
      exact Nat.add_sub_of_le (not_le.mp hfit).le

lemma sum_len_getWriteBuffers {b g : ByteArray} {length n : Nat} {iovs : List IoVec}
    (h : getWriteBuffers length b = .ok (n, iovs) g) : (iovs.map IoVec.len).sum = n := by
  unfold getWriteBuffers at h
  split at h
  · cases h
    rfl
  dsimp only at h
  split at h
  · contradiction
  rename_i hloop
  cases h
  exact sum_len_readBuffersLoop hloop

lemma sum_len_getReadBuffers {b g : ByteArray} {length n : Nat} {iovs : List IoVec}
    (h : getReadBuffers length b = .ok (n, iovs) g) : (iovs.map IoVec.len).sum = n := by
  unfold getReadBuffers at h
  generalize (if length > b.getReadSize then b.getReadSize else length) = len at h
  dsimp only at h
  split at h
  · cases h
    rfl
  split at h
  · contradiction
  rename_i hloop
  cases h
  exact sum_len_readBuffersLoop hloop

lemma sslLoop_le {vs : List Asked} (h : Asked.Allowed vs) (total : Int) (passed : Nat) :
    (sslLoop vs total passed).2 ≤ passed + (vs.map Asked.size).sum := by
  fun_induction sslLoop vs total passed with
  | case1 | case2 => exact Nat.le_add_right ..
  | case3 v vs total passed hpos total' passed' =>
    have hle := (h v (by simp)).trans (toInt32_le v.size)
    simp only [map_cons, sum_cons]
    omega
  | case4 v vs total passed hpos total' passed' hfull ih =>
    have hle := (h v (by simp)).trans (toInt32_le v.size)
    have hrest := ih fun u hu => h u (mem_cons_of_mem v hu)
    simp only [map_cons, sum_cons] at hrest ⊢
    omega

lemma sslVectors_bounds {iovs : List IoVec} {answers : Nat → Int}
    (h : Asked.Allowed (asked iovs answers)) (ssl : Bool) :
    (sslVectors ssl (asked iovs answers)).1 ≤ (sslVectors ssl (asked iovs answers)).2 ∧
      (sslVectors ssl (asked iovs answers)).2 ≤ (iovs.map IoVec.len).sum := by
  cases ssl with
  | false => exact ⟨show (-1 : Int) ≤ 0 by decide, Nat.zero_le _⟩
  | true =>
    have hsizes : (asked iovs answers).map Asked.size = iovs.map IoVec.len := by
      exact ext_getElem (by simp [asked]) fun i _ _ => by simp [asked]
    refine ⟨sslLoop_fst_le _, ?_⟩
    have hle := sslLoop_le h 0 0
    rwa [hsizes, Nat.zero_add] at hle

lemma toNat_eq_iff {r : Int × Nat} (h : r.1 ≤ r.2) : r.1.toNat = r.2 ↔ Truthful r := by
  unfold Truthful
  omega

lemma advance_spec {b : ByteArray} (h : b.WellFormed) (rt : Int)
    (hroom : b.position + rt.toNat ≤ b.capacity) :
    ∃ b', advance rt b = .ok () b' ∧ b'.position = b.position + rt.toNat := by
  by_cases hrt : rt > 0
  · obtain ⟨b', hrun, -, -, hpos, -⟩ := (setPosition_spec h (b.position + rt.toNat)).2 hroom
    refine ⟨b', ?_, hpos⟩
    rw [advance, bind_of_ok (show (get : Action ByteArray) b = .ok b b from rfl), if_pos hrt, hrun]
  refine ⟨b, ?_, by omega⟩
  rw [advance, bind_of_ok (show (get : Action ByteArray) b = .ok b b from rfl), if_neg hrt]
  rfl

section Stream

variable {b : ByteArray} (h : b.WellFormed) {length : Nat} (ssl : Bool) {answers : Nat → Int}
  {iovs : List IoVec} (hanswers : Asked.Allowed (asked iovs answers))

include h hanswers

lemma tlsRead_spec (hlen : length < 2 ^ 53) (hword : b.position + length + b.baseSize ≤ word64)
    (stream : Nat → Byte)
    (hiovs : getWriteBuffers length b = .ok (length, iovs) (b.addCapacity length)) :
    ∃ rt passed b', sslVectors ssl (asked iovs answers) = (rt, passed) ∧
      tlsRead ssl answers stream length b = .ok (rt, (List.range passed).map stream) b' ∧
      (b'.position = b.position + passed ↔ InStep ssl (asked iovs answers)) := by
  obtain ⟨hfst, hsnd⟩ := sslVectors_bounds hanswers ssl
  rw [sum_len_getWriteBuffers hiovs] at hsnd
  rw [← truthful_iff, ← toNat_eq_iff hfst]
  generalize hr : sslVectors ssl (asked iovs answers) = r at *
  have hbytes : ((List.range r.2).map stream).length ≤ length := by simpa using hsnd
  obtain ⟨b₁, hrun₁, h₁, -, hpos₁, -, hcap₁, -⟩ := receive_spec h hbytes hlen hword
  have hroom := room_addCapacity h hlen hword
  obtain ⟨b₂, hrun₂, hpos₂⟩ := advance_spec h₁ r.1 (by omega)
  refine ⟨r.1, r.2, b₂, rfl, ?_, by omega⟩
  rw [tlsRead, bind_of_ok hiovs, bind_of_ok (show (get : Action ByteArray) _ = .ok _ _ from rfl)]
  simp only [receive, hiovs] at hrun₁
  split at hrun₁
  · contradiction
  rename_i nodes hscatter
  cases hrun₁
  rw [hr, hscatter]
  have hset : (set { b.addCapacity length with nodes := nodes } : Action PUnit)
      (b.addCapacity length) = .ok () _ := rfl
  exact (bind_of_ok hset).trans (bind_of_ok hrun₂)

lemma tlsWrite_spec
    (hiovs : getReadBuffers length b = .ok (min length (b.size - b.position), iovs) b)
    (hgather : gatherAll b.nodes iovs =
      some (((contents b.nodes).drop b.position).take (min length (b.size - b.position)))) :
    ∃ rt passed b', sslVectors ssl (asked iovs answers) = (rt, passed) ∧
      tlsWrite ssl answers length b =
        .ok (rt, ((contents b.nodes).drop b.position).take passed) b' ∧
      (b'.position = b.position + passed ↔ InStep ssl (asked iovs answers)) := by
  obtain ⟨hfst, hsnd⟩ := sslVectors_bounds hanswers ssl
  rw [sum_len_getReadBuffers hiovs] at hsnd
  rw [← truthful_iff, ← toNat_eq_iff hfst]
  generalize hr : sslVectors ssl (asked iovs answers) = r at *
  have hle := h.size_le
  have hple := h.position_le
  obtain ⟨b', hrun, hpos⟩ := advance_spec h r.1 (by omega)
  refine ⟨r.1, r.2, b', rfl, ?_, by omega⟩
  rw [tlsWrite, bind_of_ok hiovs, bind_of_ok (show (get : Action ByteArray) _ = .ok _ _ from rfl)]
  rw [hr, hgather]
  refine (bind_of_ok hrun).trans ?_
  rw [take_take, Nat.min_eq_left hsnd]
  rfl

end Stream

/-- The functions return the number of bytes that passed exactly if no call fails behind one that
did not. Only then the cursor of a byte array is behind these bytes. -/
theorem tls_lossless_iff {b : ByteArray} (h : b.WellFormed) {length : Nat} (hlen : length < 2 ^ 53)
    (hword : b.position + length + b.baseSize ≤ word64) (ssl : Bool) (answers : Nat → Int)
    (stream : Nat → Byte) :
    (∀ vs, Truthful (sslVectors ssl vs) ↔ InStep ssl vs) ∧
    (∃ iovs g, getWriteBuffers length b = .ok (length, iovs) g ∧
      (Asked.Allowed (asked iovs answers) →
        ∃ rt passed b', sslVectors ssl (asked iovs answers) = (rt, passed) ∧
          tlsRead ssl answers stream length b = .ok (rt, (List.range passed).map stream) b' ∧
          (b'.position = b.position + passed ↔ InStep ssl (asked iovs answers)))) ∧
    ∃ n iovs, getReadBuffers length b = .ok (n, iovs) b ∧
      (Asked.Allowed (asked iovs answers) →
        ∃ rt passed b', sslVectors ssl (asked iovs answers) = (rt, passed) ∧
          tlsWrite ssl answers length b =
            .ok (rt, ((contents b.nodes).drop b.position).take passed) b' ∧
          (b'.position = b.position + passed ↔ InStep ssl (asked iovs answers))) := by
  obtain ⟨iovs, hwrite⟩ := getWriteBuffers_spec h hlen hword
  obtain ⟨iovs', hread, hgather⟩ := getReadBuffers_spec h length
  refine ⟨truthful_iff ssl, ⟨iovs, _, hwrite, fun hanswers => ?_⟩, _, iovs', hread,
    fun hanswers => ?_⟩
  · exact tlsRead_spec h ssl hanswers hlen hword stream hwrite
  · exact tlsWrite_spec h ssl hanswers hread hgather

theorem tls_lossless_four :
    Truthful (sslVectors true [⟨2, 2⟩, ⟨2, 2⟩]) ∧ (sslVectors true [⟨2, 2⟩, ⟨2, 2⟩]).2 = 4 := by
  have hnew : (new 2 fun _ => 0).WellFormed := wellFormed_new _ (by decide) (by decide)
  have hlen : 4 < 2 ^ 53 := by decide
  have h := (tls_lossless_iff hnew hlen (by decide) true (fun _ => 2) fun _ => 7).1
    [⟨2, 2⟩, ⟨2, 2⟩]
  refine ⟨h.mpr fun _ => ⟨?_, by decide⟩, by decide⟩
  simp [Asked.FailsLate, Asked.Fails]

/-- The first of two calls takes two bytes from the stream and the second one fails: the cursor
stays. -/
theorem tls_bytes_lost :
    ∃ b', tlsRead true (fun i => if i = 0 then 2 else -1) (fun _ => 7) 4
        { new 2 fun _ => 0 with nodes := newNodes 2 2 fun _ => 0, capacity := 4 } =
          .ok (-1, [7, 7]) b' ∧ b'.position = 0 :=
  ⟨_, rfl, rfl⟩

end Yuyu.ByteArray
