import Yuyu.ByteArray.Chain

/-!
# The loops over the chain

On a chain of nodes of equal size each loop of the byte array does to the concatenated contents
what its name says, and passes as many nodes as the range it covers.
-/

namespace Yuyu.ByteArray

open Foundation List

def Uniform (s : Nat) (nodes : List Node) : Prop := ∀ node ∈ nodes, node.size = s

def contents (nodes : List Node) : List Byte := nodes.flatMap Node.ptr

@[simp]
lemma contents_nil : contents [] = [] := rfl

@[simp]
lemma contents_cons (node : Node) (rest : List Node) :
    contents (node :: rest) = node.ptr ++ contents rest := by
  simp [contents]

@[simp]
lemma contents_append (l r : List Node) : contents (l ++ r) = contents l ++ contents r := by
  simp [contents]

variable {s npos len : Nat} {node : Node} {rest l : List Node}

lemma Uniform.head
    (h : Uniform s (node :: rest)) : node.size = s := h node (by simp)

lemma Uniform.tail
    (h : Uniform s (node :: rest)) : Uniform s rest := fun x hx => h x (by simp [hx])

lemma Uniform.cons (hnode : node.size = s) (h : Uniform s rest) : Uniform s (node :: rest) := by
  intro x hx
  rcases mem_cons.mp hx with rfl | hx
  · exact hnode
  · exact h x hx

lemma Uniform.append {r : List Node} (hl : Uniform s l) (hr : Uniform s r) :
    Uniform s (l ++ r) := by
  intro x hx
  rcases mem_append.mp hx with hx | hx
  · exact hl x hx
  · exact hr x hx

lemma Uniform.take (h : Uniform s l) (i : Nat) :
    Uniform s (l.take i) := fun x hx => h x (mem_of_mem_take hx)

lemma Uniform.drop (h : Uniform s l) (i : Nat) :
    Uniform s (l.drop i) := fun x hx => h x (mem_of_mem_drop hx)

lemma Uniform.length_contents (h : Uniform s l) : (contents l).length = l.length * s := by
  induction l with
  | nil => simp
  | cons node rest ih =>
    rw [contents_cons, length_append, ih h.tail, node.length_ptr, h.head, length_cons,
      Nat.add_mul, Nat.one_mul, Nat.add_comm]

lemma Uniform.drop_contents (h : Uniform s l) {i : Nat} (hi : i ≤ l.length) (n : Nat) :
    (contents (l.drop i)).drop n = (contents l).drop (i * s + n) := by
  have hlen : (contents (l.take i)).length = i * s := by
    rw [(h.take i).length_contents, length_take, Nat.min_eq_left hi]
  have hsplit : contents l = contents (l.take i) ++ contents (l.drop i) := by
    rw [← contents_append, take_append_drop]
  rw [hsplit, ← hlen, drop_length_add_append]

lemma store_ok (node : Node) (npos : Nat) (buf : List Byte) (h : npos + buf.length ≤ node.size) :
    ∃ stored : Node, node.store npos buf = .ok stored ∧ stored.size = node.size ∧
      stored.ptr = splice node.ptr npos buf := by
  refine ⟨_, dif_pos h, rfl, rfl⟩

lemma load_ok (node : Node) (npos size : Nat) (h : npos + size ≤ node.size) :
    node.load npos size = .ok ((node.ptr.drop npos).take size) := if_pos h

lemma gather_middle (pre rest : List Node) (node : Node) (npos len : Nat)
    (h : npos + len ≤ node.size) :
    gather (pre ++ node :: rest) ⟨pre.length, npos, len⟩ =
      some ((node.ptr.drop npos).take len) := by
  simp [gather, h]

lemma passed_succ (hs : 0 < s) (hnpos : npos < s) (hlen : s - npos < len) :
    (0 + (len - (s - npos))) / s + 1 = (npos + len) / s := by
  have hsum : npos + len = (len - (s - npos)) + s := by omega
  rw [hsum, Nat.add_div_right _ hs, Nat.zero_add]

lemma room_tail (hnpos : npos < s) (hroom : npos + len ≤ (node :: rest).length * s) :
    0 + (len - (s - npos)) ≤ rest.length * s := by
  rw [length_cons, Nat.succ_mul] at hroom
  omega

lemma Uniform.room_head (h : Uniform s (node :: rest)) (hs64 : s < word64) (hnpos : npos < s) :
    sub64 node.size npos = s - npos := by
  rw [h.head, sub64_eq hs64 hnpos.le]

lemma passed_last (hs : 0 < s) (hlen : npos + len ≤ s) :
    (if s = npos + len then 1 else 0) = (npos + len) / s := by
  split
  · rename_i heq
    rw [← heq, Nat.div_self hs]
  · rw [Nat.div_eq_of_lt (by omega)]

/-! ## The loops -/

section Loops

variable {s : Nat} (hs : 0 < s) (hs64 : s < word64)

include hs hs64

/-- The write loop overwrites a range of the contents. -/
theorem writeLoop_spec (l : List Node) (npos : Nat) (buf : List Byte) (hl : Uniform s l)
    (hnpos : npos < s) (hroom : npos + buf.length ≤ l.length * s) :
    ∃ l', writeLoop l npos buf = .ok (l', (npos + buf.length) / s) ∧
      contents l' = splice (contents l) npos buf ∧ Uniform s l' ∧ l'.length = l.length := by
  induction l generalizing npos buf with
  | nil =>
    obtain ⟨rfl, hbuf⟩ : npos = 0 ∧ buf.length = 0 := by simpa using hroom
    obtain rfl := length_eq_zero_iff.mp hbuf
    exact ⟨[], by simp [writeLoop], by simp, hl, rfl⟩
  | cons node rest ih =>
    cases buf with
    | nil =>
      exact ⟨node :: rest, by simp [writeLoop, Nat.div_eq_of_lt hnpos], by simp, hl, rfl⟩
    | cons c cs =>
      have hsize := hl.head
      have hlen : node.ptr.length = s := node.length_ptr.trans hsize
      have hncap := hl.room_head hs64 hnpos
      by_cases hfit : (c :: cs).length ≤ s - npos
      · obtain ⟨stored, hstore, hssize, hsptr⟩ :=
          store_ok node npos (c :: cs) (by omega)
        refine ⟨stored :: rest, ?_, ?_, hl.tail.cons (hssize.trans hsize), rfl⟩
        · rw [← passed_last hs (by omega : npos + (c :: cs).length ≤ s), ← hsize]
          simp only [writeLoop, hncap, ge_iff_le, hfit, if_true, hstore]
          rfl
        · rw [contents_cons, contents_cons, hsptr, splice_append_left (by omega)]
      obtain ⟨stored, hstore, hssize, hsptr⟩ :=
        store_ok node npos ((c :: cs).take (s - npos)) (by rw [length_take]; omega)
      have hdrop : ((c :: cs).drop (s - npos)).length = (c :: cs).length - (s - npos) := length_drop
      obtain ⟨rest', hloop, hcont, huni, hlen'⟩ :=
        ih 0 ((c :: cs).drop (s - npos)) hl.tail hs (by
          rw [hdrop]
          exact room_tail hnpos hroom)
      refine ⟨stored :: rest', ?_, ?_, huni.cons (hssize.trans hsize), by simp [hlen']⟩
      · rw [← passed_succ hs hnpos (by omega : s - npos < (c :: cs).length), ← hdrop]
        simp only [writeLoop, hncap, ge_iff_le, hfit, if_false, hstore]
        simp only [bind, Except.bind, hloop]
        rfl
      · rw [contents_cons, contents_cons, hsptr, hcont,
          splice_append_across (by omega) (by omega), hlen]

/-- The read loop copies a range of the contents. -/
theorem readLoop_spec (l : List Node) (npos size : Nat) (hl : Uniform s l)
    (hnpos : npos < s) (hroom : npos + size ≤ l.length * s) :
    readLoop l npos size = .ok (((contents l).drop npos).take size, (npos + size) / s) := by
  induction l generalizing npos size with
  | nil =>
    obtain ⟨rfl, rfl⟩ : npos = 0 ∧ size = 0 := by simpa using hroom
    simp [readLoop]
  | cons node rest ih =>
    cases size with
    | zero => simp [readLoop, Nat.div_eq_of_lt hnpos]
    | succ n =>
      have hsize := hl.head
      have hlen : node.ptr.length = s := node.length_ptr.trans hsize
      have hncap := hl.room_head hs64 hnpos
      have hdrop : (contents (node :: rest)).drop npos = node.ptr.drop npos ++ contents rest := by
        rw [contents_cons, drop_append_of_le_length (by omega)]
      by_cases hfit : n + 1 ≤ s - npos
      · rw [← passed_last hs (by omega : npos + (n + 1) ≤ s), ← hsize, hdrop,
          take_append_of_le_length (by rw [length_drop]; omega)]
        simp only [readLoop, hncap, ge_iff_le, hfit, if_true, load_ok node npos (n + 1) (by omega)]
        rfl
      rw [← passed_succ hs hnpos (by omega : s - npos < n + 1), hdrop, take_append,
        take_of_length_le (by rw [length_drop]; omega), length_drop, hlen]
      simp only [readLoop, hncap, ge_iff_le, hfit, if_false,
        load_ok node npos (s - npos) (by omega)]
      simp only [bind, Except.bind]
      rw [ih 0 (n + 1 - (s - npos)) hl.tail hs (room_tail hnpos hroom)]
      simp [pure, Except.pure, take_of_length_le, hlen]

/-- The vectors built cover a range of the contents. -/
theorem readBuffersLoop_spec (pre l : List Node) (npos len : Nat) (hl : Uniform s l)
    (hnpos : npos < s) (hroom : npos + len ≤ l.length * s) :
    ∃ iovs, readBuffersLoop l pre.length npos len = .ok iovs ∧
      gatherAll (pre ++ l) iovs = some (((contents l).drop npos).take len) := by
  induction l generalizing pre npos len with
  | nil =>
    obtain ⟨rfl, rfl⟩ : npos = 0 ∧ len = 0 := by simpa using hroom
    exact ⟨[], by simp [readBuffersLoop], by simp [gatherAll]⟩
  | cons node rest ih =>
    cases len with
    | zero => exact ⟨[], by simp [readBuffersLoop], by simp [gatherAll]⟩
    | succ n =>
      have hsize := hl.head
      have hlen : node.ptr.length = s := node.length_ptr.trans hsize
      have hncap := hl.room_head hs64 hnpos
      have hdrop : (contents (node :: rest)).drop npos = node.ptr.drop npos ++ contents rest := by
        rw [contents_cons, drop_append_of_le_length (by omega)]
      by_cases hfit : n + 1 ≤ s - npos
      · refine ⟨[⟨pre.length, npos, n + 1⟩], ?_, ?_⟩
        · simp only [readBuffersLoop, hncap, ge_iff_le, hfit, if_true]
          rfl
        · rw [hdrop, take_append_of_le_length (by rw [length_drop]; omega)]
          simp [gatherAll, gather_middle pre rest node npos (n + 1) (by omega)]
      obtain ⟨iovs, hloop, hgather⟩ :=
        ih (pre ++ [node]) 0 (n + 1 - (s - npos)) hl.tail hs (room_tail hnpos hroom)
      simp only [length_append, length_singleton] at hloop
      simp only [append_assoc, singleton_append] at hgather
      refine ⟨⟨pre.length, npos, s - npos⟩ :: iovs, ?_, ?_⟩
      · simp only [readBuffersLoop, hncap, ge_iff_le, hfit, if_false, bind, Except.bind, hloop]
        rfl
      rw [hdrop, take_append, take_of_length_le (by rw [length_drop]; omega), length_drop, hlen]
      simp [gatherAll, gather_middle pre rest node npos (s - npos) (by omega), hgather,
        take_of_length_le, hlen]

lemma readLoop_off_end (l : List Node) (npos size : Nat) (hl : Uniform s l)
    (hnpos : npos < s) (hsize : 0 < size) (hshort : l.length * s < npos + size) :
    readLoop l npos size = .error .nullDereference := by
  induction l generalizing npos size with
  | nil =>
    obtain ⟨n, rfl⟩ := Nat.exists_eq_add_one.mpr hsize
    rfl
  | cons node rest ih =>
    obtain ⟨n, rfl⟩ := Nat.exists_eq_add_one.mpr hsize
    have hncap := hl.room_head hs64 hnpos
    rw [length_cons, Nat.succ_mul] at hshort
    have hfit : ¬ n + 1 ≤ s - npos := by omega
    have hnode := hl.head
    simp only [readLoop, hncap, ge_iff_le, hfit, if_false, load_ok node npos (s - npos) (by omega)]
    simp only [bind, Except.bind]
    rw [ih 0 (n + 1 - (s - npos)) hl.tail hs (by omega) (by omega)]

lemma readBuffersLoop_off_end (l : List Node) (i npos len : Nat) (hl : Uniform s l)
    (hnpos : npos < s) (hlen : 0 < len) (hshort : l.length * s < npos + len) :
    readBuffersLoop l i npos len = .error .nullDereference := by
  induction l generalizing i npos len with
  | nil =>
    obtain ⟨n, rfl⟩ := Nat.exists_eq_add_one.mpr hlen
    rfl
  | cons node rest ih =>
    obtain ⟨n, rfl⟩ := Nat.exists_eq_add_one.mpr hlen
    have hncap := hl.room_head hs64 hnpos
    rw [length_cons, Nat.succ_mul] at hshort
    have hfit : ¬ n + 1 ≤ s - npos := by omega
    simp only [readBuffersLoop, hncap, ge_iff_le, hfit, if_false, bind, Except.bind]
    rw [ih (i + 1) 0 (n + 1 - (s - npos)) hl.tail hs (by omega) (by omega)]

omit hs in
lemma readBuffersLoop_cases {node : Node} {rest : List Node} {i npos m : Nat}
    {iovs : List IoVec} (hl : Uniform s (node :: rest)) (hnpos : npos < s)
    (h : readBuffersLoop (node :: rest) i npos (m + 1) = .ok iovs) :
    ∃ width more, iovs = ⟨i, npos, width⟩ :: more ∧
      (m + 1 ≤ s - npos ∧ width = m + 1 ∨
        s - npos < m + 1 ∧ width = s - npos ∧
          readBuffersLoop rest (i + 1) 0 (m + 1 - (s - npos)) = .ok more) := by
  have hncap := hl.room_head hs64 hnpos
  simp only [readBuffersLoop, hncap] at h
  by_cases hall : s - npos ≥ m + 1
  · rw [if_pos hall] at h
    exact ⟨m + 1, [], (Except.ok.inj h).symm, .inl ⟨hall, rfl⟩⟩
  rw [if_neg hall] at h
  cases hmore : readBuffersLoop rest (i + 1) 0 (m + 1 - (s - npos)) with
  | error e => simp [hmore, bind, Except.bind] at h
  | ok more =>
    simp only [hmore, bind, Except.bind, pure, Except.pure] at h
    exact ⟨s - npos, more, (Except.ok.inj h).symm, .inr ⟨by omega, rfl, rfl⟩⟩

/-- Storing through the vectors is a write. -/
theorem scatterAll_eq_writeLoop (pre l : List Node) (npos len : Nat) (buf : List Byte)
    (hl : Uniform s l) (hnpos : npos < s) (hroom : npos + len ≤ l.length * s)
    (hbuf : buf.length ≤ len) {iovs : List IoVec}
    (hiovs : readBuffersLoop l pre.length npos len = .ok iovs) :
    ∃ l' n, writeLoop l npos buf = .ok (l', n) ∧
      scatterAll (pre ++ l) iovs buf = some (pre ++ l') := by
  induction l generalizing pre npos len buf iovs with
  | nil =>
    obtain ⟨rfl, rfl⟩ : npos = 0 ∧ len = 0 := by simpa using hroom
    obtain rfl := length_eq_zero_iff.mp (Nat.le_zero.mp hbuf)
    exact ⟨[], 0, by simp [writeLoop], by simp [scatterAll]⟩
  | cons node rest ih =>
    cases buf with
    | nil => exact ⟨node :: rest, 0, by simp [writeLoop], by simp [scatterAll]⟩
    | cons c cs =>
      have hsize := hl.head
      have hncap := hl.room_head hs64 hnpos
      have hset : ∀ stored : Node,
          (pre ++ node :: rest).set pre.length stored = pre ++ stored :: rest := by
        intro stored
        simp
      obtain ⟨m, rfl⟩ : ∃ m, len = m + 1 :=
        Nat.exists_eq_add_one.mpr (lt_of_lt_of_le (by simp) hbuf)
      obtain ⟨width, more, rfl, hwidth⟩ := readBuffersLoop_cases hs64 hl hnpos hiovs
      by_cases hfit : (c :: cs).length ≤ s - npos
      · have hle : (c :: cs).length ≤ width := by
          rcases hwidth with ⟨-, rfl⟩ | ⟨-, rfl, -⟩
          · exact hbuf
          · exact hfit
        obtain ⟨stored, hstore, -, -⟩ := store_ok node npos (c :: cs) (by omega)
        refine ⟨stored :: rest, if node.size = npos + (c :: cs).length then 1 else 0, ?_, ?_⟩
        · simp only [writeLoop, hncap, ge_iff_le, hfit, if_true, hstore]
          rfl
        simp only [scatterAll, take_of_length_le hle, drop_of_length_le hle,
          List.getElem?_append_right le_rfl, Nat.sub_self, List.getElem?_cons_zero, hstore,
          Option.bind_eq_bind, Option.bind_some, Except.toOption, hset]
      obtain ⟨hall, rfl⟩ | ⟨hmore, rfl, hloop⟩ := hwidth
      · exact absurd (hbuf.trans hall) hfit
      obtain ⟨stored, hstore, hssize, -⟩ :=
        store_ok node npos ((c :: cs).take (s - npos)) (by rw [length_take]; omega)
      have hlen : (pre ++ [stored]).length = pre.length + 1 := by simp
      obtain ⟨rest', n, hwrite, hscatter⟩ :=
        ih (pre ++ [stored]) 0 (m + 1 - (s - npos)) ((c :: cs).drop (s - npos)) hl.tail hs
          (room_tail hnpos hroom) (by rw [length_drop]; omega) (hlen ▸ hloop)
      simp only [append_assoc, singleton_append] at hscatter
      refine ⟨stored :: rest', n + 1, ?_, ?_⟩
      · simp only [writeLoop, hncap, ge_iff_le, hfit, if_false, hstore]
        simp only [bind, Except.bind, hwrite]
        rfl
      simp only [scatterAll, List.getElem?_append_right le_rfl, Nat.sub_self,
        List.getElem?_cons_zero, hstore, Option.bind_eq_bind, Option.bind_some,
        Except.toOption, hset]
      exact hscatter

omit hs64 in
/-- The walk stops at the node of the position. -/
theorem seek_spec (l : List Node) (v : Nat) (hl : Uniform s l) (hne : l ≠ [])
    (hroom : v ≤ l.length * s) : seek l v = .ok (v / s) := by
  induction l generalizing v with
  | nil => contradiction
  | cons node rest ih =>
    have hsize := hl.head
    rw [length_cons, Nat.succ_mul] at hroom
    simp only [seek, hsize]
    split
    · rename_i hgt
      have hrest : rest ≠ [] := by
        rintro rfl
        simp only [length_nil, Nat.zero_mul] at hroom
        omega
      have hdiv : v / s = (v - s) / s + 1 := by
        rw [← Nat.add_div_right _ hs, Nat.sub_add_cancel hgt.le]
      rw [ih (v - s) hl.tail hrest (by omega), hdiv]
      rfl
    split
    · rename_i heq
      rw [heq, Nat.div_self hs]
    · rw [Nat.div_eq_of_lt (by omega)]

end Loops

end Yuyu.ByteArray
