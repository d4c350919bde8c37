import Yuyu.ByteArray.Calls

/-!
# Round trip of strings

The read of a string dereferences the node of the cursor even when there are no bytes to read.
-/

namespace Yuyu.ByteArray

open Foundation List

variable {p : Platform} {baseSize : Nat} {e : Endian}

/-- With byte order `e`, the action writes `bytes` at the position, and the capacity grows no more
than needed. -/
def Places (baseSize : Nat) (e : Endian) (act : Action Unit) (bytes : List Byte) : Prop :=
  ∀ b : ByteArray, InMemory baseSize b → b.endian = e →
    b.position + bytes.length + baseSize ≤ addressSpace →
    ∃ b' ext, act b = .ok () b' ∧ InMemory baseSize b' ∧ b'.endian = e ∧
      b'.position = b.position + bytes.length ∧
      b'.size = max b.size (b.position + bytes.length) ∧
      b.position + bytes.length ≤ (contents b.nodes ++ ext).length ∧
      (ext = [] ∨ (contents b.nodes ++ ext).length < b.position + bytes.length + baseSize) ∧
      contents b'.nodes = splice (contents b.nodes ++ ext) b.position bytes

lemma Places.nil : Places baseSize e (return ()) [] := by
  intro b h he _
  have hle := h.wf.position_le
  have hcap := h.wf.position_le_capacity
  refine ⟨b, [], rfl, h, he, rfl, ?_, ?_, Or.inl rfl, by simp⟩
  · simp [hle]
  · simpa [h.wf.length_contents] using hcap

lemma Places.seq {x y : Action Unit} {xs ys : List Byte} (hx : Places baseSize e x xs)
    (hy : Places baseSize e y ys) : Places baseSize e (do x; y) (xs ++ ys) := by
  intro b h he hroom
  rw [length_append] at hroom
  obtain ⟨b₁, ext₁, hrun₁, h₁, he₁, hpos₁, hsize₁, hin₁, hgrow₁, hcont₁⟩ := hx b h he (by omega)
  obtain ⟨b₂, ext₂, hrun₂, h₂, he₂, hpos₂, hsize₂, hin₂, hgrow₂, hcont₂⟩ := hy b₁ h₁ he₁ (by omega)
  have hsplice : contents b₁.nodes ++ ext₂ =
      splice (contents b.nodes ++ (ext₁ ++ ext₂)) b.position xs := by
    rw [hcont₁, ← append_assoc, splice_append_left hin₁]
  have hlength : (contents b₁.nodes ++ ext₂).length =
      (contents b.nodes ++ (ext₁ ++ ext₂)).length := by
    rw [hsplice, length_splice]
    rw [← append_assoc, length_append]
    omega
  refine ⟨b₂, ext₁ ++ ext₂, (bind_of_ok hrun₁).trans hrun₂, h₂, he₂, ?_, ?_, ?_, ?_, ?_⟩
  · rw [hpos₂, hpos₁, length_append, Nat.add_assoc]
  · rw [hsize₂, hsize₁, hpos₁, length_append]
    omega
  · rw [length_append]
    omega
  · have hsum : (xs ++ ys).length = xs.length + ys.length := length_append
    rw [hsum]
    rcases hgrow₂ with rfl | hlt
    · rw [append_nil]
      exact hgrow₁.imp_right fun hlt => by omega
    · exact Or.inr (by omega)
  · rw [hcont₂, hsplice, hpos₁, splice_splice (by omega)]

lemma write_places {bytes : List Byte} (hlen : bytes.length < 2 ^ 53) :
    Places baseSize e (write bytes) bytes := by
  intro b h he hroom
  obtain ⟨hword, -⟩ := h.addCapacity_lt hlen hroom
  obtain ⟨b', ext, hrun, -, hext, hcont, hpos, hsize, -, hendian⟩ := write_spec h.wf hlen hword
  obtain ⟨b'', hrun', h', -⟩ := write_writes bytes b h hlen hroom
  obtain rfl : b' = b'' := by
    rw [hrun] at hrun'
    exact (EStateM.Result.ok.inj hrun').2
  obtain ⟨hfits, hgrowth⟩ :=
    growth_bounds b.baseSize b.capacity b.position bytes.length h.wf.base_pos
  refine ⟨b', ext, hrun, h', hendian.trans he, hpos, hsize, ?_, ?_, hcont⟩
  · rwa [length_append, h.wf.length_contents, hext]
  · rw [length_append, h.wf.length_contents, hext, ← h.base_eq]
    refine hgrowth.imp_left fun hroom => length_eq_zero_iff.mp ?_
    rw [hext, growth, if_pos hroom]

lemma WritesAs.places {act : Action Unit} {bytes : List Byte} (h : WritesAs e act bytes)
    (hlen : bytes.length < 2 ^ 53) : Places baseSize e act bytes := by
  intro b hb he hroom
  rw [h b he]
  exact write_places hlen b hb he hroom

/-- The length of the string fits in front of it. -/
def StringFormat.Holds (f : StringFormat) (value : List Byte) : Prop :=
  value.length < 2 ^ f.length.width
deriving Decidable

/-- The number of bytes in front of a string of `n` bytes. -/
def StringFormat.headLength : StringFormat → Nat → Nat
  | .f16, _ => 2
  | .f32, _ => 4
  | .f64, _ => 8
  | .vint, n =>
    match encodeVarint 10 (BitVec.ofNat 64 n) with
    | .ok tmp => tmp.length
    | .error _ => 0

lemma exists_length_code (p : Platform) (e : Endian) (f : StringFormat) (n : Nat) :
    ∃ pre, pre.length = f.headLength n ∧ Code e (writeValue p f.length (BitVec.ofNat _ n))
      (readValue p f.length) (BitVec.ofNat _ n) pre := by
  cases f with
  | f16 =>
    exact ⟨_, length_bytesOf .., code_fixed p (w := 16) (n := 2) rfl (by decide) (by decide) _⟩
  | f32 =>
    exact ⟨_, length_bytesOf .., code_fixed p (w := 32) (n := 4) rfl (by decide) (by decide) _⟩
  | f64 =>
    exact ⟨_, length_bytesOf .., code_fixed p (w := 64) (n := 8) rfl (by decide) (by decide) _⟩
  | vint =>
    obtain ⟨bytes, henc, hcode⟩ := exists_code_varint (e := e) p 10 (by decide) (by decide)
      (by decide) (by decide) (BitVec.ofNat 64 n)
    exact ⟨bytes, by rw [StringFormat.headLength, henc], hcode⟩

lemma writeString_eq (f : StringFormat) (value : List Byte) :
    writeString p f value =
      (do writeValue p f.length (BitVec.ofNat _ value.length); write value) := by
  cases f <;> rfl

lemma exists_string_code (p : Platform) (e : Endian) {f : StringFormat} {value : List Byte}
    (hlen : value.length < 2 ^ 53) (hfit : f.Holds value) :
    ∃ pre, pre ≠ [] ∧ pre.length = f.headLength value.length ∧
      (∀ baseSize, Places baseSize e (writeString p f value) (pre ++ value)) ∧
      ∃ len : BitVec f.length.width, len.toNat = value.length ∧
        Consumes e (readValue p f.length) len pre := by
  obtain ⟨pre, hhead, hcode⟩ := exists_length_code p e f value.length
  have hpre := hcode.length_le
  refine ⟨pre, hcode.ne_nil, hhead, fun baseSize => ?_, _, ?_, hcode.reads⟩
  · rw [writeString_eq]
    exact (hcode.writes.places (by omega)).seq (write_places hlen)
  · rw [BitVec.toNat_ofNat]
    exact Nat.mod_eq_of_lt hfit

lemma readPayload_of_lt {n : Nat} (hn : n < 2 ^ 53) : readPayload n = read n := by
  funext b
  have hshort : ¬ n > maxStringSize := by
    unfold maxStringSize
    omega
  rw [readPayload_eq, if_neg hshort]

lemma readString_consumes {f : StringFormat} {value pre : List Byte} (hne : value ≠ [])
    (hlen : value.length < 2 ^ 53) {len : BitVec f.length.width} (hval : len.toNat = value.length)
    (hpre : Consumes e (readValue p f.length) len pre) :
    Consumes e (readString p f) value (pre ++ value) := by
  rw [readString_eq]
  refine hpre.bind ?_
  rw [hval, readPayload_of_lt hlen]
  exact read_consumes hne

lemma readString_empty {f : StringFormat} {pre : List Byte} {len : BitVec f.length.width}
    (hval : len.toNat = 0) (hpre : Consumes e (readValue p f.length) len pre) {b : ByteArray}
    {rest : List Byte} (hb : b.WellFormed) (he : b.endian = e) (hun : b.unread = pre ++ rest) :
    ∃ b', b'.WellFormed ∧ b'.endian = e ∧ b'.unread = rest ∧
      readString p f b =
        if b'.position = b'.capacity then .error .nullDereference b' else .ok [] b' := by
  obtain ⟨b', hrun, hwf, he', hun'⟩ := hpre b rest hb he hun
  refine ⟨b', hwf, he', hun', ?_⟩
  rw [readString_eq, bind_of_ok hrun, hval, readPayload_of_lt (by decide), read_zero hwf]

lemma WellFormed.position_eq_capacity_iff {b : ByteArray} (h : b.WellFormed) :
    b.position = b.capacity ↔ b.size = b.capacity ∧ b.unread = [] := by
  have hlen := h.length_unread
  have hle := h.position_le
  have hcap := h.size_le
  rw [← length_eq_zero_iff, hlen]
  omega

/-! ## Sequences of strings -/

/-- The last string of a sequence is empty. -/
def EndsEmpty (items : List (StringFormat × List Byte)) : Prop :=
  items.getLast?.map Prod.snd = some []
deriving Decidable

/-- The number of bytes in which the strings are written. -/
def encodedLength (items : List (StringFormat × List Byte)) : Nat :=
  (items.map fun item => item.1.headLength item.2.length + item.2.length).sum

lemma endsEmpty_cons {item : StringFormat × List Byte}
    {items : List (StringFormat × List Byte)} (hne : items ≠ []) :
    EndsEmpty (item :: items) ↔ EndsEmpty items := by
  obtain ⟨next, more, rfl⟩ := exists_cons_of_ne_nil hne
  rw [EndsEmpty, EndsEmpty, List.getLast?_cons_cons]

/-- What reading a sequence back should do in an array in which `rest` follows. -/
def ReadsStrings (p : Platform) (items : List (StringFormat × List Byte)) (b : ByteArray)
    (rest : List Byte) : Prop :=
  if EndsEmpty items ∧ b.size = b.capacity ∧ rest = [] then
    ∃ b', readStrings p (items.map Prod.fst) b = .error .nullDereference b'
  else ∃ b', readStrings p (items.map Prod.fst) b = .ok (items.map Prod.snd) b'

lemma ReadsStrings.cons {item : StringFormat × List Byte}
    {items : List (StringFormat × List Byte)} {b b₁ : ByteArray} {rest : List Byte}
    (hrun : readString p item.1 b = .ok item.2 b₁) (hb : b.WellFormed)
    (hends : EndsEmpty (item :: items) ↔ EndsEmpty items) (h : ReadsStrings p items b₁ rest) :
    ReadsStrings p (item :: items) b rest := by
  have hmoved := readString_onlyMoves p item.1 b hb
  rw [hrun] at hmoved
  have hsize : b₁.size = b.size := hmoved.size_eq
  have hcap : b₁.capacity = b.capacity := hmoved.capacity_eq hb
  unfold ReadsStrings at h ⊢
  rw [hsize, hcap] at h
  simp only [hends]
  split at h
  · next hend =>
    obtain ⟨b₂, hrest⟩ := h
    rw [if_pos hend]
    refine ⟨b₂, ?_⟩
    rw [map_cons, readStrings, bind_of_ok hrun, bind_of_error hrest]
  next hend =>
  obtain ⟨b₂, hrest⟩ := h
  rw [if_neg hend]
  refine ⟨b₂, ?_⟩
  rw [map_cons, readStrings, bind_of_ok hrun, bind_of_ok hrest]
  rfl

lemma exists_strings_code (p : Platform) (e : Endian) (items : List (StringFormat × List Byte))
    (hfit : ∀ item ∈ items, item.2.length < 2 ^ 53 ∧ item.1.Holds item.2) :
    ∃ bytes, bytes.length = encodedLength items ∧ (bytes = [] → items = []) ∧
      (∀ baseSize, Places baseSize e (writeStrings p items) bytes) ∧
      ∀ (b : ByteArray) (rest : List Byte), b.WellFormed → b.endian = e →
        b.unread = bytes ++ rest → ReadsStrings p items b rest := by
  induction items with
  | nil =>
    refine ⟨[], rfl, fun _ => rfl, fun _ => Places.nil, fun b rest _ _ _ => ?_⟩
    rw [ReadsStrings, if_neg (by simp [EndsEmpty])]
    exact ⟨b, rfl⟩
  | cons item items ih =>
    obtain ⟨hlen, hholds⟩ := hfit item (mem_cons_self ..)
    obtain ⟨more, hmore, hempty, hplaces, hreads⟩ := ih fun i hi => hfit i (mem_cons_of_mem _ hi)
    obtain ⟨pre, hne, hpre, hplace, len, hval, hconsumes⟩ := exists_string_code p e hlen hholds
    refine ⟨pre ++ item.2 ++ more, ?_, ?_, fun baseSize => (hplace baseSize).seq (hplaces baseSize),
      ?_⟩
    · simp only [length_append, encodedLength, map_cons, sum_cons] at hmore ⊢
      omega
    · intro hnil
      simp only [append_eq_nil_iff] at hnil
      exact absurd hnil.1.1 hne
    intro b rest hb he hun
    rw [append_assoc] at hun
    by_cases hvalue : item.2 = []
    · -- the read of the payload looks at the node behind the length
      rw [hvalue] at hval
      rw [hvalue, append_nil] at hun
      obtain ⟨b₁, hwf, he₁, hun₁, hrun⟩ := readString_empty hval hconsumes hb he hun
      have hmoved := readString_onlyMoves p item.1 b hb
      by_cases hlast : items = []
      · subst hlast
        obtain rfl : more = [] := by
          exact length_eq_zero_iff.mp hmore
        have hends : EndsEmpty [item] := by simp [EndsEmpty, hvalue]
        have hend : b₁.position = b₁.capacity ↔ b.size = b.capacity ∧ rest = [] := by
          rw [hwf.position_eq_capacity_iff, hun₁, nil_append]
          rw [hrun] at hmoved
          have hfinal : Moved b b₁ := by
            split at hmoved
            · exact hmoved
            · exact hmoved
          rw [hfinal.size_eq, hfinal.capacity_eq hb]
        rw [ReadsStrings, map_cons, map_cons, readStrings, hvalue]
        split
        · next hall =>
          rw [if_pos (hend.mpr hall.2)] at hrun
          exact ⟨b₁, bind_of_error hrun⟩
        next hnot =>
        rw [if_neg fun hpos => hnot ⟨hends, hend.mp hpos⟩] at hrun
        exact ⟨b₁, bind_of_ok hrun⟩
      have hinside : ¬ b₁.position = b₁.capacity := by
        rw [hwf.position_eq_capacity_iff, hun₁, append_eq_nil_iff]
        rintro ⟨-, hnil, -⟩
        exact hlast (hempty hnil)
      rw [if_neg hinside, ← hvalue] at hrun
      exact (hreads b₁ rest hwf he₁ hun₁).cons hrun hb (endsEmpty_cons hlast)
    have hitem := readString_consumes hvalue hlen hval hconsumes
    obtain ⟨b₁, hrun, hwf, he₁, hun₁⟩ := hitem b (more ++ rest) hb he hun
    refine (hreads b₁ rest hwf he₁ hun₁).cons hrun hb ?_
    by_cases hlast : items = []
    · subst hlast
      simp [EndsEmpty, hvalue]
    · exact endsEmpty_cons hlast

lemma unread_of_splice {b b₁ b₂ : ByteArray} {bytes ext : List Byte} (h : b.WellFormed)
    (hnodes : b₂.nodes = b₁.nodes) (hpos : b₂.position = b.position)
    (hsize : b.position + bytes.length ≤ b₂.size)
    (hcont : contents b₁.nodes = splice (contents b.nodes ++ ext) b.position bytes) :
    ∃ rest, b₂.unread = bytes ++ rest ∧ rest.length ≤ b₂.size - (b.position + bytes.length) := by
  have hcap : b.position ≤ (contents b.nodes ++ ext).length := by
    have hle := h.position_le_capacity
    rw [length_append, h.length_contents]
    omega
  have hdrop : (contents b₁.nodes).drop b.position =
      bytes ++ (contents b.nodes ++ ext).drop (b.position + bytes.length) := by
    have htake : ((contents b.nodes ++ ext).take b.position).length = b.position := by
      rw [length_take, Nat.min_eq_left hcap]
    rw [hcont, splice, append_assoc, drop_append, htake, Nat.sub_self, drop_zero,
      drop_eq_nil_of_le htake.le, nil_append]
  refine ⟨((contents b.nodes ++ ext).drop (b.position + bytes.length)).take
    (b₂.size - b.position - bytes.length), ?_, ?_⟩
  · rw [unread, hnodes, hpos, hdrop, take_append, take_of_length_le (by omega)]
  · refine (length_take_le ..).trans ?_
    omega

/-- A write of `n` bytes ends at the end of the capacity, which grows by whole nodes. -/
def EndsFull (b : ByteArray) (n : Nat) : Prop :=
  b.capacity ≤ b.position + n ∧ b.baseSize ∣ b.position + n

lemma endsFull_iff {b b' : ByteArray} {bytes ext : List Byte} (h : InMemory baseSize b)
    (h' : InMemory baseSize b') (hpos : b'.position = b.position + bytes.length)
    (hin : b.position + bytes.length ≤ (contents b.nodes ++ ext).length)
    (hgrow : ext = [] ∨
      (contents b.nodes ++ ext).length < b.position + bytes.length + baseSize)
    (hcont : contents b'.nodes = splice (contents b.nodes ++ ext) b.position bytes) :
    EndsFull b bytes.length ↔ b'.position = b'.capacity := by
  have hcap := congrArg List.length hcont
  have hle := h'.wf.position_le_capacity
  have hdvd : baseSize ∣ b'.capacity := by
    rw [h'.wf.capacity_eq, h'.base_eq]
    exact Nat.dvd_mul_left ..
  rw [length_splice hin, h'.wf.length_contents] at hcap
  rw [EndsFull, ← hpos, h.base_eq]
  constructor
  · rintro ⟨hbefore, hwhole⟩
    rcases hgrow with rfl | hlt
    · rw [append_nil, h.wf.length_contents] at hcap
      omega
    · have hzero := Nat.eq_zero_of_dvd_of_lt (Nat.dvd_sub hdvd hwhole) (by omega)
      omega
  · intro hend
    rw [length_append, h.wf.length_contents] at hcap
    exact ⟨by omega, hend ▸ hdvd⟩

/-- In every state that calls reach: strings that fit their formats are read back as written, unless
the last one is empty and ends at the end of the capacity. -/
theorem string_round_trip_iff {p : Platform} {baseSize : Nat} (hpos : 1 ≤ baseSize)
    (hlt : baseSize < addressSpace) {b : ByteArray}
    (h : (callSystem p baseSize).ReachableWith Call.Fits b)
    (items : List (StringFormat × List Byte))
    (hfit : ∀ item ∈ items, item.2.length < 2 ^ 53 ∧ item.1.Holds item.2)
    (hroom : b.position + encodedLength items + baseSize ≤ addressSpace) :
    ∃ b₁ b₂, writeStrings p items b = .ok () b₁ ∧ setPosition b.position b₁ = .ok () b₂ ∧
      (¬ (EndsEmpty items ∧ EndsFull b (encodedLength items)) →
        ∃ b₃, readStrings p (items.map Prod.fst) b₂ = .ok (items.map Prod.snd) b₃) ∧
      (EndsEmpty items ∧ EndsFull b (encodedLength items) →
        ∃ b₃, readStrings p (items.map Prod.fst) b₂ = .error .nullDereference b₃) := by
  have hmem := inMemory_of_reachable hpos hlt h
  obtain ⟨bytes, hlen, -, hplaces, hreads⟩ := exists_strings_code p b.endian items hfit
  obtain ⟨b₁, ext, hrun₁, h₁, he₁, hpos₁, hsize₁, hin, hgrow, hcont₁⟩ :=
    hplaces baseSize b hmem rfl (by omega)
  have hfull := endsFull_iff hmem h₁ hpos₁ hin hgrow hcont₁
  rw [hlen] at hfull
  have hle₁ := h₁.wf.position_le_capacity
  obtain ⟨b₂, hrun₂, h₂, hnodes₂, hpos₂, hsize₂, hbase₂, he₂⟩ :=
    (setPosition_spec h₁.wf b.position).2 (by omega)
  obtain ⟨rest, hun, hrest⟩ := unread_of_splice hmem.wf hnodes₂ hpos₂ (by omega) hcont₁
  have hcap : b₂.capacity = b₁.capacity := by
    rw [h₂.capacity_eq, h₁.wf.capacity_eq, hnodes₂, hbase₂]
  have hend : EndsFull b (encodedLength items) ↔ b₂.size = b₂.capacity ∧ rest = [] := by
    have hlength := congrArg List.length hun
    rw [h₂.length_unread, length_append] at hlength
    have hle := h₁.wf.size_le
    rw [hfull, ← length_eq_zero_iff]
    omega
  have hstrings := hreads b₂ rest h₂ (he₂.trans he₁) hun
  refine ⟨b₁, b₂, hrun₁, hrun₂, fun hnot => ?_, fun hends => ?_⟩
  · rw [hend] at hnot
    rwa [ReadsStrings, if_neg hnot] at hstrings
  · rw [hend] at hends
    rwa [ReadsStrings, if_pos hends] at hstrings

theorem string_round_trip_iff_two :
    ∃ b₁ b₂ b₃, writeStrings ⟨.little, .little⟩ [(.vint, []), (.f16, [7])] (new 4 fun _ => 0) =
        .ok () b₁ ∧
      setPosition 0 b₁ = .ok () b₂ ∧
      readStrings ⟨.little, .little⟩ [.vint, .f16] b₂ = .ok [[], [7]] b₃ := by
  obtain ⟨b₁, b₂, hwrite, hseek, hread, -⟩ :=
    string_round_trip_iff (p := ⟨.little, .little⟩) (b := new 4 fun _ => 0) (by decide) (by decide)
      (.init ⟨_, rfl⟩) [(.vint, []), (.f16, [7])] (by decide) (by decide)
  have hlast : ¬ EndsEmpty [(.vint, []), (.f16, [7])] := by decide
  obtain ⟨b₃, hread⟩ := hread fun hends => hlast hends.1
  exact ⟨b₁, b₂, b₃, hwrite, hseek, hread⟩

def fullNode : ByteArray := final (writeStrings ⟨.little, .little⟩ [(.f16, [])] (new 2 fun _ => 0))

/-- An empty string whose length fills the only node cannot be read back. -/
theorem empty_string_null :
    ∃ b₂ b₃, writeStrings ⟨.little, .little⟩ [(.f16, [])] (new 2 fun _ => 0) = .ok () fullNode ∧
      setPosition 0 fullNode = .ok () b₂ ∧
      readStrings ⟨.little, .little⟩ [.f16] b₂ = .error .nullDereference b₃ := by
  refine ⟨final (setPosition 0 fullNode), ?_, rfl, rfl, ?_⟩
  rotate_left
  · rfl

end Yuyu.ByteArray
