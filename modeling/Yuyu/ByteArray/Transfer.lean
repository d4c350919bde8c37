import Yuyu.ByteArray.Calls

/-!
# Byte arrays and sockets

`Stream::readFixSize` and `Stream::writeFixSize` over a byte array and a socket, whose answers are
given as a list. `SocketStream` hands the memory of the array to `recvmsg` and `sendmsg`.
-/

namespace Yuyu.ByteArray

open Foundation List

/-- How the socket refuses: the stream is not connected, or the call returns zero or a
negative number. -/
inductive Refusal where
  | closed
  | failed (rt : Int) (nonpos : rt ≤ 0)

def Refusal.code : Refusal → Int
  | .closed => -1
  | .failed rt _ => rt

/-- An answer to `recvmsg`: the bytes it stored. -/
inductive Recv where
  | bytes (buf : List Byte)
  | refusal (r : Refusal)

/-- An answer to `sendmsg`: the number of bytes it took. -/
inductive Send where
  | bytes (n : Nat)
  | refusal (r : Refusal)

def socketRead (r : Recv) (length : Nat) : Action (Int × List Byte) :=
  match r with
  | .refusal .closed => return (-1, [])
  | .refusal (.failed rt _) => do
      let _ ← getWriteBuffers length
      return (rt, [])
  | .bytes buf => do
      receive length buf
      let b ← get
      if buf.length > 0 then setPosition (b.position + buf.length)
      return (buf.length, buf)

def socketWrite (r : Send) (length : Nat) : Action (Int × List Byte) :=
  match r with
  | .refusal .closed => return (-1, [])
  | .refusal (.failed rt _) => do
      let _ ← getReadBuffers length
      return (rt, [])
  | .bytes n => do
      let buffers ← getReadBuffers length
      let b ← get
      match gatherAll b.nodes buffers.2 with
      | none => throw .outOfBounds
      | some memory =>
        if n > 0 then setPosition (b.position + n)
        return (n, memory.take n)

/-- The loop of `readFixSize` and `writeFixSize` over a byte array: the returned number, none while
an answer is missing, and the bytes that passed. -/
def fixSizeLoop {ρ : Type} (op : ρ → Nat → Action (Int × List Byte)) (length : Nat) :
    List ρ → Int → Action (Option Int × List Byte)
  | [], left => if left > 0 then return (none, []) else return (some (toInt32 length), [])
  | r :: rs, left => do
      if left > 0 then
        let answer ← op r left.toNat
        if answer.1 ≤ 0 then return (some answer.1, answer.2)
        else
          let others ← fixSizeLoop op length rs (left - answer.1)
          return (others.1, answer.2 ++ others.2)
      else return (some (toInt32 length), [])

def readFixSize (answers : List Recv) (length : Nat) : Action (Option Int × List Byte) :=
  fixSizeLoop socketRead length answers length

def writeFixSize (answers : List Send) (length : Nat) : Action (Option Int × List Byte) :=
  fixSizeLoop socketWrite length answers length

section Loop

variable {ρ : Type} {op : ρ → Nat → Action (Int × List Byte)} {length : Nat}

lemma fixSizeLoop_zero (answers : List ρ) (b : ByteArray) :
    fixSizeLoop op length answers 0 b = .ok (some (toInt32 length), []) b := by
  cases answers <;> rfl

variable {r : ρ} {rs : List ρ} {left : Nat} {bytes : List Byte} {b b' : ByteArray}

lemma fixSizeLoop_moved (hleft : 0 < left) (hbytes : bytes ≠ [])
    (hop : op r left b = .ok ((bytes.length : Int), bytes) b') :
    fixSizeLoop op length (r :: rs) left b = (do
        let others ← fixSizeLoop op length rs ((left : Int) - (bytes.length : Int))
        return (others.1, bytes ++ others.2) : Action (Option Int × List Byte)) b' := by
  have hpos := length_pos_iff.mpr hbytes
  have hgt : (left : Int) > 0 := by omega
  have hcond : ¬ ((bytes.length : Int) ≤ 0) := by omega
  rw [fixSizeLoop, if_pos hgt, Int.toNat_natCast, bind_of_ok hop, if_neg hcond]

lemma fixSizeLoop_refused {rt : Int}
    (hleft : 0 < left) (hrt : rt ≤ 0) (hop : op r left b = .ok (rt, []) b') :
    fixSizeLoop op length (r :: rs) left b = .ok (some rt, []) b' := by
  have hgt : (left : Int) > 0 := by omega
  rw [fixSizeLoop, if_pos hgt, Int.toNat_natCast, bind_of_ok hop, if_pos hrt]
  rfl

/-- Each answer lets bytes pass, no more than are left; all of them lead from `b` to
`b'` and let `bytes` pass. -/
inductive Passes (op : ρ → Nat → Action (Int × List Byte)) :
    List ρ → Nat → ByteArray → List Byte → ByteArray → Prop
  | nil {left : Nat} {b : ByteArray} : Passes op [] left b [] b
  | cons {r : ρ} {rs : List ρ} {left : Nat} {b b₁ b₂ : ByteArray} {bytes more : List Byte} :
      op r left b = .ok ((bytes.length : Int), bytes) b₁ → bytes ≠ [] → bytes.length ≤ left →
        Passes op rs (left - bytes.length) b₁ more b₂ →
          Passes op (r :: rs) left b (bytes ++ more) b₂

lemma Passes.run (h : Passes op rs left b bytes b') (others : List ρ) :
    fixSizeLoop op length (rs ++ others) left b = (do
        let rest ← fixSizeLoop op length others ((left - bytes.length : Nat) : Int)
        return (rest.1, bytes ++ rest.2) : Action (Option Int × List Byte)) b' := by
  induction h with
  | nil => simp
  | @cons r rs left b b₁ b₂ bytes more hop hne hle hrest ih =>
    have hpos := length_pos_iff.mpr hne
    have hleft : (left : Int) - (bytes.length : Int) = ((left - bytes.length : Nat) : Int) := by
      omega
    rw [cons_append, fixSizeLoop_moved (by omega) hne hop, hleft]
    simp only [bind, EStateM.bind] at ih ⊢
    rw [ih, length_append, Nat.sub_sub]
    cases fixSizeLoop op length others ((left - (bytes.length + more.length) : Nat) : Int) b₂ with
    | ok rest b₃ => simp [pure, EStateM.pure]
    | error e b₃ => rfl

lemma Passes.run_all (h : Passes op rs bytes.length b bytes b') (hlen : bytes.length < 2 ^ 31) :
    fixSizeLoop op bytes.length rs (bytes.length : Int) b =
      .ok (some (bytes.length : Int), bytes) b' := by
  have hrun : fixSizeLoop op bytes.length (rs ++ []) (bytes.length : Int) b = _ := h.run []
  rw [append_nil, Nat.sub_self] at hrun
  rw [hrun, Nat.cast_zero, bind_of_ok (fixSizeLoop_zero [] b'), toInt32_of_lt hlen]
  simp [pure, EStateM.pure]

lemma Passes.run_refused {b'' : ByteArray}
    {rt : Int} (h : Passes op rs length b bytes b') (hlt : bytes.length < length) (hrt : rt ≤ 0)
    (hop : op r (length - bytes.length) b' = .ok (rt, []) b'') :
    fixSizeLoop op length (rs ++ [r]) (length : Int) b = .ok (some rt, bytes) b'' := by
  rw [h.run [r], bind_of_ok (fixSizeLoop_refused (by omega) hrt hop)]
  simp [pure, EStateM.pure]

end Loop

lemma Refusal.code_nonpos (r : Refusal) : r.code ≤ 0 := by
  cases r with
  | closed => decide
  | failed rt h => exact h

/-! ## Receiving -/

/-- The array `b'` is `g` with `data` written at the cursor. -/
structure Filled (g : ByteArray) (data : List Byte) (b' : ByteArray) : Prop where
  wf : b'.WellFormed
  contents_eq : contents b'.nodes = splice (contents g.nodes) g.position data
  position_eq : b'.position = g.position + data.length
  size_eq : b'.size = max g.size (g.position + data.length)
  capacity_eq : b'.capacity = g.capacity
  base_eq : b'.baseSize = g.baseSize
  endian_eq : b'.endian = g.endian

/-- Two arrays that agree in everything but the nodes themselves. -/
structure Alike (b b' : ByteArray) : Prop where
  contents_eq : contents b'.nodes = contents b.nodes
  position_eq : b'.position = b.position
  size_eq : b'.size = b.size
  capacity_eq : b'.capacity = b.capacity
  base_eq : b'.baseSize = b.baseSize
  endian_eq : b'.endian = b.endian
  cur_eq : b'.cur = b.cur

variable {b g : ByteArray}

lemma Filled.nil (h : b.WellFormed) : Filled b [] b :=
  ⟨h, by simp, rfl, (Nat.max_eq_left h.position_le).symm, rfl, rfl, rfl⟩

lemma Filled.append {b₁ b₂ : ByteArray} {xs ys : List Byte} (hg : g.WellFormed)
    (h₁ : Filled g xs b₁) (h₂ : Filled b₁ ys b₂) : Filled g (xs ++ ys) b₂ where
  wf := h₂.wf
  contents_eq := by
    have hle : g.position ≤ (contents g.nodes).length :=
      hg.length_contents.symm ▸ hg.position_le_capacity
    rw [h₂.contents_eq, h₁.contents_eq, h₁.position_eq, splice_splice hle]
  position_eq := by rw [h₂.position_eq, h₁.position_eq, length_append, Nat.add_assoc]
  size_eq := by
    rw [h₂.size_eq, h₁.size_eq, h₁.position_eq, length_append]
    omega
  capacity_eq := h₂.capacity_eq.trans h₁.capacity_eq
  base_eq := h₂.base_eq.trans h₁.base_eq
  endian_eq := h₂.endian_eq.trans h₁.endian_eq

lemma Filled.alike {b₁ b₂ : ByteArray} {data : List Byte} (h₁ : Filled g data b₁)
    (h₂ : Filled g data b₂) : Alike b₁ b₂ where
  contents_eq := by rw [h₂.contents_eq, h₁.contents_eq]
  position_eq := by rw [h₂.position_eq, h₁.position_eq]
  size_eq := by rw [h₂.size_eq, h₁.size_eq]
  capacity_eq := by rw [h₂.capacity_eq, h₁.capacity_eq]
  base_eq := by rw [h₂.base_eq, h₁.base_eq]
  endian_eq := by rw [h₂.endian_eq, h₁.endian_eq]
  cur_eq := by
    rw [h₂.wf.cur_eq, h₁.wf.cur_eq, h₂.position_eq, h₁.position_eq, h₂.capacity_eq,
      h₁.capacity_eq, h₂.base_eq, h₁.base_eq]

lemma Filled.written_eq {b' : ByteArray} {data : List Byte} (hg : g.WellFormed)
    (h : Filled g data b') : b'.written = g.written ++ data := by
  have hle : g.position ≤ (contents g.nodes).length :=
    hg.length_contents.symm ▸ hg.position_le_capacity
  rw [written, h.contents_eq, h.position_eq, take_splice hle, written]

section Grown

variable {b : ByteArray} (h : b.WellFormed) {len : Nat} (hlen : len < 2 ^ 53)
  (hword : b.position + len + b.baseSize ≤ word64)

include h hlen hword

lemma written_addCapacity : (b.addCapacity len).written = b.written := by
  obtain ⟨-, hpos, -, -, -, -, ext, hcont, -⟩ := addCapacity_spec h hlen hword
  have hle : b.position ≤ (contents b.nodes).length :=
    h.length_contents.symm ▸ h.position_le_capacity
  rw [written, hcont, hpos, take_append_of_le_length hle, written]

lemma room_addCapacity : b.position + len ≤ (b.addCapacity len).capacity := by
  obtain ⟨-, -, -, -, -, hcap, -⟩ := addCapacity_spec h hlen hword
  rw [hcap]
  exact (growth_bounds b.baseSize b.capacity b.position len h.base_pos).1

lemma write_filled {data : List Byte} (hdata : data.length = len) :
    ∃ b', write data b = .ok () b' ∧ Filled (b.addCapacity len) data b' := by
  subst hdata
  obtain ⟨hwf, hpos, -⟩ := addCapacity_spec h hlen hword
  by_cases hempty : data.length = 0
  · obtain rfl := length_eq_zero_iff.mp hempty
    have hgrown : b.addCapacity 0 = b := if_pos rfl
    rw [length_nil, hgrown]
    exact ⟨b, rfl, Filled.nil h⟩
  have hroom := room_addCapacity h hlen hword
  obtain ⟨b', hwrite, hwf', hcont', hpos', hsize', hbase', hendian'⟩ :=
    writeNodes_spec hwf data (by omega)
  refine ⟨b', ?_, hwf', hcont', hpos', hsize', ?_, hbase', hendian'⟩
  · rw [write, if_neg hempty, hwrite]
  rw [← hwf'.length_contents, hcont', length_splice, hwf.length_contents]
  rw [hwf.length_contents]
  omega

lemma getWriteBuffers_spec :
    ∃ iovs, getWriteBuffers len b = .ok (len, iovs) (b.addCapacity len) := by
  obtain ⟨hwf, hpos, -⟩ := addCapacity_spec h hlen hword
  have hroom := room_addCapacity h hlen hword
  by_cases hzero : len = 0
  · subst hzero
    exact ⟨[], by simp [getWriteBuffers, addCapacity]⟩
  obtain ⟨iovs, hloop, -⟩ := hwf.readBuffersLoop_fromCur (n := len) (by omega)
  refine ⟨iovs, ?_⟩
  simp only [getWriteBuffers, hzero, if_false, hloop]

lemma socketRead_bytes {buf : List Byte} (hne : buf ≠ []) (hbuf : buf.length ≤ len) :
    ∃ b', socketRead (.bytes buf) len b = .ok ((buf.length : Int), buf) b' ∧
      Filled (b.addCapacity len) buf b' := by
  obtain ⟨-, hgpos, hgsize, hgbase, hgendian, -⟩ := addCapacity_spec h hlen hword
  have hroom := room_addCapacity h hlen hword
  obtain ⟨b₁, hrun₁, h₁, hcont, hpos₁, hsize₁, hcap₁, hbase₁, hendian₁⟩ :=
    receive_spec h hbuf hlen hword
  obtain ⟨b₂, hrun₂, h₂, hnodes, hpos₂, hsize₂, hbase₂, hendian₂⟩ :=
    (setPosition_spec h₁ (b₁.position + buf.length)).2 (by omega)
  refine ⟨b₂, ?_, h₂, ?_, ?_, ?_, ?_, ?_, ?_⟩
  · have hpos : buf.length > 0 := length_pos_iff.mpr hne
    rw [socketRead, bind_of_ok hrun₁,
      bind_of_ok (show (get : Action ByteArray) b₁ = .ok b₁ b₁ from rfl), if_pos hpos,
      bind_of_ok hrun₂]
    rfl
  · rw [hnodes, hcont, hgpos]
  · rw [hpos₂, hpos₁, hgpos]
  · rw [hsize₂, hsize₁, hpos₁, hgsize, hgpos]
  · rw [h₂.capacity_eq, hnodes, hbase₂, ← h₁.capacity_eq, hcap₁]
  · rw [hbase₂, hbase₁, hgbase]
  · rw [hendian₂, hendian₁, hgendian]

lemma socketRead_refusal (r : Refusal) :
    ∃ b', socketRead (.refusal r) len b = .ok (r.code, []) b' ∧
      b'.position = b.position ∧ b'.size = b.size ∧ b'.written = b.written := by
  cases r with
  | closed => exact ⟨b, rfl, rfl, rfl, rfl⟩
  | failed rt hrt =>
    obtain ⟨-, hpos, hsize, -⟩ := addCapacity_spec h hlen hword
    obtain ⟨iovs, hrun⟩ := getWriteBuffers_spec h hlen hword
    refine ⟨b.addCapacity len, ?_, hpos, hsize, written_addCapacity h hlen hword⟩
    rw [socketRead, bind_of_ok hrun]
    rfl

end Grown

lemma passes_socketRead (bufs : List (List Byte)) (h : b.WellFormed) {left : Nat}
    (hne : ∀ buf ∈ bufs, buf ≠ []) (hle : bufs.flatten.length ≤ left) (hlen : left < 2 ^ 53)
    (hword : b.position + left + b.baseSize ≤ word64) :
    ∃ b', Passes socketRead (bufs.map .bytes) left b bufs.flatten b' ∧
      (bufs = [] ∧ b' = b ∨ Filled (b.addCapacity left) bufs.flatten b') := by
  induction bufs generalizing b left with
  | nil => exact ⟨b, .nil, .inl ⟨rfl, rfl⟩⟩
  | cons buf bufs ih =>
    rw [flatten_cons, length_append] at hle
    have hbuf : buf ≠ [] := hne buf (mem_cons_self ..)
    obtain ⟨hgwf, hgpos, -, hgbase, -⟩ := addCapacity_spec h hlen hword
    have hroom := room_addCapacity h hlen hword
    obtain ⟨b₁, hrun, hfilled⟩ := socketRead_bytes h hlen hword hbuf (by omega)
    have hpos₁ := hfilled.position_eq
    have hbase₁ := hfilled.base_eq
    have hcap₁ := hfilled.capacity_eq
    obtain ⟨b₂, hpasses, hrest⟩ := ih hfilled.wf (fun x hx => hne x (mem_cons_of_mem _ hx))
      (show bufs.flatten.length ≤ left - buf.length by omega) (by omega) (by omega)
    refine ⟨b₂, .cons hrun hbuf (by omega) hpasses, .inr ?_⟩
    rw [addCapacity_of_fits hfilled.wf (by omega)] at hrest
    rcases hrest with ⟨rfl, rfl⟩ | hmore
    · simpa using hfilled
    · exact hfilled.append hgwf hmore

lemma socketWrite_bytes (h : b.WellFormed) {n len : Nat} (hn : 0 < n)
    (hle : n ≤ len) (hunread : len ≤ b.size - b.position) :
    ∃ b', socketWrite (.bytes n) len b = .ok ((n : Int), b.unread.take n) b' ∧ Moved b b' ∧
      b'.position = b.position + n := by
  have hsize := h.size_le
  obtain ⟨iovs, hrun, hgather⟩ := getReadBuffers_spec h len
  obtain ⟨b', hrun', h', hnodes, hpos, hsize', hbase, hendian⟩ :=
    (setPosition_spec h (b.position + n)).2 (by omega)
  refine ⟨b', ?_, ⟨h', hnodes, by omega, hbase, hendian, by omega⟩, hpos⟩
  have htake : (((contents b.nodes).drop b.position).take (min len (b.size - b.position))).take n =
      b.unread.take n := by
    rw [take_take, Nat.min_eq_left (by omega), unread, take_take, Nat.min_eq_left (by omega)]
  rw [socketWrite, bind_of_ok hrun,
    bind_of_ok (show (get : Action ByteArray) b = .ok b b from rfl), hgather]
  simp only [gt_iff_lt, hn, if_true, bind_of_ok hrun', htake]
  rfl

lemma socketWrite_refusal (h : b.WellFormed) (len : Nat) (r : Refusal) :
    socketWrite (.refusal r) len b = .ok (r.code, []) b := by
  cases r with
  | closed => rfl
  | failed rt hrt =>
    obtain ⟨iovs, hrun, -⟩ := getReadBuffers_spec h len
    rw [socketWrite, bind_of_ok hrun]
    rfl

lemma Moved.unread_eq {b' : ByteArray} (h : Moved b b') {n : Nat}
    (hpos : b'.position = b.position + n) : b'.unread = b.unread.drop n := by
  rw [unread, unread, h.nodes_eq, h.size_eq, hpos, drop_take, drop_drop, Nat.sub_sub]

lemma passes_socketWrite (counts : List Nat) (h : b.WellFormed) {left : Nat}
    (hpos : ∀ n ∈ counts, 0 < n) (hle : counts.sum ≤ left) (hunread : left ≤ b.size - b.position) :
    ∃ b', Passes socketWrite (counts.map .bytes) left b (b.unread.take counts.sum) b' ∧
      Moved b b' ∧ b'.position = b.position + counts.sum := by
  induction counts generalizing b left with
  | nil =>
    rw [sum_nil, take_zero]
    exact ⟨b, .nil, .refl h, rfl⟩
  | cons n counts ih =>
    rw [sum_cons] at hle
    have hn : 0 < n := hpos n (mem_cons_self ..)
    obtain ⟨b₁, hrun, hmoved, hpos₁⟩ := socketWrite_bytes h hn (by omega) hunread
    have hsize₁ := hmoved.size_eq
    have hlen : (b.unread.take n).length = n := by
      rw [length_take, h.length_unread]
      omega
    obtain ⟨b₂, hpasses, hmoved', hpos₂⟩ := ih hmoved.wf
      (fun x hx => hpos x (mem_cons_of_mem _ hx)) (show counts.sum ≤ left - n by omega)
      (by omega)
    refine ⟨b₂, ?_, hmoved.trans hmoved', ?_⟩
    · have hsplit : b.unread.take (n :: counts).sum =
          b.unread.take n ++ b₁.unread.take counts.sum := by
        rw [sum_cons, take_add, hmoved.unread_eq hpos₁]
      rw [hsplit, map_cons]
      refine .cons (by rw [hlen]; exact hrun) ?_ (by omega) (by rw [hlen]; exact hpasses)
      rw [← length_pos_iff, hlen]
      exact hn
    · rw [hpos₂, hpos₁, sum_cons, Nat.add_assoc]

/-! ## Transfers -/

/-- For lengths below `2^31`: bytes received in parts are written as by one write, and bytes sent in
parts are the next unread ones, up to where the socket refuses. -/
theorem stream_transfer {p : Platform} {baseSize : Nat} (hpos : 1 ≤ baseSize)
    (hlt : baseSize < addressSpace) {b : ByteArray}
    (h : (callSystem p baseSize).ReachableWith Call.Fits b) {length : Nat}
    (hlen : length < 2 ^ 31) :
    (∀ bufs : List (List Byte), (∀ buf ∈ bufs, buf ≠ []) → bufs.flatten.length = length →
      b.position + length + baseSize ≤ addressSpace →
      ∃ b₁ b₂, readFixSize (bufs.map .bytes) length b = .ok (some (length : Int), bufs.flatten) b₁ ∧
        write bufs.flatten b = .ok () b₂ ∧ Alike b₂ b₁) ∧
    (∀ (bufs : List (List Byte)) (r : Refusal), (∀ buf ∈ bufs, buf ≠ []) →
      bufs.flatten.length < length → b.position + length + baseSize ≤ addressSpace →
      ∃ b₁, readFixSize (bufs.map .bytes ++ [.refusal r]) length b =
          .ok (some r.code, bufs.flatten) b₁ ∧
        b₁.position = b.position + bufs.flatten.length ∧
        b₁.size = max b.size (b.position + bufs.flatten.length) ∧
        b₁.written = b.written ++ bufs.flatten) ∧
    (∀ counts : List Nat, (∀ n ∈ counts, 0 < n) → counts.sum = length →
      length ≤ b.size - b.position →
      ∃ b₁, writeFixSize (counts.map .bytes) length b =
          .ok (some (length : Int), b.unread.take length) b₁ ∧
        Moved b b₁ ∧ b₁.position = b.position + length) ∧
    (∀ (counts : List Nat) (r : Refusal), (∀ n ∈ counts, 0 < n) → counts.sum < length →
      length ≤ b.size - b.position →
      ∃ b₁, writeFixSize (counts.map .bytes ++ [.refusal r]) length b =
          .ok (some r.code, b.unread.take counts.sum) b₁ ∧
        Moved b b₁ ∧ b₁.position = b.position + counts.sum) := by
  have hmem := inMemory_of_reachable hpos hlt h
  have hwf := hmem.wf
  refine ⟨?_, ?_, ?_, ?_⟩
  · rintro bufs hne rfl hroom
    obtain ⟨hword, -⟩ := hmem.addCapacity_lt (by omega) hroom
    obtain ⟨b₁, hpasses, hstate⟩ := passes_socketRead bufs hwf hne le_rfl (by omega) hword
    obtain ⟨b₂, hwrite, hfilled⟩ := write_filled hwf (by omega) hword rfl
    refine ⟨b₁, b₂, hpasses.run_all hlen, hwrite, ?_⟩
    rcases hstate with ⟨rfl, rfl⟩ | hfilled'
    · exact hfilled.alike (Filled.nil hwf)
    · exact hfilled.alike hfilled'
  · intro bufs r hne hshort hroom
    obtain ⟨hword, -⟩ := hmem.addCapacity_lt (by omega) hroom
    obtain ⟨b₁, hpasses, hstate⟩ := passes_socketRead bufs hwf hne hshort.le (by omega) hword
    obtain ⟨hgwf, hgpos, hgsize, hgbase, -⟩ :=
      addCapacity_spec hwf (show length < 2 ^ 53 by omega) hword
    have hwritten := written_addCapacity hwf (show length < 2 ^ 53 by omega) hword
    have hmid : b₁.WellFormed ∧ b₁.baseSize = b.baseSize ∧
        b₁.position = b.position + bufs.flatten.length ∧
        b₁.size = max b.size (b.position + bufs.flatten.length) ∧
        b₁.written = b.written ++ bufs.flatten := by
      rcases hstate with ⟨rfl, rfl⟩ | hfilled
      · have hle := hwf.position_le
        exact ⟨hwf, rfl, rfl, by simp [hle], by simp⟩
      refine ⟨hfilled.wf, hfilled.base_eq.trans hgbase, ?_, ?_, ?_⟩
      · rw [hfilled.position_eq, hgpos]
      · rw [hfilled.size_eq, hgpos, hgsize]
      · rw [hfilled.written_eq hgwf, hwritten]
    obtain ⟨hwf₁, hbase₁, hpos₁, hsize₁, hwritten₁⟩ := hmid
    obtain ⟨b₂, hrun, hpos₂, hsize₂, hwritten₂⟩ :=
      socketRead_refusal hwf₁ (show length - bufs.flatten.length < 2 ^ 53 by omega) (by omega) r
    exact ⟨b₂, hpasses.run_refused hshort r.code_nonpos hrun, hpos₂.trans hpos₁,
      hsize₂.trans hsize₁, hwritten₂.trans hwritten₁⟩
  · rintro counts hcounts rfl hunread
    obtain ⟨b₁, hpasses, hmoved, hpos₁⟩ := passes_socketWrite counts hwf hcounts le_rfl hunread
    have hbytes : (b.unread.take counts.sum).length = counts.sum := by
      rw [length_take, hwf.length_unread]
      omega
    have hrun := (hbytes.symm ▸ hpasses :
      Passes socketWrite (counts.map .bytes) (b.unread.take counts.sum).length b
        (b.unread.take counts.sum) b₁).run_all (by omega)
    rw [hbytes] at hrun
    exact ⟨b₁, hrun, hmoved, hpos₁⟩
  intro counts r hcounts hshort hunread
  obtain ⟨b₁, hpasses, hmoved, hpos₁⟩ := passes_socketWrite counts hwf hcounts hshort.le hunread
  have hbytes : (b.unread.take counts.sum).length = counts.sum := by
    rw [length_take, hwf.length_unread]
    omega
  have hrefused := socketWrite_refusal hmoved.wf (length - (b.unread.take counts.sum).length) r
  exact ⟨b₁, hpasses.run_refused (by omega) r.code_nonpos hrefused, hmoved, hpos₁⟩

theorem stream_transfer_two_parts :
    ∃ b₁ b₂, readFixSize [.bytes [1], .bytes [2, 3]] 3 (new 2 fun _ => 0) =
        .ok (some 3, [1, 2, 3]) b₁ ∧
      write [1, 2, 3] (new 2 fun _ => 0) = .ok () b₂ ∧ Alike b₂ b₁ :=
  (stream_transfer (p := ⟨.little, .little⟩) (b := new 2 fun _ => 0) (by decide) (by decide)
    (.init ⟨_, rfl⟩) (by decide)).1 [[1], [2, 3]] (by decide) rfl (by decide)

end Yuyu.ByteArray
