import Yuyu.ByteArray.RoundTrip

/-!
# Compression streams

`ZlibStream` collects the output of `deflate` or `inflate` in a chain of buffers of one size. A call
writes into the last buffer, or a new one when that is full, and is repeated while it leaves no
room.
-/

namespace Yuyu.Zlib

open Foundation List

inductive Ret where
  | ok
  | streamEnd
  | needDict
  | errno
  | streamError
  | dataError
  | memError
  | bufError
  | versionError
deriving DecidableEq

inductive Flush where
  | noFlush
  | finish

/-- What a call leaves: the state, the input not consumed, the bytes written at `next_out` and the
return code. -/
structure Reply (Z : Type) where
  state : Z
  rest : List Byte
  out : List Byte
  ret : Ret

/-- A call with the room `avail` fills it and leaves the state and the input `next`. -/
def Fills {Z : Type} (call : Z → Flush → List Byte → Nat → Reply Z) (flush : Flush)
    (next cur : Z × List Byte) : Prop :=
  ∃ avail, 0 < avail ∧ (call cur.1 flush cur.2 avail).out.length = avail ∧
    next = ((call cur.1 flush cur.2 avail).state, (call cur.1 flush cur.2 avail).rest)

/-- `deflate` or `inflate` and their contract: the output fits, there is none when the state is
invalid, and repeated calls come to leave room. -/
structure Codec (Z : Type) where
  call : Z → Flush → List Byte → Nat → Reply Z
  close : Z → Z
  out_le : ∀ z flush input avail, (call z flush input avail).out.length ≤ avail
  quiet : ∀ z flush input avail, (call z flush input avail).ret = .streamError →
    (call z flush input avail).out = []
  drains : ∀ flush, WellFounded (Fills call flush)

structure Library (Z : Type) where
  deflate : Codec Z
  inflate : Codec Z

structure Call where
  ret : Ret
  out : List Byte
deriving DecidableEq

structure Buff (size : Nat) where
  base : List Byte
  len : Nat
  length_base : base.length = size
  len_le : len ≤ size

namespace Buff

variable {size : Nat}

lemma length_fresh (fresh : Nat → Byte) : ((List.range size).map fresh).length = size := by simp

/-- A new buffer, with the bytes that `malloc` leaves in it. -/
def new (fresh : Nat → Byte) : Buff size where
  base := (List.range size).map fresh
  len := 0
  length_base := length_fresh fresh
  len_le := Nat.zero_le size

/-- Bytes written behind the first `iov_len` ones. -/
def store (ivc : Buff size) (out : List Byte) (h : ivc.len + out.length ≤ size) : Buff size where
  base := splice ivc.base ivc.len out
  len := ivc.len
  length_base := (length_splice (ivc.length_base.symm ▸ h)).trans ivc.length_base
  len_le := ivc.len_le

def setLen (ivc : Buff size) (availOut : Nat) : Buff size where
  base := ivc.base
  len := size - availOut
  length_base := ivc.length_base
  len_le := Nat.sub_le size availOut

def data (ivc : Buff size) : List Byte := ivc.base.take ivc.len

end Buff

structure ZlibStream (Z : Type) (buffSize : Nat) where
  buffSize_pos : 0 < buffSize
  buffSize_lt : buffSize < 2 ^ 32
  zstream : Z
  isEncode : Bool
  buffs : List (Buff buffSize)
  fresh : Nat → Nat → Byte
  calls : List Call

namespace ZlibStream

variable {Z : Type} {buffSize : Nat}

def current (s : ZlibStream Z buffSize) : List (Buff buffSize) × Buff buffSize :=
  match s.buffs.getLast? with
  | some ivc =>
    if ivc.len ≠ buffSize then (s.buffs.dropLast, ivc)
    else (s.buffs, .new (s.fresh s.buffs.length))
  | none => (s.buffs, .new (s.fresh s.buffs.length))

lemma current_len_lt (s : ZlibStream Z buffSize) : s.current.2.len < buffSize := by
  unfold current
  split
  · next ivc _ =>
      split
      · next hne => exact Nat.lt_of_le_of_ne ivc.len_le hne
      · exact s.buffSize_pos
  · exact s.buffSize_pos

section Loop

variable (codec : Codec Z) (flush : Flush) (s : ZlibStream Z buffSize) (input : List Byte)

def reply : Reply Z := codec.call s.zstream flush input (buffSize - s.current.2.len)

def availOut : Nat := buffSize - s.current.2.len - (s.reply codec flush input).out.length

lemma out_fits : s.current.2.len + (s.reply codec flush input).out.length ≤ buffSize := by
  have hlt := s.current_len_lt
  have hle : (s.reply codec flush input).out.length ≤ buffSize - s.current.2.len := codec.out_le ..
  omega

/-- The stream after it; a stream error returns before `iov_len` is set. -/
def step : ZlibStream Z buffSize :=
  let r := s.reply codec flush input
  let ivc := s.current.2.store r.out (s.out_fits codec flush input)
  { s with
    zstream := r.state
    buffs := s.current.1 ++
      [if r.ret = .streamError then ivc else ivc.setLen (s.availOut codec flush input)]
    calls := s.calls ++ [⟨r.ret, r.out⟩] }

lemma fills_of_availOut_eq_zero (h : s.availOut codec flush input = 0) :
    Fills codec.call flush ((s.step codec flush input).zstream, (s.reply codec flush input).rest)
      (s.zstream, input) := by
  have hlt := s.current_len_lt
  have hle := s.out_fits codec flush input
  refine ⟨buffSize - s.current.2.len, by omega, ?_, rfl⟩
  show (s.reply codec flush input).out.length = _
  unfold availOut at h
  omega

def codeLoop (s : ZlibStream Z buffSize) (input : List Byte) : Ret × ZlibStream Z buffSize :=
  if (s.reply codec flush input).ret = .streamError then
    (.streamError, s.step codec flush input)
  else if _h : s.availOut codec flush input = 0 then
    codeLoop (s.step codec flush input) (s.reply codec flush input).rest
  else (.ok, s.step codec flush input)
termination_by (codec.drains flush).wrap (s.zstream, input)
decreasing_by exact s.fills_of_availOut_eq_zero codec flush input _h

end Loop

/-- The loop over the pieces of the input.  `avail_in` has 32 bits. -/
def codePieces (codec : Codec Z) (finish : Bool) :
    List (List Byte) → ZlibStream Z buffSize → Ret × ZlibStream Z buffSize
  | [], s => (.ok, s)
  | v :: vs, s =>
    let flush := if finish && vs.isEmpty then .finish else .noFlush
    let r := s.codeLoop codec flush (v.take (v.length % 2 ^ 32))
    if r.1 = .streamError then r else codePieces codec finish vs r.2

/-- `encode` and `decode`, which differ in the functions of zlib they call. -/
def code (codec : Codec Z) (s : ZlibStream Z buffSize) (v : List (List Byte)) (finish : Bool) :
    Ret × ZlibStream Z buffSize :=
  let r := codePieces codec finish v s
  if r.1 = .streamError then r
  else if finish && !v.isEmpty then
    (.ok, { r.2 with zstream := codec.close r.2.zstream })
  else (.ok, r.2)

variable (lib : Library Z)

def encode (s : ZlibStream Z buffSize) (v : List (List Byte)) (finish : Bool) :
    Ret × ZlibStream Z buffSize := s.code lib.deflate v finish

def decode (s : ZlibStream Z buffSize) (v : List (List Byte)) (finish : Bool) :
    Ret × ZlibStream Z buffSize := s.code lib.inflate v finish

def write (s : ZlibStream Z buffSize) (buffer : List Byte) : Ret × ZlibStream Z buffSize :=
  if s.isEncode then s.encode lib [buffer] false else s.decode lib [buffer] false

lemma getReadBuffers_ne_error {ba ba' : ByteArray} (wf : ba.WellFormed) {length : Nat}
    {e : Failure} : ba.getReadBuffers length ≠ .error e ba' := by
  obtain ⟨iovs, hok, -⟩ := ByteArray.getReadBuffers_spec wf length
  rw [hok]
  exact fun h => by cases h

def writeByteArray (s : ZlibStream Z buffSize) (ba : ByteArray) (wf : ba.WellFormed)
    (length : Nat) : Ret × ZlibStream Z buffSize :=
  let buffers :=
    match h : ba.getReadBuffers length with
    | .ok (_, buffers) _ => buffers.filterMap (ByteArray.gather ba.nodes)
    | .error _ _ => (getReadBuffers_ne_error wf h).elim
  if s.isEncode then s.encode lib buffers false else s.decode lib buffers false

def flush (s : ZlibStream Z buffSize) : Ret × ZlibStream Z buffSize :=
  if s.isEncode then s.encode lib [[]] true else s.decode lib [[]] true

def getResult (s : ZlibStream Z buffSize) : List Byte := s.buffs.flatMap Buff.data

/-- `getByteArray`, with the bytes that the allocator leaves in the nodes. -/
def getByteArray (s : ZlibStream Z buffSize) (fresh : Nat → Byte) :
    EStateM.Result Failure ByteArray Unit :=
  (do s.buffs.forM fun i => ByteArray.write i.data
      ByteArray.setPosition 0 : ByteArray.Action Unit) (.new 4096 fresh)

/-- A new stream, for zlib in the state that `deflateInit2` or `inflateInit2` leaves. -/
def new (hpos : 0 < buffSize) (hlt : buffSize < 2 ^ 32) (isEncode : Bool) (zstream : Z)
    (fresh : Nat → Nat → Byte) : ZlibStream Z buffSize where
  buffSize_pos := hpos
  buffSize_lt := hlt
  zstream := zstream
  isEncode := isEncode
  buffs := []
  fresh := fresh
  calls := []

/-! ## The chain -/

def produced (s : ZlibStream Z buffSize) : List Byte := s.calls.flatMap Call.out

/-- All buffers but the last are full, and together they hold what was produced. -/
structure Chained (s : ZlibStream Z buffSize) : Prop where
  full : ∀ ivc ∈ s.buffs.dropLast, ivc.len = buffSize
  result : s.getResult = s.produced

lemma chained_new (hpos : 0 < buffSize) (hlt : buffSize < 2 ^ 32) (isEncode : Bool) (zstream : Z)
    (fresh : Nat → Nat → Byte) : (new hpos hlt isEncode zstream fresh).Chained :=
  ⟨by simp [new], rfl⟩

variable {s s' : ZlibStream Z buffSize} {r : Ret × ZlibStream Z buffSize} {codec : Codec Z}

lemma Chained.current (h : s.Chained) : (∀ ivc ∈ s.current.1, ivc.len = buffSize) ∧
    s.current.1.flatMap Buff.data ++ s.current.2.data = s.produced := by
  rw [← h.result, getResult]
  unfold ZlibStream.current
  cases hlast : s.buffs.getLast? with
  | none =>
    have hnil := List.getLast?_eq_none_iff.mp hlast
    simp [hnil, Buff.data, Buff.new]
  | some ivc =>
    have hsplit := dropLast_append_getLast? ivc hlast
    by_cases hfull : ivc.len = buffSize
    · simp only [hfull, ne_eq, not_true_eq_false, if_false]
      refine ⟨fun other hmem => ?_, by simp [Buff.data, Buff.new]⟩
      rw [← hsplit, mem_append, mem_singleton] at hmem
      rcases hmem with hmem | rfl
      · exact h.full other hmem
      · exact hfull
    simp only [hfull, ne_eq]
    refine ⟨h.full, ?_⟩
    conv_rhs => rw [← hsplit]
    simp

lemma Buff.data_setLen_store {ivc : Buff buffSize} {out : List Byte}
    (h : ivc.len + out.length ≤ buffSize) :
    ((ivc.store out h).setLen (buffSize - ivc.len - out.length)).data = ivc.data ++ out := by
  have hlen : buffSize - (buffSize - ivc.len - out.length) = ivc.len + out.length := by omega
  show (splice ivc.base ivc.len out).take (buffSize - (buffSize - ivc.len - out.length)) = _
  rw [hlen]
  exact take_splice (by rw [ivc.length_base]; exact ivc.len_le)

lemma Chained.step (h : s.Chained) (flush : Flush) (input : List Byte) :
    (s.step codec flush input).Chained := by
  obtain ⟨hfull, hdata⟩ := h.current
  refine ⟨by simpa [ZlibStream.step] using hfull, ?_⟩
  have hproduced : (s.step codec flush input).produced =
      s.produced ++ (s.reply codec flush input).out := by
    simp [produced, ZlibStream.step]
  rw [hproduced, ← hdata, getResult, ZlibStream.step, flatMap_append, append_assoc]
  simp only [flatMap_singleton]
  by_cases herror : (s.reply codec flush input).ret = .streamError
  · have hout : (s.reply codec flush input).out = [] := codec.quiet _ _ _ _ herror
    simp [herror, Buff.store, hout]
  · rw [if_neg herror, availOut, Buff.data_setLen_store]

/-- A part of a run: it keeps the chain, and returns a stream error if and only if one of its calls
did. -/
structure Ran (s : ZlibStream Z buffSize) (r : Ret × ZlibStream Z buffSize) : Prop where
  chained : s.Chained → r.2.Chained
  isEncode : r.2.isEncode = s.isEncode
  returns : r.1 = .ok ∨ r.1 = .streamError
  log : ∃ new, r.2.calls = s.calls ++ new ∧
    (r.1 = .streamError ↔ ∃ call ∈ new, call.ret = .streamError)

lemma Ran.refl (s : ZlibStream Z buffSize) : Ran s (.ok, s) := ⟨id, rfl, Or.inl rfl, [], by simp⟩

lemma Ran.trans (h : Ran s (.ok, s')) (h' : Ran s' r) : Ran s r := by
  obtain ⟨new, hcalls, hnew⟩ := h.log
  obtain ⟨new', hcalls', hnew'⟩ := h'.log
  refine ⟨h'.chained ∘ h.chained, h'.isEncode.trans h.isEncode, h'.returns, new ++ new', ?_, ?_⟩
  · rw [hcalls', hcalls, append_assoc]
  · have hnone : ¬ ∃ call ∈ new, call.ret = .streamError := by simpa using hnew.not.mp
    simp only [mem_append, or_and_right, exists_or, hnone, false_or, hnew']

lemma Ran.step {ret : Ret} (hret : ret = .ok ∨ ret = .streamError) (flush : Flush)
    (input : List Byte) (h : ret = .streamError ↔ (s.reply codec flush input).ret = .streamError) :
    Ran s (ret, s.step codec flush input) :=
  ⟨fun hs => hs.step flush input, rfl, hret, [_], rfl, by simpa using h⟩

lemma Ran.codeLoop (flush : Flush) (s : ZlibStream Z buffSize) (input : List Byte) :
    Ran s (s.codeLoop codec flush input) := by
  fun_induction ZlibStream.codeLoop codec flush s input with
  | case1 s input herror => exact Ran.step (Or.inr rfl) flush input (iff_of_true rfl herror)
  | case2 s input herror hfull ih =>
    have hstep : Ran s (.ok, s.step codec flush input) :=
      Ran.step (Or.inl rfl) flush input (iff_of_false (by simp) herror)
    exact hstep.trans ih
  | case3 s input herror hroom =>
    exact Ran.step (Or.inl rfl) flush input (iff_of_false (by simp) herror)

lemma Ran.eq_ok (h : Ran s r) (hne : r.1 ≠ .streamError) : Ran s (.ok, r.2) := by
  have hok := h.returns.resolve_right hne
  rw [← hok]
  exact h

lemma Ran.codePieces (finish : Bool) (v : List (List Byte)) (s : ZlibStream Z buffSize) :
    Ran s (ZlibStream.codePieces codec finish v s) := by
  induction v generalizing s with
  | nil => exact Ran.refl s
  | cons v vs ih =>
    rw [ZlibStream.codePieces]
    generalize (if finish && vs.isEmpty then Flush.finish else Flush.noFlush) = flush
    split
    · exact Ran.codeLoop ..
    · next hne => exact ((Ran.codeLoop ..).eq_ok hne).trans (ih _)

lemma Ran.code (s : ZlibStream Z buffSize) (v : List (List Byte)) (finish : Bool) :
    Ran s (s.code codec v finish) := by
  rw [ZlibStream.code]
  split
  · exact Ran.codePieces ..
  next hne =>
    have hran := (Ran.codePieces finish v s).eq_ok hne
    split
    · exact ⟨fun hs => ⟨(hran.chained hs).full, (hran.chained hs).result⟩, hran.isEncode,
        hran.returns, hran.log⟩
    · exact hran

lemma Ran.encode_or_decode (s : ZlibStream Z buffSize) (v : List (List Byte)) (finish : Bool) :
    Ran s (if s.isEncode then s.encode lib v finish else s.decode lib v finish) := by
  split <;> exact Ran.code ..

lemma Ran.flush (s : ZlibStream Z buffSize) : Ran s (s.flush lib) :=
  Ran.encode_or_decode lib s [[]] true

lemma getByteArray_spec (s : ZlibStream Z buffSize) (fresh : Nat → Byte)
    (hroom : s.getResult.length + 4096 ≤ word64) :
    ∃ ba, s.getByteArray fresh = .ok () ba ∧ ba.unread = s.getResult := by
  have happends : ∀ buffs : List (Buff buffSize), ByteArray.Appends .big
      (buffs.forM fun i => ByteArray.write i.data) (buffs.flatMap Buff.data) := by
    intro buffs
    induction buffs with
    | nil => exact ByteArray.Appends.nil
    | cons ivc buffs ih =>
      have hlen : ivc.data.length < 2 ^ 53 := by
        have hle : ivc.data.length ≤ ivc.base.length := length_take_le' ..
        have hbase := ivc.length_base
        have hlt := s.buffSize_lt
        omega
      exact (ByteArray.write_appends hlen).seq ih
  have hstart : (ByteArray.new 4096 fresh).WellFormed :=
    ByteArray.wellFormed_new fresh (by decide) (by decide)
  obtain ⟨b₁, hrun₁, h₁, -, hend₁, -, hw₁⟩ := happends s.buffs (.new 4096 fresh) hstart rfl rfl (by
    show 0 + s.getResult.length + 4096 ≤ word64
    omega)
  obtain ⟨b₂, hrun₂, -, -, hun₂⟩ := ByteArray.setPosition_zero h₁ hend₁
  refine ⟨b₂, ?_, ?_⟩
  · rw [getByteArray, ByteArray.bind_of_ok hrun₁, hrun₂]
  · rw [hun₂, hw₁]
    rfl

end ZlibStream

inductive Write where
  | plain (buffer : List Byte)
  | byteArray (ba : ByteArray) (wf : ba.WellFormed) (length : Nat)

variable {Z : Type} {buffSize : Nat}

def Write.exec (lib : Library Z) (s : ZlibStream Z buffSize) : Write → Ret × ZlibStream Z buffSize
  | .plain buffer => s.write lib buffer
  | .byteArray ba wf length => s.writeByteArray lib ba wf length

/-- The writes, whatever they return, and `flush`: the codes returned and the stream. -/
def run (lib : Library Z) : List Write → ZlibStream Z buffSize → List Ret × ZlibStream Z buffSize
  | [], s => ([(s.flush lib).1], (s.flush lib).2)
  | w :: ws, s => ((w.exec lib s).1 :: (run lib ws (w.exec lib s).2).1,
      (run lib ws (w.exec lib s).2).2)

lemma Write.ran (lib : Library Z) (s : ZlibStream Z buffSize) (w : Write) :
    s.Ran (w.exec lib s) := by
  cases w with
  | plain buffer => exact ZlibStream.Ran.encode_or_decode lib s [buffer] false
  | byteArray ba wf length => exact ZlibStream.Ran.encode_or_decode lib s _ false

lemma chained_run (lib : Library Z) (ws : List Write) {s : ZlibStream Z buffSize}
    (h : s.Chained) : (run lib ws s).2.Chained := by
  induction ws generalizing s with
  | nil => exact (ZlibStream.Ran.flush lib s).chained h
  | cons w ws ih => exact ih ((w.ran lib s).chained h)

/-- For every sequence of writes followed by a flush: all buffers but the last are full, and the
result is the output of all calls in order. -/
theorem chain_holds_output (lib : Library Z) (hpos : 0 < buffSize) (hlt : buffSize < 2 ^ 32)
    (isEncode : Bool) (zstream : Z) (fresh : Nat → Nat → Byte) (ws : List Write) :
    let s := (run lib ws (.new hpos hlt isEncode zstream fresh)).2
    (∀ ivc ∈ s.buffs.dropLast, ivc.len = buffSize) ∧
      s.getResult = s.calls.flatMap Call.out ∧
      ∀ nodes : Nat → Byte, s.getResult.length + 4096 ≤ word64 →
        ∃ ba, s.getByteArray nodes = .ok () ba ∧ ba.unread = s.calls.flatMap Call.out := by
  intro s
  have hchained : s.Chained := chained_run lib ws (ZlibStream.chained_new ..)
  refine ⟨hchained.full, hchained.result, fun nodes hroom => ?_⟩
  obtain ⟨ba, hba, hunread⟩ := s.getByteArray_spec nodes hroom
  exact ⟨ba, hba, hunread.trans hchained.result⟩

def settled (verdict : Ret) (h : verdict ≠ .streamError) : Codec (List Byte) where
  call pending _ _ avail :=
    { state := pending.drop avail, rest := [], out := pending.take avail
      ret := if pending.length ≤ avail then verdict else .ok }
  close := id
  out_le pending _ _ avail := length_take_le avail pending
  quiet pending _ _ avail hret := by
    split at hret
    · exact absurd hret h
    · cases hret
  drains flush := by
    refine Subrelation.wf ?_
      (InvImage.wf (fun x : List Byte × List Byte => x.1.length) Nat.lt_wfRel.wf)
    rintro next cur ⟨avail, hpos, hfull, rfl⟩
    show (cur.1.drop avail).length < cur.1.length
    rw [length_take] at hfull
    rw [length_drop]
    omega

theorem chain_holds_output_settled :
    let s := (run ⟨settled .streamEnd (by decide), settled .streamEnd (by decide)⟩
      [.plain [1, 2]] (.new (show 0 < 2 by decide) (by decide) true [3, 4, 5] fun _ _ => 0)).2
    (∀ ivc ∈ s.buffs.dropLast, ivc.len = 2) ∧ s.getResult = s.calls.flatMap Call.out :=
  have h := chain_holds_output ⟨settled .streamEnd (by decide), settled .streamEnd (by decide)⟩
    (show 0 < 2 by decide) (by decide) true [3, 4, 5] (fun _ _ => 0) [.plain [1, 2]]
  ⟨h.1, h.2.1⟩

end Yuyu.Zlib
