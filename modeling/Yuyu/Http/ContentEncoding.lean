import Yuyu.Http.Limits
import Yuyu.Zlib.Stream

/-!
# Content encodings

`recvResponse` decodes a `gzip` or `deflate` body by one write and a flush of a `ZlibStream`, and
stores the result whatever they return.  `decode` returns an error only for `Z_STREAM_ERROR`.
-/

namespace Yuyu
namespace Zlib

variable {Z : Type} {buffSize : Nat}

/-- No call reported an error, and the end of the stream was reached. -/
def Decompressed (calls : List Call) : Prop :=
  (∀ call ∈ calls, call.ret = .ok ∨ call.ret = .streamEnd) ∧ ∃ call ∈ calls, call.ret = .streamEnd

lemma ZlibStream.Ran.ok_iff {s : ZlibStream Z buffSize} {r : Ret × ZlibStream Z buffSize}
    (h : s.Ran r) : ∃ new, r.2.calls = s.calls ++ new ∧
      (r.1 = .ok ↔ ∀ call ∈ new, call.ret ≠ .streamError) := by
  obtain ⟨new, hcalls, herror⟩ := h.log
  refine ⟨new, hcalls, ?_⟩
  have hnot : r.1 = .ok ↔ ¬ r.1 = .streamError := by
    rcases h.returns with hret | hret <;> simp [hret]
  rw [hnot, herror]
  simp

lemma run_ok_iff (lib : Library Z) (ws : List Write) (s : ZlibStream Z buffSize) :
    ∃ new, (run lib ws s).2.calls = s.calls ++ new ∧
      ((∀ ret ∈ (run lib ws s).1, ret = .ok) ↔ ∀ call ∈ new, call.ret ≠ .streamError) := by
  induction ws generalizing s with
  | nil =>
    obtain ⟨new, hcalls, hok⟩ := (ZlibStream.Ran.flush lib s).ok_iff
    exact ⟨new, hcalls, by simpa [run] using hok⟩
  | cons w ws ih =>
    obtain ⟨new, hcalls, hok⟩ := (w.ran lib s).ok_iff
    obtain ⟨more, hmore, hrest⟩ := ih (w.exec lib s).2
    refine ⟨new ++ more, by rw [run, hmore, hcalls, List.append_assoc], ?_⟩
    simp only [run, List.forall_mem_cons, List.forall_mem_append, hok, hrest]

lemma reported_iff (lib : Library Z) (ws : List Write) (hpos : 0 < buffSize)
    (hlt : buffSize < 2 ^ 32) (z : Z) (fresh : Nat → Nat → Byte) :
    let r := run lib ws (.new hpos hlt false z fresh)
    ((∀ ret ∈ r.1, ret = .ok) → Decompressed r.2.calls) ↔
      (∃ call ∈ r.2.calls, call.ret = .streamError) ∨ Decompressed r.2.calls := by
  intro r
  obtain ⟨new, hcalls, hok⟩ := run_ok_iff lib ws (.new hpos hlt false z fresh)
  have hnew : r.2.calls = new := hcalls
  rw [hok, hnew, imp_iff_not_or]
  simp

lemma ZlibStream.codePieces_of_room {codec : Codec Z} {s : ZlibStream Z buffSize} {v : List Byte}
    {flush : Flush} (finish : Bool) (hflush : flush = if finish then .finish else .noFlush)
    (hret : (s.reply codec flush (v.take (v.length % 2 ^ 32))).ret ≠ .streamError)
    (hroom : s.availOut codec flush (v.take (v.length % 2 ^ 32)) ≠ 0) :
    ZlibStream.codePieces codec finish [v] s =
      (.ok, s.step codec flush (v.take (v.length % 2 ^ 32))) := by
  have hloop : s.codeLoop codec flush (v.take (v.length % 2 ^ 32)) =
      (.ok, s.step codec flush (v.take (v.length % 2 ^ 32))) := by
    rw [ZlibStream.codeLoop, if_neg hret, dif_neg hroom]
  rw [ZlibStream.codePieces, List.isEmpty_nil, Bool.and_true, ← hflush, hloop]
  rfl

end Zlib

namespace Http

open Zlib

inductive Coding where
  | gzip
  | deflate

/-- `inflate`, the states that `inflateInit2` gives it for each encoding, and the memory of the
buffers. -/
structure Inflater (Z : Type) where
  lib : Library Z
  start : Coding → Z
  fresh : Nat → Nat → Byte

variable {Z : Type}

namespace Inflater

def decode (x : Inflater Z) (coding : Coding) (body : Bytes) : List Ret × ZlibStream Z 4096 :=
  run x.lib [.plain (body.map UInt8.toBitVec)]
    (.new (by decide) (by decide) false (x.start coding) x.fresh)

def result (x : Inflater Z) (coding : Coding) (body : Bytes) : Bytes :=
  (x.decode coding body).2.getResult.map UInt8.ofBitVec

def client (x : Inflater Z) (cfg : Config) : ClientConfig :=
  { cfg with gunzip := x.result .gzip, inflate := x.result .deflate }

end Inflater

def HttpResponse.coding (rsp : HttpResponse) : Option Coding :=
  let contentEncoding := rsp.getHeader (ascii "content-encoding") []
  if strcasecmp contentEncoding (ascii "gzip") = .eq then some .gzip
  else if strcasecmp contentEncoding (ascii "deflate") = .eq then some .deflate
  else none

lemma setDecodedBody_client (x : Inflater Z) (cfg : Config) {rsp : HttpResponse} {body : Bytes}
    {coding : Coding} (hne : body ≠ []) (hcoding : rsp.coding = some coding) :
    setDecodedBody (x.client cfg) rsp body = { rsp with body := x.result coding body } := by
  rw [setDecodedBody, if_neg hne]
  unfold HttpResponse.coding at hcoding
  dsimp only at hcoding
  split at hcoding
  · next hgzip =>
      cases hcoding
      exact if_pos hgzip
  next hgzip =>
    split at hcoding
    · next hdeflate =>
        cases hcoding
        exact (if_neg hgzip).trans (if_pos hdeflate)
    · cases hcoding

/-- A response whose header section and body `raw` were received. -/
structure Receives (cfg : ClientConfig) (memory : HttpclientParser) (sock : Socket)
    (coding : Coding) (raw : Bytes) : Prop where
  raw_ne_nil : raw ≠ []
  received : ∃ parser held rest parser' rest',
    recvResponseHeader cfg (sock.unread + 1) (.new memory) [] sock = .ok (some (parser, held, rest))
      ∧ receivedBody cfg parser held rest = .ok (some (parser', raw, rest'))
      ∧ parser'.data.coding = some coding

theorem Receives.recvResponse {x : Inflater Z} {cfg : Config} {memory : HttpclientParser}
    {sock : Socket} {coding : Coding} {raw : Bytes}
    (h : Receives (x.client cfg) memory sock coding raw) :
    ∃ r, Http.recvResponse (x.client cfg) memory sock = .ok (some r) ∧
      r.1.body = x.result coding raw := by
  obtain ⟨parser, held, rest, parser', rest', hheader, hbody, hcoding⟩ := h.received
  refine ⟨(setDecodedBody (x.client cfg) parser'.data raw, rest'), ?_, ?_⟩
  · rw [Http.recvResponse, hheader]
    simp only [recvResponseBody_eq, hbody]
    rfl
  · rw [setDecodedBody_client x cfg h.raw_ne_nil hcoding]

/-- When `Z_OK` from all calls of a decoding stream implies a complete decompression. A response is
returned whatever zlib reports. -/
theorem decompression_reported_iff (x : Inflater Z) :
    (∀ (buffSize : Nat) (hpos : 0 < buffSize) (hlt : buffSize < 2 ^ 32) (z : Z) (ws : List Write),
      let r := run x.lib ws (.new hpos hlt false z x.fresh)
      ((∀ ret ∈ r.1, ret = .ok) → Decompressed r.2.calls) ↔
        (∃ call ∈ r.2.calls, call.ret = .streamError) ∨ Decompressed r.2.calls) ∧
    ∀ (cfg : Config) (memory : HttpclientParser) (sock : Socket) (coding : Coding) (raw : Bytes),
      Receives (x.client cfg) memory sock coding raw →
      ((∀ r, recvResponse (x.client cfg) memory sock = .ok (some r) →
          r.1.body = x.result coding raw ∧ Decompressed (x.decode coding raw).2.calls) ↔
        Decompressed (x.decode coding raw).2.calls) := by
  refine ⟨fun buffSize hpos hlt z ws => reported_iff x.lib ws hpos hlt z x.fresh, ?_⟩
  intro cfg memory sock coding raw hreceives
  obtain ⟨r, hr, hbody⟩ := hreceives.recvResponse
  constructor
  · intro h
    exact (h r hr).2
  intro h r' hr'
  rw [hr] at hr'
  cases hr'
  exact ⟨hbody, h⟩

def damagedBody : Bytes := [0, 2, 0, 253, 255, 104, 105, 7]

def damagedInflater : Inflater (List Byte) where
  lib := ⟨settled .dataError (by decide), settled .dataError (by decide)⟩
  start := fun _ => [104, 105]
  fresh := fun _ _ => 0

lemma damagedInflater_decode : (damagedInflater.decode .deflate damagedBody).1 = [.ok, .ok] ∧
    (damagedInflater.decode .deflate damagedBody).2.calls =
      [⟨.dataError, [104, 105]⟩, ⟨.dataError, []⟩] := by
  let codec := settled .dataError (by decide)
  let s₀ : ZlibStream (List Byte) 4096 := .new (by decide) (by decide) false [104, 105] fun _ _ => 0
  let v := damagedBody.map UInt8.toBitVec
  let s₁ := s₀.step codec .noFlush (v.take (v.length % 2 ^ 32))
  have hwrite : s₀.write damagedInflater.lib v = (.ok, s₁) := by
    show s₀.code codec [v] false = _
    rw [ZlibStream.code, ZlibStream.codePieces_of_room false rfl (by decide +kernel)
      (by decide +kernel)]
    rfl
  have hflush : (s₁.flush damagedInflater.lib).1 = .ok ∧
      (s₁.flush damagedInflater.lib).2.calls = (s₁.step codec .finish []).calls := by
    have hcode : s₁.flush damagedInflater.lib = s₁.code codec [[]] true := rfl
    rw [hcode, ZlibStream.code, ZlibStream.codePieces_of_room true rfl (by decide +kernel)
      (by decide +kernel)]
    exact ⟨rfl, rfl⟩
  have hrun : damagedInflater.decode .deflate damagedBody =
      ([(s₀.write damagedInflater.lib v).1, ((s₀.write damagedInflater.lib v).2.flush _).1],
        ((s₀.write damagedInflater.lib v).2.flush damagedInflater.lib).2) := rfl
  rw [hrun, hwrite, hflush.1, hflush.2]
  exact ⟨rfl, by decide +kernel⟩

def damagedResponse : Socket :=
  [ascii "HTTP/1.1 200 OK\r\ncontent-encoding: deflate\r\ncontent-length: 8\r\n\r\n" ++ damagedBody]

def damagedParser : HttpResponseParser where
  parser :=
    { HttpclientParser.zeroed with
      cs := ClientAutomaton.httpclientParserFirstFinal, bodyStart := 65, contentLen := 8
      status := 200, mark := 60, fieldStart := 44, fieldLen := 14 }
  data :=
    { HttpResponse.default with
      reason := ascii "OK"
      headers :=
        [(ascii "content-encoding", ascii "deflate"), (ascii "content-length", ascii "8")] }
  error := 0

/-- All calls return `Z_OK` for a damaged body, and the response has the part before the damage. -/
theorem partial_body_returned :
    (damagedInflater.decode .deflate damagedBody).1 = [.ok, .ok] ∧
      ¬ Decompressed (damagedInflater.decode .deflate damagedBody).2.calls ∧
      ∃ r, recvResponse (damagedInflater.client ⟨128, fun _ => some 8⟩) .zeroed damagedResponse =
        .ok (some r) ∧ r.1.body = ascii "hi" := by
  obtain ⟨hok, hcalls⟩ := damagedInflater_decode
  have hreceives : Receives (damagedInflater.client ⟨128, fun _ => some 8⟩) .zeroed damagedResponse
      .deflate damagedBody :=
    ⟨by decide, damagedParser, damagedBody, [], damagedParser, [], by decide +kernel,
      by decide +kernel, rfl⟩
  obtain ⟨r, hr, hbody⟩ := hreceives.recvResponse
  have hresult : (damagedInflater.decode .deflate damagedBody).2.getResult = [104, 105] := by
    have hchained : (damagedInflater.decode .deflate damagedBody).2.Chained :=
      chained_run _ _ (ZlibStream.chained_new ..)
    rw [hchained.result, ZlibStream.produced, hcalls]
    rfl
  refine ⟨hok, ?_, r, hr, ?_⟩
  · rw [hcalls]
    rintro ⟨hnone, -⟩
    simpa using hnone _ List.mem_cons_self
  · rw [hbody, Inflater.result, hresult]
    rfl

end Http
end Yuyu
