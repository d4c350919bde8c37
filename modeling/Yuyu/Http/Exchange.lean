import Yuyu.Http.Connection
import Yuyu.Http.Dump

/-!
# One request on a connection

The part of `HttpConnectionPool::doRequest` between `getConnection` and the release. A wire is the
history of a connection, as ghost data. It is clean if the next bytes to come belong to the next
request.
-/

namespace Yuyu.Http

open Foundation List

/-- The loop of `Stream::writeFixSize` over the results of `write`: the result that ends it, unless
all is written, and the number of bytes written. -/
def writeLoop : List Int → Nat → Option Int × Nat
  | _, 0 => (none, 0)
  | [], _ + 1 => (some (-1), 0)
  | w :: writes, left + 1 =>
    if w ≤ 0 then (some w, 0)
    else
      let taken := min w.toNat (min (left + 1) maxRwCount)
      let r := writeLoop writes (left + 1 - taken)
      (r.1, taken + r.2)

/-- The value returned and the number of bytes written.  The length is returned as an `int`. -/
def writeFixSize (length : Nat) (writes : List Int) : Int × Nat :=
  let r := writeLoop writes length
  (r.1.getD (toInt32 length), r.2)

lemma writeLoop_cases (writes : List Int) (left : Nat) :
    (writeLoop writes left).1 = none ∧ (writeLoop writes left).2 = left ∨
      (∃ w ≤ 0, (writeLoop writes left).1 = some w) ∧ (writeLoop writes left).2 < left := by
  induction writes generalizing left with
  | nil =>
    cases left with
    | zero => exact .inl ⟨rfl, rfl⟩
    | succ left => exact .inr ⟨⟨-1, by decide, rfl⟩, Nat.succ_pos left⟩
  | cons w writes ih =>
    cases left with
    | zero => exact .inl ⟨rfl, rfl⟩
    | succ left =>
      rw [writeLoop]
      split
      · next hw => exact .inr ⟨⟨w, hw, rfl⟩, Nat.succ_pos left⟩
      next hw =>
        rcases ih (left + 1 - min w.toNat (min (left + 1) maxRwCount)) with
          ⟨hnone, hall⟩ | ⟨hsome, hlt⟩
        · exact .inl ⟨hnone, by dsimp only; omega⟩
        · exact .inr ⟨hsome, by dsimp only; omega⟩

/-- When sending a request is reported as a success. -/
theorem writeFixSize_pos_iff (length : Nat) (writes : List Int) :
    0 < (writeFixSize length writes).1 ↔
      (writeFixSize length writes).2 = length ∧ 0 < toInt32 length := by
  simp only [writeFixSize]
  rcases writeLoop_cases writes length with ⟨hnone, hall⟩ | ⟨⟨w, hw, hsome⟩, hlt⟩
  · rw [hnone, Option.getD_none]
    exact ⟨fun hpos => ⟨hall, hpos⟩, fun h => h.2⟩
  rw [hsome, Option.getD_some]
  constructor
  · intro hpos
    omega
  · intro h
    omega

def sendRequest (req : FullRequest) (writes : List Int) : Int × Nat :=
  writeFixSize req.dump.length writes

section Receiving

variable (cfg : ClientConfig)

def chunksSurplus (parser : HttpResponseParser) (held : Bytes) (sock : Socket) : Bytes :=
  match (acceptedLines cfg (chunkRounds held sock) parser [] held sock).getLast? with
  | some (l, body) =>
    match takeChunk cfg l body with
    | .ok (some (_, held, _)) => held
    | _ => []
  | none => []

/-- The bytes that `recvResponse` has read beyond the response.  They are in its
buffer, which goes away. -/
def recvSurplus (memory : HttpclientParser) (sock : Socket) : Bytes :=
  match recvResponseHeader cfg (sock.unread + 1) (.new memory) [] sock with
  | .ok (some (parser, held, sock)) =>
    if parser.parser.chunked then chunksSurplus cfg parser held sock
    else held.drop (parser.getContentLength cfg.lexicalCast).toBitVec.toInt.toNat
  | _ => []

end Receiving

/-! ## Exchanges -/

/-- What one call of `doRequest` meets on its connection. -/
structure Exchange where
  request : FullRequest
  writes : List Int
  /-- What arrives while the response is read; then reading fails. -/
  reply : Socket
  /-- What the peer sends in answer after that. -/
  late : Socket
  memory : HttpclientParser
  /-- What an exception leaves unread. -/
  left : Socket

structure Wire where
  /-- The requests, with the number of bytes sent of each. -/
  requests : List (Bytes × Nat) := []
  responses : Nat := 0
  /-- What was or will be received and was not read. -/
  unread : Socket := []
  /-- What was read and is not part of a response. -/
  lost : Bytes := []

/-- Every request was sent completely and every response was consumed completely. -/
structure Wire.Clean (w : Wire) : Prop where
  sent : ∀ r ∈ w.requests, r.2 = r.1.length
  answered : w.responses = w.requests.length
  unread : w.unread = []
  lost : w.lost = []

instance (w : Wire) : Decidable w.Clean :=
  decidable_of_iff
    ((∀ r ∈ w.requests, r.2 = r.1.length) ∧ w.responses = w.requests.length ∧ w.unread = [] ∧
      w.lost = [])
    ⟨fun ⟨h₁, h₂, h₃, h₄⟩ => ⟨h₁, h₂, h₃, h₄⟩, fun ⟨h₁, h₂, h₃, h₄⟩ => ⟨h₁, h₂, h₃, h₄⟩⟩

def pendingSegments (sock : Socket) : Socket := sock.filter fun segment => !segment.isEmpty

lemma pendingSegments_eq_nil (sock : Socket) : pendingSegments sock = [] ↔ sock.flatten = [] := by
  simp [pendingSegments, filter_eq_nil_iff, flatten_eq_nil_iff]

/-- `doRequest` behind `getConnection`: the wire, and whether the socket is closed. Only
`recvResponse` closes it, when it returns a null pointer. -/
def Wire.exchange (cfg : ClientConfig) (w : Wire) (x : Exchange) : Option (Wire × Bool) :=
  let sent := sendRequest x.request x.writes
  let sock := w.unread ++ x.reply
  let w := { w with requests := w.requests ++ [(x.request.dump, sent.2)] }
  if sent.1 ≤ 0 then some ({ w with unread := pendingSegments (sock ++ x.late) }, false)
  else
    match recvResponse cfg x.memory sock with
    | .ok (some (_, rest)) =>
      some ({ w with
        responses := w.responses + 1
        unread := pendingSegments (rest ++ x.late)
        lost := w.lost ++ recvSurplus cfg x.memory sock }, false)
    | .ok none => some ({ w with unread := [] }, true)
    | .error .lengthError => some ({ w with unread := pendingSegments (x.left ++ x.late) }, false)
    | .error _ => none

/-- The whole request is sent, and its length is a positive `int`. -/
def Exchange.SendsAll (x : Exchange) : Prop :=
  (sendRequest x.request x.writes).2 = x.request.dump.length ∧ 0 < toInt32 x.request.dump.length
deriving Decidable

/-- The response consumes all that the peer sends in answer, or `recvResponse` closes
the socket. -/
def Exchange.Settles (cfg : ClientConfig) (x : Exchange) : Prop :=
  match recvResponse cfg x.memory x.reply with
  | .ok (some (_, rest)) =>
    rest.flatten = [] ∧ x.late.flatten = [] ∧ recvSurplus cfg x.memory x.reply = []
  | .ok none => True
  | .error e => e ≠ .lengthError

instance (cfg : ClientConfig) (x : Exchange) : Decidable (x.Settles cfg) :=
  match h : recvResponse cfg x.memory x.reply with
  | .ok (some (_, rest)) =>
    decidable_of_iff
      (rest.flatten = [] ∧ x.late.flatten = [] ∧ recvSurplus cfg x.memory x.reply = [])
      (by simp only [Exchange.Settles, h])
  | .ok none => .isTrue (by simp only [Exchange.Settles, h])
  | .error e => decidable_of_iff (e ≠ .lengthError) (by simp only [Exchange.Settles, h])

section Exchanges

variable {cfg : ClientConfig} {w : Wire} {x : Exchange}

lemma Wire.Clean.sent_append (h : w.Clean) {data : Bytes} {n : Nat} (hn : n = data.length) :
    ∀ r ∈ w.requests ++ [(data, n)], r.2 = r.1.length := by
  intro r hr
  rcases mem_append.mp hr with hold | hnew
  · exact h.sent r hold
  · rw [mem_singleton.mp hnew]
    exact hn

lemma Wire.Clean.not_clean_of_unanswered (h : w.Clean) {data : Bytes} {n : Nat} {unread : Socket} :
    ¬Wire.Clean { w with requests := w.requests ++ [(data, n)], unread := unread } := by
  intro hclean
  have hcount := hclean.answered
  simp only [length_append, length_singleton, h.answered] at hcount
  omega

lemma Wire.Clean.clean_answered_iff (h : w.Clean) {data lost : Bytes} {n : Nat} {rest : Socket}
    (hn : n = data.length) : Wire.Clean { w with
          requests := w.requests ++ [(data, n)]
          responses := w.responses + 1
          unread := pendingSegments rest
          lost := w.lost ++ lost } ↔ rest.flatten = [] ∧ lost = [] := by
  constructor
  · intro hclean
    refine ⟨(pendingSegments_eq_nil rest).mp hclean.unread, ?_⟩
    have hlost := hclean.lost
    rwa [h.lost, nil_append] at hlost
  rintro ⟨hrest, rfl⟩
  refine ⟨h.sent_append hn, ?_, (pendingSegments_eq_nil rest).mpr hrest, ?_⟩
  · simp only [h.answered, length_append, length_singleton]
  · simp only [h.lost, append_nil]

/-- Which exchanges leave a clean wire clean. -/
theorem Wire.Clean.exchange_iff (h : w.Clean) (x : Exchange) :
    (∀ w', w.exchange cfg x = some (w', false) → w'.Clean) ↔ x.SendsAll ∧ x.Settles cfg := by
  have hsock : w.unread ++ x.reply = x.reply := by rw [h.unread, nil_append]
  have hsends : x.SendsAll ↔ 0 < (sendRequest x.request x.writes).1 :=
    (writeFixSize_pos_iff _ _).symm
  have hlength : 0 < (sendRequest x.request x.writes).1 →
      (sendRequest x.request x.writes).2 = x.request.dump.length :=
    fun hpos => ((writeFixSize_pos_iff _ _).mp hpos).1
  rw [hsends]
  simp only [exchange, hsock, Exchange.Settles]
  generalize sendRequest x.request x.writes = sent at hlength ⊢
  by_cases hpos : 0 < sent.1
  · simp only [if_neg (Int.not_le.mpr hpos), hpos, true_and]
    cases recvResponse cfg x.memory x.reply with
    | error e =>
      cases e with
      | lengthError =>
        simp only [ne_eq, not_true_eq_false, iff_false]
        exact fun hall => h.not_clean_of_unanswered (hall _ rfl)
      | signedOverflow | outOfBounds | assertion => simp
    | ok r =>
      cases r with
      | none => simp
      | some r =>
        simp only [Option.some.injEq, Prod.mk.injEq, and_true, forall_eq']
        rw [h.clean_answered_iff (hlength hpos), flatten_append, append_eq_nil_iff, and_assoc]
  · simp only [if_pos (Int.not_lt.mp hpos), hpos, false_and, iff_false]
    exact fun hall => h.not_clean_of_unanswered (hall _ rfl)

end Exchanges

end Yuyu.Http
