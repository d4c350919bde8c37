import Yuyu.Foundation.Scanner
import Yuyu.Http.ChunkLoop

/-!
# The length of a header section

The automata find the end of a header section on the bytes alone.  However these are cut into
reads, the loops of `recvRequest` and `recvResponse` accept exactly the section up to there.
-/

namespace Yuyu.Http

open Foundation List
open Foundation.Scanner (scan Outcome)

/-- A run of generated code against a scan of the same bytes: it is in the error state, or ends
where the scan does. -/
def Agrees (step : Nat → UInt8 → Option (Nat × Bool)) (final : Nat → Prop)
    (error s p : Nat) (bytes : Bytes) (cs n : Nat) : Prop :=
  cs = error ∨ ∃ k, n = p + k ∧ k ≤ bytes.length ∧
    ((final cs ∧ scan step s bytes = .stopped k cs) ∨
      (¬ final cs ∧ scan step s bytes = (scan step cs (bytes.drop k)).shift k))

section Agrees

variable {step : Nat → UInt8 → Option (Nat × Bool)} {final : Nat → Prop}
  {error s t p cs n : Nat} {bytes : Bytes} {c : UInt8}

lemma Agrees.refl (final : Nat → Prop) (hs : ¬ final s) (bytes : Bytes) :
    Agrees step final error s p bytes s p :=
  Or.inr ⟨0, rfl, Nat.zero_le _, Or.inr ⟨hs, (Outcome.shift_zero _).symm⟩⟩

lemma Agrees.stop (hstep : step s c = some (t, true)) (ht : final t) :
    Agrees step final error s p (c :: bytes) t (p + 1) := by
  refine Or.inr ⟨1, rfl, by simp, Or.inl ⟨ht, ?_⟩⟩
  rw [scan, hstep]

lemma Agrees.cons (hstep : step s c = some (t, false))
    (h : Agrees step final error t (p + 1) bytes cs n) :
    Agrees step final error s p (c :: bytes) cs n := by
  rcases h with herror | ⟨k, hn, hk, hscan⟩
  · exact Or.inl herror
  refine Or.inr ⟨k + 1, by omega, Nat.succ_le_succ hk, ?_⟩
  rw [scan, hstep, drop_succ_cons]
  dsimp only
  rcases hscan with ⟨hfinal, hstop⟩ | ⟨hnot, hon⟩
  · rw [hstop]
    exact Or.inl ⟨hfinal, rfl⟩
  · rw [hon, Outcome.shift_shift]
    exact Or.inr ⟨hnot, rfl⟩

lemma Agrees.buffer (h : Agrees step final error s 0 bytes cs n) (herror : cs ≠ error)
    (tail : Bytes) :
    n ≤ bytes.length ∧ ((final cs ∧ scan step s (bytes ++ tail) = .stopped n cs) ∨
      (¬ final cs ∧
        scan step s (bytes ++ tail) = (scan step cs (bytes.drop n ++ tail)).shift n)) := by
  rcases h with hbad | ⟨k, hn, hk, hscan⟩
  · exact absurd hbad herror
  rw [Nat.zero_add] at hn
  subst hn
  refine ⟨hk, ?_⟩
  rcases hscan with ⟨hfinal, hstop⟩ | ⟨hnot, hon⟩
  · rw [Scanner.scan_append, hstop]
    exact Or.inl ⟨hfinal, rfl⟩
  refine Or.inr ⟨hnot, Scanner.scan_append_shift hon ?_ tail⟩
  rw [length_drop]
  omega

end Agrees

lemma Socket.append_recv (held : Bytes) (n : Nat) (sock : Socket) :
    held ++ sock.flatten = held ++ (sock.recv n).1 ++ (sock.recv n).2.flatten := by
  rw [append_assoc]
  exact congrArg (held ++ ·) (Segments.read_append_flatten _ sock).symm

lemma Socket.append_recv_ne_nil {held : Bytes} {n : Nat} {sock : Socket}
    (h : (sock.recv n).1.length ≠ 0) : held ++ (sock.recv n).1 ≠ [] := by
  intro hnil
  rw [append_eq_nil_iff] at hnil
  exact h (by rw [hnil.2, length_nil])

/-- The loop accepts what a scan of all the bytes does, if every call of the parser agrees with
the scan. -/
theorem HeaderParser.recv_length {P ε : Type} {H : HeaderParser P ε} {size reads : Nat}
    {step : Nat → UInt8 → Option (Nat × Bool)} {final : Nat → Prop} {m m' : P}
    {held held' : Bytes} {sock sock' : Socket} (error : Nat) (cs : P → Nat) (keeps : P → Prop)
    (hexec : ∀ {m m' data rest}, data ≠ [] → keeps m → ¬ final (cs m) →
      H.execute m data = .ok (m', rest) → keeps m' ∧ ∃ n, rest = data.drop n ∧
        Agrees step final error (cs m) 0 data (cs m') n)
    (hgood : ∀ {m}, H.hasError m = false →
      cs m ≠ error ∧ (H.isFinished m = true ↔ final (cs m)))
    (hm : keeps m) (hcs : ¬ final (cs m))
    (h : H.recv size reads m held sock = .ok (some (m', held', sock'))) :
    ∃ k s, scan step (cs m) (held ++ sock.flatten) = .stopped k s ∧
      k + (held'.length + sock'.unread) = held.length + sock.unread := by
  induction reads generalizing m held sock with
  | zero => cases h
  | succ reads ih =>
    have hrecv := Socket.unread_recv (size - held.length) sock
    rcases recv_cases h with ⟨m₁, rest, hround, hout⟩
    rcases hexec (Socket.append_recv_ne_nil hround.received) hm hcs hround.parsed with
      ⟨hkeep, n, rfl, hagrees⟩
    rcases hgood hround.noError with ⟨hne, hiff⟩
    rcases hagrees.buffer hne (sock.recv (size - held.length)).2.flatten with ⟨hn, hscan⟩
    rw [← Socket.append_recv] at hscan
    rw [length_append] at hn
    rcases hout with ⟨hfinished, hout⟩ | ⟨hfinished, hmore⟩
    · cases hout
      rcases hscan with ⟨_, hstop⟩ | ⟨hnot, _⟩
      · refine ⟨n, _, hstop, ?_⟩
        rw [length_drop, length_append]
        omega
      · exact absurd (hiff.mp hfinished) hnot
    rw [← Bool.not_eq_true, hiff] at hfinished
    rcases hscan with ⟨hfinal, _⟩ | ⟨_, hon⟩
    · exact absurd hfinal hfinished
    rcases ih hkeep hfinished hmore with ⟨k, s, hrest, hlen⟩
    rw [hon, hrest]
    refine ⟨k + n, s, rfl, ?_⟩
    rw [length_drop, length_append] at hlen
    omega

/-! ## Requests -/

section Requests

open Automaton (delta httpParserFirstFinal httpParserError)

def requestScanner (uriRelaxed : Bool) (cs : Nat) (c : UInt8) : Option (Nat × Bool) :=
  (delta uriRelaxed cs c).map fun next => (next.2, decide (.done ∈ next.1))

variable {cfg : Config} {buffer : Bytes} {p : Nat} {m m' : HttpRequestParser}

lemma runAct_spec {a : Automaton.Act} (h : runAct onCallback buffer p m a = .ok m') :
    m'.1.uriRelaxed = m.1.uriRelaxed ∧ (m'.2 = m.2 ∨ ∃ cb, onCallback cb m.2 = .ok m'.2) := by
  have hreport : ∀ cb, report onCallback cb m = .ok m' →
      m'.1.uriRelaxed = m.1.uriRelaxed ∧ (m'.2 = m.2 ∨ ∃ cb, onCallback cb m.2 = .ok m'.2) := by
    intro cb hcb
    rw [report] at hcb
    cases hcall : onCallback cb m.2 with
    | error e =>
      rw [hcall] at hcb
      cases hcb
    | ok d =>
      rw [hcall] at hcb
      cases hcb
      exact ⟨rfl, Or.inr ⟨cb, hcall⟩⟩
  cases a with
  | writeValue | requestMethod | requestUri | fragment | queryString | httpVersion | requestPath =>
    exact hreport _ h
  | done =>
    rw [runAct] at h
    split at h
    · cases h
      exact ⟨rfl, Or.inl rfl⟩
    · exact hreport _ h
  | _ =>
    cases h
    exact ⟨rfl, Or.inl rfl⟩

lemma runActs_keeps {α : Type} {f : HttpRequestParser → α} {acts : List Automaton.Act}
    (hkeep : ∀ a, ∀ t t' : HttpRequestParser, runAct onCallback buffer p t a = .ok t' → f t' = f t)
    (hrun : runActs onCallback buffer p acts m = .ok m') : f m' = f m := by
  induction acts generalizing m with
  | nil =>
    cases hrun
    rfl
  | cons a acts ih =>
    rw [runActs, foldlM_cons] at hrun
    cases hone : runAct onCallback buffer p m a with
    | error e =>
      rw [hone] at hrun
      cases hrun
    | ok m₁ =>
      rw [hone] at hrun
      exact (ih hrun).trans (hkeep a m m₁ hone)

lemma exec_scan {rest : Bytes} {n : Nat} (h : exec onCallback buffer p rest m = .ok (m', n))
    (hcs : ¬ httpParserFirstFinal ≤ m.1.cs) :
    m'.1.uriRelaxed = m.1.uriRelaxed ∧
      Agrees (requestScanner m.1.uriRelaxed) (httpParserFirstFinal ≤ ·) httpParserError m.1.cs p
        rest m'.1.cs n := by
  induction rest generalizing p m with
  | nil =>
    cases h
    exact ⟨rfl, .refl (httpParserFirstFinal ≤ ·) hcs []⟩
  | cons c rest ih =>
    rw [exec] at h
    split at h
    · cases h
      exact ⟨rfl, Or.inl rfl⟩
    next acts target hdelta =>
      have hfinal := Automaton.delta_done_final hdelta
      split at h
      · cases h
      next m₁ hacts =>
        have hrelaxed : m₁.1.uriRelaxed = m.1.uriRelaxed :=
          runActs_keeps (f := fun t => t.1.uriRelaxed)
            (fun a t t' hone => (runAct_spec hone).1) hacts
        split at h
        · next hdone =>
            cases h
            refine ⟨hrelaxed, .stop ?_ (hfinal.mp hdone)⟩
            rw [requestScanner, hdelta, Option.map_some, decide_eq_true hdone]
            rfl
        next hdone =>
          rcases ih h (fun hle => hdone (hfinal.mpr hle)) with ⟨hkeep, hagrees⟩
          have hsame : (setState target m₁).1.uriRelaxed = m.1.uriRelaxed := hrelaxed
          rw [hsame] at hkeep hagrees
          refine ⟨hkeep, hagrees.cons ?_⟩
          rw [requestScanner, hdelta, Option.map_some, decide_eq_false hdone]
          rfl

lemma execute_scan {data rest : Bytes} (hne : data ≠ []) (hcs : ¬ httpParserFirstFinal ≤ m.1.cs)
    (h : HttpRequestParser.execute m data = .ok (m', rest)) :
    m'.1.uriRelaxed = m.1.uriRelaxed ∧ ∃ n, rest = data.drop n ∧
      Agrees (requestScanner m.1.uriRelaxed) (httpParserFirstFinal ≤ ·) httpParserError m.1.cs 0
        data m'.1.cs n := by
  rw [HttpRequestParser.execute, httpParserExecute, if_neg (length_pos_iff.mpr hne).ne'] at h
  split at h
  · cases h
  next m₁ n hexec =>
    cases h
    rcases exec_scan hexec hcs with ⟨hkeep, hagrees⟩
    exact ⟨hkeep, n, rfl, hagrees⟩

lemma requestIsFinished_iff (h : HttpRequestParser.hasError m = false) :
    HttpRequestParser.isFinished m = true ↔ httpParserFirstFinal ≤ m.1.cs := by
  have herror : m.1.hasError = false := by
    rw [HttpRequestParser.hasError, Bool.or_eq_false_iff] at h
    exact h.2
  simp [HttpRequestParser.isFinished, HttpParser.finish, herror, HttpParser.isFinished]

/-- The length of the header section of a request. -/
theorem recvHeader_length {reads : Nat} {pending pending' : Bytes} {sock sock' : Socket}
    (hcs : ¬ httpParserFirstFinal ≤ m.1.cs)
    (h : recvHeader cfg reads m pending sock = .ok (some (m', pending', sock'))) :
    ∃ k s, scan (requestScanner m.1.uriRelaxed) m.1.cs (pending ++ sock.flatten) = .stopped k s ∧
      k + (pending'.length + sock'.unread) = pending.length + sock.unread := by
  refine HeaderParser.recv_length httpParserError (fun t => t.1.cs)
    (fun t => t.1.uriRelaxed = m.1.uriRelaxed) (fun hne hkeep hcs hparsed => ?_)
    (fun herror => ⟨fun hbad => ?_, requestIsFinished_iff herror⟩) rfl hcs h
  · rcases execute_scan hne hcs hparsed with ⟨hsame, hagrees⟩
    rw [hkeep] at hsame hagrees
    exact ⟨hsame, hagrees⟩
  · simp [HttpRequestParser.hasError, HttpParser.hasError, hbad] at herror

end Requests

section Responses

open ClientAutomaton (delta httpclientParserFirstFinal httpclientParserError)

/-- The automaton of responses as a scanner.  The code stops in other final states too,
but then goes on from there. -/
def responseScanner (cs : Nat) (c : UInt8) : Option (Nat × Bool) :=
  (delta cs c).map fun next => (next.2, decide (next.2 = httpclientParserFirstFinal))

variable {cfg : ClientConfig} {buffer : Bytes} {p : Nat} {this this' : HttpResponseParser}

lemma HttpResponseParser.exec_scan {rest : Bytes} {n : Nat}
    (h : exec buffer p rest this = .ok (this', n))
    (hcs : this.parser.cs ≠ httpclientParserFirstFinal) :
    Agrees responseScanner (· = httpclientParserFirstFinal) httpclientParserError this.parser.cs p
      rest this'.parser.cs n := by
  induction rest generalizing p this with
  | nil =>
    cases h
    exact .refl (· = httpclientParserFirstFinal) hcs []
  | cons c rest ih =>
    rw [exec] at h
    split at h
    · cases h
      exact Or.inl rfl
    next acts target hdelta =>
      by_cases hfinal : target = httpclientParserFirstFinal
      · subst hfinal
        have hdone := ClientAutomaton.done_of_firstFinal hdelta
        split at h
        · cases h
        rw [if_pos hdone] at h
        cases h
        refine .stop ?_ rfl
        rw [responseScanner, hdelta]
        rfl
      have hstep : responseScanner this.parser.cs c = some (target, false) := by
        rw [responseScanner, hdelta, Option.map_some, decide_eq_false hfinal]
      split at h
      · cases h
      split at h
      · cases h
        exact .cons hstep (.refl (· = httpclientParserFirstFinal) hfinal rest)
      · exact .cons hstep (ih h hfinal)

lemma HttpResponseParser.execute_scan {data rest : Bytes}
    (hcs : this.parser.cs ≠ httpclientParserFirstFinal)
    (h : this.execute data false = .ok (this', rest)) :
    ∃ n, rest = data.drop n ∧
      Agrees responseScanner (· = httpclientParserFirstFinal) httpclientParserError
        this.parser.cs 0 data this'.parser.cs n := by
  rw [execute] at h
  split at h
  · cases h
  · cases h
  next this₁ n hparse =>
    cases h
    rw [httpclientParserExecute] at hparse
    split at hparse
    · cases hparse
    next hexec =>
      dsimp only at hparse
      split at hparse
      · cases hparse
      split at hparse
      · cases hparse
        have hagrees := exec_scan hexec hcs
        exact ⟨n, rfl, hagrees⟩
      · cases hparse

/-- The same for a response. -/
theorem recvResponseHeader_length {reads : Nat} {held held' : Bytes} {sock sock' : Socket}
    (hcs : this.parser.cs ≠ httpclientParserFirstFinal)
    (h : recvResponseHeader cfg reads this held sock = .ok (some (this', held', sock'))) :
    ∃ k s, scan responseScanner this.parser.cs (held ++ sock.flatten) = .stopped k s ∧
      k + (held'.length + sock'.unread) = held.length + sock.unread := by
  refine HeaderParser.recv_length httpclientParserError (fun t => t.parser.cs) (fun _ => True)
    (fun _ _ hcs hparsed => ⟨trivial, HttpResponseParser.execute_scan hcs hparsed⟩)
    (fun herror => ⟨fun hbad => ?_, HttpResponseParser.isFinished_iff herror⟩) trivial hcs h
  simp [HttpResponseParser.hasError, HttpclientParser.hasError, hbad] at herror

end Responses

end Yuyu.Http
