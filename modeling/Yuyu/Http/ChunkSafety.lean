import Yuyu.Http.ChunkLoop

/-!
# Safety of chunked decoding

The length that the parser stores for a size line is the value of the digits as long as that fits
into an `int`, and -1 behind a status line, which it takes in place of a size line.
-/

namespace Yuyu.Http

open Foundation List
open Foundation.Strtol (value)
open ClientAutomaton (isHex)

namespace SizeLine

def digits (l : SizeLine) : Bytes := l.line.takeWhile isHex

/-- The line is a size line, and the length is the one it denotes. -/
def Denotes (l : SizeLine) : Prop :=
  l.digits ≠ [] ∧ (∃ c ∈ (l.line.dropWhile isHex).head?, EndsSize c) ∧
    l.contentLen = value 16 l.digits

/-- The line starts with a size that leaves room for a line end in an `int`. -/
def Fits (l : SizeLine) : Prop := l.digits ≠ [] ∧ (value 16 l.digits : Int) + 2 ≤ intMax
deriving Decidable

variable {cfg : ClientConfig} {l : SizeLine}

lemma Accepted.size (h : l.Accepted) (hdigits : l.digits ≠ []) :
    (∃ c ∈ (l.line.dropWhile isHex).head?, EndsSize c) ∧ l.contentLen = storedSize l.digits := by
  rcases h.attempt with ⟨this, hattempt⟩
  have hne : l.line ++ l.held ≠ [] := by
    intro hnil
    rw [append_eq_nil_iff] at hnil
    exact hdigits (by rw [digits, hnil.1, takeWhile_nil])
  rcases HttpResponseParser.execute_chunk hne h.length_lt this with
    ⟨this', n, hexec, hn, heq⟩
  rw [heq, Except.ok.injEq, Prod.mk.injEq] at hattempt
  rcases hattempt with ⟨rfl, hdrop⟩
  have hline : n = l.line.length := by
    have := congrArg List.length hdrop
    simp only [length_drop, length_append] at this hn
    omega
  have hhex : ∀ c ∈ l.digits, isHex c = true := all_eq_true.mp all_takeWhile
  have hsplit : l.line = l.digits ++ l.line.dropWhile isHex := takeWhile_append_dropWhile.symm
  cases htail : l.line.dropWhile isHex with
  | nil =>
    -- the run would have ended inside the digits
    rw [htail, append_nil] at hsplit
    rw [hsplit, HttpResponseParser.exec_ds hdigits hhex] at hexec
    have hlt := HttpResponseParser.exec_finished (by decide : (2 : Nat) ≠ 120) hexec h.finished
    rw [hline, ← hsplit] at hlt
    exact absurd hlt (lt_irrefl _)
  | cons c tail =>
    have hnot : ∀ d ∈ (c :: tail ++ l.held).head?, isHex d = false := by
      rintro d ⟨⟩
      have hhead := List.head?_dropWhile_not isHex l.line
      rw [htail] at hhead
      exact hhead
    rw [htail] at hsplit
    rw [hsplit, append_assoc] at hexec
    rcases HttpResponseParser.exec_sound hdigits hhex hnot hexec h.finished with
      ⟨_, hends, hsize⟩
    exact ⟨hends, hsize⟩

lemma Accepted.denotes (h : l.Accepted) (hfits : l.Fits) : l.Denotes := by
  rcases h.size hfits.1 with ⟨hends, hsize⟩
  have hmax := hfits.2
  rw [intMax] at hmax
  exact ⟨hfits.1, hends, hsize.trans (storedSize_eq (by omega))⟩

lemma Denotes.fits {body : Bytes} (h : l.Denotes) (hchunk : ∃ r, takeChunk cfg l body = .ok r) :
    l.Fits := by
  refine ⟨h.1, not_lt.mp fun hlt => ?_⟩
  rw [← h.2.2] at hlt
  rcases hchunk with ⟨r, hr⟩
  rw [takeChunk_overflow hlt] at hr
  cases hr

lemma Accepted.takeChunk_ok (h : l.Accepted) (hfits : l.Fits) (body : Bytes) :
    ∃ r, takeChunk cfg l body = .ok r := by
  have hlen := (h.denotes hfits).2.2
  have hheld : l.held.length < 2 ^ 31 :=
    (suffix_append l.line l.held).length_le.trans_lt h.length_lt
  apply Http.takeChunk_ok hheld
  · omega
  · rw [hlen]
    exact hfits.2

end SizeLine

section Chunks

variable {cfg : ClientConfig}

variable {chunks : Nat} {parser : HttpResponseParser} {body held : Bytes} {sock : Socket}

lemma acceptedLines_accepted :
    ∀ x ∈ acceptedLines cfg chunks parser body held sock, x.1.Accepted := by
  induction chunks generalizing parser body held sock with
  | zero => exact nofun
  | succ chunks ih =>
    rw [acceptedLines]
    split
    · next l hline =>
        rw [forall_mem_cons]
        refine ⟨(readSizeLine_accepted hline).1, ?_⟩
        split
        · split
          · exact nofun
          · exact ih
        · exact nofun
    · exact nofun

lemma recvChunks_ok_iff :
    (∃ r, recvChunks cfg chunks parser body held sock = .ok r) ↔
      (∀ data ∈ chunkAttempts cfg chunks parser body held sock, data.length < 2 ^ 31) ∧
        ∀ x ∈ acceptedLines cfg chunks parser body held sock,
          ∃ r, takeChunk cfg x.1 x.2 = .ok r := by
  induction chunks generalizing parser body held sock with
  | zero => exact ⟨fun _ => ⟨nofun, nofun⟩, fun _ => ⟨none, rfl⟩⟩
  | succ chunks ih =>
    rw [recvChunks, chunkAttempts, acceptedLines, forall_mem_append, ← readSizeLine_ok_iff]
    cases readSizeLine cfg (sock.unread + 2) true parser held sock with
    | error e => simp
    | ok r =>
      cases r with
      | none => simp
      | some l =>
        dsimp only
        rw [forall_mem_cons]
        cases takeChunk cfg l body with
        | error e => simp
        | ok r =>
          cases r with
          | none => simp
          | some y =>
            dsimp only
            split
            · simp
            · rw [ih]
              simp

end Chunks

/-- The chunked branch is free of faults exactly if the lines that the parser accepts start with a
size that fits, and the number of bytes in the buffer is always an `int`. -/
theorem chunked_safe_iff (cfg : ClientConfig) (memory : HttpclientParser) (sock : Socket)
    (parser : HttpResponseParser) (held : Bytes) (rest : Socket)
    (hheader : recvResponseHeader cfg (sock.unread + 1) (.new memory) [] sock =
      .ok (some (parser, held, rest))) (hchunked : parser.parser.chunked = true) :
    ((∃ r, recvResponse cfg memory sock = .ok r) ∧
      ∀ x ∈ acceptedLines cfg (chunkRounds held rest) parser [] held rest, x.1.Denotes) ↔
      (∀ x ∈ acceptedLines cfg (chunkRounds held rest) parser [] held rest, x.1.Fits) ∧
        ∀ data ∈ chunkAttempts cfg (chunkRounds held rest) parser [] held rest,
          data.length < 2 ^ 31 := by
  have hok : (∃ r, recvResponse cfg memory sock = .ok r) ↔
      ∃ r, recvChunks cfg (chunkRounds held rest) parser [] held rest = .ok r := by
    rw [recvResponse, hheader]
    dsimp only
    rw [recvResponseBody, if_pos hchunked]
    cases recvChunks cfg (chunkRounds held rest) parser [] held rest with
    | error e => simp
    | ok r =>
      cases r with
      | none | some => simp
  rw [hok, recvChunks_ok_iff]
  constructor
  · rintro ⟨⟨hattempts, hchunks⟩, hdenotes⟩
    exact ⟨fun x hx => (hdenotes x hx).fits (hchunks x hx), hattempts⟩
  rintro ⟨hfits, hattempts⟩
  refine ⟨⟨hattempts, ?_⟩, ?_⟩
  · intro x hx
    exact (acceptedLines_accepted x hx).takeChunk_ok (hfits x hx) x.2
  · intro x hx
    exact (acceptedLines_accepted x hx).denotes (hfits x hx)

theorem chunked_safe_iff_hello :
    ∃ r, recvResponse (.plain 64) .zeroed
      [chunkedHeader, ascii "5\r\nhello\r\n0\r\n\r\n"] = .ok r := by
  have hheader : recvResponseHeader (.plain 64)
      (Socket.unread [chunkedHeader, ascii "5\r\nhello\r\n0\r\n\r\n"] + 1) (.new .zeroed) []
      [chunkedHeader, ascii "5\r\nhello\r\n0\r\n\r\n"] =
      .ok (some (chunkedParser, [], [ascii "5\r\nhello\r\n0\r\n\r\n"])) := by
    decide +kernel
  have hsafe := chunked_safe_iff (.plain 64) .zeroed _ _ _ _ hheader (by decide)
  exact (hsafe.mpr ⟨by decide +kernel, by decide +kernel⟩).1

/-- The size lines 2^31, 2^31 - 2 and 2^32 + 5, and a status line in place of a size line. -/
theorem chunked_faults :
    recvResponse (.plain 64) .zeroed [chunkedHeader, ascii "80000000\r\n"] =
        .error .lengthError ∧
      recvResponse (.plain 64) .zeroed [chunkedHeader, ascii "7FFFFFFE\r\n"] =
        .error .signedOverflow ∧
      recvResponse (.plain 64) .zeroed [chunkedHeader, ascii "HTTP/1.1 200 OK\r\n\r\n."] =
        .error .lengthError ∧
      (recvResponse (.plain 64) .zeroed
          [chunkedHeader, ascii "100000005\r\nhello\r\n0\r\n\r\n"]).toOption.bind
        (Option.map fun r => r.1.body) = some (ascii "hello") := by
  decide +kernel

end Yuyu.Http
