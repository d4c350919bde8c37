import Yuyu.Http.SizeLine

/-!
# The loops of a chunked body
-/

namespace Yuyu.Http

open Foundation List
open ClientAutomaton (httpclientParserFirstFinal)

namespace HttpResponseParser

lemma isFinished_iff {this : HttpResponseParser} (h : this.hasError = false) :
    this.isFinished = true ↔ this.parser.cs = httpclientParserFirstFinal := by
  have herror : this.parser.hasError = false := by
    rw [hasError, Bool.or_eq_false_iff] at h
    exact h.2
  simp [isFinished, HttpclientParser.finish, herror, HttpclientParser.isFinished]

end HttpResponseParser

section Loops

variable {cfg : ClientConfig}

variable {begin : Bool} {held data : Bytes} {sock sock' : Socket} {l : SizeLine}
   {reads : Nat} {parser : HttpResponseParser} {left : Int}

lemma fill_spec (h : fill cfg begin held sock = some (data, sock')) :
    data ≠ [] ∧ data ++ sock'.flatten = held ++ sock.flatten ∧
      (held.length ≤ cfg.bufferSize → data.length ≤ cfg.bufferSize) := by
  unfold fill at h
  split at h
  · dsimp only at h
    split at h
    · cases h
    next hpos =>
      cases h
      have hflat := Segments.read_append_flatten
        (min (cfg.bufferSize - held.length) maxRwCount) sock
      have hroom : (sock.recv (cfg.bufferSize - held.length)).1.length ≤
          cfg.bufferSize - held.length :=
        (Segments.length_read_le _ sock).trans (min_le_left _ _)
      refine ⟨?_, ?_, ?_⟩
      · intro hnil
        rw [append_eq_nil_iff] at hnil
        exact hpos (by rw [hnil.2, length_nil])
      · rw [append_assoc]
        exact congrArg (held ++ ·) hflat
      intro hheld
      rw [length_append]
      omega
  next hagain =>
    cases h
    refine ⟨?_, rfl, id⟩
    rintro rfl
    simp at hagain

lemma fill_proper
    (hsock : Segments.Proper sock) (h : fill cfg begin held sock = some (data, sock')) :
    Segments.Proper sock' := by
  unfold fill at h
  split at h
  · dsimp only at h
    split at h
    · cases h
    · cases h
      exact hsock.read _
  · cases h
    exact hsock

structure SizeLine.Accepted (l : SizeLine) : Prop where
  attempt : ∃ this : HttpResponseParser,
    this.execute (l.line ++ l.held) true = .ok (l.parser, l.held)
  finished : l.parser.parser.cs = httpclientParserFirstFinal

lemma SizeLine.Accepted.length_lt (h : l.Accepted) : (l.line ++ l.held).length < 2 ^ 31 := by
  rcases h.attempt with ⟨this, hattempt⟩
  exact HttpResponseParser.length_of_execute hattempt

lemma execute_suffix {this this' : HttpResponseParser} {rest : Bytes} {chunk : Bool}
    (h : this.execute data chunk = .ok (this', rest)) : rest <:+ data := by
  rw [HttpResponseParser.execute] at h
  split at h
  · cases h
  · cases h
  · cases h
    exact drop_suffix _ data

lemma take_append_of_suffix {rest : Bytes} (h : rest <:+ data) :
    data.take (data.length - rest.length) ++ rest = data := by
  rcases h with ⟨front, rfl⟩
  rw [length_append, Nat.add_sub_cancel, take_left]

/-- A size line comes from one successful attempt. -/
theorem readSizeLine_accepted (h : readSizeLine cfg reads begin parser held sock = .ok (some l)) :
    l.Accepted ∧ l.line ++ l.held ∈ attempts cfg reads begin parser held sock := by
  induction reads generalizing begin parser held sock with
  | zero => cases h
  | succ reads ih =>
    rw [readSizeLine] at h
    split at h
    · cases h
    next data sock' hfill =>
      rw [attempts, hfill]
      dsimp only
      split at h
      · cases h
      next parser' rest hexec =>
        have hline := take_append_of_suffix (execute_suffix hexec)
        split at h
        · cases h
        next herror =>
          rw [if_neg herror]
          split at h
          · cases h
          next hroom =>
            rw [if_neg hroom]
            split at h
            · next hfinished =>
                cases h
                rw [Bool.not_eq_true] at herror
                rw [hline]
                refine ⟨⟨⟨parser, ?_⟩, ?_⟩, mem_cons_self⟩
                · rw [hline]
                  exact hexec
                · exact (HttpResponseParser.isFinished_iff herror).mp hfinished
            next hfinished =>
              rw [if_neg hfinished]
              exact ⟨(ih h).1, mem_cons_of_mem _ (ih h).2⟩

/-- Looking for a size line faults only on a buffer that is too long. -/
theorem readSizeLine_ok_iff :
    (∃ r, readSizeLine cfg reads begin parser held sock = .ok r) ↔
      ∀ data ∈ attempts cfg reads begin parser held sock, data.length < 2 ^ 31 := by
  induction reads generalizing begin parser held sock with
  | zero => exact ⟨fun _ => nofun, fun _ => ⟨none, rfl⟩⟩
  | succ reads ih =>
    rw [readSizeLine, attempts]
    cases hfill : fill cfg begin held sock with
    | none => exact ⟨fun _ => nofun, fun _ => ⟨none, rfl⟩⟩
    | some r =>
      dsimp only
      rw [forall_mem_cons]
      by_cases hlen : r.1.length < 2 ^ 31
      · rcases HttpResponseParser.execute_chunk (fill_spec hfill).1 hlen parser with
          ⟨parser', n, _, _, hexec⟩
        rw [hexec, and_iff_right hlen]
        dsimp only
        split
        · exact iff_of_true ⟨none, rfl⟩ nofun
        split
        · exact iff_of_true ⟨none, rfl⟩ nofun
        split
        · exact iff_of_true ⟨_, rfl⟩ nofun
        · exact ih
      cases hexec : parser.execute r.1 true with
      | error e => exact iff_of_false (by simp) fun h => hlen h.1
      | ok x => exact absurd (HttpResponseParser.length_of_execute hexec) hlen

/-! ## Chunks -/

lemma readData_spec {bytes : Bytes} {rest : Socket}
    (h : readData cfg reads left sock = (bytes, some rest)) :
    left ≤ bytes.length ∧ bytes ++ rest.flatten = sock.flatten := by
  induction reads generalizing left sock bytes with
  | zero =>
    rw [readData] at h
    split at h
    · next hleft =>
        cases h
        exact ⟨hleft, rfl⟩
    · cases h
  | succ reads ih =>
    rw [readData] at h
    split at h
    · next hleft =>
        cases h
        exact ⟨hleft, rfl⟩
    dsimp only at h
    split at h
    · cases h
    rcases hmore : readData cfg reads (left - (sock.recv (dataRoom cfg left)).1.length)
      (sock.recv (dataRoom cfg left)).2 with ⟨more, end_⟩
    rw [hmore] at h
    cases h
    rcases ih hmore with ⟨hleft, hflat⟩
    rw [length_append, append_assoc, hflat]
    dsimp only
    constructor
    · omega
    · exact Segments.read_append_flatten _ sock

lemma checkInt_of_le {v : Int} (hlo : -2 ^ 31 ≤ v) (hhi : v ≤ intMax) : checkInt v = .ok v :=
  if_pos ⟨hlo, hhi⟩

lemma takeChunk_overflow (h : intMax < l.contentLen + 2) (body : Bytes) :
    takeChunk cfg l body = .error .signedOverflow := by
  have hcheck : checkInt (l.contentLen + 2) = .error .signedOverflow :=
    if_neg fun hle => absurd hle.2 (not_le.mpr h)
  rw [takeChunk, hcheck]
  rfl

lemma takeChunk_held {n : Nat} (hn : l.contentLen = n)
    (hlen : l.held.length < 2 ^ 31) (h : n + 2 ≤ l.held.length) (body : Bytes) :
    takeChunk cfg l body = .ok (some (body ++ l.held.take n, l.held.drop (n + 2), l.sock)) := by
  have hneed : checkInt (l.contentLen + 2) = .ok ((n : Int) + 2) := by
    rw [hn]
    apply checkInt_of_le
    · omega
    · rw [intMax]
      omega
  have hmoved : checkInt ((l.held.length : Int) - l.contentLen) =
      .ok ((l.held.length : Int) - n) := by
    rw [hn]
    apply checkInt_of_le
    · omega
    · rw [intMax]
      omega
  have hmoved₂ : checkInt ((l.held.length : Int) - n - 2) =
      .ok ((l.held.length : Int) - n - 2) := by
    apply checkInt_of_le
    · omega
    · rw [intMax]
      omega
  have htake : ((l.held.length : Int) - n - 2).toNat = (l.held.drop (n + 2)).length := by
    rw [length_drop]
    omega
  have hle : (n : Int) + 2 ≤ l.held.length := by omega
  have hnonneg : ¬ l.contentLen < 0 := by omega
  have hto : l.contentLen.toNat = n := by omega
  simp only [takeChunk, hneed, bind, Except.bind, if_pos hle, if_neg hnonneg, hmoved, hmoved₂,
    hto, htake, take_length]
  rfl

lemma takeChunk_read {n : Nat} (hn : l.contentLen = n) (hmax : n + 2 < 2 ^ 31)
    (hlen : l.held.length < n + 2) (body : Bytes) :
    takeChunk cfg l body =
      match readData cfg (n + 2 - l.held.length) (n - l.held.length + 2) l.sock with
      | (_, none) => .ok none
      | (bytes, some sock) =>
        .ok (some ((body ++ l.held ++ bytes).take (body.length + l.held.length + bytes.length - 2),
          [], sock)) := by
  have hneed : checkInt (l.contentLen + 2) = .ok ((n : Int) + 2) := by
    rw [hn]
    apply checkInt_of_le
    · omega
    · rw [intMax]
      omega
  have hleft : checkInt (l.contentLen - l.held.length) = .ok ((n : Int) - l.held.length) := by
    rw [hn]
    apply checkInt_of_le
    · omega
    · rw [intMax]
      omega
  have hleft₂ : checkInt ((n : Int) - l.held.length + 2) = .ok ((n : Int) - l.held.length + 2) := by
    apply checkInt_of_le
    · omega
    · rw [intMax]
      omega
  have hgt : ¬ (n : Int) + 2 ≤ l.held.length := by omega
  have hto : ((n : Int) - l.held.length + 2).toNat = n + 2 - l.held.length := by omega
  simp only [takeChunk, hneed, bind, Except.bind, if_neg hgt, hleft, hleft₂, hto]
  rcases hdata : readData cfg (n + 2 - l.held.length) (n - l.held.length + 2) l.sock with
    ⟨bytes, rest⟩
  cases rest with
  | none => rfl
  | some sock =>
    have hread := (readData_spec hdata).1
    have hsize : ¬ body.length + l.held.length + bytes.length < 2 := by omega
    simp only [length_append, if_neg hsize]
    rfl

/-- A chunk whose length fits is taken without a fault. -/
theorem takeChunk_ok (hheld : l.held.length < 2 ^ 31) (hpos : 0 ≤ l.contentLen)
    (hmax : l.contentLen + 2 ≤ intMax) (body : Bytes) : ∃ r, takeChunk cfg l body = .ok r := by
  rw [intMax] at hmax
  have hn : l.contentLen = (l.contentLen.toNat : Int) := (Int.toNat_of_nonneg hpos).symm
  by_cases hlen : l.contentLen.toNat + 2 ≤ l.held.length
  · exact ⟨_, takeChunk_held hn hheld hlen body⟩
  rw [takeChunk_read hn (by omega) (by omega)]
  split
  · exact ⟨none, rfl⟩
  · exact ⟨_, rfl⟩

lemma recvResponseHeader_spec {parser' : HttpResponseParser}
    {held' : Bytes} (hheld : held.length ≤ cfg.bufferSize)
    (h : recvResponseHeader cfg reads parser held sock = .ok (some (parser', held', sock'))) :
    held'.length ≤ cfg.bufferSize ∧ 0 < cfg.bufferSize ∧ parser'.hasError = false ∧
      (Segments.Proper sock → Segments.Proper sock') := by
  induction reads generalizing parser held sock with
  | zero => cases h
  | succ reads ih =>
    have hroom : (sock.recv (cfg.bufferSize - held.length)).1.length ≤
        cfg.bufferSize - held.length :=
      (Segments.length_read_le _ sock).trans (min_le_left _ _)
    have hproper : Segments.Proper sock →
        Segments.Proper (sock.recv (cfg.bufferSize - held.length)).2 :=
      fun hsock => hsock.read _
    rcases HeaderParser.recv_cases h with ⟨parser₁, rest, hround, hout⟩
    have hreceived := hround.received
    have hrest := (execute_suffix hround.parsed).length_le
    rw [length_append] at hrest
    rcases hout with ⟨-, hout⟩ | ⟨-, hmore⟩
    · cases hout
      exact ⟨by omega, by omega, hround.noError, hproper⟩
    · rcases ih (by omega) hmore with ⟨hle, hpos, hgood, hrest⟩
      exact ⟨hle, hpos, hgood, fun hsock => hrest (hproper hsock)⟩

end Loops

end Yuyu.Http
