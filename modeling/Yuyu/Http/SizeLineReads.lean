import Yuyu.Http.ChunkLoop

/-!
# Size lines that arrive in several reads

The parser starts anew at every attempt on a size line, and the bytes of an attempt that ends inside
the line are gone, unless they are zeros in front.
-/

namespace Yuyu.Http

open Foundation List
open Foundation.Strtol (value digitVal)
open ClientAutomaton (isHex httpclientParserFirstFinal httpclientParserError)

section Lines

variable {cfg : ClientConfig}

lemma take_of_append {data tail stream rest : Bytes} (h : data ++ tail = stream ++ rest)
    (hle : data.length ≤ stream.length) :
    data = stream.take data.length ∧ tail = stream.drop data.length ++ rest := by
  rcases append_eq_append_iff.mp h with ⟨mid, hmid, hrest⟩ | ⟨mid, hmid, hrest⟩
  · subst hmid
    rw [take_left, drop_left]
    exact ⟨rfl, hrest⟩
  have hnil : mid = [] := by
    rw [hmid, length_append] at hle
    exact length_eq_zero_iff.mp (by omega)
  subst hnil
  rw [append_nil] at hmid
  subst hmid
  rw [take_length, drop_length]
  exact ⟨rfl, hrest.symm⟩

lemma append_of_le {data tail stream rest : Bytes} (h : data ++ tail = stream ++ rest)
    (hle : stream.length ≤ data.length) :
    data = stream ++ data.drop stream.length ∧ data.drop stream.length ++ tail = rest := by
  rcases take_of_append h.symm hle with ⟨htake, hdrop⟩
  constructor
  · conv_lhs => rw [← take_append_drop stream.length data, ← htake]
  · exact hdrop.symm

variable {reads : Nat} {begin : Bool} {parser parser' : HttpResponseParser} {held data : Bytes}
  {sock sock' : Socket}

lemma hasError_sized (herror : parser.error = 0) {cs : Nat} (hcs : cs ≠ httpclientParserError)
    (size : Int) (k : Nat) : (parser.sized size cs k).hasError = false := by
  have hzero : (parser.sized size cs k).error = 0 := herror
  have hstate : (parser.sized size cs k).parser.cs = cs := rfl
  simp [HttpResponseParser.hasError, HttpclientParser.hasError, hzero, hstate, hcs]

lemma readSizeLine_reject (hbuf : cfg.bufferSize < 2 ^ 31)
    (hheld : held.length ≤ cfg.bufferSize) {c : UInt8} {rest : Bytes}
    (hstream : held ++ sock.flatten = c :: rest) (hc : isHex c = false) (hH : c.toNat ≠ 72) :
    readSizeLine cfg reads begin parser held sock = .ok none := by
  cases reads with
  | zero => rfl
  | succ reads =>
    rw [readSizeLine]
    split
    · rfl
    next data sock' hfill =>
      rcases fill_spec hfill with ⟨hne, hflat, hlen⟩
      rw [hstream] at hflat
      cases data with
      | nil => contradiction
      | cons d data =>
        rw [cons_append, cons.injEq] at hflat
        rw [hflat.1] at hlen ⊢
        rw [HttpResponseParser.execute_reject hc hH ((hlen hheld).trans_lt hbuf)]
        have hbad : (parser.inState httpclientParserError).hasError = true := by
          simp [HttpResponseParser.hasError, HttpclientParser.hasError,
            HttpResponseParser.inState, HttpResponseParser.mapParser]
        dsimp only
        rw [if_pos hbad]

lemma readSizeLine_again (hpos : 0 < cfg.bufferSize) (hbuf : cfg.bufferSize < 2 ^ 31)
    (hfill : fill cfg begin held sock = some (data, sock'))
    (hexec : parser.execute data true = .ok (parser', [])) (herror : parser'.hasError = false)
    (hcs : parser'.parser.cs ≠ httpclientParserFirstFinal) :
    readSizeLine cfg (reads + 1) begin parser held sock =
      readSizeLine cfg reads false parser' [] sock' := by
  have hroom : ¬ ((([] : Bytes).length : Int) = toInt32 cfg.bufferSize) := by
    rw [toInt32_of_lt hbuf, length_nil]
    omega
  have hunfinished : ¬ parser'.isFinished = true := by
    rwa [HttpResponseParser.isFinished_iff herror]
  rw [readSizeLine, hfill]
  simp only [hexec, herror, if_neg hroom, if_neg hunfinished, Bool.false_eq_true, if_false]

lemma readSizeLine_found (hbuf : cfg.bufferSize < 2 ^ 31)
    (hfill : fill cfg begin held sock = some (data, sock')) {rest : Bytes}
    (hexec : parser.execute data true = .ok (parser', rest)) (herror : parser'.hasError = false)
    (hcs : parser'.parser.cs = httpclientParserFirstFinal) (hrest : rest.length < cfg.bufferSize) :
    readSizeLine cfg (reads + 1) begin parser held sock =
      .ok (some ⟨parser', data.take (data.length - rest.length), rest, sock'⟩) := by
  have hroom : ¬ ((rest.length : Int) = toInt32 cfg.bufferSize) := by
    rw [toInt32_of_lt hbuf]
    omega
  have hfinished : parser'.isFinished = true := by
    rwa [HttpResponseParser.isFinished_iff herror]
  rw [readSizeLine, hfill]
  simp only [hexec, herror, if_neg hroom, if_pos hfinished, Bool.false_eq_true, if_false]

/-! ## Lines, whole and in parts -/

variable {ds S : Bytes}

structure SizeLine.Found (cfg : ClientConfig) (parser : HttpResponseParser) (size : Int)
    (S : Bytes) (l : SizeLine) : Prop where
  parser_eq : ∃ k, l.parser = parser.sized size httpclientParserFirstFinal k
  stream_eq : l.held ++ l.sock.flatten = S
  held_le : l.held.length ≤ cfg.bufferSize
  proper : Segments.Proper l.sock

lemma readSizeLine_whole (hbuf : cfg.bufferSize < 2 ^ 31)
    (hheld : held.length ≤ cfg.bufferSize) (herror : parser.error = 0) (hne : ds ≠ [])
    (hds : ∀ c ∈ ds, isHex c = true) (hproper : Segments.Proper sock')
    (hstream : held ++ sock.flatten = ds ++ 13 :: 10 :: S)
    (hfill : fill cfg begin held sock = some (data, sock')) (hle : ds.length + 2 ≤ data.length) :
    ∃ l, readSizeLine cfg (reads + 1) begin parser held sock = .ok (some l) ∧
      l.Found cfg parser (storedSize ds) S ∧ l.held = data.drop (ds.length + 2) ∧
        l.sock = sock' := by
  rcases fill_spec hfill with ⟨_, hflat, hlen⟩
  have hdata := hlen hheld
  have hline : data ++ sock'.flatten = (ds ++ [13, 10]) ++ S := by
    rw [hflat, hstream, append_assoc]
    rfl
  rcases append_of_le hline (by simpa using hle) with ⟨hsplit, hrest⟩
  rw [length_append, length_cons, length_singleton] at hsplit hrest
  rw [append_assoc] at hsplit
  have hexec : parser.execute data true = .ok (parser.sized (storedSize ds)
      httpclientParserFirstFinal (ds.length + 2), data.drop (ds.length + 2)) := by
    have hback : ds ++ 13 :: 10 :: data.drop (ds.length + 2) = data := hsplit.symm
    rw [← HttpResponseParser.execute_line hne hds (by rw [hback]; exact hdata.trans_lt hbuf), hback]
  have hshort : (data.drop (ds.length + 2)).length < cfg.bufferSize := by
    rw [length_drop]
    omega
  refine ⟨_, readSizeLine_found hbuf hfill hexec (hasError_sized herror (by decide) _ _) rfl
    hshort, ⟨⟨_, rfl⟩, hrest, hshort.le, hproper⟩, rfl, rfl⟩

lemma execute_part {tail : Bytes} (hlen : data.length < 2 ^ 31) (hdata : data ≠ [])
    (hne : ds ≠ []) (hds : ∀ c ∈ ds, isHex c = true)
    (hstream : data ++ tail = ds ++ 13 :: 10 :: S) (hlt : data.length < ds.length + 2)
    (parser : HttpResponseParser) :
    ∃ parser', parser.execute data true = .ok (parser', []) ∧ parser'.error = parser.error ∧
      parser'.parser.cs ≠ httpclientParserError ∧
      parser'.parser.cs ≠ httpclientParserFirstFinal ∧
      ∀ size cs k, parser'.sized size cs k = parser.sized size cs k := by
  rcases Nat.lt_or_ge ds.length data.length with hlong | hshort
  · have hcr : data ++ tail = (ds ++ [13]) ++ 10 :: S := by
      rw [hstream, append_assoc]
      rfl
    have htake := (take_of_append hcr (by simpa using Nat.le_of_lt_succ hlt)).1
    have hdata : data = ds ++ [13] := by
      rw [htake]
      apply take_of_length_le
      rw [length_append, length_singleton]
      exact hlong
    rw [hdata] at hlen ⊢
    exact ⟨_, HttpResponseParser.execute_digits_cr hne hds hlen parser, rfl,
      (by decide : (3 : Nat) ≠ 0), (by decide : (3 : Nat) ≠ 120), fun _ _ _ => rfl⟩
  have htake := (take_of_append hstream hshort).1
  have hhex : ∀ c ∈ data, isHex c = true := by
    intro c hc
    rw [htake] at hc
    exact hds c (mem_of_mem_take hc)
  exact ⟨_, HttpResponseParser.execute_digits hdata hhex hlen parser, rfl,
    (by decide : (2 : Nat) ≠ 0), (by decide : (2 : Nat) ≠ 120), fun _ _ _ => rfl⟩

lemma readSizeLine_part (hpos : 0 < cfg.bufferSize) (hbuf : cfg.bufferSize < 2 ^ 31)
    (hheld : held.length ≤ cfg.bufferSize) (herror : parser.error = 0) (hne : ds ≠ [])
    (hds : ∀ c ∈ ds, isHex c = true) (hstream : held ++ sock.flatten = ds ++ 13 :: 10 :: S)
    (hfill : fill cfg begin held sock = some (data, sock')) (hlt : data.length < ds.length + 2) :
    ∃ parser', parser'.error = 0 ∧
      (∀ size cs k, parser'.sized size cs k = parser.sized size cs k) ∧
      readSizeLine cfg (reads + 1) begin parser held sock =
        readSizeLine cfg reads false parser' [] sock' := by
  rcases fill_spec hfill with ⟨hdata, hflat, hlen⟩
  rw [hstream] at hflat
  rcases execute_part ((hlen hheld).trans_lt hbuf) hdata hne hds hflat hlt parser with
    ⟨parser', hexec, herror', hcs, hfinal, hsized⟩
  rw [herror] at herror'
  have hgood : parser'.hasError = false := by
    simp [HttpResponseParser.hasError, HttpclientParser.hasError, herror', hcs]
  exact ⟨parser', herror', hsized, readSizeLine_again hpos hbuf hfill hexec hgood hfinal⟩

lemma SizeLine.Found.congr {l : SizeLine} {size : Int} (h : l.Found cfg parser' size S)
    (hsized : ∀ size cs k, parser'.sized size cs k = parser.sized size cs k) :
    l.Found cfg parser size S := by
  rcases h.parser_eq with ⟨k, hk⟩
  exact { h with parser_eq := ⟨k, hk.trans (hsized _ _ _)⟩ }

lemma flatten_of_digits (hstream : held ++ sock.flatten = ds ++ 13 :: 10 :: S)
    (hfill : fill cfg begin held sock = some (data, sock')) (hle : data.length ≤ ds.length) :
    data = ds.take data.length ∧ sock'.flatten = ds.drop data.length ++ 13 :: 10 :: S := by
  have hflat := (fill_spec hfill).2.1
  rw [hstream] at hflat
  exact take_of_append hflat hle

lemma flatten_of_cr (hstream : held ++ sock.flatten = ds ++ 13 :: 10 :: S)
    (hfill : fill cfg begin held sock = some (data, sock')) (hlt : data.length < ds.length + 2)
    (hlong : ds.length < data.length) : sock'.flatten = 10 :: S := by
  have hflat := (fill_spec hfill).2.1
  have hcr : data ++ sock'.flatten = (ds ++ [13]) ++ 10 :: S := by
    rw [hflat, hstream, append_assoc]
    rfl
  have hdrop := (take_of_append hcr (by simpa using Nat.le_of_lt_succ hlt)).2
  rwa [drop_eq_nil_of_le (by rw [length_append]; exact hlong)] at hdrop

lemma readSizeLine_suffix (hpos : 0 < cfg.bufferSize) (hbuf : cfg.bufferSize < 2 ^ 31)
    (herror : parser.error = 0) (hds : ∀ c ∈ ds, isHex c = true)
    (hproper : Segments.Proper sock) (hstream : sock.flatten = ds ++ 13 :: 10 :: S) :
    readSizeLine cfg reads false parser [] sock = .ok none ∨
      ∃ l es, readSizeLine cfg reads false parser [] sock = .ok (some l) ∧ es ≠ [] ∧ es <:+ ds ∧
        l.Found cfg parser (storedSize es) S := by
  induction reads generalizing parser ds sock with
  | zero => exact Or.inl rfl
  | succ reads ih =>
    by_cases hne : ds = []
    · subst hne
      exact Or.inl (readSizeLine_reject hbuf (Nat.zero_le _) hstream (by decide) (by decide))
    cases hfill : fill cfg false [] sock with
    | none =>
      left
      rw [readSizeLine, hfill]
    | some r =>
      have hproper' := fill_proper hproper hfill
      rcases Nat.lt_or_ge r.1.length (ds.length + 2) with hlt | hle
      · rcases readSizeLine_part hpos hbuf (Nat.zero_le _) herror hne hds hstream hfill hlt with
          ⟨parser', herror', hsized, hround⟩
        rw [hround]
        rcases Nat.lt_or_ge ds.length r.1.length with hlong | hshort
        · have hrest := flatten_of_cr hstream hfill hlt hlong
          exact Or.inl (readSizeLine_reject hbuf (Nat.zero_le _) hrest (by decide) (by decide))
        have hrest := (flatten_of_digits hstream hfill hshort).2
        have hdrop : ∀ c ∈ ds.drop r.1.length, isHex c = true :=
          fun c hc => hds c (mem_of_mem_drop hc)
        rcases ih herror' hdrop hproper' hrest with hnone | ⟨l, es, hline, hes, hsuffix, hfound⟩
        · exact Or.inl hnone
        · exact Or.inr ⟨l, es, hline, hes, hsuffix.trans (drop_suffix _ ds), hfound.congr hsized⟩
      rcases readSizeLine_whole hbuf (Nat.zero_le _) herror hne hds hproper' hstream hfill hle
        with ⟨l, hline, hfound, _⟩
      exact Or.inr ⟨l, ds, hline, hne, suffix_refl ds, hfound⟩

/-! ## Lines that survive their reads -/

def allZeros (data : Bytes) : Bool := data.all (· == 48)

lemma allZeros_iff : allZeros data = true ↔ ∀ c ∈ data, c = 48 := by
  rw [allZeros, all_eq_true]
  exact forall₂_congr fun c _ => beq_iff_eq

/-- The buffer and the socket behind a size line, when the line comes through: an
attempt has it whole, or has only zeros of it, and digits are left. -/
def lineAt (cfg : ClientConfig) : Nat → Bool → Bytes → Bytes → Socket → Option (Bytes × Socket)
  | 0, _, _, _, _ => none
  | reads + 1, begin, ds, held, sock =>
    match fill cfg begin held sock with
    | none => none
    | some (data, sock) =>
      if ds.length + 2 ≤ data.length then some (data.drop (ds.length + 2), sock)
      else if data.length < ds.length ∧ allZeros data then
        lineAt cfg reads false (ds.drop data.length) [] sock
      else none

lemma append_drop (h : data = ds.take data.length) : data ++ ds.drop data.length = ds := by
  calc data ++ ds.drop data.length
      = ds.take data.length ++ ds.drop data.length := by rw [← h]
    _ = ds := take_append_drop _ ds

lemma value_zeros {zeros : Bytes} (hzeros : ∀ c ∈ zeros, c = 48) : value 16 zeros = 0 := by
  apply Strtol.value_zeros
  intro c hc
  rw [hzeros c hc]
  rfl

lemma storedSize_zeros {zeros : Bytes} (hzeros : ∀ c ∈ zeros, c = 48) (ds : Bytes) :
    storedSize (zeros ++ ds) = storedSize ds := by
  rw [storedSize, storedSize, Strtol.value_append, value_zeros hzeros, Nat.zero_mul, Nat.zero_add]

/-- A line that comes through is found. -/
theorem readSizeLine_of_lineAt (hpos : 0 < cfg.bufferSize) (hbuf : cfg.bufferSize < 2 ^ 31)
    (hheld : held.length ≤ cfg.bufferSize) (herror : parser.error = 0) (hne : ds ≠ [])
    (hds : ∀ c ∈ ds, isHex c = true) (hproper : Segments.Proper sock)
    (hstream : held ++ sock.flatten = ds ++ 13 :: 10 :: S) {held' : Bytes}
    (hline : lineAt cfg reads begin ds held sock = some (held', sock')) :
    ∃ l, readSizeLine cfg reads begin parser held sock = .ok (some l) ∧
      l.Found cfg parser (storedSize ds) S ∧ l.held = held' ∧ l.sock = sock' := by
  induction reads generalizing begin parser ds held sock with
  | zero => cases hline
  | succ reads ih =>
    rw [lineAt] at hline
    split at hline
    · cases hline
    next data sock₁ hfill =>
      have hproper' := fill_proper hproper hfill
      split at hline
      · next hle =>
          cases hline
          exact readSizeLine_whole hbuf hheld herror hne hds hproper' hstream hfill hle
      next hlt =>
        split at hline
        · next hzeros =>
            rw [allZeros_iff] at hzeros
            rcases readSizeLine_part hpos hbuf hheld herror hne hds hstream hfill (by omega) with
              ⟨parser', herror', hsized, hround⟩
            rw [hround]
            rcases flatten_of_digits hstream hfill hzeros.1.le with ⟨htake, hrest⟩
            have hleft : ds.drop data.length ≠ [] :=
              fun hnil => absurd (drop_eq_nil_iff.mp hnil) (not_le.mpr hzeros.1)
            rcases ih (Nat.zero_le _) herror' hleft
              (fun c hc => hds c (mem_of_mem_drop hc)) hproper' hrest hline with
              ⟨l, hread, hfound, hends⟩
            rw [← storedSize_zeros hzeros.2, append_drop htake] at hfound
            exact ⟨l, hread, hfound.congr hsized, hends⟩
        · cases hline

lemma digitVal_pos {c : UInt8} (hc : isHex c = true) (h48 : c ≠ 48) : 0 < (digitVal c).getD 0 := by
  have hne : c.toNat ≠ 48 := fun h => h48 (UInt8.toNat_inj.mp h)
  rw [isHex_eq_isDigit, Strtol.isDigit] at hc
  unfold digitVal at hc ⊢
  split
  · rw [Option.getD_some]
    omega
  split
  · rw [Option.getD_some]
    omega
  split
  · rw [Option.getD_some]
    omega
  · simp_all

lemma value_drop_lt (hds : ∀ c ∈ ds, isHex c = true) (htake : data = ds.take data.length)
    (hnot : ¬ ∀ c ∈ data, c = 48) : value 16 (ds.drop data.length) < value 16 ds := by
  push Not at hnot
  rcases hnot with ⟨c, hc, h48⟩
  have hmem : c ∈ ds := by
    rw [htake] at hc
    exact mem_of_mem_take hc
  have hpos : 0 < value 16 data :=
    Strtol.value_pos (by decide) ⟨c, hc, digitVal_pos (hds c hmem) h48⟩
  have hweight : 0 < value 16 data * 16 ^ (ds.drop data.length).length :=
    Nat.mul_pos hpos (Nat.pow_pos (by decide))
  have hsum : value 16 ds = value 16 data * 16 ^ (ds.drop data.length).length +
      value 16 (ds.drop data.length) := by
    rw [← Strtol.value_append, append_drop htake]
  omega

/-- Any other line is rejected, or found with a smaller size. -/
theorem readSizeLine_of_not_lineAt (hpos : 0 < cfg.bufferSize) (hbuf : cfg.bufferSize < 2 ^ 31)
    (hheld : held.length ≤ cfg.bufferSize) (herror : parser.error = 0) (hne : ds ≠ [])
    (hds : ∀ c ∈ ds, isHex c = true) (hproper : Segments.Proper sock)
    (hstream : held ++ sock.flatten = ds ++ 13 :: 10 :: S)
    (hline : lineAt cfg reads begin ds held sock = none) :
    readSizeLine cfg reads begin parser held sock = .ok none ∨
      ∃ l es, readSizeLine cfg reads begin parser held sock = .ok (some l) ∧
        value 16 es < value 16 ds ∧ l.Found cfg parser (storedSize es) S := by
  induction reads generalizing begin parser ds held sock with
  | zero => exact Or.inl rfl
  | succ reads ih =>
    rw [lineAt] at hline
    split at hline
    · next hfill =>
        left
        rw [readSizeLine, hfill]
    next data sock₁ hfill =>
      have hproper' := fill_proper hproper hfill
      split at hline
      · cases hline
      next hlt =>
        rcases readSizeLine_part hpos hbuf hheld herror hne hds hstream hfill (by omega) with
          ⟨parser', herror', hsized, hround⟩
        rw [hround]
        rcases Nat.lt_or_ge ds.length data.length with hlong | hshort
        · have hrest := flatten_of_cr hstream hfill (by omega) hlong
          exact Or.inl (readSizeLine_reject hbuf (Nat.zero_le _) hrest (by decide) (by decide))
        rcases flatten_of_digits hstream hfill hshort with ⟨htake, hrest⟩
        have hdrop : ∀ c ∈ ds.drop data.length, isHex c = true :=
          fun c hc => hds c (mem_of_mem_drop hc)
        split at hline
        · next hzeros =>
            have hleft : ds.drop data.length ≠ [] :=
              fun hnil => absurd (drop_eq_nil_iff.mp hnil) (not_le.mpr hzeros.1)
            rcases ih (Nat.zero_le _) herror' hleft hdrop hproper' hrest hline with
              hnone | ⟨l, es, hread, hless, hfound⟩
            · exact Or.inl hnone
            exact Or.inr ⟨l, es, hread, hless.trans_le (Strtol.value_suffix_le (drop_suffix _ ds)),
              hfound.congr hsized⟩
        next hzeros =>
          rw [allZeros_iff] at hzeros
          rcases readSizeLine_suffix hpos hbuf herror' hdrop hproper' hrest with
            hnone | ⟨l, es, hread, hes, hsuffix, hfound⟩
          · exact Or.inl hnone
          have hlost : data.length < ds.length := by
            by_contra hge
            rw [drop_eq_nil_of_le (not_lt.mp hge), suffix_nil] at hsuffix
            exact hes hsuffix
          have hless := value_drop_lt hds htake fun hall => hzeros ⟨hlost, hall⟩
          exact Or.inr ⟨l, es, hread,
            (Strtol.value_suffix_le hsuffix).trans_lt hless, hfound.congr hsized⟩

end Lines

end Yuyu.Http
