import Yuyu.Http.Automaton

/-!
# The automaton of the response parser

The transition table of `httpclient_parser.rl.cc`, generated from `httpclient_parser.rl`.  Every
`st`-label is a row, whose edges are tried in order.  The states 2 to 7 read the size line of a
chunk.
-/

namespace Yuyu.Http
namespace ClientAutomaton

open List
open Automaton (ByteClass byte char digit hex)

/-- The embedded actions of the grammar; `start_value` does what `mark` does. -/
inductive Act where
  | mark
  | startField
  | writeField
  | writeContentLen
  | writeConnectionClose
  | writeValue
  | reasonPhrase
  | statusCode
  | httpVersion
  | chunkSize
  | transChunked
  | done
deriving DecidableEq, Repr

structure Edge where
  cls : ByteClass
  acts : List Act
  target : Nat
deriving DecidableEq, Repr

def goto (cls : ByteClass) (target : Nat) : Edge := ⟨cls, [], target⟩

def act (cls : ByteClass) (acts : List Act) (target : Nat) : Edge := ⟨cls, acts, target⟩

def anyCase (c : Char) : ByteClass := [(c.toNat - 32, c.toNat - 32), (c.toNat, c.toNat)]

def space : ByteClass := [(9, 13), (32, 32)]

def spaceNotLf : ByteClass := [(9, 9), (11, 13), (32, 32)]

def spaceNotEol : ByteClass := [(9, 9), (11, 12), (32, 32)]

def tokenChar : ByteClass :=
  [(33, 33), (35, 39), (42, 43), (45, 46), (48, 57), (65, 90), (94, 122), (124, 124), (126, 126)]

def text : ByteClass := [(0, 9), (11, 12), (14, 255)]

def notLf : ByteClass := [(0, 9), (11, 255)]

/-- The edge at the end of a header name. -/
def colon : Edge := act (char ':') [.writeField] 22

/-- The edge on a letter in either case, without actions. -/
def fold (c : Char) (target : Nat) : Edge := goto (anyCase c) target

/-- The row inside of a header name that is looked for. -/
def letter (c : Char) (target : Nat) : List Edge := [colon, fold c target, goto tokenChar 21]

def rows1 : List (List Edge) := [
  [act hex [.mark] 2, act (char 'H') [.mark] 8],
  [act (byte 10) [.chunkSize, .done] 120, act (byte 13) [.chunkSize] 3, goto hex 2,
    act (char ';') [.chunkSize] 4],
  [act (byte 10) [.done] 120],
  [act tokenChar [.startField] 5],
  [act (byte 10) [.writeField, .mark, .writeValue, .done] 120,
    act (byte 13) [.writeField, .mark, .writeValue] 3,
    act (char ';') [.writeField, .mark, .writeValue] 4, act (char '=') [.writeField, .mark] 6,
    goto tokenChar 5],
  [act tokenChar [.mark] 7],
  [act (byte 10) [.writeValue, .done] 120, act (byte 13) [.writeValue] 3,
    act (char ';') [.writeValue] 4, goto tokenChar 7],
  [goto (char 'T') 9],
  [goto (char 'T') 10],
  [goto (char 'P') 11],
  [goto (char '/') 12],
  [goto digit 13],
  [goto (char '.') 14, goto digit 13],
  [goto digit 15],
  [act (byte 32) [.httpVersion] 16, goto digit 15],
  [act digit [.mark] 17],
  [act (byte 32) [.statusCode] 18, goto digit 17],
  [act notLf [.mark] 19],
  [act (byte 10) [.reasonPhrase] 20, act (byte 13) [.reasonPhrase] 24, goto text 19],
  [act (byte 10) [.done] 120, goto (byte 13) 3, act (anyCase 'c') [.startField] 25,
    act (anyCase 't') [.startField] 44, act tokenChar [.startField] 21],
  [colon, goto tokenChar 21],
  [act spaceNotEol [.mark] 22, act (byte 10) [.mark, .writeValue] 20,
    act (byte 13) [.mark, .writeValue] 24, act text [.mark] 23],
  [act (byte 10) [.writeValue] 20, act (byte 13) [.writeValue] 24, goto text 23],
  [goto (byte 10) 20],
  letter 'o' 26,
  letter 'n' 27,
  [colon, fold 'n' 28, fold 't' 101, goto tokenChar 21],
  letter 'e' 29,
  letter 'c' 30,
  letter 't' 31,
  letter 'i' 32,
  letter 'o' 33,
  letter 'n' 34,
  [act (char ':') [.writeField] 35, goto tokenChar 21],
  [act spaceNotEol [.mark] 35, act (byte 10) [.mark, .writeValue] 36,
    act (byte 13) [.mark, .writeValue] 95, act (anyCase 'c') [.mark] 96, act text [.mark] 23],
  [goto spaceNotEol 37, act (byte 10) [.done] 122, goto (byte 13) 89,
    act (anyCase 'c') [.startField] 90, act (anyCase 't') [.startField] 44,
    act tokenChar [.startField] 21],
  [goto space 37, fold 'c' 38],
  [fold 'l' 39],
  [fold 'o' 40],
  [fold 's' 41],
  [fold 'e' 42]]

def rows42 : List (List Edge) := [
  [goto (byte 10) 43, goto (byte 13) 88],
  [act (byte 10) [.writeConnectionClose, .done] 120, act (byte 13) [.writeConnectionClose] 3,
    act (anyCase 'c') [.writeConnectionClose, .startField] 25,
    act (anyCase 't') [.writeConnectionClose, .startField] 44,
    act tokenChar [.writeConnectionClose, .startField] 21],
  letter 'r' 45,
  letter 'a' 46,
  letter 'n' 47,
  letter 's' 48,
  letter 'f' 49,
  letter 'e' 50,
  letter 'r' 51,
  [goto (char '-') 52, colon, goto tokenChar 21],
  letter 'e' 53,
  letter 'n' 54,
  letter 'c' 55,
  letter 'o' 56,
  letter 'd' 57,
  letter 'i' 58,
  letter 'n' 59,
  letter 'g' 60,
  [act (char ':') [.writeField] 61, goto tokenChar 21],
  [act spaceNotEol [.mark] 61, act (byte 10) [.mark, .writeValue] 62,
    act (byte 13) [.mark, .writeValue] 80, act (anyCase 'c') [.mark] 81, act text [.mark] 23],
  [goto spaceNotEol 63, act (byte 10) [.done] 121, goto (byte 13) 72,
    act (anyCase 'c') [.mark, .startField] 73, act (anyCase 't') [.startField] 44,
    act tokenChar [.startField] 21],
  [goto space 63, act (anyCase 'c') [.mark] 64],
  [fold 'h' 65],
  [fold 'u' 66],
  [fold 'n' 67],
  [fold 'k' 68],
  [fold 'e' 69],
  [fold 'd' 70],
  [act (byte 10) [.writeValue, .transChunked] 20, act (byte 13) [.writeValue] 71],
  [act (byte 10) [.transChunked] 20],
  [goto spaceNotLf 63, act (byte 10) [.done] 121, act (anyCase 'c') [.mark] 64],
  [colon, fold 'h' 74, fold 'o' 26, goto tokenChar 21],
  letter 'u' 75,
  letter 'n' 76,
  letter 'k' 77,
  letter 'e' 78,
  letter 'd' 79,
  [act (byte 10) [.writeValue, .transChunked] 20, act (byte 13) [.writeValue] 71, colon,
    goto tokenChar 21],
  [goto spaceNotLf 63, goto (byte 10) 62, act (anyCase 'c') [.mark] 64],
  [act (byte 10) [.writeValue] 20, act (byte 13) [.writeValue] 24, fold 'h' 82, goto text 23],
  [act (byte 10) [.writeValue] 20, act (byte 13) [.writeValue] 24, fold 'u' 83, goto text 23]]

def rows83 : List (List Edge) := [
  [act (byte 10) [.writeValue] 20, act (byte 13) [.writeValue] 24, fold 'n' 84, goto text 23],
  [act (byte 10) [.writeValue] 20, act (byte 13) [.writeValue] 24, fold 'k' 85, goto text 23],
  [act (byte 10) [.writeValue] 20, act (byte 13) [.writeValue] 24, fold 'e' 86, goto text 23],
  [act (byte 10) [.writeValue] 20, act (byte 13) [.writeValue] 24, fold 'd' 87, goto text 23],
  [act (byte 10) [.writeValue, .transChunked] 20, act (byte 13) [.writeValue] 71, goto text 23],
  [goto (byte 10) 43],
  [goto spaceNotLf 37, act (byte 10) [.done] 122, fold 'c' 38],
  [colon, fold 'l' 91, fold 'o' 26, goto tokenChar 21],
  letter 'o' 92,
  letter 's' 93,
  letter 'e' 94,
  [goto (byte 10) 43, goto (byte 13) 88, colon, goto tokenChar 21],
  [goto spaceNotLf 37, goto (byte 10) 36, fold 'c' 38],
  [act (byte 10) [.writeValue] 20, act (byte 13) [.writeValue] 24, fold 'l' 97, goto text 23],
  [act (byte 10) [.writeValue] 20, act (byte 13) [.writeValue] 24, fold 'o' 98, goto text 23],
  [act (byte 10) [.writeValue] 20, act (byte 13) [.writeValue] 24, fold 's' 99, goto text 23],
  [act (byte 10) [.writeValue] 20, act (byte 13) [.writeValue] 24, fold 'e' 100, goto text 23],
  [act (byte 10) [.writeValue] 43, act (byte 13) [.writeValue] 88, goto text 23],
  letter 'e' 102,
  letter 'n' 103,
  letter 't' 104,
  [goto (char '-') 105, colon, goto tokenChar 21],
  letter 'l' 106,
  letter 'e' 107,
  letter 'n' 108,
  letter 'g' 109,
  letter 't' 110,
  letter 'h' 111,
  [act (char ':') [.writeField] 112, goto tokenChar 21],
  [act spaceNotEol [.mark] 112, act (byte 10) [.mark, .writeValue] 113,
    act (byte 13) [.mark, .writeValue] 118, act digit [.mark] 119, act text [.mark] 23],
  [goto spaceNotEol 114, act (byte 10) [.done] 123, goto (byte 13) 116,
    act digit [.mark, .startField] 117, act (anyCase 'c') [.startField] 25,
    act (anyCase 't') [.startField] 44, act tokenChar [.startField] 21],
  [goto space 114, act digit [.mark] 115],
  [act (byte 10) [.writeContentLen, .writeValue] 20,
    act (byte 13) [.writeContentLen, .writeValue] 24, goto digit 115],
  [goto spaceNotLf 114, act (byte 10) [.done] 123, act digit [.mark] 115],
  [act (byte 10) [.writeContentLen, .writeValue] 20,
    act (byte 13) [.writeContentLen, .writeValue] 24, goto digit 117, colon, goto tokenChar 21],
  [goto spaceNotLf 114, goto (byte 10) 113, act digit [.mark] 115],
  [act (byte 10) [.writeContentLen, .writeValue] 20,
    act (byte 13) [.writeContentLen, .writeValue] 24, goto digit 119, goto text 23],
  [],
  [goto space 63, act (anyCase 'c') [.mark] 64],
  [goto space 37, fold 'c' 38],
  [goto space 114, act digit [.mark] 115]]

def httpclientParserStart : Nat := 1

def httpclientParserFirstFinal : Nat := 120

def httpclientParserError : Nat := 0

def rows : List (List Edge) := rows1 ++ rows42 ++ rows83

def row (cs : Nat) : List Edge :=
  match cs with
  | 0 => []
  | n + 1 => rows.getD n []

def delta (cs : Nat) (c : UInt8) : Option (List Act × Nat) :=
  ((row cs).find? fun e => e.cls.has c).map fun e => (e.acts, e.target)

def takes (cs : Nat) (cls : ByteClass) (next : List Act × Nat) : Bool :=
  cls.all fun r =>
    (Automaton.findOnRange Edge.cls (fun _ => true) (row cs) r).map
      (fun e => (e.acts, e.target)) == some next

variable {cs target : Nat} {c : UInt8} {acts : List Act}

lemma delta_of_takes {cls : ByteClass} {next : List Act × Nat}
    (h : takes cs cls next = true) (hc : cls.has c = true) : delta cs c = some next := by
  obtain ⟨r, hr, hin⟩ := any_eq_true.mp hc
  simp only [Bool.and_eq_true, decide_eq_true_eq] at hin
  obtain ⟨e, hfind, hnext⟩ := Option.map_eq_some_iff.mp (beq_iff_eq.mp (all_eq_true.mp h r hr))
  have hedge := Automaton.find?_of_findOnRange hfind hin.1 hin.2
  simp only [Bool.true_and] at hedge
  rw [delta, hedge, Option.map_some, hnext]

lemma delta_row (h : delta cs c = some (acts, target)) :
    ∃ e ∈ row cs, e.cls.has c = true ∧ e.acts = acts ∧ e.target = target := by
  rcases Option.map_eq_some_iff.mp h with ⟨e, hfind, heq⟩
  cases heq
  exact ⟨e, mem_of_find?_eq_some hfind, by simpa using List.find?_some hfind, rfl, rfl⟩

lemma mem_rows_of_row {e : Edge} (h : e ∈ row cs) : e ∈ rows.flatten := by
  cases cs with
  | zero => cases h
  | succ n =>
    rw [row, getD_eq_getElem?_getD] at h
    cases hrow : rows[n]? with
    | none => simp [hrow] at h
    | some r =>
      rw [hrow] at h
      exact mem_flatten.mpr ⟨r, mem_of_getElem? hrow, h⟩

lemma delta_done_final (h : delta cs c = some (acts, target)) :
    .done ∈ acts ↔ httpclientParserFirstFinal ≤ target := by
  have htable : ∀ e ∈ rows.flatten, .done ∈ e.acts ↔ httpclientParserFirstFinal ≤ e.target := by
    decide +kernel
  rcases delta_row h with ⟨e, hmem, _, rfl, rfl⟩
  exact htable e (mem_rows_of_row hmem)

lemma done_of_firstFinal
    (h : delta cs c = some (acts, httpclientParserFirstFinal)) : .done ∈ acts :=
  (delta_done_final h).mpr (Nat.le_refl _)

def isHex (c : UInt8) : Bool := hex.has c

lemma has_byte (n : Nat) (c : UInt8) : (byte n).has c = decide (c.toNat = n) := by
  simp only [ByteClass.has, byte, any_cons, any_nil, Bool.or_false]
  rw [Bool.eq_iff_iff]
  simp only [Bool.and_eq_true, decide_eq_true_eq]
  omega

/-- The steps on a size line. -/
theorem delta_start (c : UInt8) : delta 1 c = if isHex c then some ([.mark], 2)
      else if c.toNat = 72 then some ([.mark], 8) else none := by
  have hrow : row 1 = [act hex [.mark] 2, act (byte 72) [.mark] 8] := rfl
  simp only [delta, hrow, List.find?, act, has_byte]
  cases hhex : hex.has c with
  | true => simp [isHex, hhex]
  | false =>
    by_cases hH : c.toNat = 72
    · simp [isHex, hhex, hH]
    · simp [isHex, hhex, hH]

lemma not_isHex_of_toNat (h : c.toNat = 10 ∨ c.toNat = 13 ∨ c.toNat = 59) : isHex c = false := by
  rcases h with h | h | h <;> simp [isHex, ByteClass.has, hex, h]

theorem delta_digits (c : UInt8) : delta 2 c = if isHex c then some ([], 2)
      else if c.toNat = 10 then some ([.chunkSize, .done], 120)
      else if c.toNat = 13 then some ([.chunkSize], 3)
      else if c.toNat = 59 then some ([.chunkSize], 4) else none := by
  have hrow : row 2 = [act (byte 10) [.chunkSize, .done] 120, act (byte 13) [.chunkSize] 3,
      goto hex 2, act (byte 59) [.chunkSize] 4] := rfl
  simp only [delta, hrow, List.find?, act, goto, has_byte]
  by_cases hlf : c.toNat = 10
  · simp [hlf, not_isHex_of_toNat (Or.inl hlf)]
  by_cases hcr : c.toNat = 13
  · simp [hcr, not_isHex_of_toNat (Or.inr (Or.inl hcr))]
  cases hhex : hex.has c with
  | true => simp [isHex, hhex, hlf, hcr]
  | false =>
    by_cases hsemi : c.toNat = 59
    · simp [isHex, hhex, hsemi]
    · simp [isHex, hhex, hlf, hcr, hsemi]

/-- Behind the size, no step leaves the size line or sets a length. -/
theorem delta_extension (hcs : 3 ≤ cs ∧ cs ≤ 7) (h : delta cs c = some (acts, target)) :
    (3 ≤ target ∧ target ≤ 7 ∨ target = httpclientParserFirstFinal) ∧
      .chunkSize ∉ acts ∧ .writeContentLen ∉ acts := by
  have htable : ∀ cs ∈ [3, 4, 5, 6, 7], ∀ e ∈ row cs,
      (3 ≤ e.target ∧ e.target ≤ 7 ∨ e.target = httpclientParserFirstFinal) ∧
        .chunkSize ∉ e.acts ∧ .writeContentLen ∉ e.acts := by
    decide +kernel
  rcases delta_row h with ⟨e, hmem, _, rfl, rfl⟩
  refine htable cs ?_ e hmem
  simp only [mem_cons, not_mem_nil, or_false]
  omega

end ClientAutomaton
end Yuyu.Http
