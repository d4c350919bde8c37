import Mathlib.Data.List.GetD
import Mathlib.Tactic.Common

/-!
# The automaton of the request parser

The transition table of `http11_parser.rl.cc`. Every `st`-label is a row, every `case` group of its
switch an edge. A byte without an edge goes to the error state. Edges marked as relaxed exist only
while `uri_relaxed` is set.
-/

namespace Yuyu.Http
namespace Automaton

open List

inductive Act where
  | mark
  | startField
  | writeField
  | writeValue
  | requestMethod
  | requestUri
  | fragment
  | startQuery
  | queryString
  | httpVersion
  | requestPath
  | done
  | xml
  | json
deriving DecidableEq, Repr

abbrev ByteClass := List (Nat × Nat)

def ByteClass.has (cls : ByteClass) (c : UInt8) : Bool :=
  cls.any fun range => range.1 ≤ c.toNat && c.toNat ≤ range.2

def ByteClass.meets (cls : ByteClass) (r : Nat × Nat) : Bool :=
  cls.any fun range => range.1 ≤ r.2 && r.1 ≤ range.2

def ByteClass.covers (cls : ByteClass) (r : Nat × Nat) : Bool :=
  cls.any fun range => range.1 ≤ r.1 && r.2 ≤ range.2

def findOnRange {ε : Type} (cls : ε → ByteClass) (allowed : ε → Bool) (edges : List ε)
    (r : Nat × Nat) : Option ε :=
  (edges.find? fun e => allowed e && (cls e).meets r).filter fun e => (cls e).covers r

variable {c : UInt8} {uriRelaxed : Bool} {cs target : Nat} {acts : List Act}

lemma find?_of_findOnRange {ε : Type} {cls : ε → ByteClass} {allowed : ε → Bool}
    {edges : List ε} {r : Nat × Nat} {e : ε} (h : findOnRange cls allowed edges r = some e)
    (hlow : r.1 ≤ c.toNat) (hhigh : c.toNat ≤ r.2) :
    edges.find? (fun e => allowed e && (cls e).has c) = some e := by
  obtain ⟨hfind, hcovers⟩ := Option.filter_eq_some_iff.mp h
  obtain ⟨hfirst, before, behind, rfl, hbefore⟩ := List.find?_eq_some_iff_append.mp hfind
  rw [Bool.and_eq_true] at hfirst
  refine List.find?_eq_some_iff_append.mpr ⟨?_, before, behind, rfl, fun e' he' => ?_⟩
  · obtain ⟨range, hrange, hle⟩ := any_eq_true.mp hcovers
    simp only [Bool.and_eq_true, decide_eq_true_eq] at hle
    rw [Bool.and_eq_true]
    refine ⟨hfirst.1, any_eq_true.mpr ⟨range, hrange, ?_⟩⟩
    simp only [Bool.and_eq_true, decide_eq_true_eq]
    omega
  -- an edge that has the byte meets the range
  have hnot := hbefore e' he'
  cases hallowed : allowed e' with
  | false => rfl
  | true =>
    simp only [hallowed, Bool.true_and, Bool.not_eq_true', ByteClass.meets, ByteClass.has,
      any_eq_false, Bool.and_eq_true, decide_eq_true_eq] at hnot ⊢
    intro range hrange hin
    exact hnot range hrange ⟨by omega, by omega⟩

structure Edge where
  cls : ByteClass
  /-- The edge is taken only while `uri_relaxed` is set. -/
  needsRelaxed : Bool
  acts : List Act
  target : Nat
deriving DecidableEq, Repr

def byte (n : Nat) : ByteClass := [(n, n)]

def char (c : Char) : ByteClass := byte c.toNat

def goto (cls : ByteClass) (target : Nat) : Edge := ⟨cls, false, [], target⟩

/-- The edge on one character, without actions. -/
def eat (c : Char) (target : Nat) : Edge := goto (char c) target

def act (cls : ByteClass) (acts : List Act) (target : Nat) : Edge := ⟨cls, false, acts, target⟩

def relaxed (cls : ByteClass) (acts : List Act) (target : Nat) : Edge := ⟨cls, true, acts, target⟩

def hex : ByteClass := [(48, 57), (65, 70), (97, 102)]

def digit : ByteClass := [(48, 57)]

def hexLetter : ByteClass := [(65, 70), (97, 102)]

def moreDelims : ByteClass := [(94, 94), (123, 123), (125, 125)]

def upperOrDigit : ByteClass := [(48, 57), (65, 90)]

def digitNot12 : ByteClass := [(48, 48), (51, 57)]

def hexNot05 : ByteClass := [(49, 52), (54, 57), (65, 70), (97, 102)]

def hexNot0 : ByteClass := [(49, 57), (65, 70), (97, 102)]

def regName : ByteClass :=
  [(33, 33), (36, 36), (38, 46), (48, 57), (59, 59), (61, 61), (65, 90), (95, 95), (97, 122),
    (126, 126)]

def userinfo : ByteClass :=
  [(33, 33), (36, 36), (38, 46), (48, 59), (61, 61), (65, 90), (95, 95), (97, 122), (126, 126)]

def queryChar : ByteClass :=
  [(33, 33), (36, 36), (38, 59), (61, 61), (63, 90), (95, 95), (97, 122), (126, 126), (128, 255)]

def segmentNc : ByteClass :=
  [(33, 33), (36, 36), (38, 46), (48, 57), (59, 59), (61, 61), (64, 90), (95, 95), (97, 122),
    (126, 126)]

def pchar : ByteClass :=
  [(33, 33), (36, 36), (38, 46), (48, 59), (61, 61), (64, 90), (95, 95), (97, 122), (126, 126),
    (128, 255)]

def token : ByteClass :=
  [(1, 8), (10, 31), (33, 33), (35, 39), (42, 43), (45, 46), (48, 57), (65, 90), (94, 122),
    (124, 124), (126, 126)]

def pcharOrSlash : ByteClass :=
  [(33, 33), (36, 36), (38, 59), (61, 61), (64, 90), (95, 95), (97, 122), (126, 126), (128, 255)]

def userinfoNotDigit : ByteClass :=
  [(33, 33), (36, 36), (38, 46), (58, 59), (61, 61), (65, 90), (95, 95), (97, 122), (126, 126)]

def xmlName : ByteClass := [(45, 46), (48, 57), (65, 90), (97, 122)]

def pathStartNotAlpha : ByteClass :=
  [(33, 33), (36, 36), (38, 46), (48, 57), (59, 59), (61, 61), (64, 64), (95, 95), (126, 126)]

def alpha : ByteClass := [(65, 90), (97, 122)]

def tokenNotCrLf : ByteClass :=
  [(1, 8), (11, 12), (14, 31), (33, 33), (35, 39), (42, 43), (45, 46), (48, 57), (65, 90),
    (94, 122), (124, 124), (126, 126)]

def valueStart : ByteClass := [(1, 8), (11, 12), (14, 31), (33, 126), (128, 255)]

def blank : ByteClass := [(9, 9), (32, 32)]

def valueByte : ByteClass := [(1, 9), (11, 12), (14, 126), (128, 255)]

def tokenNotLf : ByteClass :=
  [(1, 8), (11, 31), (33, 33), (35, 39), (42, 43), (45, 46), (48, 57), (65, 90), (94, 122),
    (124, 124), (126, 126)]

def segmentNotScheme : ByteClass :=
  [(33, 33), (36, 36), (38, 42), (44, 44), (59, 59), (61, 61), (64, 64), (95, 95), (126, 126)]

def schemeByte : ByteClass := [(43, 43), (45, 46), (48, 57), (65, 90), (97, 122)]

def xmlNameEnd : ByteClass := [(9, 13), (32, 32), (47, 47), (62, 62)]

def notGreater : ByteClass := [(0, 61), (63, 255)]

def notGreaterOrNul : ByteClass := [(1, 61), (63, 255)]

def notBrace : ByteClass := [(0, 124), (126, 255)]

def notBraceOrNul : ByteClass := [(1, 124), (126, 255)]

def zeroOrOne : ByteClass := [(48, 49)]

/-! ## The rows -/

/-- The blank behind the path. -/
def pathEnd : Edge := act (byte 32) [.requestPath, .requestUri] 4

/-- The sign of a fragment behind the path. -/
def fragmentSign : Edge := act (char '#') [.requestPath, .requestUri] 20

/-- The sign of a query behind the path. -/
def querySign : Edge := act (char '?') [.requestPath] 29

/-- The blank behind the method. -/
def methodEnd : Edge := act (byte 32) [.requestMethod] 3

/-- The blank behind the path of a document or message. -/
def docEnd : Edge := act (byte 32) [.requestPath] 199

/-- The states 1 to 46. -/
def rows1 : List (List Edge) := [
  [act upperOrDigit [.mark] 2, act (char '<') [.mark] 194, act (char '@') [.mark] 198],
  [methodEnd, goto upperOrDigit 175],
  [act (byte 32) [.mark, .requestPath, .requestUri] 4, act pathStartNotAlpha [.mark] 19,
    act (char '#') [.mark, .requestPath, .requestUri] 20, act (char '%') [.mark] 24,
    act (char '/') [.mark] 33, act (char '?') [.mark, .requestPath] 29, act alpha [.mark] 173,
    relaxed moreDelims [.mark] 19],
  [act (char 'H') [.mark] 5],
  [eat 'T' 6],
  [eat 'T' 7],
  [eat 'P' 8],
  [eat '/' 9],
  [eat '1' 10],
  [eat '.' 11],
  [goto zeroOrOne 12],
  [act (byte 10) [.httpVersion] 13, act (byte 13) [.httpVersion] 17],
  [act tokenNotCrLf [.startField] 14, act (byte 10) [.startField, .done] 348,
    act (byte 13) [.startField] 18],
  [goto token 14, act (char ':') [.writeField] 15],
  [act valueStart [.mark] 16, act blank [.mark] 15, act (byte 10) [.mark, .writeValue] 13,
    act (byte 13) [.mark, .writeValue] 17],
  [goto valueByte 16, act (byte 10) [.writeValue] 13, act (byte 13) [.writeValue] 17],
  [goto (byte 10) 13],
  [goto tokenNotLf 14, act (byte 10) [.done] 348, act (char ':') [.writeField] 15],
  [pathEnd, goto segmentNc 19, fragmentSign, eat '%' 24, eat '/' 26, querySign,
    relaxed moreDelims [] 19],
  [act (byte 32) [.mark, .fragment] 4, act queryChar [.mark] 21, act (char '%') [.mark] 22,
    relaxed moreDelims [.mark] 21],
  [act (byte 32) [.fragment] 4, goto queryChar 21, eat '%' 22, relaxed moreDelims [] 21],
  [goto hex 23],
  [goto hex 21],
  [goto hex 25],
  [goto hex 19],
  [pathEnd, goto pcharOrSlash 26, fragmentSign, eat '%' 27, querySign, relaxed moreDelims [] 26],
  [goto hex 28],
  [goto hex 26],
  [act (byte 32) [.startQuery, .queryString, .requestUri] 4, act queryChar [.startQuery] 30,
    act (char '#') [.startQuery, .queryString, .requestUri] 20, act (char '%') [.startQuery] 31,
    relaxed moreDelims [.startQuery] 30],
  [act (byte 32) [.queryString, .requestUri] 4, goto queryChar 30,
    act (char '#') [.queryString, .requestUri] 20, eat '%' 31, relaxed moreDelims [] 30],
  [goto hex 32],
  [goto hex 30],
  [pathEnd, goto pchar 26, fragmentSign, eat '%' 27, eat '/' 34, querySign,
    relaxed moreDelims [] 26],
  [pathEnd, goto regName 35, fragmentSign, eat '%' 36, eat '/' 26, eat ':' 38, querySign,
    eat '@' 42, eat '[' 47, relaxed moreDelims [] 35],
  [pathEnd, goto regName 35, fragmentSign, eat '%' 36, eat '/' 26, eat ':' 38, querySign,
    eat '@' 42, relaxed moreDelims [] 35],
  [goto hex 37],
  [goto hex 35],
  [pathEnd, goto userinfoNotDigit 39, fragmentSign, eat '%' 40, eat '/' 26, goto digit 38,
    querySign, eat '@' 42, relaxed moreDelims [] 39],
  [goto userinfo 39, eat '%' 40, eat '@' 42, relaxed moreDelims [] 39],
  [goto hex 41],
  [goto hex 39],
  [pathEnd, goto regName 43, fragmentSign, eat '%' 44, eat '/' 26, eat ':' 46, querySign,
    eat '[' 47, relaxed moreDelims [] 43],
  [pathEnd, goto regName 43, fragmentSign, eat '%' 44, eat '/' 26, eat ':' 46, querySign,
    relaxed moreDelims [] 43],
  [goto hex 45],
  [goto hex 43],
  [pathEnd, fragmentSign, eat '/' 26, goto digit 46, querySign]]

/-- A row of a part of the machine that is there twice. -/
def shift (k : Nat) (es : List Edge) : List Edge :=
  es.map fun e => { e with target := e.target + k }

/-- The states 47 to 60.  Numbers that are higher by 175 are those of the same part in messages. -/
def rows47 : List (List Edge) := [
  [goto (byte 6) 48, goto hex 91, eat ':' 167, eat 'v' 169],
  [goto hex 49],
  [goto hex 50, eat ':' 53],
  [goto hex 51, eat ':' 53],
  [goto hex 52, eat ':' 53],
  [eat ':' 53],
  [goto digitNot12 54, eat '1' 84, eat '2' 87, goto hexLetter 90],
  [eat '.' 55, goto hex 77, eat ':' 80],
  [goto digitNot12 56, eat '1' 72, eat '2' 74],
  [eat '.' 57],
  [goto digitNot12 58, eat '1' 67, eat '2' 69],
  [eat '.' 59],
  [goto digitNot12 60, eat '1' 62, eat '2' 64],
  [eat ']' 61]]

/-- The state behind the bracket. -/
def rows61 : List (List Edge) := [
  [pathEnd, fragmentSign, eat '/' 26, eat ':' 46, querySign]]

/-- The states 62 to 117. -/
def rows62 : List (List Edge) := [
  [goto digit 63, eat ']' 61],
  [goto digit 60, eat ']' 61],
  [eat '0' 65, eat '5' 66, eat ']' 61],
  [goto digit 60],
  [eat '0' 60],
  [eat '.' 59, goto digit 68],
  [eat '.' 59, goto digit 58],
  [eat '.' 59, eat '0' 70, eat '5' 71],
  [goto digit 58],
  [eat '0' 58],
  [eat '.' 57, goto digit 73],
  [eat '.' 57, goto digit 56],
  [eat '.' 57, eat '0' 75, eat '5' 76],
  [goto digit 56],
  [eat '0' 56],
  [goto hex 78, eat ':' 80],
  [goto hex 79, eat ':' 80],
  [eat ':' 80],
  [goto hex 81],
  [goto hex 82, eat ']' 61],
  [goto hex 83, eat ']' 61],
  [goto hex 60, eat ']' 61],
  [eat '.' 55, goto digit 85, eat ':' 80, goto hexLetter 77],
  [eat '.' 55, goto digit 86, eat ':' 80, goto hexLetter 78],
  [eat '.' 55, goto hex 79, eat ':' 80],
  [eat '.' 55, eat '0' 88, goto hexNot05 77, eat '5' 89, eat ':' 80],
  [goto digit 86, eat ':' 80, goto hexLetter 78],
  [eat '0' 86, goto hexNot0 78, eat ':' 80],
  [goto hex 77, eat ':' 80],
  [goto hex 92, eat ':' 95],
  [goto hex 93, eat ':' 95],
  [goto hex 94, eat ':' 95],
  [eat ':' 95],
  [goto hex 96, eat ':' 166],
  [goto hex 97, eat ':' 100],
  [goto hex 98, eat ':' 100],
  [goto hex 99, eat ':' 100],
  [eat ':' 100],
  [goto hex 101, eat ':' 165],
  [goto hex 102, eat ':' 105],
  [goto hex 103, eat ':' 105],
  [goto hex 104, eat ':' 105],
  [eat ':' 105],
  [goto hex 106, eat ':' 164],
  [goto hex 107, eat ':' 110],
  [goto hex 108, eat ':' 110],
  [goto hex 109, eat ':' 110],
  [eat ':' 110],
  [goto hex 111, eat ':' 163],
  [goto hex 112, eat ':' 115],
  [goto hex 113, eat ':' 115],
  [goto hex 114, eat ':' 115],
  [eat ':' 115],
  [goto hex 116, eat ':' 151],
  [goto hex 117, eat ':' 120],
  [goto hex 118, eat ':' 120]]

/-- The states 118 to 172. -/
def rows118 : List (List Edge) := [
  [goto hex 119, eat ':' 120],
  [eat ':' 120],
  [goto hex 121, eat ':' 150],
  [goto hex 122, eat ':' 125],
  [goto hex 123, eat ':' 125],
  [goto hex 124, eat ':' 125],
  [eat ':' 125],
  [goto hex 121, eat ':' 126],
  [goto [(2, 3)] 48, goto digitNot12 127, eat '1' 143, eat '2' 146, goto hexLetter 149, eat ']' 61],
  [eat '.' 55, goto hex 128, eat ':' 131, eat ']' 61],
  [goto hex 129, eat ':' 131, eat ']' 61],
  [goto hex 130, eat ':' 131, eat ']' 61],
  [eat ':' 131, eat ']' 61],
  [goto digitNot12 132, eat '1' 136, eat '2' 139, goto hexLetter 142],
  [eat '.' 55, goto hex 133, eat ':' 80, eat ']' 61],
  [goto hex 134, eat ':' 80, eat ']' 61],
  [goto hex 135, eat ':' 80, eat ']' 61],
  [eat ':' 80, eat ']' 61],
  [eat '.' 55, goto digit 137, eat ':' 80, goto hexLetter 133, eat ']' 61],
  [eat '.' 55, goto digit 138, eat ':' 80, goto hexLetter 134, eat ']' 61],
  [eat '.' 55, goto hex 135, eat ':' 80, eat ']' 61],
  [eat '.' 55, eat '0' 140, goto hexNot05 133, eat '5' 141, eat ':' 80, eat ']' 61],
  [goto digit 138, eat ':' 80, goto hexLetter 134, eat ']' 61],
  [eat '0' 138, goto hexNot0 134, eat ':' 80, eat ']' 61],
  [goto hex 133, eat ':' 80, eat ']' 61],
  [eat '.' 55, goto digit 144, eat ':' 131, goto hexLetter 128, eat ']' 61],
  [eat '.' 55, goto digit 145, eat ':' 131, goto hexLetter 129, eat ']' 61],
  [eat '.' 55, goto hex 130, eat ':' 131, eat ']' 61],
  [eat '.' 55, eat '0' 147, goto hexNot05 128, eat '5' 148, eat ':' 131, eat ']' 61],
  [goto digit 145, eat ':' 131, goto hexLetter 129, eat ']' 61],
  [eat '0' 145, goto hexNot0 129, eat ':' 131, eat ']' 61],
  [goto hex 128, eat ':' 131, eat ']' 61],
  [goto [(2, 3)] 48, goto digitNot12 127, eat '1' 143, eat '2' 146, goto hexLetter 149],
  [goto [(2, 3)] 48, goto digitNot12 152, eat '1' 156, eat '2' 159, goto hexLetter 162],
  [eat '.' 55, goto hex 153, eat ':' 131],
  [goto hex 154, eat ':' 131],
  [goto hex 155, eat ':' 131],
  [eat ':' 131],
  [eat '.' 55, goto digit 157, eat ':' 131, goto hexLetter 153],
  [eat '.' 55, goto digit 158, eat ':' 131, goto hexLetter 154],
  [eat '.' 55, goto hex 155, eat ':' 131],
  [eat '.' 55, eat '0' 160, goto hexNot05 153, eat '5' 161, eat ':' 131],
  [goto digit 158, eat ':' 131, goto hexLetter 154],
  [eat '0' 158, goto hexNot0 154, eat ':' 131],
  [goto hex 153, eat ':' 131],
  [goto [(2, 3)] 48, goto hex 49],
  [goto [(2, 3)] 48],
  [goto (byte 3) 48],
  [goto (byte 4) 48],
  [eat ':' 168],
  [goto [(2, 5)] 48, goto digitNot12 127, eat '1' 143, eat '2' 146, goto hexLetter 149, eat ']' 61],
  [goto hex 170],
  [eat '.' 171, goto hex 170],
  [goto userinfo 172, relaxed moreDelims [] 172],
  [goto userinfo 172, eat ']' 61, relaxed moreDelims [] 172]]

/-- The states 173 to 221. -/
def rows173 : List (List Edge) := [
  [pathEnd, goto segmentNotScheme 19, fragmentSign, eat '%' 24, goto schemeByte 173, eat '/' 26,
    eat ':' 174, querySign, relaxed moreDelims [] 19],
  [act (byte 32) [.mark, .requestPath, .requestUri] 4, act pchar [.mark] 26,
    act (char '#') [.mark, .requestPath, .requestUri] 20, act (char '%') [.mark] 27,
    act (char '/') [.mark] 33, act (char '?') [.mark, .requestPath] 29,
    relaxed moreDelims [.mark] 26],
  [methodEnd, goto upperOrDigit 176],
  [methodEnd, goto upperOrDigit 177],
  [methodEnd, goto upperOrDigit 178],
  [methodEnd, goto upperOrDigit 179],
  [methodEnd, goto upperOrDigit 180],
  [methodEnd, goto upperOrDigit 181],
  [methodEnd, goto upperOrDigit 182],
  [methodEnd, goto upperOrDigit 183],
  [methodEnd, goto upperOrDigit 184],
  [methodEnd, goto upperOrDigit 185],
  [methodEnd, goto upperOrDigit 186],
  [methodEnd, goto upperOrDigit 187],
  [methodEnd, goto upperOrDigit 188],
  [methodEnd, goto upperOrDigit 189],
  [methodEnd, goto upperOrDigit 190],
  [methodEnd, goto upperOrDigit 191],
  [methodEnd, goto upperOrDigit 192],
  [methodEnd, goto upperOrDigit 193],
  [methodEnd],
  [goto xmlName 195],
  [act xmlNameEnd [.requestPath] 196, goto xmlName 195],
  [goto notGreater 196, eat '>' 197],
  [act (byte 0) [.xml, .done] 349, goto notGreaterOrNul 196, eat '>' 197],
  [docEnd, goto segmentNc 202, eat '%' 203, eat '/' 208, relaxed moreDelims [] 202],
  [act (char '{') [.mark] 200],
  [goto notBrace 200, eat '}' 201],
  [act (byte 0) [.json, .done] 349, goto notBraceOrNul 200, eat '}' 201],
  [docEnd, goto segmentNc 202, eat '%' 203, eat '/' 205, relaxed moreDelims [] 202],
  [goto hex 204],
  [goto hex 202],
  [docEnd, goto pcharOrSlash 205, eat '%' 206, relaxed moreDelims [] 205],
  [goto hex 207],
  [goto hex 205],
  [docEnd, goto pchar 205, eat '%' 206, eat '/' 209, relaxed moreDelims [] 205],
  [docEnd, goto regName 210, eat '%' 211, eat '/' 205, eat ':' 213, eat '@' 217, eat '[' 222,
    relaxed moreDelims [] 210],
  [docEnd, goto regName 210, eat '%' 211, eat '/' 205, eat ':' 213, eat '@' 217,
    relaxed moreDelims [] 210],
  [goto hex 212],
  [goto hex 210],
  [docEnd, goto userinfoNotDigit 214, eat '%' 215, eat '/' 205, goto digit 213, eat '@' 217,
    relaxed moreDelims [] 214],
  [goto userinfo 214, eat '%' 215, eat '@' 217, relaxed moreDelims [] 214],
  [goto hex 216],
  [goto hex 214],
  [docEnd, goto regName 218, eat '%' 219, eat '/' 205, eat ':' 221, eat '[' 222,
    relaxed moreDelims [] 218],
  [docEnd, goto regName 218, eat '%' 219, eat '/' 205, eat ':' 221, relaxed moreDelims [] 218],
  [goto hex 220],
  [goto hex 218],
  [docEnd, eat '/' 205, goto digit 221]]

/-- The state behind the bracket in messages. -/
def rows236 : List (List Edge) := [
  [docEnd, eat '/' 205, eat ':' 221]]

/-- The final states. -/
def rows348 : List (List Edge) := [
  [goto token 14, act (char ':') [.writeField] 15],
  []]

def httpParserStart : Nat := 1

def httpParserFirstFinal : Nat := 348

def httpParserError : Nat := 0

def rows : List (List Edge) :=
  rows1 ++ rows47 ++ rows61 ++ rows62 ++ rows118 ++ rows173 ++ rows47.map (shift 175) ++ rows236 ++
    rows62.map (shift 175) ++ rows118.map (shift 175) ++ rows348

def row (cs : Nat) : List Edge :=
  match cs with
  | 0 => []
  | n + 1 => rows.getD n []

/-- The first transition of a row that takes the character. -/
def transition (uriRelaxed : Bool) (es : List Edge) (c : UInt8) : Option (List Act × Nat) :=
  (es.find? fun e => (!e.needsRelaxed || uriRelaxed) && e.cls.has c).map
    fun e => (e.acts, e.target)

/-- The transition function of the machine. -/
def delta (uriRelaxed : Bool) (cs : Nat) (c : UInt8) : Option (List Act × Nat) :=
  transition uriRelaxed (row cs) c

def takes (uriRelaxed : Bool) (cs : Nat) (cls : ByteClass) (next : List Act × Nat) : Bool :=
  cls.all fun r =>
    (findOnRange Edge.cls (fun e => !e.needsRelaxed || uriRelaxed) (row cs) r).map
      (fun e => (e.acts, e.target)) == some next

lemma delta_of_takes {cls : ByteClass} {next : List Act × Nat}
    (h : takes uriRelaxed cs cls next = true) (hc : cls.has c = true) :
    delta uriRelaxed cs c = some next := by
  obtain ⟨r, hr, hin⟩ := any_eq_true.mp hc
  simp only [Bool.and_eq_true, decide_eq_true_eq] at hin
  obtain ⟨e, hfind, hnext⟩ := Option.map_eq_some_iff.mp (beq_iff_eq.mp (all_eq_true.mp h r hr))
  rw [delta, transition, find?_of_findOnRange hfind hin.1 hin.2, Option.map_some, hnext]

def edges : List Edge := rows.flatten

lemma mem_zipIdx_of_row {e : Edge} (hmem : e ∈ row cs) : (row cs, cs) ∈ rows.zipIdx 1 := by
  cases cs with
  | zero => cases hmem
  | succ n =>
    rcases Nat.lt_or_ge n rows.length with hn | hn
    · rw [mk_mem_zipIdx_iff_le_and_getElem?_sub]
      refine ⟨Nat.le_add_left 1 n, ?_⟩
      rw [Nat.add_sub_cancel, row, getD_eq_getElem _ _ hn, List.getElem?_eq_getElem hn]
    · rw [row, getD_eq_default _ _ hn] at hmem
      cases hmem

lemma mem_edges_of_row {e : Edge} (hmem : e ∈ row cs) : e ∈ edges := by
  have hrow := fst_mem_of_mem_zipIdx (mem_zipIdx_of_row hmem)
  exact mem_flatten.mpr ⟨_, hrow, hmem⟩

lemma delta_row (h : delta uriRelaxed cs c = some (acts, target)) :
    ∃ e ∈ row cs, e.cls.has c = true ∧ e.acts = acts ∧ e.target = target := by
  unfold delta transition at h
  rw [Option.map_eq_some_iff] at h
  rcases h with ⟨e, hfind, heq⟩
  rw [Prod.mk.injEq] at heq
  have hacc := List.find?_some hfind
  rw [Bool.and_eq_true] at hacc
  exact ⟨e, mem_of_find?_eq_some hfind, hacc.2, heq⟩

/-- A request method ends at a space. -/
theorem requestMethod_on_space (h : delta uriRelaxed cs c = some (acts, target))
    (hact : .requestMethod ∈ acts) : c = 32 := by
  have htable : ∀ e ∈ edges, .requestMethod ∈ e.acts → e.cls = byte 32 := by decide +kernel
  rcases delta_row h with ⟨e, hmem, hcls, rfl, _⟩
  rw [htable e (mem_edges_of_row hmem) hact] at hcls
  simp [ByteClass.has, byte] at hcls
  apply UInt8.toNat_inj.mp
  simp; omega

/-- The automaton stops exactly in its final states. -/
theorem delta_done_final (h : delta uriRelaxed cs c = some (acts, target)) :
    .done ∈ acts ↔ httpParserFirstFinal ≤ target := by
  have htable : ∀ e ∈ edges, .done ∈ e.acts ↔ httpParserFirstFinal ≤ e.target := by
    decide +kernel
  rcases delta_row h with ⟨e, hmem, _, rfl, rfl⟩
  exact htable e (mem_edges_of_row hmem)

lemma delta_ne_error (h : delta uriRelaxed cs c = some (acts, target)) :
    target ≠ httpParserError := by
  have htable : ∀ e ∈ edges, e.target ≠ httpParserError := by decide +kernel
  rcases delta_row h with ⟨e, hmem, _, _, rfl⟩
  exact htable e (mem_edges_of_row hmem)

lemma row_strict_first (cs : Nat) :
    row cs = (row cs).filter (fun e => !e.needsRelaxed) ++ (row cs).filter (·.needsRelaxed) := by
  have htable : ∀ r ∈ rows,
      r = r.filter (fun e => !e.needsRelaxed) ++ r.filter (·.needsRelaxed) := by decide +kernel
  cases hrow : row cs with
  | nil => rfl
  | cons e es =>
    rw [← hrow]
    exact htable _ (fst_mem_of_mem_zipIdx (mem_zipIdx_of_row (e := e) (by simp [hrow])))

/-- Relaxed URIs only add transitions. -/
theorem delta_of_strict {next : List Act × Nat}
    (h : delta false cs c = some next) (uriRelaxed : Bool) : delta uriRelaxed cs c = some next := by
  rw [delta, transition, Option.map_eq_some_iff] at h ⊢
  rcases h with ⟨e, hfind, hnext⟩
  refine ⟨e, ?_, hnext⟩
  rw [row_strict_first, List.find?_append, Option.or_eq_some_iff] at hfind ⊢
  rcases hfind with hfind | ⟨_, hfind⟩
  · left
    rw [List.find?_filter] at hfind ⊢
    rw [← hfind]
    congr 1
    funext e
    cases e.needsRelaxed <;> simp
  -- an edge of a relaxed URI is not taken in the strict grammar
  rw [List.find?_filter] at hfind
  have hpred := List.find?_some hfind
  simp only [Bool.or_false, Bool.and_eq_true, Bool.not_eq_true', decide_eq_true_eq] at hpred
  exact absurd hpred.1 (by simp [hpred.2.1])

end Automaton
end Yuyu.Http
