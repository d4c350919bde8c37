import Yuyu.Http.Request

/-!
# Patterns of log formatters

This module models `LogFormatter::init` of `yuyu/log.cc`, which cuts a pattern into texts and
items.  A percent sign in front of another one is copied, but the other one is then looked at
again.
-/

namespace Yuyu.Config

open Http (Bytes ascii)

def isalpha (c : UInt8) : Bool := (65 ≤ c && c ≤ 90) || (97 ≤ c && c ≤ 122)

def substr (s : Bytes) (pos len : Nat) : Bytes := (s.drop pos).take len

/-- A tuple of the vector `vec`.  The last component tells items from texts. -/
structure Piece where
  str : Bytes
  fmt : Bytes
  isItem : Bool
deriving DecidableEq

structure ItemScan where
  n : Nat
  /-- `fmt_status` is 1: a brace is open. -/
  open' : Bool
  str : Bytes
  fmt : Bytes

/-- The inner loop of `init` for an item that starts at `i`, from position
`n` on. -/
def scanItem (pattern : Bytes) (i : Nat) :
    Bytes → Nat → Nat → Bool → Bytes → Bytes → ItemScan
  | [], n, _, fmtStatus, str, fmt => ⟨n, fmtStatus, str, fmt⟩
  | c :: rest, n, fmtBegin, fmtStatus, str, fmt =>
    if !fmtStatus && (!isalpha c && c != 123 && c != 125) then
      ⟨n, fmtStatus, substr pattern (i + 1) (n - i - 1), fmt⟩
    else if !fmtStatus && c == 123 then
      scanItem pattern i rest (n + 1) n true (substr pattern (i + 1) (n - i - 1)) fmt
    else if fmtStatus && c == 125 then
      ⟨n + 1, false, str, substr pattern (fmtBegin + 1) (n - fmtBegin - 1)⟩
    else
      scanItem pattern i rest (n + 1) fmtBegin fmtStatus
        (if n + 1 = pattern.length ∧ str = [] then pattern.drop (i + 1) else str) fmt

def pushText (nstr : Bytes) (vec : List Piece) : List Piece :=
  if nstr = [] then vec else vec ++ [⟨nstr, [], false⟩]

/-- The outer loop of `init`: the pieces, and `m_error`.  Every round moves on by a
character at least. -/
def initLoop (pattern : Bytes) : Nat → Nat → Bytes → List Piece → Bool → List Piece × Bool
  | 0, _, nstr, vec, error => (pushText nstr vec, error)
  | rounds + 1, i, nstr, vec, error =>
    match pattern.drop i with
    | [] => (pushText nstr vec, error)
    | c :: rest =>
      if c ≠ 37 then initLoop pattern rounds (i + 1) (nstr ++ [c]) vec error
      else if rest.head? = some 37 then
        initLoop pattern rounds (i + 1) (nstr ++ [37]) vec error
      else
        let r := scanItem pattern i rest (i + 1) 0 false [] []
        if r.open' then
          initLoop pattern rounds (i + 1) nstr
            (vec ++ [⟨ascii "<<pattern_error>>", r.fmt, false⟩]) true
        else
          initLoop pattern rounds r.n [] (pushText nstr vec ++ [⟨r.str, r.fmt, true⟩]) error

def formatItems : List Bytes :=
  ["m", "p", "r", "c", "t", "n", "d", "f", "l", "T", "F", "N"].map ascii

/-- `m_items`: a literal text, or the item of a key with its argument. -/
inductive FormatItem where
  | text (s : Bytes)
  | item (key fmt : Bytes)
deriving DecidableEq

def Piece.toItem (p : Piece) : FormatItem :=
  if p.isItem then
    if p.str ∈ formatItems then .item p.str p.fmt
    else .text (ascii "<<error_format %" ++ p.str ++ ascii ">>")
  else .text p.str

structure LogFormatter where
  pattern : Bytes
  items : List FormatItem
  error : Bool

namespace LogFormatter

def new (pattern : Bytes) : LogFormatter :=
  let r := initLoop pattern pattern.length 0 [] [] false
  { pattern := pattern
    items := r.1.map Piece.toItem
    error := r.2 || r.1.any fun p => p.isItem && decide (p.str ∉ formatItems) }

def isError (f : LogFormatter) : Bool := f.error

end LogFormatter

/-- The pattern of a new `Logger`. -/
def defaultPattern : Bytes :=
  ascii "%d\x7b%Y-%m-%d %H:%M:%S\x7d%T%t%T%N%T%F%T[%p]%T[%c]%T%f:%l%T%m%n"

lemma le_scanItem (pattern : Bytes) (i : Nat) (rest : Bytes) (n fmtBegin : Nat)
    (fmtStatus : Bool) (str fmt : Bytes) :
    n ≤ (scanItem pattern i rest n fmtBegin fmtStatus str fmt).n := by
  induction rest generalizing n fmtBegin fmtStatus str fmt with
  | nil => exact Nat.le_refl n
  | cons c rest ih =>
    rw [scanItem]
    split
    · exact Nat.le_refl n
    split
    · exact Nat.le_trans (Nat.le_succ n) (ih ..)
    split
    · exact Nat.le_succ n
    · exact Nat.le_trans (Nat.le_succ n) (ih ..)

/-- The bound on the rounds of the loop never ends it. -/
theorem initLoop_enough (pattern : Bytes) {rounds rounds' i : Nat} (nstr : Bytes)
    (vec : List Piece) (error : Bool) (h : pattern.length ≤ i + rounds)
    (h' : pattern.length ≤ i + rounds') :
    initLoop pattern rounds i nstr vec error = initLoop pattern rounds' i nstr vec error := by
  induction rounds generalizing rounds' i nstr vec error with
  | zero =>
    have hend : pattern.drop i = [] := List.drop_eq_nil_of_le h
    cases rounds' with
    | zero => rfl
    | succ rounds' => rw [initLoop, initLoop, hend]
  | succ rounds ih =>
    cases rounds' with
    | zero =>
      have hend : pattern.drop i = [] := List.drop_eq_nil_of_le h'
      rw [initLoop, initLoop, hend]
    | succ rounds' =>
      rw [initLoop, initLoop]
      split
      · rfl
      next c rest hdrop =>
        have hscan := le_scanItem pattern i rest (i + 1) 0 false [] []
        split
        · exact ih _ _ _ (by omega) (by omega)
        split
        · exact ih _ _ _ (by omega) (by omega)
        dsimp only
        split
        · exact ih _ _ _ (by omega) (by omega)
        · exact ih _ _ _ (by omega) (by omega)

end Yuyu.Config
