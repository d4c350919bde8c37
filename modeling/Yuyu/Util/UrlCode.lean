import Yuyu.Foundation.LazyCopy
import Yuyu.Http.Request

/-!
# Percent-encoding

`StringUtil::UrlEncode` and `StringUtil::UrlDecode` of `yuyu/util.cc` create their output at the
first character that they change.
-/

namespace Yuyu.Util

open Foundation List
open Http (Bytes ascii)

def uriChars : List UInt8 := [
  0,0,0,0,0,0,0,0,0,0,0,0,0,0,0,0,
  0,0,0,0,0,0,0,0,0,0,0,0,0,0,0,0,
  0,0,0,0,0,0,0,0,0,0,0,0,0,1,1,0,
  1,1,1,1,1,1,1,1,1,1,0,0,0,1,0,0,
  0,1,1,1,1,1,1,1,1,1,1,1,1,1,1,1,
  1,1,1,1,1,1,1,1,1,1,1,0,0,0,0,1,
  0,1,1,1,1,1,1,1,1,1,1,1,1,1,1,1,
  1,1,1,1,1,1,1,1,1,1,1,0,0,0,1,0,
  0,0,0,0,0,0,0,0,0,0,0,0,0,0,0,0,
  0,0,0,0,0,0,0,0,0,0,0,0,0,0,0,0,
  0,0,0,0,0,0,0,0,0,0,0,0,0,0,0,0,
  0,0,0,0,0,0,0,0,0,0,0,0,0,0,0,0,
  0,0,0,0,0,0,0,0,0,0,0,0,0,0,0,0,
  0,0,0,0,0,0,0,0,0,0,0,0,0,0,0,0,
  0,0,0,0,0,0,0,0,0,0,0,0,0,0,0,0,
  0,0,0,0,0,0,0,0,0,0,0,0,0,0,0,0]

def xdigitChars : List UInt8 := [
  0,0,0,0,0,0,0,0,0,0,0,0,0,0,0,0,
  0,0,0,0,0,0,0,0,0,0,0,0,0,0,0,0,
  0,0,0,0,0,0,0,0,0,0,0,0,0,0,0,0,
  0,1,2,3,4,5,6,7,8,9,0,0,0,0,0,0,
  0,10,11,12,13,14,15,0,0,0,0,0,0,0,0,0,
  0,0,0,0,0,0,0,0,0,0,0,0,0,0,0,0,
  0,10,11,12,13,14,15,0,0,0,0,0,0,0,0,0,
  0,0,0,0,0,0,0,0,0,0,0,0,0,0,0,0,
  0,0,0,0,0,0,0,0,0,0,0,0,0,0,0,0,
  0,0,0,0,0,0,0,0,0,0,0,0,0,0,0,0,
  0,0,0,0,0,0,0,0,0,0,0,0,0,0,0,0,
  0,0,0,0,0,0,0,0,0,0,0,0,0,0,0,0,
  0,0,0,0,0,0,0,0,0,0,0,0,0,0,0,0,
  0,0,0,0,0,0,0,0,0,0,0,0,0,0,0,0,
  0,0,0,0,0,0,0,0,0,0,0,0,0,0,0,0,
  0,0,0,0,0,0,0,0,0,0,0,0,0,0,0,0]

def charIsUnreserved (c : UInt8) : Bool := uriChars.getD c.toNat 0 != 0

def hexdigits (n : UInt8) : UInt8 := (ascii "0123456789ABCDEF").getD n.toNat 0

def isxdigit (c : UInt8) : Bool := (48 ≤ c && c ≤ 57) || (65 ≤ c && c ≤ 70) || (97 ≤ c && c ≤ 102)

def xdigit (c : UInt8) : UInt8 := xdigitChars.getD c.toNat 0

/-- What `UrlEncode` writes in the place of a character. -/
def encodeEdit (spaceAsPlus : Bool) : LazyCopy.Edit UInt8 := fun c _ =>
  if !charIsUnreserved c then
    if c == 32 && spaceAsPlus then some ([43], 0)
    else some ([37, hexdigits (c >>> 4), hexdigits (c &&& 0xf)], 0)
  else none

/-- What `UrlDecode` writes in the place of a character, and how many more it reads. -/
def decodeEdit (spaceAsPlus : Bool) : LazyCopy.Edit UInt8 := fun c rest =>
  if c == 43 && spaceAsPlus then some ([32], 0)
  else if c == 37 then
    match rest with
    | a :: b :: _ =>
      if isxdigit a && isxdigit b then some ([xdigit a <<< 4 ||| xdigit b], 2) else none
    | _ => none
  else none

def urlEncode (str : Bytes) (spaceAsPlus : Bool) : Bytes :=
  LazyCopy.result (encodeEdit spaceAsPlus) str

def urlDecode (str : Bytes) (spaceAsPlus : Bool) : Bytes :=
  LazyCopy.result (decodeEdit spaceAsPlus) str

def upperHex (c : UInt8) : Bool := (48 ≤ c && c ≤ 57) || (65 ≤ c && c ≤ 70)

/-- Texts of unreserved characters, of `+` if it stands for a space, and of triplets. -/
inductive Encoded (spaceAsPlus : Bool) : Bytes → Prop
  | nil : Encoded spaceAsPlus []
  | unreserved {c : UInt8} {rest : Bytes} :
      charIsUnreserved c = true → Encoded spaceAsPlus rest → Encoded spaceAsPlus (c :: rest)
  | plus {rest : Bytes} :
      spaceAsPlus = true → Encoded spaceAsPlus rest → Encoded spaceAsPlus (43 :: rest)
  | triplet {a b : UInt8} {rest : Bytes} :
      upperHex a = true → upperHex b = true → Encoded spaceAsPlus rest →
        Encoded spaceAsPlus (37 :: a :: b :: rest)

/-! ## Bytes -/

structure ByteTables (c : UInt8) : Prop where
  unreserved : charIsUnreserved c = true → c ≠ 37 ∧ c ≠ 43
  high : upperHex (hexdigits (c >>> 4)) = true
  low : upperHex (hexdigits (c &&& 0xf)) = true
  value : xdigit (hexdigits (c >>> 4)) <<< 4 ||| xdigit (hexdigits (c &&& 0xf)) = c

lemma byteTables_ofNat : ∀ n < 256,
    (charIsUnreserved (.ofNat n) = true → UInt8.ofNat n ≠ 37 ∧ UInt8.ofNat n ≠ 43)
      ∧ upperHex (hexdigits (UInt8.ofNat n >>> 4)) = true
      ∧ upperHex (hexdigits (UInt8.ofNat n &&& 0xf)) = true
      ∧ xdigit (hexdigits (UInt8.ofNat n >>> 4)) <<< 4
            ||| xdigit (hexdigits (UInt8.ofNat n &&& 0xf)) = UInt8.ofNat n := by
  decide +kernel

lemma byteTables (c : UInt8) : ByteTables c := by
  have h := byteTables_ofNat c.toNat c.toNat_lt
  rw [UInt8.ofNat_toNat] at h
  exact ⟨h.1, h.2.1, h.2.2.1, h.2.2.2⟩

lemma isxdigit_of_upperHex {c : UInt8} (h : upperHex c = true) : isxdigit c = true := by
  rw [isxdigit, ← upperHex, h, Bool.true_or]

variable {spaceAsPlus : Bool}

lemma encodeEdit_cases (spaceAsPlus : Bool) (c : UInt8) (rest : Bytes) :
    (charIsUnreserved c = true ∧ encodeEdit spaceAsPlus c rest = none)
      ∨ (c = 32 ∧ spaceAsPlus = true ∧ encodeEdit spaceAsPlus c rest = some ([43], 0))
      ∨ encodeEdit spaceAsPlus c rest
          = some ([37, hexdigits (c >>> 4), hexdigits (c &&& 0xf)], 0) := by
  unfold encodeEdit
  cases charIsUnreserved c with
  | true => exact Or.inl ⟨rfl, rfl⟩
  | false =>
    by_cases hplus : (c == 32 && spaceAsPlus) = true
    · have hspace := Bool.and_eq_true_iff.mp hplus
      exact Or.inr (Or.inl ⟨eq_of_beq hspace.1, hspace.2, by simp [hplus]⟩)
    · exact Or.inr (Or.inr (by simp [hplus]))

lemma decodeEdit_other {c : UInt8} (hplus : c ≠ 43) (hpercent : c ≠ 37) (rest : Bytes) :
    decodeEdit spaceAsPlus c rest = none := by
  simp [decodeEdit, hplus, hpercent]

lemma decodeEdit_plus (rest : Bytes) : decodeEdit true 43 rest = some ([32], 0) := rfl

lemma decodeEdit_triplet {a b : UInt8} (ha : upperHex a = true) (hb : upperHex b = true)
    (rest : Bytes) :
    decodeEdit spaceAsPlus 37 (a :: b :: rest) = some ([xdigit a <<< 4 ||| xdigit b], 2) := by
  simp [decodeEdit, isxdigit_of_upperHex ha, isxdigit_of_upperHex hb]

lemma copy_decode_encode (s : Bytes) :
    LazyCopy.copy (decodeEdit spaceAsPlus) 0 (LazyCopy.copy (encodeEdit spaceAsPlus) 0 s) = s := by
  induction s with
  | nil => rfl
  | cons c s ih =>
    have hc := byteTables c
    rcases encodeEdit_cases spaceAsPlus c s with ⟨hkeep, he⟩ | ⟨rfl, rfl, he⟩ | he
    · obtain ⟨hpercent, hplus⟩ := hc.unreserved hkeep
      simp only [LazyCopy.copy, he, decodeEdit_other hplus hpercent, ih]
    · simp only [LazyCopy.copy, he, singleton_append, decodeEdit_plus, ih]
    · simp only [LazyCopy.copy, he, cons_append, nil_append,
        decodeEdit_triplet hc.high hc.low, hc.value, ih]

lemma encoded_copy (s : Bytes) :
    Encoded spaceAsPlus (LazyCopy.copy (encodeEdit spaceAsPlus) 0 s) := by
  induction s with
  | nil => exact .nil
  | cons c s ih =>
    have hc := byteTables c
    rcases encodeEdit_cases spaceAsPlus c s with ⟨hkeep, he⟩ | ⟨rfl, hplus, he⟩ | he
    · simp only [LazyCopy.copy, he]
      exact .unreserved hkeep ih
    · simp only [LazyCopy.copy, he]
      exact .plus hplus ih
    · simp only [LazyCopy.copy, he]
      exact .triplet hc.high hc.low ih

lemma length_le_encode (spaceAsPlus : Bool) (s : Bytes) :
    s.length ≤ (LazyCopy.copy (encodeEdit spaceAsPlus) 0 s).length := by
  induction s with
  | nil => exact Nat.le_refl _
  | cons c s ih =>
    rcases encodeEdit_cases spaceAsPlus c s with ⟨-, he⟩ | ⟨-, -, he⟩ | he
    · simpa [LazyCopy.copy, he] using ih
    · simpa [LazyCopy.copy, he] using ih
    · simp only [LazyCopy.copy, he, length_append, length_cons, length_nil]
      omega

lemma encodeEdit_changes (c : UInt8) (rest : Bytes) (e : Bytes × Nat)
    (h : encodeEdit spaceAsPlus c rest = some e) :
    e.1 ++ LazyCopy.copy (encodeEdit spaceAsPlus) e.2 rest ≠ c :: rest := by
  intro heq
  rcases encodeEdit_cases spaceAsPlus c rest with ⟨-, he⟩ | ⟨rfl, -, he⟩ | he
  · rw [he] at h
    cases h
  · rw [he] at h
    cases h
    exact absurd (cons.inj heq).1 (by decide)
  rw [he] at h
  cases h
  have hlength := congrArg List.length heq
  have hgrows := length_le_encode spaceAsPlus rest
  simp only [length_append, length_cons, length_nil] at hlength
  omega

lemma decodeEdit_cases (spaceAsPlus : Bool) (c : UInt8) (rest : Bytes) :
    decodeEdit spaceAsPlus c rest = none ∨ (c = 43 ∧ decodeEdit spaceAsPlus c rest = some ([32], 0))
      ∨ ∃ a b tail v, rest = a :: b :: tail ∧ decodeEdit spaceAsPlus c rest = some ([v], 2) := by
  by_cases hplus : (c == 43 && spaceAsPlus) = true
  · have hspace := Bool.and_eq_true_iff.mp hplus
    exact Or.inr (Or.inl ⟨eq_of_beq hspace.1, by simp [decodeEdit, hplus]⟩)
  by_cases hpercent : c = 37
  · subst hpercent
    rcases rest with _ | ⟨a, _ | ⟨b, tail⟩⟩
    · exact Or.inl rfl
    · exact Or.inl rfl
    by_cases hdigits : (isxdigit a && isxdigit b) = true
    · exact Or.inr (Or.inr ⟨a, b, tail, _, rfl, by simp [decodeEdit, hdigits]; rfl⟩)
    · exact Or.inl (by simp [decodeEdit, hdigits])
  · exact Or.inl (by simp [decodeEdit, hplus, hpercent])

lemma decode_length_le (spaceAsPlus : Bool) (skip : Nat) (s : Bytes) :
    (LazyCopy.copy (decodeEdit spaceAsPlus) skip s).length ≤ s.length - skip := by
  induction s generalizing skip with
  | nil => simp [LazyCopy.copy]
  | cons c s ih =>
    cases skip with
    | succ skip => simpa [LazyCopy.copy] using ih skip
    | zero =>
      rcases decodeEdit_cases spaceAsPlus c s with he | ⟨-, he⟩ | ⟨a, b, tail, v, rfl, he⟩
      · simpa [LazyCopy.copy, he] using ih 0
      · simpa [LazyCopy.copy, he] using ih 0
      have hrest := ih 2
      simp only [LazyCopy.copy, he, length_append, length_cons, length_nil] at hrest ⊢
      omega

lemma decodeEdit_changes (c : UInt8) (rest : Bytes) (e : Bytes × Nat)
    (h : decodeEdit spaceAsPlus c rest = some e) :
    e.1 ++ LazyCopy.copy (decodeEdit spaceAsPlus) e.2 rest ≠ c :: rest := by
  intro heq
  rcases decodeEdit_cases spaceAsPlus c rest with he | ⟨rfl, he⟩ | ⟨a, b, tail, v, rfl, he⟩
  · rw [he] at h
    cases h
  · rw [he] at h
    cases h
    exact absurd (cons.inj heq).1 (by decide)
  rw [he] at h
  cases h
  have hlength := congrArg List.length heq
  have hshrinks := decode_length_le spaceAsPlus 2 (a :: b :: tail)
  simp only [length_append, length_cons, length_nil] at hlength hshrinks
  omega

/-- Decoding undoes encoding; an encoded text has unreserved characters, plus signs and triplets
only; the output is created exactly if it differs. -/
theorem url_code_exact (s : Bytes) (spaceAsPlus : Bool) :
    urlDecode (urlEncode s spaceAsPlus) spaceAsPlus = s
      ∧ Encoded spaceAsPlus (urlEncode s spaceAsPlus)
      ∧ LazyCopy.scan (encodeEdit spaceAsPlus) s 0 0 s (some []) = some (urlEncode s spaceAsPlus)
      ∧ LazyCopy.scan (decodeEdit spaceAsPlus) s 0 0 s (some []) = some (urlDecode s spaceAsPlus)
      ∧ (LazyCopy.scan (encodeEdit spaceAsPlus) s 0 0 s none = none
          ↔ urlEncode s spaceAsPlus = s)
      ∧ (LazyCopy.scan (decodeEdit spaceAsPlus) s 0 0 s none = none
          ↔ urlDecode s spaceAsPlus = s) := by
  simp only [urlEncode, urlDecode]
  refine ⟨?_, ?_, ?_, ?_, LazyCopy.scan_eq_none_iff encodeEdit_changes s,
    LazyCopy.scan_eq_none_iff decodeEdit_changes s⟩
  · rw [LazyCopy.result_eq, LazyCopy.result_eq, copy_decode_encode]
  · rw [LazyCopy.result_eq]
    exact encoded_copy s
  · rw [LazyCopy.result_eq, LazyCopy.scan_allocated]
  · rw [LazyCopy.result_eq, LazyCopy.scan_allocated]

example : urlEncode (ascii "a b+c") true = ascii "a+b%2Bc" := by decide +kernel

end Yuyu.Util
