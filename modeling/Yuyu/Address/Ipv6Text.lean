import Yuyu.Address.Subnet
import Yuyu.Foundation.Decimal

/-!
# The text of an IPv6 address

`IPv6Address::insert` writes the eight groups in hexadecimal, separated by colons, and a second
colon in place of the first run of zero groups.
-/

namespace Yuyu.Address

open Foundation List
open Strtol (isDigit value)
open Decimal (decimal hexadecimal)

lemma even_lt (i : Fin 8) : 2 * (i : Nat) < 16 := by omega

lemma odd_lt (i : Fin 8) : 2 * (i : Nat) + 1 < 16 := by omega

/-- Entry `i` of `s6_addr` read as words of 16 bits. -/
def word (e : Endian) (s : Fin 16 → Byte) (i : Fin 8) : BitVec 16 :=
  match e with
  | .little => s ⟨2 * i + 1, odd_lt i⟩ ++ s ⟨2 * i, even_lt i⟩
  | .big => s ⟨2 * i, even_lt i⟩ ++ s ⟨2 * i + 1, odd_lt i⟩

def groupText (e : Endian) (w : BitVec 16) : List UInt8 :=
  hexadecimal (byteswapOnLittleEndian e 2 w).toNat

/-- The loop over the words, with the word before: the text and `used_zeros` at the end. -/
def insertLoop (e : Endian) : Option (BitVec 16) → List (BitVec 16) → Bool → List UInt8 × Bool
  | _, [], usedZeros => ([], usedZeros)
  | before, w :: ws, usedZeros =>
    if w = 0#16 ∧ usedZeros = false then insertLoop e (some w) ws usedZeros
    else
      let first : Bool := before = some 0#16 ∧ usedZeros = false
      let colons : List UInt8 := (if first then [58] else []) ++ if before.isSome then [58] else []
      let r := insertLoop e (some w) ws (usedZeros || first)
      (colons ++ groupText e w ++ r.1, r.2)

def body (e : Endian) (ws : List (BitVec 16)) : List UInt8 :=
  let r := insertLoop e none ws false
  r.1 ++ if r.2 = false ∧ ws.getLast? = some 0#16 then [58, 58] else []

def insert (e : Endian) (a : SockaddrIn6) : List UInt8 :=
  [91] ++ body e (List.ofFn (word e a.addr)) ++ [93, 58] ++
    decimal (byteswapOnLittleEndian e 2 a.port).toNat

def readGroup (t : List UInt8) : Option Nat :=
  if t ≠ [] ∧ t.length ≤ 4 ∧ t.all (isDigit 16) = true then some (value 16 t) else none

def readGroups (t : List UInt8) : Option (List Nat) :=
  if t = [] then some [] else (t.splitOn 58).mapM readGroup

/-- The text in front of the first `::` and the text behind it. -/
def breakZeros : List UInt8 → Option (List UInt8 × List UInt8)
  | [] => none
  | c :: t =>
    if c = 58 ∧ t.head? = some 58 then some ([], t.tail)
    else (breakZeros t).map fun r => (c :: r.1, r.2)

/-- The eight groups that a text denotes: all of them, or those around one `::` that stands for one
or more groups of zeros. -/
def reading (t : List UInt8) : Option (List Nat) :=
  match breakZeros t with
  | none => (readGroups t).bind fun gs => if gs.length = 8 then some gs else none
  | some (l, r) =>
    (readGroups l).bind fun ls => (readGroups r).bind fun rs =>
      if ls.length + rs.length ≤ 7 then
        some (ls ++ List.replicate (8 - ls.length - rs.length) 0 ++ rs)
      else none

def groups (s : Fin 16 → Byte) : List Nat :=
  List.ofFn fun i : Fin 8 =>
    256 * (s ⟨2 * i, even_lt i⟩).toNat + (s ⟨2 * i + 1, odd_lt i⟩).toNat

def join (ts : List (List UInt8)) : List UInt8 := [58].intercalate ts

lemma join_cons (t : List UInt8) (ts : List (List UInt8)) :
    join (t :: ts) = t ++ ts.flatMap (58 :: ·) := by
  induction ts generalizing t with
  | nil => simp [join]
  | cons u ts ih =>
    rw [join, intercalate_cons_cons, ← join, ih]
    simp

section Loop

variable {e : Endian} {ws : List (BitVec 16)}

lemma insertLoop_used (p : BitVec 16) :
    insertLoop e (some p) ws true = ((ws.map (groupText e)).flatMap (58 :: ·), true) := by
  induction ws generalizing p with
  | nil => rfl
  | cons w ws ih => simp [insertLoop, ih]

lemma insertLoop_zeros :
    insertLoop e (some 0#16) ws false =
      if ws.dropWhile (· = 0#16) = [] then ([], false)
      else (58 :: ((ws.dropWhile (· = 0#16)).map (groupText e)).flatMap (58 :: ·), true) := by
  induction ws with
  | nil => rfl
  | cons w ws ih =>
    rw [insertLoop]
    by_cases hw : w = 0#16
    · rw [hw, ih]
      simp
    · simp [hw, insertLoop_used]

lemma insertLoop_front {p : BitVec 16} (hp : p ≠ 0#16) :
    insertLoop e (some p) ws false =
      (((ws.takeWhile (· ≠ 0#16)).map (groupText e)).flatMap (58 :: ·) ++
          (insertLoop e (some 0#16) (ws.dropWhile (· ≠ 0#16)) false).1,
        (insertLoop e (some 0#16) (ws.dropWhile (· ≠ 0#16)) false).2) := by
  induction ws generalizing p with
  | nil => rfl
  | cons w ws ih =>
    by_cases hw : w = 0#16
    · simp [insertLoop, hw]
    · rw [insertLoop]
      simp [hp, hw, ih hw]

lemma body_eq (hne : ws ≠ []) :
    body e ws = join ((ws.takeWhile (· ≠ 0#16)).map (groupText e)) ++
      if ws.dropWhile (· ≠ 0#16) = [] then []
      else 58 :: 58 :: join
        (((ws.dropWhile (· ≠ 0#16)).dropWhile (· = 0#16)).map (groupText e)) := by
  have hloop : insertLoop e none ws false =
      (join ((ws.takeWhile (· ≠ 0#16)).map (groupText e)) ++
          (insertLoop e (some 0#16) (ws.dropWhile (· ≠ 0#16)) false).1,
        (insertLoop e (some 0#16) (ws.dropWhile (· ≠ 0#16)) false).2) := by
    cases ws with
    | nil => exact absurd rfl hne
    | cons w ws =>
      by_cases hw : w = 0#16
      · simp [insertLoop, hw, join]
      · rw [insertLoop]
        simp [hw, insertLoop_front hw, join_cons]
  have hws := takeWhile_append_dropWhile (p := (· ≠ 0#16)) (l := ws)
  rw [body, hloop, insertLoop_zeros]
  generalize hz : ws.dropWhile (· ≠ 0#16) = z at *
  by_cases hzero : z = []
  · -- no zero at all
    subst hzero
    rw [append_nil, takeWhile_eq_self_iff] at hws
    have hlast : ws.getLast? ≠ some 0#16 := by
      intro heq
      simpa using hws _ (mem_of_getLast? heq)
    simp [hlast]
  by_cases hr : z.dropWhile (· = 0#16) = []
  · -- the run reaches the end
    have hlast : ws.getLast? = some 0#16 := by
      rw [← hws, List.getLast?_append_of_ne_nil _ hzero, List.getLast?_eq_getLast_of_ne_nil hzero]
      simpa using dropWhile_eq_nil_iff.mp hr _ (getLast_mem hzero)
    simp [hzero, hr, hlast, join]
  · obtain ⟨w, rest, hrest⟩ := exists_cons_of_ne_nil hr
    simp [hzero, hrest, join_cons]

end Loop

/-! ## Reading it back -/

section Groups

variable {e : Endian} {ws : List (BitVec 16)}

def groupValue (e : Endian) (w : BitVec 16) : Nat := (byteswapOnLittleEndian e 2 w).toNat

lemma isDigit_groupText {w : BitVec 16} {c : UInt8} (h : c ∈ groupText e w) :
    isDigit 16 c = true := Decimal.isDigit_of_mem_positional Decimal.digitVal_hexDigit (by decide) h

lemma colon_notMem_groupText (w : BitVec 16) : 58 ∉ groupText e w := by
  intro h
  exact absurd (isDigit_groupText h) (by decide)

lemma groupText_ne_nil (w : BitVec 16) : groupText e w ≠ [] :=
  Decimal.positional_ne_nil 16 Decimal.hexDigit _

lemma readGroup_groupText (w : BitVec 16) : readGroup (groupText e w) = some (groupValue e w) := by
  have hlen : (groupText e w).length ≤ 4 :=
    Decimal.length_positional_le _ (by decide) (by decide) (BitVec.isLt _)
  have hall : (groupText e w).all (isDigit 16) = true := all_eq_true.mpr fun c => isDigit_groupText
  rw [readGroup, if_pos ⟨groupText_ne_nil w, hlen, hall⟩, groupText, hexadecimal,
    Decimal.value_positional Decimal.digitVal_hexDigit (by decide), groupValue]

lemma readGroups_join :
    readGroups (join (ws.map (groupText e))) = some (ws.map (groupValue e)) := by
  have hmap : (ws.map (groupText e)).mapM readGroup = some (ws.map (groupValue e)) := by
    induction ws with
    | nil => rfl
    | cons w ws ih => simp [readGroup_groupText, ih]
  cases ws with
  | nil => rfl
  | cons w ws =>
    have hne : join ((w :: ws).map (groupText e)) ≠ [] := by
      simp [join_cons, groupText_ne_nil]
    rw [readGroups, if_neg hne, join, splitOn_intercalate _ ?_ (by simp), hmap]
    intro t ht
    obtain ⟨w', -, rfl⟩ := mem_map.mp ht
    exact colon_notMem_groupText w'

lemma breakZeros_append {t : List UInt8} (h : 58 ∉ t) (rest : List UInt8) :
    breakZeros (t ++ rest) = (breakZeros rest).map fun r => (t ++ r.1, r.2) := by
  induction t with
  | nil => simp
  | cons c t ih =>
    rw [mem_cons, not_or] at h
    rw [cons_append, breakZeros, if_neg (fun hc => h.1 hc.1.symm), ih h.2, Option.map_map]
    rfl

lemma breakZeros_flatMap (rest : List UInt8) :
    breakZeros ((ws.map (groupText e)).flatMap (58 :: ·) ++ rest) =
      (breakZeros rest).map fun r => ((ws.map (groupText e)).flatMap (58 :: ·) ++ r.1, r.2) := by
  induction ws with
  | nil => simp
  | cons w ws ih =>
    have hhead : ∀ more, (groupText e w ++ more).head? ≠ some 58 := by
      intro more heq
      rw [List.head?_append_of_ne_nil _ (groupText_ne_nil w)] at heq
      exact colon_notMem_groupText w (mem_of_head? heq)
    rw [map_cons, flatMap_cons, append_assoc, cons_append, breakZeros,
      if_neg fun hc => hhead _ hc.2, breakZeros_append (colon_notMem_groupText w), ih]
    simp [Function.comp_def]

lemma breakZeros_join (rest : List UInt8) :
    breakZeros (join (ws.map (groupText e)) ++ rest) =
      (breakZeros rest).map fun r => (join (ws.map (groupText e)) ++ r.1, r.2) := by
  cases ws with
  | nil => simp [join]
  | cons w ws =>
    rw [map_cons, join_cons, append_assoc, breakZeros_append (colon_notMem_groupText w),
      breakZeros_flatMap]
    simp [Function.comp_def]

lemma reading_body (h : ws.length = 8) : reading (body e ws) = some (ws.map (groupValue e)) := by
  have hne : ws ≠ [] := ne_nil_of_length_pos (by omega)
  have hws := takeWhile_append_dropWhile (p := (· ≠ 0#16)) (l := ws)
  rw [body_eq hne]
  generalize ws.takeWhile (· ≠ 0#16) = l at *
  generalize hz : ws.dropWhile (· ≠ 0#16) = z at *
  unfold reading
  rw [breakZeros_join]
  by_cases hzero : z = []
  · subst hzero
    rw [append_nil] at hws
    subst hws
    simp [breakZeros, readGroups_join, h]
  have hrest := takeWhile_append_dropWhile (p := (· = 0#16)) (l := z)
  have hzeros : (z.takeWhile (· = 0#16)).map (groupValue e) =
      List.replicate (z.takeWhile (· = 0#16)).length 0 := by
    rw [eq_replicate_iff, length_map]
    refine ⟨rfl, fun v hv => ?_⟩
    obtain ⟨w, hw, rfl⟩ := mem_map.mp hv
    rw [show w = 0#16 by simpa using mem_takeWhile_imp hw]
    cases e <;> rfl
  have hpos : 0 < (z.takeWhile (· = 0#16)).length := by
    have hhead := List.head?_dropWhile_not (· ≠ 0#16) ws
    rw [hz] at hhead
    cases z with
    | nil => exact absurd rfl hzero
    | cons w z => simp [show w = 0#16 by simpa using hhead]
  rw [if_neg hzero]
  generalize z.takeWhile (· = 0#16) = k at *
  generalize z.dropWhile (· = 0#16) = r at *
  have hlen : l.length + (k.length + r.length) = 8 := by
    rw [← h, ← hws, ← hrest, length_append, length_append]
  simp only [breakZeros, List.head?_cons, and_self, if_true, tail_cons, Option.map_some,
    append_nil, readGroups_join, Option.bind_some, length_map]
  rw [if_pos (by omega), show 8 - l.length - r.length = k.length by omega, ← hzeros, ← hws, ← hrest]
  simp

lemma mem_body (h : ws.length = 8) {c : UInt8} (hc : c ∈ body e ws) :
    c = 58 ∨ isDigit 16 c = true := by
  have hjoin : ∀ ws : List (BitVec 16), c ∈ join (ws.map (groupText e)) →
      c = 58 ∨ isDigit 16 c = true := by
    intro ws hc
    cases ws with
    | nil => simp [join] at hc
    | cons w ws =>
      simp only [map_cons, join_cons, mem_append, mem_flatMap, mem_map, mem_cons] at hc
      obtain hc | ⟨t, ⟨w', -, rfl⟩, rfl | hc⟩ := hc
      · exact Or.inr (isDigit_groupText hc)
      · exact Or.inl rfl
      · exact Or.inr (isDigit_groupText hc)
  rw [body_eq (ne_nil_of_length_pos (by omega)), mem_append] at hc
  rcases hc with hc | hc
  · exact hjoin _ hc
  split at hc
  · contradiction
  rcases mem_cons.mp hc with rfl | hc
  · exact Or.inl rfl
  rcases mem_cons.mp hc with rfl | hc
  · exact Or.inl rfl
  · exact hjoin _ hc

end Groups

lemma toNat_append_bytes (a b : Byte) : (a ++ b).toNat = 256 * a.toNat + b.toNat := by
  rw [BitVec.toNat_append, ← Nat.shiftLeft_add_eq_or_of_lt b.isLt]
  omega

lemma groupValue_word (e : Endian) (s : Fin 16 → Byte) (i : Fin 8) :
    groupValue e (word e s i) =
      256 * (s ⟨2 * i, even_lt i⟩).toNat + (s ⟨2 * i + 1, odd_lt i⟩).toNat := by
  rw [← toNat_append_bytes]
  cases e with
  | big => rfl
  | little =>
    refine congrArg BitVec.toNat (BitVec.eq_of_getLsbD_eq fun j hj => ?_)
    refine (WordBytes.getLsbD_byteswap rfl _ hj).trans ?_
    rw [word, BitVec.getLsbD_append, BitVec.getLsbD_append]
    by_cases hlow : j < 8
    · rw [if_neg (by omega), if_pos hlow]
      congr 1
      omega
    rw [if_pos (by omega), if_neg hlow]
    congr 1
    omega

lemma groups_injective {s s' : Fin 16 → Byte} (h : groups s = groups s') : s = s' := by
  have hgroup : ∀ i : Fin 8, s ⟨2 * i, by omega⟩ = s' ⟨2 * i, by omega⟩ ∧
      s ⟨2 * i + 1, by omega⟩ = s' ⟨2 * i + 1, by omega⟩ := by
    intro i
    have hi := congrFun (ofFn_inj.mp h) i
    constructor <;> apply BitVec.eq_of_toNat_eq <;> omega
  funext j
  have hj := hgroup ⟨j / 2, by omega⟩
  rcases Nat.mod_two_eq_zero_or_one j with heven | hodd
  · rw [show j = ⟨2 * (j / 2), by omega⟩ from Fin.ext (by dsimp only; omega)]
    exact hj.1
  · rw [show j = ⟨2 * (j / 2) + 1, by omega⟩ from Fin.ext (by dsimp only; omega)]
    exact hj.2

/-- On machines of both byte orders the text denotes the groups of the address and the port, and no
other address and port have the same text. -/
theorem ipv6_text_denotes (e : Endian) (a : SockaddrIn6) :
    (∃ text, insert e a =
        [91] ++ text ++ [93, 58] ++ decimal (byteswapOnLittleEndian e 2 a.port).toNat ∧
      reading text = some (groups a.addr)) ∧
    ∀ b : SockaddrIn6, insert e b = insert e a → b.addr = a.addr ∧ b.port = a.port := by
  have hread : ∀ b : SockaddrIn6,
      reading (body e (List.ofFn (word e b.addr))) = some (groups b.addr) := by
    intro b
    rw [reading_body (by simp)]
    exact congrArg some (congrArg List.ofFn (funext (groupValue_word e b.addr)))
  refine ⟨⟨_, rfl, hread a⟩, fun b h => ?_⟩
  -- the texts end at the first closing bracket
  have hbracket : ∀ b : SockaddrIn6, 93 ∉ body e (List.ofFn (word e b.addr)) := by
    intro b hc
    rcases mem_body (by simp) hc with hcolon | hdigit
    · contradiction
    · exact absurd hdigit (by decide)
  simp only [insert, append_assoc, cons_append, nil_append, cons.injEq, true_and] at h
  have hfirst : ∀ (b : SockaddrIn6) (rest : List UInt8),
      (body e (List.ofFn (word e b.addr)) ++ 93 :: rest).takeWhile (· ≠ 93) =
        body e (List.ofFn (word e b.addr)) := by
    intro b rest
    rw [takeWhile_append_of_pos fun c hc => by
      simpa using fun heq : c = 93 => hbracket b (heq ▸ hc)]
    simp
  have hbody : body e (List.ofFn (word e b.addr)) = body e (List.ofFn (word e a.addr)) := by
    rw [← hfirst b, h, hfirst]
  rw [hbody, append_cancel_left_eq, cons.injEq, cons.injEq] at h
  constructor
  · have hgroups := (hread b).symm.trans ((congrArg reading hbody).trans (hread a))
    exact groups_injective (Option.some.inj hgroups)
  have hvalue := congrArg (value 10) h.2.2
  rw [Decimal.value_decimal, Decimal.value_decimal] at hvalue
  rw [← byteswapOnLittleEndian_self (n := 2) rfl b.port, BitVec.eq_of_toNat_eq hvalue,
    byteswapOnLittleEndian_self rfl]

end Yuyu.Address
