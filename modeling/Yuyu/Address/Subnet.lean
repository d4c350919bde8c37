import Yuyu.ByteArray.Chain
import Yuyu.Foundation.WordBytes
import Mathlib.Algebra.BigOperators.Fin
import Mathlib.Algebra.Order.BigOperators.Group.Finset

/-!
# Subnets

`IPv4Address` and `IPv6Address` make the addresses of a subnet with `CreateMask`, which gives the
ones behind the first bits.  `networdAddress` needs the ones in front.
-/

namespace Yuyu.Address

open Foundation Function
open WordBytes (byteswap)

inductive Undefined where
  | fullShift
  | signedOverflow
  | outOfBounds
deriving DecidableEq

def createMask (w bits : Nat) : Except Undefined (BitVec w) :=
  let shift := sub64 w bits
  if 32 ≤ shift then .error .fullShift
  else if shift = 31 then .error .signedOverflow
  else .ok (BitVec.ofNat w (2 ^ shift - 1))

def byteswapOnLittleEndian (e : Endian) (n : Nat) {w : Nat} (t : BitVec w) : BitVec w :=
  match e with
  | .little => byteswap n t
  | .big => t

lemma byteswapOnLittleEndian_self {e : Endian} {n w : Nat} (hw : w = 8 * n) (v : BitVec w) :
    byteswapOnLittleEndian e n (byteswapOnLittleEndian e n v) = v := by
  cases e with
  | little => exact WordBytes.byteswap_byteswap hw v
  | big => rfl

structure SockaddrIn where
  family : Nat
  port : BitVec 16
  addr : BitVec 32

structure SockaddrIn6 where
  family : Nat
  port : BitVec 16
  flowinfo : BitVec 32
  addr : Fin 16 → Byte
  scopeId : BitVec 32

def afInet : Nat := 2

def afInet6 : Nat := 10

namespace IPv4Address

def broadcastAddress (e : Endian) (a : SockaddrIn) (prefixLen : Nat) :
    Except Undefined (Option SockaddrIn) := do
  if prefixLen > 32 then return none
  else
    let mask ← createMask 32 prefixLen
    return some { a with addr := a.addr ||| byteswapOnLittleEndian e 4 mask }

def networdAddress (e : Endian) (a : SockaddrIn) (prefixLen : Nat) :
    Except Undefined (Option SockaddrIn) := do
  if prefixLen > 32 then return none
  else
    let mask ← createMask 32 prefixLen
    return some { a with addr := a.addr &&& byteswapOnLittleEndian e 4 mask }

def subnetMask (e : Endian) (prefixLen : Nat) : Except Undefined SockaddrIn := do
  let mask ← createMask 32 prefixLen
  return ⟨afInet, 0, ~~~byteswapOnLittleEndian e 4 mask⟩

end IPv4Address

namespace IPv6Address

def modify (s : Fin 16 → Byte) (i : Nat) (f : Byte → Byte) : Except Undefined (Fin 16 → Byte) :=
  if h : i < 16 then .ok (update s ⟨i, h⟩ (f (s ⟨i, h⟩))) else .error .outOfBounds

/-- Write the entries from `lo` on and below `hi` one after the other. -/
def fill (s : Fin 16 → Byte) (lo hi : Nat) (v : Byte) : Fin 16 → Byte :=
  ((List.finRange 16).filter fun i => lo ≤ i.val ∧ i.val < hi).foldl
    (fun s i => update s i v) s

def broadcastAddress (a : SockaddrIn6) (prefixLen : Nat) : Except Undefined SockaddrIn6 := do
  let mask ← createMask 8 (prefixLen % 8)
  let addr ← modify a.addr (prefixLen / 8) (· ||| mask)
  return { a with addr := fill addr (prefixLen / 8 + 1) 16 0xff }

def networdAddress (a : SockaddrIn6) (prefixLen : Nat) : Except Undefined SockaddrIn6 := do
  let mask ← createMask 8 (prefixLen % 8)
  let addr ← modify a.addr (prefixLen / 8) (· &&& mask)
  return { a with addr := fill addr (prefixLen / 8 + 1) 16 0x00 }

def subnetMask (prefixLen : Nat) : Except Undefined SockaddrIn6 := do
  let mask ← createMask 8 (prefixLen % 8)
  let addr ← modify (fun _ => 0) (prefixLen / 8) fun _ => ~~~mask
  return ⟨afInet6, 0, 0, fill addr 0 (prefixLen / 8) 0xff, 0⟩

end IPv6Address

/-! ## Subnets -/

/-- The word with its first `p` bits set. -/
def prefixMask (w p : Nat) : BitVec w := ~~~(BitVec.allOnes w >>> p)

lemma getMsbD_prefixMask {w i : Nat} (p : Nat) (hi : i < w) :
    (prefixMask w p).getMsbD i = decide (i < p) := by
  simp only [prefixMask, BitVec.getMsbD_not, BitVec.getMsbD_ushiftRight, BitVec.getMsbD_allOnes, hi]
  by_cases hp : i < p
  · simp [hp]
  · simp [hp]
    omega

lemma and_not_eq_and_iff {w : Nat} (x m : BitVec w) : x &&& ~~~m = x &&& m ↔ x = 0 := by
  constructor
  · intro h
    apply BitVec.eq_of_getLsbD_eq
    intro i hi
    have hbit := congrArg (BitVec.getLsbD · i) h
    simp only [BitVec.getLsbD_and, BitVec.getLsbD_not, hi] at hbit
    cases hx : x.getLsbD i
    · simp
    · cases hm : m.getLsbD i <;> simp [hx, hm] at hbit
  · rintro rfl
    simp

/-- What holds for the subnets of one length, with the numbers that the addresses are. -/
structure SubnetLaws {A : Type} (value : A → Nat) (network broadcast : A → A) : Prop where
  network_le : ∀ a, value (network a) ≤ value a
  le_broadcast : ∀ a, value a ≤ value (broadcast a)
  network_network : ∀ a, network (network a) = network a
  broadcast_broadcast : ∀ a, broadcast (broadcast a) = broadcast a

namespace IPv4Address

variable (e : Endian) (p : Nat) (a : SockaddrIn)

def address : BitVec 32 := byteswapOnLittleEndian e 4 a.addr

def withAddress (v : BitVec 32) : SockaddrIn := { a with addr := byteswapOnLittleEndian e 4 v }

def mask : SockaddrIn := ⟨afInet, 0, byteswapOnLittleEndian e 4 (prefixMask 32 p)⟩

def network : SockaddrIn := withAddress e a (address e a &&& prefixMask 32 p)

def broadcast : SockaddrIn := withAddress e a (address e a ||| ~~~prefixMask 32 p)

variable {e}

lemma swap_swap (v : BitVec 32) :
    byteswapOnLittleEndian e 4 (byteswapOnLittleEndian e 4 v) = v :=
  byteswapOnLittleEndian_self (n := 4) rfl v

lemma swap_and (u v : BitVec 32) : byteswapOnLittleEndian e 4 (u &&& v) =
    byteswapOnLittleEndian e 4 u &&& byteswapOnLittleEndian e 4 v := by
  cases e with
  | little => exact WordBytes.byteswap_and (n := 4) rfl u v
  | big => rfl

lemma swap_or (u v : BitVec 32) : byteswapOnLittleEndian e 4 (u ||| v) =
    byteswapOnLittleEndian e 4 u ||| byteswapOnLittleEndian e 4 v := by
  cases e with
  | little => exact WordBytes.byteswap_or (n := 4) rfl u v
  | big => rfl

lemma swap_not (v : BitVec 32) :
    byteswapOnLittleEndian e 4 (~~~v) = ~~~byteswapOnLittleEndian e 4 v := by
  cases e with
  | little => exact WordBytes.byteswap_not (n := 4) rfl v
  | big => rfl

@[simp] lemma address_withAddress (v : BitVec 32) : address e (withAddress e a v) = v := swap_swap v

lemma withAddress_inj {u v : BitVec 32} : withAddress e a u = withAddress e a v ↔ u = v := by
  constructor
  · intro h
    rw [← address_withAddress a u, h, address_withAddress]
  · rintro rfl
    rfl

variable {p}

lemma createMask_eq (hp : p ≤ 32) : createMask 32 p =
    if p = 0 then .error .fullShift
    else if p = 1 then .error .signedOverflow else .ok (~~~prefixMask 32 p) := by
  have hmask : ∀ p < 33, 2 ≤ p →
      BitVec.ofNat 32 (2 ^ (32 - p) - 1) = BitVec.allOnes 32 >>> p := by decide
  rw [createMask, sub64_eq (by decide) hp, prefixMask, BitVec.not_not]
  split
  · rw [if_pos (by omega)]
  split
  · rw [if_neg (by omega), if_pos (by omega)]
  · rw [if_neg (by omega), if_neg (by omega), hmask p (by omega) (by omega)]

lemma createMask_bind_eq_iff (hp : p ≤ 32) {β : Type} (f : BitVec 32 → Except Undefined β) (b : β) :
    createMask 32 p >>= f = .ok b ↔ 2 ≤ p ∧ f (~~~prefixMask 32 p) = .ok b := by
  rw [createMask_eq hp]
  split
  · exact iff_of_false (by simp [bind, Except.bind]) (by omega)
  split
  · exact iff_of_false (by simp [bind, Except.bind]) (by omega)
  · exact (and_iff_right (by omega)).symm

lemma subnetMask_iff (hp : p ≤ 32) : subnetMask e p = .ok (mask e p) ↔ 2 ≤ p := by
  rw [subnetMask, createMask_bind_eq_iff hp]
  refine and_iff_left ?_
  rw [← swap_not, BitVec.not_not]
  rfl

lemma broadcastAddress_iff (hp : p ≤ 32) :
    broadcastAddress e a p = .ok (some (broadcast e p a)) ↔ 2 ≤ p := by
  rw [broadcastAddress, if_neg (by omega), createMask_bind_eq_iff hp]
  refine and_iff_left ?_
  rw [broadcast, withAddress, swap_or, address, swap_swap]
  rfl

lemma networdAddress_iff (hp : p ≤ 32) :
    networdAddress e a p = .ok (some (network e p a)) ↔ 2 ≤ p ∧ address e a = 0 := by
  rw [networdAddress, if_neg (by omega), createMask_bind_eq_iff hp]
  refine and_congr_right fun _ => ?_
  have hcode : { a with addr := a.addr &&& byteswapOnLittleEndian e 4 (~~~prefixMask 32 p) } =
      withAddress e a (address e a &&& ~~~prefixMask 32 p) := by
    rw [withAddress, swap_and, address, swap_swap]
  have hiff : withAddress e a (address e a &&& ~~~prefixMask 32 p) = network e p a ↔
      address e a = 0 := by
    rw [network, withAddress_inj, and_not_eq_and_iff]
  rw [← hiff, ← hcode]
  simp only [pure, Except.pure, Except.ok.injEq, Option.some.injEq]

lemma laws (e : Endian) (p : Nat) :
    SubnetLaws (fun a => (address e a).toNat) (network e p) (broadcast e p) where
  network_le a := by
    rw [network, address_withAddress, BitVec.toNat_and]
    exact Nat.and_le_left
  le_broadcast a := by
    rw [broadcast, address_withAddress, BitVec.toNat_or]
    exact Nat.left_le_or
  network_network a := by
    rw [network, network, address_withAddress, BitVec.and_assoc, BitVec.and_self]
    rfl
  broadcast_broadcast a := by
    rw [broadcast, broadcast, address_withAddress, BitVec.or_assoc, BitVec.or_self]
    rfl

end IPv4Address

namespace IPv6Address

variable (p : Nat) (a : SockaddrIn6)

def maskBytes (i : Fin 16) : Byte := prefixMask 8 (p - 8 * i)

def mask : SockaddrIn6 := ⟨afInet6, 0, 0, maskBytes p, 0⟩

def network : SockaddrIn6 := { a with addr := fun i => a.addr i &&& maskBytes p i }

def broadcast : SockaddrIn6 := { a with addr := fun i => a.addr i ||| ~~~maskBytes p i }

def address : Nat := ∑ i, (a.addr i).toNat * 256 ^ (15 - i.val)

variable {p}

lemma getMsbD_maskBytes {i : Nat} (hi : i < 128) :
    (maskBytes p ⟨i / 8, by omega⟩).getMsbD (i % 8) = decide (i < p) := by
  rw [maskBytes, getMsbD_prefixMask _ (Nat.mod_lt _ (by decide)), decide_eq_decide]
  dsimp only
  omega

lemma maskBytes_of_lt {i : Fin 16} (h : i.val < p / 8) : maskBytes p i = 0xff := by
  apply BitVec.eq_of_getMsbD_eq
  intro j hj
  rw [maskBytes, getMsbD_prefixMask _ hj, show (0xff : Byte) = BitVec.allOnes 8 from rfl,
    BitVec.getMsbD_allOnes, decide_eq_decide]
  omega

lemma maskBytes_of_gt {i : Fin 16} (h : p / 8 < i.val) : maskBytes p i = 0 := by
  rw [maskBytes, prefixMask, Nat.sub_eq_zero_of_le (by omega)]
  rfl

lemma createMask_eq (p : Nat) : createMask 8 (p % 8) = .ok (~~~prefixMask 8 (p % 8)) := by
  have hmask : ∀ k < 8, createMask 8 k = .ok (~~~prefixMask 8 k) := by decide
  exact hmask _ (Nat.mod_lt _ (by decide))

lemma maskBytes_div {i : Fin 16} (h : i.val = p / 8) : maskBytes p i = prefixMask 8 (p % 8) := by
  rw [maskBytes, h]
  congr 1
  omega

lemma fill_apply (s : Fin 16 → Byte) (lo hi : Nat) (v : Byte) (i : Fin 16) :
    fill s lo hi v i = if lo ≤ i.val ∧ i.val < hi then v else s i := by
  have hloop (l : List (Fin 16)) (s : Fin 16 → Byte) :
      l.foldl (fun s i => update s i v) s i = if i ∈ l then v else s i := by
    induction l generalizing s with
    | nil => rfl
    | cons j l ih =>
      rw [List.foldl_cons, ih]
      by_cases hj : i = j
      · simp [hj]
      · simp [hj]
  rw [fill, hloop]
  simp

lemma modify_bind_eq_iff (s : Fin 16 → Byte) (f : Byte → Byte)
    (g : (Fin 16 → Byte) → SockaddrIn6) (b : SockaddrIn6) :
    (modify s (p / 8) f >>= fun addr => (pure (g addr) : Except Undefined SockaddrIn6)) = .ok b ↔
      ∃ h : p / 8 < 16, g (update s ⟨p / 8, h⟩ (f (s ⟨p / 8, h⟩))) = b := by
  unfold modify
  split
  · rename_i h
    simp [h, bind, Except.bind, pure, Except.pure]
  · rename_i h
    simp [h, bind, Except.bind]

lemma fill_update {s t : Fin 16 → Byte} (k : Fin 16) {lo hi : Nat} {v w : Byte}
    (hother : ∀ i, i ≠ k → (if lo ≤ i.val ∧ i.val < hi then v else s i) = t i)
    (hk : ¬ (lo ≤ k.val ∧ k.val < hi)) : fill (update s k w) lo hi v = t ↔ w = t k := by
  constructor
  · rintro rfl
    rw [fill_apply, if_neg hk, update_self]
  intro hw
  funext i
  rw [fill_apply]
  by_cases hi : i = k
  · rw [hi, if_neg hk, update_self, hw]
  · rw [update_of_ne hi, hother i hi]

lemma subnetMask_iff (hp : p ≤ 128) : subnetMask p = .ok (mask p) ↔ p < 128 := by
  have hmk : ∀ addr, (⟨afInet6, 0, 0, addr, 0⟩ : SockaddrIn6) = mask p ↔ addr = maskBytes p := by
    simp [mask]
  rw [subnetMask, createMask_eq]
  refine (modify_bind_eq_iff ..).trans ⟨fun h => by have := h.1; omega, fun h => ⟨by omega, ?_⟩⟩
  rw [hmk, fill_update _ (fun i hi => ?_) (by simp), maskBytes_div rfl, BitVec.not_not]
  have hne : i.val ≠ p / 8 := fun heq => hi (Fin.ext heq)
  split
  · exact (maskBytes_of_lt (by omega)).symm
  · exact (maskBytes_of_gt (by omega)).symm

lemma broadcastAddress_iff (hp : p ≤ 128) :
    broadcastAddress a p = .ok (broadcast p a) ↔ p < 128 := by
  have hmk : ∀ addr, { a with addr := addr } = broadcast p a ↔
      addr = fun i => a.addr i ||| ~~~maskBytes p i := by
    simp [broadcast]
  rw [broadcastAddress, createMask_eq]
  refine (modify_bind_eq_iff ..).trans ⟨fun h => by have := h.1; omega, fun h => ⟨by omega, ?_⟩⟩
  rw [hmk, fill_update _ (fun i hi => ?_) (by simp), maskBytes_div rfl]
  have hne : i.val ≠ p / 8 := fun heq => hi (Fin.ext heq)
  split
  · rw [maskBytes_of_gt (by omega)]
    exact BitVec.or_allOnes.symm
  · rw [maskBytes_of_lt (by omega)]
    exact BitVec.or_zero.symm

lemma networdAddress_iff (hp : p ≤ 128) : networdAddress a p = .ok (network p a) ↔
    p < 128 ∧ ∀ i : Fin 16, i.val = p / 8 → a.addr i = 0 := by
  have hmk : ∀ addr, { a with addr := addr } = network p a ↔
      addr = fun i => a.addr i &&& maskBytes p i := by
    simp [network]
  have hbyte (h : p / 8 < 16) : { a with addr := fill (update a.addr ⟨p / 8, h⟩
      (a.addr ⟨p / 8, h⟩ &&& ~~~prefixMask 8 (p % 8))) (p / 8 + 1) 16 0x00 } = network p a ↔
        a.addr ⟨p / 8, h⟩ = 0 := by
    rw [hmk, fill_update _ (fun i hi => ?_) (by simp), maskBytes_div rfl, and_not_eq_and_iff]
    have hne : i.val ≠ p / 8 := fun heq => hi (Fin.ext heq)
    split
    · rw [maskBytes_of_gt (by omega)]
      exact BitVec.and_zero.symm
    · rw [maskBytes_of_lt (by omega)]
      exact BitVec.and_allOnes.symm
  rw [networdAddress, createMask_eq]
  refine (modify_bind_eq_iff ..).trans ⟨?_, ?_⟩
  · rintro ⟨h, heq⟩
    refine ⟨by omega, fun i hi => ?_⟩
    rw [show i = ⟨p / 8, h⟩ from Fin.ext hi]
    exact (hbyte h).mp heq
  rintro ⟨h, hzero⟩
  have hlt : p / 8 < 16 := by omega
  exact ⟨hlt, (hbyte hlt).mpr (hzero _ rfl)⟩

lemma laws (p : Nat) : SubnetLaws address (network p) (broadcast p) where
  network_le a := by
    refine Finset.sum_le_sum fun i _ => Nat.mul_le_mul_right _ ?_
    rw [network, BitVec.toNat_and]
    exact Nat.and_le_left
  le_broadcast a := by
    refine Finset.sum_le_sum fun i _ => Nat.mul_le_mul_right _ ?_
    rw [broadcast, BitVec.toNat_or]
    exact Nat.left_le_or
  network_network a := by
    simp only [network, BitVec.and_assoc, BitVec.and_self]
  broadcast_broadcast a := by
    simp only [broadcast, BitVec.or_assoc, BitVec.or_self]

end IPv6Address

/-- When the six functions give the mask, the address under the mask and the address with the other
bits set. -/
theorem subnets_right_iff (e : Endian) (a : SockaddrIn) {p : Nat} (hp : p ≤ 32) (b : SockaddrIn6)
    {q : Nat} (hq : q ≤ 128) :
    ((IPv4Address.subnetMask e p = .ok (IPv4Address.mask e p) ↔ 2 ≤ p) ∧
      (IPv4Address.broadcastAddress e a p = .ok (some (IPv4Address.broadcast e p a)) ↔ 2 ≤ p) ∧
      (IPv4Address.networdAddress e a p = .ok (some (IPv4Address.network e p a)) ↔
        2 ≤ p ∧ IPv4Address.address e a = 0)) ∧
    ((IPv6Address.subnetMask q = .ok (IPv6Address.mask q) ↔ q < 128) ∧
      (IPv6Address.broadcastAddress b q = .ok (IPv6Address.broadcast q b) ↔ q < 128) ∧
      (IPv6Address.networdAddress b q = .ok (IPv6Address.network q b) ↔
        q < 128 ∧ ∀ i : Fin 16, i.val = q / 8 → b.addr i = 0)) ∧
    (∀ i < 32, (IPv4Address.address e (IPv4Address.mask e p)).getMsbD i = decide (i < p)) ∧
    (∀ i, (hi : i < 128) →
      ((IPv6Address.mask q).addr ⟨i / 8, by omega⟩).getMsbD (i % 8) = decide (i < q)) ∧
    SubnetLaws (fun a => (IPv4Address.address e a).toNat) (IPv4Address.network e p)
      (IPv4Address.broadcast e p) ∧
    SubnetLaws IPv6Address.address (IPv6Address.network q) (IPv6Address.broadcast q) := by
  refine ⟨⟨?_, ?_, ?_⟩, ⟨?_, ?_, ?_⟩, fun i hi => ?_, fun i hi => ?_, ?_, ?_⟩
  · exact IPv4Address.subnetMask_iff hp
  · exact IPv4Address.broadcastAddress_iff a hp
  · exact IPv4Address.networdAddress_iff a hp
  · exact IPv6Address.subnetMask_iff hq
  · exact IPv6Address.broadcastAddress_iff b hq
  · exact IPv6Address.networdAddress_iff b hq
  · rw [IPv4Address.address, IPv4Address.mask, IPv4Address.swap_swap, getMsbD_prefixMask p hi]
  · exact IPv6Address.getMsbD_maskBytes hi
  · exact IPv4Address.laws e p
  · exact IPv6Address.laws q

theorem subnets_right_common :
    IPv4Address.broadcastAddress .big ⟨afInet, 80, 0xc0a8014d⟩ 24 =
        .ok (some ⟨afInet, 80, 0xc0a801ff⟩) ∧
      IPv6Address.subnetMask 64 = .ok (IPv6Address.mask 64) := by
  have h := subnets_right_iff .big ⟨afInet, 80, 0xc0a8014d⟩ (by decide : 24 ≤ 32)
    ⟨afInet6, 80, 0, fun _ => 0, 0⟩ (by decide : 64 ≤ 128)
  exact ⟨h.1.2.1.mpr (by decide), h.2.1.1.mpr (by decide)⟩

/-- The network of 192.168.1.77/24 is 0.0.0.77, and the lengths 0, 1 and 128 are undefined
behaviour. -/
theorem subnets_wrong :
    IPv4Address.networdAddress .big ⟨afInet, 80, 0xc0a8014d⟩ 24 =
        .ok (some ⟨afInet, 80, 0x0000004d⟩) ∧
      IPv4Address.networdAddress .big ⟨afInet, 80, 0xc0a8014d⟩ 0 = .error .fullShift ∧
      IPv4Address.subnetMask .little 1 = .error .signedOverflow ∧
      IPv6Address.broadcastAddress ⟨afInet6, 80, 0, fun _ => 0, 0⟩ 128 = .error .outOfBounds :=
  ⟨rfl, rfl, rfl, rfl⟩

end Yuyu.Address
