import Akita.Dram.AddressMapping
import Akita.Mem.Units
import Mathlib.Tactic.Linarith
import Mathlib.Tactic.Ring

/-!
# The storage of a DRAM controller

`Build` without a global storage: the capacity is a product of the parameters, in 64-bit arithmetic.

* `bits` : the bits that the address mapping tells apart;
* `Covers` : the storage has these bits, and accesses to them succeed;
* `Fits`, `covers_iff` : the parameters for which it does.
-/

namespace Akita.Dram.OwnStorage
open List

/-- A result of type `int`. -/
def int (z : Int) : Int := z.bmod (2 ^ 64)

structure Builder extends Dram.Builder where
  deviceWidth : Nat := 16

namespace Builder

variable (b : Builder)

/-- The address mapper of the controller. -/
def addrMapper : AddressMapping.Builder where
  burstLength := b.burstLength
  busWidth := b.busWidth
  numChannel := b.numChannel
  numRank := b.numRank
  numBankGroup := b.numBankGroup
  numBank := b.numBank
  numCol := b.numCol
  numRow := b.numRow

def storage : Except String (Mem.Units.Storage 4096) :=
  if b.deviceWidth = 0 then .error "integer divide by zero"
  else
    let devicePerRank : Int := (b.busWidth : Int).tdiv b.deviceWidth
    let bankSize := (int (int (b.numCol * b.numRow) * b.deviceWidth)).tdiv 8
    let rankSize := int (int (bankSize * b.numBank) * devicePerRank)
    let totalSize := int (int (rankSize * b.numRank) * b.numChannel)
    .ok (Mem.Units.newStorage (UInt64.ofInt totalSize))

/-- Each column of a rank has as many bits as the bus. -/
def bits : Nat := b.numChannel * b.numRank * b.numBankGroup * b.numBank * b.numRow * b.numCol * b.busWidth

/-- The bits that a device has in a bank. -/
def bankBits : Nat := b.numCol * b.numRow * b.deviceWidth

/-- The banks of all devices of a bank group. -/
def deviceBanks : Nat := b.numBank * (b.busWidth / b.deviceWidth) * b.numRank * b.numChannel

/-- There is at least one of each. All numbers are of type `int`. -/
structure Valid : Prop where
  positive : ∀ n ∈ [b.busWidth, b.deviceWidth, b.numChannel, b.numRank, b.numBankGroup, b.numBank, b.numRow, b.numCol],
    0 < n ∧ n < 2 ^ 63

structure Covers (s : Mem.Units.Storage 4096) : Prop where
  capacity : 8 * s.capacity.toNat = b.bits
  serves : ∀ ops : List Mem.Units.Op, (∀ op ∈ ops, 8 * (op.address.toNat + op.byteSize) ≤ b.bits) →
    ∀ fuel, (∀ op ∈ ops, op.byteSize < fuel) → ∃ rs s', s.run fuel ops = some (rs, s') ∧ ∀ e, .error e ∉ rs

/-- All bits are those of the devices of one bank group, and nothing is lost in the arithmetic; or the bits of a device
overflow to a number that is negative, by what the total is less than `2 ^ 64` bytes. -/
def Fits : Prop :=
  b.bits < 2 ^ 67 ∧
    (b.numBankGroup = 1 ∧ b.deviceWidth ∣ b.busWidth ∧ 8 ∣ b.bankBits ∧ b.bankBits < 2 ^ 63 ∨
      ∃ d, 0 < d ∧ d ≤ 2 ^ 63 ∧ 2 ^ 64 ∣ b.bankBits + d ∧ b.bits + 8 * (b.deviceBanks * (d / 8)) = 2 ^ 67)

/-! ## The capacity -/

theorem int_mul (x y : Int) : int (int x * y) = int (x * y) := Int.bmod_mul_bmod

theorem toNat_ofInt_int (z : Int) : ((UInt64.ofInt (int z)).toNat : Int) = z % 2 ^ 64 := by
  have hmod : int z % 2 ^ 64 = z % 2 ^ 64 := Int.bmod_emod
  have hlt := Int.emod_lt_of_pos z (show (0 : Int) < 2 ^ 64 by decide)
  have hpos := Int.emod_nonneg z (show (2 ^ 64 : Int) ≠ 0 by decide)
  have htoNat : (UInt64.ofInt (int z)).toNat = (z % 2 ^ 64).toNat := by
    rw [UInt64.ofInt, hmod]
    exact Nat.mod_eq_of_lt (by omega)
  rw [htoNat, Int.toNat_of_nonneg hpos]

variable {b}

theorem storage_ok (h : 0 < b.deviceWidth) :
    ∃ capacity : UInt64, b.storage = .ok (Mem.Units.newStorage capacity) ∧
      (capacity.toNat : Int) = (int b.bankBits).tdiv 8 * b.deviceBanks % 2 ^ 64 := by
  refine ⟨_, if_neg (by omega), ?_⟩
  have hbank : ((b.numCol * b.numRow * b.deviceWidth : Nat) : Int) = b.numCol * b.numRow * b.deviceWidth := by push_cast; rfl
  have hbanks : ((b.numBank * (b.busWidth / b.deviceWidth) * b.numRank * b.numChannel : Nat) : Int) =
      b.numBank * (b.busWidth : Int).tdiv b.deviceWidth * b.numRank * b.numChannel := by
    rw [← Int.ofNat_tdiv]
    push_cast
    rfl
  rw [int_mul, int_mul, int_mul, Int.mul_assoc (int _), int_mul, toNat_ofInt_int, bankBits, deviceBanks, hbank, hbanks]
  generalize (int _).tdiv 8 = bankSize
  simp only [Int.mul_assoc]

variable {cap : Nat}

theorem capacity_of_lt (h : b.bankBits % 2 ^ 64 < 2 ^ 63)
    (hcap : (cap : Int) = (int b.bankBits).tdiv 8 * b.deviceBanks % 2 ^ 64) :
    cap = b.bankBits % 2 ^ 64 / 8 * b.deviceBanks % 2 ^ 64 := by
  have hint : (int b.bankBits).tdiv 8 = ((b.bankBits % 2 ^ 64 / 8 : Nat) : Int) := by
    have hmod : int b.bankBits = (b.bankBits % 2 ^ 64 : Nat) := by
      rw [int, Int.bmod_eq_emod_of_lt (by omega)]
      rfl
    rw [hmod, Int.ofNat_tdiv]
    rfl
  rw [hint] at hcap
  exact_mod_cast hcap

theorem capacity_of_le (h : 2 ^ 63 ≤ b.bankBits % 2 ^ 64)
    (hcap : (cap : Int) = (int b.bankBits).tdiv 8 * b.deviceBanks % 2 ^ 64) :
    cap < 2 ^ 64 ∧ 2 ^ 64 ∣ cap + b.deviceBanks * ((2 ^ 64 - b.bankBits % 2 ^ 64) / 8) := by
  have hmod : int b.bankBits = -((2 ^ 64 - b.bankBits % 2 ^ 64 : Nat) : Int) := by
    rw [int, Int.bmod_eq_emod, if_pos (by omega)]
    omega
  rw [hmod, Int.neg_tdiv] at hcap
  generalize 2 ^ 64 - b.bankBits % 2 ^ 64 = d at hcap ⊢
  have hdiv : (d : Int).tdiv 8 = (d / 8 : Nat) := (Int.ofNat_tdiv d 8).symm
  rw [hdiv] at hcap
  have hlt := Int.emod_lt_of_pos (-((d / 8 : Nat) : Int) * b.deviceBanks) (show (0 : Int) < 2 ^ 64 by decide)
  have hdvd := Int.dvd_self_sub_emod (x := -((d / 8 : Nat) : Int) * b.deviceBanks) (m := 2 ^ 64)
  rw [← hcap] at hlt hdvd
  refine ⟨by exact_mod_cast hlt, ?_⟩
  have hsum : -(-((d / 8 : Nat) : Int) * b.deviceBanks - cap) = ((cap + b.deviceBanks * (d / 8) : Nat) : Int) := by
    rw [Nat.cast_add, Nat.cast_mul]
    ring
  have hneg := Int.dvd_neg.2 hdvd
  rw [hsum] at hneg
  exact Int.natCast_dvd_natCast.1 hneg

/-! ## The bits -/

theorem bankBits_mul_le : b.bankBits * b.numBankGroup * b.deviceBanks ≤ b.bits := by
  have hdiv : b.busWidth / b.deviceWidth * b.deviceWidth ≤ b.busWidth := Nat.div_mul_le_self ..
  calc b.bankBits * b.numBankGroup * b.deviceBanks
      = b.numChannel * b.numRank * b.numBankGroup * b.numBank * b.numRow * b.numCol *
        (b.busWidth / b.deviceWidth * b.deviceWidth) := by
        rw [bankBits, deviceBanks]
        ring
    _ ≤ b.bits := Nat.mul_le_mul_left _ hdiv

theorem bits_eq (h : b.deviceWidth ∣ b.busWidth) : b.bits = b.bankBits * b.numBankGroup * b.deviceBanks := by
  obtain ⟨q, hq⟩ := h
  rcases Nat.eq_zero_or_pos b.deviceWidth with hzero | hpos
  · simp [bits, bankBits, hq, hzero]
  · rw [bits, bankBits, deviceBanks, hq, Nat.mul_div_cancel_left q hpos]
    ring

namespace Valid

theorem bits_pos (h : b.Valid) : 0 < b.bits := by
  have hpos := fun n hn => (h.positive n hn).1
  simp only [mem_cons, not_mem_nil, or_false, forall_eq_or_imp, forall_eq] at hpos
  obtain ⟨_, _, _, _, _, _, _, _⟩ := hpos
  unfold bits
  positivity

theorem dvd_of_bits_le (h : b.Valid) (hle : b.bits ≤ b.bankBits * b.numBankGroup * b.deviceBanks) :
    b.deviceWidth ∣ b.busWidth := by
  have hpos := h.bits_pos
  rw [bits] at hpos hle
  have hfactor := Nat.pos_of_mul_pos_right hpos
  have heq : b.bankBits * b.numBankGroup * b.deviceBanks =
      b.numChannel * b.numRank * b.numBankGroup * b.numBank * b.numRow * b.numCol *
        (b.busWidth / b.deviceWidth * b.deviceWidth) := by
    rw [bankBits, deviceBanks]
    ring
  rw [heq] at hle
  have hbus : b.busWidth ≤ b.busWidth / b.deviceWidth * b.deviceWidth := Nat.le_of_mul_le_mul_left hle hfactor
  exact Nat.dvd_of_mod_eq_zero (by
    have hdiv := Nat.div_add_mod b.busWidth b.deviceWidth
    rw [Nat.mul_comm] at hdiv
    omega)

theorem deviceWidth_pos (h : b.Valid) : 0 < b.deviceWidth := (h.positive b.deviceWidth (by simp)).1

theorem numBankGroup_pos (h : b.Valid) : 0 < b.numBankGroup := (h.positive b.numBankGroup (by simp)).1

theorem bankBits_mul_deviceBanks_le (h : b.Valid) :
    b.bankBits * b.deviceBanks ≤ b.bankBits * b.numBankGroup * b.deviceBanks :=
  Nat.mul_le_mul_right _ (Nat.le_mul_of_pos_right _ h.numBankGroup_pos)

/-- Below the sign bit the capacity is right when no factor is missing and nothing is rounded away. -/
theorem fits_of_lt (h : b.Valid) (hlt : b.bankBits % 2 ^ 64 < 2 ^ 63)
    (heq : 8 * (b.bankBits % 2 ^ 64 / 8 * b.deviceBanks % 2 ^ 64) = b.bits) : b.Fits := by
  have hpos := h.bits_pos
  have hmod := Nat.mod_le b.bankBits (2 ^ 64)
  have hcap := Nat.mod_le (b.bankBits % 2 ^ 64 / 8 * b.deviceBanks) (2 ^ 64)
  have hcaplt := Nat.mod_lt (b.bankBits % 2 ^ 64 / 8 * b.deviceBanks) (show 0 < 2 ^ 64 by decide)
  -- What is multiplied is at most the bits of a device in a bank, so nothing can be less.
  have hround : b.bits ≤ 8 * (b.bankBits % 2 ^ 64 / 8) * b.deviceBanks := by
    rw [Nat.mul_assoc]
    omega
  have hgroups := h.bankBits_mul_deviceBanks_le
  have hall := b.bankBits_mul_le
  have hfactor : 0 < b.deviceBanks := Nat.pos_of_mul_pos_left (hpos.trans_le hround)
  have hbank : b.bankBits ≤ 8 * (b.bankBits % 2 ^ 64 / 8) :=
    Nat.le_of_mul_le_mul_right ((hgroups.trans hall).trans hround) hfactor
  have hone : b.bankBits * b.numBankGroup ≤ b.bankBits * 1 := by
    rw [Nat.mul_one]
    refine Nat.le_of_mul_le_mul_right ((hall.trans hround).trans ?_) hfactor
    exact Nat.mul_le_mul_right _ (by omega)
  have hbits : 0 < b.bankBits := by
    have hzero : 0 < 8 * (b.bankBits % 2 ^ 64 / 8) := Nat.pos_of_mul_pos_right (hpos.trans_le hround)
    omega
  have hgroup := Nat.le_of_mul_le_mul_left hone hbits
  have hgroupPos := h.numBankGroup_pos
  refine ⟨by omega, Or.inl ⟨by omega, h.dvd_of_bits_le ?_, by omega, by omega⟩⟩
  exact (hround.trans (Nat.mul_le_mul_right _ (by omega))).trans hgroups

theorem fits_of_le (h : b.Valid) (hle : 2 ^ 63 ≤ b.bankBits % 2 ^ 64) {cap : Nat} (hcap : cap < 2 ^ 64)
    (hdvd : 2 ^ 64 ∣ cap + b.deviceBanks * ((2 ^ 64 - b.bankBits % 2 ^ 64) / 8)) (heq : 8 * cap = b.bits) : b.Fits := by
  have hpos := h.bits_pos
  have hmod := Nat.mod_le b.bankBits (2 ^ 64)
  have hbits : 2 ^ 63 * b.deviceBanks ≤ b.bits :=
    (Nat.mul_le_mul_right _ (by omega)).trans (h.bankBits_mul_deviceBanks_le.trans b.bankBits_mul_le)
  have hshort : b.deviceBanks * ((2 ^ 64 - b.bankBits % 2 ^ 64) / 8) ≤ b.deviceBanks * 2 ^ 60 :=
    Nat.mul_le_mul_left _ (by omega)
  obtain ⟨_, _⟩ := hdvd
  refine ⟨by omega, Or.inr ⟨2 ^ 64 - b.bankBits % 2 ^ 64, by omega, by omega, by omega, ?_⟩⟩
  generalize b.deviceBanks * ((2 ^ 64 - b.bankBits % 2 ^ 64) / 8) = short at *
  omega

theorem capacity_of_fits (hfits : b.Fits) {cap : Nat} (hpos : 0 < b.bits)
    (hcap : (cap : Int) = (int b.bankBits).tdiv 8 * b.deviceBanks % 2 ^ 64) : 8 * cap = b.bits := by
  obtain ⟨_, ⟨hgroup, hdvd, h8, _⟩ | ⟨d, _, _, hdvd, _⟩⟩ := hfits
  · have hmod := Nat.mod_eq_of_lt (show b.bankBits < 2 ^ 64 by omega)
    have heq := capacity_of_lt (by omega) hcap
    have hbits := bits_eq hdvd
    obtain ⟨q, hq⟩ := h8
    rw [hgroup, Nat.mul_one, hq, Nat.mul_assoc] at hbits
    rw [hmod, hq, Nat.mul_div_cancel_left q (by decide), Nat.mod_eq_of_lt (by omega)] at heq
    omega
  · have hmod : 2 ^ 64 - b.bankBits % 2 ^ 64 = d := by omega
    obtain ⟨_, _, hq⟩ := capacity_of_le (by omega) hcap
    rw [hmod] at hq
    generalize b.deviceBanks * (d / 8) = short at *
    omega

end Valid

theorem capacity_iff (h : b.Valid) (hcap : (cap : Int) = (int b.bankBits).tdiv 8 * b.deviceBanks % 2 ^ 64) :
    8 * cap = b.bits ↔ b.Fits := by
  refine ⟨fun heq => ?_, fun hfits => Valid.capacity_of_fits hfits h.bits_pos hcap⟩
  rcases Nat.lt_or_ge (b.bankBits % 2 ^ 64) (2 ^ 63) with hlt | hle
  · rw [capacity_of_lt hlt hcap] at heq
    exact h.fits_of_lt hlt heq
  · obtain ⟨hcaplt, hdvd⟩ := capacity_of_le hle hcap
    exact h.fits_of_le hle hcaplt hdvd heq

/-- Accesses within the capacity do not fail. -/
theorem serves {capacity : UInt64} {ops : List Mem.Units.Op} (hin : ∀ op ∈ ops, op.Within capacity) {fuel : Nat}
    (hfuel : ∀ op ∈ ops, op.byteSize < fuel) :
    ∃ rs s', (Mem.Units.newStorage capacity).run fuel ops = some (rs, s') ∧ ∀ e, .error e ∉ rs := by
  obtain ⟨rs, s', hrun, _, hreply, -⟩ := Mem.Units.run_flat (show (0 : UInt64) < 4096 by decide) capacity ops hin fuel hfuel
  refine ⟨rs, s', hrun, fun e he => ?_⟩
  obtain ⟨i, hi, heq⟩ := getElem_of_mem he
  have hsplit : ops = ops.take i ++ ops[i] :: ops.drop (i + 1) := by
    rw [getElem_cons_drop, take_append_drop]
  have hat := hreply _ _ _ hsplit
  rw [length_take, Nat.min_eq_left (by omega), getElem?_eq_getElem hi, heq] at hat
  cases hop : ops[i] <;> simp [hop, Mem.Units.Op.reply] at hat

theorem covers_iff (h : b.Valid) : (∃ s, b.storage = .ok s ∧ b.Covers s) ↔ b.Fits := by
  obtain ⟨capacity, hstorage, hcap⟩ := storage_ok h.deviceWidth_pos
  rw [← capacity_iff h hcap]
  constructor
  · rintro ⟨s, hs, hcovers⟩
    rw [hstorage] at hs
    obtain rfl := Except.ok.inj hs
    exact hcovers.capacity
  · intro heq
    refine ⟨_, hstorage, heq, fun ops hin fuel hfuel => serves (fun op hop => ?_) hfuel⟩
    have hop := hin op hop
    unfold Mem.Units.Op.Within
    omega

theorem covers_default : ∃ s, ({} : Builder).storage = .ok s ∧ ({} : Builder).Covers s :=
  (covers_iff ⟨by decide⟩).2 ⟨by decide, Or.inl ⟨rfl, by decide, by decide, by decide⟩⟩

/-- Two bank groups instead of one. -/
def twoGroups : Builder := { numBankGroup := 2 }

theorem not_covers : twoGroups.Valid ∧ ∃ s, twoGroups.storage = .ok s ∧ ¬ twoGroups.Covers s ∧
    ∃ l, twoGroups.addrMapper.build.map 0x100000040 = .ok l ∧ twoGroups.addrMapper.InRange l ∧
      ∃ e, s.read 2 0x100000040 1 = some (.error e, s) := by
  refine ⟨⟨by decide⟩, Mem.Units.newStorage 0x100000000, ?_, fun h => ?_, ?_⟩
  · exact congrArg (fun capacity => Except.ok (Mem.Units.newStorage capacity))
      (show UInt64.ofInt _ = 0x100000000 by decide +kernel)
  · exact absurd h.capacity (by decide)
  · refine ⟨{ channel := 0, rank := 0, bankGroup := 0, bank := 0, row := 16384,
              column := 1 }, by decide +kernel, by decide +kernel, ?_⟩
    exact ⟨_, rfl⟩

end Builder

end Akita.Dram.OwnStorage
