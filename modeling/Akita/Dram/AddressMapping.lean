import Akita.BitFields
import Akita.Dram.Builder
import Akita.Returns
import Mathlib.Data.Nat.Prime.Basic

/-!
# The address mapping

`addressmapping.Builder` and `DefaultMapper` for any order of the fields, on 64-bit addresses.

* `Builder.build` : the position and the mask of each field;
* `Builder.Bijective` : the fields share no bit, cover the bits of the addresses, and the locations are those of the
  addresses.
-/

namespace Akita.Dram.AddressMapping
open Function List
open UInt64 (ofNat toNat_and toNat_one)
open Except (ok)

inductive LocationItem
  | invalid
  | channel
  | rank
  | bankGroup
  | bank
  | row
  | column
deriving DecidableEq

structure Builder where
  busWidth : Nat := 64
  burstLength : Nat := 8
  numChannel : Nat := 1
  numRank : Nat := 1
  numBankGroup : Nat := 1
  numBank : Nat := 8
  numRow : Nat := 65536
  numCol : Nat := 2048
  bitOrderHighToLow : List LocationItem := [.row, .channel, .rank, .bank, .bankGroup, .column]

/-- The position and the mask of each field. -/
structure DefaultMapper where
  pos : LocationItem → Int
  mask : LocationItem → UInt64

/-- `<<` : what is shifted by 64 bits or more is 0. -/
def shl (a n : UInt64) : UInt64 := if n < 64 then a <<< n else 0

/-- `>>` by an `int`. -/
def shr (a : UInt64) (n : Int) : Except String UInt64 :=
  if n < 0 then .error "negative shift amount" else .ok (if n < 64 then a >>> ofNat n.toNat else 0)

namespace DefaultMapper

variable (m : DefaultMapper)

def field (addr : UInt64) (item : LocationItem) : Except String Nat := do
  return ((← shr addr (m.pos item)) &&& m.mask item).toNat

def map (addr : UInt64) : Except String Location := do
  let channel ← m.field addr .channel
  let rank ← m.field addr .rank
  let bankGroup ← m.field addr .bankGroup
  let bank ← m.field addr .bank
  let row ← m.field addr .row
  let column ← m.field addr .column
  return { channel, rank, bankGroup, bank, row, column }

/-- The field is read from this bit of the addresses, among others. -/
def HasBit (item : LocationItem) (k : Nat) : Prop :=
  ∃ p : Nat, m.pos item = p ∧ p ≤ k ∧ k < 64 ∧ (m.mask item).toNat.testBit (k - p) = true

end DefaultMapper

namespace Builder

variable (b : Builder)

def accessUnit : Nat := b.busWidth / 8 * b.burstLength

def accessUnitBit : UInt64 := ofNat (log2 b.accessUnit)

def colLoBit : UInt64 := ofNat (log2 b.burstLength)

def colBit : UInt64 := ofNat (log2 b.numCol)

/-- The bits of a field. -/
def bits : LocationItem → UInt64
  | .invalid => 0
  | .channel => ofNat (log2 b.numChannel)
  | .rank => ofNat (log2 b.numRank)
  | .bankGroup => ofNat (log2 b.numBankGroup)
  | .bank => ofNat (log2 b.numBank)
  | .row => ofNat (log2 b.numRow)
  | .column => b.colBit - b.colLoBit

/-- The loop over the fields, from low to high. -/
def place (bits : LocationItem → UInt64) (pos : UInt64) (m : LocationItem → Int) : List LocationItem → LocationItem → Int
  | [] => m
  | .invalid :: items => place bits pos m items
  | curr :: items => place bits (pos + bits curr) (update m curr pos.toBitVec.toInt) items

def build : DefaultMapper where
  pos := place b.bits b.accessUnitBit (fun _ => 0) b.bitOrderHighToLow.reverse
  mask item := shl 1 (b.bits item) - 1

/-- The addresses that the locations stand for. -/
def capacity : Nat :=
  b.accessUnit * (b.numChannel * b.numRank * b.numBankGroup * b.numBank * b.numRow * (b.numCol / b.burstLength))

/-- All numbers are powers of two (and of type `int`), and all fields are listed. -/
structure Valid : Prop where
  order : b.bitOrderHighToLow.Perm [.channel, .rank, .bankGroup, .bank, .row, .column]
  powers : ∀ n ∈ [b.accessUnit, b.numChannel, b.numRank, b.numBankGroup, b.numBank, b.numRow, b.numCol], ∃ k < 63, n = 2 ^ k

/-- The columns of a burst are one. -/
def InRange (l : Location) : Prop :=
  l.channel < b.numChannel ∧ l.rank < b.numRank ∧ l.bankGroup < b.numBankGroup ∧ l.bank < b.numBank ∧ l.row < b.numRow ∧
    l.column < b.numCol / b.burstLength

instance (l : Location) : Decidable (b.InRange l) := inferInstanceAs (Decidable (_ ∧ _))

structure Bijective : Prop where
  disjoint : ∀ {item item' k}, b.build.HasBit item k → b.build.HasBit item' k → item = item'
  covers : ∀ k, (∃ item, b.build.HasBit item k) ↔ b.accessUnit ≤ 2 ^ k ∧ 2 ^ k < b.capacity
  maps : ∀ a : UInt64, a.toNat < b.capacity → ∃ l, b.build.map a = .ok l ∧ b.InRange l
  injective : ∀ a a' : UInt64, b.accessUnit ∣ a.toNat → b.accessUnit ∣ a'.toNat → a.toNat < b.capacity →
    a'.toNat < b.capacity →
    b.build.map a = b.build.map a' → a = a'
  surjective : ∀ l, b.InRange l → ∃ a : UInt64, b.accessUnit ∣ a.toNat ∧ a.toNat < b.capacity ∧ b.build.map a = .ok l

end Builder

/-! ## 64-bit numbers -/

theorem log2_two_pow {k : Nat} (h : k < 64) : log2 (2 ^ k) = k := by
  have hfold : ∀ n, (range n).foldl (fun onePos i => if (2 ^ k).testBit i then i else onePos) 0 = if k < n then k else 0 := by
    intro n
    induction n with
    | zero => rfl
    | succ n ih =>
      rw [range_succ, foldl_append, ih, foldl_cons, foldl_nil, Nat.testBit_two_pow]
      by_cases hkn : k = n
      · rw [if_pos (by simpa using hkn), if_pos (by omega), hkn]
      · rw [if_neg (by simpa using hkn)]
        exact if_congr (by omega) rfl rfl
  rw [log2, hfold, if_pos h]

theorem toNat_ofNat_log2 {n k : Nat} (hn : n = 2 ^ k) (hk : k < 64) : (ofNat (log2 n)).toNat = k := by
  rw [hn, log2_two_pow hk]
  exact Nat.mod_eq_of_lt (by omega)

theorem toInt_of_le {pos : UInt64} (h : pos.toNat ≤ 64) : pos.toBitVec.toInt = pos.toNat :=
  BitVec.toInt_eq_toNat_of_lt (by
    change 2 * pos.toNat < _
    omega)

theorem toNat_shl_one_sub_one {n : UInt64} (h : n.toNat < 64) : (shl 1 n - 1).toNat = 2 ^ n.toNat - 1 := by
  have hlt : n < 64 := UInt64.lt_iff_toNat_lt.2 h
  have hpow : 2 ^ n.toNat < 2 ^ 64 := Nat.pow_lt_pow_right (by decide) h
  have hone : (1 <<< n : UInt64).toNat = 2 ^ n.toNat := by
    rw [UInt64.toNat_shiftLeft, Nat.mod_eq_of_lt h, Nat.shiftLeft_eq, toNat_one, Nat.one_mul, Nat.mod_eq_of_lt hpow]
  rw [shl, if_pos hlt, UInt64.toNat_sub_of_le _ _ (UInt64.le_iff_toNat_le.2 ?_), hone, toNat_one]
  rw [hone, toNat_one]
  exact Nat.two_pow_pos _

theorem toNat_shiftRight_ofNat (a : UInt64) {p : Nat} (hp : p < 64) : (a >>> ofNat p).toNat = a.toNat / 2 ^ p := by
  have hmod : (ofNat p).toNat % 64 = p := by
    rw [show (ofNat p).toNat = p from Nat.mod_eq_of_lt (by omega), Nat.mod_eq_of_lt hp]
  rw [UInt64.toNat_shiftRight, hmod, Nat.shiftRight_eq_div_pow]

open BitFields

theorem DefaultMapper.field_eq {m : DefaultMapper} {item : LocationItem} {p w : Nat} (hpos : m.pos item = p)
    (hmask : (m.mask item).toNat = 2 ^ w - 1) (h : p + w ≤ 64) (a : UInt64) :
    m.field a item = .ok (BitFields.get a.toNat p w) := by
  have hshr : shr a p = .ok (if (p : Int) < 64 then a >>> ofNat p else 0) := by
    rw [shr, if_neg (by omega), Int.toNat_natCast]
  rw [field, hpos, hshr]
  change ok (UInt64.toNat (_ &&& _)) = _
  rw [toNat_and, hmask, Nat.and_two_pow_sub_one_eq_mod, BitFields.get]
  by_cases hp : p < 64
  · rw [if_pos (by omega), toNat_shiftRight_ofNat a hp]
  · have hw : w = 0 := by omega
    rw [hw, Nat.pow_zero, Nat.mod_one, Nat.mod_one]

theorem DefaultMapper.field_lt {m : DefaultMapper} {item : LocationItem} {p : Nat} (hpos : m.pos item = p) (hp : p < 64)
    {a : UInt64} {v : Nat} (h : m.field a item = .ok v) : v < 2 ^ (64 - p) := by
  obtain ⟨_, hx, hv⟩ := eq_ok_of_bind h
  rw [hpos, shr, if_neg (by omega), if_pos (by omega), Int.toNat_natCast] at hx
  obtain rfl := ok.inj hx
  obtain rfl := ok.inj hv
  rw [toNat_and, toNat_shiftRight_ofNat a hp]
  refine Nat.and_le_left.trans_lt ?_
  rw [Nat.div_lt_iff_lt_mul (Nat.two_pow_pos p), ← Nat.pow_add, Nat.sub_add_cancel (by omega)]
  exact a.toNat_lt

theorem DefaultMapper.field_row {m : DefaultMapper} {a : UInt64} {l : Location} (h : m.map a = .ok l) :
    m.field a .row = .ok l.row := by
  obtain ⟨_, -, h⟩ := eq_ok_of_bind h
  obtain ⟨_, -, h⟩ := eq_ok_of_bind h
  obtain ⟨_, -, h⟩ := eq_ok_of_bind h
  obtain ⟨_, -, h⟩ := eq_ok_of_bind h
  obtain ⟨_, hrow, h⟩ := eq_ok_of_bind h
  obtain ⟨_, -, h⟩ := eq_ok_of_bind h
  obtain rfl := ok.inj h
  exact hrow

theorem Builder.place_eq {bits : LocationItem → UInt64} {l : List LocationItem} (hl : l.Nodup) (hinv : .invalid ∉ l)
    {pos : UInt64} (hstop : stop (fun i => (bits i).toNat) pos.toNat l ≤ 64) (m : LocationItem → Int) (i : LocationItem) :
    place bits pos m l i = if i ∈ l then (start (fun i => (bits i).toNat) pos.toNat l i : Int) else m i := by
  induction l generalizing pos m with
  | nil => rfl
  | cons x l ih =>
    have hx : x ≠ .invalid := by
      rintro rfl
      exact hinv mem_cons_self
    have hplace : place bits pos m (x :: l) = place bits (pos + bits x) (update m x pos.toBitVec.toInt) l := by
      cases x <;> first | exact absurd rfl hx | rfl
    have hle := base_le_stop (fun i => (bits i).toNat) pos.toNat (x :: l)
    rw [stop] at hstop hle
    have hadd : (pos + bits x).toNat = pos.toNat + (bits x).toNat := by
      have hmid := base_le_stop (fun i => (bits i).toNat) (pos.toNat + (bits x).toNat) l
      rw [UInt64.toNat_add, Nat.mod_eq_of_lt (by omega)]
    have hxl := (nodup_cons.1 hl).1
    rw [hplace, ih (nodup_cons.1 hl).2 (fun h => hinv (mem_cons_of_mem _ h)) (by rwa [hadd]), hadd]
    by_cases hix : i = x
    · rw [if_neg (hix ▸ hxl), hix, update_self, if_pos mem_cons_self, start, if_pos rfl, toInt_of_le (by omega)]
    · rw [update_of_ne hix, start, if_neg hix]
      exact if_congr (by simp [hix]) rfl rfl

/-! ## The fields of a mapper -/

namespace Builder

variable {b : Builder}

def width (b : Builder) (item : LocationItem) : Nat := (b.bits item).toNat

/-- The fields from low to high. -/
def fields (b : Builder) : List LocationItem := b.bitOrderHighToLow.reverse

/-- The bit above the fields. -/
def top (b : Builder) : Nat := stop b.width b.accessUnitBit.toNat b.fields

def pos (b : Builder) (item : LocationItem) : Nat := start b.width b.accessUnitBit.toNat b.fields item

/-- What a location has in a field. -/
def value (l : Location) : LocationItem → Nat
  | .invalid => 0
  | .channel => l.channel
  | .rank => l.rank
  | .bankGroup => l.bankGroup
  | .bank => l.bank
  | .row => l.row
  | .column => l.column

/-- The number of values of a field. -/
def count (b : Builder) : LocationItem → Nat
  | .invalid => 1
  | .channel => b.numChannel
  | .rank => b.numRank
  | .bankGroup => b.numBankGroup
  | .bank => b.numBank
  | .row => b.numRow
  | .column => b.numCol / b.burstLength

theorem inRange_iff (l : Location) : b.InRange l ↔ ∀ item, value l item < b.count item := by
  constructor
  · rintro ⟨hchannel, hrank, hgroup, hbank, hrow, hcol⟩ item
    cases item with
    | invalid => exact Nat.one_pos
    | channel => exact hchannel
    | rank => exact hrank
    | bankGroup => exact hgroup
    | bank => exact hbank
    | row => exact hrow
    | column => exact hcol
  · intro h
    exact ⟨h .channel, h .rank, h .bankGroup, h .bank, h .row, h .column⟩

theorem Valid.nodup (hv : b.Valid) : b.fields.Nodup := nodup_reverse.2 (hv.order.nodup_iff.2 (by decide))

theorem Valid.mem_fields (hv : b.Valid) (item : LocationItem) : item ∈ b.fields ↔ item ≠ .invalid := by
  rw [fields, mem_reverse, hv.order.mem_iff]
  cases item <;> decide

theorem Valid.exists_burstLength (hv : b.Valid) : ∃ k < 63, b.burstLength = 2 ^ k := by
  obtain ⟨n, _, hunit⟩ := hv.powers b.accessUnit (by simp)
  have hdvd : b.burstLength ∣ 2 ^ n := hunit ▸ Nat.dvd_mul_left ..
  obtain ⟨k, _, hburst⟩ := (Nat.dvd_prime_pow Nat.prime_two).1 hdvd
  exact ⟨k, by omega, hburst⟩

theorem Valid.accessUnit_eq (hv : b.Valid) : b.accessUnit = 2 ^ b.accessUnitBit.toNat := by
  obtain ⟨_, _, heq⟩ := hv.powers b.accessUnit (by simp)
  rw [accessUnitBit, toNat_ofNat_log2 heq (by omega), heq]

/-- The bits of the columns, without those of a burst. -/
theorem Valid.width_column (hv : b.Valid) (hburst : b.burstLength ≤ b.numCol) :
    b.width .column = log2 b.numCol - log2 b.burstLength := by
  obtain ⟨k, _, hcol⟩ := hv.powers b.numCol (by simp)
  obtain ⟨j, _, hlo⟩ := hv.exists_burstLength
  have hjk : j ≤ k := (Nat.pow_le_pow_iff_right (by decide)).1 (hlo ▸ hcol ▸ hburst)
  have hcolBit : b.colBit.toNat = k := toNat_ofNat_log2 hcol (by omega)
  have hloBit : b.colLoBit.toNat = j := toNat_ofNat_log2 hlo (by omega)
  change (b.colBit - b.colLoBit).toNat = _
  rw [UInt64.toNat_sub_of_le _ _ (UInt64.le_iff_toNat_le.2 (by omega)), hcolBit, hloBit, hcol, hlo, log2_two_pow (by omega),
    log2_two_pow (by omega)]

/-- The number of values of a field is what its bits can hold. -/
theorem Valid.count_eq (hv : b.Valid) (hburst : b.burstLength ≤ b.numCol) (item : LocationItem) :
    b.width item < 63 ∧ b.count item = 2 ^ b.width item := by
  have hlog : ∀ n ∈ [b.accessUnit, b.numChannel, b.numRank, b.numBankGroup, b.numBank, b.numRow, b.numCol],
      (ofNat (log2 n)).toNat < 63 ∧ n = 2 ^ (ofNat (log2 n)).toNat := by
    intro n hn
    obtain ⟨k, hk, heq⟩ := hv.powers n hn
    rw [toNat_ofNat_log2 heq (by omega)]
    exact ⟨hk, heq⟩
  cases item with
  | invalid => exact ⟨show (0 : UInt64).toNat < 63 by decide, rfl⟩
  | channel => exact hlog b.numChannel (by simp)
  | rank => exact hlog b.numRank (by simp)
  | bankGroup => exact hlog b.numBankGroup (by simp)
  | bank => exact hlog b.numBank (by simp)
  | row => exact hlog b.numRow (by simp)
  | column =>
    obtain ⟨k, _, hcol⟩ := hv.powers b.numCol (by simp)
    obtain ⟨j, _, hlo⟩ := hv.exists_burstLength
    have hjk : j ≤ k := (Nat.pow_le_pow_iff_right (by decide)).1 (hlo ▸ hcol ▸ hburst)
    rw [hv.width_column hburst, count, hcol, hlo, log2_two_pow (by omega), log2_two_pow (by omega),
      Nat.pow_div hjk (by decide)]
    exact ⟨by omega, rfl⟩

theorem Valid.capacity_eq (hv : b.Valid) (hburst : b.burstLength ≤ b.numCol) : b.capacity = 2 ^ b.top := by
  have hperm : b.fields.Perm [.channel, .rank, .bankGroup, .bank, .row, .column] := (reverse_perm _).trans hv.order
  have hcount := fun item => (hv.count_eq hburst item).2
  have htop : b.top = b.accessUnitBit.toNat +
      (b.width .channel + b.width .rank + b.width .bankGroup + b.width .bank + b.width .row + b.width .column) := by
    rw [top, stop_perm hperm, stop_eq_add_sum]
    simp [Nat.add_assoc]
  rw [htop, capacity, hv.accessUnit_eq, Nat.pow_add, Nat.pow_add, Nat.pow_add, Nat.pow_add, Nat.pow_add, Nat.pow_add]
  rw [← hcount .channel, ← hcount .rank, ← hcount .bankGroup, ← hcount .bank, ← hcount .row, ← hcount .column]
  rfl

variable {item : LocationItem}

theorem Valid.build_pos (hv : b.Valid) (htop : b.top ≤ 64) (hitem : item ≠ .invalid) :
    b.build.pos item = b.pos item := by
  have hinv : .invalid ∉ b.fields := fun h => (hv.mem_fields _).1 h rfl
  exact (place_eq hv.nodup hinv htop _ item).trans (if_pos ((hv.mem_fields item).2 hitem))

theorem Valid.build_mask (hv : b.Valid) (hburst : b.burstLength ≤ b.numCol) (item : LocationItem) :
    (b.build.mask item).toNat = 2 ^ b.width item - 1 :=
  toNat_shl_one_sub_one (by
    have hwidth : (b.bits item).toNat < 63 := (hv.count_eq hburst item).1
    omega)

theorem Valid.pos_add_width (hv : b.Valid) (hitem : item ≠ .invalid) : b.pos item + b.width item ≤ b.top :=
  start_add_le_stop hv.nodup ((hv.mem_fields item).2 hitem)

theorem Valid.hasBit_iff (hv : b.Valid) (hburst : b.burstLength ≤ b.numCol) (htop : b.top ≤ 64) (item : LocationItem)
    (k : Nat) : b.build.HasBit item k ↔ item ∈ b.fields ∧ b.pos item ≤ k ∧ k < b.pos item + b.width item := by
  unfold DefaultMapper.HasBit
  rw [hv.build_mask hburst, hv.mem_fields]
  simp only [Nat.testBit_two_pow_sub_one, decide_eq_true_eq]
  by_cases hitem : item = .invalid
  · have hwidth : b.width .invalid = 0 := rfl
    simp [hitem, hwidth]
  · have hle := hv.pos_add_width hitem
    rw [hv.build_pos htop hitem]
    constructor
    · rintro ⟨p, hp, hpk, hk, hbit⟩
      exact ⟨hitem, by omega, by omega⟩
    · rintro ⟨-, hpk, hk⟩
      exact ⟨_, rfl, hpk, by omega, by omega⟩

/-- The location with these fields. -/
def location (g : LocationItem → Nat) : Location where
  channel := g .channel
  rank := g .rank
  bankGroup := g .bankGroup
  bank := g .bank
  row := g .row
  column := g .column

theorem value_location (g : LocationItem → Nat) (h : item ≠ .invalid) : value (location g) item = g item := by
  cases item <;> first | exact absurd rfl h | rfl

theorem location_value (l : Location) : location (value l) = l := rfl

theorem location_congr {g g' : LocationItem → Nat} (h : ∀ item, item ≠ .invalid → g item = g' item) :
    location g = location g' := by
  rw [location, h .channel nofun, h .rank nofun, h .bankGroup nofun, h .bank nofun, h .row nofun, h .column nofun, location]

/-- What an address has in a field. -/
def read (b : Builder) (a : UInt64) (item : LocationItem) : Nat := BitFields.get a.toNat (b.pos item) (b.width item)

theorem Valid.map_eq (hv : b.Valid) (hburst : b.burstLength ≤ b.numCol) (htop : b.top ≤ 64) (a : UInt64) :
    b.build.map a = .ok (location (b.read a)) := by
  have hfield : ∀ item, item ≠ .invalid → b.build.field a item = .ok (b.read a item) := by
    intro item hitem
    exact DefaultMapper.field_eq (hv.build_pos htop hitem) (hv.build_mask hburst item) ((hv.pos_add_width hitem).trans htop) a
  rw [DefaultMapper.map, hfield .channel nofun, hfield .rank nofun, hfield .bankGroup nofun,
    hfield .bank nofun, hfield .row nofun, hfield .column nofun]
  rfl

theorem Valid.inRange_read (hv : b.Valid) (hburst : b.burstLength ≤ b.numCol) (a : UInt64) :
    b.InRange (location (b.read a)) := by
  rw [inRange_iff]
  intro item
  rw [(hv.count_eq hburst item).2]
  by_cases hitem : item = .invalid
  · rw [hitem]
    exact Nat.two_pow_pos _
  · rw [value_location _ hitem]
    exact Nat.mod_lt _ (Nat.two_pow_pos _)

theorem Valid.eq_of_read_eq (hv : b.Valid) {a a' : UInt64} (ha : a.toNat < 2 ^ b.top) (ha' : a'.toNat < 2 ^ b.top)
    (hunit : b.accessUnit ∣ a.toNat) (hunit' : b.accessUnit ∣ a'.toNat) (h : location (b.read a) = location (b.read a')) :
    a = a' := by
  refine UInt64.toNat_inj.1 (BitFields.ext hv.nodup ha ha' ?_ fun item hitem => ?_)
  · rw [← hv.accessUnit_eq, Nat.mod_eq_zero_of_dvd hunit, Nat.mod_eq_zero_of_dvd hunit']
  · have hne := (hv.mem_fields item).1 hitem
    have hvalue := congrArg (value · item) h
    simp only [value_location _ hne] at hvalue
    exact hvalue

theorem Valid.exists_read (hv : b.Valid) (hburst : b.burstLength ≤ b.numCol) (htop : b.top ≤ 64) {l : Location}
    (hl : b.InRange l) : ∃ a : UInt64, b.accessUnit ∣ a.toNat ∧ a.toNat < 2 ^ b.top ∧ location (b.read a) = l := by
  have hvalue : ∀ item ∈ b.fields, value l item < 2 ^ b.width item := by
    intro item _
    rw [← (hv.count_eq hburst item).2]
    exact inRange_iff l |>.1 hl item
  obtain ⟨a, ha, hunit, hread⟩ := exists_fields hv.nodup hvalue (Nat.two_pow_pos b.accessUnitBit.toNat)
  have hlt : a < 2 ^ 64 := ha.trans_le (Nat.pow_le_pow_right (by decide) htop)
  have htoNat : (ofNat a).toNat = a := Nat.mod_eq_of_lt hlt
  refine ⟨ofNat a, ?_, ?_, ?_⟩
  · rw [htoNat, hv.accessUnit_eq]
    exact Nat.dvd_of_mod_eq_zero hunit
  · rw [htoNat]
    exact ha
  · rw [← location_value l]
    refine location_congr fun item hitem => ?_
    rw [read, htoNat]
    exact hread item ((hv.mem_fields item).2 hitem)

/-- The locations in range are those of the addresses below the capacity, one for each access unit. -/
theorem bijective (hv : b.Valid) (hburst : b.burstLength ≤ b.numCol) (hcap : b.capacity ≤ 2 ^ 64) : b.Bijective := by
  have hcapacity := hv.capacity_eq hburst
  have htop : b.top ≤ 64 := (Nat.pow_le_pow_iff_right (by decide)).1 (hcapacity ▸ hcap)
  constructor
  case disjoint =>
    intro item item' k hitem hitem'
    obtain ⟨hmem, hin⟩ := (hv.hasBit_iff hburst htop item k).1 hitem
    obtain ⟨hmem', hin'⟩ := (hv.hasBit_iff hburst htop item' k).1 hitem'
    exact eq_of_mem hv.nodup hmem hmem' hin hin'
  case covers =>
    intro k
    rw [hcapacity, hv.accessUnit_eq, Nat.pow_le_pow_iff_right (by decide), Nat.pow_lt_pow_iff_right (by decide)]
    rw [show b.top = stop b.width b.accessUnitBit.toNat b.fields from rfl, ← mem_iff hv.nodup]
    exact exists_congr fun item => hv.hasBit_iff hburst htop item k
  case maps =>
    intro a _
    exact ⟨_, hv.map_eq hburst htop a, hv.inRange_read hburst a⟩
  case injective =>
    intro a a' hunit hunit' ha ha' h
    rw [hcapacity] at ha ha'
    rw [hv.map_eq hburst htop, hv.map_eq hburst htop] at h
    exact hv.eq_of_read_eq ha ha' hunit hunit' (ok.inj h)
  case surjective =>
    intro l hl
    obtain ⟨a, hunit, ha, hread⟩ := hv.exists_read hburst htop hl
    exact ⟨a, hunit, hcapacity ▸ ha, by rw [hv.map_eq hburst htop, hread]⟩

theorem valid_default : ({} : Builder).Valid := ⟨by decide, by decide +kernel⟩

theorem bijective_default : ({} : Builder).Bijective := bijective valid_default (by decide) (by decide)

/-- A burst that is longer than a row. -/
def longBurst : Builder := { numCol := 4 }

/-- More locations than addresses. -/
def manyRows : Builder := { numRow := 2 ^ 60 }

theorem not_bijective : longBurst.Valid ∧ ¬ longBurst.Bijective ∧ manyRows.Valid ∧ ¬ manyRows.Bijective := by
  refine ⟨⟨by decide, by decide +kernel⟩, fun h => ?_, ⟨by decide, by decide +kernel⟩, fun h => ?_⟩
  · -- The columns have 2 - 3 bits: the field takes all bits from 6 on, and the banks follow at bit 5.
    have hcol : longBurst.build.HasBit .column 6 := ⟨6, by decide +kernel, by decide, by decide, by decide +kernel⟩
    have hbank : longBurst.build.HasBit .bank 6 := ⟨5, by decide +kernel, by decide, by decide, by decide +kernel⟩
    exact absurd (h.disjoint hcol hbank) (by decide)
  · -- The rows start at bit 17: no address has a row from 2 ^ 47 on.
    have hrange : manyRows.InRange { channel := 0, rank := 0, bankGroup := 0, bank := 0, row := 2 ^ 59, column := 0 } := by
      decide +kernel
    obtain ⟨_, -, -, hmap⟩ := h.surjective _ hrange
    have hpos : manyRows.build.pos .row = (17 : Nat) := by decide +kernel
    exact absurd (DefaultMapper.field_lt hpos (by decide) (DefaultMapper.field_row hmap)) (by decide)

end Builder

end Akita.Dram.AddressMapping
