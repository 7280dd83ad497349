import Akita.Mem.Interleaving

/-!
# Low modules

`mem.InterleavedLowModuleFinder` against the converters of the modules, all with the low address of the finder as their
offset.

* `number` : the index of the module that `Find` answers with;
* `Agrees` : in the range, the module is the only one that accepts the address, and the blocks are dealt out from module 0 on;
* `finder_iff` : the finders of which this is true.
-/

namespace Akita.Mem.Interleaving
open UInt64 (le_iff_toNat_le lt_iff_toNat_lt ofNat toNat_ofNat_of_lt')

structure InterleavedLowModuleFinder (π : Type) where
  useAddressSpaceLimitation : Bool
  lowAddress : UInt64
  highAddress : UInt64
  interleavingSize : UInt64
  lowModules : List π
  moduleForOtherAddresses : π

namespace InterleavedLowModuleFinder

variable {π : Type} (f : InterleavedLowModuleFinder π)

/-- The index that `Find` computes. -/
def number (address : UInt64) : UInt64 := address / f.interleavingSize % ofNat f.lowModules.length

def find (address : UInt64) : Except String π :=
  if f.useAddressSpaceLimitation && (decide (address ≥ f.highAddress) || decide (address < f.lowAddress))
    then .ok f.moduleForOtherAddresses
  else if f.interleavingSize = 0 ∨ ofNat f.lowModules.length = 0 then .error "integer divide by zero"
  else
    match f.lowModules[(f.number address).toNat]? with
    | some m => .ok m
    | none => .error "index out of range"

/-- The converter of a module. -/
def converter (i : Nat) : InterleavingConverter where
  interleavingSize := f.interleavingSize
  totalNumOfElements := f.lowModules.length
  currentElementIndex := i
  offset := f.lowAddress

def InRange (address : UInt64) : Prop := f.lowAddress ≤ address ∧ address < f.highAddress

/-- `found` : the module that is found; `accepts` : it is the only one that accepts the address; `dealt` : the blocks from the
low address on are dealt out in turn. -/
structure Agrees : Prop where
  found : ∀ {a}, f.InRange a → ∃ m, f.lowModules[(f.number a).toNat]? = some m ∧ f.find a = .ok m
  accepts : ∀ {a}, f.InRange a → ∀ i < f.lowModules.length,
    (∃ v, (f.converter i).convertExternalToInternal a = .ok v) ↔ i = (f.number a).toNat
  dealt : ∀ {a}, f.InRange a → (f.number a).toNat = (a.toNat - f.lowAddress.toNat) / f.interleavingSize.toNat %
    f.lowModules.length

/-- The sizes are positive, and a round of the modules does not overflow. -/
structure Valid : Prop where
  size : 0 < f.interleavingSize
  modules : 0 < f.lowModules.length
  round : f.interleavingSize.toNat * f.lowModules.length < 2 ^ 64
  int : f.lowModules.length < 2 ^ 63
  limited : f.useAddressSpaceLimitation = true

/-- There is nothing to agree on, or the low address lies in a block of module 0, and it begins the block or the range ends in
it. -/
def Aligned : Prop :=
  f.highAddress ≤ f.lowAddress ∨ f.lowModules.length = 1 ∨
    (f.lowAddress.toNat / f.interleavingSize.toNat % f.lowModules.length = 0 ∧
      (f.interleavingSize.toNat ∣ f.lowAddress.toNat ∨
      f.highAddress.toNat ≤ (f.lowAddress.toNat / f.interleavingSize.toNat + 1) * f.interleavingSize.toNat))

variable {f} {a : UInt64}

theorem toNat_number (hf : f.Valid) (a : UInt64) :
    (f.number a).toNat = a.toNat / f.interleavingSize.toNat % f.lowModules.length := by
  have hint := hf.int
  rw [number, UInt64.toNat_mod, UInt64.toNat_div, toNat_ofNat_of_lt' (by rw [UInt64.size]; omega)]

theorem found_of_valid (hf : f.Valid) (h : f.InRange a) :
    ∃ m, f.lowModules[(f.number a).toNat]? = some m ∧ f.find a = .ok m := by
  have hlt : (f.number a).toNat < f.lowModules.length := by
    rw [toNat_number hf]
    exact Nat.mod_lt _ hf.modules
  have hget := List.getElem?_eq_getElem hlt
  refine ⟨_, hget, ?_⟩
  have hin : (f.useAddressSpaceLimitation && (decide (a ≥ f.highAddress) || decide (a < f.lowAddress))) = false := by
    rw [decide_eq_false (UInt64.not_le.2 h.2), decide_eq_false (UInt64.not_lt.2 h.1), Bool.or_self, Bool.and_false]
  have hsizes : ¬ (f.interleavingSize = 0 ∨ ofNat f.lowModules.length = 0) := by
    rintro (hzero | hzero)
    · exact (UInt64.pos_iff_ne_zero.1 hf.size) hzero
    · have hlen := congrArg UInt64.toNat hzero
      have hint := hf.int
      have hpos := hf.modules
      rw [toNat_ofNat_of_lt' (by rw [UInt64.size]; omega), UInt64.toNat_zero] at hlen
      omega
  rw [find, hin, if_neg Bool.false_ne_true, if_neg hsizes, hget]

theorem accepts_iff (hf : f.Valid) (h : f.InRange a) {i : Nat} (hi : i < f.lowModules.length) :
    (∃ v, (f.converter i).convertExternalToInternal a = .ok v) ↔
      i = (a.toNat - f.lowAddress.toNat) / f.interleavingSize.toNat % f.lowModules.length := by
  have hc : (f.converter i).Valid := ⟨hf.size, hi, hf.int⟩
  have hr : (f.converter i).RoundFits := .inl hf.round
  have haddr : (f.converter i).offset.toNat + (f.converter i).addr a < 2 ^ 64 := by
    have hle := le_iff_toNat_le.1 h.1
    have hlt := a.toNat_lt
    unfold InterleavingConverter.addr
    show f.lowAddress.toNat + (a.toNat - f.lowAddress.toNat) < 2 ^ 64
    omega
  obtain ⟨hne, hbelongs, -⟩ := InterleavingConverter.round_eq hc hr haddr
  constructor
  · rintro ⟨v, hv⟩
    exact (hbelongs.1 (InterleavingConverter.convert_eq_ok.1 hv).2.2.1).symm
  · exact fun heq => ⟨_, InterleavingConverter.convert_eq_ok.2 ⟨h.1, hne, hbelongs.2 heq.symm, rfl⟩⟩

theorem dealt_of_aligned (hf : f.Valid) (h : f.Aligned) (ha : f.InRange a) :
    (f.number a).toNat = (a.toNat - f.lowAddress.toNat) / f.interleavingSize.toNat % f.lowModules.length := by
  have hs : 0 < f.interleavingSize.toNat := lt_iff_toNat_lt.1 hf.size
  have hlow := le_iff_toNat_le.1 ha.1
  have hhigh := lt_iff_toNat_lt.1 ha.2
  rw [toNat_number hf]
  rcases h with hempty | hone | ⟨hzero, hdvd | hend⟩
  · exact absurd (le_iff_toNat_le.1 hempty) (by omega)
  · rw [hone, Nat.mod_one, Nat.mod_one]
  · obtain ⟨q, hq⟩ := hdvd
    rw [hq, Nat.mul_div_cancel_left _ hs] at hzero
    conv_lhs => rw [show a.toNat = a.toNat - f.lowAddress.toNat + f.interleavingSize.toNat * q by omega]
    rw [Nat.add_mul_div_left _ _ hs, Nat.add_mod, hzero, Nat.add_zero, Nat.mod_mod]
  · -- the range is within one block
    have hblock : a.toNat / f.interleavingSize.toNat = f.lowAddress.toNat / f.interleavingSize.toNat := by
      apply Nat.div_eq_of_lt_le
      · exact (Nat.div_mul_le_self ..).trans hlow
      · exact hhigh.trans_le hend
    have hdiv := Nat.div_add_mod' f.lowAddress.toNat f.interleavingSize.toNat
    rw [Nat.succ_mul] at hend
    rw [hblock, hzero, Nat.div_eq_of_lt (by omega), Nat.zero_mod]

/-- The low address is to be in module 0, and so is what is left of its block. -/
theorem Agrees.aligned (hf : f.Valid) (h : f.Agrees) : f.Aligned := by
  have hs : 0 < f.interleavingSize.toNat := lt_iff_toNat_lt.1 hf.size
  refine or_iff_not_imp_left.2 fun hsome => or_iff_not_imp_left.2 fun hmany => ?_
  have hlt := UInt64.not_le.1 hsome
  have hzero := h.dealt (a := f.lowAddress) ⟨UInt64.le_refl _, hlt⟩
  rw [toNat_number hf, Nat.sub_self, Nat.zero_div, Nat.zero_mod] at hzero
  refine ⟨hzero, or_iff_not_imp_left.2 fun hdvd => ?_⟩
  by_contra hend
  have hdiv := Nat.div_add_mod' f.lowAddress.toNat f.interleavingSize.toNat
  have hmod := Nat.mod_lt f.lowAddress.toNat hs
  have hrest : f.lowAddress.toNat % f.interleavingSize.toNat ≠ 0 := fun hmod => hdvd (Nat.dvd_of_mod_eq_zero hmod)
  have hsucc : (f.lowAddress.toNat / f.interleavingSize.toNat + 1) * f.interleavingSize.toNat =
      f.lowAddress.toNat / f.interleavingSize.toNat * f.interleavingSize.toNat + f.interleavingSize.toNat := Nat.succ_mul ..
  have hhigh := f.highAddress.toNat_lt
  -- the next block is that of module 1 for `Find`
  obtain ⟨a, ha⟩ : ∃ a : UInt64, a.toNat = (f.lowAddress.toNat / f.interleavingSize.toNat + 1) * f.interleavingSize.toNat :=
    ⟨ofNat _, toNat_ofNat_of_lt' (by rw [UInt64.size]; omega)⟩
  have hnext := h.dealt (a := a) ⟨le_iff_toNat_le.2 (by omega), lt_iff_toNat_lt.2 (by omega)⟩
  have hfirst : (a.toNat - f.lowAddress.toNat) / f.interleavingSize.toNat = 0 := Nat.div_eq_of_lt (by omega)
  rw [hfirst, toNat_number hf, ha, Nat.mul_div_cancel _ hs, Nat.zero_mod, Nat.add_mod, hzero, Nat.zero_add, Nat.mod_mod]
    at hnext
  exact hmany (Nat.dvd_one.1 (Nat.dvd_of_mod_eq_zero hnext))

/-- Finder and converters agree exactly when the low address is the beginning of a block of module 0, or it does not
matter. -/
theorem finder_iff (hf : f.Valid) : f.Agrees ↔ f.Aligned := by
  refine ⟨fun h => h.aligned hf,
    fun h => ⟨fun ha => found_of_valid hf ha, fun ha i hi => ?_, fun ha => dealt_of_aligned hf h ha⟩⟩
  rw [accepts_iff hf ha hi, dealt_of_aligned hf h ha]

/-- Three modules with blocks of 4 addresses. -/
def threeModules (lowAddress highAddress : UInt64) : InterleavedLowModuleFinder Nat where
  useAddressSpaceLimitation := true
  lowAddress
  highAddress
  interleavingSize := 4
  lowModules := [0, 1, 2]
  moduleForOtherAddresses := 9

theorem finder_iff_threeModules : (threeModules 12 40).Agrees ↔ (threeModules 12 40).Aligned :=
  finder_iff ⟨by decide, by decide, by decide, by decide, rfl⟩

/-- From address 4 on, the first block is given to module 1, and only the converter of module 0 accepts it. -/
theorem not_agrees : ¬ (threeModules 4 40).Agrees ∧ (threeModules 4 40).find 4 = .ok 1 ∧
    ((threeModules 4 40).converter 0).convertExternalToInternal 4 = .ok 0 ∧
    ∃ msg, ((threeModules 4 40).converter 1).convertExternalToInternal 4 = .error msg := by
  refine ⟨fun h => ?_, by decide, by decide, _, rfl⟩
  have hzero := (h.accepts (a := 4) ⟨by decide, by decide⟩ 0 (by decide)).1 ⟨0, by decide⟩
  exact absurd hzero (by decide)

end InterleavedLowModuleFinder

end Akita.Mem.Interleaving
