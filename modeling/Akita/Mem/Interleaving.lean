import Akita.Mem.Cache.Directory
import Mathlib.Data.Nat.Digits.Defs

/-!
# Interleaved addresses

`mem.InterleavingConverter` on 64-bit addresses: element `i` of `n` has blocks of `s` addresses, `offset + k * s * n + i * s`
and those after it.

* `Owns` : the addresses of the element; `rank` : how many of them come before an address;
* `GapFree` : the addresses of the element are numbered in order and without gaps, and all others are refused;
* `gapFree_iff` : the converters of which this is true.
-/

namespace Akita.Mem.Interleaving
open UInt64 (le_iff_toNat_le lt_iff_toNat_lt lt_or_eq_of_le not_lt pos_iff_ne_zero toNat_add toNat_div toNat_inj toNat_mod
  toNat_mul toNat_ofNat_of_lt' toNat_sub_of_le toNat_zero zero_add zero_mul)
open Nat (div_add_mod' div_div_eq_div_mul div_eq_of_lt mod_eq_of_lt mod_le mod_lt sub_le succ_mul)

structure InterleavingConverter where
  interleavingSize : UInt64
  totalNumOfElements : Nat
  currentElementIndex : Nat
  offset : UInt64 := 0
deriving DecidableEq

def notOwned (external : UInt64) (currentElementIndex : Nat) : String :=
  "address 0x" ++ String.ofList (Nat.toDigits 16 external.toNat) ++ " does not belongs to current element " ++
    toString currentElementIndex

namespace InterleavingConverter

variable (c : InterleavingConverter)

def roundSize : UInt64 := c.interleavingSize * UInt64.ofNat c.totalNumOfElements

def convertExternalToInternal (external : UInt64) : Except String UInt64 :=
  if external < c.offset then .error "address is smaller than offset"
  else
    let addr := external - c.offset
    if c.roundSize = 0 then .error "integer divide by zero"
    else
      let belongsTo := addr % c.roundSize / c.interleavingSize
      if belongsTo.toNat ≠ c.currentElementIndex then .error (notOwned external c.currentElementIndex)
      else .ok (addr / c.roundSize * c.interleavingSize + external % c.interleavingSize)

/-- A converter of one of the elements. Both numbers are of type `int`. -/
structure Valid : Prop where
  size : 0 < c.interleavingSize
  index : c.currentElementIndex < c.totalNumOfElements
  int : c.totalNumOfElements < 2 ^ 63

/-- The place of the address behind the offset. -/
def addr (external : UInt64) : Nat := external.toNat - c.offset.toNat

def Owns (external : UInt64) : Prop :=
  c.offset ≤ external ∧ c.addr external / c.interleavingSize.toNat % c.totalNumOfElements = c.currentElementIndex

/-- The addresses of the element that come before an address of the element. -/
def rank (external : UInt64) : Nat :=
  c.addr external / (c.interleavingSize.toNat * c.totalNumOfElements) * c.interleavingSize.toNat +
    c.addr external % c.interleavingSize.toNat

/-- The addresses of the element are numbered from 0, in order and without gaps, and all others are refused. -/
structure GapFree : Prop where
  accepts : ∀ {e}, c.Owns e → ∃ v, c.convertExternalToInternal e = .ok v
  increasing : ∀ {e e' v v'}, c.Owns e → c.Owns e' → e < e' → c.convertExternalToInternal e = .ok v →
    c.convertExternalToInternal e' = .ok v' → v < v'
  onto : ∀ {e v}, c.Owns e → c.convertExternalToInternal e = .ok v → ∀ u < v, ∃ e', c.Owns e' ∧
    c.convertExternalToInternal e' = .ok u
  refuses : ∀ {e}, ¬ c.Owns e → ∃ msg, c.convertExternalToInternal e = .error msg

/-- The rounds and what is left of the last one are told apart as the element has it, for all places behind the offset: there
is no overflow, or none of them is as far as the first one of which the element would be wrong. -/
def RoundFits : Prop :=
  c.interleavingSize.toNat * c.totalNumOfElements < 2 ^ 64 ∨
    2 ^ 64 ≤ c.offset.toNat + c.roundSize.toNat + c.currentElementIndex * c.interleavingSize.toNat ∧
      (2 ^ 64 ≤ c.offset.toNat + c.roundSize.toNat ∨ (c.currentElementIndex + 1) * c.interleavingSize.toNat ≤
        c.roundSize.toNat)

/-! ## What is accepted -/

variable {c} {e v : UInt64}

theorem toNat_roundSize (hc : c.Valid) : c.roundSize.toNat = c.interleavingSize.toNat * c.totalNumOfElements % 2 ^ 64 := by
  have hint := hc.int
  rw [roundSize, toNat_mul, toNat_ofNat_of_lt' (by rw [UInt64.size]; omega)]

theorem convert_eq_ok : c.convertExternalToInternal e = .ok v ↔ c.offset ≤ e ∧ c.roundSize ≠ 0 ∧
    c.addr e % c.roundSize.toNat / c.interleavingSize.toNat = c.currentElementIndex ∧
    v = (e - c.offset) / c.roundSize * c.interleavingSize + e % c.interleavingSize := by
  unfold convertExternalToInternal
  split
  case isTrue hlow => exact ⟨fun h => (nomatch h), fun h => absurd hlow (not_lt.2 h.1)⟩
  case isFalse hlow =>
    have hle := not_lt.1 hlow
    dsimp only
    split
    case isTrue hzero => exact ⟨fun h => (nomatch h), fun h => absurd hzero h.2.1⟩
    case isFalse hzero =>
      have hbelongs : ((e - c.offset) % c.roundSize / c.interleavingSize).toNat =
          c.addr e % c.roundSize.toNat / c.interleavingSize.toNat := by
        rw [toNat_div, toNat_mod, toNat_sub_of_le _ _ hle, addr]
      rw [hbelongs]
      split
      case isTrue hne => exact ⟨fun h => (nomatch h), fun h => absurd h.2.2.1 hne⟩
      case isFalse heq =>
        rw [Except.ok.injEq]
        exact ⟨fun h => ⟨hle, hzero, not_not.1 heq, h.symm⟩, fun h => h.2.2.2.symm⟩

theorem exists_error (h : ∀ v, c.convertExternalToInternal e ≠ .ok v) :
    ∃ msg, c.convertExternalToInternal e = .error msg := by
  cases hconv : c.convertExternalToInternal e with
  | error msg => exact ⟨msg, rfl⟩
  | ok v => exact absurd hconv (h v)

/-- The first address of the element. -/
theorem exists_addr {a : Nat} (h : c.offset.toNat + a < 2 ^ 64) :
    ∃ e, c.offset ≤ e ∧ c.addr e = a ∧ e.toNat = c.offset.toNat + a := by
  have heq : (UInt64.ofNat (c.offset.toNat + a)).toNat = c.offset.toNat + a := toNat_ofNat_of_lt' h
  exact ⟨_, le_iff_toNat_le.2 (by omega), by rw [addr, heq]; omega, heq⟩

/-- The remainder may be taken of the external address. -/
theorem toNat_mod_of_dvd (hdvd : c.interleavingSize.toNat ∣ c.offset.toNat) (he : c.offset ≤ e) :
    (e % c.interleavingSize).toNat = c.addr e % c.interleavingSize.toNat := by
  obtain ⟨q, _⟩ := hdvd
  have hle := le_iff_toNat_le.1 he
  rw [toNat_mod, addr]
  conv_lhs => rw [show e.toNat = e.toNat - c.offset.toNat + c.interleavingSize.toNat * q by omega]
  rw [Nat.add_mul_mod_self_left]

/-- No address is as far behind the offset as the first block of the element. -/
def Nowhere (c : InterleavingConverter) : Prop := 2 ^ 64 ≤ c.offset.toNat + c.currentElementIndex * c.interleavingSize.toNat

theorem Valid.size_pos (hc : c.Valid) : 0 < c.interleavingSize.toNat := lt_iff_toNat_lt.1 hc.size

theorem le_addr_of_owns (hc : c.Valid) (h : c.Owns e) : c.currentElementIndex * c.interleavingSize.toNat ≤ c.addr e := by
  have hs := hc.size_pos
  rw [← Nat.le_div_iff_mul_le hs, ← h.2]
  exact mod_le ..

theorem le_addr_of_ok (hc : c.Valid) (h : c.convertExternalToInternal e = .ok v) :
    c.currentElementIndex * c.interleavingSize.toNat ≤ c.addr e % c.roundSize.toNat := by
  have hs := hc.size_pos
  rw [← Nat.le_div_iff_mul_le hs]
  exact (convert_eq_ok.1 h).2.2.1.ge

theorem gapFree_of_nowhere (hc : c.Valid) (h : c.Nowhere) : c.GapFree := by
  have hfar : ∀ {e : UInt64}, c.offset ≤ e → c.addr e < c.currentElementIndex * c.interleavingSize.toNat := by
    intro e he
    have hlt := e.toNat_lt
    have hle := le_iff_toNat_le.1 he
    unfold Nowhere at h
    unfold addr
    omega
  have hnone : ∀ {e}, ¬ c.Owns e := fun {e} ho => absurd (le_addr_of_owns hc ho) (Nat.not_le.2 (hfar ho.1))
  refine ⟨fun ho => absurd ho hnone, fun ho => absurd ho hnone, fun ho => absurd ho hnone,
    fun {e} _ => exists_error fun v hv => ?_⟩
  have hle := le_addr_of_ok hc hv
  exact absurd (hle.trans (mod_le ..)) (Nat.not_le.2 (hfar (convert_eq_ok.1 hv).1))

/-! ## Rounds -/

/-- The rounds that the code counts are those of the element. -/
theorem round_eq (hc : c.Valid) (hr : c.RoundFits) {a : Nat} (ha : c.offset.toNat + a < 2 ^ 64) : c.roundSize ≠ 0 ∧
    (a % c.roundSize.toNat / c.interleavingSize.toNat = c.currentElementIndex ↔
      a / c.interleavingSize.toNat % c.totalNumOfElements = c.currentElementIndex) ∧
    (a / c.interleavingSize.toNat % c.totalNumOfElements = c.currentElementIndex →
      a / c.roundSize.toNat = a / (c.interleavingSize.toNat * c.totalNumOfElements)) := by
  have hs := hc.size_pos
  have hround := toNat_roundSize hc
  have hindex := hc.index
  have hne : 0 < c.roundSize.toNat → c.roundSize ≠ 0 := by
    rintro hpos hzero
    rw [hzero] at hpos
    exact absurd hpos (by decide)
  unfold RoundFits at hr
  rcases Nat.lt_or_ge (c.interleavingSize.toNat * c.totalNumOfElements) (2 ^ 64) with hlt | hge
  · rw [mod_eq_of_lt hlt] at hround
    refine ⟨hne (hround ▸ Nat.mul_pos hs (by omega)), ?_, fun _ => by rw [hround]⟩
    rw [hround, Nat.mod_mul_right_div_self]
  · obtain ⟨hend, hblock⟩ := hr.resolve_left (Nat.not_lt.2 hge)
    generalize c.roundSize.toNat = r at hround hne hend hblock ⊢
    generalize c.interleavingSize.toNat = s at hs hround hge hend hblock ⊢
    generalize c.currentElementIndex = i at hindex hend hblock ⊢
    generalize c.totalNumOfElements = n at hge hindex ⊢
    have hblock' : (i + 1) * s = i * s + s := succ_mul ..
    have hdiv : a / s % n = a / s := by
      apply mod_eq_of_lt
      rw [Nat.div_lt_iff_lt_mul hs, Nat.mul_comm]
      omega
    have hzero : a / (s * n) = 0 := div_eq_of_lt (by omega)
    rw [hdiv, hzero]
    rcases Nat.lt_or_ge a r with har | har
    · rw [mod_eq_of_lt har]
      exact ⟨hne (by omega), Iff.rfl, fun _ => div_eq_of_lt har⟩
    · -- the place is behind the only block of the element, and too far before the next one that the code would take for it
      have hle : (i + 1) * s ≤ r := hblock.resolve_left (by omega)
      have hmod : a % r = a - r := by
        rw [Nat.mod_eq_sub_mod har, mod_eq_of_lt (by omega)]
      have hother : a / s ≠ i := by
        have hge' : i + 1 ≤ a / s := by
          rw [Nat.le_div_iff_mul_le hs]
          omega
        omega
      refine ⟨hne (by omega), ⟨fun h => ?_, fun h => absurd h hother⟩, fun h => absurd h hother⟩
      rw [hmod] at h
      have hbefore : (a - r) / s < i := by
        rw [Nat.div_lt_iff_lt_mul hs]
        omega
      omega

theorem rank_le (c : InterleavingConverter) (e : UInt64) : c.rank e ≤ c.addr e := by
  have hround : c.addr e / (c.interleavingSize.toNat * c.totalNumOfElements) * c.interleavingSize.toNat ≤
      c.addr e / c.interleavingSize.toNat * c.interleavingSize.toNat := by
    apply Nat.mul_le_mul_right
    rw [← div_div_eq_div_mul]
    exact Nat.div_le_self ..
  have hdiv := div_add_mod' (c.addr e) c.interleavingSize.toNat
  unfold rank
  omega

theorem convert_of_roundFits (hc : c.Valid) (hdvd : c.interleavingSize.toNat ∣ c.offset.toNat) (hr : c.RoundFits) :
    c.convertExternalToInternal e = .ok v ↔ c.Owns e ∧ v.toNat = c.rank e := by
  rw [convert_eq_ok, Owns]
  have helt := e.toNat_lt
  by_cases hle : c.offset ≤ e
  · have hle' := le_iff_toNat_le.1 hle
    obtain ⟨hne, hbelongs, hrounds⟩ := @round_eq c hc hr (c.addr e) (by unfold addr; omega)
    rw [hbelongs, and_iff_right hle, and_iff_right hne, and_iff_right hle]
    refine and_congr_right fun howns => ?_
    have hvalue : ((e - c.offset) / c.roundSize * c.interleavingSize + e % c.interleavingSize).toNat = c.rank e := by
      have hrank := rank_le c e
      have haddr : c.addr e ≤ e.toNat := sub_le ..
      have hround : ((e - c.offset) / c.roundSize).toNat = c.addr e / (c.interleavingSize.toNat * c.totalNumOfElements) := by
        rw [toNat_div, toNat_sub_of_le _ _ hle, ← hrounds howns, addr]
      unfold rank at hrank ⊢
      rw [toNat_add, toNat_mul, hround, toNat_mod_of_dvd hdvd hle, Nat.mod_add_mod, mod_eq_of_lt (by omega)]
    rw [← hvalue, toNat_inj]
  · exact ⟨fun h => absurd h.1 hle, fun h => absurd h.1.1 hle⟩

theorem exists_rank (hc : c.Valid) (h : c.Owns e) {u : Nat} (hu : u < c.rank e) : ∃ e', c.Owns e' ∧ c.rank e' = u := by
  have hs := hc.size_pos
  have hindex := hc.index
  have helt := e.toNat_lt
  have hle := le_iff_toNat_le.1 h.1
  have howns := h.2
  have haddr : c.offset.toNat + c.addr e = e.toNat := by
    unfold addr
    omega
  unfold rank at hu
  generalize hn : c.totalNumOfElements = n at *
  generalize hi : c.currentElementIndex = i at *
  generalize hsize : c.interleavingSize.toNat = s at *
  have hplace : (u / s * n + i) * s + u % s ≤ c.addr e := by
    have hb := Nat.div_add_mod (c.addr e / s) n
    have ha := div_add_mod' (c.addr e) s
    rw [div_div_eq_div_mul, howns] at hb
    have hmod := mod_lt u hs
    have hd := div_add_mod' u s
    have hmul : (n * (c.addr e / (s * n)) + i) * s = c.addr e / s * s := by rw [hb]
    rcases Nat.lt_or_ge (u / s) (c.addr e / (s * n)) with hlt | hge
    · have hstep : (u / s * n + i) * s + n * s ≤ (n * (c.addr e / (s * n)) + i) * s := by
        have hsucc := Nat.mul_le_mul_left n (Nat.succ_le_of_lt hlt)
        rw [← Nat.add_mul]
        apply Nat.mul_le_mul_right
        rw [Nat.mul_succ, Nat.mul_comm n (u / s)] at hsucc
        omega
      have hns : s ≤ n * s := Nat.le_mul_of_pos_left s (by omega)
      omega
    · have hge' := Nat.mul_le_mul_right s hge
      have hsame : u / s = c.addr e / (s * n) := by
        apply Nat.le_antisymm _ hge
        by_contra hnot
        have hlt := Nat.mul_le_mul_right s (Nat.succ_le_of_lt (Nat.not_le.1 hnot))
        rw [succ_mul] at hlt
        have hrest := mod_lt (c.addr e) hs
        omega
      rw [hsame, Nat.mul_comm _ n, hmul]
      rw [hsame] at hd
      omega
  obtain ⟨e', hle', haddr', -⟩ := @exists_addr c ((u / s * n + i) * s + u % s) (by omega)
  have hdiv : c.addr e' / s = u / s * n + i := by
    rw [haddr', Nat.add_comm, Nat.add_mul_div_right _ _ hs, div_eq_of_lt (mod_lt u hs), Nat.zero_add]
  refine ⟨e', ⟨hle', ?_⟩, ?_⟩
  · rw [hn, hi, hsize, hdiv, Nat.mul_comm, Nat.mul_add_mod, mod_eq_of_lt hindex]
  · unfold rank
    rw [hn, hsize, ← div_div_eq_div_mul, hdiv, Nat.mul_comm (u / s) n, Nat.mul_add_div (by omega),
      div_eq_of_lt hindex, Nat.add_zero, haddr', Nat.add_comm _ (u % s), Nat.add_mul_mod_self_right, Nat.mod_mod]
    have hd := div_add_mod' u s
    omega

theorem rank_lt (hc : c.Valid) {e' : UInt64} (h : c.Owns e) (h' : c.Owns e') (hlt : e < e') : c.rank e < c.rank e' := by
  have hs := hc.size_pos
  have hle := le_iff_toNat_le.1 h.1
  have haddr : c.addr e < c.addr e' := by
    have hlt' := lt_iff_toNat_lt.1 hlt
    unfold addr
    omega
  have hb := Nat.div_add_mod (c.addr e / c.interleavingSize.toNat) c.totalNumOfElements
  have hb' := Nat.div_add_mod (c.addr e' / c.interleavingSize.toNat) c.totalNumOfElements
  rw [div_div_eq_div_mul, h.2] at hb
  rw [div_div_eq_div_mul, h'.2] at hb'
  have ha := div_add_mod' (c.addr e) c.interleavingSize.toNat
  have ha' := div_add_mod' (c.addr e') c.interleavingSize.toNat
  have hrest := mod_lt (c.addr e) hs
  have hblocks : c.addr e / c.interleavingSize.toNat ≤ c.addr e' / c.interleavingSize.toNat := Nat.div_le_div_right haddr.le
  have hrounds : c.addr e / (c.interleavingSize.toNat * c.totalNumOfElements) ≤
      c.addr e' / (c.interleavingSize.toNat * c.totalNumOfElements) := Nat.div_le_div_right haddr.le
  unfold rank
  rcases Nat.lt_or_eq_of_le hrounds with hnext | hsame
  · have hmul := Nat.mul_le_mul_right c.interleavingSize.toNat (Nat.succ_le_of_lt hnext)
    rw [succ_mul] at hmul
    omega
  · rw [hsame] at hb
    rw [hsame]
    rw [← hb, hb'] at ha
    omega

theorem gapFree_of_roundFits (hc : c.Valid) (hdvd : c.interleavingSize.toNat ∣ c.offset.toNat) (hr : c.RoundFits) :
    c.GapFree := by
  have hconv : ∀ {e v}, c.convertExternalToInternal e = .ok v ↔ c.Owns e ∧ v.toNat = c.rank e :=
    convert_of_roundFits hc hdvd hr
  have hnum : ∀ {e : UInt64}, c.Owns e → (UInt64.ofNat (c.rank e)).toNat = c.rank e := by
    intro e ho
    apply toNat_ofNat_of_lt'
    have hrank := rank_le c e
    have helt := e.toNat_lt
    unfold addr at hrank
    rw [UInt64.size]
    omega
  refine ⟨fun {e} ho => ⟨_, hconv.2 ⟨ho, hnum ho⟩⟩, fun {e e' v v'} ho ho' hlt hv hv' => ?_, fun {e v} ho hv u hu => ?_,
    fun {e} ho => exists_error fun v hv => ho (hconv.1 hv).1⟩
  · rw [lt_iff_toNat_lt, (hconv.1 hv).2, (hconv.1 hv').2]
    exact rank_lt hc ho ho' hlt
  · rw [lt_iff_toNat_lt, (hconv.1 hv).2] at hu
    obtain ⟨e', ho', hrank⟩ := exists_rank hc ho hu
    exact ⟨e', ho', hconv.2 ⟨ho', hrank.symm⟩⟩

/-! ## The converters without gaps -/

/-- The first address of the element is number 0. -/
theorem GapFree.first (h : c.GapFree) (ho : c.Owns e) (hmin : ∀ e', c.Owns e' → e ≤ e') :
    c.convertExternalToInternal e = .ok 0 := by
  obtain ⟨v, hv⟩ := h.accepts ho
  rcases eq_or_ne v 0 with rfl | hne
  · exact hv
  · obtain ⟨e', ho', hv'⟩ := h.onto ho hv 0 (pos_iff_ne_zero.2 hne)
    rcases lt_or_eq_of_le (hmin e' ho') with hlt | rfl
    · exact absurd (h.increasing ho ho' hlt hv hv') (not_lt.2 UInt64.zero_le)
    · exact hv'

theorem owns_of_block (hc : c.Valid) {j : Nat} (hle : c.offset ≤ e)
    (haddr : c.addr e = c.currentElementIndex * c.interleavingSize.toNat + j) (hj : j < c.interleavingSize.toNat) :
    c.Owns e := by
  have hs := hc.size_pos
  refine ⟨hle, ?_⟩
  rw [haddr, Nat.add_comm, Nat.add_mul_div_right _ _ hs, div_eq_of_lt hj, Nat.zero_add, mod_eq_of_lt hc.index]

/-- The remainder of the external address is right for the first address only if the offset is a multiple of the size. -/
theorem GapFree.dvd (hc : c.Valid) (h : c.GapFree) (hsome : ¬ c.Nowhere) : c.interleavingSize.toNat ∣ c.offset.toNat ∧
    c.currentElementIndex * c.interleavingSize.toNat < c.roundSize.toNat := by
  have hs := hc.size_pos
  obtain ⟨e, hle, haddr, he⟩ := exists_addr (Nat.not_le.1 hsome)
  have ho := owns_of_block hc hle (show c.addr e = _ + 0 from haddr) hs
  have hfirst := h.first ho fun e' ho' => by
    have hle' := le_addr_of_owns hc ho'
    have hoff := le_iff_toNat_le.1 ho'.1
    rw [le_iff_toNat_le, he]
    unfold addr at hle'
    omega
  have hround := le_addr_of_ok hc hfirst
  obtain ⟨-, hne, -, hzero⟩ := convert_eq_ok.1 hfirst
  have hpos : 0 < c.roundSize.toNat := lt_iff_toNat_lt.1 (pos_iff_ne_zero.2 hne)
  rw [haddr] at hround
  have hlt : c.currentElementIndex * c.interleavingSize.toNat < c.roundSize.toNat := hround.trans_lt (mod_lt _ hpos)
  refine ⟨?_, hlt⟩
  have hdiv : (e - c.offset) / c.roundSize = 0 := by
    apply toNat_inj.1
    rw [toNat_div, toNat_sub_of_le _ _ hle, ← addr, haddr, div_eq_of_lt hlt, toNat_zero]
  rw [hdiv, zero_mul, zero_add, ← toNat_inj, toNat_mod, he, Nat.add_mul_mod_self_right] at hzero
  exact Nat.dvd_of_mod_eq_zero hzero.symm

/-- A place where a round of the code begins is that of the first element, and it is not the first of the element's
numbers. -/
theorem GapFree.le_roundSize (hc : c.Valid) (h : c.GapFree) (hsome : ¬ c.Nowhere)
    (hend : c.offset.toNat + c.roundSize.toNat < 2 ^ 64) :
    (c.currentElementIndex + 1) * c.interleavingSize.toNat ≤ c.roundSize.toNat := by
  obtain ⟨hdvd, hlt⟩ := h.dvd hc hsome
  have hs := hc.size_pos
  by_contra hnot
  rw [succ_mul, Nat.not_le] at hnot
  obtain ⟨e, hle, haddr, _⟩ := exists_addr hend
  have ho := owns_of_block hc (j := c.roundSize.toNat - c.currentElementIndex * c.interleavingSize.toNat)
    hle (by omega) (by omega)
  obtain ⟨_, hv⟩ := h.accepts ho
  obtain ⟨-, -, hindex, hvalue⟩ := convert_eq_ok.1 hv
  rw [haddr, Nat.mod_self, Nat.zero_div] at hindex
  rw [← hindex, Nat.zero_mul] at hlt hnot
  -- the block of the first element, before the round ends
  have hbefore : ∀ {e' w}, c.Owns e' → c.addr e' < c.roundSize.toNat → c.convertExternalToInternal e' = .ok w →
      w.toNat = c.addr e' := by
    intro e' w ho' hlt' hw
    obtain ⟨-, -, -, rfl⟩ := convert_eq_ok.1 hw
    have hzero : (e' - c.offset) / c.roundSize = 0 := by
      apply toNat_inj.1
      rw [toNat_div, toNat_sub_of_le _ _ ho'.1, ← addr, div_eq_of_lt hlt', toNat_zero]
    rw [hzero, zero_mul, zero_add, toNat_mod_of_dvd hdvd ho'.1, mod_eq_of_lt (by omega)]
  have hone : (e - c.offset) / c.roundSize = 1 := by
    apply toNat_inj.1
    rw [toNat_div, toNat_sub_of_le _ _ hle, ← addr, haddr, Nat.div_self hlt, UInt64.toNat_one]
  have hrem : c.roundSize.toNat % c.interleavingSize.toNat = c.roundSize.toNat := mod_eq_of_lt (by omega)
  rw [hone, UInt64.one_mul, ← toNat_inj, toNat_add, toNat_mod_of_dvd hdvd hle, haddr, hrem] at hvalue
  obtain ⟨_, hle₁, _, _⟩ := @exists_addr c (c.roundSize.toNat - 1) (by omega)
  have ho₁ := owns_of_block hc (j := c.roundSize.toNat - 1) hle₁ (by rw [← hindex]; omega) (by omega)
  obtain ⟨_, hv₁⟩ := h.accepts ho₁
  have hv₁' := hbefore ho₁ (by omega) hv₁
  have hinc := lt_iff_toNat_lt.1 (h.increasing ho₁ ho (lt_iff_toNat_lt.2 (by omega)) hv₁ hv)
  have hround := c.roundSize.toNat_lt
  have hsize := c.interleavingSize.toNat_lt
  -- number `roundSize` is left out
  obtain ⟨e', ho', hv'⟩ := h.onto ho hv c.roundSize (lt_iff_toNat_lt.2 (by omega))
  have hoff := le_iff_toNat_le.1 ho'.1
  rcases UInt64.lt_or_le e' e with hlt' | hge'
  · have hsmall : c.addr e' < c.roundSize.toNat := by
      have hlt'' := lt_iff_toNat_lt.1 hlt'
      unfold addr
      omega
    have hnum := hbefore ho' hsmall hv'
    omega
  · rcases lt_or_eq_of_le hge' with hlt'' | rfl
    · have hinc' := lt_iff_toNat_lt.1 (h.increasing ho ho' hlt'' hv hv')
      omega
    · rw [hv] at hv'
      cases hv'
      omega

theorem GapFree.roundFits (hc : c.Valid) (h : c.GapFree) (hsome : ¬ c.Nowhere) : c.RoundFits := by
  obtain ⟨_, hlt⟩ := h.dvd hc hsome
  have hs := hc.size_pos
  refine or_iff_not_imp_left.2 fun hover => ?_
  have hblock : 2 ^ 64 ≤ c.offset.toNat + c.roundSize.toNat ∨ (c.currentElementIndex + 1) * c.interleavingSize.toNat ≤
      c.roundSize.toNat :=
    or_iff_not_imp_left.2 fun hend => h.le_roundSize hc hsome (Nat.not_le.1 hend)
  refine ⟨?_, hblock⟩
  by_contra hnot
  have hle := hblock.resolve_left (by omega)
  rw [succ_mul] at hle
  -- the address one round behind the first one of the element is taken for another one of its own
  obtain ⟨e, hoff, haddr, _⟩ := @exists_addr c (c.roundSize.toNat + c.currentElementIndex * c.interleavingSize.toNat)
    (by omega)
  have hother : ¬ c.Owns e := by
    rintro ⟨-, ho⟩
    have hn : c.addr e / c.interleavingSize.toNat < c.totalNumOfElements := by
      rw [Nat.div_lt_iff_lt_mul hs, Nat.mul_comm]
      omega
    have hfar : c.currentElementIndex + 1 ≤ c.addr e / c.interleavingSize.toNat := by
      rw [Nat.le_div_iff_mul_le hs, succ_mul]
      omega
    rw [mod_eq_of_lt hn] at ho
    omega
  obtain ⟨_, hmsg⟩ := h.refuses hother
  have hok : c.convertExternalToInternal e = .ok _ := convert_eq_ok.2 ⟨hoff, fun hzero => ?_, ?_, rfl⟩
  · rw [hmsg] at hok
    cases hok
  · rw [hzero] at hlt
    exact absurd hlt (Nat.not_lt_zero _)
  · rw [haddr, Nat.add_mod_left, mod_eq_of_lt hlt, Nat.mul_div_cancel _ hs]

/-- The numbers are without gaps exactly when no address belongs to the element, or the offset is a multiple of the size and
the round size does not overflow where it counts. -/
theorem gapFree_iff (hc : c.Valid) : c.GapFree ↔ c.Nowhere ∨ (c.interleavingSize.toNat ∣ c.offset.toNat ∧ c.RoundFits) := by
  constructor
  · intro h
    exact or_iff_not_imp_left.2 fun hsome => ⟨(h.dvd hc hsome).1, h.roundFits hc hsome⟩
  · rintro (hnone | ⟨hdvd, hr⟩)
    · exact gapFree_of_nowhere hc hnone
    · exact gapFree_of_roundFits hc hdvd hr

theorem gapFree_iff_page : (⟨4096, 4, 1, 8192⟩ : InterleavingConverter).GapFree ↔
    (⟨4096, 4, 1, 8192⟩ : InterleavingConverter).Nowhere ∨ ((4096 : UInt64).toNat ∣ (8192 : UInt64).toNat ∧
      (⟨4096, 4, 1, 8192⟩ : InterleavingConverter).RoundFits) :=
  gapFree_iff ⟨by decide, by decide, by decide⟩

/-- With blocks of 4 addresses from 2 on, the addresses 2, 3, 4, 5 of the first block have the numbers 2, 3, 0, 1. -/
theorem not_gapFree : ¬ (⟨4, 2, 0, 2⟩ : InterleavingConverter).GapFree ∧
    [2, 3, 4, 5].map (⟨4, 2, 0, 2⟩ : InterleavingConverter).convertExternalToInternal = [.ok 2, .ok 3, .ok 0, .ok 1] := by
  refine ⟨fun h => ?_, by decide⟩
  have hlt := h.increasing (show Owns ⟨4, 2, 0, 2⟩ 2 from ⟨by decide, by decide⟩)
    (show Owns ⟨4, 2, 0, 2⟩ 4 from ⟨by decide, by decide⟩)
    (by decide) (show convertExternalToInternal ⟨4, 2, 0, 2⟩ 2 = .ok 2 by decide)
    (show convertExternalToInternal ⟨4, 2, 0, 2⟩ 4 = .ok 0 by decide)
  exact absurd hlt (by decide)

/-! ## Without overflow -/

/-- Where the round size fits, the 64-bit code computes as on natural numbers. -/
theorem convert_toNat (hc : c.Valid) (hlt : c.interleavingSize.toNat * c.totalNumOfElements < 2 ^ 64)
    (h : c.convertExternalToInternal e = .ok v) :
    (⟨c.interleavingSize.toNat, c.totalNumOfElements, c.currentElementIndex, c.offset.toNat⟩ :
      Cache.InterleavingConverter).convertExternalToInternal e.toNat = .ok v.toNat := by
  obtain ⟨hle, _, hbelongs, rfl⟩ := convert_eq_ok.1 h
  have hs := hc.size_pos
  have hle' := le_iff_toNat_le.1 hle
  have hround := toNat_roundSize hc
  rw [mod_eq_of_lt hlt] at hround
  have hn : 0 < c.totalNumOfElements := Nat.zero_lt_of_lt hc.index
  rw [hround, addr] at hbelongs
  have helt := e.toNat_lt
  have hquot : (e.toNat - c.offset.toNat) / (c.interleavingSize.toNat * c.totalNumOfElements) * c.interleavingSize.toNat +
      e.toNat % c.interleavingSize.toNat ≤ e.toNat := by
    have hdiv := div_add_mod' e.toNat c.interleavingSize.toNat
    have hmul : (e.toNat - c.offset.toNat) / (c.interleavingSize.toNat * c.totalNumOfElements) * c.interleavingSize.toNat ≤
        e.toNat / c.interleavingSize.toNat * c.interleavingSize.toNat := by
      apply Nat.mul_le_mul_right
      calc (e.toNat - c.offset.toNat) / (c.interleavingSize.toNat * c.totalNumOfElements)
          ≤ e.toNat / (c.interleavingSize.toNat * c.totalNumOfElements) := Nat.div_le_div_right (sub_le ..)
        _ ≤ e.toNat / c.interleavingSize.toNat := Nat.div_le_div_left (Nat.le_mul_of_pos_right _ hn) hs
    omega
  unfold Cache.InterleavingConverter.convertExternalToInternal
  dsimp only
  rw [if_neg (Nat.not_lt.2 hle'), if_neg (Nat.mul_pos hs hn).ne', if_neg (not_not.2 hbelongs), toNat_add, toNat_mul,
    toNat_div, toNat_sub_of_le _ _ hle, hround, toNat_mod, Nat.mod_add_mod, mod_eq_of_lt (hquot.trans_lt helt)]

theorem convert_toNat_page : (⟨4096, 4, 1, 8192⟩ : Cache.InterleavingConverter).convertExternalToInternal 12289 = .ok 1 :=
  convert_toNat (c := ⟨4096, 4, 1, 8192⟩) (e := 12289) (v := 1) ⟨by decide, by decide, by decide⟩ (by decide) (by decide)

end InterleavingConverter

end Akita.Mem.Interleaving
