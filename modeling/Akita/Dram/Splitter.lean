import Akita.Dram.Signal
import Akita.Returns

/-!
# The units of a request

`splitAddresses` gives the units from the one that holds the address to the last one that begins before the end of the
request, for requests that end below 2^64 (`isSplit_of_ok`).
-/

namespace Akita.Dram
open Mem

/-- The units of a request, none if `align` does not end. -/
def unitsOf (log2AccessUnitSize : Nat) (req : AccessReq) : List Nat :=
  ((splitAddresses log2AccessUnitSize req).toOption).getD []

/-- The units are aligned, in increasing order and disjoint, and those that begin before the end of the request and end after
its beginning. -/
structure IsSplit (log2AccessUnitSize : Nat) (req : AccessReq) (units : List Nat) : Prop where
  aligned : ∀ u ∈ units, 2 ^ log2AccessUnitSize ∣ u
  increasing : units.Pairwise fun u v => u + 2 ^ log2AccessUnitSize ≤ v
  covers : ∀ u, 2 ^ log2AccessUnitSize ∣ u →
    (u ∈ units ↔ u < req.address + req.byteSize ∧ req.address < u + 2 ^ log2AccessUnitSize)

variable {n : Nat}

theorem alignLoop_spec {endAddr currAddr size r : Nat} (h : alignLoop n endAddr currAddr size = .ok r) :
    size ≤ r ∧ ∀ i, currAddr + i * 2 ^ n < endAddr ↔ size + i * 2 ^ n < r := by
  have hpos := Nat.two_pow_pos n
  fun_induction alignLoop n endAddr currAddr size with
  | case1 _ _ _ _ ih =>
    obtain ⟨_, hunits⟩ := ih h
    refine ⟨by omega, fun i => ?_⟩
    cases i with
    | zero =>
      have := hunits 0
      constructor
      · intro _
        omega
      · intro _
        omega
    | succ i =>
      have hsucc : (i + 1) * 2 ^ n = i * 2 ^ n + 2 ^ n := Nat.succ_mul ..
      have := hunits i
      rw [hsucc]
      omega
  | case2 => cases h
  | case3 =>
    cases h
    exact ⟨Nat.le_refl _, fun i => by omega⟩

theorem mem_splitLoop {endAddr addr u : Nat} : u ∈ splitLoop n endAddr addr ↔ ∃ i, u = addr + i * 2 ^ n ∧ u < endAddr := by
  have hpos := Nat.two_pow_pos n
  fun_induction splitLoop n endAddr addr with
  | case1 _ hlt ih =>
    simp only [List.mem_cons, ih]
    constructor
    · rintro (rfl | ⟨i, rfl, hi⟩)
      · exact ⟨0, by omega, hlt⟩
      · exact ⟨i + 1, by rw [Nat.succ_mul]; omega, hi⟩
    · rintro ⟨i, rfl, hi⟩
      cases i with
      | zero => exact .inl (by omega)
      | succ i => exact .inr ⟨i, by rw [Nat.succ_mul]; omega, hi⟩
  | case2 =>
    constructor
    · intro hu
      cases hu
    · rintro ⟨i, rfl, hi⟩
      omega

theorem pairwise_splitLoop (endAddr addr : Nat) : (splitLoop n endAddr addr).Pairwise fun u v => u + 2 ^ n ≤ v := by
  fun_induction splitLoop n endAddr addr with
  | case1 _ _ ih =>
    refine List.pairwise_cons.2 ⟨fun v hv => ?_, ih⟩
    obtain ⟨_, rfl, -⟩ := mem_splitLoop.1 hv
    omega
  | case2 => exact List.Pairwise.nil

/-- A request that ends below 2^64 is split into its units. -/
theorem isSplit_of_ok {req : AccessReq} {units : List Nat} (hend : req.address + req.byteSize < 2 ^ 64)
    (h : splitAddresses n req = .ok units) : IsSplit n req units := by
  obtain ⟨⟨_, _⟩, halign, h⟩ := eq_ok_of_bind h
  obtain ⟨_, hloop, halign⟩ := eq_ok_of_bind halign
  cases halign
  cases h
  rw [Nat.mod_eq_of_lt hend] at hloop
  obtain ⟨-, hunits⟩ := alignLoop_spec hloop
  have hpos := Nat.two_pow_pos n
  have hle : req.address / 2 ^ n * 2 ^ n ≤ req.address := Nat.div_mul_le_self ..
  have hlt : req.address < req.address / 2 ^ n * 2 ^ n + 2 ^ n := by
    have hdiv := Nat.div_add_mod' req.address (2 ^ n)
    have hmod := Nat.mod_lt req.address hpos
    omega
  refine ⟨fun u hu => ?_, pairwise_splitLoop _ _, fun u hu => ?_⟩
  · obtain ⟨i, rfl, -⟩ := mem_splitLoop.1 hu
    exact Nat.dvd_add (Nat.dvd_mul_left ..) (Nat.dvd_mul_left ..)
  · rw [mem_splitLoop]
    constructor
    · rintro ⟨i, rfl, hi⟩
      have := (hunits i).2 (by omega)
      omega
    · rintro ⟨hbefore, hafter⟩
      obtain ⟨q, rfl⟩ := hu
      have hq : req.address / 2 ^ n < q + 1 := Nat.div_lt_of_lt_mul (by rw [Nat.mul_succ]; omega)
      obtain ⟨i, rfl⟩ := Nat.exists_eq_add_of_le (Nat.le_of_lt_succ hq)
      have hmul : 2 ^ n * (req.address / 2 ^ n + i) = req.address / 2 ^ n * 2 ^ n + i * 2 ^ n := by
        rw [Nat.mul_comm, Nat.add_mul]
      rw [hmul] at hbefore ⊢
      have := (hunits i).1 hbefore
      exact ⟨i, rfl, by omega⟩

end Akita.Dram
