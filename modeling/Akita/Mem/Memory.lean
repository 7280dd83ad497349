import Akita.Mem.Protocol

/-!
# Lower memories

What the caches see of the memory below them, and what a masked write does to it.
-/

namespace Akita.Mem
open List

/-- A lower memory keeps bytes for each process. -/
abbrev Memory := PID → Nat → UInt8

/-- The effect of a write on a memory. -/
def Memory.write (m : Memory) (pid : PID) (address : Nat) (data : Bytes) (mask : Option Mask) : Memory :=
  fun p a => if p = pid ∧ covers address data mask a then data.getD (a - address) 0 else m p a

def Memory.read (m : Memory) (pid : PID) (address len : Nat) : Bytes := (range len).map fun i => m pid (address + i)

/-- A write further on covers the same bytes further on. -/
theorem covers_add (a i : Nat) (data : Bytes) (mask : Option Mask) (j : Nat) :
    covers (a + i) data mask (a + j) = covers i data mask j := by
  have h1 : decide (a + i ≤ a + j) = decide (i ≤ j) := by simp
  have h2 : decide (a + j < a + i + data.length) = decide (j < i + data.length) := by
    rw [Nat.add_assoc]
    simp
  have h3 : a + j - (a + i) = j - i := by omega
  simp only [covers, h1, h2, h3]

theorem lt_of_covers {line : Bytes} {dirty : Mask} {i : Nat} {data : Bytes} {mask : Option Mask} {line' : Bytes}
    {dirty' : Mask} (h : overlay line dirty i data mask = .ok (line', dirty')) {j : Nat} (hj : covers i data mask j = true) :
    j < dirty.length := by
  have hdirty := (overlay_getD h j).2
  rw [hj, Bool.true_or] at hdirty
  by_contra hge
  have hlen := (overlay_length h).2
  rw [getD_eq_getElem?_getD, getElem?_eq_none (by omega)] at hdirty
  cases hdirty

/-- Writing a line with a write laid over it is writing the line and then the write. -/
theorem Memory.write_overlay {line : Bytes} {dirty : Mask} {i : Nat} {data : Bytes} {mask : Option Mask} {line' : Bytes}
    {dirty' : Mask} (h : overlay line dirty i data mask = .ok (line', dirty')) (hlen : dirty.length = line.length)
    (m : Memory) (pid : PID) (a : Nat) :
    m.write pid a line' (some dirty') = (m.write pid a line (some dirty)).write pid (a + i) data mask := by
  funext p b
  unfold Memory.write
  by_cases hp : p = pid
  · rcases Nat.lt_or_ge b a with hb | hb
    · rw [not_covers_before hb, not_covers_before (i := a + i) (by omega), not_covers_before hb]
      simp
    · obtain ⟨j, rfl⟩ := Nat.exists_eq_add_of_le hb
      have hshift : covers a line' (some dirty') (a + j) = covers 0 line' (some dirty') j := covers_add a 0 _ _ j
      have hshift' : covers a line (some dirty) (a + j) = covers 0 line (some dirty) j := covers_add a 0 _ _ j
      rw [hshift, hshift', covers_add]
      obtain ⟨hbyte, hdirty⟩ := overlay_getD h j
      have hlen' := overlay_length h
      have hsub : a + j - a = j := by omega
      have hsub' : a + j - (a + i) = j - i := by omega
      simp only [hp, true_and, hsub, hsub', hbyte]
      have hcov : covers 0 line' (some dirty') j = (covers i data mask j || covers 0 line (some dirty) j) := by
        have hzero : ∀ (l : Bytes) (d : Mask), covers 0 l (some d) j = (decide (j < l.length) && d.getD j false) := by
          intro l d
          simp [covers]
        rw [hzero, hzero, hlen'.1, hdirty]
        cases hj : covers i data mask j with
        | true => simpa [hlen] using lt_of_covers h hj
        | false => simp
      rw [hcov]
      cases covers i data mask j <;> simp
  · simp only [hp, false_and, if_false]

/-- A write whose mask selects nothing. -/
theorem Memory.write_unmasked (m : Memory) (pid : PID) (a n : Nat) (data : Bytes) :
    m.write pid a data (some (replicate n false)) = m := by
  funext p b
  have hnone : covers a data (some (replicate n false)) b = false := by
    have hget : (replicate n false).getD (b - a) false = false := by
      rw [getD_eq_getElem?_getD, getElem?_replicate]
      split <;> rfl
    simp only [covers, hget, Bool.and_false]
  simp [Memory.write, hnone]

end Akita.Mem
