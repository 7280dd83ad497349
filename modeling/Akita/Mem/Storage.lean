import Akita.Mem.Protocol

/-!
# Storage

`mem.Storage` as the flat array of bytes that its units make up. A read or write fails when one of the unit
addresses it visits lies beyond the capacity: the first address, then every unit boundary inside the range.
-/

namespace Akita.Mem

structure Storage where
  capacity : Nat
  data : Nat → UInt8

namespace Storage

/-- `NewStorage` sets units of 4 KB. -/
def unitSize : Nat := 4096

def new (capacity : Nat) : Storage := { capacity, data := fun _ => 0 }

/-- The largest address handed to `createOrGetStorageUnit` lies beyond the capacity. -/
def beyond (s : Storage) (address len : Nat) : Bool :=
  0 < len && s.capacity < max address ((address + len - 1) / unitSize * unitSize)

def read (s : Storage) (address len : Nat) : Except String Bytes :=
  if s.beyond address len then .error "accessing physical address beyond the storage capacity"
  else .ok ((List.range len).map fun i => s.data (address + i))

def write (s : Storage) (address : Nat) (d : Bytes) : Except String Storage :=
  if s.beyond address d.length then .error "accessing physical address beyond the storage capacity"
  else .ok { s with data := fun a => if address ≤ a ∧ a < address + d.length then d.getD (a - address) 0 else s.data a }

variable {address len : Nat} {s : Storage}

/-- An access inside the capacity does not fail. -/
theorem not_beyond (h : address + len ≤ s.capacity) :
    s.beyond address len = false := by
  have h1 : (address + len - 1) / unitSize * unitSize ≤ address + len - 1 := Nat.div_mul_le_self _ _
  have h2 : max address ((address + len - 1) / unitSize * unitSize) ≤ s.capacity := by omega
  simp only [beyond, Bool.and_eq_false_iff, decide_eq_false_iff_not]
  right
  omega

theorem read_of_beyond (h : s.beyond address len = false) :
    s.read address len = .ok ((List.range len).map fun i => s.data (address + i)) := by
  simp [read, h]

theorem read_ok (h : address + len ≤ s.capacity) :
    s.read address len = .ok ((List.range len).map fun i => s.data (address + i)) := read_of_beyond (not_beyond h)

variable {d : Bytes}

theorem write_of_beyond {address : Nat} (h : s.beyond address d.length = false) :
    s.write address d = .ok { s with
      data := fun a => if address ≤ a ∧ a < address + d.length then d.getD (a - address) 0 else s.data a } := by
  simp [write, h]

theorem write_ok {address : Nat} (h : address + d.length ≤ s.capacity) :
    s.write address d = .ok { s with
      data := fun a => if address ≤ a ∧ a < address + d.length then d.getD (a - address) 0 else s.data a } :=
  write_of_beyond (not_beyond h)

theorem read_eq_ok (h : s.read address len = .ok d) :
    d = (List.range len).map fun i => s.data (address + i) := by
  unfold read at h
  split at h
  · cases h
  · exact (Except.ok.inj h).symm

theorem length_of_read (h : s.read address len = .ok d) :
    d.length = len := by
  rw [read_eq_ok h]
  simp

theorem write_eq_ok {s s' : Storage} {address : Nat} (h : s.write address d = .ok s') :
    s' = { s with
      data := fun a => if address ≤ a ∧ a < address + d.length then d.getD (a - address) 0 else s.data a } := by
  unfold write at h
  split at h
  · cases h
  · exact (Except.ok.inj h).symm

end Storage

end Akita.Mem
