import Akita.Fingerprints
import Akita.Multisets
import Mathlib

/-!
# The cuckoo filter of the GMMU TLB

`CuckooFilter` of `mem/vm/tlb_gmmu/internal/cuckooFilter.go`. A fingerprint is the whole page number, zero is an empty slot.
The random choices of a call are a parameter: `rand n` is the slot chosen at kick `n`.

`found_of_reaches` : no false negatives in a run whose insertions all find room in one of the two buckets of `hash`.
-/

namespace Akita.Vm.TlbGmmu
open Option Function List

abbrev bucketSize : Nat := 4

def maxKicks : Nat := 500

structure Bucket where
  entries : Fin bucketSize → UInt64 := fun _ => 0

structure CuckooFilter (size : Nat) where
  buckets : Fin size → Bucket := fun _ => {}

/-- `alignToPage`: the page number. -/
def alignToPage (addr : UInt64) : UInt64 := addr >>> 12

namespace Bucket

def put (b : Bucket) (i : Fin bucketSize) (v : UInt64) : Bucket := { entries := update b.entries i v }

/-- The first slot that holds `v`. -/
def slotOf (b : Bucket) (v : UInt64) : Option (Fin bucketSize) := (finRange bucketSize).find? fun i => b.entries i == v

/-- The fingerprints in a bucket. -/
def stored (b : Bucket) : Multiset UInt64 := (Finset.univ.val.map b.entries).filter (· ≠ 0)

variable {b : Bucket} {v : UInt64}

theorem mem_stored : v ∈ b.stored ↔ v ≠ 0 ∧ ∃ i, b.entries i = v := by
  simp only [stored, Multiset.mem_filter, Multiset.mem_map, Finset.mem_val, Finset.mem_univ, true_and]
  exact and_comm

theorem stored_new : stored {} = 0 := by
  apply Multiset.eq_zero_of_forall_notMem
  intro v hv
  obtain ⟨hne, _, hi⟩ := mem_stored.mp hv
  exact hne hi.symm

@[simp] theorem put_self (b : Bucket) (i : Fin bucketSize) (v : UInt64) : (b.put i v).entries i = v := by
  simp [put]

theorem put_ne (b : Bucket) {i j : Fin bucketSize} (h : j ≠ i) (v : UInt64) : (b.put i v).entries j = b.entries j :=
  update_of_ne h _ _

variable {i : Fin bucketSize}

theorem stored_put (hi : b.entries i = 0) (hv : v ≠ 0) :
    (b.put i v).stored = v ::ₘ b.stored := by
  have huniv : (Finset.univ : Finset (Fin bucketSize)).val = i ::ₘ (Finset.univ.erase i).val := by
    rw [Finset.erase_val, Multiset.cons_erase (Finset.mem_univ i)]
  have hrest : (Finset.univ.erase i).val.map (b.put i v).entries = (Finset.univ.erase i).val.map b.entries := by
    apply Multiset.map_congr rfl
    intro j hj
    exact put_ne b (Finset.ne_of_mem_erase (Finset.mem_val.mp hj)) v
  rw [stored, stored, huniv, Multiset.map_cons, Multiset.map_cons, hrest, put_self, hi]
  simp [hv]

theorem put_put (b : Bucket) (i : Fin bucketSize) (v : UInt64) : (b.put i v).put i (b.entries i) = b := by
  simp [put]

theorem stored_put_zero (hi : b.entries i = v) (hv : v ≠ 0) :
    b.stored = v ::ₘ (b.put i 0).stored := by
  rw [← stored_put (b := b.put i 0) (put_self b i 0) hv, ← hi, put_put]

theorem slotOf_eq_some (h : b.slotOf v = some i) : b.entries i = v := by
  simpa using find?_some h

theorem slotOf_eq_none : b.slotOf v = none ↔ ∀ i, b.entries i ≠ v := by
  simp [slotOf]

end Bucket

namespace CuckooFilter

variable {size : Nat}

/-- The second result of `hash`: the page number modulo the size. -/
def index1 (size : Nat) [NeZero size] (vaddr : UInt64) : Fin size := Fin.ofNat size vaddr.toNat

/-- The third result of `hash`. -/
def index2 (size : Nat) [NeZero size] (vaddr : UInt64) : Fin size :=
  Fin.ofNat size ((index1 size vaddr).val ^^^ ((vaddr * 2654435761) >>> 16).toNat)

/-- The bucket the kick loop moves a fingerprint to. -/
def kickIndex [NeZero size] (index : Fin size) (evictedFp : UInt64) : Fin size :=
  Fin.ofNat size (index.val ^^^ (((evictedFp >>> 4) &&& 0xFF) ^^^ (evictedFp &&& 0xFF)).toNat)

def setSlot (cf : CuckooFilter size) (index : Fin size) (i : Fin bucketSize) (v : UInt64) : CuckooFilter size :=
  { buckets := update cf.buckets index ((cf.buckets index).put i v) }

@[simp] theorem setSlot_self (cf : CuckooFilter size) (index : Fin size) (i : Fin bucketSize) (v : UInt64) :
    (cf.setSlot index i v).buckets index = (cf.buckets index).put i v := by
  simp [setSlot]

theorem setSlot_ne (cf : CuckooFilter size) {index j : Fin size} (h : j ≠ index) (i : Fin bucketSize) (v : UInt64) :
    (cf.setSlot index i v).buckets j = cf.buckets j :=
  update_of_ne h _ _

/-- `insertIntoBucket`, `none` when the bucket is full. -/
def insertIntoBucket (cf : CuckooFilter size) (index : Fin size) (vaddr : UInt64) : Option (CuckooFilter size) :=
  ((cf.buckets index).slotOf 0).map fun i => cf.setSlot index i vaddr

/-- The kick loop of `Insert`, with `n` kicks left. -/
def kick [NeZero size] (rand : Nat → Fin bucketSize) : Nat → CuckooFilter size → Fin size → UInt64 → Bool × CuckooFilter size
  | 0, cf, _, _ => (false, cf)
  | n + 1, cf, index, fp =>
    let entryIdx := rand (maxKicks - (n + 1))
    let evictedFp := (cf.buckets index).entries entryIdx
    let cf := cf.setSlot index entryIdx fp
    let index := kickIndex index evictedFp
    match cf.insertIntoBucket index evictedFp with
    | some cf => (true, cf)
    | none => kick rand n cf index evictedFp

variable [NeZero size]

def insert (cf : CuckooFilter size) (vaddr : UInt64) (rand : Nat → Fin bucketSize) : Bool × CuckooFilter size :=
  let fp := alignToPage vaddr
  match cf.insertIntoBucket (index1 size fp) fp with
  | some cf => (true, cf)
  | none =>
    match cf.insertIntoBucket (index2 size fp) fp with
    | some cf => (true, cf)
    | none => kick rand maxKicks cf (index1 size fp) fp

def lookup (cf : CuckooFilter size) (vaddr : UInt64) : Bool :=
  let fp := alignToPage vaddr
  (finRange bucketSize).any fun i =>
    (cf.buckets (index1 size fp)).entries i == fp || (cf.buckets (index2 size fp)).entries i == fp

/-- `deleteFromBucket`, `none` when the bucket does not hold the page. -/
def deleteFromBucket (cf : CuckooFilter size) (index : Fin size) (vaddr : UInt64) : Option (CuckooFilter size) :=
  ((cf.buckets index).slotOf (alignToPage vaddr)).map fun i => cf.setSlot index i 0

/-- `Delete`. The address is hashed as it is, the buckets are searched for its page number. -/
def delete (cf : CuckooFilter size) (vaddr : UInt64) : Bool × CuckooFilter size :=
  match cf.deleteFromBucket (index1 size vaddr) vaddr with
  | some cf => (true, cf)
  | none =>
    match cf.deleteFromBucket (index2 size vaddr) vaddr with
    | some cf => (true, cf)
    | none => (false, cf)

/-! ## What the filter holds -/

/-- The buckets where `Lookup` looks for a fingerprint. -/
def Home (fp : UInt64) (index : Fin size) : Prop := index = index1 size fp ∨ index = index2 size fp

/-- Every fingerprint with the bucket it is in. -/
def table (cf : CuckooFilter size) : Multiset (Fin size × UInt64) := entries fun index => (cf.buckets index).stored

/-- One of the two buckets has an empty slot. -/
def HasRoom (cf : CuckooFilter size) (vaddr : UInt64) : Prop :=
  ∃ index, Home (alignToPage vaddr) index ∧ ∃ i, (cf.buckets index).entries i = 0

instance (cf : CuckooFilter size) (vaddr : UInt64) : Decidable (HasRoom cf vaddr) :=
  decidable_of_iff (∃ index ∈ [index1 size (alignToPage vaddr), index2 size (alignToPage vaddr)],
    ∃ i, (cf.buckets index).entries i = 0) (by
    simp [HasRoom, Home])

omit [NeZero size] in
theorem table_new : table ({} : CuckooFilter size) = 0 := by
  simp only [table, Bucket.stored_new]
  exact entries_empty

variable {cf : CuckooFilter size} {index : Fin size} {v : UInt64}

omit [NeZero size] in
theorem table_setSlot {i : Fin bucketSize}
    (hi : (cf.buckets index).entries i = 0) (hv : v ≠ 0) : (cf.setSlot index i v).table = (index, v) ::ₘ cf.table := by
  apply entries_cons
  · rw [setSlot_self, Bucket.stored_put hi hv]
  · intro j hj
    rw [setSlot_ne cf hj]

omit [NeZero size] in
theorem table_setSlot_zero {i : Fin bucketSize}
    (hi : (cf.buckets index).entries i = v) (hv : v ≠ 0) : cf.table = (index, v) ::ₘ (cf.setSlot index i 0).table := by
  apply entries_cons
  · rw [setSlot_self, ← Bucket.stored_put_zero hi hv]
  · intro j hj
    rw [setSlot_ne cf hj]

omit [NeZero size] in
theorem insertIntoBucket_table {cf cf' : CuckooFilter size}
    (h : cf.insertIntoBucket index v = some cf') (hv : v ≠ 0) : cf'.table = (index, v) ::ₘ cf.table := by
  obtain ⟨_, hi, rfl⟩ := map_eq_some_iff.mp h
  exact table_setSlot (Bucket.slotOf_eq_some hi) hv

variable {vaddr : UInt64}

/-- An insertion that finds room puts the fingerprint in one of its two buckets, and reports success. -/
theorem insert_of_hasRoom (h : cf.HasRoom vaddr) (hv : alignToPage vaddr ≠ 0)
    (rand : Nat → Fin bucketSize) : (cf.insert vaddr rand).1 = true ∧
      ∃ index, Home (alignToPage vaddr) index ∧ (cf.insert vaddr rand).2.table = (index, alignToPage vaddr) ::ₘ cf.table := by
  cases h1 : cf.insertIntoBucket (index1 size (alignToPage vaddr)) (alignToPage vaddr) with
  | some =>
    simp only [insert, h1]
    exact ⟨trivial, _, .inl rfl, insertIntoBucket_table h1 hv⟩
  | none =>
    cases h2 : cf.insertIntoBucket (index2 size (alignToPage vaddr)) (alignToPage vaddr) with
    | some =>
      simp only [insert, h1, h2]
      exact ⟨trivial, _, .inr rfl, insertIntoBucket_table h2 hv⟩
    | none =>
      -- both buckets are full
      have h1 := Bucket.slotOf_eq_none.mp (map_eq_none_iff.mp h1)
      have h2 := Bucket.slotOf_eq_none.mp (map_eq_none_iff.mp h2)
      obtain ⟨_, rfl | rfl, i, hi⟩ := h
      · exact absurd hi (h1 i)
      · exact absurd hi (h2 i)

omit [NeZero size] in
theorem mem_table :
    (index, v) ∈ cf.table ↔ v ∈ (cf.buckets index).stored := mem_entries

/-- A fingerprint in one of its two buckets is found. -/
theorem lookup_of_mem (hhome : Home (alignToPage vaddr) index)
    (hmem : (index, alignToPage vaddr) ∈ cf.table) : cf.lookup vaddr = true := by
  obtain ⟨-, i, hi⟩ := Bucket.mem_stored.mp (mem_table.mp hmem)
  apply any_eq_true.mpr
  refine ⟨i, mem_finRange i, ?_⟩
  rcases hhome with rfl | rfl <;> simp [hi]

/-! ## Deletion -/

/-- One of the buckets that `Delete` searches holds the page number of the address. -/
def Deletable (cf : CuckooFilter size) (vaddr : UInt64) : Prop :=
  ∃ index, (index = index1 size vaddr ∨ index = index2 size vaddr) ∧ ∃ i, (cf.buckets index).entries i = alignToPage vaddr

instance (cf : CuckooFilter size) (vaddr : UInt64) : Decidable (Deletable cf vaddr) :=
  decidable_of_iff (∃ index ∈ [index1 size vaddr, index2 size vaddr], ∃ i, (cf.buckets index).entries i = alignToPage vaddr)
    (by
    simp [Deletable])

omit [NeZero size] in
theorem deleteFromBucket_table {cf cf' : CuckooFilter size} (h : cf.deleteFromBucket index vaddr = some cf')
    (hv : alignToPage vaddr ≠ 0) : cf.table = (index, alignToPage vaddr) ::ₘ cf'.table := by
  obtain ⟨_, hi, rfl⟩ := map_eq_some_iff.mp h
  exact table_setSlot_zero (Bucket.slotOf_eq_some hi) hv

/-- A deletion that finds the page number takes it out once. -/
theorem delete_of_deletable (h : cf.Deletable vaddr) (hv : alignToPage vaddr ≠ 0) :
    ∃ index, cf.table = (index, alignToPage vaddr) ::ₘ (cf.delete vaddr).2.table := by
  cases h1 : cf.deleteFromBucket (index1 size vaddr) vaddr with
  | some =>
    simp only [delete, h1]
    exact ⟨_, deleteFromBucket_table h1 hv⟩
  | none =>
    cases h2 : cf.deleteFromBucket (index2 size vaddr) vaddr with
    | some =>
      simp only [delete, h1, h2]
      exact ⟨_, deleteFromBucket_table h2 hv⟩
    | none =>
      have h1 := Bucket.slotOf_eq_none.mp (map_eq_none_iff.mp h1)
      have h2 := Bucket.slotOf_eq_none.mp (map_eq_none_iff.mp h2)
      obtain ⟨_, rfl | rfl, i, hi⟩ := h
      · exact absurd hi (h1 i)
      · exact absurd hi (h2 i)

omit [NeZero size] in
theorem setSlot_entry (cf : CuckooFilter size) (index : Fin size) (i : Fin bucketSize) :
    cf.setSlot index i ((cf.buckets index).entries i) = cf := by
  simp [setSlot, Bucket.put]

omit [NeZero size] in
theorem deleteFromBucket_zero {cf cf' : CuckooFilter size} (h : cf.deleteFromBucket index 0 = some cf') : cf' = cf := by
  obtain ⟨i, hi, rfl⟩ := map_eq_some_iff.mp h
  have hempty : (cf.buckets index).entries i = 0 := Bucket.slotOf_eq_some hi
  rw [← hempty, setSlot_entry]

/-- Deleting the address of an empty way does nothing. -/
theorem delete_zero (cf : CuckooFilter size) : (cf.delete 0).2 = cf := by
  unfold delete
  split
  next h => exact deleteFromBucket_zero h
  next =>
    split
    next h => exact deleteFromBucket_zero h
    next => rfl

omit [NeZero size] in
/-- Page number 0 is not stored. -/
theorem zero_notMem_table (cf : CuckooFilter size) (index : Fin size) : (index, (0 : UInt64)) ∉ cf.table := by
  intro h
  exact (Bucket.mem_stored.mp (mem_table.mp h)).1 rfl

/-! ## Runs of insertions -/

/-- The filters reached by inserting the addresses of distinct non-zero pages, with the answers of `Insert`. `G` is what is
assumed of the filter before each insertion. -/
inductive Reaches (G : CuckooFilter size → UInt64 → Prop) : CuckooFilter size → List UInt64 → List Bool → Prop
  | new : Reaches G {} [] []
  | insert {cf : CuckooFilter size} {vaddrs : List UInt64} {oks : List Bool} (vaddr : UInt64) (rand : Nat → Fin bucketSize)
      (h : Reaches G cf vaddrs oks) (hpage : alignToPage vaddr ≠ 0) (hnew : alignToPage vaddr ∉ vaddrs.map alignToPage)
      (hG : G cf vaddr) : Reaches G (cf.insert vaddr rand).2 (vaddrs ++ [vaddr]) (oks ++ [(cf.insert vaddr rand).1])

/-- While every insertion finds room, the filter holds the pages inserted, each in one of its two buckets. -/
theorem mirrors_of_reaches {vaddrs : List UInt64} {oks : List Bool} (h : Reaches HasRoom cf vaddrs oks) :
    Mirrors Home cf.table ↑(vaddrs.map alignToPage) := by
  induction h with
  | new =>
    rw [table_new, map_nil, Multiset.coe_nil]
    exact Mirrors.empty
  | insert _ rand _ hpage _ hroom ih =>
    obtain ⟨-, _, hhome, htable⟩ := insert_of_hasRoom hroom hpage rand
    rw [htable, map_append, map_cons, map_nil, coe_concat]
    exact ih.insert hhome

/-- **No false negatives.** In every run whose insertions find room in one of the two buckets of `hash`, each insertion
reports success, each address inserted is found, and every entry is in one of the two buckets of its page. -/
theorem found_of_reaches {cf : CuckooFilter size} {vaddrs : List UInt64} {oks : List Bool}
    (h : Reaches HasRoom cf vaddrs oks) :
    (∀ ok ∈ oks, ok = true) ∧ (∀ vaddr ∈ vaddrs, cf.lookup vaddr = true) ∧ ∀ e ∈ cf.table, Home e.2 e.1 := by
  have hm := mirrors_of_reaches h
  refine ⟨?_, ?_, hm.atHome⟩
  · clear hm
    induction h with
    | new => simp
    | insert _ rand _ hpage _ hroom ih =>
      exact forall_mem_append.mpr ⟨ih, forall_mem_singleton.mpr (insert_of_hasRoom hroom hpage rand).1⟩
  · intro vaddr hvaddr
    obtain ⟨_, hhome, hmem⟩ := hm.exists_home (Multiset.mem_coe.mpr (mem_map_of_mem hvaddr))
    exact lookup_of_mem hhome hmem

/-- The filter after inserting the addresses, always with slot 0 chosen, and what `Insert` has answered. -/
def insertAll (size : Nat) [NeZero size] (vaddrs : List UInt64) : CuckooFilter size × List Bool :=
  vaddrs.foldl (fun c vaddr => ((c.1.insert vaddr fun _ => 0).2, c.2 ++ [(c.1.insert vaddr fun _ => 0).1])) ({}, [])

theorem reaches_insertAll {G : CuckooFilter size → UInt64 → Prop} (vaddrs : List UInt64) (hpages : 0 ∉ vaddrs.map alignToPage)
    (hnodup : (vaddrs.map alignToPage).Nodup)
    (hG : ∀ i (hi : i < vaddrs.length), G (insertAll size (vaddrs.take i)).1 vaddrs[i]) :
    Reaches G (insertAll size vaddrs).1 vaddrs (insertAll size vaddrs).2 := by
  induction vaddrs using reverseRecOn with
  | nil => exact .new
  | append_singleton vaddrs vaddr ih =>
    rw [map_append, nodup_append] at hnodup
    rw [map_append, mem_append, not_or] at hpages
    have h := ih hpages.1 hnodup.1 fun i hi => by
      have hi' := hG i (by simp; omega)
      rwa [take_append_of_le_length (Nat.le_of_lt hi), getElem_append_left hi] at hi'
    have hlast := hG vaddrs.length (by simp)
    rw [take_left, getElem_concat_length rfl] at hlast
    have hpage : alignToPage vaddr ≠ 0 := fun heq => hpages.2 (mem_singleton.mpr heq.symm)
    have hnew : alignToPage vaddr ∉ vaddrs.map alignToPage := fun hmem => hnodup.2.2 _ hmem _ (mem_singleton_self _) rfl
    rw [insertAll, foldl_append]
    exact .insert vaddr (fun _ => 0) h hpage hnew hlast

/-- Four pages fill the first bucket of page `0x401`, four its second. -/
def crowd : List UInt64 := [0x1000, 0x101000, 0x201000, 0x301000, 0x1f000, 0x11f000, 0x21f000, 0x31f000, 0x401000]

/-- The insertion of page `0x401` reports success and moves page 1 to bucket 0, which is none of the two that `hash` gives for
page 1: page 1 is not found any more. -/
theorem kicked_away : Reaches (fun _ _ => True) (insertAll 256 crowd).1 crowd (insertAll 256 crowd).2 ∧
    (∀ ok ∈ (insertAll 256 crowd).2, ok = true) ∧ (insertAll 256 crowd).1.lookup 0x1000 = false :=
  ⟨reaches_insertAll crowd (by decide +kernel) (by decide +kernel) fun _ _ => trivial, by decide +kernel, by decide +kernel⟩

/-- The first eight of these pages find room. -/
theorem found_of_reaches_eight : (crowd.take 8).all (insertAll 256 (crowd.take 8)).1.lookup = true :=
  List.all_eq_true.mpr
    (found_of_reaches (reaches_insertAll (crowd.take 8) (by decide +kernel) (by decide +kernel) (by decide +kernel))).2.1

end CuckooFilter

end Akita.Vm.TlbGmmu
