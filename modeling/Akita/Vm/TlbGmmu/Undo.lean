import Akita.Vm.TlbGmmu.CuckooFilter

/-!
# Deletion after insertion

`Insert` and `Lookup` hash the page number of an address, `Delete` hashes the address as it is, so the buckets it searches are
others.

* `homeSlots cf fp` : what the slots of the two buckets of a fingerprint hold, the empty ones included;
* `target cf vaddr` : the bucket that `Insert` puts an address in when one of its two buckets has an empty slot;
* `Searched cf vaddr b` : `Delete` takes the page number out of the bucket `b` after that insertion;
* `exchanged` : what the two calls do to the slots of each bucket;
* `delete_undoes_iff` : when the two calls leave everything as it was.
-/

namespace Akita.Vm.TlbGmmu
open Option
open Multiset (count_cons count_pos map_cons)

namespace Bucket

/-- What the slots hold, the empty ones included. -/
def slots (b : Bucket) : Multiset UInt64 := Finset.univ.val.map b.entries

theorem mem_slots {b : Bucket} {v : UInt64} : v ∈ b.slots ↔ ∃ i, b.entries i = v := by
  simp only [slots, Multiset.mem_map, Finset.mem_val, Finset.mem_univ, true_and]

theorem notMem_slots {b : Bucket} {v : UInt64} : v ∉ b.slots ↔ b.slotOf v = none := by
  rw [mem_slots, slotOf_eq_none, not_exists]

theorem slots_put (b : Bucket) (i : Fin bucketSize) (v : UInt64) : b.entries i ::ₘ (b.put i v).slots = v ::ₘ b.slots := by
  have huniv : (Finset.univ : Finset (Fin bucketSize)).val = i ::ₘ (Finset.univ.erase i).val := by
    rw [Finset.erase_val, Multiset.cons_erase (Finset.mem_univ i)]
  have hrest : (Finset.univ.erase i).val.map (b.put i v).entries = (Finset.univ.erase i).val.map b.entries := by
    apply Multiset.map_congr rfl
    intro j hj
    exact put_ne b (Finset.ne_of_mem_erase (Finset.mem_val.mp hj)) v
  rw [slots, slots, huniv, map_cons, map_cons, hrest, put_self]
  exact Multiset.cons_swap ..

end Bucket

namespace CuckooFilter

variable {size : Nat}

/-- How many slots of a bucket hold a value. -/
def slotCount (cf : CuckooFilter size) (index : Fin size) (u : UInt64) : Nat := (cf.buckets index).slots.count u

theorem slotCount_setSlot (cf : CuckooFilter size) (index j : Fin size) (i : Fin bucketSize) (v u : UInt64) :
    (cf.setSlot index i v).slotCount j u + (if j = index ∧ (cf.buckets index).entries i = u then 1 else 0) =
      cf.slotCount j u + if j = index ∧ v = u then 1 else 0 := by
  by_cases hj : j = index
  · subst hj
    have hput := congrArg (Multiset.count u) ((cf.buckets j).slots_put i v)
    rw [count_cons, count_cons] at hput
    simp only [slotCount, setSlot_self, true_and, eq_comm (b := u)]
    exact hput
  · simp only [slotCount, setSlot_ne cf hj, hj, false_and]

variable [NeZero size]

/-- The slots of the two buckets of a fingerprint. -/
def homeSlots (cf : CuckooFilter size) (fp : UInt64) : Multiset UInt64 :=
  (cf.buckets (index1 size fp)).slots + (cf.buckets (index2 size fp)).slots

/-- `Lookup` looks through these slots. -/
theorem lookup_iff {cf : CuckooFilter size} {vaddr : UInt64} :
    cf.lookup vaddr = true ↔ alignToPage vaddr ∈ cf.homeSlots (alignToPage vaddr) := by
  simp only [lookup, List.any_eq_true, List.mem_finRange, true_and, Bool.or_eq_true, beq_iff_eq, homeSlots, Multiset.mem_add,
    Bucket.mem_slots, exists_or]

theorem count_homeSlots (cf : CuckooFilter size) (fp u : UInt64) :
    (cf.homeSlots fp).count u = cf.slotCount (index1 size fp) u + cf.slotCount (index2 size fp) u := Multiset.count_add ..

theorem index2_zero : index2 size 0 = index1 size 0 := by
  apply Fin.ext
  simp [index2, index1]

/-- The bucket that `Insert` puts an address in. -/
def target (cf : CuckooFilter size) (vaddr : UInt64) : Fin size :=
  if 0 ∈ (cf.buckets (index1 size (alignToPage vaddr))).slots then index1 size (alignToPage vaddr)
    else index2 size (alignToPage vaddr)

theorem home_target (cf : CuckooFilter size) (vaddr : UInt64) : Home (alignToPage vaddr) (cf.target vaddr) := by
  unfold target
  split
  · exact .inl rfl
  · exact .inr rfl

/-- The bucket holds the page number of the address once the address is inserted. -/
def Takes (cf : CuckooFilter size) (vaddr : UInt64) (index : Fin size) : Prop :=
  index = cf.target vaddr ∨ alignToPage vaddr ∈ (cf.buckets index).slots

/-- `Delete` finds the page number in `b`: the first such of its two buckets. -/
def Searched (cf : CuckooFilter size) (vaddr : UInt64) (b : Fin size) : Prop :=
  cf.Takes vaddr b ∧ (b = index1 size vaddr ∨ b = index2 size vaddr ∧ ¬ cf.Takes vaddr (index1 size vaddr))

/-- The bucket of page number 0 has an empty slot, or none, before and after a slot of `t` is filled and one of `b`
emptied. -/
def KeepsEmpty (cf : CuckooFilter size) (t b : Fin size) : Prop :=
  b = t ∨ (t = index1 size 0 → 2 ≤ cf.slotCount t 0) ∧ (b = index1 size 0 → 1 ≤ cf.slotCount b 0)

/-- The bucket where `Delete` finds the page number is one of the two where `Lookup` looks for it, and page number 0, which is
found where there is an empty slot, is not affected. -/
def Undoable (cf : CuckooFilter size) (vaddr : UInt64) : Prop :=
  ∃ b, cf.Searched vaddr b ∧ Home (alignToPage vaddr) b ∧ cf.KeepsEmpty (cf.target vaddr) b

/-- `Delete` has undone `Insert`: it has taken one entry of the address out of one of the buckets where `Lookup` looks for it,
these buckets hold what they held before, and every other address looks up as before. -/
structure Undone (before inserted deleted : CuckooFilter size) (vaddr : UInt64) : Prop where
  removed : ∃ index, Home (alignToPage vaddr) index ∧ inserted.table = (index, alignToPage vaddr) ::ₘ deleted.table
  restored : deleted.homeSlots (alignToPage vaddr) = before.homeSlots (alignToPage vaddr)
  lookups : ∀ w, w ≠ vaddr → deleted.lookup w = before.lookup w

section
variable {cf : CuckooFilter size} {vaddr : UInt64} {b : Fin size}

theorem insert_eq (hroom : cf.HasRoom vaddr) (rand : Nat → Fin bucketSize) :
    ∃ i, (cf.buckets (cf.target vaddr)).entries i = 0 ∧
    cf.insert vaddr rand = (true, cf.setSlot (cf.target vaddr) i (alignToPage vaddr)) := by
  unfold target
  split
  · next hfree =>
    cases hslot : (cf.buckets (index1 size (alignToPage vaddr))).slotOf 0 with
    | none => exact absurd hfree (Bucket.notMem_slots.mpr hslot)
    | some i =>
      refine ⟨i, Bucket.slotOf_eq_some hslot, ?_⟩
      simp only [insert, insertIntoBucket, hslot, map_some]
  · next hfull =>
    have hnone := Bucket.notMem_slots.mp hfull
    cases hslot : (cf.buckets (index2 size (alignToPage vaddr))).slotOf 0 with
    | none =>
      obtain ⟨_, rfl | rfl, i, hi⟩ := hroom
      · exact absurd hi (Bucket.slotOf_eq_none.mp hnone i)
      · exact absurd hi (Bucket.slotOf_eq_none.mp hslot i)
    | some i =>
      refine ⟨i, Bucket.slotOf_eq_some hslot, ?_⟩
      simp only [insert, insertIntoBucket, hnone, hslot, map_some, map_none]

theorem Searched.unique {b' : Fin size} (h : cf.Searched vaddr b) (h' : cf.Searched vaddr b') : b = b' := by
  obtain ⟨htakes, rfl | ⟨rfl, hnot⟩⟩ := h
  · obtain ⟨-, rfl | ⟨-, hnot'⟩⟩ := h'
    · rfl
    · exact absurd htakes hnot'
  · obtain ⟨htakes', rfl | ⟨rfl, -⟩⟩ := h'
    · exact absurd htakes' hnot
    · rfl

/-- What a deletion does: it empties a slot of the first of its buckets that holds the page number, or it fails. -/
theorem delete_cases (cf : CuckooFilter size) (vaddr : UInt64) :
    (∃ b i, (cf.buckets b).entries i = alignToPage vaddr ∧
      (b = index1 size vaddr ∨ b = index2 size vaddr ∧ alignToPage vaddr ∉ (cf.buckets (index1 size vaddr)).slots) ∧
      cf.delete vaddr = (true, cf.setSlot b i 0)) ∨
    alignToPage vaddr ∉ (cf.buckets (index1 size vaddr)).slots ∧ alignToPage vaddr ∉ (cf.buckets (index2 size vaddr)).slots ∧
      cf.delete vaddr = (false, cf) := by
  cases h1 : (cf.buckets (index1 size vaddr)).slotOf (alignToPage vaddr) with
  | some i =>
    refine .inl ⟨_, i, Bucket.slotOf_eq_some h1, .inl rfl, ?_⟩
    simp only [delete, deleteFromBucket, h1, map_some]
  | none =>
    have hfirst := Bucket.notMem_slots.mpr h1
    cases h2 : (cf.buckets (index2 size vaddr)).slotOf (alignToPage vaddr) with
    | some i =>
      refine .inl ⟨_, i, Bucket.slotOf_eq_some h2, .inr ⟨rfl, hfirst⟩, ?_⟩
      simp only [delete, deleteFromBucket, h1, h2, map_some, map_none]
    | none =>
      refine .inr ⟨hfirst, Bucket.notMem_slots.mpr h2, ?_⟩
      simp only [delete, deleteFromBucket, h1, h2, map_none]

/-- Where the page number is once the address is inserted. -/
theorem takes_iff {i : Fin bucketSize} (hi : (cf.buckets (cf.target vaddr)).entries i = 0) (hv : alignToPage vaddr ≠ 0) :
    alignToPage vaddr ∈ ((cf.setSlot (cf.target vaddr) i (alignToPage vaddr)).buckets b).slots ↔ cf.Takes vaddr b := by
  have hcount := cf.slotCount_setSlot (cf.target vaddr) b i (alignToPage vaddr) (alignToPage vaddr)
  rw [if_neg (fun h => hv (h.2.symm.trans hi))] at hcount
  rw [← count_pos, Takes, ← count_pos]
  change 0 < slotCount _ b _ ↔ b = _ ∨ 0 < slotCount cf b _
  by_cases hb : b = cf.target vaddr
  · rw [if_pos ⟨hb, rfl⟩] at hcount
    exact iff_of_true (by omega) (.inl hb)
  · rw [if_neg (fun h => hb h.1)] at hcount
    rw [← Nat.add_zero (slotCount _ b _), hcount]
    exact ⟨.inr, fun h => h.resolve_left hb⟩

/-- The slots of each bucket after an empty slot of `t` is filled with `v` and a slot of `b` that holds `v` is emptied. -/
def Exchanged (before after : CuckooFilter size) (t b : Fin size) (v : UInt64) : Prop :=
  ∀ j u, after.slotCount j u + (if j = b ∧ v = u then 1 else 0) + (if j = t ∧ 0 = u then 1 else 0) =
    before.slotCount j u + (if j = b ∧ 0 = u then 1 else 0) + if j = t ∧ v = u then 1 else 0

omit [NeZero size] in
theorem exchanged {t : Fin size} {i i' : Fin bucketSize} {v : UInt64} (hi : (cf.buckets t).entries i = 0)
    (hi' : ((cf.setSlot t i v).buckets b).entries i' = v) : Exchanged cf ((cf.setSlot t i v).setSlot b i' 0) t b v := by
  intro j u
  have hfill := cf.slotCount_setSlot t j i v u
  have hclear := (cf.setSlot t i v).slotCount_setSlot b j i' 0 u
  rw [hi] at hfill
  rw [hi'] at hclear
  omega

variable {after : CuckooFilter size} {t : Fin size} {v : UInt64}

/-- The two buckets of a fingerprint hold the same when both slots are theirs. -/
theorem Exchanged.restored (h : Exchanged cf after t b v) (ht : Home v t) (hb : Home v b) :
    after.homeSlots v = cf.homeSlots v := by
  apply Multiset.ext.mpr
  intro u
  have h1 := h (index1 size v) u
  have h2 := h (index2 size v) u
  rw [count_homeSlots, count_homeSlots]
  rcases ht with rfl | rfl <;> rcases hb with rfl | rfl
  · omega
  · simp only [true_and, eq_comm (a := index2 size v)] at h1 h2
    omega
  · simp only [true_and, eq_comm (a := index2 size v)] at h1 h2
    omega
  · omega

omit [NeZero size] in
theorem Exchanged.slotCount_eq (h : Exchanged cf after t b v) {u : UInt64} (hu : u ≠ 0) (hv : u ≠ v) (j : Fin size) :
    after.slotCount j u = cf.slotCount j u := by
  have hj := h j u
  simp only [hu.symm, hv.symm, and_false, if_false] at hj
  exact hj

theorem Exchanged.keepsEmpty (h : Exchanged cf after t b v) (hv : v ≠ 0) (ht : 1 ≤ cf.slotCount t 0) :
    (1 ≤ after.slotCount (index1 size 0) 0 ↔ 1 ≤ cf.slotCount (index1 size 0) 0) ↔ cf.KeepsEmpty t b := by
  have hj := h (index1 size 0) 0
  simp only [hv, and_false, if_false, and_true, Nat.add_zero] at hj
  unfold KeepsEmpty
  by_cases hbt : b = t
  · subst hbt
    simp only [true_or, iff_true]
    omega
  · by_cases htz : t = index1 size 0
    · have hbz : ¬ index1 size 0 = b := fun heq => hbt (heq.symm.trans htz.symm)
      subst htz
      rw [if_pos rfl, if_neg hbz] at hj
      simp only [hbt, false_or, true_imp_iff, false_imp_iff, and_true]
      omega
    · rw [if_neg (Ne.symm htz)] at hj
      by_cases hbz : b = index1 size 0
      · subst hbz
        rw [if_pos rfl] at hj
        simp only [hbt, htz, false_or, true_imp_iff, false_imp_iff, true_and]
        omega
      · rw [if_neg (Ne.symm hbz)] at hj
        simp only [htz, hbz, false_imp_iff, and_true, or_true, iff_true]
        omega

theorem mem_homeSlots_zero {cf : CuckooFilter size} : 0 ∈ cf.homeSlots 0 ↔ 1 ≤ cf.slotCount (index1 size 0) 0 := by
  rw [← count_pos, count_homeSlots, index2_zero]
  omega

theorem Exchanged.lookups (h : Exchanged cf after t b v) (ht : Home v t) (hb : Home v b) (hkeeps : cf.KeepsEmpty t b)
    (hv : v ≠ 0) (hempty : 1 ≤ cf.slotCount t 0) (w : UInt64) : after.lookup w = cf.lookup w := by
  rw [Bool.eq_iff_iff, lookup_iff, lookup_iff]
  by_cases hw : alignToPage w = v
  · rw [hw, h.restored ht hb]
  · by_cases hz : alignToPage w = 0
    · rw [hz, mem_homeSlots_zero, mem_homeSlots_zero]
      exact (h.keepsEmpty hv hempty).mpr hkeeps
    · rw [← count_pos, ← count_pos, count_homeSlots, count_homeSlots, h.slotCount_eq hz hw, h.slotCount_eq hz hw]

end

/-- **When a deletion undoes an insertion.** After an insertion of a non-zero page that found an empty slot in one of its two
buckets, the deletion of the same address reports success and undoes it if and only if the bucket where `Delete` finds the
page number is one of these two and page number 0 looks up as before. -/
theorem delete_undoes_iff {cf : CuckooFilter size} {vaddr : UInt64} (hroom : cf.HasRoom vaddr) (hpage : alignToPage vaddr ≠ 0)
    (rand : Nat → Fin bucketSize) : ((cf.insert vaddr rand).2.delete vaddr).1 = true ∧
      Undone cf (cf.insert vaddr rand).2 ((cf.insert vaddr rand).2.delete vaddr).2 vaddr ↔ cf.Undoable vaddr := by
  obtain ⟨i, hi, hinsert⟩ := insert_eq hroom rand
  have hempty : 1 ≤ cf.slotCount (cf.target vaddr) 0 := count_pos.mpr (Bucket.mem_slots.mpr ⟨i, hi⟩)
  have htarget := home_target cf vaddr
  rw [hinsert]
  dsimp only
  rcases delete_cases (cf.setSlot (cf.target vaddr) i (alignToPage vaddr)) vaddr with
    ⟨b, i', hi', hb, hdelete⟩ | ⟨hnot1, hnot2, hdelete⟩
  · have hex := exchanged hi hi'
    have hsearched : cf.Searched vaddr b := by
      refine ⟨(takes_iff hi hpage).mp (Bucket.mem_slots.mpr ⟨i', hi'⟩), ?_⟩
      rw [takes_iff hi hpage] at hb
      exact hb
    have htable := table_setSlot_zero hi' hpage
    rw [hdelete]
    constructor
    · rintro ⟨-, ⟨index, hhome, heq⟩, -, hlookups⟩
      -- the entry taken out is the one in `b`
      have hpair := Multiset.cons_inj_left _ |>.mp (heq.symm.trans htable)
      obtain rfl : index = b := congrArg Prod.fst hpair
      refine ⟨index, hsearched, hhome, (hex.keepsEmpty hpage hempty).mp ?_⟩
      have hzero := hlookups 0 (by rintro rfl; exact hpage rfl)
      rw [Bool.eq_iff_iff, lookup_iff, lookup_iff] at hzero
      rw [← mem_homeSlots_zero, ← mem_homeSlots_zero]
      exact hzero
    · rintro ⟨b', hsearched', hhome, hkeeps⟩
      obtain rfl := hsearched'.unique hsearched
      exact ⟨rfl, ⟨b', hhome, htable⟩, hex.restored htarget hhome, fun w _ => hex.lookups htarget hhome hkeeps hpage hempty w⟩
  · rw [takes_iff hi hpage] at hnot1 hnot2
    rw [hdelete]
    constructor
    · rintro ⟨hfalse, -⟩
      cases hfalse
    · rintro ⟨b, ⟨htakes, rfl | ⟨rfl, -⟩⟩, -⟩
      · exact absurd htakes hnot1
      · exact absurd htakes hnot2

/-- Page `0x100` and its address have the same first bucket. -/
theorem delete_undoes_iff_aligned :
    (((({} : CuckooFilter 256).insert 0x100000 fun _ => 0).2).delete 0x100000).1 = true ∧
      Undone {} (({} : CuckooFilter 256).insert 0x100000 fun _ => 0).2
        (((({} : CuckooFilter 256).insert 0x100000 fun _ => 0).2).delete 0x100000).2 0x100000 :=
  (delete_undoes_iff ⟨_, .inl rfl, 0, rfl⟩ (by decide) fun _ => 0).mpr
    ⟨0, ⟨.inl (by decide), .inl (by decide)⟩, .inl (by decide), .inl (by decide)⟩

/-- Page 1 is put in bucket 1, and looked for in the buckets 0 and 155. -/
theorem page_stays : ({} : CuckooFilter 256).HasRoom 0x1000 ∧ alignToPage 0x1000 ≠ 0 ∧
    ¬ ((((({} : CuckooFilter 256).insert 0x1000 fun _ => 0).2).delete 0x1000).1 = true ∧
      Undone {} (({} : CuckooFilter 256).insert 0x1000 fun _ => 0).2
        (((({} : CuckooFilter 256).insert 0x1000 fun _ => 0).2).delete 0x1000).2 0x1000) :=
  ⟨⟨_, .inl rfl, 0, rfl⟩, by decide, fun h => absurd h.1 (by decide)⟩

end CuckooFilter

end Akita.Vm.TlbGmmu
