import Akita.Fingerprints
import Akita.Multisets
import Akita.Returns

/-!
# The cuckoo filter of the cuckoo filter TLB

`CuckooFilter` of `mem/vm/tlb_cf/cuckooFilter.go`. `sum64` is what `hash/fnv` computes of the bytes written, any function
here. `coin` and `pick` are the random choices of `replaceRandom`.

* `Reaches sum64 G cf live` : the filter after insertions and deletions, with the keys inserted and not deleted since;
* `kept_of_reaches` : no false negatives in a run whose insertions all find room in one of their two buckets.
-/

namespace Akita.Vm.TlbCf
open List

abbrev bucketSize : Nat := 4

abbrev numBuckets : Nat := 256

structure CuckooFilter where
  buckets : Fin numBuckets → List UInt64 := fun _ => []

/-- `fnv.New64`. -/
def fnv (bytes : List UInt8) : UInt64 :=
  bytes.foldl (fun h b => (h * 1099511628211) ^^^ b.toUInt64) 14695981039346656037

section keys

variable (sum64 : List UInt8 → UInt64)

/-- `hash`: of the four low bytes. -/
def hash (data : UInt64) : UInt64 :=
  sum64 [data.toUInt8, (data >>> 8).toUInt8, (data >>> 16).toUInt8, (data >>> 24).toUInt8]

def fingerprint (data : UInt64) : UInt64 := if hash sum64 data = 0 then 1 else hash sum64 data

/-- The first result of `getBucketIndices`. -/
def index1 (data : UInt64) : Fin numBuckets := Fin.ofNat numBuckets (hash sum64 data).toNat

/-- The second result of `getBucketIndices`. -/
def index2 (data : UInt64) : Fin numBuckets :=
  Fin.ofNat numBuckets ((index1 sum64 data).val ^^^ (fingerprint sum64 data).toNat % numBuckets)

end keys

namespace CuckooFilter

def setBucket (cf : CuckooFilter) (i : Fin numBuckets) (bucket : List UInt64) : CuckooFilter :=
  { buckets := Function.update cf.buckets i bucket }

/-- `insertIntoBucket`, `none` when the bucket is full. -/
def insertIntoBucket (cf : CuckooFilter) (i : Fin numBuckets) (fp : UInt64) : Option CuckooFilter :=
  if (cf.buckets i).length < bucketSize then some (cf.setBucket i (cf.buckets i ++ [fp])) else none

/-- `removeFromBucket`, `none` when the bucket does not hold the fingerprint. -/
def removeFromBucket (cf : CuckooFilter) (i : Fin numBuckets) (fp : UInt64) : Option CuckooFilter :=
  if fp ∈ cf.buckets i then some (cf.setBucket i ((cf.buckets i).erase fp)) else none

def evictLastElement (cf : CuckooFilter) (i : Fin numBuckets) : Except String (UInt64 × CuckooFilter) :=
  match (cf.buckets i).getLast? with
  | some fp => .ok (fp, cf.setBucket i (cf.buckets i).dropLast)
  | none => .error "runtime error: index out of range [-1]"

def replaceRandom (cf : CuckooFilter) (i1 i2 : Fin numBuckets) (newFp : UInt64) (coin : Bool) (pick : Nat) :
    Option CuckooFilter :=
  let selected := if coin then i2 else i1
  let bucket := cf.buckets selected
  if bucket.length > 0 then some (cf.setBucket selected (bucket.set (pick % bucket.length) newFp)) else none

variable (sum64 : List UInt8 → UInt64)

def lookup (cf : CuckooFilter) (data : UInt64) : Bool :=
  (cf.buckets (index1 sum64 data)).contains (fingerprint sum64 data) ||
    (cf.buckets (index2 sum64 data)).contains (fingerprint sum64 data)

def delete (cf : CuckooFilter) (data : UInt64) : Bool × CuckooFilter :=
  match cf.removeFromBucket (index1 sum64 data) (fingerprint sum64 data) with
  | some cf => (true, cf)
  | none =>
    match cf.removeFromBucket (index2 sum64 data) (fingerprint sum64 data) with
    | some cf => (true, cf)
    | none => (false, cf)

/-- The evictions of `Insert`, when both buckets are full. -/
def displace (cf : CuckooFilter) (i1 i2 : Fin numBuckets) (fp : UInt64) (coin : Bool) (pick : Nat) :
    Except String (Bool × CuckooFilter) := do
  let removed ← cf.evictLastElement i1
  match removed.2.insertIntoBucket i2 removed.1 with
  | some cf => return (true, cf)
  | none =>
    let removed2 ← removed.2.evictLastElement i2
    match removed2.2.insertIntoBucket i1 removed2.1 with
    | some cf => return (true, cf)
    | none =>
      match removed2.2.replaceRandom i1 i2 fp coin pick with
      | some cf => return (true, cf)
      | none => return (false, removed2.2)

/-- `Insert`, `true` when it returns no error. -/
def insert (cf : CuckooFilter) (data : UInt64) (coin : Bool) (pick : Nat) : Except String (Bool × CuckooFilter) :=
  let fp := fingerprint sum64 data
  match cf.insertIntoBucket (index1 sum64 data) fp with
  | some cf => .ok (true, cf)
  | none =>
    match cf.insertIntoBucket (index2 sum64 data) fp with
    | some cf => .ok (true, cf)
    | none => cf.displace (index1 sum64 data) (index2 sum64 data) fp coin pick

/-! ## What the filter holds -/

/-- The two buckets of a fingerprint. The second of a key is its first one combined with the fingerprint, which are the same
number modulo the number of buckets unless the key hashes to zero. -/
def Home (fp : UInt64) (i : Fin numBuckets) : Prop := i = Fin.ofNat numBuckets fp.toNat ∨ i = 0

variable {i : Fin numBuckets} {data : UInt64}

theorem home_fingerprint :
    Home (fingerprint sum64 data) i ↔ i = index1 sum64 data ∨ i = index2 sum64 data := by
  by_cases h : hash sum64 data = 0
  · have h1 : index1 sum64 data = 0 := by simp [index1, h]
    have h2 : index2 sum64 data = 1 := by simp [index2, h1, fingerprint, h, Fin.ext_iff]
    rw [h1, h2, Home, fingerprint, if_pos h, or_comm]
    rfl
  · have h2 : index2 sum64 data = 0 := by simp [index2, index1, fingerprint, h]
    rw [h2, Home, fingerprint, if_neg h]
    rfl

/-- Every fingerprint with the bucket it is in. -/
def table (cf : CuckooFilter) : Multiset (Fin numBuckets × UInt64) := entries fun i => ↑(cf.buckets i)

/-- One of the two buckets of the key has room. -/
def HasRoom (cf : CuckooFilter) (data : UInt64) : Prop :=
  ∃ i, (i = index1 sum64 data ∨ i = index2 sum64 data) ∧ (cf.buckets i).length < bucketSize

/-- No bucket holds more than `bucketSize` fingerprints. -/
def Bounded (cf : CuckooFilter) : Prop := ∀ i, (cf.buckets i).length ≤ bucketSize

variable {sum64}

@[simp] theorem setBucket_self (cf : CuckooFilter) (i : Fin numBuckets) (bucket : List UInt64) :
    (cf.setBucket i bucket).buckets i = bucket := by
  simp [setBucket]

theorem setBucket_ne (cf : CuckooFilter) {i j : Fin numBuckets} (h : j ≠ i) (bucket : List UInt64) :
    (cf.setBucket i bucket).buckets j = cf.buckets j :=
  Function.update_of_ne h _ _

theorem table_new : table {} = 0 := entries_empty

variable {cf : CuckooFilter} {fp : UInt64}

theorem mem_table : (i, fp) ∈ cf.table ↔ fp ∈ cf.buckets i := by
  rw [table, mem_entries, Multiset.mem_coe]

theorem table_insertIntoBucket {cf cf' : CuckooFilter} (h : cf.insertIntoBucket i fp = some cf') :
    cf'.table = (i, fp) ::ₘ cf.table := by
  unfold insertIntoBucket at h
  split at h
  · cases h
    apply entries_cons
    · rw [setBucket_self, coe_concat]
    · intro j hj
      rw [setBucket_ne cf hj]
  · cases h

theorem table_removeFromBucket {cf cf' : CuckooFilter} (h : cf.removeFromBucket i fp = some cf') :
    cf.table = (i, fp) ::ₘ cf'.table := by
  unfold removeFromBucket at h
  split at h
  next hmem =>
    cases h
    apply entries_cons
    · rw [setBucket_self, ← Multiset.coe_erase, Multiset.cons_erase (Multiset.mem_coe.mpr hmem)]
    · intro j hj
      rw [setBucket_ne cf hj]
  next => cases h

theorem removeFromBucket_eq_none :
    cf.removeFromBucket i fp = none ↔ fp ∉ cf.buckets i := by
  simp [removeFromBucket]

/-! ## The bound on the buckets -/

theorem Bounded.setBucket (h : cf.Bounded) {bucket : List UInt64}
    (hlen : bucket.length ≤ bucketSize) : (cf.setBucket i bucket).Bounded := by
  intro j
  by_cases hj : j = i
  · subst hj
    rw [setBucket_self]
    exact hlen
  · rw [setBucket_ne cf hj]
    exact h j

theorem Bounded.insertIntoBucket {cf cf' : CuckooFilter} (h : cf.Bounded)
    (hins : cf.insertIntoBucket i fp = some cf') : cf'.Bounded := by
  unfold CuckooFilter.insertIntoBucket at hins
  split at hins
  next hlt =>
    cases hins
    apply h.setBucket
    rw [length_append, length_singleton]
    omega
  next => cases hins

theorem Bounded.removeFromBucket {cf cf' : CuckooFilter} (h : cf.Bounded)
    (hrem : cf.removeFromBucket i fp = some cf') : cf'.Bounded := by
  unfold CuckooFilter.removeFromBucket at hrem
  split at hrem
  · cases hrem
    exact h.setBucket (le_trans length_erase_le (h i))
  · cases hrem

theorem Bounded.evictLastElement (h : cf.Bounded) (i : Fin numBuckets) :
    Returns (fun r => r.2.Bounded) (cf.evictLastElement i) := by
  unfold CuckooFilter.evictLastElement
  split
  · apply Returns.ok
    apply h.setBucket
    rw [length_dropLast]
    have := h i
    omega
  · exact Returns.error _

theorem Bounded.replaceRandom {cf cf' : CuckooFilter} (h : cf.Bounded) {i1 i2 : Fin numBuckets} {coin : Bool} {pick : Nat}
    (hrep : cf.replaceRandom i1 i2 fp coin pick = some cf') : cf'.Bounded := by
  simp only [CuckooFilter.replaceRandom, Option.ite_none_right_eq_some, Option.some.injEq] at hrep
  obtain ⟨-, rfl⟩ := hrep
  apply h.setBucket
  rw [length_set]
  exact h _

theorem Bounded.displace (h : cf.Bounded) (i1 i2 : Fin numBuckets) (fp : UInt64) (coin : Bool) (pick : Nat) :
    Returns (fun r => r.2.Bounded) (cf.displace i1 i2 fp coin pick) := by
  apply Returns.bind
  intro removed hremoved
  have h1 := h.evictLastElement i1 removed hremoved
  split
  next hins => exact Returns.ok (h1.insertIntoBucket hins)
  next =>
    apply Returns.bind
    intro removed2 hremoved2
    have h2 := h1.evictLastElement i2 removed2 hremoved2
    split
    next hins => exact Returns.ok (h2.insertIntoBucket hins)
    next =>
      split
      next hrep => exact Returns.ok (h2.replaceRandom hrep)
      next => exact Returns.ok h2

theorem Bounded.insert (h : cf.Bounded) (data : UInt64) (coin : Bool) (pick : Nat) :
    Returns (fun r => r.2.Bounded) (cf.insert sum64 data coin pick) := by
  simp only [CuckooFilter.insert]
  split
  next hins => exact Returns.ok (h.insertIntoBucket hins)
  next =>
    split
    next hins => exact Returns.ok (h.insertIntoBucket hins)
    next => exact h.displace _ _ _ coin pick

theorem Bounded.delete (h : cf.Bounded) (data : UInt64) : (cf.delete sum64 data).2.Bounded := by
  unfold CuckooFilter.delete
  split
  next hrem => exact h.removeFromBucket hrem
  next =>
    split
    next hrem => exact h.removeFromBucket hrem
    next => exact h

/-- `Insert` does not panic: a bucket that evicts is full, or has just lost one of its four. -/
theorem insert_ok (cf : CuckooFilter) (data : UInt64) (coin : Bool) (pick : Nat) :
    ∃ r, cf.insert sum64 data coin pick = .ok r := by
  have hevict : ∀ (cf : CuckooFilter) (i : Fin numBuckets), cf.buckets i ≠ [] →
      ∃ fp, cf.evictLastElement i = .ok (fp, cf.setBucket i (cf.buckets i).dropLast) := by
    intro cf i hne
    unfold evictLastElement
    rw [getLast?_eq_getLast_of_ne_nil hne]
    exact ⟨_, rfl⟩
  unfold insert
  dsimp only
  split
  · exact ⟨_, rfl⟩
  split
  · exact ⟨_, rfl⟩
  next h1 _ h2 =>
    simp only [insertIntoBucket, ite_eq_right_iff, reduceCtorEq, imp_false, not_lt] at h1 h2
    have hsize : bucketSize = 4 := rfl
    obtain ⟨_, hfp⟩ := hevict cf (index1 sum64 data) (by
      intro hnil
      rw [hnil] at h1
      exact absurd h1 (by decide))
    unfold displace
    simp only [hfp, bind, Except.bind]
    split
    · exact ⟨_, rfl⟩
    · obtain ⟨_, hfp2⟩ := hevict (cf.setBucket (index1 sum64 data) (cf.buckets (index1 sum64 data)).dropLast)
        (index2 sum64 data) (by
        apply ne_nil_of_length_pos
        by_cases heq : index2 sum64 data = index1 sum64 data
        · rw [heq, setBucket_self, length_dropLast]
          omega
        · rw [setBucket_ne cf heq]
          omega)
      simp only [hfp2]
      split
      · exact ⟨_, rfl⟩
      · split <;> exact ⟨_, rfl⟩

/-! ## Insertion with room, deletion -/

/-- An insertion that finds room puts the fingerprint in one of its two buckets. -/
theorem insert_of_hasRoom (h : cf.HasRoom sum64 data) (coin : Bool) (pick : Nat) :
    ∃ cf' i, cf.insert sum64 data coin pick = .ok (true, cf') ∧ Home (fingerprint sum64 data) i ∧
      cf'.table = (i, fingerprint sum64 data) ::ₘ cf.table := by
  cases h1 : cf.insertIntoBucket (index1 sum64 data) (fingerprint sum64 data) with
  | some cf' => exact ⟨cf', _, by simp only [insert, h1], (home_fingerprint sum64).mpr (.inl rfl), table_insertIntoBucket h1⟩
  | none =>
    cases h2 : cf.insertIntoBucket (index2 sum64 data) (fingerprint sum64 data) with
    | some cf' =>
      exact ⟨cf', _, by simp only [insert, h1, h2], (home_fingerprint sum64).mpr (.inr rfl), table_insertIntoBucket h2⟩
    | none =>
      -- both buckets are full
      simp only [insertIntoBucket, ite_eq_right_iff, reduceCtorEq, imp_false] at h1 h2
      obtain ⟨_, rfl | rfl, hlt⟩ := h
      · exact absurd hlt h1
      · exact absurd hlt h2

theorem lookup_eq_true :
    cf.lookup sum64 data = true ↔ ∃ i, Home (fingerprint sum64 data) i ∧ (i, fingerprint sum64 data) ∈ cf.table := by
  simp only [lookup, Bool.or_eq_true, contains_iff_mem, home_fingerprint, mem_table]
  constructor
  · rintro (h | h)
    · exact ⟨_, .inl rfl, h⟩
    · exact ⟨_, .inr rfl, h⟩
  · rintro ⟨i, rfl | rfl, h⟩
    · exact .inl h
    · exact .inr h

/-- A key that is found can be deleted, which takes one copy of its fingerprint out of one of its two buckets. -/
theorem delete_of_lookup (h : cf.lookup sum64 data = true) :
    (cf.delete sum64 data).1 = true ∧ ∃ i, cf.table = (i, fingerprint sum64 data) ::ₘ (cf.delete sum64 data).2.table := by
  cases h1 : cf.removeFromBucket (index1 sum64 data) (fingerprint sum64 data) with
  | some =>
    simp only [delete, h1]
    exact ⟨trivial, _, table_removeFromBucket h1⟩
  | none =>
    cases h2 : cf.removeFromBucket (index2 sum64 data) (fingerprint sum64 data) with
    | some =>
      simp only [delete, h1, h2]
      exact ⟨trivial, _, table_removeFromBucket h2⟩
    | none =>
      rw [removeFromBucket_eq_none] at h1 h2
      obtain ⟨_, hhome, hmem⟩ := lookup_eq_true.mp h
      rw [home_fingerprint] at hhome
      rw [mem_table] at hmem
      rcases hhome with rfl | rfl
      · exact absurd hmem h1
      · exact absurd hmem h2

/-! ## Runs -/

/-- The filters reached by insertions and by deletions of keys inserted more often than deleted; `live` are the keys whose
insertion reported success and that have not been deleted since. `G` is what is assumed of the filter before each
insertion. -/
inductive Reaches (sum64 : List UInt8 → UInt64) (G : CuckooFilter → UInt64 → Prop) : CuckooFilter → Multiset UInt64 → Prop
  | new : Reaches sum64 G {} 0
  | insert {cf cf' : CuckooFilter} {live : Multiset UInt64} {ok : Bool} (data : UInt64) (coin : Bool) (pick : Nat)
      (h : Reaches sum64 G cf live) (hG : G cf data) (hins : cf.insert sum64 data coin pick = .ok (ok, cf')) :
      Reaches sum64 G cf' (if ok then data ::ₘ live else live)
  | delete {cf : CuckooFilter} {live : Multiset UInt64} (data : UInt64) (h : Reaches sum64 G cf live) (hlive : data ∈ live) :
      Reaches sum64 G (cf.delete sum64 data).2 (live.erase data)

variable {live : Multiset UInt64}

theorem bounded_of_reaches {G : CuckooFilter → UInt64 → Prop} (h : Reaches sum64 G cf live) :
    cf.Bounded := by
  induction h with
  | new => exact fun _ => Nat.zero_le _
  | insert data coin pick _ _ hins ih => exact ih.insert data coin pick _ hins
  | delete data _ _ ih => exact ih.delete data

/-- While every insertion finds room, the filter holds the fingerprints of the live keys, each in one of its two buckets. -/
theorem mirrors_of_reaches (h : Reaches sum64 (HasRoom sum64) cf live) :
    Mirrors Home cf.table (live.map (fingerprint sum64)) := by
  induction h with
  | new =>
    rw [table_new, Multiset.map_zero]
    exact Mirrors.empty
  | insert _ coin pick _ hroom hins ih =>
    obtain ⟨_, i, hok, hhome, htable⟩ := insert_of_hasRoom hroom coin pick
    rw [hok, Except.ok.injEq, Prod.mk.injEq] at hins
    obtain ⟨rfl, rfl⟩ := hins
    rw [if_pos rfl, Multiset.map_cons, htable]
    exact ih.insert hhome
  | delete _ _ hlive ih =>
    have hfound := lookup_eq_true.mpr (ih.exists_home (Multiset.mem_map_of_mem (fingerprint sum64) hlive))
    obtain ⟨-, _, htable⟩ := delete_of_lookup hfound
    rw [Multiset.map_erase_of_mem _ _ hlive]
    exact ih.delete htable

/-- **No false negatives.** In every run whose insertions find room in one of the two buckets of their key, each live key is
found and can be deleted; and no bucket ever holds more than `bucketSize` fingerprints. -/
theorem kept_of_reaches {cf : CuckooFilter} {live : Multiset UInt64} (h : Reaches sum64 (HasRoom sum64) cf live) :
    (∀ data ∈ live, cf.lookup sum64 data = true ∧ (cf.delete sum64 data).1 = true) ∧ cf.Bounded := by
  refine ⟨fun data hdata => ?_, bounded_of_reaches h⟩
  have hfound : cf.lookup sum64 data = true :=
    lookup_eq_true.mpr ((mirrors_of_reaches h).exists_home (Multiset.mem_map_of_mem (fingerprint sum64) hdata))
  exact ⟨hfound, (delete_of_lookup hfound).1⟩

/-- The filter after inserting the keys, `false` and 0 chosen, and what `Insert` has answered. -/
def insertAll (sum64 : List UInt8 → UInt64) : List UInt64 → CuckooFilter → Except String (List Bool × CuckooFilter)
  | [], cf => .ok ([], cf)
  | data :: datas, cf => do
    let r ← cf.insert sum64 data false 0
    let s ← insertAll sum64 datas r.2
    return (r.1 :: s.1, s.2)

theorem reaches_insertAll {datas : List UInt64} {cf cf' : CuckooFilter} {oks : List Bool}
    (h : Reaches sum64 (fun _ _ => True) cf live) (hins : insertAll sum64 datas cf = .ok (oks, cf'))
    (hoks : ∀ ok ∈ oks, ok = true) : Reaches sum64 (fun _ _ => True) cf' (↑datas + live) := by
  induction datas generalizing cf live oks with
  | nil =>
    cases hins
    rw [Multiset.coe_nil, zero_add]
    exact h
  | cons data datas ih =>
    simp only [insertAll] at hins
    cases hr : cf.insert sum64 data false 0 with
    | error => simp [hr, bind, Except.bind] at hins
    | ok r =>
      cases hs : insertAll sum64 datas r.2 with
      | error => simp [hr, hs, bind, Except.bind] at hins
      | ok =>
        simp only [hr, hs, bind, Except.bind, pure, Except.pure, Except.ok.injEq, Prod.mk.injEq] at hins
        obtain ⟨rfl, rfl⟩ := hins
        have hdata := h.insert data false 0 trivial hr
        rw [if_pos (hoks _ mem_cons_self)] at hdata
        have hall := ih hdata hs fun ok hok => hoks ok (mem_cons_of_mem _ hok)
        rwa [← Multiset.cons_coe, Multiset.cons_add, ← Multiset.add_cons]

/-- Page addresses that FNV sends to bucket 2. -/
def crowd : List UInt64 := [0x14000, 0x111000, 0x21a000, 0x317000, 0x410000, 0x51d000, 0x616000, 0x713000, 0x81c000]

/-- The ninth insertion reports success, drops the fourth key and does not store its own. -/
theorem displaced : ∃ cf, Reaches fnv (fun _ _ => True) cf ↑crowd ∧
    0x317000 ∈ crowd ∧ cf.lookup fnv 0x317000 = false ∧ 0x81c000 ∈ crowd ∧ cf.lookup fnv 0x81c000 = false := by
  have hrun : (insertAll fnv crowd {}).toOption.any (fun r =>
      r.1.all id && !r.2.lookup fnv 0x317000 && !r.2.lookup fnv 0x81c000) = true := by
    decide +kernel
  cases hins : insertAll fnv crowd {} with
  | error => simp [hins, Except.toOption] at hrun
  | ok r =>
    simp only [hins, Except.toOption, Option.any_some, Bool.and_eq_true, Bool.not_eq_true', all_eq_true, id_eq] at hrun
    obtain ⟨⟨hoks, h3⟩, h8⟩ := hrun
    have h := reaches_insertAll .new hins hoks
    rw [add_zero] at h
    exact ⟨r.2, h, by decide, h3, by decide, h8⟩

/-- Three keys are inserted and one of them is deleted. -/
theorem kept_of_reaches_three : ∃ cf, (insertAll fnv (crowd.take 3) {}).map (fun r => (r.2.delete fnv 0x111000).2) = .ok cf ∧
    cf.lookup fnv 0x14000 = true ∧ cf.lookup fnv 0x21a000 = true := by
  have hfirst : Reaches fnv (HasRoom fnv) _ _ :=
    .insert 0x14000 false 0 .new ⟨_, .inl rfl, by decide⟩ (rfl : _ = Except.ok (true, _))
  have hsecond := hfirst.insert 0x111000 false 0 ⟨_, .inl rfl, by decide⟩ (rfl : _ = Except.ok (true, _))
  have hthird := hsecond.insert 0x21a000 false 0 ⟨_, .inl rfl, by decide⟩ (rfl : _ = Except.ok (true, _))
  have h := (kept_of_reaches (.delete 0x111000 hthird (by decide))).1
  exact ⟨_, rfl, (h 0x14000 (by decide)).1, (h 0x21a000 (by decide)).1⟩

end CuckooFilter

end Akita.Vm.TlbCf
