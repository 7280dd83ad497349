import Akita.Mem.Storage
import Mathlib.Data.List.GetD

/-!
# Storage units

`mem.Storage` as the code has it: a map from unit addresses to units of `unitSize` bytes, made when they are first visited.

* `Storage.byte s a` : the byte at address `a`, 0 where there is no unit yet;
* `Represents s m` : the flat array `m` holds the bytes of `s` (`read_flat`, `write_flat`);
* `run_flat` : a run of reads and writes inside the capacity.
-/

namespace Akita.Mem.Units
open List
open UInt64 (le_iff_toNat_le lt_iff_toNat_lt not_lt ofNat toNat_add toNat_inj toNat_mod toNat_ofNat_of_lt' toNat_sub_of_le)
open Nat (div_add_mod mod_eq_of_lt mod_lt)

/-! ## Slices -/

/-- The check of `l[i:j]`. -/
def bounds (l : Bytes) (i j : UInt64) : Bool := i ≤ j && j.toNat ≤ l.length

def sliceError : String := "slice bounds out of range"

/-- `l[i:j]`. -/
def slice (l : Bytes) (i j : UInt64) : Except String Bytes :=
  if bounds l i j then .ok ((l.drop i.toNat).take (j.toNat - i.toNat)) else .error sliceError

/-- What `copy(l[i:j], src)` leaves in `l`. -/
def patch (l : Bytes) (i j : UInt64) (src : Bytes) : Bytes :=
  l.mapIdx fun k b => if i.toNat ≤ k ∧ k < j.toNat then src.getD (k - i.toNat) b else b

@[simp] theorem length_patch (l : Bytes) (i j : UInt64) (src : Bytes) : (patch l i j src).length = l.length := by
  simp [patch]

/-- `copy(l[i:j], src)`. -/
def copySlice (l : Bytes) (i j : UInt64) (src : Bytes) : Except String Bytes :=
  if bounds l i j then .ok (patch l i j src) else .error sliceError

theorem getD_patch (l : Bytes) (i j : UInt64) (src : Bytes) {k : Nat} (hk : k < l.length) :
    (patch l i j src).getD k 0 = if i.toNat ≤ k ∧ k < j.toNat then src.getD (k - i.toNat) (l.getD k 0) else l.getD k 0 := by
  simp [patch, getD_eq_getElem?_getD, getElem?_mapIdx, getElem?_eq_getElem hk]

theorem copySlice_ok {l src : Bytes} {i j : UInt64} (h : bounds l i j = true) : copySlice l i j src = .ok (patch l i j src) :=
  if_pos h

theorem take_patch {l src : Bytes} {i j : UInt64} (h : bounds l i j = true) (hsrc : i.toNat + src.length = j.toNat) :
    (patch l i j src).take j.toNat = l.take i.toNat ++ src := by
  obtain ⟨-, _⟩ : i ≤ j ∧ j.toNat ≤ l.length := by simpa [bounds] using h
  apply ext_getElem
  · simp only [length_take, length_patch, length_append]
    omega
  intro k h1 h2
  have hk : k < j.toNat := by
    rw [length_take] at h1
    omega
  simp only [getElem_take, patch, getElem_mapIdx, getElem_append, length_take]
  have hmin : min i.toNat l.length = i.toNat := by omega
  by_cases hi : k < i.toNat
  · simp [hi, hmin]
  · have hge : i.toNat ≤ k := by omega
    have hlt : k - i.toNat < src.length := by omega
    simp [hk, hi, hge, hmin, getD_eq_getElem?_getD, getElem?_eq_getElem hlt]

/-! ## The storage -/

/-- `storageUnit` holds `unitSize` bytes. -/
structure StorageUnit (unitSize : UInt64) where
  data : Bytes
  size : data.length = unitSize.toNat

def newStorageUnit (unitSize : UInt64) : StorageUnit unitSize where
  data := replicate unitSize.toNat 0
  size := length_replicate

/-- `copy(unit.data[i:j], src)`. -/
def StorageUnit.copySlice {n : UInt64} (u : StorageUnit n) (i j : UInt64) (src : Bytes) : Except String (StorageUnit n) :=
  if bounds u.data i j then .ok ⟨patch u.data i j src, by rw [length_patch, u.size]⟩ else .error sliceError

structure Storage (unitSize : UInt64) where
  capacity : UInt64
  data : UInt64 → Option (StorageUnit unitSize)

/-- A reply and the storage after it. The reply is an error value or the text of a panic. -/
abbrev Result (n : UInt64) (α : Type) := Except String α × Storage n

variable {n : UInt64}

def newStorageWithUnitSize (n capacity : UInt64) : Storage n := { capacity, data := fun _ => none }

def newStorage (capacity : UInt64) : Storage 4096 := newStorageWithUnitSize 4096 capacity

namespace Storage

def setUnit (s : Storage n) (baseAddr : UInt64) (u : StorageUnit n) : Storage n :=
  { s with data := fun b => if b = baseAddr then some u else s.data b }

/-- `parseAddress`, for a unit size that is not 0. -/
def parseAddress (_s : Storage n) (addr : UInt64) : UInt64 × UInt64 :=
  let inUnitAddr := addr % n
  (addr - inUnitAddr, inUnitAddr)

def createOrGetStorageUnit (s : Storage n) (address : UInt64) : Result n (StorageUnit n) :=
  if s.capacity < address then (.error "accessing physical address beyond the storage capacity", s)
  else if n = 0 then (.error "integer divide by zero", s)
  else
    let baseAddr := (s.parseAddress address).1
    match s.data baseAddr with
    | some unit => (.ok unit, s)
    | none => (.ok (newStorageUnit n), s.setUnit baseAddr (newStorageUnit n))

/-- The length of a chunk: `lenToRead` and `lenToWrite`. -/
def lenToCopy (lenLeft lenLeftInUnit : UInt64) : UInt64 := if lenLeft < lenLeftInUnit then lenLeft else lenLeftInUnit

/-- The loop of `Read`, `none` when the fuel runs out. -/
def readLoop (stop : UInt64) : Nat → Storage n → UInt64 → UInt64 → UInt64 → Bytes → Option (Result n Bytes)
  | 0, _, _, _, _, _ => none
  | fuel + 1, s, currAddr, lenLeft, dataOffset, res =>
    if currAddr < stop then
      match s.createOrGetStorageUnit currAddr with
      | (.error e, s) => some (.error e, s)
      | (.ok unit, s) =>
        let inUnitAddr := (s.parseAddress currAddr).2
        let lenLeftInUnit := (s.parseAddress currAddr).1 + n - currAddr
        let lenToRead := lenToCopy lenLeft lenLeftInUnit
        match slice unit.data inUnitAddr (inUnitAddr + lenToRead) with
        | .error e => some (.error e, s)
        | .ok src =>
          match Units.copySlice res dataOffset (dataOffset + lenToRead) src with
          | .error e => some (.error e, s)
          | .ok res => readLoop stop fuel s (currAddr + lenToRead) (lenLeft - lenToRead) (dataOffset + lenToRead) res
    else some (.ok res, s)

def read (fuel : Nat) (s : Storage n) (address len : UInt64) : Option (Result n Bytes) :=
  s.readLoop (address + len) fuel address len 0 (replicate len.toNat 0)

/-- The loop of `Write`, `none` when the fuel runs out. -/
def writeLoop (data : Bytes) : Nat → Storage n → UInt64 → UInt64 → Option (Result n Unit)
  | 0, _, _, _ => none
  | fuel + 1, s, currAddr, dataOffset =>
    if dataOffset < ofNat data.length then
      match s.createOrGetStorageUnit currAddr with
      | (.error e, s) => some (.error e, s)
      | (.ok unit, s) =>
        let inUnitAddr := (s.parseAddress currAddr).2
        let lenLeftInData := ofNat data.length - dataOffset
        let lenLeftInUnit := currAddr / n * n + n - currAddr
        let lenToWrite := lenToCopy lenLeftInData lenLeftInUnit
        match slice data dataOffset (dataOffset + lenToWrite) with
        | .error e => some (.error e, s)
        | .ok src =>
          match unit.copySlice inUnitAddr (inUnitAddr + lenToWrite) src with
          | .error e => some (.error e, s)
          | .ok unit =>
            writeLoop data fuel (s.setUnit (s.parseAddress currAddr).1 unit) (currAddr + lenToWrite) (dataOffset + lenToWrite)
    else some (.ok (), s)

def write (fuel : Nat) (s : Storage n) (address : UInt64) (data : Bytes) : Option (Result n Unit) :=
  s.writeLoop data fuel address 0

end Storage

/-! ## Address arithmetic -/

theorem toNat_mod_lt (hn : 0 < n) (a : UInt64) : (a % n).toNat < n.toNat := by
  rw [toNat_mod]
  exact mod_lt _ (by simpa [lt_iff_toNat_lt] using hn)

theorem toNat_base (a : UInt64) : (a - a % n).toNat = n.toNat * (a.toNat / n.toNat) := by
  have hle : a % n ≤ a := by
    rw [le_iff_toNat_le, toNat_mod]
    exact Nat.mod_le _ _
  rw [toNat_sub_of_le _ _ hle, toNat_mod]
  have := div_add_mod a.toNat n.toNat
  omega

theorem toNat_left (hn : 0 < n) (a : UInt64) : (a - a % n + n - a).toNat = n.toNat - a.toNat % n.toNat := by
  have hring : a - a % n + n - a = n - a % n := by
    generalize a % n = r
    grind
  have hle : a % n ≤ n := by
    rw [le_iff_toNat_le]
    exact (toNat_mod_lt hn a).le
  rw [hring, toNat_sub_of_le _ _ hle, toNat_mod]

theorem div_mul_eq_base (a : UInt64) : a / n * n = a - a % n := by
  apply toNat_inj.1
  have hle := Nat.div_mul_le_self a.toNat n.toNat
  have hlt := a.toNat_lt
  rw [toNat_base, UInt64.toNat_mul, UInt64.toNat_div, mod_eq_of_lt (by omega), Nat.mul_comm]

theorem mem_chunk {n c k a : Nat} (hn : 0 < n) (hk : c % n + k ≤ n) :
    (c ≤ a ∧ a < c + k) ↔ (n * (a / n) = n * (c / n) ∧ c % n ≤ a % n ∧ a % n < c % n + k) := by
  have hc := div_add_mod c n
  have ha := div_add_mod a n
  have hlt := mod_lt a hn
  constructor
  · rintro ⟨h1, h2⟩
    have hq : a / n = c / n := by
      apply Nat.div_eq_of_lt_le
      · rw [Nat.mul_comm]
        omega
      · rw [Nat.add_mul, Nat.mul_comm]
        omega
    rw [hq] at ha ⊢
    omega
  · rintro ⟨h1, h2, h3⟩
    omega

/-! ## The bytes of the storage -/

namespace Storage

def byte (s : Storage n) (a : UInt64) : UInt8 :=
  match s.data (s.parseAddress a).1 with
  | some unit => unit.data.getD (s.parseAddress a).2.toNat 0
  | none => 0

theorem byte_of_unit {s : Storage n} {a : UInt64} {u : StorageUnit n} (h : s.data (a - a % n) = some u) :
    s.byte a = u.data.getD (a % n).toNat 0 := by
  simp [byte, parseAddress, h]

theorem byte_of_none {s : Storage n} {a : UInt64} (h : s.data (a - a % n) = none) : s.byte a = 0 := by
  simp [byte, parseAddress, h]

theorem byte_congr {s t : Storage n} {a : UInt64} (h : s.data (a - a % n) = t.data (a - a % n)) : s.byte a = t.byte a := by
  simp only [byte, parseAddress, h]

theorem byte_newUnit {s : Storage n} {b : UInt64} (h : s.data b = none) (a : UInt64) :
    (s.setUnit b (newStorageUnit n)).byte a = s.byte a := by
  by_cases hb : a - a % n = b
  · subst hb
    have hunit : (s.setUnit (a - a % n) (newStorageUnit n)).data (a - a % n) = some (newStorageUnit n) := by simp [setUnit]
    rw [byte_of_none h, byte_of_unit hunit]
    simp only [newStorageUnit, getD_eq_getElem?_getD, getElem?_replicate]
    split <;> rfl
  · apply byte_congr
    simp [setUnit, hb]

theorem createOrGetStorageUnit_ok (hn : 0 < n) {s : Storage n} {a : UInt64} (ha : a ≤ s.capacity) :
    ∃ u s', s.createOrGetStorageUnit a = (.ok u, s') ∧ s'.capacity = s.capacity ∧ s'.data (a - a % n) = some u ∧
      ∀ x, s'.byte x = s.byte x := by
  have hcap : ¬ s.capacity < a := not_lt.2 ha
  have hzero : n ≠ 0 := by
    rintro rfl
    exact UInt64.lt_irrefl _ hn
  cases hu : s.data (a - a % n) with
  | some u => exact ⟨u, s, by simp [createOrGetStorageUnit, parseAddress, hcap, hzero, hu], rfl, hu, fun _ => rfl⟩
  | none =>
    refine ⟨newStorageUnit n, s.setUnit (a - a % n) (newStorageUnit n), ?_, rfl, by simp [setUnit], byte_newUnit hu⟩
    simp [createOrGetStorageUnit, parseAddress, hcap, hzero, hu]

end Storage

/-! ## The loops -/

theorem toNat_lenToCopy (left rest : UInt64) : (Storage.lenToCopy left rest).toNat = min left.toNat rest.toNat := by
  unfold Storage.lenToCopy
  split
  case isTrue h =>
    rw [lt_iff_toNat_lt] at h
    omega
  case isFalse h =>
    rw [lt_iff_toNat_lt] at h
    omega

namespace Storage

theorem bounds_unit {u : StorageUnit n} {c k : UInt64} (hk : c.toNat % n.toNat + k.toNat ≤ n.toNat) :
    (c % n + k).toNat = c.toNat % n.toNat + k.toNat ∧ bounds u.data (c % n) (c % n + k) = true := by
  have hlt := n.toNat_lt
  have hsum : (c % n + k).toNat = c.toNat % n.toNat + k.toNat := by
    rw [toNat_add, toNat_mod, mod_eq_of_lt (by omega)]
  refine ⟨hsum, ?_⟩
  simp only [bounds, le_iff_toNat_le, hsum, u.size, Bool.and_eq_true, decide_eq_true_eq, toNat_mod]
  omega

theorem slice_unit (hn : 0 < n) {s : Storage n} {u : StorageUnit n} {c k : UInt64} (hu : s.data (c - c % n) = some u)
    (hk : c.toNat % n.toNat + k.toNat ≤ n.toNat) (hc : c.toNat + k.toNat < 2 ^ 64) :
    slice u.data (c % n) (c % n + k) = .ok ((range k.toNat).map fun i => s.byte (c + ofNat i)) := by
  obtain ⟨hsum, hbounds⟩ := bounds_unit (u := u) hk
  rw [slice, if_pos hbounds, hsum]
  congr 1
  apply ext_getElem
  · simp only [length_take, length_drop, length_map, length_range, u.size, toNat_mod]
    omega
  intro i h1 h2
  have hi : i < k.toNat := by simpa using h2
  have haddr : (c + ofNat i).toNat = c.toNat + i := by
    have hsize : i < UInt64.size := by
      rw [UInt64.size]
      omega
    rw [toNat_add, toNat_ofNat_of_lt' hsize, mod_eq_of_lt (by omega)]
  -- the addresses of the chunk have the base address of `c`
  obtain ⟨hbase, _, _⟩ := (mem_chunk (show 0 < n.toNat by simpa [lt_iff_toNat_lt] using hn) hk).1
    (show c.toNat ≤ c.toNat + i ∧ c.toNat + i < c.toNat + k.toNat by omega)
  have hsame : c + ofNat i - (c + ofNat i) % n = c - c % n := by
    apply toNat_inj.1
    rw [toNat_base, toNat_base, haddr, hbase]
  have hin : (c.toNat + i) % n.toNat = c.toNat % n.toNat + i := by
    have h3 := div_add_mod (c.toNat + i) n.toNat
    have h4 := div_add_mod c.toNat n.toNat
    omega
  simp only [getElem_take, getElem_drop, getElem_map, getElem_range]
  rw [byte_of_unit (hsame ▸ hu), toNat_mod (c + ofNat i), haddr, hin, getD_eq_getElem?_getD,
    getElem?_eq_getElem (by rw [u.size]; omega), Option.getD_some]
  congr 2

theorem map_range_add (s : Storage n) (c k : UInt64) (m : Nat) :
    (range (k.toNat + m)).map (fun i => s.byte (c + ofNat i)) =
      (range k.toNat).map (fun i => s.byte (c + ofNat i)) ++
        (range m).map fun i => s.byte (c + k + ofNat i) := by
  rw [range_add, map_append, map_map]
  congr 1
  apply map_congr_left
  intro i _
  simp only [Function.comp, UInt64.ofNat_add, UInt64.ofNat_toNat, UInt64.add_assoc]

theorem readLoop_chunk (hn : 0 < n) {stop : UInt64} (fuel : Nat) {s : Storage n} {c left off : UInt64} {res : Bytes}
    (hc : 0 < left.toNat) (hstop : c.toNat + left.toNat = stop.toNat) (hres : off.toNat + left.toNat = res.length)
    (hlen : res.length < 2 ^ 64) (hcap : c ≤ s.capacity) :
    ∃ (k : UInt64) (s' : Storage n) (res' : Bytes), s.readLoop stop (fuel + 1) c left off res =
      s'.readLoop stop fuel (c + k) (left - k) (off + k) res' ∧
      k.toNat = min left.toNat (n.toNat - c.toNat % n.toNat) ∧ s'.capacity = s.capacity ∧ (∀ x, s'.byte x = s.byte x) ∧
      res'.length = res.length ∧
      res'.take (off + k).toNat = res.take off.toNat ++ (range k.toNat).map fun i => s.byte (c + ofNat i) := by
  have hstoplt := stop.toNat_lt
  have hlt : c < stop := lt_iff_toNat_lt.2 (by omega)
  rw [readLoop, if_pos hlt]
  obtain ⟨_, s₁, hget, hcap₁, hu, hbyte⟩ := createOrGetStorageUnit_ok hn hcap
  have hmod := toNat_mod_lt hn c
  simp only [hget, parseAddress]
  have hk := toNat_lenToCopy left (c - c % n + n - c)
  rw [toNat_left hn c] at hk
  generalize lenToCopy left (c - c % n + n - c) = k at hk ⊢
  rw [toNat_mod] at hmod
  have hoff : (off + k).toNat = off.toNat + k.toNat := by
    rw [toNat_add, mod_eq_of_lt (by omega)]
  have hbounds : bounds res off (off + k) = true := by
    simp only [bounds, le_iff_toNat_le, hoff, Bool.and_eq_true, decide_eq_true_eq]
    omega
  rw [slice_unit hn hu (by omega) (by omega)]
  simp only [copySlice_ok hbounds]
  refine ⟨k, s₁, _, rfl, hk, hcap₁, hbyte, length_patch .., ?_⟩
  rw [take_patch hbounds (by simp [hoff])]
  simp only [hbyte]

theorem readLoop_ok (hn : 0 < n) {stop : UInt64} (fuel : Nat) {s : Storage n} {c left off : UInt64} {res : Bytes}
    (hfuel : left.toNat < fuel) (hstop : c.toNat + left.toNat = stop.toNat) (hres : off.toNat + left.toNat = res.length)
    (hlen : res.length < 2 ^ 64) (hcap : stop ≤ s.capacity) :
    ∃ s', s.readLoop stop fuel c left off res =
        some (.ok (res.take off.toNat ++ (range left.toNat).map fun i => s.byte (c + ofNat i)), s') ∧
      s'.capacity = s.capacity ∧ ∀ x, s'.byte x = s.byte x := by
  induction fuel generalizing s c left off res with
  | zero => omega
  | succ fuel ih =>
    have hstoplt := stop.toNat_lt
    rw [le_iff_toNat_le] at hcap
    rcases Nat.eq_zero_or_pos left.toNat with hzero | hmore
    · refine ⟨s, ?_, rfl, fun _ => rfl⟩
      rw [readLoop, if_neg (not_lt.2 (le_iff_toNat_le.2 (by omega))), hzero, take_of_length_le (by omega)]
      simp
    · obtain ⟨k, s₁, res₁, hround, _, hcap₁, hbyte, _, htake⟩ :=
        @readLoop_chunk n hn stop fuel s c left off res hmore hstop hres hlen
        (le_iff_toNat_le.2 (by omega))
      have hmod := mod_lt c.toNat (show 0 < n.toNat by simpa [lt_iff_toNat_lt] using hn)
      have hck : (c + k).toNat = c.toNat + k.toNat := by
        rw [toNat_add, mod_eq_of_lt (by omega)]
      have hoff : (off + k).toNat = off.toNat + k.toNat := by
        rw [toNat_add, mod_eq_of_lt (by omega)]
      have hleft : (left - k).toNat = left.toNat - k.toNat := toNat_sub_of_le _ _ (le_iff_toNat_le.2 (by omega))
      obtain ⟨s₂, hloop, hcap₂, hbyte₂⟩ :=
        @ih s₁ (c + k) (left - k) (off + k) res₁ (by omega) (by omega) (by omega) (by omega)
        (by rw [hcap₁, le_iff_toNat_le]; exact hcap)
      refine ⟨s₂, ?_, hcap₂.trans hcap₁, fun x => (hbyte₂ x).trans (hbyte x)⟩
      rw [hround, hloop, htake, hleft, append_assoc]
      simp only [hbyte]
      rw [← map_range_add, show k.toNat + (left.toNat - k.toNat) = left.toNat by omega]

theorem byte_copySlice (hn : 0 < n) {s : Storage n} {u : StorageUnit n} {c k : UInt64} {src : Bytes}
    (hu : s.data (c - c % n) = some u) (hk : c.toNat % n.toNat + k.toNat ≤ n.toNat) (hsrc : src.length = k.toNat) :
    ∃ u', u.copySlice (c % n) (c % n + k) src = .ok u' ∧ ∀ x, (s.setUnit (c - c % n) u').byte x =
      if c.toNat ≤ x.toNat ∧ x.toNat < c.toNat + k.toNat then src.getD (x.toNat - c.toNat) 0 else s.byte x := by
  obtain ⟨hsum, hbounds⟩ := bounds_unit (u := u) hk
  refine ⟨_, if_pos hbounds, fun x => ?_⟩
  have hn' : 0 < n.toNat := by simpa [lt_iff_toNat_lt] using hn
  have hchunk := mem_chunk (a := x.toNat) hn' hk
  by_cases hx : x - x % n = c - c % n
  · -- `x` is in the unit of the chunk
    have hbase : n.toNat * (x.toNat / n.toNat) = n.toNat * (c.toNat / n.toNat) := by
      rw [← toNat_base, ← toNat_base, hx]
    have hsub : x.toNat % n.toNat - c.toNat % n.toNat = x.toNat - c.toNat := by
      have h1 := div_add_mod x.toNat n.toNat
      have h2 := div_add_mod c.toNat n.toNat
      omega
    rw [hbase] at hchunk
    simp only [true_and] at hchunk
    have hu' : (s.setUnit (c - c % n) ⟨patch u.data (c % n) (c % n + k) src, by rw [length_patch, u.size]⟩).data (x - x % n) =
        some ⟨patch u.data (c % n) (c % n + k) src, by rw [length_patch, u.size]⟩ := by
      rw [hx]
      simp [setUnit]
    rw [byte_of_unit hu', byte_of_unit (hx ▸ hu), getD_patch _ _ _ _ (by rw [u.size]; exact toNat_mod_lt hn x), hsum,
      toNat_mod, toNat_mod, hsub]
    by_cases hin : c.toNat ≤ x.toNat ∧ x.toNat < c.toNat + k.toNat
    · have hlt : x.toNat - c.toNat < src.length := by omega
      rw [if_pos hin, if_pos (hchunk.1 hin), getD_eq_getElem _ _ hlt, getD_eq_getElem _ _ hlt]
    · rw [if_neg hin, if_neg fun h => hin (hchunk.2 h)]
  · have hout : ¬ (c.toNat ≤ x.toNat ∧ x.toNat < c.toNat + k.toNat) := by
      intro h
      apply hx
      apply toNat_inj.1
      rw [toNat_base, toNat_base, (hchunk.1 h).1]
    rw [if_neg hout]
    apply byte_congr
    simp [setUnit, hx]

theorem writeLoop_chunk (hn : 0 < n) {data : Bytes} (hlen : data.length < 2 ^ 64) (fuel : Nat) {s : Storage n}
    {c off : UInt64} (hmore : off.toNat < data.length) (hcap : c ≤ s.capacity) :
    ∃ (k : UInt64) (s' : Storage n), s.writeLoop data (fuel + 1) c off = s'.writeLoop data fuel (c + k) (off + k) ∧
      k.toNat = min (data.length - off.toNat) (n.toNat - c.toNat % n.toNat) ∧ s'.capacity = s.capacity ∧ ∀ x, s'.byte x =
        if c.toNat ≤ x.toNat ∧ x.toNat < c.toNat + k.toNat then data.getD (off.toNat + (x.toNat - c.toNat)) 0
          else s.byte x := by
  have hsize : (ofNat data.length).toNat = data.length := toNat_ofNat_of_lt' hlen
  have hlt : off < ofNat data.length := lt_iff_toNat_lt.2 (by omega)
  rw [writeLoop, if_pos hlt]
  obtain ⟨_, s₁, hget, hcap₁, hu, hbyte⟩ := createOrGetStorageUnit_ok hn hcap
  have hmod := toNat_mod_lt hn c
  simp only [hget, parseAddress, div_mul_eq_base]
  have hk := toNat_lenToCopy (ofNat data.length - off) (c - c % n + n - c)
  rw [toNat_left hn c, toNat_sub_of_le _ _ (UInt64.le_of_lt hlt), hsize] at hk
  generalize lenToCopy (ofNat data.length - off) (c - c % n + n - c) = k at hk ⊢
  rw [toNat_mod] at hmod
  have hoff : (off + k).toNat = off.toNat + k.toNat := by
    rw [toNat_add, mod_eq_of_lt (by omega)]
  have hslice : slice data off (off + k) = .ok ((data.drop off.toNat).take k.toNat) := by
    have hbounds : bounds data off (off + k) = true := by
      simp only [bounds, le_iff_toNat_le, hoff, Bool.and_eq_true, decide_eq_true_eq]
      omega
    rw [slice, if_pos hbounds, hoff, Nat.add_sub_cancel_left]
  have hsrc : ((data.drop off.toNat).take k.toNat).length = k.toNat := by
    rw [length_take, length_drop]
    omega
  obtain ⟨u', hcopy, hbyte'⟩ := byte_copySlice hn hu (by omega) hsrc
  simp only [hslice, hcopy]
  refine ⟨k, s₁.setUnit (c - c % n) u', rfl, hk, hcap₁, fun x => ?_⟩
  rw [hbyte' x, hbyte x]
  by_cases hin : c.toNat ≤ x.toNat ∧ x.toNat < c.toNat + k.toNat
  · rw [if_pos hin, if_pos hin, getD_eq_getElem _ _ (by omega), getD_eq_getElem _ _ (by omega), getElem_take,
      getElem_drop]
  · rw [if_neg hin, if_neg hin]

/-- The loop of `Write` puts the bytes of `data` from `dataOffset` on at the current address and after it. -/
theorem writeLoop_ok (hn : 0 < n) {data : Bytes} (hlen : data.length < 2 ^ 64) (fuel : Nat) {s : Storage n} {c off : UInt64}
    (hfuel : data.length - off.toNat < fuel) (hoff : off.toNat ≤ data.length)
    (hcap : c.toNat + (data.length - off.toNat) ≤ s.capacity.toNat) :
    ∃ s', s.writeLoop data fuel c off = some (.ok (), s') ∧ s'.capacity = s.capacity ∧ ∀ x, s'.byte x =
      if c.toNat ≤ x.toNat ∧ x.toNat < c.toNat + (data.length - off.toNat) then data.getD (off.toNat + (x.toNat - c.toNat)) 0
      else s.byte x := by
  induction fuel generalizing s c off with
  | zero => omega
  | succ fuel ih =>
    have hcaplt := s.capacity.toNat_lt
    by_cases hmore : off.toNat < data.length
    · obtain ⟨k, s₁, hround, _, hcap₁, hbyte⟩ :=
        @writeLoop_chunk n hn data hlen fuel s c off hmore (le_iff_toNat_le.2 (by omega))
      have hmod := mod_lt c.toNat (show 0 < n.toNat by simpa [lt_iff_toNat_lt] using hn)
      have hoffk : (off + k).toNat = off.toNat + k.toNat := by
        rw [toNat_add, mod_eq_of_lt (by omega)]
      have hck : (c + k).toNat = c.toNat + k.toNat := by
        rw [toNat_add, mod_eq_of_lt (by omega)]
      obtain ⟨s₂, hloop, hcap₂, hbyte₂⟩ := @ih s₁ (c + k) (off + k) (by omega) (by omega) (by rw [hcap₁]; omega)
      refine ⟨s₂, hround.trans hloop, hcap₂.trans hcap₁, fun x => ?_⟩
      rw [hbyte₂ x, hbyte x, hck, hoffk]
      -- `x` is behind the chunk, in the chunk, or in neither
      by_cases hbehind : c.toNat + k.toNat ≤ x.toNat
      · have hsub : off.toNat + k.toNat + (x.toNat - (c.toNat + k.toNat)) = off.toNat + (x.toNat - c.toNat) := by omega
        rw [if_neg (show ¬ (c.toNat ≤ x.toNat ∧ x.toNat < c.toNat + k.toNat) by omega), hsub]
        exact if_congr (by omega) rfl rfl
      · rw [if_neg (by omega)]
        exact if_congr (by omega) rfl rfl
    · refine ⟨s, ?_, rfl, fun x => by rw [if_neg (by omega)]⟩
      rw [writeLoop, if_neg]
      rw [lt_iff_toNat_lt, toNat_ofNat_of_lt' hlen]
      exact hmore

end Storage

/-! ## The flat array -/

/-- The flat storage `m` has the bytes of `s`. -/
structure Represents (s : Storage n) (m : Mem.Storage) : Prop where
  capacity : m.capacity = s.capacity.toNat
  byte : ∀ a : UInt64, s.byte a = m.data a.toNat

theorem represents_new (capacity : UInt64) :
    Represents (newStorageWithUnitSize n capacity) (Mem.Storage.new capacity.toNat) where
  capacity := rfl
  byte _ := rfl

/-- `Read` inside the capacity is the read of the flat storage. -/
theorem read_flat (hn : 0 < n) {s : Storage n} {m : Mem.Storage} (h : Represents s m) {fuel : Nat} {address len : UInt64}
    (hfuel : len.toNat < fuel) (hin : address.toNat + len.toNat ≤ m.capacity) :
    ∃ s' d, s.read fuel address len = some (.ok d, s') ∧ m.read address.toNat len.toNat = .ok d ∧ Represents s' m := by
  have hcaplt := s.capacity.toNat_lt
  have hcap := h.capacity
  have hstop : (address + len).toNat = address.toNat + len.toNat := by
    rw [toNat_add, mod_eq_of_lt (by omega)]
  obtain ⟨s', hloop, hcap', hbyte⟩ := @Storage.readLoop_ok n hn (address + len) fuel s address len 0
    (replicate len.toNat 0) hfuel hstop.symm (by simp) (by simpa using len.toNat_lt)
    (by rw [le_iff_toNat_le]; omega)
  refine ⟨s', _, hloop, ?_, ⟨by rw [hcap', hcap], fun a => by rw [hbyte, h.byte]⟩⟩
  rw [Mem.Storage.read_ok hin]
  simp only [UInt64.toNat_zero, take_zero, nil_append]
  congr 1
  apply map_congr_left
  intro i hi
  rw [mem_range] at hi
  have hsize : i < UInt64.size := by
    rw [UInt64.size]
    omega
  rw [h.byte, toNat_add, toNat_ofNat_of_lt' hsize, mod_eq_of_lt (by omega)]

/-- `Write` inside the capacity is the write of the flat storage. -/
theorem write_flat (hn : 0 < n) {s : Storage n} {m : Mem.Storage} (h : Represents s m) {fuel : Nat} {address : UInt64}
    {data : Bytes} (hfuel : data.length < fuel) (hin : address.toNat + data.length ≤ m.capacity) :
    ∃ s' m', s.write fuel address data = some (.ok (), s') ∧ m.write address.toNat data = .ok m' ∧ Represents s' m' := by
  have hcaplt := s.capacity.toNat_lt
  have hcap := h.capacity
  obtain ⟨s', hloop, hcap', hbyte⟩ := @Storage.writeLoop_ok n hn data (by omega) fuel s address 0
    (by simpa using hfuel) (by simp) (by simp; omega)
  refine ⟨s', _, hloop, Mem.Storage.write_ok hin, ⟨by rw [hcap', hcap], fun a => ?_⟩⟩
  simpa [h.byte] using hbyte a

/-! ## Runs -/

inductive Op
  | read (address len : UInt64)
  | write (address : UInt64) (data : Bytes)
deriving DecidableEq

namespace Op

def address : Op → UInt64
  | read a _ => a
  | write a _ => a

def byteSize : Op → Nat
  | read _ len => len.toNat
  | write _ data => data.length

def Within (capacity : UInt64) (op : Op) : Prop := op.address.toNat + op.byteSize ≤ capacity.toNat

/-- A write changes the bytes of its own range. -/
def effect (op : Op) (m : Nat → UInt8) : Nat → UInt8 :=
  match op with
  | read _ _ => m
  | write address data => fun a =>
    if address.toNat ≤ a ∧ a < address.toNat + data.length then data.getD (a - address.toNat) 0 else m a

end Op

inductive Reply
  | data (d : Bytes)
  | done
  | error (e : String)
deriving DecidableEq

/-- The bytes last written, 0 where nothing was. -/
def lastWritten (ops : List Op) : Nat → UInt8 := ops.foldl (fun m op => op.effect m) fun _ => 0

/-- What a flat array with the bytes `m` replies to an access. -/
def Op.reply (op : Op) (m : Nat → UInt8) : Reply :=
  match op with
  | read address len => .data ((range len.toNat).map fun i => m (address.toNat + i))
  | write _ _ => .done

namespace Storage

def access (fuel : Nat) (s : Storage n) : Op → Option (Reply × Storage n)
  | .read address len => (s.read fuel address len).map fun
    | (.ok d, s) => (.data d, s)
    | (.error e, s) => (.error e, s)
  | .write address data => (s.write fuel address data).map fun
    | (.ok (), s) => (.done, s)
    | (.error e, s) => (.error e, s)

/-- The replies to a sequence of accesses, `none` when a loop runs out of fuel. -/
def run (fuel : Nat) : Storage n → List Op → Option (List Reply × Storage n)
  | s, [] => some ([], s)
  | s, op :: ops => do
    let (r, s) ← s.access fuel op
    let (rs, s) ← s.run fuel ops
    return (r :: rs, s)

end Storage

theorem access_flat (hn : 0 < n) {s : Storage n} {m : Mem.Storage} (h : Represents s m) {fuel : Nat} {op : Op}
    (hfuel : op.byteSize < fuel) (hin : op.Within s.capacity) :
    ∃ s', s.access fuel op = some (op.reply m.data, s') ∧ Represents s' { m with data := op.effect m.data } := by
  have hcap := h.capacity
  cases op with
  | read address len =>
    obtain ⟨s', _, hread, hflat, h'⟩ := @read_flat n hn s m h fuel address len hfuel (by rw [hcap]; exact hin)
    refine ⟨s', ?_, h'⟩
    rw [Storage.access, hread, Mem.Storage.read_eq_ok hflat]
    rfl
  | write address data =>
    obtain ⟨s', _, hwrite, hflat, h'⟩ := @write_flat n hn s m h fuel address data hfuel (by rw [hcap]; exact hin)
    refine ⟨s', ?_, Mem.Storage.write_eq_ok hflat ▸ h'⟩
    rw [Storage.access, hwrite]
    rfl

theorem Represents.capacity_eq {s t : Storage n} {m m' : Mem.Storage} (h : Represents s m) (h' : Represents t m')
    (hm : m.capacity = m'.capacity) : s.capacity = t.capacity := by
  apply toNat_inj.1
  rw [← h.capacity, ← h'.capacity, hm]

theorem run_of_represents (hn : 0 < n) {fuel : Nat} {s : Storage n} {m : Mem.Storage} (h : Represents s m) {ops : List Op}
    (hfuel : ∀ op ∈ ops, op.byteSize < fuel) (hin : ∀ op ∈ ops, op.Within s.capacity) :
    ∃ rs s', s.run fuel ops = some (rs, s') ∧ rs.length = ops.length ∧
      (∀ before op after, ops = before ++ op :: after →
        rs[before.length]? = some (op.reply (before.foldl (fun b o => o.effect b) m.data))) ∧
      Represents s' { m with data := ops.foldl (fun b o => o.effect b) m.data } := by
  induction ops generalizing s m with
  | nil => exact ⟨[], s, rfl, rfl, by simp, h⟩
  | cons op _ ih =>
    obtain ⟨_, haccess, h₁⟩ := access_flat hn h (hfuel op (by simp)) (hin op (by simp))
    obtain ⟨rs, s₂, hrun, hlen, hreply, h₂⟩ := ih h₁ (fun o ho => hfuel o (by simp [ho]))
      (fun o ho => (h₁.capacity_eq h rfl) ▸ hin o (by simp [ho]))
    refine ⟨op.reply m.data :: rs, s₂, by simp [Storage.run, haccess, hrun], by simp [hlen], ?_, h₂⟩
    intro before o after hsplit
    cases before with
    | nil =>
      rw [nil_append, cons.injEq] at hsplit
      rw [← hsplit.1]
      rfl
    | cons _ before =>
      rw [cons_append, cons.injEq] at hsplit
      rw [← hsplit.1]
      exact hreply before o after hsplit.2

/-- Every access of a run inside the capacity ends without error, a read gives back the bytes last written to its addresses,
and the storage holds the bytes last written at the end. -/
theorem run_flat (hn : 0 < n) (capacity : UInt64) (ops : List Op) (hin : ∀ op ∈ ops, op.Within capacity) (fuel : Nat)
    (hfuel : ∀ op ∈ ops, op.byteSize < fuel) :
    ∃ rs s, (newStorageWithUnitSize n capacity).run fuel ops = some (rs, s) ∧ rs.length = ops.length ∧
      (∀ before op after, ops = before ++ op :: after → rs[before.length]? = some (op.reply (lastWritten before))) ∧
      ∀ a : UInt64, s.byte a = lastWritten ops a.toNat := by
  obtain ⟨rs, s, hrun, hlen, hreply, h⟩ := run_of_represents hn (represents_new capacity) hfuel hin
  exact ⟨rs, s, hrun, hlen, hreply, h.byte⟩

/-- Units of 3 bytes, a write over three of them and a read across two. -/
theorem run_flat_units :
    ∃ rs s, (newStorageWithUnitSize 3 10).run 8 [.write 1 [5, 6, 7, 8, 9, 10, 11], .read 2 3] = some (rs, s) ∧
    rs.length = 2 ∧ rs[1]? = some (.data [6, 7, 8]) := by
  obtain ⟨rs, s, hrun, hlen, hreply, -⟩ := run_flat (n := 3) (by decide) 10 [.write 1 [5, 6, 7, 8, 9, 10, 11], .read 2 3]
    (by intro op hop; simp at hop; rcases hop with rfl | rfl <;> simp [Op.Within, Op.address, Op.byteSize]) 8
    (by intro op hop; simp at hop; rcases hop with rfl | rfl <;> simp [Op.byteSize])
  exact ⟨rs, s, hrun, hlen, hreply [.write 1 [5, 6, 7, 8, 9, 10, 11]] (.read 2 3) [] rfl⟩

end Akita.Mem.Units
