import Akita.Mem.Storage

/-!
# Cache directories

`cache.DirectoryImpl` with its LRU victim finder. A block is reached through a pointer; `BlockRef` is that pointer.
`Reset` allocates all blocks anew, so a pointer names the reset that made its block, the set and the way, and the
block's `SetID`, `WayID` and `CacheAddress` are read off the pointer.
-/

namespace Akita.Mem.Cache
open List Function

structure InterleavingConverter where
  interleavingSize : Nat
  totalNumOfElements : Nat
  currentElementIndex : Nat
  offset : Nat := 0
deriving DecidableEq

def InterleavingConverter.convertExternalToInternal (c : InterleavingConverter) (external : Nat) : Except String Nat :=
  if external < c.offset then .error "address is smaller than offset"
  else
    let addr := external - c.offset
    let roundSize := c.interleavingSize * c.totalNumOfElements
    if roundSize = 0 then .error "runtime error: integer divide by zero"
    else if addr % roundSize / c.interleavingSize ≠ c.currentElementIndex then
      .error "address does not belongs to current element"
    else .ok (addr / roundSize * c.interleavingSize + external % c.interleavingSize)

/-- The parameters of `NewDirectory`, and its address converter if one is set. -/
structure Geometry where
  numSets : Nat
  numWays : Nat
  blockSize : Nat
  addrConverter : Option InterleavingConverter := none
deriving DecidableEq

structure BlockRef where
  gen : Nat
  setID : Nat
  wayID : Nat
deriving DecidableEq

def BlockRef.cacheAddress (g : Geometry) (b : BlockRef) : Nat := (b.setID * g.numWays + b.wayID) * g.blockSize

/-- `cache.Block`. The dirty mask is a slice, given by the number of its array. -/
structure Block where
  pid : PID := 0
  tag : Nat := 0
  isValid : Bool := false
  isDirty : Bool := false
  readCount : Int := 0
  isLocked : Bool := false
  dirtyMask : Option Nat := none
deriving DecidableEq

/-- `cache.Set`. -/
structure CacheSet where
  blocks : List BlockRef
  lruQueue : List BlockRef
deriving DecidableEq

structure Directory (g : Geometry) where
  gen : Nat
  blocks : BlockRef → Block
  sets : Nat → CacheSet

variable {g : Geometry}

/-- The blocks of set `i` after reset number `gen`. -/
def waysOf (g : Geometry) (gen i : Nat) : List BlockRef :=
  (range g.numWays).map fun j => { gen, setID := i, wayID := j }

theorem mem_waysOf {gen i : Nat} {b : BlockRef} :
    b ∈ waysOf g gen i ↔ b.gen = gen ∧ b.setID = i ∧ b.wayID < g.numWays := by
  obtain ⟨_, _, j⟩ := b
  simp only [waysOf, mem_map, mem_range, BlockRef.mk.injEq]
  constructor
  · rintro ⟨j', hj, rfl, rfl, rfl⟩
    exact ⟨rfl, rfl, hj⟩
  · rintro ⟨rfl, rfl, hj⟩
    exact ⟨j, hj, rfl, rfl, rfl⟩

namespace Directory

/-- `Reset` number `gen`. -/
def fresh (g : Geometry) (gen : Nat) (blocks : BlockRef → Block) : Directory g where
  gen := gen
  blocks := fun b => if b.gen = gen then {} else blocks b
  sets := fun i => { blocks := waysOf g gen i, lruQueue := waysOf g gen i }

/-- `NewDirectory`. -/
def new (g : Geometry) : Directory g := fresh g 0 fun _ => {}

def reset (d : Directory g) : Directory g := fresh g (d.gen + 1) d.blocks

/-- `getSet`: the number of the set an address is stored at. -/
def getSet (g : Geometry) (reqAddr : Nat) : Except String Nat := do
  let reqAddr ← match g.addrConverter with
    | some c => c.convertExternalToInternal reqAddr
    | none => .ok reqAddr
  if g.numSets = 0 ∨ g.blockSize = 0 then .error "runtime error: integer divide by zero"
  else .ok (reqAddr / g.blockSize % g.numSets)

theorem getSet_lt {reqAddr i : Nat} (h : getSet g reqAddr = .ok i) : i < g.numSets := by
  unfold getSet at h
  cases hc : g.addrConverter with
  | none =>
    simp only [hc, bind, Except.bind] at h
    split at h
    · cases h
    · next hn => cases h; exact Nat.mod_lt _ (by omega)
  | some =>
    simp only [hc, bind, Except.bind] at h
    split at h
    · cases h
    · split at h
      · cases h
      · next hn => cases h; exact Nat.mod_lt _ (by omega)

def lookup (d : Directory g) (pid : PID) (reqAddr : Nat) : Except String (Option BlockRef) := do
  let setID ← getSet g reqAddr
  return (d.sets setID).blocks.find? fun b =>
    (d.blocks b).isValid && (d.blocks b).tag == reqAddr && (d.blocks b).pid == pid

/-- `LRUVictimFinder.FindVictim`. -/
def lruVictim (d : Directory g) (set : CacheSet) : Except String BlockRef :=
  match set.lruQueue.find? fun b => !(d.blocks b).isValid && !(d.blocks b).isLocked with
  | some b => .ok b
  | none =>
    match set.lruQueue.find? fun b => !(d.blocks b).isLocked with
    | some b => .ok b
    | none =>
      match set.lruQueue with
      | b :: _ => .ok b
      | [] => .error "runtime error: index out of range [0] with length 0"

def findVictim (d : Directory g) (addr : Nat) : Except String BlockRef := do
  let setID ← getSet g addr
  d.lruVictim (d.sets setID)

/-- `Visit` moves the block to the end of its set's LRU queue, if it is there. -/
def visit (d : Directory g) (b : BlockRef) : Directory g :=
  let set := d.sets b.setID
  { d with
    sets := update d.sets b.setID
      { set with lruQueue := if b ∈ set.lruQueue then set.lruQueue.erase b ++ [b] else set.lruQueue } }

/-- An assignment to fields of a block. -/
def modify (d : Directory g) (b : BlockRef) (f : Block → Block) : Directory g :=
  { d with blocks := update d.blocks b (f (d.blocks b)) }

/-- An assignment to fields of every block of the directory. -/
def modifyAll (d : Directory g) (f : Block → Block) : Directory g :=
  { d with blocks := fun b => if b.gen = d.gen ∧ b.setID < g.numSets ∧ b.wayID < g.numWays then f (d.blocks b)
                              else d.blocks b }

/-- The blocks of `GetSets`, set by set. -/
def allBlocks (d : Directory g) : List BlockRef :=
  (range g.numSets).flatMap fun i => (d.sets i).blocks

section
variable (d : Directory g) (b : BlockRef)
include d b

@[simp] theorem blocks_modify (f : Block → Block) :
    (d.modify b f).blocks = update d.blocks b (f (d.blocks b)) := rfl

end

theorem lookup_congr {d d' : Directory g} (hsets : ∀ i, (d'.sets i).blocks = (d.sets i).blocks)
    (hblocks : ∀ b, (d'.blocks b).isValid = (d.blocks b).isValid ∧ (d'.blocks b).tag = (d.blocks b).tag ∧
      (d'.blocks b).pid = (d.blocks b).pid) (pid : PID) (addr : Nat) : d'.lookup pid addr = d.lookup pid addr := by
  unfold lookup
  congr 1
  funext i
  rw [hsets i]
  simp only [(hblocks _).1, (hblocks _).2.1, (hblocks _).2.2]

variable {b : BlockRef}

theorem lookup_modify {d : Directory g} {f : Block → Block}
    (hf : ∀ block, (f block).isValid = block.isValid ∧ (f block).tag = block.tag ∧ (f block).pid = block.pid) (pid : PID)
    (addr : Nat) : (d.modify b f).lookup pid addr = d.lookup pid addr := by
  have hsets : ∀ i, ((d.modify b f).sets i).blocks = (d.sets i).blocks := fun _ => rfl
  refine lookup_congr hsets (fun b' => ?_) pid addr
  rw [blocks_modify]
  by_cases hb : b' = b
  · subst hb
    rw [update_self]
    exact hf _
  · rw [update_of_ne hb]
    exact ⟨rfl, rfl, rfl⟩

variable {addr : Nat}

theorem lookup_reset {d : Directory g} {pid : PID} {r : Option BlockRef} (h : d.lookup pid addr = .ok r) :
    d.reset.lookup pid addr = .ok none := by
  unfold lookup at h ⊢
  cases hset : getSet g addr with
  | error => rw [hset] at h; cases h
  | ok i =>
    have hnone : (d.reset.sets i).blocks.find? (fun b =>
        (d.reset.blocks b).isValid && (d.reset.blocks b).tag == addr && (d.reset.blocks b).pid == pid) = none := by
      refine find?_eq_none.mpr fun b hb => ?_
      have hgen : b.gen = d.gen + 1 := (mem_waysOf.mp hb).1
      have hblock : d.reset.blocks b = {} := if_pos hgen
      rw [hblock]
      exact Bool.false_ne_true
    show Except.ok _ = _
    rw [hnone]

/-! ## Sets -/

variable {d : Directory g}

/-- Every set has its blocks, in the order of the ways and in the order of their last use. -/
structure Whole (d : Directory g) : Prop where
  blocks : ∀ i, (d.sets i).blocks = waysOf g d.gen i
  lruQueue : ∀ i, (d.sets i).lruQueue.Perm (waysOf g d.gen i)

theorem whole_fresh (g : Geometry) (gen : Nat) (blocks : BlockRef → Block) : (fresh g gen blocks).Whole :=
  ⟨fun _ => rfl, fun _ => List.Perm.refl _⟩

theorem Whole.of_eq {d' : Directory g} (h : d.Whole) (hgen : d'.gen = d.gen) (hsets : d'.sets = d.sets) : d'.Whole := by
  constructor <;> rw [hgen, hsets]
  · exact h.blocks
  · exact h.lruQueue

theorem Whole.visit (h : d.Whole) (hgen : b.gen = d.gen) (hway : b.wayID < g.numWays) :
    (d.visit b).Whole := by
  have hmem : b ∈ (d.sets b.setID).lruQueue :=
    (h.lruQueue b.setID).mem_iff.mpr (mem_waysOf.mpr ⟨hgen, rfl, hway⟩)
  constructor
  · intro i
    by_cases hi : i = b.setID
    · subst hi
      show (update d.sets b.setID _ b.setID).blocks = _
      rw [update_self]
      exact h.blocks b.setID
    · show (update d.sets b.setID _ i).blocks = _
      rw [update_of_ne hi]
      exact h.blocks i
  · intro i
    by_cases hi : i = b.setID
    · subst hi
      show (update d.sets b.setID _ b.setID).lruQueue.Perm _
      rw [update_self]
      dsimp only
      rw [if_pos hmem]
      exact (perm_append_singleton b _).trans ((perm_cons_erase hmem).symm.trans (h.lruQueue b.setID))
    · show (update d.sets b.setID _ i).lruQueue.Perm _
      rw [update_of_ne hi]
      exact h.lruQueue i

/-- `Lookup` finds a valid block of the line's set that holds the line, if there is one. -/
theorem Whole.lookup (h : d.Whole) (pid : PID) {addr i : Nat} (hset : getSet g addr = .ok i) :
    (∃ b, d.lookup pid addr = .ok (some b) ∧ b ∈ waysOf g d.gen i ∧ (d.blocks b).isValid = true ∧
      (d.blocks b).tag = addr ∧ (d.blocks b).pid = pid) ∨
    (d.lookup pid addr = .ok none ∧ ∀ b ∈ waysOf g d.gen i,
      ¬ ((d.blocks b).isValid = true ∧ (d.blocks b).tag = addr ∧ (d.blocks b).pid = pid)) := by
  have hlookup : d.lookup pid addr = .ok ((waysOf g d.gen i).find? fun b =>
      (d.blocks b).isValid && (d.blocks b).tag == addr && (d.blocks b).pid == pid) := by
    unfold Directory.lookup
    rw [hset, ← h.blocks i]
    rfl
  rw [hlookup]
  cases hfind : (waysOf g d.gen i).find? fun b =>
      (d.blocks b).isValid && (d.blocks b).tag == addr && (d.blocks b).pid == pid with
  | some b =>
    have hb := find?_some hfind
    simp only [Bool.and_eq_true, beq_iff_eq] at hb
    exact .inl ⟨b, rfl, mem_of_find?_eq_some hfind, hb.1.1, hb.1.2, hb.2⟩
  | none =>
    refine .inr ⟨rfl, fun b hb hholds => find?_eq_none.mp hfind b hb ?_⟩
    simpa only [Bool.and_eq_true, beq_iff_eq, and_assoc] using hholds

/-- `FindVictim` finds a block of the line's set. -/
theorem Whole.findVictim (h : d.Whole) {addr i : Nat} (hset : getSet g addr = .ok i) (hways : 0 < g.numWays) :
    ∃ b, d.findVictim addr = .ok b ∧ b ∈ waysOf g d.gen i := by
  have hmem : ∀ b ∈ (d.sets i).lruQueue, b ∈ waysOf g d.gen i := fun b hb => (h.lruQueue i).mem_iff.mp hb
  have hvictim : d.findVictim addr = d.lruVictim (d.sets i) := by
    unfold Directory.findVictim
    rw [hset]
    rfl
  rw [hvictim]
  unfold lruVictim
  split
  · next b hb => exact ⟨b, rfl, hmem b (mem_of_find?_eq_some hb)⟩
  split
  · next b hb => exact ⟨b, rfl, hmem b (mem_of_find?_eq_some hb)⟩
  split
  · next b rest hq => exact ⟨b, rfl, hmem b (hq ▸ mem_cons_self)⟩
  · next hq =>
    have hlen := (h.lruQueue i).length_eq
    simp only [hq, waysOf, length_nil, length_map, length_range] at hlen
    omega

end Directory

/-! ## Places in the storage -/

theorem eq_of_cacheAddress_lt {b b' : BlockRef} (hb : b.wayID < g.numWays) (hb' : b'.wayID < g.numWays)
    (hgen : b.gen = b'.gen) (hlt : b.cacheAddress g < b'.cacheAddress g + g.blockSize)
    (hlt' : b'.cacheAddress g < b.cacheAddress g + g.blockSize) : b = b' := by
  have hnum : b.setID * g.numWays + b.wayID = b'.setID * g.numWays + b'.wayID := by
    have h1 : (b.setID * g.numWays + b.wayID) * g.blockSize < (b'.setID * g.numWays + b'.wayID + 1) * g.blockSize := by
      rw [Nat.add_one_mul]
      exact hlt
    have h2 : (b'.setID * g.numWays + b'.wayID) * g.blockSize < (b.setID * g.numWays + b.wayID + 1) * g.blockSize := by
      rw [Nat.add_one_mul]
      exact hlt'
    have h1 := Nat.lt_of_mul_lt_mul_right h1
    have h2 := Nat.lt_of_mul_lt_mul_right h2
    omega
  have hways : 0 < g.numWays := Nat.zero_lt_of_lt hb
  have hdiv : ∀ {x : BlockRef}, x.wayID < g.numWays → (x.setID * g.numWays + x.wayID) / g.numWays = x.setID := by
    intro x hx
    rw [Nat.mul_comm, Nat.mul_add_div hways, Nat.div_eq_of_lt hx, Nat.add_zero]
  have hset : b.setID = b'.setID := by rw [← hdiv hb, hnum, hdiv hb']
  have hway : b.wayID = b'.wayID := by
    rw [hset] at hnum
    omega
  cases b
  cases b'
  simp only at hgen hset hway
  subst hgen hset hway
  rfl

theorem data_write_of_ne {b b' : BlockRef} {s s' : Storage} {data : Bytes} (hb : b.wayID < g.numWays)
    (hb' : b'.wayID < g.numWays) (hgen : b.gen = b'.gen) (hne : b ≠ b') (hlen : data.length = g.blockSize)
    (hwrite : s.write (b'.cacheAddress g) data = .ok s') {i : Nat} (hi : i < g.blockSize) :
    s'.data (b.cacheAddress g + i) = s.data (b.cacheAddress g + i) := by
  rw [Storage.write_eq_ok hwrite]
  refine if_neg fun h => hne (eq_of_cacheAddress_lt hb hb' hgen ?_ ?_)
  · omega
  · omega

end Akita.Mem.Cache
