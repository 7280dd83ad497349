import Akita.Returns
import Akita.Arrays
import Akita.Recency
import Akita.Mem.Cache.Directory

/-!
# The LRU queues of a directory

In `Directory` the LRU queue of a set is a list. In the source it is a slice: `Visit` works on a copy of the set, moves the
block within the array, and drops the slices that `append` returns.

* `DirectoryImpl.reset`, `DirectoryImpl.visit` : the directory with its slices;
* `DirectoryImpl.view` : what is seen of it, a `Directory`; `Sees.visit` : `Visit` is that of the view;
* `directory_lru` : the queues and the victims after any calls.
-/

namespace Akita.Mem.Cache
open List Function

instance : Inhabited BlockRef := ⟨{ gen := 0, setID := 0, wayID := 0 }⟩

/-- `cache.Set`. -/
structure SetImpl where
  blocks : List BlockRef := []
  lruQueue : Header

structure DirectoryImpl (g : Geometry) where
  gen : Nat
  blocks : BlockRef → Block
  sets : Nat → SetImpl
  arrays : Arrays BlockRef

variable {g : Geometry} (spare : Nat → Nat → Nat)

namespace DirectoryImpl

/-- The body of the loops of `Reset`. -/
def addBlock (i : Nat) (d : DirectoryImpl g) (j : Nat) : DirectoryImpl g :=
  let block : BlockRef := { gen := d.gen, setID := i, wayID := j }
  let r := d.arrays.append spare (d.sets i).lruQueue [block]
  { d with arrays := r.1, sets := update d.sets i { blocks := (d.sets i).blocks ++ [block], lruQueue := r.2 } }

def addSet (d : DirectoryImpl g) (i : Nat) : DirectoryImpl g := (range g.numWays).foldl (addBlock spare i) d

/-- `make([]Set, d.NumSets)` of `Reset` number `gen`. An empty slice is one of an array without cells. -/
def makeSets (gen : Nat) (blocks : BlockRef → Block) (arrays : Arrays BlockRef) : DirectoryImpl g where
  gen := gen
  blocks := fun b => if b.gen = gen then {} else blocks b
  sets := fun i => { lruQueue := { arr := arrays.next + i, len := 0 } }
  arrays := { arrays with next := arrays.next + g.numSets }

def addSets (d : DirectoryImpl g) : DirectoryImpl g := (range g.numSets).foldl (addSet spare) d

/-- `NewDirectory`. -/
def new (g : Geometry) : DirectoryImpl g := addSets spare (makeSets 0 (fun _ => {}) { cells := fun _ => [], next := 0 })

def reset (d : DirectoryImpl g) : DirectoryImpl g := addSets spare (makeSets (d.gen + 1) d.blocks d.arrays)

def queue (d : DirectoryImpl g) (i : Nat) : List BlockRef := d.arrays.read (d.sets i).lruQueue

/-- What is seen of the directory. -/
def view (d : DirectoryImpl g) : Directory g where
  gen := d.gen
  blocks := d.blocks
  sets := fun i => { blocks := (d.sets i).blocks, lruQueue := d.queue i }

/-- The loop of `Visit`, on a copy of the queue. -/
def cut (d : DirectoryImpl g) (lruQueue : Header) (block : BlockRef) : Arrays BlockRef × Header :=
  let i := (d.arrays.read lruQueue).idxOf block
  if i < (d.arrays.read lruQueue).length then
    d.arrays.append spare { lruQueue with len := i } ((d.arrays.read lruQueue).drop (i + 1))
  else (d.arrays, lruQueue)

/-- `Visit`. The set is a copy: only what is written to the array remains. -/
def visit (d : DirectoryImpl g) (block : BlockRef) : Except String (DirectoryImpl g) :=
  if block.setID < g.numSets then
    let r := d.cut spare (d.sets block.setID).lruQueue block
    .ok { d with arrays := (r.1.append spare r.2 [block]).1 }
  else .error "runtime error: index out of range"

/-- The slices of the sets have arrays of their own. -/
def Sound (d : DirectoryImpl g) : Prop := d.arrays.Own g.numSets fun i => (d.sets i).lruQueue

variable {spare} {d d' d'' : DirectoryImpl g} {f f' : Nat → List BlockRef} {b : BlockRef} {i : Nat}

/-! ## Reset -/

/-- Set `k` got the blocks `f k`. -/
structure Grown (d d' : DirectoryImpl g) (f : Nat → List BlockRef) : Prop where
  sound : d'.Sound
  gen : d'.gen = d.gen
  contents : d'.blocks = d.blocks
  queue : ∀ k < g.numSets, d'.queue k = d.queue k ++ f k
  blocks : ∀ k < g.numSets, (d'.sets k).blocks = (d.sets k).blocks ++ f k

theorem Grown.trans (h : Grown d d' f) (h' : Grown d' d'' f') : Grown d d'' fun k => f k ++ f' k where
  sound := h'.sound
  gen := h'.gen.trans h.gen
  contents := h'.contents.trans h.contents
  queue k hk := by rw [h'.queue k hk, h.queue k hk, append_assoc]
  blocks k hk := by rw [h'.blocks k hk, h.blocks k hk, append_assoc]

theorem Grown.foldl {step : DirectoryImpl g → Nat → DirectoryImpl g} {e : Nat → Nat → List BlockRef} {l : List Nat}
    (hs : d.Sound) (hstep : ∀ i ∈ l, ∀ d' : DirectoryImpl g, d'.Sound → d'.gen = d.gen → Grown d' (step d' i) (e i)) :
    Grown d (l.foldl step d) fun k => l.flatMap fun i => e i k := by
  induction l generalizing d with
  | nil => exact ⟨hs, rfl, rfl, fun _ _ => (append_nil _).symm, fun _ _ => (append_nil _).symm⟩
  | cons i l ih =>
    have hfirst := hstep i mem_cons_self d hs rfl
    have hrest := ih hfirst.sound fun j hj d' hd' hgen => hstep j (mem_cons_of_mem _ hj) d' hd' (hgen.trans hfirst.gen)
    simp only [flatMap_cons]
    exact hfirst.trans hrest

variable (spare) in
theorem grown_addBlock (hs : d.Sound) (hi : i < g.numSets) (j : Nat) :
    Grown d (addBlock spare i d j) fun k => if k = i then [{ gen := d.gen, setID := i, wayID := j }] else [] := by
  obtain ⟨hown, hread⟩ := Arrays.Own.append [{ gen := d.gen, setID := i, wayID := j }] spare hs hi
  have hself : ((addBlock spare i d j).sets i) = { blocks := _, lruQueue := _ } := update_self ..
  have hother : ∀ k, k ≠ i → (addBlock spare i d j).sets k = d.sets k := fun k hk => update_of_ne hk ..
  have hqueue : (fun k => ((addBlock spare i d j).sets k).lruQueue) = update (fun k => (d.sets k).lruQueue) i
      (d.arrays.append spare (d.sets i).lruQueue [{ gen := d.gen, setID := i, wayID := j }]).2 := by
    funext k
    by_cases hk : k = i
    · rw [hk, update_self, hself]
    · rw [update_of_ne hk, hother k hk]
  refine ⟨?_, rfl, rfl, fun k hk => ?_, fun k hk => ?_⟩
  · rw [Sound, hqueue]
    exact hown
  · rw [queue, congrFun hqueue k]
    refine (hread k hk).trans ?_
    by_cases hki : k = i
    · rw [if_pos hki, if_pos hki, hki]
      rfl
    · rw [if_neg hki, if_neg hki, append_nil]
      rfl
  · by_cases hki : k = i
    · rw [if_pos hki, hki, hself]
    · rw [if_neg hki, append_nil, hother k hki]

theorem flatMap_ite {α : Type} (w : Nat → List α) {n k : Nat} (hk : k < n) :
    ((range n).flatMap fun i => if k = i then w i else []) = w k := by
  induction n with
  | zero => cases hk
  | succ n ih =>
    rw [range_succ, flatMap_append, flatMap_singleton]
    by_cases hkn : k = n
    · have hnone : ((range n).flatMap fun i => if k = i then w i else []) = [] := by
        refine flatMap_eq_nil_iff.mpr fun i hi => if_neg ?_
        rw [mem_range] at hi
        omega
      rw [hnone, if_pos hkn, hkn, nil_append]
    · rw [ih (by omega), if_neg hkn, append_nil]

variable (spare) in
theorem grown_addSet (hs : d.Sound) (hi : i < g.numSets) :
    Grown d (addSet spare d i) fun k => if k = i then waysOf g d.gen i else [] := by
  have hgrown := Grown.foldl (l := range g.numWays) hs fun j _ d' hd' hgen => hgen ▸ grown_addBlock spare hd' hi j
  refine ⟨hgrown.sound, hgrown.gen, hgrown.contents, fun k hk => (hgrown.queue k hk).trans (congrArg _ ?_),
    fun k hk => (hgrown.blocks k hk).trans (congrArg _ ?_)⟩
  all_goals
    by_cases hki : k = i
    · simp only [if_pos hki, waysOf, map_eq_flatMap]
    · simp only [if_neg hki]
      exact flatMap_eq_nil_iff.mpr fun _ _ => rfl

/-- Every set has its blocks, in the order of the ways and in the order of the queue. -/
structure Whole (d : DirectoryImpl g) : Prop where
  sound : d.Sound
  blocks : ∀ k < g.numSets, (d.sets k).blocks = waysOf g d.gen k
  queue : ∀ k < g.numSets, (d.queue k).Perm (waysOf g d.gen k)

/-- A `Directory` with what is seen of the sets there are. -/
structure Sees (d : DirectoryImpl g) (v : Directory g) : Prop where
  gen : v.gen = d.gen
  blocks : v.blocks = d.blocks
  sets : ∀ k < g.numSets, v.sets k = { blocks := (d.sets k).blocks, lruQueue := d.queue k }

variable (spare) in
theorem whole_addSets (gen : Nat) (blocks : BlockRef → Block) (arrays : Arrays BlockRef) :
    let d : DirectoryImpl g := addSets spare (makeSets gen blocks arrays)
    d.gen = gen ∧ d.Whole ∧ (∀ k < g.numSets, d.queue k = waysOf g gen k) ∧ d.Sees (Directory.fresh g gen blocks) := by
  have hs : (makeSets gen blocks arrays : DirectoryImpl g).Sound :=
    ⟨fun _ _ => Nat.zero_le _, fun _ hi => Nat.add_lt_add_left hi _, fun _ _ _ _ heq => Nat.add_left_cancel heq⟩
  have hgrown := Grown.foldl (l := range g.numSets) hs
    fun i hi d' hd' hgen => hgen ▸ grown_addSet spare hd' (mem_range.mp hi)
  have hqueue : ∀ k < g.numSets, (addSets spare (makeSets gen blocks arrays : DirectoryImpl g)).queue k = waysOf g gen k :=
    fun k hk => (hgrown.queue k hk).trans (flatMap_ite (waysOf g gen) hk)
  have hgen : (addSets spare (makeSets gen blocks arrays : DirectoryImpl g)).gen = gen := hgrown.gen
  have hblocks : ∀ k < g.numSets, ((addSets spare (makeSets gen blocks arrays : DirectoryImpl g)).sets k).blocks =
      waysOf g gen k :=
    fun k hk => (hgrown.blocks k hk).trans (flatMap_ite (waysOf g gen) hk)
  refine ⟨hgen, ⟨hgrown.sound, fun k hk => ?_, fun k hk => ?_⟩, hqueue, hgen.symm, hgrown.contents.symm, fun k hk => ?_⟩
  · rw [hgen, hblocks k hk]
  · rw [hgen, hqueue k hk]
  · rw [hblocks k hk, hqueue k hk]
    rfl

/-! ## Visit -/

variable (spare) in
/-- **`Visit`** moves the block to the end of the queue of its set, and leaves the directory as it is when it is not there. -/
theorem visit_ok (hs : d.Sound) (hb : b.setID < g.numSets) :
    ∃ d' : DirectoryImpl g, d.visit spare b = .ok d' ∧ d'.Sound ∧ d'.gen = d.gen ∧ d'.blocks = d.blocks ∧ d'.sets = d.sets ∧
      ∀ k < g.numSets, d'.queue k = if k = b.setID ∧ b ∈ d.queue k then (d.queue k).erase b ++ [b] else d.queue k := by
  refine ⟨_, if_pos hb, ?_⟩
  by_cases hmem : b ∈ d.queue b.setID
  · have hlt : (d.queue b.setID).idxOf b < (d.queue b.setID).length := idxOf_lt_length_iff.mpr hmem
    obtain ⟨hown, hread⟩ := Arrays.Own.rotate spare hs hb (hlt.trans_eq (Arrays.length_read (hs.room _ hb))) b rfl
    have hcut : d.cut spare (d.sets b.setID).lruQueue b = _ := if_pos hlt
    rw [hcut]
    refine ⟨hown, rfl, rfl, rfl, fun k hk => (hread k hk).trans ?_⟩
    by_cases hki : k = b.setID
    · subst hki
      rw [if_pos rfl, if_pos ⟨rfl, hmem⟩, erase_eq_eraseIdx_of_idxOf]
      · rfl
      · rfl
    · rw [if_neg hki, if_neg fun h => hki h.1]
      rfl
  · have hnot : ¬ (d.queue b.setID).idxOf b < (d.queue b.setID).length := fun h => hmem (idxOf_lt_length_iff.mp h)
    obtain ⟨hown, hread⟩ := Arrays.Own.append_copy [b] spare hs hb
    have hcut : d.cut spare (d.sets b.setID).lruQueue b = _ := if_neg hnot
    rw [hcut]
    refine ⟨hown, rfl, rfl, rfl, fun k hk => (hread k hk).trans ?_⟩
    rw [if_neg]
    · rfl
    · rintro ⟨rfl, h⟩
      exact hmem h

/-- **`Visit` of the slices is `Visit` of the lists.** -/
theorem Sees.visit {v : Directory g} (h : d.Sees v) (hs : d.Sound) (hvisit : d.visit spare b = .ok d') :
    d'.Sees (v.visit b) := by
  have hb : b.setID < g.numSets := by
    by_contra hb
    cases hvisit.symm.trans (if_neg hb)
  obtain ⟨_, hvisit₁, -, hgen, hblocks, hsets, hqueue⟩ := visit_ok spare hs hb
  cases hvisit₁.symm.trans hvisit
  refine ⟨h.gen.trans hgen.symm, h.blocks.trans hblocks.symm, fun k hk => ?_⟩
  rw [hsets, hqueue k hk, Directory.visit]
  dsimp only
  by_cases hki : k = b.setID
  · subst hki
    rw [update_self, h.sets _ hk]
    simp
  · rw [update_of_ne hki, h.sets k hk, if_neg fun hk' => hki hk'.1]

theorem Sees.reset {v : Directory g} (h : d.Sees v) : (d.reset spare).Sees v.reset := by
  obtain ⟨-, -, -, _⟩ := whole_addSets (g := g) spare (d.gen + 1) d.blocks d.arrays
  rwa [Directory.reset, h.gen, h.blocks]

/-! ## Runs -/

/-- A call, or an assignment to the fields of a block. -/
inductive Op
  | lookup (pid : PID) (reqAddr : Nat)
  | findVictim (addr : Nat)
  | visit (block : BlockRef)
  | reset
  | assign (block : BlockRef) (f : Block → Block)

variable (spare) in
def exec (d : DirectoryImpl g) : Op → Except String (DirectoryImpl g)
  | .lookup pid reqAddr => (d.view.lookup pid reqAddr).map fun _ => d
  | .findVictim addr => (d.view.findVictim addr).map fun _ => d
  | .visit block => d.visit spare block
  | .reset => .ok (d.reset spare)
  | .assign block f => .ok { d with blocks := update d.blocks block (f (d.blocks block)) }

/-- The number of resets, and the visits of the blocks of each set since the last one, which visits the ways in their
order. -/
def note (g : Geometry) (s : Nat × (Nat → List BlockRef)) : Op → Nat × (Nat → List BlockRef)
  | .visit b => (s.1, if b ∈ waysOf g s.1 b.setID then update s.2 b.setID (s.2 b.setID ++ [b]) else s.2)
  | .reset => (s.1 + 1, waysOf g (s.1 + 1))
  | _ => s

def visits (g : Geometry) (ops : List Op) : Nat → List BlockRef := (ops.foldl (note g) (0, waysOf g 0)).2

/-- Of the blocks that meet `p`, `b` was visited first. -/
structure Oldest (visits blocks : List BlockRef) (p : BlockRef → Bool) (b : BlockRef) : Prop where
  mem : b ∈ blocks
  meets : p b = true
  lt : ∀ b' ∈ blocks, p b' = true → b' ≠ b → lastVisit visits b < lastVisit visits b'

def unlocked (d : DirectoryImpl g) (b : BlockRef) : Bool := !(d.blocks b).isLocked

def empty (d : DirectoryImpl g) (b : BlockRef) : Bool := !(d.blocks b).isValid && !(d.blocks b).isLocked

/-- The oldest of the unlocked invalid blocks, else the oldest of the unlocked blocks, else the oldest. -/
structure IsVictim (d : DirectoryImpl g) (visits blocks : List BlockRef) (b : BlockRef) : Prop where
  empty : (∃ b' ∈ blocks, d.empty b' = true) → Oldest visits blocks d.empty b
  unlocked : (∀ b' ∈ blocks, d.empty b' = false) → (∃ b' ∈ blocks, d.unlocked b' = true) → Oldest visits blocks d.unlocked b
  locked : (∀ b' ∈ blocks, d.unlocked b' = false) → Oldest visits blocks (fun _ => true) b

variable (spare) in
/-- The LRU law of a directory whose sets have had these visits. -/
structure Lru (d : DirectoryImpl g) (visits : Nat → List BlockRef) : Prop where
  blocks : ∀ i < g.numSets, (d.sets i).blocks = waysOf g d.gen i
  queue : ∀ i < g.numSets, (d.queue i).Perm (d.sets i).blocks
  visit : ∀ b, b.setID < g.numSets → ∃ d' : DirectoryImpl g, d.visit spare b = .ok d' ∧ d'.sets = d.sets ∧
    d'.blocks = d.blocks ∧
    ∀ i < g.numSets, d'.queue i = if i = b.setID ∧ b ∈ (d.sets i).blocks then (d.queue i).erase b ++ [b] else d.queue i
  victim : ∀ addr i, Directory.getSet g addr = .ok i → 0 < g.numWays →
    ∃ b, d.view.findVictim addr = .ok b ∧ d.IsVictim (visits i) (d.sets i).blocks b

/-- What the calls keep. -/
structure Tracked (d : DirectoryImpl g) (s : Nat × (Nat → List BlockRef)) : Prop extends Whole d where
  gen : d.gen = s.1
  recency : ∀ k < g.numSets, ByRecency (s.2 k) (d.queue k)

theorem tracked_addSets (gen : Nat) (blocks : BlockRef → Block) (arrays : Arrays BlockRef) :
    Tracked (addSets spare (makeSets gen blocks arrays) : DirectoryImpl g) (gen, waysOf g gen) := by
  obtain ⟨hgen, hwhole, hqueue, -⟩ := whole_addSets (g := g) spare gen blocks arrays
  refine ⟨hwhole, hgen, fun k hk => ?_⟩
  rw [hqueue k hk]
  refine ByRecency.of_nodup (List.Nodup.map (fun j j' h => ?_) nodup_range)
  cases h
  rfl

theorem Tracked.exec {s : Nat × (Nat → List BlockRef)} {op : Op} (h : d.Tracked s) (hexec : d.exec spare op = .ok d') :
    d'.Tracked (note g s op) := by
  cases op with
  | lookup pid reqAddr =>
    change (d.view.lookup pid reqAddr).map _ = _ at hexec
    cases hlook : d.view.lookup pid reqAddr <;> rw [hlook] at hexec <;> cases hexec
    exact h
  | findVictim addr =>
    change (d.view.findVictim addr).map _ = _ at hexec
    cases hvictim : d.view.findVictim addr <;> rw [hvictim] at hexec <;> cases hexec
    exact h
  | visit b =>
    have hb : b.setID < g.numSets := by
      by_contra hb
      cases hexec.symm.trans (if_neg hb)
    obtain ⟨_, hvisit, hs, hgen, -, hsets, hqueue⟩ := visit_ok spare h.sound hb
    cases hvisit.symm.trans hexec
    have hmem : b ∈ d.queue b.setID ↔ b ∈ waysOf g s.1 b.setID := h.gen ▸ (h.queue b.setID hb).mem_iff
    refine ⟨⟨hs, fun k hk => ?_, fun k hk => ?_⟩, hgen.trans h.gen, fun k hk => ?_⟩
    · rw [hsets, hgen]
      exact h.blocks k hk
    · rw [hqueue k hk, hgen]
      split
      · next hk' => exact (perm_append_singleton b _).trans ((perm_cons_erase hk'.2).symm.trans (h.queue k hk))
      · exact h.queue k hk
    · rw [hqueue k hk]
      show ByRecency ((if b ∈ waysOf g s.1 b.setID then _ else s.2) k) _
      by_cases hlive : b ∈ waysOf g s.1 b.setID
      · rw [if_pos hlive]
        by_cases hki : k = b.setID
        · subst hki
          rw [if_pos ⟨rfl, hmem.mpr hlive⟩, update_self]
          exact (h.recency _ hk).visit b
        · rw [if_neg fun hk' => hki hk'.1, update_of_ne hki]
          exact h.recency k hk
      · rw [if_neg hlive, if_neg]
        · exact h.recency k hk
        · rintro ⟨rfl, hmem'⟩
          exact hlive (hmem.mp hmem')
  | reset =>
    cases hexec
    rw [note, ← h.gen]
    exact tracked_addSets _ _ _
  | assign b f =>
    cases hexec
    exact ⟨⟨h.sound, h.blocks, h.queue⟩, h.gen, h.recency⟩

theorem oldest_of_find {visits q blocks : List BlockRef} {p : BlockRef → Bool} (hrecency : ByRecency visits q)
    (hperm : q.Perm blocks) (hfind : q.find? p = some b) : Oldest visits blocks p b where
  mem := hperm.mem_iff.mp (mem_of_find?_eq_some hfind)
  meets := find?_some hfind
  lt _ hb' hp hne := hrecency.lt_of_find hfind (hperm.mem_iff.mpr hb') hp hne

theorem Tracked.victim {s : Nat × (Nat → List BlockRef)} {addr : Nat} (h : d.Tracked s)
    (hset : Directory.getSet g addr = .ok i) (hways : 0 < g.numWays) :
    ∃ b, d.view.findVictim addr = .ok b ∧ d.IsVictim (s.2 i) (d.sets i).blocks b := by
  have hi := Directory.getSet_lt hset
  have hperm : (d.queue i).Perm (d.sets i).blocks := h.blocks i hi ▸ h.queue i hi
  have hnone : ∀ {p : BlockRef → Bool}, (d.queue i).find? p = none → ∀ b' ∈ (d.sets i).blocks, p b' = false := by
    intro p hfind b' hb'
    simpa using find?_eq_none.mp hfind b' (hperm.mem_iff.mpr hb')
  have hvictim : d.view.findVictim addr = d.view.lruVictim (d.view.sets i) := by
    unfold Directory.findVictim
    rw [hset]
    rfl
  rw [hvictim]
  unfold Directory.lruVictim
  split
  · next b hb =>
    have hold : Oldest (s.2 i) (d.sets i).blocks d.empty b := oldest_of_find (h.recency i hi) hperm hb
    refine ⟨b, rfl, fun _ => hold, fun hno _ => ?_, fun hno => ?_⟩
    · exact absurd hold.meets (by simp [hno b hold.mem])
    · have hlocked := hno b hold.mem
      have hfree := hold.meets
      simp only [DirectoryImpl.unlocked, DirectoryImpl.empty] at hlocked hfree
      simp [hlocked] at hfree
  next hempty =>
  have hempty : ∀ b' ∈ (d.sets i).blocks, d.empty b' = false := hnone hempty
  split
  · next b hb =>
    have hold : Oldest (s.2 i) (d.sets i).blocks d.unlocked b := oldest_of_find (h.recency i hi) hperm hb
    refine ⟨b, rfl, fun ⟨b', hb', hyes⟩ => ?_, fun _ _ => hold, fun hno => ?_⟩
    · exact absurd hyes (by simp [hempty b' hb'])
    · exact absurd hold.meets (by simp [hno b hold.mem])
  next hlocked =>
  have hlocked : ∀ b' ∈ (d.sets i).blocks, d.unlocked b' = false := hnone hlocked
  split
  · next b rest hq =>
    refine ⟨b, rfl, fun ⟨b', hb', hyes⟩ => ?_, fun _ ⟨b', hb', hyes⟩ => ?_, fun _ => ?_⟩
    · exact absurd hyes (by simp [hempty b' hb'])
    · exact absurd hyes (by simp [hlocked b' hb'])
    · refine oldest_of_find (h.recency i hi) hperm ?_
      rw [show d.queue i = b :: rest from hq]
      rfl
  · next hq =>
    have hlen := (h.queue i hi).length_eq
    rw [show d.queue i = [] from hq, waysOf, length_map, length_range] at hlen
    exact absurd hlen (Nat.ne_of_lt hways)

theorem Tracked.lru {s : Nat × (Nat → List BlockRef)} (h : d.Tracked s) : d.Lru spare s.2 where
  blocks := h.blocks
  queue i hi := h.blocks i hi ▸ h.queue i hi
  visit b hb := by
    obtain ⟨d', hvisit, -, -, hblocks, hsets, hqueue⟩ := visit_ok spare h.sound hb
    refine ⟨d', hvisit, hsets, hblocks, fun i hi => ?_⟩
    simp only [hqueue i hi, h.blocks i hi, (h.queue i hi).mem_iff]
  victim _ _ hset hways := h.victim hset hways

/-- **The LRU law.** After any calls and assignments, each queue is a permutation of the blocks of its set, `Visit` moves just
the visited block to the end of its queue, and `FindVictim` finds the oldest of the blocks it prefers. -/
theorem directory_lru {ops : List Op} (h : ops.foldlM (exec spare) (new spare g) = .ok d) : d.Lru spare (visits g ops) := by
  suffices hall : ∀ (ops : List Op) (d₀ : DirectoryImpl g) s, d₀.Tracked s → ops.foldlM (exec spare) d₀ = .ok d →
      d.Tracked (ops.foldl (note g) s) from (hall ops _ _ (tracked_addSets _ _ _) h).lru
  intro ops
  induction ops with
  | nil =>
    intro d₀ s hd₀ h
    cases h
    exact hd₀
  | cons op ops ih =>
    intro d₀ s hd₀ h
    rw [foldlM_cons] at h
    obtain ⟨d₁, hexec, h⟩ := eq_ok_of_bind h
    exact ih d₁ _ (hd₀.exec hexec) h

theorem directory_lru_two_ways :
    let g : Geometry := { numSets := 1, numWays := 2, blockSize := 64 }
    ∃ d : DirectoryImpl g, [.visit { gen := 0, setID := 0, wayID := 0 }, .findVictim 128].foldlM (exec fun _ n => n)
      (new (fun _ n => n) g) = .ok d ∧
      d.Lru (fun _ n => n) (visits g [.visit { gen := 0, setID := 0, wayID := 0 }, .findVictim 128]) :=
  ⟨_, rfl, @directory_lru _ (fun _ n => n) _ _ rfl⟩

end DirectoryImpl

end Akita.Mem.Cache
