import Akita.Noc.NetworkConnector

/-!
# Meshes

`mesh.Connector`: tiles are added to a grid that grows, and `establishNetwork` makes a switch and an end point for each tile
of the grid and a link between neighbors. Tiles and routing tables are known by pointers, which stay what they were when the
grid grows.

* `network` : `AddTile` calls and `EstablishNetwork`;
* `Grid` : the tiles know their locations; `Placed` : the switch of a tile; `Joined` : the link of two neighbors;
* `Established` : the network that was built. `network_ok` : the calls build it.
-/

namespace Akita.Noc.Mesh
open List hiding getElem?_eq_some_iff
open Function

/-- A location in the grid, or a size of it: `[3]int`. -/
structure Loc where
  x : Nat
  y : Nat
  z : Nat
deriving DecidableEq

namespace Loc

/-- The location is in a grid of the size. -/
def In (l size : Loc) : Prop := l.x < size.x ∧ l.y < size.y ∧ l.z < size.z

instance (l size : Loc) : Decidable (l.In size) := inferInstanceAs (Decidable (_ ∧ _ ∧ _))

end Loc

inductive Axis
  | x
  | y
  | z
deriving DecidableEq

def Loc.get (l : Loc) : Axis → Nat
  | .x => l.x
  | .y => l.y
  | .z => l.z

/-- The neighbor of `l` on an axis, with the next greater or smaller coordinate. -/
def Loc.move (l : Loc) : Axis → Bool → Loc
  | .x, true => { l with x := l.x + 1 }
  | .x, false => { l with x := l.x - 1 }
  | .y, true => { l with y := l.y + 1 }
  | .y, false => { l with y := l.y - 1 }
  | .z, true => { l with z := l.z + 1 }
  | .z, false => { l with z := l.z - 1 }

/-- A pointer. Each allocation has a number, and gives one object for each location. -/
structure Ptr where
  alloc : Nat
  loc : Loc
deriving DecidableEq

/-- `meshRoutingTable`. The tables of the switches all have the `dstTable` of the connector; `localPort` is the field
`local`. -/
structure MeshRoutingTable where
  x : Nat
  y : Nat
  z : Nat
  top : Option Nat := none
  left : Option Nat := none
  bottom : Option Nat := none
  right : Option Nat := none
  front : Option Nat := none
  back : Option Nat := none
  localPort : Option Nat := none

namespace MeshRoutingTable

def loc (t : MeshRoutingTable) : Loc := ⟨t.x, t.y, t.z⟩

/-- The port to the neighbor on an axis. -/
def port (t : MeshRoutingTable) : Axis → Bool → Option Nat
  | .x, true => t.right
  | .x, false => t.left
  | .y, true => t.bottom
  | .y, false => t.top
  | .z, true => t.back
  | .z, false => t.front

def setPort (t : MeshRoutingTable) (p : Option Nat) : Axis → Bool → MeshRoutingTable
  | .x, true => { t with right := p }
  | .x, false => { t with left := p }
  | .y, true => { t with bottom := p }
  | .y, false => { t with top := p }
  | .z, true => { t with back := p }
  | .z, false => { t with front := p }

@[simp] theorem loc_setPort (t : MeshRoutingTable) (p : Option Nat) (a : Axis) (b : Bool) :
    (t.setPort p a b).loc = t.loc := by
  cases a <;> cases b <;> rfl

@[simp] theorem localPort_setPort (t : MeshRoutingTable) (p : Option Nat) (a : Axis) (b : Bool) :
    (t.setPort p a b).localPort = t.localPort := by
  cases a <;> cases b <;> rfl

theorem port_setPort (t : MeshRoutingTable) (p : Option Nat) (a a' : Axis) (b b' : Bool) :
    (t.setPort p a b).port a' b' = if a' = a ∧ b' = b then p else t.port a' b' := by
  cases a <;> cases b <;> cases a' <;> cases b' <;> rfl

end MeshRoutingTable

structure Tile (π : Type) where
  ports : List π := []
  sw : Nat := 0
  rt : Ptr

/-- `mesh.Connector`. Ports are known by their names `π`, and `tiles` and `tables` are what the pointers point to. -/
structure Connector (π : Type) where
  connector : Noc.Connector Ptr π := {}
  freq : ℚ
  linkTransferPerCycle : ℚ
  gridSize : Loc
  gridCap : Loc
  /-- The allocation of the grid, and how many allocations of tiles and of routing tables there were. -/
  grid : Nat
  numGrids : Nat
  numTables : Nat
  tiles : Ptr → Tile π
  tables : Ptr → MeshRoutingTable
  dstTable : π → Option Ptr

namespace Connector

variable {π : Type} (c : Connector π)

/-- `grid[x][y][z]` -/
def tile (l : Loc) : Tile π := c.tiles ⟨c.grid, l⟩

/-- The routing table of the tile. -/
def rt (l : Loc) : MeshRoutingTable := c.tables (c.tile l).rt

def index (l : Loc) : Except String (Tile π) := if l.In c.gridCap then .ok (c.tile l) else .error "index out of range"

def setTile (l : Loc) (t : Tile π) : Connector π := { c with tiles := update c.tiles ⟨c.grid, l⟩ t }

def setTable (p : Ptr) (t : MeshRoutingTable) : Connector π := { c with tables := update c.tables p t }

/-- `initializeGrid`: each tile has a new routing table. -/
def initializeGrid : Connector π :=
  { c with
    numGrids := c.numGrids + 1
    numTables := c.numTables + 1
    tiles := fun p => if p.alloc = c.numGrids then { rt := ⟨c.numTables, p.loc⟩ } else c.tiles p
    tables := fun p => if p.alloc = c.numTables then { x := p.loc.x, y := p.loc.y, z := p.loc.z } else c.tables p }

/-- `NewConnector` and `CreateNetwork`. -/
def createNetwork (freq linkTransferPerCycle : ℚ) : Connector π :=
  initializeGrid
    { freq, linkTransferPerCycle, gridSize := ⟨0, 0, 0⟩, gridCap := ⟨8, 8, 2⟩, grid := 0, numGrids := 0, numTables := 0,
      tiles := fun p => { rt := p }, tables := fun _ => { x := 0, y := 0, z := 0 }, dstTable := fun _ => none }

/-- The tiles within the size of the grid are copied, with their pointers to routing tables. -/
def resizeGridToHold (loc : Loc) : Connector π :=
  if loc.In c.gridCap then c
  else
    let newGrid := c.numGrids
    let newGridCap : Loc :=
      { x := if loc.x ≥ c.gridCap.x then loc.x * 2 else c.gridCap.x
        y := if loc.y ≥ c.gridCap.y then loc.y * 2 else c.gridCap.y
        z := if loc.z ≥ c.gridCap.z then loc.z * 2 else c.gridCap.z }
    let d := c.initializeGrid
    { d with
      tiles := fun p => if p.alloc = newGrid ∧ p.loc.In c.gridSize then c.tile p.loc else d.tiles p
      grid := newGrid
      gridCap := newGridCap }

def updateSize (loc : Loc) : Connector π :=
  { c with
    gridSize :=
      { x := if loc.x ≥ c.gridSize.x then loc.x + 1 else c.gridSize.x
        y := if loc.y ≥ c.gridSize.y then loc.y + 1 else c.gridSize.y
        z := if loc.z ≥ c.gridSize.z then loc.z + 1 else c.gridSize.z } }

def mergePorts (loc : Loc) (ports : List π) : Except String (Connector π) := do
  let t ← c.index loc
  return c.setTile loc { t with ports := t.ports ++ ports }

/-- A call of `AddTile`. -/
structure AddTile (π : Type) where
  x : Int
  y : Int
  z : Int
  ports : List π

def AddTile.loc (a : AddTile π) : Loc := ⟨a.x.toNat, a.y.toNat, a.z.toNat⟩

def AddTile.NonNegative (a : AddTile π) : Prop := 0 ≤ a.x ∧ 0 ≤ a.y ∧ 0 ≤ a.z

def addTile [DecidableEq π] (a : AddTile π) : Except String (Connector π) :=
  if a.x < 0 ∨ a.y < 0 ∨ a.z < 0 then .error "coordinate is negative"
  else do
    let d ← ((c.resizeGridToHold a.loc).updateSize a.loc).mergePorts a.loc a.ports
    return { d with dstTable := fun p => if p ∈ a.ports then some ⟨d.grid, a.loc⟩ else d.dstTable p }

/-! ## `EstablishNetwork` -/

/-- The locations within the size of the grid, in the order of the loops. -/
def locs : List Loc :=
  (range c.gridSize.x).flatMap fun x => (range c.gridSize.y).flatMap fun y => (range c.gridSize.z).map fun z => ⟨x, y, z⟩

/-- The tile with its switch and a new routing table. -/
def placeSwitch (l : Loc) (sw swPort : Nat) (network : Noc.Connector Ptr π) : Connector π :=
  let rt : Ptr := ⟨c.numTables, l⟩
  { c.setTile l { c.tile l with rt, sw } with
    connector := network
    numTables := c.numTables + 1
    tables := update c.tables rt { x := l.x, y := l.y, z := l.z, localPort := some swPort } }

/-- `createSwitches`, for one tile. -/
def createSwitch (l : Loc) : Except String (Connector π) := do
  let t ← c.index l
  let (sw, network) := c.connector.addSwitch ⟨c.numTables, l⟩
  let (swPort, network) ← network.connectDevice sw t.ports .directConnection
  return c.placeSwitch l sw swPort network

def createSwitches : Except String (Connector π) := c.locs.foldlM createSwitch c

/-- The ports of a new link, in the routing tables of the neighbor and of the tile. -/
def join (a : Axis) (l : Loc) (portA portB : Nat) (network : Noc.Connector Ptr π) : Connector π :=
  let c := { c with connector := network }
  let c := c.setTable (c.tile (l.move a false)).rt ((c.rt (l.move a false)).setPort (some portA) a true)
  c.setTable (c.tile l).rt ((c.rt l).setPort (some portB) a false)

/-- A link to the neighbor with the smaller coordinate, by `createLink`. -/
def connectWith (a : Axis) (l : Loc) : Except String (Connector π) :=
  if l.get a = 0 then .ok c
  else do
    let curr ← c.index l
    let neighbor ← c.index (l.move a false)
    let ((portA, portB), network) ← c.connector.connectSwitches neighbor.sw curr.sw
      (.channel (c.freq * c.linkTransferPerCycle))
    return c.join a l portA portB network

def connectWithFrontSwitch (l : Loc) : Except String (Connector π) := c.connectWith .z l

def connectWithTopSwitch (l : Loc) : Except String (Connector π) := c.connectWith .y l

def connectWithLeftSwitch (l : Loc) : Except String (Connector π) := c.connectWith .x l

def createLinks : Except String (Connector π) :=
  c.locs.foldlM (fun c l => do
    let c ← c.connectWithFrontSwitch l
    let c ← c.connectWithTopSwitch l
    c.connectWithLeftSwitch l) c

def establishNetwork : Except String (Connector π) := do
  let c ← c.createSwitches
  c.createLinks

/-- The calls that build a mesh. Without the panics for a frequency or a bandwidth of 0. -/
def network [DecidableEq π] (freq linkTransferPerCycle : ℚ) (calls : List (AddTile π)) : Except String (Connector π) := do
  let c ← calls.foldlM (fun c a => c.addTile a) (createNetwork freq linkTransferPerCycle)
  c.establishNetwork

/-- `meshRoutingTable.FindPort` -/
def findPort (t : MeshRoutingTable) (dst : π) : Except String (Option Nat) :=
  match c.dstTable dst with
  | none => .error "nil pointer dereference"
  | some dstTile =>
    let d := c.tables (c.tiles dstTile).rt
    if d.z < t.z then .ok t.front
    else if d.z > t.z then .ok t.back
    else if d.y < t.y then .ok t.top
    else if d.y > t.y then .ok t.bottom
    else if d.x < t.x then .ok t.left
    else if d.x > t.x then .ok t.right
    else if d.x = t.x ∧ d.y = t.y ∧ d.z = t.z then .ok t.localPort
    else .error "unreachable"

/-- The port a switch sends on, when `FindPort` gives one. -/
def answer (dst : π) (rt : Ptr) : Option Nat := (c.findPort (c.tables rt) dst).toOption.join

/-! ## The grid -/

section Grid

variable {c}

/-- The tile that the last call with the port was for. -/
def lastTile [DecidableEq π] (calls : List (AddTile π)) (p : π) : Option Loc :=
  (calls.reverse.find? (p ∈ ·.ports)).map AddTile.loc

/-- The tiles know their locations, also those that a pointer of `dstTable` still points to when the grid has grown. -/
structure Grid [DecidableEq π] (c : Connector π) (calls : List (AddTile π)) : Prop where
  cap_pos : 0 < c.gridCap.x ∧ 0 < c.gridCap.y ∧ 0 < c.gridCap.z
  size_le : c.gridSize.x ≤ c.gridCap.x ∧ c.gridSize.y ≤ c.gridCap.y ∧ c.gridSize.z ≤ c.gridCap.z
  grid_lt : c.grid < c.numGrids
  rt_lt : ∀ p, p.alloc < c.numGrids → (c.tiles p).rt.alloc < c.numTables
  rt_loc : ∀ p, p.alloc < c.numGrids → (c.tables (c.tiles p).rt).loc = p.loc
  dst : ∀ {p q}, c.dstTable p = some q → q.alloc < c.numGrids ∧ q.loc.In c.gridSize ∧ p ∈ (c.tile q.loc).ports
  holds : ∀ a ∈ calls, a.loc.In c.gridSize
  last : ∀ p, (c.dstTable p).map Ptr.loc = lastTile calls p

variable [DecidableEq π] {calls : List (AddTile π)}

theorem Grid.in_cap (h : Grid c calls) {l : Loc} (hl : l.In c.gridSize) : l.In c.gridCap := by
  obtain ⟨_, _, _⟩ := h.size_le
  obtain ⟨_, _, _⟩ := hl
  exact ⟨by omega, by omega, by omega⟩

theorem Grid.tile_lt (h : Grid c calls) (l : Loc) : (c.tile l).rt.alloc < c.numTables := h.rt_lt ⟨c.grid, l⟩ h.grid_lt

theorem Grid.loc_rt (h : Grid c calls) (l : Loc) : (c.rt l).loc = l := h.rt_loc ⟨c.grid, l⟩ h.grid_lt

theorem Grid.index_eq (h : Grid c calls) {l : Loc} (hl : l.In c.gridSize) : c.index l = .ok (c.tile l) := if_pos (h.in_cap hl)

theorem grid_createNetwork (freq linkTransferPerCycle : ℚ) :
    Grid (createNetwork freq linkTransferPerCycle : Connector π) [] where
  cap_pos := ⟨Nat.succ_pos 7, Nat.succ_pos 7, Nat.succ_pos 1⟩
  size_le := ⟨Nat.zero_le _, Nat.zero_le _, Nat.zero_le _⟩
  grid_lt := Nat.zero_lt_one
  rt_lt p hp := by
    have hp : p.alloc = 0 := Nat.lt_one_iff.1 hp
    simp [createNetwork, initializeGrid, hp]
  rt_loc p hp := by
    have hp : p.alloc = 0 := Nat.lt_one_iff.1 hp
    simp [createNetwork, initializeGrid, hp, MeshRoutingTable.loc]
  dst h := by cases h
  holds a ha := absurd ha not_mem_nil
  last p := rfl

theorem le_grow (a b : Nat) : b ≤ if a ≥ b then a * 2 else b := by
  split <;> omega

theorem lt_grow {a b : Nat} (h : 0 < b) : a < if a ≥ b then a * 2 else b := by
  split <;> omega

theorem resizeGridToHold_spec (h : Grid c calls) (loc : Loc) :
    Grid (c.resizeGridToHold loc) calls ∧ loc.In (c.resizeGridToHold loc).gridCap ∧
      (c.resizeGridToHold loc).connector = c.connector := by
  unfold resizeGridToHold
  by_cases hcap : loc.In c.gridCap
  · rw [if_pos hcap]
    exact ⟨h, hcap, rfl⟩
  · rw [if_neg hcap]
    obtain ⟨hx, hy, hz⟩ := h.cap_pos
    obtain ⟨sx, sy, sz⟩ := h.size_le
    have htile : ∀ l : Loc, (c.tile l).rt.alloc ≠ c.numTables := fun l => Nat.ne_of_lt (h.tile_lt l)
    refine ⟨⟨?_, ?_, Nat.lt_succ_self _, fun p hp => ?_, fun p hp => ?_, fun {p q} hq => ?_, h.holds, h.last⟩, ?_, rfl⟩
    · exact ⟨hx.trans_le (le_grow ..), hy.trans_le (le_grow ..), hz.trans_le (le_grow ..)⟩
    · exact ⟨sx.trans (le_grow ..), sy.trans (le_grow ..), sz.trans (le_grow ..)⟩
    · dsimp only [initializeGrid] at hp ⊢
      by_cases hnew : p.alloc = c.numGrids
      · by_cases hin : p.loc.In c.gridSize
        · simp only [hnew, hin, and_self, if_true]
          exact Nat.lt_succ_of_lt (h.tile_lt _)
        · simp only [hnew, hin, and_false, if_true, if_false]
          exact Nat.lt_succ_self _
      · simp only [hnew, false_and, if_false]
        exact Nat.lt_succ_of_lt (h.rt_lt p (by omega))
    · dsimp only [initializeGrid] at hp ⊢
      by_cases hnew : p.alloc = c.numGrids
      · by_cases hin : p.loc.In c.gridSize
        · simp only [hnew, hin, and_self, if_true, if_neg (htile _)]
          exact h.loc_rt _
        · simp only [hnew, hin, and_false, if_true, if_false]
          rfl
      · have hlt : p.alloc < c.numGrids := by omega
        simp only [hnew, false_and, if_false, if_neg (Nat.ne_of_lt (h.rt_lt p hlt))]
        exact h.rt_loc p hlt
    · obtain ⟨hlt, hin, hports⟩ := h.dst hq
      refine ⟨Nat.lt_succ_of_lt hlt, hin, ?_⟩
      unfold tile
      dsimp only
      rw [if_pos ⟨rfl, hin⟩]
      exact hports
    · exact ⟨lt_grow hx, lt_grow hy, lt_grow hz⟩

theorem updateSize_spec (h : Grid c calls) {loc : Loc} (hloc : loc.In c.gridCap) :
    Grid (c.updateSize loc) calls ∧ loc.In (c.updateSize loc).gridSize := by
  obtain ⟨sx, sy, sz⟩ := h.size_le
  obtain ⟨lx, ly, lz⟩ := hloc
  have hle : ∀ {a b d : Nat}, a < d → b ≤ d → (if a ≥ b then a + 1 else b) ≤ d := by
    intro a b d _ _
    split <;> omega
  have hlt : ∀ a b : Nat, a < if a ≥ b then a + 1 else b := by
    intro a b
    split <;> omega
  have hmono : ∀ l : Loc, l.In c.gridSize → l.In (c.updateSize loc).gridSize := by
    have hgrow : ∀ a b : Nat, b ≤ if a ≥ b then a + 1 else b := by
      intro a b
      split <;> omega
    rintro l ⟨h1, h2, h3⟩
    exact ⟨h1.trans_le (hgrow ..), h2.trans_le (hgrow ..), h3.trans_le (hgrow ..)⟩
  refine ⟨⟨h.cap_pos, ⟨hle lx sx, hle ly sy, hle lz sz⟩, h.grid_lt, h.rt_lt, h.rt_loc, fun hq => ?_, fun a ha => ?_, h.last⟩,
    hlt _ _, hlt _ _, hlt _ _⟩
  · obtain ⟨h1, h2, h3⟩ := h.dst hq
    exact ⟨h1, hmono _ h2, h3⟩
  · exact hmono _ (h.holds a ha)

theorem addTile_ok (h : Grid c calls) {a : AddTile π} (ha : a.NonNegative) :
    Succeeds (fun d => Grid d (calls ++ [a]) ∧ d.connector = c.connector) (c.addTile a) := by
  obtain ⟨h1, hcap, hnet⟩ := resizeGridToHold_spec h a.loc
  obtain ⟨h2, hin⟩ := updateSize_spec h1 hcap
  unfold addTile
  rw [if_neg (by obtain ⟨_, _, _⟩ := ha; omega)]
  unfold mergePorts
  rw [h2.index_eq hin]
  refine .ok ⟨?_, hnet⟩
  generalize ((c.resizeGridToHold a.loc).updateSize a.loc) = d at h2 hin ⊢
  have hports : ∀ l, ((d.setTile a.loc { d.tile a.loc with ports := (d.tile a.loc).ports ++ a.ports }).tile l).ports =
      (d.tile l).ports ++ if l = a.loc then a.ports else [] := by
    intro l
    unfold setTile tile
    by_cases hl : l = a.loc
    · subst hl
      simp
    · simp [hl]
  have hrt : ∀ p, ((d.setTile a.loc { d.tile a.loc with ports := (d.tile a.loc).ports ++ a.ports }).tiles p).rt =
      (d.tiles p).rt := by
    intro p
    unfold setTile tile
    by_cases hp : p = ⟨d.grid, a.loc⟩
    · subst hp
      simp
    · simp [hp]
  refine ⟨h2.cap_pos, h2.size_le, h2.grid_lt, fun p hp => ?_, fun p hp => ?_, fun {p q} hq => ?_, fun b hb => ?_, fun p => ?_⟩
  · rw [hrt]
    exact h2.rt_lt p hp
  · rw [hrt]
    exact h2.rt_loc p hp
  · unfold tile at hports ⊢
    dsimp only at hq hports ⊢
    rw [hports]
    by_cases hp : p ∈ a.ports
    · rw [if_pos hp] at hq
      cases hq
      exact ⟨h2.grid_lt, hin, mem_append_right _ (by rw [if_pos rfl]; exact hp)⟩
    · rw [if_neg hp] at hq
      obtain ⟨hlt, hin', hold⟩ := h2.dst hq
      exact ⟨hlt, hin', mem_append_left _ hold⟩
  · rcases mem_append.1 hb with hb | hb
    · exact h2.holds b hb
    · rw [mem_singleton.1 hb]
      exact hin
  · have hlast := h2.last p
    unfold lastTile at hlast ⊢
    rw [reverse_append, reverse_singleton, singleton_append, find?_cons]
    by_cases hp : p ∈ a.ports
    · simp only [hp, if_true, decide_true, Option.map_some]
    · simp only [hp, if_false, decide_false]
      exact hlast

theorem addTiles_ok (freq linkTransferPerCycle : ℚ) (calls : List (AddTile π)) (h : ∀ a ∈ calls, a.NonNegative) :
    Succeeds (fun d : Connector π => Grid d calls ∧ d.connector = {})
      (calls.foldlM (fun c a => c.addTile a) (createNetwork freq linkTransferPerCycle)) := by
  refine Succeeds.foldlM (P := fun pre (d : Connector π) => Grid d pre ∧ d.connector = {}) ⟨grid_createNetwork .., rfl⟩ ?_
  rintro pre a post d hsplit ⟨hgrid, hnet⟩
  refine (addTile_ok hgrid (h a ?_)).mono fun e he => ⟨he.1, he.2.trans hnet⟩
  rw [hsplit]
  exact mem_append_right _ (mem_cons_self ..)

end Grid

/-! ## The switches -/

section Switches

variable {c} {c' : Connector π} {l : Loc}

theorem mem_locs {l : Loc} : l ∈ c.locs ↔ l.In c.gridSize := by
  obtain ⟨_, _, _⟩ := l
  simp [locs, Loc.In]

theorem nodup_locs : c.locs.Nodup := by
  unfold locs
  refine nodup_flatMap.2 ⟨fun x _ => nodup_flatMap.2 ⟨fun y _ => ?_, ?_⟩, ?_⟩
  · exact nodup_range.map fun _ _ h => (Loc.mk.inj h).2.2
  · refine nodup_range.imp fun {y y'} hne l hl hl' => ?_
    obtain ⟨z, -, rfl⟩ := mem_map.1 hl
    obtain ⟨z', -, heq⟩ := mem_map.1 hl'
    exact hne (Loc.mk.inj heq).2.1.symm
  · refine nodup_range.imp fun {x x'} hne l hl hl' => ?_
    obtain ⟨_, -, hl⟩ := mem_flatMap.1 hl
    obtain ⟨_, -, hl'⟩ := mem_flatMap.1 hl'
    obtain ⟨_, -, rfl⟩ := mem_map.1 hl
    obtain ⟨_, -, heq⟩ := mem_map.1 hl'
    exact hne (Loc.mk.inj heq).1.symm

/-- The tile has a switch with its routing table, and an end point with its ports at the local port. -/
structure Placed (c : Connector π) (l : Loc) : Prop where
  table : (c.connector.switches[(c.tile l).sw]?).map SwitchNode.table = some (c.tile l).rt
  device : ∃ r ∈ c.connector.remotes (.switch (c.tile l).sw), (c.rt l).localPort = some r.localPort ∧
    ∃ d dev, r.remoteNode = .device d ∧ c.connector.devices[d]? = some dev ∧ dev.ports = (c.tile l).ports

theorem Placed.sw_lt (h : Placed c l) : (c.tile l).sw < c.connector.switches.length := by
  obtain ⟨_, hnode, -⟩ := Option.map_eq_some_iff.1 h.table
  exact (List.getElem?_eq_some_iff.1 hnode).1

theorem Placed.grows (h : Placed c l) (hg : Noc.Connector.Grows c.connector c'.connector) (htile : c'.tile l = c.tile l)
    (hlocal : (c'.rt l).localPort = (c.rt l).localPort) : Placed c' l := by
  obtain ⟨r, hr, hport, d, dev, hnode, hdev, hports⟩ := h.device
  refine ⟨?_, r, ?_, hlocal.trans hport, d, dev, hnode, hg.device hdev, ?_⟩
  · rw [htile]
    exact hg.table h.table
  · rw [htile]
    exact hg.remotes hr
  · rw [htile]
    exact hports

section PlaceSwitch

variable {sw swPort : Nat} {net : Noc.Connector Ptr π}

theorem tile_placeSwitch_self : (c.placeSwitch l sw swPort net).tile l = { c.tile l with rt := ⟨c.numTables, l⟩, sw } :=
  update_self ..

theorem tile_placeSwitch_of_ne {l' : Loc} (hne : l' ≠ l) : (c.placeSwitch l sw swPort net).tile l' = c.tile l' :=
  update_of_ne (fun h => hne (Ptr.mk.inj h).2) ..

theorem ports_placeSwitch (l' : Loc) : ((c.placeSwitch l sw swPort net).tile l').ports = (c.tile l').ports := by
  by_cases hne : l' = l
  · subst hne
    rw [tile_placeSwitch_self]
  · rw [tile_placeSwitch_of_ne hne]

theorem rt_placeSwitch_self :
    (c.placeSwitch l sw swPort net).rt l = { x := l.x, y := l.y, z := l.z, localPort := some swPort } := by
  unfold rt
  rw [tile_placeSwitch_self]
  exact update_self ..

theorem placed_placeSwitch (htable : (net.switches[sw]?).map SwitchNode.table = some ⟨c.numTables, l⟩) {r : Remote}
    (hr : r ∈ net.remotes (.switch sw)) (hport : r.localPort = swPort) {d : Nat} {dev : DeviceNode π}
    (hnode : r.remoteNode = .device d) (hdev : net.devices[d]? = some dev) (hports : dev.ports = (c.tile l).ports) :
    Placed (c.placeSwitch l sw swPort net) l := by
  refine ⟨?_, r, ?_, ?_, d, dev, hnode, hdev, ?_⟩
  · rw [tile_placeSwitch_self]
    exact htable
  · rw [tile_placeSwitch_self]
    exact hr
  · rw [rt_placeSwitch_self, hport]
  · rw [ports_placeSwitch]
    exact hports

end PlaceSwitch

variable [DecidableEq π] {calls : List (AddTile π)}

/-- The tiles at `pre` have their switches, and there are no others. -/
structure Switched (c : Connector π) (calls : List (AddTile π)) (pre : List Loc) : Prop where
  grid : Grid c calls
  wellFormed : c.connector.WellFormed
  placed : ∀ l ∈ pre, Placed c l
  cover : ∀ i < c.connector.switches.length, ∃ l ∈ pre, (c.tile l).sw = i

section PlaceSwitch

variable {sw swPort : Nat} {net : Noc.Connector Ptr π}

theorem rt_placeSwitch_of_ne (h : Grid c calls) {l' : Loc} (hne : l' ≠ l) :
    (c.placeSwitch l sw swPort net).rt l' = c.rt l' := by
  have hlt := h.tile_lt l'
  unfold rt
  rw [tile_placeSwitch_of_ne hne]
  refine update_of_ne (fun hp => ?_) ..
  rw [hp] at hlt
  exact absurd hlt (lt_irrefl _)

theorem grid_placeSwitch (h : Grid c calls) : Grid (c.placeSwitch l sw swPort net) calls := by
  refine ⟨h.cap_pos, h.size_le, h.grid_lt, fun p hp => ?_, fun p hp => ?_, fun {p q} hq => ?_, h.holds, h.last⟩
  · unfold placeSwitch setTile
    dsimp only
    by_cases hpl : p = ⟨c.grid, l⟩
    · rw [hpl, update_self]
      exact Nat.lt_succ_self _
    · rw [update_of_ne hpl]
      exact Nat.lt_succ_of_lt (h.rt_lt p hp)
  · unfold placeSwitch setTile
    dsimp only
    by_cases hpl : p = ⟨c.grid, l⟩
    · rw [hpl, update_self, update_self]
      rfl
    · have hlt := h.rt_lt p hp
      rw [update_of_ne hpl, update_of_ne]
      · exact h.rt_loc p hp
      · intro hrt
        rw [hrt] at hlt
        exact absurd hlt (lt_irrefl _)
  · obtain ⟨hlt, hin, hports⟩ := h.dst hq
    refine ⟨hlt, hin, ?_⟩
    rw [ports_placeSwitch]
    exact hports

end PlaceSwitch

theorem createSwitch_ok {pre : List Loc} (h : Switched c calls pre) (hl : l.In c.gridSize) (hnew : l ∉ pre) :
    Succeeds (fun c' => Switched c' calls (pre ++ [l]) ∧ c'.gridSize = c.gridSize) (c.createSwitch l) := by
  have hlt : c.connector.switches.length < (c.connector.addSwitch (⟨c.numTables, l⟩ : Ptr)).2.switches.length := by
    unfold Noc.Connector.addSwitch
    simp
  obtain ⟨_, net, hok⟩ := Noc.Connector.connectDevice_ok hlt (c.tile l).ports .directConnection
  obtain ⟨r, hadds, hlocal, hnode, hport, -, hdevices, -, hlen, htables⟩ := Noc.Connector.connectDevice_eq_ok hok
  have hgrows : Noc.Connector.Grows c.connector net :=
    (Noc.Connector.grows_addSwitch _ _).trans (hadds.grows hdevices htables)
  unfold createSwitch
  rw [h.grid.index_eq hl]
  dsimp only [bind, Except.bind, pure, Except.pure]
  unfold Noc.Connector.addSwitch at hok ⊢
  rw [hok]
  refine .ok ⟨⟨grid_placeSwitch h.grid, ?_, fun l' hl' => ?_, fun i hi => ?_⟩, rfl⟩
  · exact (h.wellFormed.addSwitch _).adds hadds
  · rcases mem_append.1 hl' with hpre | hl'
    · have hne : l' ≠ l := by
        rintro rfl
        exact hnew hpre
      exact (h.placed l' hpre).grows hgrows (tile_placeSwitch_of_ne hne) (by rw [rt_placeSwitch_of_ne h.grid hne])
    · rw [mem_singleton.1 hl']
      have hdev : net.devices[c.connector.devices.length]? = some ⟨(c.tile l).ports, r⟩ := by
        rw [hdevices]
        exact getElem?_concat_length
      refine placed_placeSwitch ?_ (r := r.swap) ?_ hport hlocal hdev rfl
      · rw [htables]
        unfold Noc.Connector.addSwitch
        dsimp only
        rw [getElem?_concat_length]
        rfl
      · rw [hadds.remotes]
        exact mem_append_right _ (Remote.mem_ends.2 ⟨Or.inr rfl, hnode⟩)
  · have hi : i < c.connector.switches.length + 1 := by
      have hlen' : (c.connector.addSwitch (⟨c.numTables, l⟩ : Ptr)).2.switches.length = c.connector.switches.length + 1 :=
        length_append
      rw [← hlen', ← hlen]
      exact hi
    rcases Nat.lt_succ_iff_lt_or_eq.1 hi with hi | rfl
    · obtain ⟨l', hl', hsw⟩ := h.cover i hi
      have hne : l' ≠ l := by
        rintro rfl
        exact hnew hl'
      exact ⟨l', mem_append_left _ hl', by rw [tile_placeSwitch_of_ne hne, hsw]⟩
    · exact ⟨l, mem_append_right _ (mem_singleton_self _), by rw [tile_placeSwitch_self]⟩

theorem Switched.new (h : Grid c calls) (hnet : c.connector = {}) : Switched c calls [] := by
  refine ⟨h, ?_, forall_mem_nil _, fun i hi => ?_⟩
  · rw [hnet]
    exact .new
  · rw [hnet] at hi
    exact absurd hi (Nat.not_lt_zero i)

theorem createSwitches_ok (h : Grid c calls) (hnet : c.connector = {}) :
    Succeeds (fun c' => Switched c' calls c'.locs) c.createSwitches := by
  have hrun : Succeeds (fun c' => Switched c' calls c.locs ∧ c'.gridSize = c.gridSize) c.createSwitches := by
    refine Succeeds.foldlM_nodup (P := fun pre (c' : Connector π) => Switched c' calls pre ∧ c'.gridSize = c.gridSize)
      nodup_locs
      ⟨.new h hnet, rfl⟩ ?_
    rintro pre l c' hl hnew ⟨hc', hsize⟩
    refine (createSwitch_ok hc' ?_ hnew).mono fun d hd => ⟨hd.1, hd.2.trans hsize⟩
    rw [hsize]
    exact mem_locs.1 hl
  refine hrun.mono fun c' hc' => ?_
  have hlocs : c'.locs = c.locs := by
    unfold locs
    rw [hc'.2]
  rw [hlocs]
  exact hc'.1

end Switches

/-! ## The links -/

section Links

variable {c} {a a' : Axis} {l l' : Loc} {portA portB : Nat} {net : Noc.Connector Ptr π}

theorem move_ne (h : 0 < l.get a) : l.move a false ≠ l := by
  intro heq
  cases a
  · have hx : l.x - 1 = l.x := congrArg Loc.x heq
    have h : 0 < l.x := h
    omega
  · have hy : l.y - 1 = l.y := congrArg Loc.y heq
    have h : 0 < l.y := h
    omega
  · have hz : l.z - 1 = l.z := congrArg Loc.z heq
    have h : 0 < l.z := h
    omega

theorem move_true_move_false (h : 0 < l.get a) : (l.move a false).move a true = l := by
  obtain ⟨_, _, _⟩ := l
  cases a <;> simp only [Loc.move, Loc.mk.injEq, true_and, and_true] <;> exact Nat.sub_add_cancel h

theorem move_inj (h : 0 < l.get a) (h' : 0 < l'.get a) (heq : l.move a false = l'.move a false) : l = l' := by
  rw [← move_true_move_false h, heq, move_true_move_false h']

theorem in_move {size : Loc} (h : l.In size) : (l.move a false).In size := by
  obtain ⟨hx, hy, hz⟩ := h
  cases a
  · exact ⟨(Nat.sub_le ..).trans_lt hx, hy, hz⟩
  · exact ⟨hx, (Nat.sub_le ..).trans_lt hy, hz⟩
  · exact ⟨hx, hy, (Nat.sub_le ..).trans_lt hz⟩

/-- The tile and its neighbor with the smaller coordinate have a link, and know its ports. -/
structure Joined (c : Connector π) (a : Axis) (l : Loc) : Prop where
  up : ∃ r ∈ c.connector.remotes (.switch (c.tile (l.move a false)).sw), (c.rt (l.move a false)).port a true =
    some r.localPort ∧
    r.remoteNode = .switch (c.tile l).sw
  down : ∃ r ∈ c.connector.remotes (.switch (c.tile l).sw), (c.rt l).port a false = some r.localPort ∧
    r.remoteNode = .switch (c.tile (l.move a false)).sw

theorem tables_join {β : Type} (f : MeshRoutingTable → β) (hf : ∀ t port a b, f (t.setPort port a b) = f t) (p : Ptr) :
    f ((c.join a l portA portB net).tables p) = f (c.tables p) := by
  have hset : ∀ (d : Connector π) (q : Ptr) (port : Option Nat) (b : Bool),
      f ((d.setTable q ((d.tables q).setPort port a b)).tables p) = f (d.tables p) := by
    intro d q port b
    unfold setTable
    dsimp only
    by_cases hp : p = q
    · rw [hp, update_self, hf]
    · rw [update_of_ne hp]
  exact (hset ..).trans (hset ..)

variable [DecidableEq π] {calls : List (AddTile π)}

theorem Grid.rt_inj (h : Grid c calls) (heq : (c.tile l).rt = (c.tile l').rt) : l = l' := by
  rw [← h.loc_rt l, ← h.loc_rt l', rt, rt, heq]

variable (portA portB net) in
theorem port_join (h : Grid c calls) (hne : l.move a false ≠ l) (l' : Loc) (a' : Axis) (b : Bool) :
    ((c.join a l portA portB net).rt l').port a' b =
      if l' = l ∧ a' = a ∧ b = false then some portB
      else if l' = l.move a false ∧ a' = a ∧ b = true then some portA else (c.rt l').port a' b := by
  have hptr : (c.tile (l.move a false)).rt ≠ (c.tile l).rt := fun heq => hne (h.rt_inj heq)
  by_cases hl : l' = l
  · subst hl
    have hrt : (c.join a l' portA portB net).rt l' = (c.rt l').setPort (some portB) a false :=
      (update_self ..).trans
        (congrArg (fun t : MeshRoutingTable => t.setPort (some portB) a false) (update_of_ne hptr.symm ..))
    rw [hrt, MeshRoutingTable.port_setPort]
    simp only [true_and, hne.symm, false_and, if_false]
  · have hptr' : (c.tile l').rt ≠ (c.tile l).rt := fun heq => hl (h.rt_inj heq)
    simp only [hl, false_and, if_false]
    by_cases hn : l' = l.move a false
    · subst hn
      have hrt : (c.join a l portA portB net).rt (l.move a false) = (c.rt (l.move a false)).setPort (some portA) a true :=
        (update_of_ne hptr' ..).trans (update_self ..)
      rw [hrt, MeshRoutingTable.port_setPort]
      simp only [true_and]
    · have hptr'' : (c.tile l').rt ≠ (c.tile (l.move a false)).rt := fun heq => hn (h.rt_inj heq)
      have hrt : (c.join a l portA portB net).rt l' = c.rt l' :=
        (update_of_ne hptr' ..).trans (update_of_ne hptr'' ..)
      rw [hrt]
      simp only [hn, false_and, if_false]

theorem grid_join (h : Grid c calls) : Grid (c.join a l portA portB net) calls :=
  { h with rt_loc := fun p hp => (tables_join _ MeshRoutingTable.loc_setPort _).trans (h.rt_loc p hp) }

/-- The switches of the grid, and the links that `D` says were made. -/
structure Meshed (c : Connector π) (calls : List (AddTile π)) (D : Loc → Axis → Prop) : Prop where
  grid : Grid c calls
  wellFormed : c.connector.WellFormed
  placed : ∀ {l}, l.In c.gridSize → Placed c l
  cover : ∀ i < c.connector.switches.length, ∃ l, l.In c.gridSize ∧ (c.tile l).sw = i
  joined : ∀ {l a}, D l a → l.In c.gridSize → 0 < l.get a → Joined c a l

theorem connectWith_ok {D : Loc → Axis → Prop} (h : Meshed c calls D) (hl : l.In c.gridSize) :
    Succeeds (fun c' => Meshed c' calls (fun l' a' => D l' a' ∨ l' = l ∧ a' = a) ∧ c'.gridSize = c.gridSize)
      (c.connectWith a l) := by
  unfold connectWith
  by_cases h0 : l.get a = 0
  · rw [if_pos h0]
    refine .ok ⟨⟨h.grid, h.wellFormed, h.placed, h.cover, fun {l' a'} hD hin hpos => ?_⟩, rfl⟩
    rcases hD with hD | ⟨rfl, rfl⟩
    · exact h.joined hD hin hpos
    · exact absurd h0 (Nat.ne_of_gt hpos)
  · have hpos : 0 < l.get a := Nat.pos_of_ne_zero h0
    have hn : (l.move a false).In c.gridSize := in_move hl
    obtain ⟨portA, portB, net, hok⟩ := Noc.Connector.connectSwitches_ok (h.placed hn).sw_lt (h.placed hl).sw_lt
      (.channel (c.freq * c.linkTransferPerCycle))
    obtain ⟨r, hadds, hlocal, hremote, hA, hB, -, hdevices, -, -, hlen, htables⟩ := Noc.Connector.connectSwitches_eq_ok hok
    have hgrows : Noc.Connector.Grows c.connector net := hadds.grows (by rw [hdevices, append_nil]) htables
    rw [if_neg h0, h.grid.index_eq hl, h.grid.index_eq hn]
    dsimp only [bind, Except.bind, pure, Except.pure]
    rw [hok]
    have hport := port_join portA portB net h.grid (move_ne hpos)
    refine .ok ⟨⟨grid_join h.grid, h.wellFormed.adds hadds, fun {l'} hl' => ?_, fun i hi => ?_,
      fun {l' a'} hD hin hpos' => ?_⟩, rfl⟩
    · exact (h.placed hl').grows hgrows rfl (tables_join _ MeshRoutingTable.localPort_setPort _)
    · exact h.cover i (by rw [← hlen]; exact hi)
    · by_cases hnew : l' = l ∧ a' = a
      · obtain ⟨rfl, rfl⟩ := hnew
        constructor
        · refine ⟨r, ?_, ?_, hremote⟩
          · exact (hadds.remotes _) ▸ mem_append_right _ (Remote.mem_ends.2 ⟨Or.inl rfl, hlocal⟩)
          · dsimp only
            rw [hport, if_neg (by simp), if_pos ⟨rfl, rfl, rfl⟩, hA]
        · refine ⟨r.swap, ?_, ?_, hlocal⟩
          · exact (hadds.remotes _) ▸ mem_append_right _ (Remote.mem_ends.2 ⟨Or.inr rfl, hremote⟩)
          · dsimp only
            rw [hport, if_pos ⟨rfl, rfl, rfl⟩]
            exact congrArg some hB.symm
      · have hold := h.joined (hD.resolve_right hnew) hin hpos'
        obtain ⟨⟨r₁, hr₁, hp₁, hn₁⟩, ⟨r₂, hr₂, hp₂, hn₂⟩⟩ := hold
        refine ⟨⟨r₁, hgrows.remotes hr₁, ?_, hn₁⟩, ⟨r₂, hgrows.remotes hr₂, ?_, hn₂⟩⟩
        · dsimp only
          rw [hport, if_neg (by simp), if_neg ?_]
          · exact hp₁
          · rintro ⟨hmove, rfl, -⟩
            exact hnew ⟨move_inj hpos' hpos hmove, rfl⟩
        · dsimp only
          rw [hport, if_neg (fun hand => hnew ⟨hand.1, hand.2.1⟩), if_neg (by simp)]
          exact hp₂

theorem Meshed.mono {D D' : Loc → Axis → Prop} (h : Meshed c calls D) (hD : ∀ l a, D' l a → D l a) : Meshed c calls D' :=
  ⟨h.grid, h.wellFormed, h.placed, h.cover, fun hl => h.joined (hD _ _ hl)⟩

theorem createLinks_ok (h : Switched c calls c.locs) :
    Succeeds (fun c' => Meshed c' calls fun _ _ => True) c.createLinks := by
  have hrun : Succeeds (fun c' => Meshed c' calls (fun l _ => l ∈ c.locs) ∧ c'.gridSize = c.gridSize) c.createLinks := by
    refine Succeeds.foldlM (P := fun pre (c' : Connector π) => Meshed c' calls (fun l _ => l ∈ pre) ∧
      c'.gridSize = c.gridSize) ?_ ?_
    · refine ⟨⟨h.grid, h.wellFormed, fun hl => h.placed _ (mem_locs.2 hl), fun i hi => ?_, fun hl => absurd hl not_mem_nil⟩,
        rfl⟩
      obtain ⟨l, hl, hsw⟩ := h.cover i hi
      exact ⟨l, mem_locs.1 hl, hsw⟩
    · rintro pre l post c' hsplit ⟨hc', hsize⟩
      have hl : l.In c.gridSize := by
        rw [← mem_locs, hsplit]
        exact mem_append_right _ (mem_cons_self ..)
      refine (connectWith_ok hc' (hsize ▸ hl)).bind fun c₁ h₁ => ?_
      have hsize₁ := h₁.2.trans hsize
      refine (connectWith_ok h₁.1 (hsize₁ ▸ hl)).bind fun c₂ h₂ => ?_
      have hsize₂ := h₂.2.trans hsize₁
      refine (connectWith_ok h₂.1 (hsize₂ ▸ hl)).mono fun c₃ h₃ => ⟨h₃.1.mono fun l' a' hl' => ?_, h₃.2.trans hsize₂⟩
      rcases mem_append.1 hl' with hl' | hl'
      · exact Or.inl (Or.inl (Or.inl hl'))
      · have heq := mem_singleton.1 hl'
        cases a' with
        | x => exact Or.inr ⟨heq, rfl⟩
        | y => exact Or.inl (Or.inr ⟨heq, rfl⟩)
        | z => exact Or.inl (Or.inl (Or.inr ⟨heq, rfl⟩))
  refine hrun.mono fun c' hc' => ⟨hc'.1.grid, hc'.1.wellFormed, hc'.1.placed, hc'.1.cover, fun _ hl => hc'.1.joined ?_ hl⟩
  rw [mem_locs, ← hc'.2]
  exact hl

/-- What the calls of `AddTile` and `EstablishNetwork` build. -/
abbrev Established (c : Connector π) (calls : List (AddTile π)) : Prop := Meshed c calls fun _ _ => True

theorem network_ok (freq linkTransferPerCycle : ℚ) (calls : List (AddTile π)) (h : ∀ a ∈ calls, a.NonNegative) :
    Succeeds (fun c => Established c calls) (network freq linkTransferPerCycle calls) := by
  refine (addTiles_ok freq linkTransferPerCycle calls h).bind fun c hc => ?_
  exact (createSwitches_ok hc.1 hc.2).bind fun c' hc' => createLinks_ok hc'

end Links

end Connector

end Akita.Noc.Mesh
