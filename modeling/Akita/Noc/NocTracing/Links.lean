import Akita.Noc.Channel
import Akita.Noc.Mesh
import Akita.Noc.NocTracing.MeshInfo
import Mathlib.Data.List.TakeWhile

/-!
# The links of a mesh

* `traceTransferTaskStart` : the location that a channel reports for a flit;
* `charges_reverse` : a flit is counted on the edge from the tile that receives it to the tile that sends it.
-/

namespace Akita.Noc.NocTracing
open List
open Messaging (Side Config Msg)
open Mesh (Loc Axis)

/-! ## The links -/

def Side.other : Side → Side
  | .left => .right
  | .right => .left

/-- The tiles of the ports of a link, in the order in which `connectPorts` plugs them in: the neighbor, which is nearer to the
origin, is first. -/
def linkTile (a : Axis) (l : Loc) : Side → Loc
  | .left => l.move a false
  | .right => l

/-- The names that `connectWithLeftSwitch`, `connectWithTopSwitch` and `connectWithFrontSwitch` give to the ports. -/
def direction : Axis → Side → String
  | .x, .left => "Right"
  | .x, .right => "Left"
  | .y, .left => "Bottom"
  | .y, .right => "Top"
  | .z, .left => "Back"
  | .z, .right => "Front"

def switchName (network : String) (l : Loc) : String := network ++ "." ++ Sim.indexed "SW" [l.x, l.y, l.z]

def portName (network : String) (a : Axis) (l : Loc) (s : Side) : String :=
  switchName network (linkTile a l s) ++ "." ++ direction a s

theorem portName_ne (network : String) (a : Axis) (l : Loc) : portName network a l .left ≠ portName network a l .right := by
  intro h
  have hend := congrArg (fun name => name.toList.reverse.take 2) h
  cases a <;> simp [portName, direction] at hend

/-- The channel that `createLink` makes between a tile and its neighbor. -/
def linkConfig (network : String) (linkTransferPerCycle : ℚ) (a : Axis) (l : Loc) : Config String where
  pipelineWidth := 1
  pipelineNumStages := 1
  pipelineCyclesPerStage := 1
  port := portName network a l
  sourceSideBufSize _ := ⌈linkTransferPerCycle⌉.toNat
  portBufSize _ := ⌈linkTransferPerCycle⌉.toNat
  distinct := portName_ne network a l

/-- `c.ends[msg.Meta().Src]`, the end that `Send` puts a message into and `moveMsgOneEnd` takes it from. -/
def endOf {α : Type} (cfg : Config String) (msg : Msg String α) : Side :=
  if msg.src = some (cfg.port .left) then .left else .right

/-- `traceTransferTaskStart`: the location for a message from an end. -/
def traceTransferTaskStart (cfg : Config String) (s : Side) : String := cfg.port (Side.other s) ++ "." ++ cfg.port s

def tileOf (l : Loc) : Tile := ⟨l.x, l.y, l.z⟩

/-- The location is of a flit from one tile to the other, whose record counts on the edge between them and on no other. -/
structure Charges (m : MeshInfo) (location : String) (src dst : Loc) : Prop where
  tiles : parseTileIDFromTaskWhereString location = .ok (tileOf src, tileOf dst)
  mem_edges : (m.node (tileOf src), m.node (tileOf dst)) ∈ m.edges
  counts : ∀ time y, ∃ m', m.appendEdgeInfo time (tileOf src) (tileOf dst) y = .ok m' ∧ ∀ e t y',
    m'.edge e t y' = m.edge e t y' + if e = (m.node (tileOf src), m.node (tileOf dst)) ∧ t = time ∧ y' = y then 1 else 0

/-! ## Locations -/

theorem splitN_cons {sep : Char} {s : List Char} (h : sep ∉ s) (n : ℕ) (rest : List Char) :
    splitN sep (n + 2) (s ++ sep :: rest) = s :: splitN sep (n + 1) rest := by
  have hne : ∀ c ∈ s, decide (c ≠ sep) = true := fun c hc => decide_eq_true fun heq => h (heq ▸ hc)
  have hstop : decide (sep ≠ sep) = false := by simp
  rw [splitN, dropWhile_append_of_pos hne, takeWhile_append_of_pos hne, dropWhile_cons, takeWhile_cons, hstop]
  simp

theorem splitN_last {sep : Char} {s : List Char} (h : sep ∉ s) (n : ℕ) : splitN sep (n + 1) s = [s] := by
  cases n with
  | zero => rfl
  | succ n =>
    have hnil : s.dropWhile (fun c => decide (c ≠ sep)) = [] :=
      dropWhile_eq_nil_iff.mpr fun c hc => decide_eq_true fun heq => h (heq ▸ hc)
    rw [splitN, hnil]

theorem notMem_index {c : Char} (h : c.isDigit = false) (h' : c ≠ ']') (n : ℕ) : c ∉ Nat.toDigits 10 n ++ [']'] := by
  simp [Sim.notMem_digits h n, h']

/-- The name of a switch within its network. -/
def switchPart (l : Loc) : List Char := (Sim.indexed "SW" [l.x, l.y, l.z]).toList

theorem dot_notMem_switchPart (l : Loc) : '.' ∉ switchPart l := by
  simp [switchPart, Sim.toList_indexed, Sim.notMem_digits (c := '.') rfl]

theorem exactIndex_switchPart {l : Loc} (hx : l.x < 2 ^ 63) (hy : l.y < 2 ^ 63) (hz : l.z < 2 ^ 63) :
    exactIndexFromSwitchName (switchPart l) = .ok (tileOf l) := by
  have hopen := notMem_index (c := '[') rfl (by decide)
  have hparts : switchPart l = "SW".toList ++ '[' ::
      ((Nat.toDigits 10 l.x ++ [']']) ++ '[' :: ((Nat.toDigits 10 l.y ++ [']']) ++
      '[' :: (Nat.toDigits 10 l.z ++ [']']))) := by
    simp [switchPart, Sim.toList_indexed]
  unfold exactIndexFromSwitchName
  rw [hparts, splitN_cons (by decide), splitN_cons (hopen _), splitN_cons (hopen _), splitN_last (hopen _)]
  dsimp only
  rw [Sim.parseIndex_digits hx, Sim.parseIndex_digits hy, Sim.parseIndex_digits hz]
  rfl

theorem parse_location {network : String} (h : '.' ∉ network.toList) {src dst : Loc} {p q : String}
    (hp : '.' ∉ p.toList) (hq : '.' ∉ q.toList)
    (hsrc : exactIndexFromSwitchName (switchPart src) = .ok (tileOf src))
    (hdst : exactIndexFromSwitchName (switchPart dst) = .ok (tileOf dst)) :
    parseTileIDFromTaskWhereString (switchName network src ++ "." ++ p ++ "." ++ (switchName network dst ++ "." ++ q)) =
      .ok (tileOf src, tileOf dst) := by
  have hparts : (switchName network src ++ "." ++ p ++ "." ++ (switchName network dst ++ "." ++ q)).toList =
      network.toList ++ '.' :: (switchPart src ++ '.' ::
        (p.toList ++ '.' :: (network.toList ++ '.' :: (switchPart dst ++ '.' :: q.toList)))) := by
    simp [switchName, switchPart]
  unfold parseTileIDFromTaskWhereString
  rw [hparts, splitN_cons h, splitN_cons (dot_notMem_switchPart _), splitN_cons hp, splitN_cons h,
    splitN_cons (dot_notMem_switchPart _), splitN_last hq]
  dsimp only
  rw [hsrc, hdst]
  rfl

/-! ## Edges -/

section Edges

variable {m : MeshInfo} {l : Loc}

theorem node_tileOf (hheight : m.height < 2 ^ 16) (hwidth : m.width < 2 ^ 16) (hx : l.x < m.height) (hy : l.y < m.width) :
    m.node (tileOf l) = l.x * m.width + l.y := by
  have hrow : (l.x + 1) * m.width ≤ m.height * m.width := Nat.mul_le_mul_right _ hx
  have hall : m.height * m.width ≤ 2 ^ 16 * 2 ^ 16 := Nat.mul_le_mul (by omega) (by omega)
  rw [Nat.succ_mul] at hrow
  unfold MeshInfo.node tileOf
  dsimp only
  omega

theorem mem_edges {i j : ℕ} (hi : i < m.height) (hj : j < m.width) {e : ℕ × ℕ}
    (h : 0 < i ∧ (e = (i * m.width + j - m.width, i * m.width + j) ∨ e = (i * m.width + j, i * m.width + j - m.width)) ∨
      0 < j ∧ (e = (i * m.width + j - 1, i * m.width + j) ∨ e = (i * m.width + j, i * m.width + j - 1))) : e ∈ m.edges := by
  refine mem_flatMap.mpr ⟨i, mem_range.mpr hi, mem_flatMap.mpr ⟨j, mem_range.mpr hj, mem_append.mpr ?_⟩⟩
  rcases h with ⟨hpos, h⟩ | ⟨hpos, h⟩
  · exact Or.inl (by simpa [hpos] using h)
  · exact Or.inr (by simpa [hpos] using h)

theorem link_mem_edges {a : Axis} (hheight : m.height < 2 ^ 16) (hwidth : m.width < 2 ^ 16) (hx : l.x < m.height)
    (hy : l.y < m.width) (hz : l.z < 1) (ha : l.get a ≠ 0) (s : Side) :
    (m.node (tileOf (linkTile a l (Side.other s))), m.node (tileOf (linkTile a l s))) ∈ m.edges := by
  have hself := node_tileOf hheight hwidth hx hy
  cases a with
  | x =>
    have hpos : 0 < l.x := Nat.pos_of_ne_zero ha
    have hmove : m.node (tileOf (l.move .x false)) = l.x * m.width + l.y - m.width := by
      rw [node_tileOf (l := l.move .x false) hheight hwidth (Nat.lt_of_le_of_lt (Nat.sub_le _ _) hx) hy]
      show (l.x - 1) * m.width + l.y = _
      rw [Nat.sub_one_mul]
      have hle := Nat.le_mul_of_pos_left m.width hpos
      omega
    refine mem_edges hx hy (Or.inl ⟨hpos, ?_⟩)
    cases s
    · exact Or.inr (Prod.ext hself hmove)
    · exact Or.inl (Prod.ext hmove hself)
  | y =>
    have hpos : 0 < l.y := Nat.pos_of_ne_zero ha
    have hmove : m.node (tileOf (l.move .y false)) = l.x * m.width + l.y - 1 := by
      rw [node_tileOf (l := l.move .y false) hheight hwidth hx (Nat.lt_of_le_of_lt (Nat.sub_le _ _) hy)]
      show l.x * m.width + (l.y - 1) = _
      omega
    refine mem_edges hx hy (Or.inr ⟨hpos, ?_⟩)
    cases s
    · exact Or.inr (Prod.ext hself hmove)
    · exact Or.inl (Prod.ext hmove hself)
  | z => exact absurd (Nat.lt_one_iff.mp hz) ha

end Edges

/-! ## Flits -/

theorem endOf_eq {α : Type} {cfg : Config String} {msg : Msg String α} {s : Side} (h : msg.src = some (cfg.port s)) :
    endOf cfg msg = s := by
  unfold endOf
  cases s with
  | left => exact if_pos h
  | right => exact if_neg fun heq => cfg.distinct (Option.some.inj (heq.symm.trans h))

theorem dot_notMem_direction (a : Axis) (s : Side) : '.' ∉ (direction a s).toList := by
  cases a <;> cases s <;> decide

theorem linkTile_other_ne {a : Axis} {l : Loc} (h : l.get a ≠ 0) (s : Side) :
    linkTile a l (Side.other s) ≠ linkTile a l s := by
  have hne : l.move a false ≠ l := by
    intro heq
    have hget := congrArg (Loc.get · a) heq
    cases a <;> simp only [Loc.move, Loc.get] at hget h <;> omega
  cases s
  · exact hne.symm
  · exact hne

variable {π α : Type}

/-- **Each flit is charged to the reverse edge**: on a link of a mesh of height one, with the nodes of the mesh, a flit counts
on the edge from the tile that it goes to to the tile that it comes from, and not on the edge that it takes. -/
theorem charges_reverse {network : String} (hnetwork : '.' ∉ network.toList) (c : Mesh.Connector π) (hz : c.gridSize.z = 1)
    (m : MeshInfo) (hheight : m.height = c.gridSize.x ∧ m.height < 2 ^ 16)
    (hwidth : m.width = c.gridSize.y ∧ m.width < 2 ^ 16) {a : Axis} {l : Loc} (hl : l.In c.gridSize) (ha : l.get a ≠ 0)
    {s : Side} {msg : Msg String α} (hsrc : msg.src = some ((linkConfig network c.linkTransferPerCycle a l).port s)) :
    let location := traceTransferTaskStart (linkConfig network c.linkTransferPerCycle a l)
      (endOf (linkConfig network c.linkTransferPerCycle a l) msg)
    Charges m location (linkTile a l (Side.other s)) (linkTile a l s) ∧
      ¬ Charges m location (linkTile a l s) (linkTile a l (Side.other s)) := by
  obtain ⟨hlx, hly, hlz⟩ := hl
  rw [← hheight.1] at hlx
  rw [← hwidth.1] at hly
  rw [hz] at hlz
  have hsmall : ∀ t, (linkTile a l t).x ≤ l.x ∧ (linkTile a l t).y ≤ l.y ∧ (linkTile a l t).z ≤ l.z := by
    intro t
    cases t
    · cases a <;> simp [linkTile, Loc.move]
    · exact ⟨le_rfl, le_rfl, le_rfl⟩
  have hindex : ∀ t, exactIndexFromSwitchName (switchPart (linkTile a l t)) = .ok (tileOf (linkTile a l t)) := by
    intro t
    obtain ⟨hx, hy, hz⟩ := hsmall t
    exact exactIndex_switchPart (by omega) (by omega) (by omega)
  have hmem := link_mem_edges hheight.2 hwidth.2 hlx hly hlz ha s
  intro location
  have hparse : parseTileIDFromTaskWhereString location =
      .ok (tileOf (linkTile a l (Side.other s)), tileOf (linkTile a l s)) := by
    show parseTileIDFromTaskWhereString (traceTransferTaskStart _ (endOf _ msg)) = _
    rw [endOf_eq hsrc]
    exact parse_location hnetwork (dot_notMem_direction _ _) (dot_notMem_direction _ _) (hindex _) (hindex _)
  refine ⟨⟨hparse, hmem, fun time y => ?_⟩, fun h => ?_⟩
  · unfold MeshInfo.appendEdgeInfo
    dsimp only
    rw [if_pos (contains_iff_mem.mpr hmem)]
    refine ⟨_, rfl, fun e t y' => ?_⟩
    simp only [eq_comm]
  · have hsame := (Prod.ext_iff.mp (Except.ok.inj (hparse.symm.trans h.tiles))).1
    refine linkTile_other_ne ha s ?_
    cases hs : linkTile a l s
    cases ho : linkTile a l (Side.other s)
    simpa [tileOf, hs, ho] using hsame

/-- The link of two tiles, and a flit from the first of them. -/
theorem charges_reverse_two_tiles :
    let location := traceTransferTaskStart (linkConfig "G" 1 .x ⟨1, 0, 0⟩) .left
    Charges { width := 1, height := 2 } location ⟨1, 0, 0⟩ ⟨0, 0, 0⟩ ∧
      ¬ Charges { width := 1, height := 2 } location ⟨0, 0, 0⟩ ⟨1, 0, 0⟩ :=
  @charges_reverse String ℕ "G" (by decide) ((Mesh.Connector.createNetwork 1 1).updateSize ⟨1, 0, 0⟩) rfl _ ⟨rfl, by decide⟩
    ⟨rfl, by decide⟩ .x ⟨1, 0, 0⟩
    (by decide) (by decide) .left ⟨some "G.SW[0][0][0].Right", some "G.SW[1][0][0].Left", 0⟩ (by decide +kernel)

theorem not_charges_two_tiles :
    ¬ Charges { width := 1, height := 2 } (traceTransferTaskStart (linkConfig "G" 1 .x ⟨1, 0, 0⟩) .left)
      ⟨0, 0, 0⟩ ⟨1, 0, 0⟩ :=
  fun h => absurd h.tiles (by decide +kernel)

end Akita.Noc.NocTracing
