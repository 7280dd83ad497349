import Akita.Noc.Mesh
import Akita.Sim.Name

/-!
# Fully connected networks

`mesh.Connector` of `noc/networking/directconnector`. Tiles and their switches are made as those of a mesh. A switch has a
link to each of the switches that come after it in its layer, and its routing table finds the ports of the links by their
names.

* `network` : `AddTile` calls and `EstablishNetwork`, `findPort` : `meshRoutingTable.FindPort`;
* `Joined` : the tiles that the calls made so far link; `Linked` : the network with these links. `createLinks_ok` : the loops
  make them.
-/

namespace Akita.Noc.DirectConnector
open List Function
open Mesh (Loc Ptr)
open Mesh.Connector (AddTile lastTile)
open Sim (indexed nameMustBeValid)

/-- `mesh` is what it shares with the connector of meshes, and `remote` the field of the routing tables that those of meshes
do not have. -/
structure Connector (π : Type) where
  name : String
  mesh : Mesh.Connector π
  remote : Ptr → String → Option Nat := fun _ _ => none

def switchName (name : String) (l : Loc) : String := name ++ "." ++ indexed "SW" [l.x, l.y, l.z]

/-- The `PortName` of a link to the tile. -/
def toSW (d : Loc) : String := indexed "ToSW" [d.x, d.y, d.z]

/-- The name of the port at the switch of `l` for the link to `d`. -/
def portName (name : String) (l d : Loc) : String := switchName name l ++ "." ++ toSW d

/-- The name that `FindPort` looks for. -/
def remoteName (l d : Loc) : String := indexed "Mesh.SW" [l.x, l.y, l.z] ++ "." ++ toSW d

/-- `xl*7 + yl` -/
def localID (l : Loc) : Nat := l.x * 7 + l.y

namespace Connector

variable {π : Type} (c : Connector π)

def createSwitch (l : Loc) : Except String (Connector π) := do
  nameMustBeValid (switchName c.name l)
  let mesh ← c.mesh.createSwitch l
  return { c with mesh }

def createSwitches : Except String (Connector π) := c.mesh.locs.foldlM createSwitch c

/-- The ports of a new link, in the routing tables of the two tiles. -/
def join (l d : Loc) (portA portB : Nat) (network : Noc.Connector Ptr π) : Connector π :=
  let rtA := (c.mesh.tile l).rt
  let rtB := (c.mesh.tile d).rt
  let remote := update c.remote rtA (update (c.remote rtA) (portName c.name l d) (some portA))
  { c with
    mesh := { c.mesh with connector := network }
    remote := update remote rtB (update (remote rtB) (portName c.name d l) (some portB)) }

/-- The body of the loops of `connectWithSwitch`. -/
def connectTo (l : Loc) (p : Nat × Nat) : Except String (Connector π) :=
  let d : Loc := ⟨p.1, p.2, l.z⟩
  if localID l ≥ localID d then .ok c
  else do
    let tile ← c.mesh.index l
    let remote ← c.mesh.index d
    let ((portA, portB), network) ← c.mesh.connector.connectSwitches tile.sw remote.sw
      (.channel (c.mesh.freq * c.mesh.linkTransferPerCycle))
    return c.join l d portA portB network

/-- The tiles of a layer, in the order of the loops. -/
def layer : List (Nat × Nat) := (range c.mesh.gridSize.x).flatMap fun i => (range c.mesh.gridSize.y).map fun j => (i, j)

def connectWithSwitch (l : Loc) : Except String (Connector π) := c.layer.foldlM (fun c p => c.connectTo l p) c

def createLinks : Except String (Connector π) := c.mesh.locs.foldlM connectWithSwitch c

def establishNetwork : Except String (Connector π) := do
  let c ← c.createSwitches
  c.createLinks

/-- The calls that build a network. Without the panics for a frequency or a bandwidth of 0. -/
def network [DecidableEq π] (name : String) (freq linkTransferPerCycle : ℚ) (calls : List (AddTile π)) :
    Except String (Connector π) := do
  let mesh ← calls.foldlM (fun c a => c.addTile a) (Mesh.Connector.createNetwork freq linkTransferPerCycle)
  establishNetwork { name, mesh }

/-- `meshRoutingTable.FindPort`, of the routing table at `rt`. -/
def findPort (rt : Ptr) (dst : π) : Except String (Option Nat) :=
  match c.mesh.dstTable dst with
  | none => .error "nil pointer dereference"
  | some dstTile =>
    let t := c.mesh.tables rt
    let d := c.mesh.tables (c.mesh.tiles dstTile).rt
    if d.x = t.x ∧ d.y = t.y ∧ d.z = t.z then .ok t.localPort
    else .ok (c.remote rt (remoteName t.loc d.loc))

/-- How many links lead from the switch of `l` to that of `d`. -/
def links (l d : Loc) : Nat :=
  (c.mesh.connector.remotes (.switch (c.mesh.tile l).sw)).countP fun r => r.remoteNode = .switch (c.mesh.tile d).sw

/-! ## The links -/

/-- `D` says for which tiles the body of the loops has been run. -/
def Joined (D : Loc → Loc → Prop) (l d : Loc) : Prop :=
  l.z = d.z ∧ (D l d ∧ localID l < localID d ∨ D d l ∧ localID d < localID l)

section

variable {c} {D : Loc → Loc → Prop} {l d : Loc} {i j : Nat}

theorem Joined.symm (h : Joined D l d) : Joined D d l := ⟨h.1.symm, h.2.symm⟩

variable {a b : Loc}

theorem joined_skip (hle : localID ⟨i, j, l.z⟩ ≤ localID l) :
    Joined (fun a b => D a b ∨ a = l ∧ (b.x, b.y) = (i, j)) a b ↔ Joined D a b := by
  have hskip : ∀ {a b : Loc}, a = l ∧ (b.x, b.y) = (i, j) → a.z = b.z → ¬ localID a < localID b := by
    rintro a ⟨x, y, z⟩ ⟨rfl, hb⟩ hz hlt
    cases hb
    cases hz
    exact absurd hlt (Nat.not_lt.mpr hle)
  constructor
  · rintro ⟨hz, ⟨hD, hlt⟩ | ⟨hD, hlt⟩⟩
    · exact ⟨hz, .inl ⟨hD.resolve_right fun h => hskip h hz hlt, hlt⟩⟩
    · exact ⟨hz, .inr ⟨hD.resolve_right fun h => hskip h hz.symm hlt, hlt⟩⟩
  · rintro ⟨hz, ⟨hD, hlt⟩ | ⟨hD, hlt⟩⟩
    · exact ⟨hz, .inl ⟨.inl hD, hlt⟩⟩
    · exact ⟨hz, .inr ⟨.inl hD, hlt⟩⟩

theorem joined_link (hlt : localID l < localID ⟨i, j, l.z⟩) :
    Joined (fun a b => D a b ∨ a = l ∧ (b.x, b.y) = (i, j)) a b ↔
      Joined D a b ∨ a = l ∧ b = ⟨i, j, l.z⟩ ∨ b = l ∧ a = ⟨i, j, l.z⟩ := by
  have hnew : ∀ {a b : Loc}, a = l ∧ (b.x, b.y) = (i, j) → a.z = b.z → a = l ∧ b = ⟨i, j, l.z⟩ := by
    rintro a ⟨x, y, z⟩ ⟨rfl, hb⟩ hz
    cases hb
    cases hz
    exact ⟨rfl, rfl⟩
  constructor
  · rintro ⟨hz, ⟨hD | hD, hlt'⟩ | ⟨hD | hD, hlt'⟩⟩
    · exact .inl ⟨hz, .inl ⟨hD, hlt'⟩⟩
    · exact .inr (.inl (hnew hD hz))
    · exact .inl ⟨hz, .inr ⟨hD, hlt'⟩⟩
    · exact .inr (.inr (hnew hD hz.symm))
  · rintro (⟨hz, ⟨hD, hlt'⟩ | ⟨hD, hlt'⟩⟩ | ⟨rfl, rfl⟩ | ⟨rfl, rfl⟩)
    · exact ⟨hz, .inl ⟨.inl hD, hlt'⟩⟩
    · exact ⟨hz, .inr ⟨.inl hD, hlt'⟩⟩
    · exact ⟨rfl, .inl ⟨.inr ⟨rfl, rfl⟩, hlt⟩⟩
    · exact ⟨rfl, .inr ⟨.inr ⟨rfl, rfl⟩, hlt⟩⟩

theorem nodup_layer : c.layer.Nodup := by
  unfold layer
  refine nodup_flatMap.2 ⟨fun i _ => nodup_range.map fun _ _ h => (Prod.mk.inj h).2, ?_⟩
  refine nodup_range.imp fun {i i'} hne p hp hp' => ?_
  obtain ⟨_, -, rfl⟩ := mem_map.1 hp
  obtain ⟨_, -, heq⟩ := mem_map.1 hp'
  exact hne (Prod.mk.inj heq).1.symm

theorem mem_layer {p : Nat × Nat} : p ∈ c.layer ↔ p.1 < c.mesh.gridSize.x ∧ p.2 < c.mesh.gridSize.y := by
  obtain ⟨_, _⟩ := p
  simp [layer]

variable [DecidableEq π] {calls : List (AddTile π)}

/-- `links` : the tiles joined have one link; `known` : their routing tables have its ports under their names; `leads` : a
port in a routing table is under its name, and is that of a link to the tile it is named after. -/
structure Linked (c : Connector π) (calls : List (AddTile π)) (D : Loc → Loc → Prop) : Prop where
  grid : Mesh.Connector.Grid c.mesh calls
  wellFormed : c.mesh.connector.WellFormed
  placed : ∀ {l}, l.In c.mesh.gridSize → Mesh.Connector.Placed c.mesh l
  links : ∀ {l d}, l.In c.mesh.gridSize → d.In c.mesh.gridSize → l ≠ d →
    (Joined D l d → c.links l d = 1) ∧ (¬ Joined D l d → c.links l d = 0)
  known : ∀ {l d}, Joined D l d → ∃ port, c.remote (c.mesh.tile l).rt (portName c.name l d) = some port
  leads : ∀ {l key port}, l.In c.mesh.gridSize → c.remote (c.mesh.tile l).rt key = some port → ∃ d, d.In c.mesh.gridSize ∧
    key = portName c.name l d ∧ ∃ r ∈ c.mesh.connector.remotes (.switch (c.mesh.tile l).sw), r.localPort = port ∧
      r.remoteNode = .switch (c.mesh.tile d).sw

section
variable (h : Linked c calls D)
include h

/-- Different tiles have different switches. -/
theorem Linked.sw_inj (hl : l.In c.mesh.gridSize) (hd : d.In c.mesh.gridSize)
    (hsw : (c.mesh.tile l).sw = (c.mesh.tile d).sw) : l = d := by
  have htable := (h.placed hl).table
  rw [hsw, (h.placed hd).table] at htable
  exact h.grid.rt_inj (Option.some.inj htable).symm

theorem Linked.mono {D' : Loc → Loc → Prop} (hD : ∀ a b, Joined D' a b ↔ Joined D a b) : Linked c calls D' :=
  ⟨h.grid, h.wellFormed, h.placed,
    fun ha hb hne => by rw [hD]; exact h.links ha hb hne, fun hj => h.known ((hD _ _).mp hj), h.leads⟩

theorem Linked.remote_join (hne : l ≠ d) (portA portB : Nat) (net : Noc.Connector Ptr π) (a : Loc) (key : String) :
    (c.join l d portA portB net).remote (c.mesh.tile a).rt key =
      if a = l ∧ key = portName c.name l d then some portA
      else if a = d ∧ key = portName c.name d l then some portB else c.remote (c.mesh.tile a).rt key := by
  have hptr : ∀ {a b : Loc}, a ≠ b → (c.mesh.tile a).rt ≠ (c.mesh.tile b).rt := fun hab heq => hab (h.grid.rt_inj heq)
  unfold join
  dsimp only
  by_cases hal : a = l
  · subst hal
    rw [update_of_ne (hptr hne), update_self, if_neg (fun hand : a = d ∧ _ => hne hand.1)]
    by_cases hkey : key = portName c.name a d
    · rw [hkey, update_self, if_pos ⟨rfl, rfl⟩]
    · rw [update_of_ne hkey, if_neg (fun hand => hkey hand.2)]
  · rw [if_neg (fun hand : a = l ∧ _ => hal hand.1)]
    by_cases had : a = d
    · subst had
      rw [update_self]
      by_cases hkey : key = portName c.name a l
      · rw [hkey, update_self, if_pos ⟨rfl, rfl⟩]
      · rw [update_of_ne hkey, if_neg (fun hand => hkey hand.2), update_of_ne (hptr hal)]
    · rw [update_of_ne (hptr had), update_of_ne (hptr hal), if_neg (fun hand => had hand.1)]

theorem Linked.links_join (hl : l.In c.mesh.gridSize) (hd : d.In c.mesh.gridSize) (hne : l ≠ d) {portA portB : Nat}
    {net : Noc.Connector Ptr π} {r : Remote} (hadds : Noc.Connector.Adds c.mesh.connector net r)
    (hlocal : r.localNode = .switch (c.mesh.tile l).sw) (hremote : r.remoteNode = .switch (c.mesh.tile d).sw)
    (ha : a.In c.mesh.gridSize) (hb : b.In c.mesh.gridSize) :
    (c.join l d portA portB net).links a b =
      c.links a b + ((if a = l ∧ b = d then 1 else 0) + if a = d ∧ b = l then 1 else 0) := by
  have hiff : ∀ {a b : Loc}, a.In c.mesh.gridSize → b.In c.mesh.gridSize →
      (Node.switch (c.mesh.tile a).sw = .switch (c.mesh.tile b).sw ↔ a = b) := by
    intro a b ha hb
    exact ⟨fun heq => h.sw_inj ha hb (Node.switch.inj heq), fun heq => by rw [heq]⟩
  have hends : (r.ends (.switch (c.mesh.tile a).sw)).countP (fun r => r.remoteNode = .switch (c.mesh.tile b).sw) =
      (if a = l ∧ b = d then 1 else 0) + if a = d ∧ b = l then 1 else 0 := by
    have hswap : r.swap.remoteNode = .switch (c.mesh.tile l).sw := hlocal
    unfold Remote.ends
    rw [countP_append, hlocal, hremote]
    simp only [hiff hl ha, hiff hd ha]
    by_cases hal : l = a
    · have had : ¬ d = a := fun heq => hne (hal.trans heq.symm)
      rw [if_pos hal, if_neg had, countP_singleton, hremote, countP_nil]
      simp only [hiff hd hb, decide_eq_true_eq, hal.symm, true_and, eq_comm (a := b)]
      rw [if_neg (fun hand : l = d ∧ l = b => hne hand.1)]
    · rw [if_neg hal, countP_nil, if_neg (fun hand : a = l ∧ b = d => hal hand.1.symm)]
      by_cases had : d = a
      · rw [if_pos had, countP_singleton, hswap]
        simp only [hiff hl hb, decide_eq_true_eq, had.symm, true_and, eq_comm (a := b)]
      · rw [if_neg had, countP_nil, if_neg (fun hand : a = d ∧ b = l => had hand.1.symm)]
  have hsplit : (net.remotes (.switch (c.mesh.tile a).sw)).countP (fun r => r.remoteNode = .switch (c.mesh.tile b).sw) =
      c.links a b + (r.ends (.switch (c.mesh.tile a).sw)).countP fun r => r.remoteNode = .switch (c.mesh.tile b).sw := by
    rw [hadds.remotes, countP_append]
    rfl
  exact hsplit.trans (by rw [hends])

theorem Linked.join (hl : l.In c.mesh.gridSize) (hd : d.In c.mesh.gridSize) (hne : l ≠ d) (hnew : ¬ Joined D l d)
    {portA portB : Nat} {net : Noc.Connector Ptr π} {link : Link}
    (hok : c.mesh.connector.connectSwitches (c.mesh.tile l).sw (c.mesh.tile d).sw link = .ok ((portA, portB), net))
    {D' : Loc → Loc → Prop} (hD : ∀ a b, Joined D' a b ↔ Joined D a b ∨ a = l ∧ b = d ∨ b = l ∧ a = d) :
    Linked (c.join l d portA portB net) calls D' := by
  obtain ⟨r, hadds, hlocal, hremote, hA, hB, -, hdevices, -, -, _, htables⟩ := Noc.Connector.connectSwitches_eq_ok hok
  have hgrows : Noc.Connector.Grows c.mesh.connector net := hadds.grows (by rw [hdevices, append_nil]) htables
  have htable := h.remote_join hne portA portB net
  refine ⟨⟨h.grid.cap_pos, h.grid.size_le, h.grid.grid_lt, h.grid.rt_lt, h.grid.rt_loc, h.grid.dst,
    h.grid.holds, h.grid.last⟩,
    h.wellFormed.adds hadds, fun {a} ha => (h.placed ha).grows hgrows rfl rfl, fun {a b} ha hb hab => ?_, fun {a b} hj => ?_,
    fun {a key port} ha hport => ?_⟩
  · obtain ⟨hone, hzero⟩ := h.links ha hb hab
    rw [h.links_join hl hd hne hadds hlocal hremote ha hb, hD]
    refine ⟨fun hj => ?_, fun hj => ?_⟩
    · rcases hj with hj | ⟨rfl, rfl⟩ | ⟨rfl, rfl⟩
      · have h1 : ¬ (a = l ∧ b = d) := fun hand => hnew (hand.1 ▸ hand.2 ▸ hj)
        have h2 : ¬ (a = d ∧ b = l) := fun hand => hnew (hand.1 ▸ hand.2 ▸ hj.symm)
        rw [hone hj, if_neg h1, if_neg h2]
      · rw [hzero hnew, if_pos ⟨rfl, rfl⟩, if_neg (fun hand => hne hand.1)]
      · rw [hzero fun hj => hnew hj.symm, if_neg (fun hand => hne hand.2), if_pos ⟨rfl, rfl⟩]
    · simp only [not_or] at hj
      rw [hzero hj.1, if_neg hj.2.1, if_neg (fun hand => hj.2.2 ⟨hand.2, hand.1⟩)]
  · show ∃ port, (c.join l d portA portB net).remote (c.mesh.tile a).rt (portName c.name a b) = some port
    rw [htable]
    rcases (hD a b).mp hj with hj | ⟨rfl, rfl⟩ | ⟨rfl, rfl⟩
    · split
      · exact ⟨_, rfl⟩
      · split
        · exact ⟨_, rfl⟩
        · exact h.known hj
    · exact ⟨portA, if_pos ⟨rfl, rfl⟩⟩
    · exact ⟨portB, by rw [if_neg (fun hand => hne hand.1.symm), if_pos ⟨rfl, rfl⟩]⟩
  · have hnow := (htable a key).symm.trans hport
    show ∃ d', d'.In c.mesh.gridSize ∧ key = portName c.name a d' ∧ ∃ x ∈ net.remotes (.switch (c.mesh.tile a).sw),
      x.localPort = port ∧
      x.remoteNode = .switch (c.mesh.tile d').sw
    split at hnow
    next hand =>
      obtain ⟨rfl, rfl⟩ := hand
      refine ⟨d, hd, rfl, r, ?_, hA.trans (Option.some.inj hnow), hremote⟩
      rw [hadds.remotes]
      exact mem_append_right _ (Remote.mem_ends.2 ⟨.inl rfl, hlocal⟩)
    next =>
      split at hnow
      next hand =>
        obtain ⟨rfl, rfl⟩ := hand
        refine ⟨l, hl, rfl, r.swap, ?_, hB.trans (Option.some.inj hnow), hlocal⟩
        rw [hadds.remotes]
        exact mem_append_right _ (Remote.mem_ends.2 ⟨.inr rfl, hremote⟩)
      next =>
        obtain ⟨d', hd', hkey, x, hx, hxport, hxnode⟩ := h.leads ha hnow
        exact ⟨d', hd', hkey, x, hgrows.remotes hx, hxport, hxnode⟩

theorem connectTo_ok (hl : l.In c.mesh.gridSize) (hi : i < c.mesh.gridSize.x) (hj : j < c.mesh.gridSize.y)
    (hnew : ¬ D l ⟨i, j, l.z⟩) : Succeeds (fun c' => Linked c' calls (fun a b => D a b ∨ a = l ∧ (b.x, b.y) = (i, j)) ∧
      c'.mesh.gridSize = c.mesh.gridSize ∧ c'.name = c.name) (c.connectTo l (i, j)) := by
  have hd : (⟨i, j, l.z⟩ : Loc).In c.mesh.gridSize := ⟨hi, hj, hl.2.2⟩
  unfold connectTo
  dsimp only
  by_cases hge : localID l ≥ localID ⟨i, j, l.z⟩
  · rw [if_pos hge]
    exact .ok ⟨h.mono fun a b => joined_skip hge, rfl, rfl⟩
  · have hlt : localID l < localID ⟨i, j, l.z⟩ := Nat.lt_of_not_le hge
    have hne : l ≠ ⟨i, j, l.z⟩ := fun heq => absurd (congrArg localID heq) (Nat.ne_of_lt hlt)
    have hfree : ¬ Joined D l ⟨i, j, l.z⟩ := by
      rintro ⟨-, ⟨hD, -⟩ | ⟨-, hlt'⟩⟩
      · exact hnew hD
      · exact absurd hlt' (Nat.lt_asymm hlt)
    obtain ⟨_, _, _, hok⟩ := Noc.Connector.connectSwitches_ok (h.placed hl).sw_lt (h.placed hd).sw_lt
      (.channel (c.mesh.freq * c.mesh.linkTransferPerCycle))
    rw [if_neg hge, h.grid.index_eq hl, h.grid.index_eq hd]
    dsimp only [bind, Except.bind, pure, Except.pure]
    rw [hok]
    exact .ok ⟨h.join hl hd hne hfree hok fun a b => joined_link hlt, rfl, rfl⟩

theorem connectWithSwitch_ok (hl : l.In c.mesh.gridSize) (hnew : ∀ d, ¬ D l d) :
    Succeeds (fun c' => Linked c' calls (fun a b => D a b ∨ a = l ∧ (b.x, b.y) ∈ c.layer) ∧
      c'.mesh.gridSize = c.mesh.gridSize ∧
      c'.name = c.name) (c.connectWithSwitch l) := by
  refine Succeeds.foldlM_nodup (P :=
    fun pre (c' : Connector π) => Linked c' calls (fun a b => D a b ∨ a = l ∧ (b.x, b.y) ∈ pre) ∧
    c'.mesh.gridSize = c.mesh.gridSize ∧ c'.name = c.name) nodup_layer ?_ ?_
  · refine ⟨h.mono fun a b => ?_, rfl, rfl⟩
    unfold Joined
    simp
  · rintro pre ⟨i, j⟩ c' hmem hnot ⟨hc', hsize, hname⟩
    obtain ⟨hi, hj⟩ := mem_layer.1 hmem
    refine (connectTo_ok hc' (hsize ▸ hl) (hsize ▸ hi) (hsize ▸ hj) ?_).mono fun c'' hc'' => ⟨hc''.1.mono fun a b => ?_,
      hc''.2.1.trans hsize, hc''.2.2.trans hname⟩
    · rintro (hD | ⟨-, hpre⟩)
      · exact hnew _ hD
      · exact hnot hpre
    · unfold Joined
      simp only [mem_append, mem_singleton, or_assoc, and_or_left]

end

/-- The loops link every tile to those after it in its layer. -/
theorem createLinks_ok (h : Linked c calls fun _ _ => False) :
    Succeeds (fun c' => Linked c' calls (fun a b => a.In c.mesh.gridSize ∧ b.In c.mesh.gridSize) ∧
    c'.mesh.gridSize = c.mesh.gridSize ∧ c'.name = c.name) c.createLinks := by
  have hrun : Succeeds (fun c' => Linked c' calls (fun a b => a ∈ c.mesh.locs ∧ (b.x, b.y) ∈ c.layer) ∧
      c'.mesh.gridSize = c.mesh.gridSize ∧ c'.name = c.name) c.createLinks := by
    refine Succeeds.foldlM_nodup (P :=
      fun pre (c' : Connector π) => Linked c' calls (fun a b => a ∈ pre ∧ (b.x, b.y) ∈ c.layer) ∧
      c'.mesh.gridSize = c.mesh.gridSize ∧ c'.name = c.name) Mesh.Connector.nodup_locs ?_ ?_
    · refine ⟨h.mono fun a b => ?_, rfl, rfl⟩
      unfold Joined
      simp
    · rintro pre l c' hmem hnot ⟨hc', hsize, hname⟩
      have hl := Mesh.Connector.mem_locs.1 hmem
      have hlayer : c'.layer = c.layer := by
        unfold layer
        rw [hsize]
      refine (connectWithSwitch_ok hc' (hsize ▸ hl) fun d hd => hnot hd.1).mono fun c'' hc'' => ⟨hc''.1.mono fun a b => ?_,
        hc''.2.1.trans hsize, hc''.2.2.trans hname⟩
      unfold Joined
      simp only [hlayer, mem_append, mem_singleton, or_and_right]
  refine hrun.mono fun c' hc' => ⟨hc'.1.mono fun a b => ?_, hc'.2⟩
  have hiff : ∀ {a b : Loc}, a.z = b.z →
      (a ∈ c.mesh.locs ∧ (b.x, b.y) ∈ c.layer ↔ a.In c.mesh.gridSize ∧ b.In c.mesh.gridSize) := by
    intro a b hz
    rw [Mesh.Connector.mem_locs, mem_layer]
    exact ⟨fun h => ⟨h.1, h.2.1, h.2.2, hz ▸ h.1.2.2⟩, fun h => ⟨h.1, h.2.1, h.2.2.1⟩⟩
  unfold Joined
  constructor
  · rintro ⟨hz, h⟩
    exact ⟨hz, h.imp (fun h => ⟨(hiff hz).mpr h.1, h.2⟩) fun h => ⟨(hiff hz.symm).mpr h.1, h.2⟩⟩
  · rintro ⟨hz, h⟩
    exact ⟨hz, h.imp (fun h => ⟨(hiff hz).mp h.1, h.2⟩) fun h => ⟨(hiff hz.symm).mp h.1, h.2⟩⟩

end

end Connector

end Akita.Noc.DirectConnector
