import Akita.Noc.Mesh
import Mathlib.Logic.Relation

/-!
# Routes in a mesh

* `heading` : the direction in which `FindPort` sends a message, first along z, then along y, then along x;
* `Established.forward_eq` : the link that the answer of a switch leads to;
* `Established.route` : the answers lead to the tile of the destination, over as many links as it is away, and out of its
  local port;
* `Established.acyclic` : the dependencies between the links have no cycle.
-/

namespace Akita.Noc.Mesh

/-! ## Headings -/

/-- The axis and the direction of the next hop from `l` to `d`. -/
def heading (l d : Loc) : Option (Axis × Bool) :=
  if d.z < l.z then some (.z, false)
  else if l.z < d.z then some (.z, true)
  else if d.y < l.y then some (.y, false)
  else if l.y < d.y then some (.y, true)
  else if d.x < l.x then some (.x, false)
  else if l.x < d.x then some (.x, true)
  else none

def dist (l d : Loc) : Nat := ((l.x : Int) - d.x).natAbs + ((l.y : Int) - d.y).natAbs + ((l.z : Int) - d.z).natAbs

/-- The order in which the axes are taken. -/
def Axis.phase : Axis → Nat
  | .z => 0
  | .y => 1
  | .x => 2

theorem eq_of_heading {l d : Loc} (h : heading l d = none) : l = d := by
  unfold heading at h
  split_ifs at h
  obtain ⟨_, _, _⟩ := l
  obtain ⟨_, _, _⟩ := d
  simp only [Loc.mk.injEq]
  dsimp only at *
  omega

/-- A hop is one step towards the destination, within the grid. -/
theorem heading_spec {l d size : Loc} {a : Axis} {b : Bool} (h : heading l d = some (a, b))
    (hl : l.In size) (hd : d.In size) :
    (l.move a b).In size ∧ dist (l.move a b) d + 1 = dist l d ∧ (b = false → 0 < l.get a) := by
  obtain ⟨_, _, _⟩ := l
  obtain ⟨_, _, _⟩ := d
  unfold heading at h
  unfold Loc.In dist at *
  split_ifs at h <;> cases h <;> dsimp only [Loc.move, Loc.get] at * <;> refine ⟨by omega, by omega, fun hb => ?_⟩ <;>
    first | omega | cases hb

theorem heading_move {l d : Loc} {a a' : Axis} {b b' : Bool} (h : heading l d = some (a, b))
    (h' : heading (l.move a b) d = some (a', b')) : a.phase < a'.phase ∨ a' = a ∧ b' = b := by
  obtain ⟨_, _, _⟩ := l
  obtain ⟨_, _, _⟩ := d
  unfold heading at h
  split_ifs at h <;> cases h <;> dsimp only [Loc.move] at h' <;> unfold heading at h' <;> dsimp only at * <;>
    split_ifs at h' <;> cases h' <;> first | (exfalso; omega) | decide

theorem move_false_move_true (l : Loc) (a : Axis) : (l.move a true).move a false = l := by
  cases a <;> rfl

theorem move_injective {l : Loc} {a a' : Axis} {b b' : Bool} (h : b = false → 0 < l.get a) (h' : b' = false → 0 < l.get a')
    (heq : l.move a b = l.move a' b') : a = a' ∧ b = b' := by
  obtain ⟨_, _, _⟩ := l
  cases a <;> cases b <;> cases a' <;> cases b' <;>
    simp only [Loc.move, Loc.get, Loc.mk.injEq, true_and, and_true, forall_true_left, reduceCtorEq, false_imp_iff, and_self]
      at * <;> omega

namespace Connector

variable {π : Type} {c : Connector π} {l d : Loc} {p : π} {a : Axis} {b : Bool}

/-! ## The answers of the switches -/

theorem findPort_eq {q : Ptr} (hq : c.dstTable p = some q) (hloc : (c.tables (c.tiles q).rt).loc = q.loc)
    (t : MeshRoutingTable) : c.findPort t p = .ok ((heading t.loc q.loc).elim t.localPort fun h => t.port h.1 h.2) := by
  rw [← hloc]
  unfold findPort heading
  rw [hq]
  simp only [MeshRoutingTable.loc, gt_iff_lt]
  split_ifs <;> first | (simp only [*, if_true, if_false]; rfl) | (simp only [*, lt_irrefl, if_false]; rfl) | omega

variable [DecidableEq π] {calls : List (AddTile π)}

theorem exists_dst (h : Established c calls) (hd : lastTile calls p = some d) : ∃ q, c.dstTable p = some q ∧ q.loc = d := by
  rw [← h.grid.last] at hd
  exact Option.map_eq_some_iff.1 hd

variable {r : Remote}

section
variable (h : Established c calls)
include h

theorem forward_of_port (hl : l.In c.gridSize) (hd : lastTile calls p = some d)
    (hr : r ∈ c.connector.remotes (.switch (c.tile l).sw))
    (hport : (heading l d).elim (c.rt l).localPort (fun h => (c.rt l).port h.1 h.2) = some r.localPort) :
    c.connector.forward (c.answer p) (c.tile l).sw = some r := by
  obtain ⟨q, hq, rfl⟩ := exists_dst h hd
  obtain ⟨node, hnode, htable⟩ := Option.map_eq_some_iff.1 (h.placed hl).table
  have hremotes : c.connector.remotes (.switch (c.tile l).sw) = node.remotes := by
    rw [Noc.Connector.remotes_switch, hnode]
    rfl
  refine Noc.Connector.forward_eq hnode (hremotes ▸ h.wellFormed.nodup _) (hremotes ▸ hr) ?_
  have hrt : c.tables node.table = c.rt l := by rw [htable, rt]
  unfold answer
  rw [hrt, findPort_eq hq (h.grid.rt_loc q (h.grid.dst hq).1), h.grid.loc_rt, hport]
  rfl

theorem exists_link (hl : l.In c.gridSize) (hmove : (l.move a b).In c.gridSize) (hb : b = false → 0 < l.get a) :
    ∃ r ∈ c.connector.remotes (.switch (c.tile l).sw), (c.rt l).port a b = some r.localPort ∧
      r.remoteNode = .switch (c.tile (l.move a b)).sw := by
  cases b with
  | false => exact (h.joined trivial hl (hb rfl)).down
  | true =>
    have hpos : 0 < (l.move a true).get a := by
      cases a <;> exact Nat.succ_pos _
    have hup := (h.joined trivial hmove hpos).up
    rwa [move_false_move_true] at hup

theorem forward_of_heading (hl : l.In c.gridSize) (hd : lastTile calls p = some d) (hin : d.In c.gridSize)
    (hhead : heading l d = some (a, b)) : ∃ r ∈ c.connector.remotes (.switch (c.tile l).sw),
      c.connector.forward (c.answer p) (c.tile l).sw = some r ∧ r.remoteNode = .switch (c.tile (l.move a b)).sw := by
  obtain ⟨hmove, -, hb⟩ := heading_spec hhead hl hin
  obtain ⟨r, hr, hport, hnode⟩ := exists_link h hl hmove hb
  refine ⟨r, hr, forward_of_port h hl hd hr ?_, hnode⟩
  rw [hhead]
  exact hport

theorem dst_in (hd : lastTile calls p = some d) : d.In c.gridSize ∧ p ∈ (c.tile d).ports := by
  obtain ⟨_, hq, rfl⟩ := exists_dst h hd
  exact (h.grid.dst hq).2

theorem forward_local (hd : lastTile calls p = some d) : ∃ r ∈ c.connector.remotes (.switch (c.tile d).sw),
    c.connector.forward (c.answer p) (c.tile d).sw = some r ∧ (c.rt d).localPort = some r.localPort ∧
      ∃ e dev, r.remoteNode = .device e ∧ c.connector.devices[e]? = some dev ∧ p ∈ dev.ports := by
  obtain ⟨hin, hp⟩ := dst_in h hd
  obtain ⟨r, hr, hport, e, dev, hnode, hdev, hports⟩ := (h.placed hin).device
  have hself : heading d d = none := by
    unfold heading
    simp only [lt_irrefl, if_false]
  refine ⟨r, hr, forward_of_port h hin hd hr ?_, hport, e, dev, hnode, hdev, hports ▸ hp⟩
  rw [hself]
  exact hport

theorem exists_route (hd : lastTile calls p = some d) : ∀ n l, l.In c.gridSize → dist l d = n →
    ∃ path, c.connector.Route (c.answer p) (.switch (c.tile l).sw) path (.switch (c.tile d).sw) ∧ path.length = n := by
  intro n
  have hin := (dst_in h hd).1
  induction n with
  | zero =>
    intro l hl hn
    cases hhead : heading l d with
    | none =>
      rw [eq_of_heading hhead]
      exact ⟨[], .nil _, rfl⟩
    | some =>
      have hdist := (heading_spec hhead hl hin).2.1
      omega
  | succ _ ih =>
    intro l hl hn
    cases hhead : heading l d with
    | none =>
      rw [eq_of_heading hhead] at hn
      unfold dist at hn
      omega
    | some =>
      obtain ⟨hmove, _, -⟩ := heading_spec hhead hl hin
      obtain ⟨r, -, hforward, hnode⟩ := forward_of_heading h hl hd hin hhead
      obtain ⟨path, hpath, hlen⟩ := ih _ hmove (by omega)
      exact ⟨r :: path, .cons hforward (hnode ▸ hpath), by rw [List.length_cons, hlen]⟩

end

/-- The bounding box of the tiles that were added. -/
def InBox (calls : List (AddTile π)) (l : Loc) : Prop :=
  (∃ a ∈ calls, l.x ≤ a.loc.x) ∧ (∃ a ∈ calls, l.y ≤ a.loc.y) ∧ ∃ a ∈ calls, l.z ≤ a.loc.z

theorem in_gridSize (h : Established c calls) (hl : InBox calls l) : l.In c.gridSize := by
  obtain ⟨⟨a₁, h₁, hx⟩, ⟨a₂, h₂, hy⟩, ⟨a₃, h₃, hz⟩⟩ := hl
  exact ⟨hx.trans_lt (h.grid.holds a₁ h₁).1, hy.trans_lt (h.grid.holds a₂ h₂).2.1, hz.trans_lt (h.grid.holds a₃ h₃).2.2⟩

/-- From every tile the answers lead to the tile that the port was last added to, over as many links as it is away, and out of
the local port of that tile to the end point that has the port. -/
theorem route_reaches (freq linkTransferPerCycle : ℚ) {calls : List (AddTile π)} (h : ∀ a ∈ calls, a.NonNegative) :
    ∃ c, network freq linkTransferPerCycle calls = .ok c ∧ ∀ l p d, InBox calls l → lastTile calls p = some d →
      (∃ path, c.connector.Route (c.answer p) (.switch (c.tile l).sw) path (.switch (c.tile d).sw) ∧ path.length = dist l d) ∧
      ∃ r, c.connector.forward (c.answer p) (c.tile d).sw = some r ∧ (c.rt d).localPort = some r.localPort ∧
        ∃ e dev, r.remoteNode = .device e ∧ c.connector.devices[e]? = some dev ∧ p ∈ dev.ports := by
  obtain ⟨c, hc, hmesh⟩ := network_ok freq linkTransferPerCycle calls h
  refine ⟨c, hc, fun l p d hl hd => ⟨exists_route hmesh hd _ l (in_gridSize hmesh hl) rfl, ?_⟩⟩
  obtain ⟨r, -, hr⟩ := forward_local hmesh hd
  exact ⟨r, hr⟩

/-- A port that was added to two tiles, and a grid that has grown twice. -/
def grownCalls : List (AddTile Nat) := [⟨0, 0, 0, [1]⟩, ⟨9, 1, 0, [2]⟩, ⟨0, 0, 3, [1, 3]⟩]

theorem nonNegative_grownCalls : ∀ a ∈ grownCalls, a.NonNegative := by
  simp [grownCalls, AddTile.NonNegative]

theorem route_reaches_grown : ∃ c, network 1 1 grownCalls = .ok c ∧
    ∃ path, c.connector.Route (c.answer 1) (.switch (c.tile ⟨9, 1, 2⟩).sw) path (.switch (c.tile ⟨0, 0, 3⟩).sw) ∧
    path.length = 11 := by
  obtain ⟨c, hc, hroute⟩ := route_reaches 1 1 nonNegative_grownCalls
  exact ⟨c, hc, (hroute ⟨9, 1, 2⟩ 1 ⟨0, 0, 3⟩ (by simp [InBox, grownCalls, AddTile.loc]) rfl).1⟩

/-! ## Dependencies between links -/

/-- Some destination is routed into a switch over `r` and out of it, to another switch, over `r'`. -/
def DependsOn (c : Connector π) (r r' : Remote) : Prop :=
  ∃ p i j k, c.connector.forward (c.answer p) i = some r ∧ r.remoteNode = .switch j ∧
    c.connector.forward (c.answer p) j = some r' ∧ r'.remoteNode = .switch k

/-- The link from a tile to its neighbor. -/
structure Goes (c : Connector π) (l : Loc) (a : Axis) (b : Bool) (r : Remote) : Prop where
  localNode : r.localNode = .switch (c.tile l).sw
  remoteNode : r.remoteNode = .switch (c.tile (l.move a b)).sw
  mem : l.In c.gridSize
  move_mem : (l.move a b).In c.gridSize
  pos : b = false → 0 < l.get a

/-- Further in the order of the axes, or further on in the same direction. -/
def Before (l : Loc) (a : Axis) (b : Bool) (l' : Loc) (a' : Axis) (b' : Bool) : Prop :=
  a.phase < a'.phase ∨ a' = a ∧ b' = b ∧ if b then l.get a < l'.get a else l'.get a < l.get a

theorem Before.trans {l l' l'' : Loc} {a a' a'' : Axis} {b b' b'' : Bool} (h : Before l a b l' a' b')
    (h' : Before l' a' b' l'' a'' b'') : Before l a b l'' a'' b'' := by
  rcases h with h | ⟨rfl, rfl, h⟩
  · rcases h' with h' | ⟨rfl, rfl, -⟩
    · exact Or.inl (h.trans h')
    · exact Or.inl h
  · rcases h' with h' | ⟨rfl, rfl, h'⟩
    · exact Or.inl h'
    · refine Or.inr ⟨rfl, rfl, ?_⟩
      split_ifs at h h' ⊢ <;> omega

theorem not_before_self (l : Loc) (a : Axis) (b : Bool) : ¬ Before l a b l a b := by
  rintro (h | ⟨-, -, h⟩)
  · exact lt_irrefl _ h
  · split_ifs at h <;> omega

theorem sw_inj {l l' : Loc} (h : Established c calls) (hl : l.In c.gridSize) (hl' : l'.In c.gridSize)
    (heq : (c.tile l).sw = (c.tile l').sw) : l = l' := by
  have htable := (h.placed hl).table
  rw [heq, (h.placed hl').table] at htable
  exact (h.grid.rt_inj (Option.some.inj htable)).symm

theorem Goes.unique {l l' : Loc} {a a' : Axis} {b b' : Bool} (h : Established c calls) (hr : Goes c l a b r)
    (hr' : Goes c l' a' b' r) : l = l' ∧ a = a' ∧ b = b' := by
  have hl : l = l' := sw_inj h hr.mem hr'.mem (Node.switch.inj (hr.localNode.symm.trans hr'.localNode))
  subst hl
  have hmove := sw_inj h hr.move_mem hr'.move_mem (Node.switch.inj (hr.remoteNode.symm.trans hr'.remoteNode))
  exact ⟨rfl, move_injective hr.pos hr'.pos hmove⟩

theorem goes_of_forward (h : Established c calls) {i j : Nat} (hforward : c.connector.forward (c.answer p) i = some r)
    (hnode : r.remoteNode = .switch j) :
    ∃ d l a b, lastTile calls p = some d ∧ i = (c.tile l).sw ∧ heading l d = some (a, b) ∧ Goes c l a b r := by
  have hmem := Noc.Connector.mem_of_forward hforward
  obtain ⟨_, _, hsw, hout, -⟩ := Noc.Connector.forward_eq_some hforward
  obtain ⟨l, hl, rfl⟩ := h.cover i (List.getElem?_eq_some_iff.1 hsw).1
  have hdst : ∃ d, lastTile calls p = some d := by
    rw [← h.grid.last]
    cases hq : c.dstTable p with
    | some => exact ⟨_, rfl⟩
    | none =>
      unfold answer findPort at hout
      rw [hq] at hout
      cases hout
  obtain ⟨d, hd⟩ := hdst
  have hin := (dst_in h hd).1
  cases hhead : heading l d with
  | none =>
    rw [eq_of_heading hhead] at hforward
    obtain ⟨r', -, hr', -, _, _, hdevice, -⟩ := forward_local h hd
    rw [hforward] at hr'
    cases hr'
    rw [hnode] at hdevice
    cases hdevice
  | some ab =>
    obtain ⟨hmove, -, hb⟩ := heading_spec hhead hl hin
    obtain ⟨_, -, hr', hnext⟩ := forward_of_heading h hl hd hin hhead
    rw [hforward] at hr'
    cases hr'
    exact ⟨d, l, ab.1, ab.2, hd, rfl, hhead, h.wellFormed.localNode hmem, hnext, hl, hmove, hb⟩

theorem dependsOn_before (h : Established c calls) {r r' : Remote} (hdep : DependsOn c r r') :
    ∃ l a b l' a' b', Goes c l a b r ∧ Goes c l' a' b' r' ∧ Before l a b l' a' b' := by
  obtain ⟨_, _, _, _, hr, hj, hr', hk⟩ := hdep
  obtain ⟨_, l, a, b, hd, -, hhead, hgo⟩ := goes_of_forward h hr hj
  obtain ⟨_, l', a', b', hd', hj', hhead', hgo'⟩ := goes_of_forward h hr' hk
  rw [hd] at hd'
  cases hd'
  have hl' : l' = l.move a b := by
    refine sw_inj h hgo'.mem hgo.move_mem ?_
    rw [← hj']
    exact Node.switch.inj (hj.symm.trans hgo.remoteNode)
  subst hl'
  refine ⟨l, a, b, _, a', b', hgo, hgo', ?_⟩
  rcases heading_move hhead hhead' with hphase | ⟨rfl, rfl⟩
  · exact Or.inl hphase
  · refine Or.inr ⟨rfl, rfl, ?_⟩
    have hpos := hgo.pos
    cases b'
    · cases a' <;> exact Nat.sub_lt (hpos rfl) Nat.zero_lt_one
    · cases a' <;> exact Nat.lt_succ_self _

/-- No link depends on itself, over however many links between. -/
theorem dependsOn_acyclic (freq linkTransferPerCycle : ℚ) {calls : List (AddTile π)} (h : ∀ a ∈ calls, a.NonNegative) :
    ∃ c, network freq linkTransferPerCycle calls = .ok c ∧ ∀ r, ¬ Relation.TransGen (DependsOn c) r r := by
  obtain ⟨c, hc, hmesh⟩ := network_ok freq linkTransferPerCycle calls h
  refine ⟨c, hc, fun r hr => ?_⟩
  have hbefore : ∀ r', Relation.TransGen (DependsOn c) r r' →
      ∃ l a b l' a' b', Goes c l a b r ∧ Goes c l' a' b' r' ∧ Before l a b l' a' b' := by
    intro r' hr'
    induction hr' with
    | single hdep => exact dependsOn_before hmesh hdep
    | tail _ hdep ih =>
      obtain ⟨l, a, b, l', a', b', hgo, hgo', hlt⟩ := ih
      obtain ⟨_, _, _, m', e', f', hgo₁, hgo₂, hlt'⟩ := dependsOn_before hmesh hdep
      obtain ⟨rfl, rfl, rfl⟩ := hgo'.unique hmesh hgo₁
      exact ⟨l, a, b, m', e', f', hgo, hgo₂, hlt.trans hlt'⟩
  obtain ⟨_, _, _, _, _, _, hgo, hgo', hlt⟩ := hbefore r hr
  obtain ⟨rfl, rfl, rfl⟩ := hgo.unique hmesh hgo'
  exact not_before_self _ _ _ hlt

theorem dependsOn_acyclic_grown : ∃ c, network 1 1 grownCalls = .ok c ∧ ∀ r, ¬ Relation.TransGen (DependsOn c) r r :=
  dependsOn_acyclic 1 1 nonNegative_grownCalls

end Connector

end Akita.Noc.Mesh
