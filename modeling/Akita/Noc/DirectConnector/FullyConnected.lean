import Akita.Noc.DirectConnector

/-!
# When a fully connected network is one

* `createSwitches_ok` : if the names are valid there is a switch for each tile, and no link between switches yet;
* `network_ok` : the network that is built. `findPort_eq` : the answers of its switches;
* `fully_connected_iff` : for which calls all tiles are joined and reached.
-/

namespace Akita.Noc.DirectConnector
open List
open Mesh (Loc Ptr)
open Mesh.Connector (AddTile addTile addTile_ok createNetwork lastTile mem_locs mergePorts nodup_locs updateSize)
open Sim (indexed indexed_append indexed_inj nameMustBeValid)

/-! ## Names -/

theorem remoteName_eq (l d : Loc) : remoteName l d = portName "Mesh" l d := by
  unfold remoteName portName switchName
  rw [← indexed_append]
  rfl

theorem portName_inj {name name' : String} {l d d' : Loc} (h : portName name l d = portName name' l d') :
    name = name' ∧ d = d' := by
  unfold portName toSW at h
  rw [← indexed_append, ← indexed_append] at h
  have hlen : ∀ l l' : Loc, [l.x, l.y, l.z].length = [l'.x, l'.y, l'.z].length := fun _ _ => rfl
  obtain ⟨hbefore, hindex⟩ := indexed_inj (hlen d d') h
  have hswitch : switchName name l = switchName name' l :=
    (String.append_left_inj _).mp ((String.append_left_inj _).mp hbefore)
  unfold switchName at hswitch
  rw [← indexed_append, ← indexed_append] at hswitch
  have hname := (String.append_left_inj _).mp ((String.append_left_inj _).mp (indexed_inj (hlen l l) hswitch).1)
  obtain ⟨x, y, z⟩ := d
  obtain ⟨_, _, _⟩ := d'
  simp only [cons.injEq, and_true] at hindex
  exact ⟨hname, by rw [hindex.1, hindex.2.1, hindex.2.2]⟩

/-! ## The grid of the calls -/

section
variable {π : Type} {calls : List (AddTile π)} {l d : Loc}

/-- The tile is one of the grid that holds the calls. -/
structure InGrid (calls : List (AddTile π)) (l : Loc) : Prop where
  x : ∃ a ∈ calls, l.x ≤ a.loc.x
  y : ∃ a ∈ calls, l.y ≤ a.loc.y
  z : ∃ a ∈ calls, l.z ≤ a.loc.z

theorem InGrid.of_mem {a : AddTile π} (h : a ∈ calls) : InGrid calls a.loc :=
  ⟨⟨a, h, le_refl _⟩, ⟨a, h, le_refl _⟩, ⟨a, h, le_refl _⟩⟩

variable [DecidableEq π]

theorem gridSize_addTile {m m' : Mesh.Connector π} {a : AddTile π} (h : m.addTile a = .ok m') :
    m'.gridSize = (m.updateSize a.loc).gridSize := by
  unfold addTile at h
  split at h
  · cases h
  · obtain ⟨_, hm₁, h⟩ := eq_ok_of_bind h
    cases h
    unfold mergePorts at hm₁
    obtain ⟨_, -, hm₁⟩ := eq_ok_of_bind hm₁
    cases hm₁
    show ((m.resizeGridToHold a.loc).updateSize a.loc).gridSize = _
    have hsame : (m.resizeGridToHold a.loc).gridSize = m.gridSize := by
      unfold Mesh.Connector.resizeGridToHold
      split <;> rfl
    unfold updateSize
    rw [hsame]

theorem addTiles_ok (freq linkTransferPerCycle : ℚ) (calls : List (AddTile π)) (h : ∀ a ∈ calls, a.NonNegative) :
    Succeeds (fun m : Mesh.Connector π => Mesh.Connector.Grid m calls ∧ m.connector = {} ∧ ∀ l, l.In m.gridSize ↔
      InGrid calls l)
      (calls.foldlM (fun c a => c.addTile a) (createNetwork freq linkTransferPerCycle)) := by
  have hrun : Succeeds (fun m : Mesh.Connector π => Mesh.Connector.Grid m calls ∧ m.connector = {} ∧
      ∀ l, l.In m.gridSize → InGrid calls l)
      (calls.foldlM (fun c a => c.addTile a) (createNetwork freq linkTransferPerCycle)) := by
    refine Succeeds.foldlM (P := fun pre (m : Mesh.Connector π) => Mesh.Connector.Grid m pre ∧ m.connector = {} ∧
      ((∀ n < m.gridSize.x, ∃ a ∈ pre, n ≤ a.loc.x) ∧ (∀ n < m.gridSize.y, ∃ a ∈ pre, n ≤ a.loc.y) ∧
        ∀ n < m.gridSize.z, ∃ a ∈ pre, n ≤ a.loc.z)) ?_ ?_ |>.mono fun m hm => ⟨hm.1, hm.2.1, fun l hl =>
          ⟨hm.2.2.1 _ hl.1, hm.2.2.2.1 _ hl.2.1, hm.2.2.2.2 _ hl.2.2⟩⟩
    · exact ⟨Mesh.Connector.grid_createNetwork .., rfl, fun n hn => absurd hn (Nat.not_lt_zero n),
        fun n hn => absurd hn (Nat.not_lt_zero n), fun n hn => absurd hn (Nat.not_lt_zero n)⟩
    · rintro pre a post m hsplit ⟨hgrid, hnet, hx, hy, hz⟩
      have ha : a.NonNegative := by
        apply h
        rw [hsplit]
        exact mem_append_right _ mem_cons_self
      obtain ⟨m', hok, hgrid', hnet'⟩ := addTile_ok hgrid ha
      refine ⟨m', hok, hgrid', hnet'.trans hnet, ?_⟩
      rw [gridSize_addTile hok]
      -- a coordinate that has grown is one of the new call
      have hgrow : ∀ (f : AddTile π → Nat) (size : Nat), (∀ n < size, ∃ b ∈ pre, n ≤ f b) →
          ∀ n < (if f a ≥ size then f a + 1 else size), ∃ b ∈ pre ++ [a], n ≤ f b := by
        intro f size hold n hn
        by_cases hge : f a ≥ size
        · rw [if_pos hge] at hn
          exact ⟨a, mem_append_right _ (mem_singleton_self a), Nat.le_of_lt_succ hn⟩
        · rw [if_neg hge] at hn
          obtain ⟨b, hb, hle⟩ := hold n hn
          exact ⟨b, mem_append_left _ hb, hle⟩
      exact ⟨hgrow (fun b => b.loc.x) _ hx, hgrow (fun b => b.loc.y) _ hy, hgrow (fun b => b.loc.z) _ hz⟩
  refine hrun.mono fun m hm => ⟨hm.1, hm.2.1, fun l => ⟨hm.2.2 l, ?_⟩⟩
  rintro ⟨⟨a, ha, hx⟩, ⟨b, hb, hy⟩, ⟨e, he, hz⟩⟩
  exact ⟨lt_of_le_of_lt hx (hm.1.holds a ha).1, lt_of_le_of_lt hy (hm.1.holds b hb).2.1,
    lt_of_le_of_lt hz (hm.1.holds e he).2.2⟩

/-! ## The switches -/

/-- A switch has links to devices only. -/
def Apart (m : Mesh.Connector π) : Prop := ∀ i r, r ∈ m.connector.remotes (.switch i) → ∃ e, r.remoteNode = .device e

omit [DecidableEq π] in
theorem Apart.createSwitch {m m' : Mesh.Connector π} (h : Apart m) (hok : m.createSwitch l = .ok m') : Apart m' := by
  unfold Mesh.Connector.createSwitch at hok
  obtain ⟨_, -, hok⟩ := eq_ok_of_bind hok
  obtain ⟨⟨_, net⟩, hconnect, hok⟩ := eq_ok_of_bind hok
  cases hok
  obtain ⟨_, hadds, hlocal, _, -⟩ := Noc.Connector.connectDevice_eq_ok hconnect
  intro i x hx
  have hx : x ∈ net.remotes (.switch i) := hx
  rw [hadds.remotes, mem_append] at hx
  rcases hx with hx | hx
  · have hsame := Noc.Connector.remotes_addSwitch (c := m.connector) ⟨m.numTables, l⟩ (.switch i)
    exact h i x (hsame ▸ hx)
  · obtain ⟨rfl | rfl, hnode⟩ := Remote.mem_ends.1 hx
    · rw [hlocal] at hnode
      cases hnode
    · exact ⟨_, hlocal⟩

namespace Connector

variable {c c' : Connector π} {name : String}

theorem createSwitches_ok {m : Mesh.Connector π} (h : Mesh.Connector.Grid m calls) (hnet : m.connector = {})
    (hvalid : ∀ l, l.In m.gridSize → nameMustBeValid (switchName name l) = .ok ()) :
    Succeeds (fun c => Linked c calls (fun _ _ => False) ∧ c.mesh.gridSize = m.gridSize ∧ c.name = name)
      (createSwitches { name, mesh := m }) := by
  have hnone : ∀ v, m.connector.remotes v = [] := by
    intro v
    rw [hnet]
    cases v <;> rfl
  have hrun : Succeeds (fun c => Mesh.Connector.Switched c.mesh calls m.locs ∧ Apart c.mesh ∧ c.mesh.gridSize = m.gridSize ∧
      c.name = name ∧ c.remote = fun _ _ => none) (createSwitches { name, mesh := m }) := by
    refine Succeeds.foldlM_nodup (P := fun pre (c : Connector π) => Mesh.Connector.Switched c.mesh calls pre ∧ Apart c.mesh ∧
      c.mesh.gridSize = m.gridSize ∧ c.name = name ∧ c.remote = fun _ _ => none) nodup_locs ?_ ?_
    · refine ⟨.new h hnet, fun i r hr => ?_, rfl, rfl, rfl⟩
      rw [hnone] at hr
      cases hr
    · rintro pre l c hmem hnot ⟨hc, hapart, hsize, hname, hremote⟩
      have hl := mem_locs.1 hmem
      obtain ⟨_, hok, hm', hsize'⟩ := Mesh.Connector.createSwitch_ok hc (hsize ▸ hl) hnot
      unfold createSwitch
      rw [hname, hvalid l hl, hok]
      exact .ok ⟨hm', hapart.createSwitch hok, hsize'.trans hsize, rfl, hremote⟩
  refine hrun.mono fun c hc => ?_
  obtain ⟨hswitched, hapart, hsize, hname, hremote⟩ := hc
  refine ⟨⟨hswitched.grid, hswitched.wellFormed, fun hl => hswitched.placed _ ?_,
    fun {l d} hl hd hne => ⟨fun hj => ?_, fun _ => ?_⟩, fun hj => ?_, fun {l key port} hl hport => ?_⟩, hsize, hname⟩
  · rw [hsize] at hl
    exact mem_locs.2 hl
  · exact (hj.2.elim And.left And.left).elim
  · refine countP_eq_zero.mpr fun r hr hnode => ?_
    obtain ⟨_, he⟩ := hapart _ r hr
    rw [he] at hnode
    exact absurd (of_decide_eq_true hnode) Node.noConfusion
  · exact (hj.2.elim And.left And.left).elim
  · rw [hremote] at hport
    cases hport

omit [DecidableEq π] in
theorem valid_of_createSwitches (h : c.createSwitches = .ok c') :
    ∀ l ∈ c.mesh.locs, nameMustBeValid (switchName c.name l) = .ok () := by
  have hrest : ∀ (ls : List Loc) (c : Connector π), ls.foldlM createSwitch c = .ok c' →
      ∀ l ∈ ls, nameMustBeValid (switchName c.name l) = .ok () := by
    intro ls
    induction ls with
    | nil => exact fun _ _ _ hl => absurd hl not_mem_nil
    | cons _ _ ih =>
      intro c h
      rw [foldlM_cons] at h
      obtain ⟨_, hc₁, h⟩ := eq_ok_of_bind h
      unfold createSwitch at hc₁
      obtain ⟨_, hu, hc₁⟩ := eq_ok_of_bind hc₁
      obtain ⟨_, -, hc₁⟩ := eq_ok_of_bind hc₁
      cases hc₁
      intro l' hl'
      rcases mem_cons.mp hl' with rfl | hl'
      · exact hu
      · exact ih _ h l' hl'
  exact hrest _ c h

/-! ## The network -/

theorem network_ok (freq linkTransferPerCycle : ℚ) (hcalls : ∀ a ∈ calls, a.NonNegative)
    (hvalid : ∀ l, InGrid calls l → nameMustBeValid (switchName name l) = .ok ()) :
    Succeeds (fun c => Linked c calls (fun a b => InGrid calls a ∧ InGrid calls b) ∧
      (∀ l, l.In c.mesh.gridSize ↔ InGrid calls l) ∧
      c.name = name) (network name freq linkTransferPerCycle calls) := by
  refine (addTiles_ok freq linkTransferPerCycle calls hcalls).bind fun m hm => ?_
  obtain ⟨hgrid, hnet, hsize⟩ := hm
  refine (createSwitches_ok hgrid hnet fun l hl => hvalid l ((hsize l).mp hl)).bind fun c hc => ?_
  obtain ⟨hlinked, hsize', hname⟩ := hc
  refine (createLinks_ok hlinked).mono fun c' hc' => ?_
  obtain ⟨hlinked', hsize'', hname'⟩ := hc'
  simp only [hsize', hsize] at hlinked'
  refine ⟨hlinked', fun l => ?_, hname'.trans hname⟩
  rw [hsize'', hsize', hsize]

theorem valid_of_network {freq linkTransferPerCycle : ℚ} (hcalls : ∀ a ∈ calls, a.NonNegative)
    (h : network name freq linkTransferPerCycle calls = .ok c) :
    ∀ l, InGrid calls l → nameMustBeValid (switchName name l) = .ok () := by
  obtain ⟨m, hm, -, -, hsize⟩ := addTiles_ok freq linkTransferPerCycle calls hcalls
  unfold network at h
  rw [hm] at h
  have h : establishNetwork { name, mesh := m } = .ok c := h
  unfold establishNetwork at h
  obtain ⟨_, hc₁, -⟩ := eq_ok_of_bind h
  intro l hl
  exact valid_of_createSwitches hc₁ l (mem_locs.2 ((hsize l).mpr hl))

variable {p : π}

/-- The answer of a switch for a port at another tile. -/
theorem Linked.findPort_eq {D : Loc → Loc → Prop} (h : Linked c calls D) (hp : lastTile calls p = some d) (hne : l ≠ d) :
    c.findPort (c.mesh.tile l).rt p = .ok (c.remote (c.mesh.tile l).rt (portName "Mesh" l d)) := by
  rw [← h.grid.last] at hp
  obtain ⟨q, hq, rfl⟩ := Option.map_eq_some_iff.1 hp
  have hd : (c.mesh.tables (c.mesh.tiles q).rt).loc = q.loc := h.grid.rt_loc q (h.grid.dst hq).1
  have hl : (c.mesh.tables (c.mesh.tile l).rt).loc = l := h.grid.loc_rt l
  unfold findPort
  rw [hq]
  dsimp only
  rw [if_neg, hd, hl, remoteName_eq]
  rintro ⟨hx, hy, hz⟩
  apply hne
  rw [← hl, ← hd]
  unfold Mesh.MeshRoutingTable.loc
  rw [hx, hy, hz]

/-- Every two tiles of the grid are joined by one link, and a switch answers for a port at another tile with the port of the
link to it. -/
structure FullyConnected (c : Connector π) (calls : List (AddTile π)) : Prop where
  links : ∀ {l d}, InGrid calls l → InGrid calls d → l ≠ d → c.links l d = 1
  routes : ∀ {l d p}, InGrid calls l → l ≠ d → lastTile calls p = some d →
    ∃ port, c.findPort (c.mesh.tile l).rt p = .ok (some port) ∧
    ∃ r ∈ c.mesh.connector.remotes (.switch (c.mesh.tile l).sw), r.localPort = port ∧
    r.remoteNode = .switch (c.mesh.tile d).sw

/-- `valid` : the names of the switches are valid; `flat` : there is one layer; `narrow` : it has one row, or at most seven
columns; `named` : the name of the network is the one that `FindPort` has written out, unless no port is placed or there is
one tile. -/
structure Suits (name : String) (calls : List (AddTile π)) : Prop where
  valid : ∀ l, InGrid calls l → nameMustBeValid (switchName name l) = .ok ()
  flat : ∀ a ∈ calls, a.loc.z = 0
  narrow : (∀ a ∈ calls, a.loc.x = 0) ∨ ∀ a ∈ calls, a.loc.y < 7
  named : name = "Mesh" ∨ (∀ a ∈ calls, a.ports = []) ∨ ∀ a ∈ calls, a.loc.x = 0 ∧ a.loc.y = 0

omit [DecidableEq π] in
theorem Suits.z_eq (h : Suits name calls) (hl : InGrid calls l) : l.z = 0 := by
  obtain ⟨a, ha, hle⟩ := hl.z
  rw [h.flat a ha] at hle
  exact Nat.le_zero.mp hle

omit [DecidableEq π] in
/-- The tiles of a layer that suits have different numbers. -/
theorem Suits.localID_ne (h : Suits name calls) (hl : InGrid calls l) (hd : InGrid calls d) (hne : l ≠ d) :
    localID l ≠ localID d := by
  intro heq
  have hz := (h.z_eq hl).trans (h.z_eq hd).symm
  obtain ⟨x, y, _⟩ := l
  obtain ⟨_, _, _⟩ := d
  unfold localID at heq
  simp only [ne_eq, Loc.mk.injEq, not_and] at heq hne hz
  rcases h.narrow with hx | hy
  · obtain ⟨a, ha, hxa⟩ := hl.x
    obtain ⟨b, hb, hxb⟩ := hd.x
    rw [hx a ha] at hxa
    rw [hx b hb] at hxb
    simp only at hxa hxb
    omega
  · obtain ⟨a, ha, hya⟩ := hl.y
    obtain ⟨b, hb, hyb⟩ := hd.y
    have h1 := hy a ha
    have h2 := hy b hb
    simp only at hya hyb
    omega

theorem mem_of_lastTile (h : lastTile calls p = some d) : ∃ a ∈ calls, a.loc = d ∧ p ∈ a.ports := by
  obtain ⟨a, ha, rfl⟩ := Option.map_eq_some_iff.1 h
  exact ⟨a, mem_reverse.mp (mem_of_find?_eq_some ha), rfl,
    of_decide_eq_true (find?_some (p := fun b : AddTile π => decide (p ∈ b.ports)) ha)⟩

theorem exists_lastTile {a : AddTile π} (ha : a ∈ calls) (hp : p ∈ a.ports) : ∃ d, lastTile calls p = some d := by
  unfold lastTile
  cases hfind : calls.reverse.find? (p ∈ ·.ports) with
  | none => exact absurd (decide_eq_true hp) (find?_eq_none.mp hfind a (mem_reverse.mpr ha))
  | some b => exact ⟨b.loc, rfl⟩

theorem Suits.fullyConnected {c : Connector π} (h : Suits name calls)
    (hc : Linked c calls fun a b => InGrid calls a ∧ InGrid calls b) (hsize : ∀ l, l.In c.mesh.gridSize ↔ InGrid calls l)
    (hname : c.name = name) : FullyConnected c calls := by
  have hjoined : ∀ {l d}, InGrid calls l → InGrid calls d → l ≠ d →
      Joined (fun a b => InGrid calls a ∧ InGrid calls b) l d := by
    intro l d hl hd hne
    refine ⟨(h.z_eq hl).trans (h.z_eq hd).symm, ?_⟩
    rcases Nat.lt_or_gt_of_ne (h.localID_ne hl hd hne) with hlt | hgt
    · exact .inl ⟨⟨hl, hd⟩, hlt⟩
    · exact .inr ⟨⟨hd, hl⟩, hgt⟩
  refine ⟨fun hl hd hne => (hc.links ((hsize _).mpr hl) ((hsize _).mpr hd) hne).1 (hjoined hl hd hne),
    fun {l d p} hl hne hp => ?_⟩
  obtain ⟨a, ha, rfl, hports⟩ := mem_of_lastTile hp
  have hd : InGrid calls a.loc := .of_mem ha
  rcases h.named with rfl | hnone | hone
  · obtain ⟨port, hport⟩ := hc.known (hjoined hl hd hne)
    obtain ⟨_, -, hkey, r, hr, hlocal, hnode⟩ := hc.leads ((hsize l).mpr hl) hport
    obtain ⟨-, rfl⟩ := portName_inj hkey
    rw [hname] at hport
    refine ⟨port, ?_, r, hr, hlocal, hnode⟩
    rw [hc.findPort_eq hp hne, hport]
  · rw [hnone a ha] at hports
    exact absurd hports not_mem_nil
  · -- there is one tile
    refine absurd ?_ hne
    obtain ⟨b, hb, hx⟩ := hl.x
    obtain ⟨e, he, hy⟩ := hl.y
    have hz := (h.z_eq hl).trans (h.z_eq hd).symm
    rw [(hone b hb).1] at hx
    rw [(hone e he).2] at hy
    have hax := (hone a ha).1
    have hay := (hone a ha).2
    obtain ⟨_, _, _⟩ := l
    generalize a.loc = d at *
    obtain ⟨_, _, _⟩ := d
    simp only [Loc.mk.injEq] at *
    omega

theorem suits_of_fullyConnected {c : Connector π}
    (hvalid : ∀ l, InGrid calls l → nameMustBeValid (switchName name l) = .ok ())
    (hc : Linked c calls fun a b => InGrid calls a ∧ InGrid calls b) (hsize : ∀ l, l.In c.mesh.gridSize ↔ InGrid calls l)
    (hname : c.name = name) (h : FullyConnected c calls) : Suits name calls := by
  -- two tiles that the loops do not join
  have hfalse : ∀ {l d}, InGrid calls l → InGrid calls d → l ≠ d → (l.z = d.z → localID l = localID d) → False := by
    intro l d hl hd hne hid
    have hone := h.links hl hd hne
    rw [(hc.links ((hsize l).mpr hl) ((hsize d).mpr hd) hne).2] at hone
    · exact absurd hone (by decide)
    · rintro ⟨hz, ⟨-, hlt⟩ | ⟨-, hlt⟩⟩
      · exact absurd (hid hz) (Nat.ne_of_lt hlt)
      · exact absurd (hid hz) (Nat.ne_of_gt hlt)
  refine ⟨hvalid, fun a ha => ?_, ?_, ?_⟩
  · by_contra hz
    have hpos : 1 ≤ a.loc.z := Nat.one_le_iff_ne_zero.mpr hz
    refine hfalse (l := ⟨0, 0, 0⟩) (d := ⟨0, 0, 1⟩) ?_ ?_ (by decide) fun hz => absurd hz (by decide)
    · exact ⟨⟨a, ha, Nat.zero_le _⟩, ⟨a, ha, Nat.zero_le _⟩, ⟨a, ha, Nat.zero_le _⟩⟩
    · exact ⟨⟨a, ha, Nat.zero_le _⟩, ⟨a, ha, Nat.zero_le _⟩, ⟨a, ha, hpos⟩⟩
  · by_contra hnot
    simp only [not_or, not_forall] at hnot
    obtain ⟨⟨a, ha, hx⟩, b, hb, hy⟩ := hnot
    refine hfalse (l := ⟨0, 7, 0⟩) (d := ⟨1, 0, 0⟩) ?_ ?_ (by decide) fun _ => rfl
    · exact ⟨⟨a, ha, Nat.zero_le _⟩, ⟨b, hb, Nat.le_of_not_lt hy⟩, ⟨a, ha, Nat.zero_le _⟩⟩
    · exact ⟨⟨a, ha, Nat.one_le_iff_ne_zero.mpr hx⟩, ⟨a, ha, Nat.zero_le _⟩, ⟨a, ha, Nat.zero_le _⟩⟩
  · by_contra hnot
    simp only [not_or, not_forall] at hnot
    obtain ⟨hmesh, ⟨a, ha, hports⟩, b, hb, hb'⟩ := hnot
    obtain ⟨_, hp⟩ := exists_mem_of_ne_nil _ hports
    obtain ⟨d, hd⟩ := exists_lastTile ha hp
    -- a tile that is not the one with the port
    obtain ⟨l, hl, hne⟩ : ∃ l, InGrid calls l ∧ l ≠ d := by
      by_cases hbd : b.loc = d
      · refine ⟨⟨0, 0, 0⟩, ⟨⟨b, hb, Nat.zero_le _⟩, ⟨b, hb, Nat.zero_le _⟩, ⟨b, hb, Nat.zero_le _⟩⟩, ?_⟩
        rintro rfl
        exact hb' (by rw [hbd]; exact ⟨rfl, rfl⟩)
      · exact ⟨b.loc, .of_mem hb, hbd⟩
    obtain ⟨_, hfind, -⟩ := h.routes hl hne hd
    rw [hc.findPort_eq hd hne] at hfind
    obtain ⟨_, -, hkey, -⟩ := hc.leads ((hsize l).mpr hl) (Except.ok.inj hfind)
    rw [hname] at hkey
    exact hmesh (portName_inj hkey).1.symm

/-- **Fully connected networks.** For every name and all `AddTile` calls with coordinates that are not negative, the network
is established, all its tiles are joined by one link each, and its switches find the ports at the other tiles, if and only if
the name and the calls suit. -/
theorem fully_connected_iff (name : String) (freq linkTransferPerCycle : ℚ) (calls : List (AddTile π))
    (h : ∀ a ∈ calls, a.NonNegative) :
    (∃ c, network name freq linkTransferPerCycle calls = .ok c ∧ FullyConnected c calls) ↔ Suits name calls := by
  constructor
  · rintro ⟨c, hok, hfull⟩
    have hvalid := valid_of_network h hok
    obtain ⟨_, hok', hc, hsize, hname⟩ := network_ok freq linkTransferPerCycle h hvalid
    rw [hok] at hok'
    cases hok'
    exact suits_of_fullyConnected hvalid hc hsize hname hfull
  · intro hsuits
    obtain ⟨c, hok, hc, hsize, hname⟩ := network_ok freq linkTransferPerCycle h hsuits.valid
    exact ⟨c, hok, hsuits.fullyConnected hc hsize hname⟩

/-- Two tiles with a port each. -/
def twoTiles : List (AddTile Nat) := [⟨0, 0, 0, [1]⟩, ⟨1, 0, 0, [2]⟩]

theorem nonNegative_twoTiles : ∀ a ∈ twoTiles, a.NonNegative := by
  unfold AddTile.NonNegative
  decide

theorem fully_connected_iff_two : ∃ c, network "Mesh" 1 1 twoTiles = .ok c ∧ FullyConnected c twoTiles := by
  refine (fully_connected_iff "Mesh" 1 1 twoTiles nonNegative_twoTiles).mpr
    ⟨fun l hl => ?_, by decide, .inr (by decide), .inl rfl⟩
  obtain ⟨⟨a, ha, hx⟩, ⟨b, hb, hy⟩, ⟨e, he, hz⟩⟩ := hl
  have hx1 : ∀ a ∈ twoTiles, a.loc.x ≤ 1 := by decide
  have hy0 : ∀ a ∈ twoTiles, a.loc.y = 0 := by decide
  have hz0 : ∀ a ∈ twoTiles, a.loc.z = 0 := by decide
  have hx := le_trans hx (hx1 a ha)
  rw [hy0 b hb] at hy
  rw [hz0 e he] at hz
  obtain ⟨x, y, z⟩ := l
  obtain rfl : y = 0 := Nat.le_zero.mp hy
  obtain rfl : z = 0 := Nat.le_zero.mp hz
  have hx : x ≤ 1 := hx
  rcases Nat.le_one_iff_eq_zero_or_eq_one.mp hx with rfl | rfl <;> decide +kernel

/-- In a network with another name the port at the other tile is not found. -/
theorem not_found_in_network :
    ∃ c, network "Network" 1 1 twoTiles = .ok c ∧ c.findPort (c.mesh.tile ⟨0, 0, 0⟩).rt 2 = .ok none ∧
    ¬ FullyConnected c twoTiles := by
  obtain ⟨c, hok, hfind⟩ : ∃ c, network "Network" 1 1 twoTiles = .ok c ∧ c.findPort (c.mesh.tile ⟨0, 0, 0⟩).rt 2 = .ok none :=
    ⟨_, rfl, by decide +kernel⟩
  refine ⟨c, hok, hfind, fun h => ?_⟩
  have hl : InGrid twoTiles ⟨0, 0, 0⟩ := show InGrid twoTiles (AddTile.loc ⟨0, 0, 0, [1]⟩) from .of_mem mem_cons_self
  obtain ⟨_, hport, -⟩ := h.routes (p := 2) hl (show (⟨0, 0, 0⟩ : Loc) ≠ ⟨1, 0, 0⟩ by decide) rfl
  rw [hfind] at hport
  cases hport

end Connector

end

end Akita.Noc.DirectConnector
