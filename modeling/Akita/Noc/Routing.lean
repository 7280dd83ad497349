import Akita.FloydWarshall
import Akita.Noc.NetworkConnector

/-!
# Routes

How the routers of `networkconnector` fill the routing tables of the switches of a network, from the links of the network and
a measure of paths.

* `Network.build` : the networks of devices and switches;
* `Network.establishRoute` : the loops that both routers share;
* `Network.tableToRoute_ok` : what the tables answer when the routes are established;
* `Network.exists_route` : the answers lead from every switch to every device port, along a path without a cycle, and no other
  path is better.
-/

namespace Akita.Noc
open Option List
open FloydWarshall (Cell Measure cost run through_run)

variable {π : Type}

/-- `routing.table` -/
structure Table (π : Type) where
  t : π → Option Nat := fun _ => none
  defaultPort : Option Nat := none

namespace Table

def findPort (t : Table π) (dst : π) : Option Nat :=
  match t.t dst with
  | some out => some out
  | none => t.defaultPort

def defineRoute [DecidableEq π] (t : Table π) (finalDst : π) (outputPort : Nat) : Table π :=
  { t with t := Function.update t.t finalDst (some outputPort) }

@[simp] theorem findPort_defineRoute_self [DecidableEq π] (t : Table π) (dst : π) (out : Nat) :
    (t.defineRoute dst out).findPort dst = some out := by
  simp [findPort, defineRoute]

theorem findPort_defineRoute_of_ne [DecidableEq π] (t : Table π) {dst dst' : π} (out : Nat) (h : dst' ≠ dst) :
    (t.defineRoute dst out).findPort dst' = t.findPort dst' := by
  simp [findPort, defineRoute, h]

end Table

abbrev Network (π : Type) := Connector (Table π) π

/-- A call that builds the network. -/
inductive Call (π : Type)
  | addSwitch
  | connectDevice (switchID : Nat) (ports : List π) (link : Link)
  | connectSwitches (leftSwitchID rightSwitchID : Nat) (link : Link)

namespace Network

def call (c : Network π) : Call π → Except String (Network π)
  | .addSwitch => .ok (c.addSwitch {}).2
  | .connectDevice switchID ports link => do return (← c.connectDevice switchID ports link).2
  | .connectSwitches leftSwitchID rightSwitchID link => do return (← c.connectSwitches leftSwitchID rightSwitchID link).2

def build (calls : List (Call π)) : Except String (Network π) := calls.foldlM call {}

theorem wellFormed_of_build {calls : List (Call π)} {c : Network π} (h : build calls = .ok c) : c.WellFormed := by
  refine of_foldlM h .new fun c call _ c' hc hcall => ?_
  cases call with
  | addSwitch =>
    cases hcall
    exact hc.addSwitch _
  | connectDevice =>
    obtain ⟨⟨p, d⟩, hok, hret⟩ := eq_ok_of_bind hcall
    cases hret
    obtain ⟨r, ha, -⟩ := Connector.connectDevice_eq_ok hok
    exact hc.adds ha
  | connectSwitches =>
    obtain ⟨⟨⟨_, _⟩, _⟩, hok, hret⟩ := eq_ok_of_bind hcall
    cases hret
    obtain ⟨_, ha, -⟩ := Connector.connectSwitches_eq_ok hok
    exact hc.adds ha

variable (c : Network π)

/-- `createRoutingNodeList` -/
def nodes : List Node := (range c.devices.length).map .device ++ (range c.switches.length).map .switch

/-- The index of a node in the table of a router. -/
abbrev Index := Fin c.nodes.length

def node (i : c.Index) : Node := c.nodes[i]

def devicePorts (d : Nat) : List π := (c.devices[d]?).elim [] DeviceNode.ports

def findRemote (l : List Remote) (t : Node) : Option Remote := l.find? fun r => t = r.remoteNode

/-! ## The routers -/

section Router

variable {W : Type} [LinearOrder W] (m : Measure W) (far : W) (weight : Remote → W)

/-- `floydWarshallInit`, with `far` where there is no link. -/
def initial (i j : c.Index) : Cell W Remote :=
  if i = j then ⟨m.zero, (c.remotes (c.node i)).head?⟩
  else
    match findRemote (c.remotes (c.node i)) (c.node j) with
    | some r => ⟨weight r, some r⟩
    | none => ⟨far, none⟩

def floydWarshallInit : Except String (FloydWarshall.Table c.Index W Remote) :=
  -- `&remotes[0]`
  if ∃ i, c.remotes (c.node i) = [] then .error "index out of range" else .ok (c.initial m far weight)

/-- The inner loops of `tableToRoute`, for one switch. -/
def routeSwitch [DecidableEq π] (nextHop : c.Index → Option Remote) (t : Table π) : Except String (Table π) :=
  (finRange c.nodes.length).foldlM (fun t j =>
    match c.node j with
    | .switch _ => .ok t
    | .device d => (c.devicePorts d).foldlM (fun t p =>
        match nextHop j with
        | some remote => .ok (t.defineRoute p remote.localPort)
        | none => .error "nil pointer dereference") t) t

def tableToRoute [DecidableEq π] (table : FloydWarshall.Table c.Index W Remote) : Except String (Network π) :=
  (finRange c.nodes.length).foldlM (fun c' i =>
    match c.node i with
    | .device _ => .ok c'
    | .switch s =>
      match c'.switches[s]? with
      | some swNode => do
        let t ← c.routeSwitch (fun j => (table i j).next) swNode.table
        return { c' with switches := c'.switches.set s { swNode with table := t } }
      | none => .error "index out of range") c

def establishRoute [DecidableEq π] : Except String (Network π) := do
  let table ← c.floydWarshallInit m far weight
  c.tableToRoute (run m (finRange c.nodes.length) table)

end Router

end Network

/-! ## Nodes -/

namespace Network

variable {c : Network π}

theorem device_mem_nodes {d : Nat} : Node.device d ∈ c.nodes ↔ d < c.devices.length := by
  simp [nodes]

theorem switch_mem_nodes {s : Nat} : Node.switch s ∈ c.nodes ↔ s < c.switches.length := by
  simp [nodes]

theorem mem_nodes_of_mem_remotes {v : Node} {r : Remote} (h : r ∈ c.remotes v) : v ∈ c.nodes := by
  cases v with
  | device =>
    rw [Connector.remotes_device] at h
    rw [device_mem_nodes]
    by_contra hd
    rw [getElem?_eq_none (not_lt.1 hd)] at h
    cases h
  | switch =>
    rw [Connector.remotes_switch] at h
    rw [switch_mem_nodes]
    by_contra hs
    rw [getElem?_eq_none (not_lt.1 hs)] at h
    cases h

theorem nodup_nodes : c.nodes.Nodup := by
  unfold nodes
  refine (nodup_range.map fun _ _ h => Node.device.inj h).append (nodup_range.map fun _ _ h => Node.switch.inj h) ?_
  intro v hv hv'
  obtain ⟨_, -, rfl⟩ := mem_map.1 hv
  obtain ⟨_, -, hs⟩ := mem_map.1 hv'
  cases hs

theorem node_injective : Function.Injective c.node := nodup_iff_injective_get.1 nodup_nodes

theorem exists_node {v : Node} (h : v ∈ c.nodes) : ∃ i, c.node i = v := by
  obtain ⟨i, hi, rfl⟩ := mem_iff_getElem.1 h
  exact ⟨⟨i, hi⟩, rfl⟩

theorem node_eq_device {i : c.Index} {d : Nat} : c.node i = .device d ↔ i.val = d ∧ d < c.devices.length := by
  have hi : c.node i = c.nodes[i.val] := rfl
  rw [hi]
  unfold nodes
  constructor
  · intro h
    by_cases hlt : i.val < c.devices.length
    · rw [getElem_append_left (by simpa using hlt)] at h
      simp at h
      exact ⟨h, h ▸ hlt⟩
    · rw [getElem_append_right (by simpa using hlt)] at h
      simp at h
  · rintro ⟨rfl, hlt⟩
    rw [getElem_append_left (by simpa using hlt)]
    simp

end Network

/-! ## The tables -/

namespace Network

variable {c : Network π} [DecidableEq π]

/-- The table answers with the first hop to the last device that has the port. -/
def Routed (c : Network π) (nextHop : c.Index → Option Remote) (js : List c.Index) (t : Table π) : Prop :=
  ∀ p j d, j ∈ js → c.node j = .device d → p ∈ c.devicePorts d →
    (∀ j' ∈ js, ∀ d', c.node j' = .device d' → p ∈ c.devicePorts d' → j' ≤ j) →
    t.findPort p = (nextHop j).map Remote.localPort

theorem routePorts_ok (t : Table π) (ports : List π) (remote : Remote) :
    Succeeds (fun t' : Table π => (∀ p ∈ ports, t'.findPort p = some remote.localPort) ∧ ∀ p ∉ ports,
      t'.findPort p = t.findPort p)
      (ports.foldlM (fun t p => .ok (t.defineRoute p remote.localPort)) t : Except String (Table π)) := by
  refine Succeeds.foldlM (P := fun pre (t' : Table π) =>
    (∀ p ∈ pre, t'.findPort p = some remote.localPort) ∧ ∀ p ∉ pre, t'.findPort p = t.findPort p) ?_ ?_
  · exact ⟨forall_mem_nil _, fun _ _ => rfl⟩
  · rintro pre x post t' - ⟨hmem, hother⟩
    refine .ok ⟨fun p hp => ?_, fun p hp => ?_⟩
    · by_cases hpx : p = x
      · rw [hpx, Table.findPort_defineRoute_self]
      · rw [Table.findPort_defineRoute_of_ne _ _ hpx]
        exact hmem p ((mem_append.1 hp).resolve_right fun h => hpx (mem_singleton.1 h))
    · rw [mem_append, not_or, mem_singleton] at hp
      rw [Table.findPort_defineRoute_of_ne _ _ hp.2]
      exact hother p hp.1

theorem routeSwitch_ok {nextHop : c.Index → Option Remote} (hnext : ∀ j d, c.node j = .device d → (nextHop j).isSome)
    (t : Table π) : Succeeds (c.Routed nextHop (finRange _)) (c.routeSwitch nextHop t) := by
  unfold routeSwitch
  refine Succeeds.foldlM (P := c.Routed nextHop) ?_ ?_
  · intro p j d hj
    exact absurd hj not_mem_nil
  · intro pre x post t' hsplit ht'
    have hlt : ∀ j ∈ pre, j < x := by
      have hsorted := pairwise_lt_finRange c.nodes.length
      rw [hsplit] at hsorted
      exact fun j hj => (pairwise_append.1 hsorted).2.2 j hj x (mem_cons_self ..)
    cases hx : c.node x with
    | switch =>
      dsimp only
      refine .ok fun p j d hj hnode hp hlast => ?_
      have hj' : j ∈ pre := by
        rcases mem_append.1 hj with hj | hj
        · exact hj
        · rw [mem_singleton.1 hj, hx] at hnode
          cases hnode
      exact ht' p j d hj' hnode hp fun j' hmem => hlast j' (mem_append_left _ hmem)
    | device e =>
      obtain ⟨remote, hremote⟩ := isSome_iff_exists.1 (hnext x e hx)
      simp only [hremote]
      refine (routePorts_ok t' (c.devicePorts e) remote).mono fun t'' ht'' => ?_
      obtain ⟨hmem, hother⟩ := ht''
      intro p j d hj hnode hp hlast
      by_cases hpe : p ∈ c.devicePorts e
      · have hle : x ≤ j := hlast x (mem_append_right _ (mem_singleton_self _)) e hx hpe
        have hjx : j = x := by
          rcases mem_append.1 hj with hj | hj
          · exact absurd hle (not_le.2 (hlt j hj))
          · exact mem_singleton.1 hj
        rw [hmem p hpe, hjx, hremote]
        rfl
      · have hj' : j ∈ pre := by
          rcases mem_append.1 hj with hj | hj
          · exact hj
          · rw [mem_singleton.1 hj, hx] at hnode
            cases hnode
            exact absurd hp hpe
        rw [hother p hpe]
        exact ht' p j d hj' hnode hp fun j' hmem => hlast j' (mem_append_left _ hmem)

/-- The network has the links of `c`, and the routes of the table at the switches of `is`. -/
structure Established {W : Type} (c : Network π) (table : FloydWarshall.Table c.Index W Remote)
    (is : List c.Index) (c' : Network π) :
    Prop where
  remotes : ∀ s : Nat, (c'.switches[s]?).map SwitchNode.remotes = (c.switches[s]?).map SwitchNode.remotes
  routed : ∀ i ∈ is, ∀ s, c.node i = .switch s →
    ∃ swNode, c'.switches[s]? = some swNode ∧ c.Routed (fun j => (table i j).next) (finRange _) swNode.table

theorem tableToRoute_ok {W : Type} {table : FloydWarshall.Table c.Index W Remote}
    (hnext : ∀ i j, i ≠ j → (table i j).next.isSome) :
    Succeeds (Established c table (finRange _)) (c.tableToRoute table) := by
  unfold tableToRoute
  refine Succeeds.foldlM (P := Established c table) ⟨fun _ => rfl, forall_mem_nil _⟩ ?_
  rintro pre x post c' - hc'
  cases hx : c.node x with
  | device =>
    dsimp only
    refine .ok ⟨hc'.remotes, fun i hi s hnode => ?_⟩
    rcases mem_append.1 hi with hi | hi
    · exact hc'.routed i hi s hnode
    · rw [mem_singleton.1 hi, hx] at hnode
      cases hnode
  | switch s =>
    have hs : s < c.switches.length := switch_mem_nodes.1 (hx ▸ getElem_mem x.isLt)
    have hremotes := hc'.remotes s
    rw [getElem?_eq_getElem hs] at hremotes
    cases hnode : c'.switches[s]? with
    | none =>
      rw [hnode] at hremotes
      cases hremotes
    | some swNode =>
      simp only [hnode]
      refine (routeSwitch_ok (fun j d hj => hnext x j ?_) swNode.table).bind fun t ht => .ok ?_
      · rintro rfl
        rw [hx] at hj
        cases hj
      · have hlen : s < c'.switches.length := by
          by_contra hlt
          rw [getElem?_eq_none (not_lt.1 hlt)] at hnode
          cases hnode
        refine ⟨fun s' => ?_, fun i hi s' hi' => ?_⟩
        · rw [← hc'.remotes s', getElem?_set]
          by_cases hss : s = s'
          · subst hss
            rw [if_pos rfl, if_pos hlen, hnode]
            rfl
          · rw [if_neg hss]
        · rw [getElem?_set]
          by_cases hss : s = s'
          · subst hss
            rw [if_pos rfl, if_pos hlen]
            rw [node_injective (hi'.trans hx.symm)]
            exact ⟨_, rfl, ht⟩
          · rw [if_neg hss]
            rcases mem_append.1 hi with hi | hi
            · exact hc'.routed i hi s' hi'
            · rw [mem_singleton.1 hi, hx] at hi'
              exact absurd (Node.switch.inj hi') hss

end Network

/-! ## Paths in the table -/

namespace Network

section Paths

variable {W : Type} [LinearOrder W] (m : Measure W) {far : W} (weight : Remote → W)

/-- The value of a path. -/
def pathValue : List Remote → W
  | [] => m.zero
  | r :: path => m.op (weight r) (pathValue path)

variable {m weight} {c : Network π}

/-- What the routers ask of the links: every link is nearer than `far`, and links between the same two nodes are as good. -/
structure Weighted (c : Network π) (far : W) (weight : Remote → W) : Prop where
  lt_far : ∀ {v r}, r ∈ c.remotes v → weight r < far
  parallel : ∀ {v r r'}, r ∈ c.remotes v → r' ∈ c.remotes v → r.remoteNode = r'.remoteNode →
    v ≠ r.remoteNode → weight r = weight r'

/-- There is a path from every node to every node. -/
def Connected (c : Network π) : Prop := ∀ v ∈ c.nodes, ∀ w ∈ c.nodes, ∃ path, c.IsPath v path w

/-- The last device that was connected with the port, whose end point is the connection of the port. -/
def LastHolds (c : Network π) (d : Nat) (p : π) : Prop := p ∈ c.devicePorts d ∧ ∀ d', d < d' → p ∉ c.devicePorts d'

theorem connected_of_center (hc : c.WellFormed) {u : Node} (h : ∀ v ∈ c.nodes, ∃ path, c.IsPath u path v) : c.Connected := by
  intro v hv w hw
  obtain ⟨_, hpath⟩ := h v hv
  obtain ⟨path', hpath'⟩ := h w hw
  obtain ⟨back, hback⟩ := hpath.symm hc
  exact ⟨back ++ path', hback.append hpath'⟩

theorem initial_self (i : c.Index) : c.initial m far weight i i = ⟨m.zero, (c.remotes (c.node i)).head?⟩ := if_pos rfl

variable (m far weight) in
theorem initial_of_ne {i j : c.Index} (hne : i ≠ j) :
    (∃ r ∈ c.remotes (c.node i), r.remoteNode = c.node j ∧ c.initial m far weight i j = ⟨weight r, some r⟩) ∨
      (c.initial m far weight i j = ⟨far, none⟩ ∧ ∀ r ∈ c.remotes (c.node i), r.remoteNode ≠ c.node j) := by
  unfold initial findRemote
  rw [if_neg hne]
  cases hfind : (c.remotes (c.node i)).find? fun r => c.node j = r.remoteNode with
  | none =>
    refine Or.inr ⟨rfl, fun r hr heq => ?_⟩
    have hnot := find?_eq_none.1 hfind r hr
    exact hnot (decide_eq_true heq.symm)
  | some r =>
    refine Or.inl ⟨r, mem_of_find?_eq_some hfind, ?_, rfl⟩
    have heq := find?_some hfind
    exact (of_decide_eq_true heq).symm

theorem exists_via (hc : c.WellFormed) (i₀ : c.Index) :
    ∃ via : Remote → c.Index, ∀ v, ∀ r ∈ c.remotes v, c.node (via r) = r.remoteNode := by
  have hex : ∀ r : Remote, ∃ i : c.Index, (∃ v, r ∈ c.remotes v) → c.node i = r.remoteNode := by
    intro r
    by_cases hr : ∃ v, r ∈ c.remotes v
    · obtain ⟨v, hv⟩ := hr
      obtain ⟨i, hi⟩ := exists_node (mem_nodes_of_mem_remotes (hc.swap hv))
      exact ⟨i, fun _ => hi⟩
    · exact ⟨i₀, fun h => absurd h hr⟩
  choose via hvia using hex
  exact ⟨via, fun v r hr => hvia r ⟨v, hr⟩⟩

variable {via : Remote → c.Index} (hvia : ∀ v, ∀ r ∈ c.remotes v, c.node (via r) = r.remoteNode)

include hvia

theorem next_initial {i j : c.Index} {r : Remote} (hne : i ≠ j) (hnext : (c.initial m far weight i j).next = some r) :
    r ∈ c.remotes (c.node i) ∧ via r = j ∧ (c.initial m far weight i j).val = weight r := by
  rcases initial_of_ne m far weight hne with ⟨_, hx, hnode, heq⟩ | ⟨heq, -⟩
  · rw [heq] at hnext ⊢
    cases hnext
    exact ⟨hx, node_injective ((hvia _ _ hx).trans hnode), rfl⟩
  · rw [heq] at hnext
    cases hnext

theorem inv_initial (hw : c.Weighted far weight) :
    FloydWarshall.Inv m via far (c.initial m far weight) (c.initial m far weight) where
  diag i := by rw [initial_self]
  next_iff {i j} hne := by
    rcases initial_of_ne m far weight hne with ⟨r, hr, -, heq⟩ | ⟨heq, -⟩
    · rw [heq]
      exact iff_of_true rfl (hw.lt_far hr)
    · rw [heq]
      exact iff_of_false Bool.false_ne_true (lt_irrefl far)
  le_far i j := by
    by_cases hne : i = j
    · subst hne
      rw [initial_self]
      exact m.zero_le far
    · rcases initial_of_ne m far weight hne with ⟨r, hr, -, heq⟩ | ⟨heq, -⟩
      · rw [heq]
        exact (hw.lt_far hr).le
      · rw [heq]
  le i j := le_refl _
  hop {i j r} hne hnext := by
    obtain ⟨-, hj, -⟩ := next_initial hvia hne hnext
    rw [hj]
    refine ⟨hne, hnext, ?_⟩
    rw [initial_self, m.op_zero]
  reach {i j} hne hsome := by
    obtain ⟨_, hnext⟩ := isSome_iff_exists.1 hsome
    refine .next hne hnext ?_
    rw [(next_initial hvia hne hnext).2.1]
    exact .refl

theorem cost_le_pathValue (hw : c.Weighted far weight) {v w : Node} {path : List Remote} (h : c.IsPath v path w)
    {i j : c.Index} (hi : c.node i = v) (hj : c.node j = w) :
    ∃ vs, (i :: vs).getLast (cons_ne_nil i vs) = j ∧ cost m (c.initial m far weight) i vs ≤ pathValue m weight path := by
  induction h generalizing i with
  | nil => exact ⟨[], node_injective (hi.trans hj.symm), le_refl _⟩
  | @cons v w r path hr _ ih =>
    obtain ⟨vs, _, hle⟩ := ih (hvia _ _ hr) hj
    refine ⟨via r :: vs, by rwa [getLast_cons (cons_ne_nil _ _)], m.op_mono ?_ hle⟩
    subst hi
    by_cases hne : i = via r
    · rw [← hne, initial_self]
      exact m.zero_le _
    · rcases initial_of_ne m far weight hne with ⟨_, hx, hnode, heq⟩ | ⟨-, hnone⟩
      · rw [heq, hw.parallel hx hr (hnode.trans (hvia _ _ hr))]
        rintro hself
        exact hne (node_injective (hself.trans hnode))
      · exact absurd (hvia _ _ hr).symm (hnone r hr)

theorem linked_of_isPath {v w : Node} {path : List Remote} (h : c.IsPath v path w) {i j : c.Index} (hi : c.node i = v)
    (hj : c.node j = w) : Relation.ReflTransGen (FloydWarshall.Linked (c.initial m far weight)) i j := by
  induction h generalizing i with
  | nil => rw [node_injective (hi.trans hj.symm)]
  | @cons v w r path hr _ ih =>
    have hrest := ih (hvia _ _ hr) hj
    subst hi
    by_cases hne : i = via r
    · rw [hne]
      exact hrest
    · refine .head ⟨hne, ?_⟩ hrest
      rcases initial_of_ne m far weight hne with ⟨_, _, _, heq⟩ | ⟨-, hnone⟩
      · rw [heq]
        rfl
      · exact absurd (hvia _ _ hr).symm (hnone r hr)

theorem exists_of_linked {i k : c.Index} (h : FloydWarshall.Linked (c.initial m far weight) i k) :
    ∃ r ∈ c.remotes (c.node i), r.remoteNode = c.node k := by
  obtain ⟨r, hnext⟩ := isSome_iff_exists.1 h.2
  obtain ⟨hr, hk, -⟩ := next_initial hvia h.1 hnext
  refine ⟨r, hr, ?_⟩
  rw [← hk]
  exact (hvia _ _ hr).symm

theorem eq_of_linked_device (hc : c.WellFormed) {i k l : c.Index} {d : Nat} (hk : c.node k = .device d)
    (hik : FloydWarshall.Linked (c.initial m far weight) i k) (hkl : FloydWarshall.Linked (c.initial m far weight) k l) :
    l = i := by
  obtain ⟨_, hr, hrk⟩ := exists_of_linked hvia hik
  obtain ⟨_, hr', hrl⟩ := exists_of_linked hvia hkl
  have hswap := hc.swap hr
  rw [hrk] at hswap
  have hsingle : ∀ x ∈ c.remotes (c.node k), ∀ y ∈ c.remotes (c.node k), x = y := by
    rw [hk, Connector.remotes_device]
    cases c.devices[d]? with
    | none => exact forall_mem_nil _
    | some => exact fun x hx y hy => (mem_singleton.1 hx).trans (mem_singleton.1 hy).symm
  have heq := hsingle _ hswap _ hr'
  apply node_injective
  rw [← hrl, ← heq]
  exact hc.localNode hr

/-- The next hops of the table are what the switches answer, and the path over them is as good as the table says. -/
theorem route_of_follows (hc : c.WellFormed) {t : FloydWarshall.Table c.Index W Remote}
    (hinv : FloydWarshall.Inv m via far (c.initial m far weight) t)
    {c' : Network π} {findPort : Table π → Option Nat} {j : c.Index}
    (hforward : ∀ i s r, c.node i = .switch s → (t i j).next = some r → c'.forward findPort s = some r)
    {i : c.Index} {vs : List c.Index} (h : FloydWarshall.Follows via t j i vs)
    (hswitch : vs = [] ∨ ∃ s, c.node i = .switch s) :
    ∃ path, c'.Route findPort (c.node i) path (c.node j) ∧ c.IsPath (c.node i) path (c.node j) ∧
    path.map Remote.remoteNode = vs.map c.node ∧
      pathValue m weight path = cost m (c.initial m far weight) i vs := by
  induction h with
  | nil => exact ⟨[], .nil _, .nil _, rfl, rfl⟩
  | @cons i r vs hne hnext hrest ih =>
    obtain ⟨s, hs⟩ := hswitch.resolve_left (cons_ne_nil _ _)
    obtain ⟨hi, hlink, -⟩ := hinv.hop hne hnext
    obtain ⟨hr, -, hval⟩ := next_initial hvia hi hlink
    have hnode := hvia _ _ hr
    have hnodup := (FloydWarshall.Follows.cons hne hnext hrest).nodup
    have hchain := (FloydWarshall.Follows.cons hne hnext hrest).linked hinv
    have hnextSwitch : vs = [] ∨ ∃ s, c.node (via r) = .switch s := by
      cases vs with
      | nil => exact Or.inl rfl
      | cons =>
        cases hk : c.node (via r) with
        | switch s => exact Or.inr ⟨s, rfl⟩
        | device =>
          -- the path would go back to the node it came from
          rw [isChain_cons_cons, isChain_cons_cons] at hchain
          have hback := eq_of_linked_device hvia hc hk hchain.1 hchain.2.1
          rw [hback] at hnodup
          exact absurd hnodup (by simp)
    obtain ⟨path, hroute, hpath, hmap, hcost⟩ := ih hnextSwitch
    rw [hnode] at hroute hpath
    refine ⟨r :: path, ?_, .cons hr hpath, ?_, ?_⟩
    · rw [hs]
      exact .cons (hforward i s r hs hnext) hroute
    · rw [map_cons, map_cons, hmap, hnode]
    · rw [pathValue, cost, hcost, hval]

omit hvia

/-- The routers lead from every switch to the last device that has the port, along a path without a cycle, and no other path
is better. -/
theorem exists_route [DecidableEq π] (hc : c.WellFormed) (hconn : c.Connected) (hw : c.Weighted far weight)
    (hbounded : FloydWarshall.Bounded m far (c.initial m far weight)) {s d : Nat} {p : π} (hs : s < c.switches.length)
    (hd : c.LastHolds d p) : ∃ c', c.establishRoute m far weight = .ok c' ∧ ∃ path,
      c'.Route (Table.findPort · p) (.switch s) path (.device d) ∧ c.IsPath (.switch s) path (.device d) ∧
      (Node.switch s :: path.map Remote.remoteNode).Nodup ∧
      ∀ path', c.IsPath (.switch s) path' (.device d) → pathValue m weight path ≤ pathValue m weight path' := by
  have hdev : d < c.devices.length := by
    by_contra hlt
    have hp := hd.1
    rw [devicePorts, getElem?_eq_none (not_lt.1 hlt)] at hp
    exact absurd hp not_mem_nil
  obtain ⟨i, hi⟩ := exists_node (switch_mem_nodes.2 hs)
  obtain ⟨j, hj⟩ := exists_node (device_mem_nodes.2 hdev)
  have hij : i ≠ j := by
    rintro rfl
    rw [hi] at hj
    cases hj
  obtain ⟨_, hvia⟩ := exists_via hc i
  have hall : ∀ k : c.Index, k ∈ finRange c.nodes.length := mem_finRange
  have hinv := (inv_initial (m := m) hvia hw).run hall
  have hthrough := through_run hall (inv_initial (m := m) hvia hw)
  have hlinked : ∀ k l : c.Index, Relation.ReflTransGen (FloydWarshall.Linked (c.initial m far weight)) k l := by
    intro k l
    obtain ⟨path, hpath⟩ := hconn _ (getElem_mem k.isLt) _ (getElem_mem l.isLt)
    exact linked_of_isPath hvia hpath rfl rfl
  have hsome : ∀ k l, k ≠ l → (run m (finRange c.nodes.length) (c.initial m far weight) k l).next.isSome :=
    fun k l hne => FloydWarshall.isSome_of_linked hinv hthrough hbounded (hlinked k l) hne
  have hinit : c.floydWarshallInit m far weight = .ok (c.initial m far weight) := by
    refine if_neg ?_
    rintro ⟨k, hk⟩
    -- another node than `k` is reached over one of the links of `k`
    obtain ⟨l, hl⟩ : ∃ l, k ≠ l := by
      by_cases hki : k = i
      · exact ⟨j, hki ▸ hij⟩
      · exact ⟨i, hki⟩
    obtain ⟨path, hpath⟩ := hconn _ (getElem_mem k.isLt) _ (getElem_mem l.isLt)
    generalize hv : c.nodes[k.val] = v at hpath
    cases hpath with
    | nil => exact hl (node_injective hv)
    | cons hr =>
      have hnil : c.remotes v = [] := hv ▸ hk
      rw [hnil] at hr
      cases hr
  obtain ⟨c', hc', hestablished⟩ := tableToRoute_ok hsome
  obtain ⟨_, hvs, hnodup, -, hbest⟩ := FloydWarshall.exists_follows hinv hthrough hbounded (hlinked i j)
  have hforward : ∀ k e r, c.node k = .switch e →
      (run m (finRange c.nodes.length) (c.initial m far weight) k j).next = some r →
      c'.forward (Table.findPort · p) e = some r := by
    intro k e r hk hnext
    have hkj : k ≠ j := by
      rintro rfl
      rw [hk] at hj
      cases hj
    obtain ⟨hvk, hlink, -⟩ := hinv.hop hkj hnext
    have hr := (next_initial hvia hvk hlink).1
    obtain ⟨swNode, hsw, hrouted⟩ := hestablished.routed k (hall k) e hk
    have hremotes : c.remotes (c.node k) = swNode.remotes := by
      have heq := hestablished.remotes e
      rw [hsw] at heq
      rw [hk, Connector.remotes_switch]
      cases hcs : c.switches[e]? with
      | none =>
        rw [hcs] at heq
        cases heq
      | some =>
        rw [hcs] at heq
        exact (some.inj heq).symm
    have hout := hrouted p j d (hall j) hj hd.1 fun j' _ d' hj' hp => by
      by_contra hlt
      have hlt := Fin.lt_def.1 (not_le.1 hlt)
      rw [node_eq_device] at hj hj'
      exact hd.2 d' (by omega) hp
    replace hout := hout.trans (congrArg (Option.map Remote.localPort) hnext)
    refine Connector.forward_eq hsw ?_ (hremotes ▸ hr) hout
    rw [← hremotes]
    exact hc.nodup _
  obtain ⟨path, hroute, hpath, hmap, hcost⟩ := route_of_follows hvia hc hinv hforward hvs (Or.inr ⟨s, hi⟩)
  rw [hi, hj] at hroute hpath
  refine ⟨c', ?_, path, hroute, hpath, ?_, fun path' hpath' => ?_⟩
  · unfold establishRoute
    rw [hinit]
    exact hc'
  · rw [hmap, ← hi, ← map_cons]
    exact hnodup.map node_injective
  · obtain ⟨vs', hlast, hle⟩ := cost_le_pathValue (m := m) hvia hw hpath' hi hj
    rw [hcost]
    exact (hbest vs' hlast).trans hle

end Paths

end Network

end Akita.Noc
