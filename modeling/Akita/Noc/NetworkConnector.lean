import Akita.Returns
import Mathlib.Data.List.Nodup
import Mathlib.Data.Rat.Defs

/-!
# Networks of switches and end points

`Connector τ π` is `networkconnector.Connector`, for switches with routing tables `τ` and devices with ports `π`.

* `Connector.addSwitch`, `connectDevice`, `connectSwitches` : the calls that build a network;
* `Connector.Adds` : what a call that makes a link does to the links of all nodes;
* `Connector.WellFormed` : the links of a node have different ports, and each link is there from both sides;
* `Connector.IsPath` : a path over links; `Connector.Route` : the path that the answers of the switches lead along.
-/

namespace Akita.Noc
open Option
open List hiding getElem?_eq_some_iff

inductive Node
  | device (i : Nat)
  | switch (i : Nat)
deriving DecidableEq

/-- The connection of a link: a `sim.DirectConnection`, or a `messaging.Channel` with its frequency. -/
inductive Link
  | directConnection
  | channel (freq : ℚ)
deriving DecidableEq

/-- A link, as its node sees it. The ports that the connector makes are numbered in the order they are made. -/
structure Remote where
  localNode : Node
  localPort : Nat
  remoteNode : Node
  remotePort : Nat
  link : Link
deriving DecidableEq

namespace Remote

/-- The same link, seen from the other node. -/
def swap (r : Remote) : Remote where
  localNode := r.remoteNode
  localPort := r.remotePort
  remoteNode := r.localNode
  remotePort := r.localPort
  link := r.link

/-- What the link is to a node. -/
def ends (r : Remote) (v : Node) : List Remote :=
  (if r.localNode = v then [r] else []) ++ (if r.remoteNode = v then [r.swap] else [])

theorem mem_ends {r x : Remote} {v : Node} : x ∈ r.ends v ↔ (x = r ∨ x = r.swap) ∧ x.localNode = v := by
  unfold ends
  rw [mem_append]
  constructor
  · rintro (hx | hx)
    · split at hx
      · cases mem_singleton.1 hx
        exact ⟨Or.inl rfl, ‹_›⟩
      · cases hx
    · split at hx
      · cases mem_singleton.1 hx
        exact ⟨Or.inr rfl, ‹_›⟩
      · cases hx
  · rintro ⟨rfl | rfl, hv⟩
    · exact Or.inl (by rw [if_pos hv]; exact mem_singleton_self _)
    · exact Or.inr (by rw [if_pos (show r.remoteNode = v from hv)]; exact mem_singleton_self _)

end Remote

structure SwitchNode (τ : Type) where
  table : τ
  remotes : List Remote := []

structure DeviceNode (π : Type) where
  ports : List π
  remote : Remote

structure Connector (τ π : Type) where
  switches : List (SwitchNode τ) := []
  devices : List (DeviceNode π) := []
  /-- How many ports were made. -/
  numPorts : Nat := 0

namespace Connector

variable {τ π : Type} (c : Connector τ π)

/-- `ListRemotes` -/
def remotes : Node → List Remote
  | .device i => (c.devices[i]?).elim [] fun d => [d.remote]
  | .switch i => (c.switches[i]?).elim [] SwitchNode.remotes

/-- `AddSwitchWithNameAndRoutingTable`, with a table that no other switch has. -/
def addSwitch (table : τ) : Nat × Connector τ π :=
  (c.switches.length, { c with switches := c.switches ++ [{ table }] })

/-- `node.remotes = append(node.remotes, r)` -/
def addRemote (i : Nat) (r : Remote) : Connector τ π :=
  { c with switches := c.switches.modify i fun node => { node with remotes := node.remotes ++ [r] } }

/-- `ConnectDeviceWithEPName`, with the port made at the switch. -/
def connectDevice (switchID : Nat) (ports : List π) (link : Link) : Except String (Nat × Connector τ π) :=
  if switchID < c.switches.length then
    let epPort := c.numPorts
    let swPort := c.numPorts + 1
    -- createRemoteInfoFoEP
    let remote : Remote :=
      { localNode := .device c.devices.length, localPort := epPort, remoteNode := .switch switchID,
        remotePort := swPort, link }
    let c : Connector τ π := { c with devices := c.devices ++ [{ ports, remote }], numPorts := c.numPorts + 2 }
    .ok (swPort, c.addRemote switchID remote.swap)
  else .error "index out of range"

/-- `ConnectSwitches`, with the ports made at the two switches. -/
def connectSwitches (leftSwitchID rightSwitchID : Nat) (link : Link) : Except String ((Nat × Nat) × Connector τ π) :=
  if leftSwitchID < c.switches.length ∧ rightSwitchID < c.switches.length then
    let leftPort := c.numPorts
    let rightPort := c.numPorts + 1
    -- createRemoteInfo
    let remote : Remote :=
      { localNode := .switch leftSwitchID, localPort := leftPort, remoteNode := .switch rightSwitchID,
        remotePort := rightPort, link }
    let c : Connector τ π := { c with numPorts := c.numPorts + 2 }
    .ok ((leftPort, rightPort), (c.addRemote leftSwitchID remote).addRemote rightSwitchID remote.swap)
  else .error "index out of range"

/-! ## The links of a network -/

section Links

variable {c} {c' : Connector τ π} {i j : Nat} {v : Node} {link : Link} {ports : List π}

theorem remotes_device (c : Connector τ π) (i : Nat) : c.remotes (.device i) = (c.devices[i]?).elim [] fun d => [d.remote] :=
  rfl

theorem remotes_switch (c : Connector τ π) (i : Nat) : c.remotes (.switch i) = (c.switches[i]?).elim [] SwitchNode.remotes :=
  rfl

theorem elim_append_singleton {α β : Type} (l : List α) (x : α) (f : α → List β) (i : Nat) :
    ((l ++ [x])[i]?).elim [] f = if i = l.length then f x else (l[i]?).elim [] f := by
  rcases lt_trichotomy i l.length with hi | rfl | hi
  · rw [List.getElem?_append_left hi, if_neg (Nat.ne_of_lt hi)]
  · rw [getElem?_concat_length, if_pos rfl]
    rfl
  · rw [getElem?_eq_none (by rw [length_append]; exact hi), getElem?_eq_none (Nat.le_of_lt hi),
      if_neg (Nat.ne_of_gt hi)]

@[simp] theorem remotes_addSwitch (table : τ) (v : Node) : (c.addSwitch table).2.remotes v = c.remotes v := by
  cases v with
  | device => rfl
  | switch i =>
    rw [remotes_switch, remotes_switch]
    unfold addSwitch
    rw [elim_append_singleton]
    split
    · subst i
      rw [getElem?_eq_none (le_refl _)]
      rfl
    · rfl

@[simp] theorem remotes_addRemote_device (r : Remote) : (c.addRemote i r).remotes (.device j) = c.remotes (.device j) := rfl

theorem remotes_addRemote (hi : i < c.switches.length) (r : Remote) :
    (c.addRemote i r).remotes (.switch j) = c.remotes (.switch j) ++ if .switch i = Node.switch j then [r] else [] := by
  rw [remotes_switch, remotes_switch]
  unfold addRemote
  rw [getElem?_modify]
  by_cases hij : i = j
  · subst hij
    simp [getElem?_eq_getElem hi]
  · simp [hij]

@[simp] theorem length_addRemote (r : Remote) : (c.addRemote i r).switches.length = c.switches.length := length_modify ..

/-- The call made the link `r`, with two new ports. -/
structure Adds (c c' : Connector τ π) (r : Remote) : Prop where
  remotes : ∀ v, c'.remotes v = c.remotes v ++ r.ends v
  localPort : r.localPort = c.numPorts
  remotePort : r.remotePort = c.numPorts + 1
  numPorts : c'.numPorts = c.numPorts + 2

/-- A call that makes a link changes the tables of no switches. -/
theorem table_addRemote (r : Remote) (j : Nat) :
    ((c.addRemote i r).switches[j]?).map SwitchNode.table = (c.switches[j]?).map SwitchNode.table := by
  unfold addRemote
  rw [getElem?_modify]
  cases c.switches[j]? with
  | none => rfl
  | some => by_cases hij : i = j <;> simp [hij]

theorem connectDevice_eq_ok {p : Nat} (h : c.connectDevice i ports link = .ok (p, c')) :
    ∃ r, Adds c c' r ∧ r.localNode = .device c.devices.length ∧ r.remoteNode = .switch i ∧ r.remotePort = p ∧ r.link = link ∧
      c'.devices = c.devices ++ [⟨ports, r⟩] ∧ i < c.switches.length ∧ c'.switches.length = c.switches.length ∧
      ∀ j : Nat, (c'.switches[j]?).map SwitchNode.table = (c.switches[j]?).map SwitchNode.table := by
  unfold connectDevice at h
  split at h
  · next hi =>
    cases h
    refine ⟨_, ⟨fun v => ?_, rfl, rfl, rfl⟩, rfl, rfl, rfl, rfl, rfl, hi, length_modify .., fun j => table_addRemote ..⟩
    cases v with
    | device j =>
      rw [remotes_addRemote_device, remotes_device, remotes_device]
      unfold Remote.ends
      rw [if_neg (show ¬ Node.switch i = Node.device j from Node.noConfusion), append_nil]
      dsimp only
      rw [elim_append_singleton]
      by_cases hj : j = c.devices.length
      · subst hj
        rw [if_pos rfl, if_pos rfl, getElem?_eq_none (le_refl _)]
        rfl
      · rw [if_neg hj, if_neg (fun h => hj (Node.device.inj h).symm), append_nil]
    | switch j =>
      rw [remotes_addRemote (by exact hi)]
      unfold Remote.ends
      rw [if_neg (show ¬ Node.device c.devices.length = Node.switch j from Node.noConfusion)]
      rfl
  · cases h

theorem connectSwitches_eq_ok {p q : Nat} (h : c.connectSwitches i j link = .ok ((p, q), c')) :
    ∃ r, Adds c c' r ∧ r.localNode = .switch i ∧ r.remoteNode = .switch j ∧ r.localPort = p ∧
    r.remotePort = q ∧ r.link = link ∧
      c'.devices = c.devices ∧ i < c.switches.length ∧ j < c.switches.length ∧ c'.switches.length = c.switches.length ∧
      ∀ k : Nat, (c'.switches[k]?).map SwitchNode.table = (c.switches[k]?).map SwitchNode.table := by
  unfold connectSwitches at h
  split at h
  · next hij =>
    obtain ⟨hi, hj⟩ := hij
    cases h
    refine ⟨⟨.switch i, c.numPorts, .switch j, c.numPorts + 1, link⟩, ⟨fun v => ?_, rfl, rfl, rfl⟩, rfl, rfl, rfl,
      rfl, rfl, rfl, hi, hj, ?_, fun k => ?_⟩
    · cases v with
      | device =>
        rw [remotes_addRemote_device, remotes_addRemote_device]
        unfold Remote.ends
        simp
        rfl
      | switch =>
        rw [remotes_addRemote (by rw [length_addRemote]; exact hj), remotes_addRemote (by exact hi), append_assoc]
        rfl
    · rw [length_addRemote, length_addRemote]
    · rw [table_addRemote, table_addRemote]
  · cases h

/-- A call leaves what the network has as it is. -/
structure Grows (c c' : Connector τ π) : Prop where
  remotes : ∀ {v r}, r ∈ c.remotes v → r ∈ c'.remotes v
  table : ∀ {i : Nat} {t}, (c.switches[i]?).map SwitchNode.table = some t → (c'.switches[i]?).map SwitchNode.table = some t
  device : ∀ {d : Nat} {dev}, c.devices[d]? = some dev → c'.devices[d]? = some dev

theorem Grows.trans {c₁ c₂ c₃ : Connector τ π} (h : Grows c₁ c₂) (h' : Grows c₂ c₃) : Grows c₁ c₃ :=
  ⟨fun hr => h'.remotes (h.remotes hr), fun ht => h'.table (h.table ht), fun hd => h'.device (h.device hd)⟩

theorem Adds.grows {r : Remote} (h : Adds c c' r) {devices : List (DeviceNode π)}
    (hdevices : c'.devices = c.devices ++ devices)
    (htables : ∀ j : Nat, (c'.switches[j]?).map SwitchNode.table = (c.switches[j]?).map SwitchNode.table) : Grows c c' where
  remotes hr := by
    rw [h.remotes]
    exact mem_append_left _ hr
  table ht := (htables _).trans ht
  device {d dev} hd := by
    obtain ⟨hlt, -⟩ := List.getElem?_eq_some_iff.1 hd
    rw [hdevices, List.getElem?_append_left hlt]
    exact hd

theorem grows_addSwitch (c : Connector τ π) (table : τ) : Grows c (c.addSwitch table).2 where
  remotes hr := by
    rw [remotes_addSwitch]
    exact hr
  table {i t} ht := by
    obtain ⟨_, hnode, rfl⟩ := map_eq_some_iff.1 ht
    obtain ⟨hlt, -⟩ := List.getElem?_eq_some_iff.1 hnode
    unfold addSwitch
    rw [List.getElem?_append_left hlt]
    exact ht
  device hd := hd

theorem connectDevice_ok (h : i < c.switches.length) (ports : List π) (link : Link) :
    ∃ p c', c.connectDevice i ports link = .ok (p, c') := ⟨_, _, if_pos h⟩

theorem connectSwitches_ok (hi : i < c.switches.length) (hj : j < c.switches.length) (link : Link) :
    ∃ p q c', c.connectSwitches i j link = .ok ((p, q), c') := ⟨_, _, _, if_pos ⟨hi, hj⟩⟩

/-- The links of a node have different ports, and each link is there from both sides. -/
structure WellFormed (c : Connector τ π) : Prop where
  localNode : ∀ {v r}, r ∈ c.remotes v → r.localNode = v
  localPort : ∀ {v r}, r ∈ c.remotes v → r.localPort < c.numPorts
  nodup : ∀ v, ((c.remotes v).map Remote.localPort).Nodup
  swap : ∀ {v r}, r ∈ c.remotes v → r.swap ∈ c.remotes r.remoteNode

theorem WellFormed.new : WellFormed ({} : Connector τ π) := by
  have hnil : ∀ v, ({} : Connector τ π).remotes v = [] := by
    intro v
    cases v <;> rfl
  refine ⟨fun {v r} hr => ?_, fun {v r} hr => ?_, fun v => ?_, fun {v r} hr => ?_⟩
  · rw [hnil] at hr
    cases hr
  · rw [hnil] at hr
    cases hr
  · rw [hnil]
    exact nodup_nil
  · rw [hnil] at hr
    cases hr

theorem WellFormed.addSwitch (h : c.WellFormed) (table : τ) : (c.addSwitch table).2.WellFormed := by
  refine ⟨fun {v r} hr => ?_, fun {v r} hr => ?_, fun v => ?_, fun {v r} hr => ?_⟩
  · rw [remotes_addSwitch] at hr
    exact h.localNode hr
  · rw [remotes_addSwitch] at hr
    exact h.localPort hr
  · rw [remotes_addSwitch]
    exact h.nodup v
  · rw [remotes_addSwitch] at hr ⊢
    exact h.swap hr

theorem WellFormed.adds (h : c.WellFormed) {r : Remote} (ha : Adds c c' r) : c'.WellFormed := by
  have hports : ∀ {v x}, x ∈ r.ends v → c.numPorts ≤ x.localPort ∧ x.localPort < c'.numPorts := by
    intro v x hx
    have hlocal := ha.localPort
    have hremote := ha.remotePort
    have hnum := ha.numPorts
    obtain ⟨rfl | rfl, -⟩ := Remote.mem_ends.1 hx
    · omega
    · exact ⟨show c.numPorts ≤ r.remotePort by omega, show r.remotePort < c'.numPorts by omega⟩
  have hlt : c.numPorts < c'.numPorts := by
    have hnum := ha.numPorts
    omega
  refine ⟨fun {v x} hx => ?_, fun {v x} hx => ?_, fun v => ?_, fun {v x} hx => ?_⟩
  · rw [ha.remotes, mem_append] at hx
    rcases hx with hx | hx
    · exact h.localNode hx
    · exact (Remote.mem_ends.1 hx).2
  · rw [ha.remotes, mem_append] at hx
    rcases hx with hx | hx
    · exact (h.localPort hx).trans hlt
    · exact (hports hx).2
  · rw [ha.remotes, map_append]
    refine (h.nodup v).append ?_ fun p hp hp' => ?_
    · have hne : r.localPort ≠ r.swap.localPort := by
        have hlocal := ha.localPort
        have hremote : r.swap.localPort = c.numPorts + 1 := ha.remotePort
        omega
      unfold Remote.ends
      split <;> split <;> simp [hne]
    · obtain ⟨_, hx, rfl⟩ := mem_map.1 hp
      obtain ⟨_, hy, _⟩ := mem_map.1 hp'
      have h1 := h.localPort hx
      have h2 := (hports hy).1
      omega
  · rw [ha.remotes, mem_append] at hx ⊢
    rcases hx with hx | hx
    · exact Or.inl (h.swap hx)
    · refine Or.inr (Remote.mem_ends.2 ⟨?_, rfl⟩)
      obtain ⟨rfl | rfl, -⟩ := Remote.mem_ends.1 hx
      · exact Or.inr rfl
      · exact Or.inl rfl

end Links

/-! ## Paths -/

/-- A path over links of the network. -/
inductive IsPath (c : Connector τ π) : Node → List Remote → Node → Prop
  | nil (v : Node) : IsPath c v [] v
  | cons {v w : Node} {r : Remote} {path : List Remote} (hr : r ∈ c.remotes v) (hrest : IsPath c r.remoteNode path w) :
      IsPath c v (r :: path) w

/-- The link a switch sends a message on, when its table answers with a port. -/
def forward (findPort : τ → Option Nat) (i : Nat) : Option Remote := do
  let node ← c.switches[i]?
  let out ← findPort node.table
  node.remotes.find? (·.localPort = out)

/-- The answers of the switches lead along the links. -/
inductive Route (c : Connector τ π) (findPort : τ → Option Nat) : Node → List Remote → Node → Prop
  | nil (v : Node) : Route c findPort v [] v
  | cons {i : Nat} {w : Node} {r : Remote} {path : List Remote} (hr : c.forward findPort i = some r)
      (hrest : Route c findPort r.remoteNode path w) : Route c findPort (.switch i) (r :: path) w

section Paths

variable {c} {findPort : τ → Option Nat} {i : Nat}

theorem IsPath.append {u v w : Node} {path path' : List Remote} (h : c.IsPath u path v) (h' : c.IsPath v path' w) :
    c.IsPath u (path ++ path') w := by
  induction h with
  | nil => exact h'
  | cons hr _ ih => exact .cons hr (ih h')

theorem IsPath.symm (hc : c.WellFormed) {v w : Node} {path : List Remote} (h : c.IsPath v path w) :
    ∃ back, c.IsPath w back v := by
  induction h with
  | nil v => exact ⟨[], .nil v⟩
  | @cons v w r path hr _ ih =>
    obtain ⟨back, hback⟩ := ih
    refine ⟨back ++ [r.swap], hback.append (.cons (hc.swap hr) ?_)⟩
    rw [← hc.localNode hr]
    exact .nil _

variable {r : Remote}

theorem forward_eq_some (h : c.forward findPort i = some r) :
    ∃ node out, c.switches[i]? = some node ∧ findPort node.table = some out ∧
    node.remotes.find? (·.localPort = out) = some r := by
  unfold forward at h
  simp only [bind_eq_bind, bind_eq_some_iff] at h
  obtain ⟨node, hnode, out, hout, hr⟩ := h
  exact ⟨node, out, hnode, hout, hr⟩

theorem mem_of_forward (h : c.forward findPort i = some r) : r ∈ c.remotes (.switch i) := by
  obtain ⟨_, _, hnode, -, hr⟩ := forward_eq_some h
  rw [remotes_switch, hnode]
  exact mem_of_find?_eq_some hr

theorem forward_eq {node : SwitchNode τ} (hnode : c.switches[i]? = some node)
    (hnodup : (node.remotes.map Remote.localPort).Nodup) (hr : r ∈ node.remotes)
    (hout : findPort node.table = some r.localPort) : c.forward findPort i = some r := by
  unfold forward
  rw [hnode]
  simp only [bind_eq_bind, bind_some, hout]
  obtain ⟨x, hx⟩ : ∃ x, node.remotes.find? (·.localPort = r.localPort) = some x :=
    isSome_iff_exists.1 (find?_isSome.2 ⟨r, hr, decide_eq_true rfl⟩)
  have hport := find?_some hx
  rw [hx, inj_on_of_nodup_map hnodup (mem_of_find?_eq_some hx) hr (of_decide_eq_true hport)]

end Paths

end Connector

end Akita.Noc
