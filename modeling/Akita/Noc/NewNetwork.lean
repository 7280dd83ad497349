import Akita.Noc.Routers
import Akita.Sim.Name

/-!
# A connector that is used again

`networkconnector.Connector` over several networks, with the names of what it makes.

* `newNetwork` : the switches are dropped; the devices and the number of connections stay;
* `Network` : the switches, links, end points and routes of the network that was built last;
* `HasLink`, `Makes` : the names of the links that the calls make;
* `newNetwork_iff` : when the network is the one that a new connector builds.
-/

namespace Akita.Noc.NewNetwork
open List hiding getElem?_eq_some_iff
open FloydWarshall (Cell Measure)
open Sim (indexed nameMustBeValid)
open Or (inl inr)

/-- A node is known by its place in the connector's list. `former` is a switch that is in the list no more. -/
inductive Node
  | device (i : Nat)
  | switch (i : Nat)
  | former
deriving DecidableEq

structure LinkEndSwitchParameter where
  incomingBufSize : Int := 1
  outgoingBufSize : Int := 1
  numInputChannel : Int := 1
  numOutputChannel : Int := 1
  latency : Int := 1
  portName : String := ""
deriving DecidableEq

structure LinkEndDeviceParameter where
  incomingBufSize : Int := 1
  outgoingBufSize : Int := 1
  numInputChannel : Int := 1
  numOutputChannel : Int := 1
deriving DecidableEq

structure LinkParameter where
  isIdeal : Bool := true
  frequency : ℚ := 1
  numStage : Int := 0
  cyclePerStage : Int := 0
  pipelineWidth : Int := 0
deriving DecidableEq

structure DeviceToSwitchLinkParameter where
  deviceEndParam : LinkEndDeviceParameter := {}
  switchEndParam : LinkEndSwitchParameter := {}
  linkParam : LinkParameter := {}
deriving DecidableEq

structure SwitchToSwitchLinkParameter where
  leftEndParam : LinkEndSwitchParameter := {}
  rightEndParam : LinkEndSwitchParameter := {}
  linkParam : LinkParameter := {}
deriving DecidableEq

/-- A port that the connector makes, numbered in the order they are made. -/
structure Port where
  id : Nat
  name : String
  incomingBufSize : Int
deriving DecidableEq

structure Link where
  name : String
  param : LinkParameter
  leftBufSize : Int
  rightBufSize : Int
deriving DecidableEq

structure Remote where
  localNode : Node
  localPort : Port
  remoteNode : Node
  remotePort : Port
  link : Link
deriving DecidableEq

namespace Remote

/-- The same link, seen from the other node. -/
def swap (r : Remote) : Remote where
  localNode := r.remoteNode
  localPort := r.remotePort
  remoteNode := r.localNode
  remotePort := r.localPort
  link := r.link

/-- The link when the switch at its other end is in the list no more. -/
def forget (r : Remote) : Remote := { r with remoteNode := .former }

end Remote

/-- What `SwitchPortAdder` gives a switch for a port. -/
structure PortComplex where
  localPort : Port
  remotePort : Port
  latency : Int
  numInputChannel : Int
  numOutputChannel : Int
deriving DecidableEq

/-- `AddPort` for the local end of a link. -/
def Remote.complex (r : Remote) (p : LinkEndSwitchParameter) : PortComplex where
  localPort := r.localPort
  remotePort := r.remotePort
  latency := p.latency
  numInputChannel := p.numInputChannel
  numOutputChannel := p.numOutputChannel

structure SwitchNode (π : Type) where
  name : String
  table : Table π := {}
  ports : List PortComplex := []
  remotes : List Remote := []

structure DeviceNode (π : Type) where
  name : String
  ports : List π
  flitSize : Int
  numInputChannels : Int
  numOutputChannels : Int
  remote : Remote

structure Connector (π : Type) where
  name : String := ""
  flitSize : Int := 64
  switches : List (SwitchNode π) := []
  devices : List (DeviceNode π) := []
  connectionCount : Nat := 0
  /-- How many ports were made. -/
  numPorts : Nat := 0

def connName (name : String) (i : Nat) : String := indexed (name ++ ".Conn") [i]

theorem connName_inj {name : String} {i j : Nat} (h : connName name i = connName name j) : i = j := (Sim.index_inj h).2

namespace Connector

variable {π : Type} (c : Connector π)

/-- The devices keep their links, to switches that are in the list no more. -/
def newNetwork (name : String) : Connector π :=
  { c with name, switches := [], devices := c.devices.map fun d => { d with remote := d.remote.forget } }

def addSwitchWithNameAndRoutingTable (swName : String) (table : Table π) : Except String (Connector π) := do
  let name := c.name ++ "." ++ swName
  nameMustBeValid name
  return { c with switches := c.switches ++ [{ name, table }] }

def addSwitchWithName (swName : String) : Except String (Connector π) := c.addSwitchWithNameAndRoutingTable swName {}

def addSwitch : Except String (Connector π) := c.addSwitchWithName (indexed "Switch" [c.switches.length])

/-- `sim.NewLimitNumMsgPort`, whose buffer has the name of the port. -/
def newPort (name : String) (incomingBufSize : Int) : Except String (Port × Connector π) := do
  nameMustBeValid (name ++ ".Buf")
  return ({ id := c.numPorts, name, incomingBufSize }, { c with numPorts := c.numPorts + 1 })

/-- What `AddPort` and `createRemoteInfo` add to a switch. -/
def attach (i : Nat) (p : LinkEndSwitchParameter) (r : Remote) : Connector π :=
  { c with
    switches := c.switches.modify i fun node =>
      { node with ports := node.ports ++ [r.complex p], remotes := node.remotes ++ [r] } }

def connectPorts (leftBufSize rightBufSize : Int) (param : LinkParameter) : Except String (Link × Connector π) := do
  let name := connName c.name c.connectionCount
  nameMustBeValid name
  return ({ name, param, leftBufSize, rightBufSize }, { c with connectionCount := c.connectionCount + 1 })

def connectDeviceWithEPName (epName : String) (switchID : Nat) (ports : List π) (param : DeviceToSwitchLinkParameter) :
    Except String (Connector π) :=
  match c.switches[switchID]? with
  | none => .error "index out of range"
  | some swNode => do
    -- createEndPointWithName
    let name := c.name ++ "." ++ epName
    nameMustBeValid name
    let (epPort, c) ← c.newPort (name ++ ".NetworkPort") param.deviceEndParam.incomingBufSize
    -- connectEndPointWithSwitch
    let (swPort, c) ← c.newPort (indexed (swNode.name ++ ".Port") [swNode.remotes.length])
      param.switchEndParam.incomingBufSize
    let (link, c) ← c.connectPorts param.deviceEndParam.outgoingBufSize param.switchEndParam.outgoingBufSize param.linkParam
    -- createRemoteInfoFoEP
    let remote : Remote :=
      { localNode := .device c.devices.length, localPort := epPort, remoteNode := .switch switchID,
        remotePort := swPort, link }
    let device : DeviceNode π :=
      { name, ports, flitSize := c.flitSize, remote
        numInputChannels := param.deviceEndParam.numInputChannel
        numOutputChannels := param.deviceEndParam.numOutputChannel }
    let c := { c with devices := c.devices ++ [device] }
    return c.attach switchID param.switchEndParam remote.swap

def connectDevice (switchID : Nat) (ports : List π) (param : DeviceToSwitchLinkParameter) : Except String (Connector π) :=
  c.connectDeviceWithEPName (indexed "EndPoint" [c.devices.length]) switchID ports param

/-- The name of a port of a switch, given or numbered. -/
def portName (node : SwitchNode π) (p : LinkEndSwitchParameter) : String :=
  if p.portName = "" then node.name ++ ".Port" ++ toString node.remotes.length else node.name ++ "." ++ p.portName

def connectSwitches (leftSwitchID rightSwitchID : Nat) (param : SwitchToSwitchLinkParameter) : Except String (Connector π) :=
  match c.switches[leftSwitchID]?, c.switches[rightSwitchID]? with
  | some leftNode, some rightNode => do
    let (leftPort, c) ← c.newPort (portName leftNode param.leftEndParam) param.leftEndParam.incomingBufSize
    let (rightPort, c) ← c.newPort (portName rightNode param.rightEndParam) param.rightEndParam.incomingBufSize
    let (link, c) ← c.connectPorts param.leftEndParam.outgoingBufSize param.rightEndParam.outgoingBufSize param.linkParam
    -- createRemoteInfo
    let remote : Remote :=
      { localNode := .switch leftSwitchID, localPort := leftPort, remoteNode := .switch rightSwitchID,
        remotePort := rightPort, link }
    return (c.attach leftSwitchID param.leftEndParam remote).attach rightSwitchID param.rightEndParam remote.swap
  | _, _ => .error "index out of range"

/-! ## Routes -/

/-- `ListRemotes` -/
def remotes : Node → List Remote
  | .device i => (c.devices[i]?).elim [] fun d => [d.remote]
  | .switch i => (c.switches[i]?).elim [] SwitchNode.remotes
  | .former => []

/-- `createRoutingNodeList` -/
def nodes : List Node := (range c.devices.length).map .device ++ (range c.switches.length).map .switch

abbrev Index := Fin c.nodes.length

def node (i : c.Index) : Node := c.nodes[i]

def findRemote (l : List Remote) (t : Node) : Option Remote := l.find? fun r => t = r.remoteNode

section Router

variable {W : Type} [LinearOrder W] (m : Measure W) (far : Nat → W) (weight : Remote → W)

/-- The table of `floydWarshallInit`, with `far` where there is no link. -/
def initial (i j : c.Index) : Cell W Remote :=
  if i = j then ⟨m.zero, (c.remotes (c.node i)).head?⟩
  else
    match findRemote (c.remotes (c.node i)) (c.node j) with
    | some r => ⟨weight r, some r⟩
    | none => ⟨far c.nodes.length, none⟩

def floydWarshallInit : Except String (FloydWarshall.Table c.Index W Remote) :=
  -- `&remotes[0]`
  if ∃ i, c.remotes (c.node i) = [] then .error "index out of range" else .ok (c.initial m far weight)

/-- The inner loops of `tableToRoute`, for one switch. -/
def routeSwitch [DecidableEq π] (nextHop : c.Index → Option Remote) (t : Table π) : Except String (Table π) :=
  (finRange c.nodes.length).foldlM (fun t j =>
    match c.node j with
    | .device d => ((c.devices[d]?).elim [] DeviceNode.ports).foldlM (fun t p =>
        match nextHop j with
        | some remote => .ok (t.defineRoute p remote.localPort.id)
        | none => .error "nil pointer dereference") t
    | _ => .ok t) t

def tableToRoute [DecidableEq π] (table : FloydWarshall.Table c.Index W Remote) : Except String (Connector π) :=
  (finRange c.nodes.length).foldlM (fun c' i =>
    match c.node i with
    | .switch s =>
      match c'.switches[s]? with
      | some swNode => do
        let t ← c.routeSwitch (fun j => (table i j).next) swNode.table
        return { c' with switches := c'.switches.set s { swNode with table := t } }
      | none => .error "index out of range"
    | _ => .ok c') c

/-- `EstablishRoute` of the connector and of its router. -/
def establishRoute [DecidableEq π] : Except String (Connector π) := do
  let table ← c.floydWarshallInit m far weight
  c.tableToRoute (FloydWarshall.run m (finRange c.nodes.length) table)

end Router

/-! ## Networks -/

/-- A link as a network shows it. -/
structure RemoteView where
  localPort : String
  localBufSize : Int
  remoteNode : String
  remotePort : String
  link : Link
deriving DecidableEq

structure SwitchView (π : Type) where
  name : String
  latencies : List (Int × Int × Int)
  remotes : List RemoteView
  /-- The port at which the switch sends the messages for a device port out. -/
  route : π → Option String

structure EndPointView (π : Type) where
  name : String
  ports : List π
  flitSize : Int
  numInputChannels : Int
  numOutputChannels : Int
  remote : RemoteView

structure Network (π : Type) where
  switches : List (SwitchView π)
  endPoints : List (EndPointView π)

def nodeName : Node → String
  | .device i => (c.devices[i]?).elim "" DeviceNode.name
  | .switch i => (c.switches[i]?).elim "" SwitchNode.name
  | .former => ""

def viewRemote (r : Remote) : RemoteView where
  localPort := r.localPort.name
  localBufSize := r.localPort.incomingBufSize
  remoteNode := c.nodeName r.remoteNode
  remotePort := r.remotePort.name
  link := r.link

def viewSwitch (node : SwitchNode π) : SwitchView π where
  name := node.name
  latencies := node.ports.map fun p => (p.latency, p.numInputChannel, p.numOutputChannel)
  remotes := node.remotes.map c.viewRemote
  route p := (node.table.findPort p).bind fun id => (node.remotes.find? (·.localPort.id = id)).map (·.localPort.name)

def viewEndPoint (d : DeviceNode π) : EndPointView π where
  name := d.name
  ports := d.ports
  flitSize := d.flitSize
  numInputChannels := d.numInputChannels
  numOutputChannels := d.numOutputChannels
  remote := c.viewRemote d.remote

/-- What was built since there were `before` devices. -/
def network (before : Nat) : Network π where
  switches := c.switches.map c.viewSwitch
  endPoints := (c.devices.drop before).map c.viewEndPoint

end Connector

/-! ## Calls -/

inductive Call (π : Type)
  | addSwitch
  | addSwitchWithName (swName : String)
  | connectDevice (switchID : Nat) (ports : List π) (param : DeviceToSwitchLinkParameter)
  | connectDeviceWithEPName (epName : String) (switchID : Nat) (ports : List π) (param : DeviceToSwitchLinkParameter)
  | connectSwitches (leftSwitchID rightSwitchID : Nat) (param : SwitchToSwitchLinkParameter)
  | establishRoute

namespace Call

variable {π : Type}

def makesLink : Call π → Bool
  | connectDevice .. | connectDeviceWithEPName .. | connectSwitches .. => true
  | _ => false

end Call

/-- What may be done to a connector. -/
inductive Operation (π : Type)
  | newNetwork (name : String)
  | call (call : Call π)

def Operation.makesLink {π : Type} : Operation π → Bool
  | newNetwork _ => false
  | call c => c.makesLink

section Run

variable {π W : Type} [DecidableEq π] [LinearOrder W] (m : Measure W) (far : Nat → W) (weight : Remote → W)

def Connector.call (c : Connector π) : Call π → Except String (Connector π)
  | .addSwitch => c.addSwitch
  | .addSwitchWithName swName => c.addSwitchWithName swName
  | .connectDevice switchID ports param => c.connectDevice switchID ports param
  | .connectDeviceWithEPName epName switchID ports param => c.connectDeviceWithEPName epName switchID ports param
  | .connectSwitches leftSwitchID rightSwitchID param => c.connectSwitches leftSwitchID rightSwitchID param
  | .establishRoute => c.establishRoute m far weight

/-- The calls that build a network. -/
def Connector.build (c : Connector π) (calls : List (Call π)) : Except String (Connector π) :=
  calls.foldlM (Connector.call m far weight) c

def Connector.operate (c : Connector π) : Operation π → Except String (Connector π)
  | .newNetwork name => .ok (c.newNetwork name)
  | .call call => c.call m far weight call

def Connector.run (c : Connector π) (ops : List (Operation π)) : Except String (Connector π) :=
  ops.foldlM (Connector.operate m far weight) c

end Run

namespace Connector

variable {π : Type} {c c' : Connector π}

/-! ## The links -/

/-- A switch has a link of this name. -/
def HasLink (c : Connector π) (name : String) : Prop := ∃ node ∈ c.switches, ∃ r ∈ node.remotes, r.link.name = name

/-- What a call does to the name of the network and to the links. -/
structure Makes (c c' : Connector π) (n : Nat) : Prop where
  name : c'.name = c.name
  count : c'.connectionCount = c.connectionCount + n
  links : ∀ s, c'.HasLink s ↔ c.HasLink s ∨ ∃ k, c.connectionCount ≤ k ∧ k < c'.connectionCount ∧ s = connName c.name k

theorem Makes.refl (c : Connector π) : Makes c c 0 where
  name := rfl
  count := rfl
  links s := by
    constructor
    · exact inl
    · rintro (h | ⟨k, hle, hlt, -⟩)
      · exact h
      · omega

theorem Makes.trans {c'' : Connector π} {n n' : Nat} (h : Makes c c' n) (h' : Makes c' c'' n') : Makes c c'' (n + n') where
  name := h'.name.trans h.name
  count := by rw [h'.count, h.count, Nat.add_assoc]
  links s := by
    have hcount := h.count
    have hcount' := h'.count
    rw [h'.links, h.links, h.name]
    constructor
    · rintro ((hs | ⟨k, hle, hlt, hk⟩) | ⟨k, hle, hlt, hk⟩)
      · exact inl hs
      · exact inr ⟨k, hle, by omega, hk⟩
      · exact inr ⟨k, by omega, hlt, hk⟩
    · rintro (hs | ⟨k, hle, hlt, hk⟩)
      · exact inl (inl hs)
      · rcases Nat.lt_or_ge k c'.connectionCount with hold | hnew
        · exact inl (inr ⟨k, hle, hold, hk⟩)
        · exact inr ⟨k, hnew, hlt, hk⟩

theorem hasLink_congr (h : c'.switches.map SwitchNode.remotes = c.switches.map SwitchNode.remotes) (s : String) :
    c'.HasLink s ↔ c.HasLink s := by
  have hmem : ∀ c : Connector π, c.HasLink s ↔ ∃ rs ∈ c.switches.map SwitchNode.remotes, ∃ r ∈ rs, r.link.name = s := by
    intro c
    simp only [HasLink, mem_map, exists_exists_and_eq_and]
  rw [hmem, hmem, h]

theorem Makes.of_map_remotes (hname : c'.name = c.name) (hcount : c'.connectionCount = c.connectionCount)
    (h : c'.switches.map SwitchNode.remotes = c.switches.map SwitchNode.remotes) : Makes c c' 0 where
  name := hname
  count := hcount
  links s := by
    rw [hasLink_congr h, hcount]
    exact (Makes.refl c).links s

theorem hasLink_attach {i : Nat} (hi : i < c.switches.length) (p : LinkEndSwitchParameter) (r : Remote) (s : String) :
    (c.attach i p r).HasLink s ↔ c.HasLink s ∨ s = r.link.name := by
  simp only [HasLink, attach, mem_iff_getElem?, getElem?_modify]
  constructor
  · rintro ⟨node, ⟨j, hj⟩, r', ⟨k, hr'⟩, hs⟩
    obtain ⟨node₀, hnode₀, rfl⟩ := Option.map_eq_some_iff.1 hj
    by_cases hij : i = j
    · rw [if_pos hij] at hr'
      rcases mem_append.1 (mem_of_getElem? hr') with hold | hnew
      · obtain ⟨k', hk'⟩ := mem_iff_getElem?.1 hold
        exact inl ⟨node₀, ⟨j, hnode₀⟩, r', ⟨k', hk'⟩, hs⟩
      · rw [mem_singleton] at hnew
        exact inr (hnew ▸ hs.symm)
    · rw [if_neg hij] at hr'
      exact inl ⟨node₀, ⟨j, hnode₀⟩, r', ⟨k, hr'⟩, hs⟩
  · rintro (⟨node, ⟨j, hj⟩, r', ⟨k, hr'⟩, hs⟩ | rfl)
    · refine ⟨_, ⟨j, by rw [hj]; rfl⟩, r', ⟨k, ?_⟩, hs⟩
      split
      · exact List.getElem?_append_left (List.getElem?_eq_some_iff.1 hr').1 ▸ hr'
      · exact hr'
    · refine ⟨_, ⟨i, by rw [List.getElem?_eq_getElem hi]; rfl⟩, r, ⟨c.switches[i].remotes.length, ?_⟩, rfl⟩
      simp

theorem Makes.attach {c₁ : Connector π} (hname : c₁.name = c.name) (hcount : c₁.connectionCount = c.connectionCount + 1)
    (hlinks : ∀ s, c₁.HasLink s ↔ c.HasLink s) {i : Nat} (hi : i < c₁.switches.length) (p : LinkEndSwitchParameter)
    {r : Remote} (hr : r.link.name = connName c.name c.connectionCount) : Makes c (c₁.attach i p r) 1 where
  name := hname
  count := hcount
  links s := by
    rw [hasLink_attach hi, hlinks, hr]
    constructor
    · rintro (hs | rfl)
      · exact inl hs
      · exact inr ⟨_, le_refl _, hcount ▸ Nat.lt_succ_self _, rfl⟩
    · rintro (hs | ⟨k, hle, hlt, rfl⟩)
      · exact inl hs
      · have hk : k < c₁.connectionCount := hlt
        rw [show k = c.connectionCount by omega]
        exact inr rfl

theorem Makes.attach_swap (h : Makes c c' 1) {i : Nat} (hi : i < c'.switches.length) (p : LinkEndSwitchParameter) {r : Remote}
    (hr : r.link.name = connName c.name c.connectionCount) : Makes c (c'.attach i p r) 1 where
  name := h.name
  count := h.count
  links s := by
    have hcount := h.count
    rw [hasLink_attach hi, h.links, hr]
    constructor
    · rintro ((hs | hk) | rfl)
      · exact inl hs
      · exact inr hk
      · exact inr ⟨_, le_refl _, hcount ▸ Nat.lt_succ_self _, rfl⟩
    · rintro (hs | hk)
      · exact inl (inl hs)
      · exact inl (inr hk)

theorem newPort_eq_ok {name : String} {size : Int} {p : Port} (h : c.newPort name size = .ok (p, c')) :
    c' = { c with numPorts := c.numPorts + 1 } := by
  obtain ⟨-, -, h⟩ := eq_ok_of_bind h
  cases h
  rfl

theorem connectPorts_eq_ok {left right : Int} {param : LinkParameter} {link : Link}
    (h : c.connectPorts left right param = .ok (link, c')) :
    link.name = connName c.name c.connectionCount ∧ c' = { c with connectionCount := c.connectionCount + 1 } := by
  obtain ⟨-, -, h⟩ := eq_ok_of_bind h
  cases h
  exact ⟨rfl, rfl⟩

theorem makes_addSwitch {swName : String} {table : Table π} (h : c.addSwitchWithNameAndRoutingTable swName table = .ok c') :
    Makes c c' 0 := by
  obtain ⟨-, -, h⟩ := eq_ok_of_bind h
  cases h
  refine ⟨rfl, rfl, fun s => ?_⟩
  rw [← (Makes.refl c).links s]
  simp [HasLink]

theorem makes_connectDevice {epName : String} {switchID : Nat} {ports : List π} {param : DeviceToSwitchLinkParameter}
    (h : c.connectDeviceWithEPName epName switchID ports param = .ok c') : Makes c c' 1 := by
  unfold connectDeviceWithEPName at h
  split at h
  · cases h
  · next swNode hsw =>
    have hi : switchID < c.switches.length := (List.getElem?_eq_some_iff.1 hsw).1
    obtain ⟨-, -, h⟩ := eq_ok_of_bind h
    obtain ⟨⟨_, _⟩, h₁, h⟩ := eq_ok_of_bind h
    obtain ⟨⟨_, _⟩, h₂, h⟩ := eq_ok_of_bind h
    obtain ⟨⟨_, _⟩, h₃, h⟩ := eq_ok_of_bind h
    obtain rfl := newPort_eq_ok h₁
    obtain rfl := newPort_eq_ok h₂
    obtain ⟨hlink, rfl⟩ := connectPorts_eq_ok h₃
    cases h
    refine Makes.attach ?_ ?_ (fun _ => ?_) ?_ _ ?_
    · rfl
    · rfl
    · exact Iff.rfl
    · exact hi
    · exact hlink

theorem makes_connectSwitches {i j : Nat} {param : SwitchToSwitchLinkParameter} (h : c.connectSwitches i j param = .ok c') :
    Makes c c' 1 := by
  unfold connectSwitches at h
  split at h
  · next leftNode rightNode hleft hright =>
    have hi : i < c.switches.length := (List.getElem?_eq_some_iff.1 hleft).1
    have hj : j < c.switches.length := (List.getElem?_eq_some_iff.1 hright).1
    obtain ⟨⟨_, _⟩, h₁, h⟩ := eq_ok_of_bind h
    obtain ⟨⟨_, _⟩, h₂, h⟩ := eq_ok_of_bind h
    obtain ⟨⟨_, _⟩, h₃, h⟩ := eq_ok_of_bind h
    obtain rfl := newPort_eq_ok h₁
    obtain rfl := newPort_eq_ok h₂
    obtain ⟨hlink, rfl⟩ := connectPorts_eq_ok h₃
    cases h
    refine Makes.attach_swap (Makes.attach ?_ ?_ (fun _ => ?_) ?_ _ ?_) ?_ _ ?_
    · rfl
    · rfl
    · exact Iff.rfl
    · exact hi
    · exact hlink
    · rwa [attach, length_modify]
    · exact hlink
  · cases h

theorem hasLink_iff_network (before : Nat) (s : String) :
    c.HasLink s ↔ ∃ node ∈ (c.network before).switches, ∃ r ∈ node.remotes, r.link.name = s := by
  simp only [HasLink, network, mem_map, exists_exists_and_eq_and, viewSwitch, viewRemote]

/-- Nothing of what the connector keeps has changed. -/
structure Kept (c c' : Connector π) : Prop where
  flitSize : c'.flitSize = c.flitSize
  devices : c'.devices = c.devices
  connectionCount : c'.connectionCount = c.connectionCount
  numPorts : c'.numPorts = c.numPorts

theorem Kept.refl (c : Connector π) : Kept c c := ⟨rfl, rfl, rfl, rfl⟩

theorem Kept.trans {c'' : Connector π} (h : Kept c c') (h' : Kept c' c'') : Kept c c'' where
  flitSize := h'.flitSize.trans h.flitSize
  devices := h'.devices.trans h.devices
  connectionCount := h'.connectionCount.trans h.connectionCount
  numPorts := h'.numPorts.trans h.numPorts

theorem devices_newNetwork (h : c.devices = []) (name : String) : (c.newNetwork name).devices = [] := by
  rw [newNetwork, h]
  rfl

theorem newNetwork_eq (h : Kept c c') (hdevices : c.devices = []) (name : String) :
    c'.newNetwork name = c.newNetwork name := by
  have hdevices' : c'.devices = [] := h.devices.trans hdevices
  unfold newNetwork
  rw [h.flitSize, h.connectionCount, h.numPorts, hdevices, hdevices']

section Router

variable [DecidableEq π] {W : Type} [LinearOrder W] {m : Measure W} {far : Nat → W} {weight : Remote → W}

theorem makes_establishRoute (h : c.establishRoute m far weight = .ok c') : Makes c c' 0 := by
  obtain ⟨table, -, h⟩ := eq_ok_of_bind h
  unfold tableToRoute at h
  refine of_foldlM (P := fun c₁ => Makes c c₁ 0) h (Makes.refl c) fun c₁ i _ c₂ h₁ hstep => ?_
  split at hstep
  · next s _ =>
    split at hstep
    · next swNode hsw =>
      obtain ⟨t, -, hret⟩ := eq_ok_of_bind hstep
      cases hret
      obtain ⟨_, hget⟩ := List.getElem?_eq_some_iff.1 hsw
      have hlen : s < (c₁.switches.map SwitchNode.remotes).length := by rwa [List.length_map]
      have hremotes : swNode.remotes = (c₁.switches.map SwitchNode.remotes)[s] := by rw [List.getElem_map, hget]
      have hset : Makes c₁ { c₁ with switches := c₁.switches.set s { swNode with table := t } } 0 := by
        refine Makes.of_map_remotes rfl rfl ?_
        dsimp only
        rw [map_set, hremotes, set_getElem_self]
      exact h₁.trans hset
    · cases hstep
  · cases hstep
    exact h₁

theorem makes_call {call : Call π} (h : c.call m far weight call = .ok c') :
    Makes c c' (if call.makesLink then 1 else 0) := by
  cases call with
  | addSwitch | addSwitchWithName => exact makes_addSwitch h
  | connectDevice | connectDeviceWithEPName => exact makes_connectDevice h
  | connectSwitches => exact makes_connectSwitches h
  | establishRoute => exact makes_establishRoute h

variable {calls : List (Call π)}

theorem makes_build (h : c.build m far weight calls = .ok c') : Makes c c' (calls.countP Call.makesLink) := by
  induction calls generalizing c with
  | nil =>
    cases h
    exact Makes.refl _
  | cons _ _ ih =>
    rw [build, foldlM_cons] at h
    obtain ⟨_, hcall, hrest⟩ := eq_ok_of_bind h
    have hmakes := (makes_call hcall).trans (ih hrest)
    rw [countP_cons, Nat.add_comm]
    exact hmakes

theorem hasLink_build {name s : String} (h : (c.newNetwork name).build m far weight calls = .ok c') :
    c'.HasLink s ↔ ∃ k, c.connectionCount ≤ k ∧ k < c.connectionCount + calls.countP Call.makesLink ∧
    s = connName name k := by
  have hmakes := makes_build h
  have hnone : ¬ (c.newNetwork name).HasLink s := by
    rintro ⟨node, hnode, -⟩
    cases hnode
  rw [hmakes.links, hmakes.count, or_iff_right hnone]
  rfl

/-! ## Without links -/

theorem kept_establishRoute (h : c.establishRoute m far weight = .ok c') : Kept c c' := by
  obtain ⟨_, -, h⟩ := eq_ok_of_bind h
  unfold tableToRoute at h
  refine of_foldlM (P := Kept c) h (Kept.refl c) fun c₁ i _ c₂ h₁ hstep => ?_
  split at hstep
  · split at hstep
    · obtain ⟨_, -, hret⟩ := eq_ok_of_bind hstep
      cases hret
      exact h₁.trans ⟨rfl, rfl, rfl, rfl⟩
    · cases hstep
  · cases hstep
    exact h₁

theorem kept_call {call : Call π} (hcall : call.makesLink = false) (h : c.call m far weight call = .ok c') : Kept c c' := by
  cases call with
  | addSwitch | addSwitchWithName swName =>
    obtain ⟨-, -, h⟩ := eq_ok_of_bind h
    cases h
    exact ⟨rfl, rfl, rfl, rfl⟩
  | connectDevice | connectDeviceWithEPName | connectSwitches => cases hcall
  | establishRoute => exact kept_establishRoute h

theorem kept_run {ops : List (Operation π)} (hops : ∀ op ∈ ops, op.makesLink = false) (hdevices : c.devices = [])
    (h : c.run m far weight ops = .ok c') : Kept c c' := by
  induction ops generalizing c with
  | nil =>
    cases h
    exact Kept.refl _
  | cons op _ ih =>
    rw [run, foldlM_cons] at h
    obtain ⟨c₁, hop, hrest⟩ := eq_ok_of_bind h
    have hkept : Kept c c₁ := by
      cases op with
      | newNetwork name =>
        cases hop
        exact ⟨rfl, (devices_newNetwork hdevices name).trans hdevices.symm, rfl, rfl⟩
      | call call => exact kept_call (hops (.call call) mem_cons_self) hop
    exact hkept.trans (ih (fun op' h' => hops op' (mem_cons_of_mem _ h')) (hkept.devices.trans hdevices) hrest)

theorem foldlM_eq_self {α β : Type} {f : α → β → Except String α} {l : List β} {a : α} (h : ∀ b ∈ l, f a b = .ok a) :
    l.foldlM f a = .ok a := by
  induction l with
  | nil => rfl
  | cons b _ ih =>
    rw [foldlM_cons, h b mem_cons_self]
    exact ih fun b' hb' => h b' (mem_cons_of_mem _ hb')

theorem establishRoute_of_no_switches (h : c.switches = []) : c.establishRoute m far weight = .ok c := by
  have hdevice : ∀ i, ∃ d < c.devices.length, c.node i = .device d := by
    intro i
    have hmem : c.node i ∈ c.nodes := getElem_mem i.isLt
    generalize c.node i = v at hmem ⊢
    rw [nodes, h, length_nil, range_zero, map_nil, append_nil, mem_map] at hmem
    obtain ⟨d, hd, rfl⟩ := hmem
    exact ⟨d, mem_range.1 hd, rfl⟩
  have hinit : ¬ ∃ i, c.remotes (c.node i) = [] := by
    rintro ⟨i, hi⟩
    obtain ⟨d, hd, hnode⟩ := hdevice i
    rw [hnode, remotes, List.getElem?_eq_getElem hd] at hi
    cases hi
  rw [establishRoute, floydWarshallInit, if_neg hinit]
  refine foldlM_eq_self fun i _ => ?_
  obtain ⟨_, -, hnode⟩ := hdevice i
  rw [hnode]

theorem remotes_ne_nil_of_establishRoute (h : c.establishRoute m far weight = .ok c') {node : SwitchNode π}
    (hnode : node ∈ c.switches) : node.remotes ≠ [] := by
  obtain ⟨_, hinit, -⟩ := eq_ok_of_bind h
  unfold floydWarshallInit at hinit
  split at hinit
  · cases hinit
  · next hnone =>
    obtain ⟨s, hs, rfl⟩ := mem_iff_getElem.1 hnode
    have hmem : Node.switch s ∈ c.nodes := mem_append_right _ (mem_map.2 ⟨s, mem_range.2 hs, rfl⟩)
    obtain ⟨i, hi, hget⟩ := mem_iff_getElem.1 hmem
    intro hnil
    refine hnone ⟨⟨i, hi⟩, ?_⟩
    rw [show c.node ⟨i, hi⟩ = .switch s from hget, remotes, List.getElem?_eq_getElem hs]
    exact hnil

/-- The connectors have the same name and the same switches, without links. -/
structure SameSwitches (c c' : Connector π) : Prop where
  name : c.name = c'.name
  switches : c.switches = c'.switches
  linkless : ∀ node ∈ c.switches, node.remotes = []

omit [DecidableEq π] in
theorem SameSwitches.addSwitch {swName : String} {d : Connector π} (h : SameSwitches c c')
    (hd : c'.addSwitchWithName swName = .ok d) : ∃ e, c.addSwitchWithName swName = .ok e ∧ SameSwitches e d ∧ Kept c e := by
  obtain ⟨_, hvalid, hd⟩ := eq_ok_of_bind hd
  cases hd
  rw [← h.name] at hvalid
  refine ⟨{ c with switches := c.switches ++ [{ name := c.name ++ "." ++ swName, table := {} }] }, ?_,
    ⟨h.name, ?_, ?_⟩, ⟨rfl, rfl, rfl, rfl⟩⟩
  · rw [addSwitchWithName, addSwitchWithNameAndRoutingTable, hvalid]
    rfl
  · dsimp only
    rw [h.switches, h.name]
  · intro node hnode
    rcases mem_append.1 hnode with hold | hnew
    · exact h.linkless node hold
    · rw [mem_singleton.1 hnew]

/-- Calls that make no link do the same to both. -/
theorem SameSwitches.call {call : Call π} (h : SameSwitches c c') (hcall : call.makesLink = false) {d : Connector π}
    (hd : c'.call m far weight call = .ok d) : ∃ e, c.call m far weight call = .ok e ∧ SameSwitches e d ∧ Kept c e := by
  cases call with
  | addSwitch =>
    have hlen : indexed "Switch" [c'.switches.length] = indexed "Switch" [c.switches.length] := by rw [h.switches]
    obtain ⟨e, he, hsame, hkept⟩ := h.addSwitch hd
    refine ⟨e, ?_, hsame, hkept⟩
    rw [hlen] at he
    exact he
  | addSwitchWithName => exact h.addSwitch hd
  | connectDevice | connectDeviceWithEPName | connectSwitches => cases hcall
  | establishRoute =>
    have hnone : c'.switches = [] := by
      refine eq_nil_iff_forall_not_mem.2 fun node hnode => ?_
      exact remotes_ne_nil_of_establishRoute hd hnode (h.linkless node (h.switches ▸ hnode))
    have hd' : c'.call m far weight .establishRoute = .ok c' := establishRoute_of_no_switches hnone
    rw [hd'] at hd
    cases hd
    exact ⟨c, establishRoute_of_no_switches (h.switches.trans hnone), h, Kept.refl c⟩

theorem SameSwitches.build (h : SameSwitches c c') (hcalls : ∀ call ∈ calls, call.makesLink = false) {d : Connector π}
    (hd : c'.build m far weight calls = .ok d) : ∃ e, c.build m far weight calls = .ok e ∧ SameSwitches e d ∧ Kept c e := by
  induction calls generalizing c c' with
  | nil =>
    cases hd
    exact ⟨c, rfl, h, Kept.refl c⟩
  | cons call _ ih =>
    rw [Connector.build, foldlM_cons] at hd
    obtain ⟨_, hcall, hrest⟩ := eq_ok_of_bind hd
    obtain ⟨_, he₁, hsame, hkept⟩ := h.call (hcalls call mem_cons_self) hcall
    obtain ⟨e, he, hsame', hkept'⟩ := ih hsame (fun call' h' => hcalls call' (mem_cons_of_mem _ h')) hrest
    refine ⟨e, ?_, hsame', hkept.trans hkept'⟩
    rw [Connector.build, foldlM_cons, he₁]
    exact he

theorem links_ne {name : String} {d e : Connector π} (hcount : 0 < c.connectionCount)
    (hcalls : 0 < calls.countP Call.makesLink) (hnew : c'.connectionCount = 0)
    (he : (c.newNetwork name).build m far weight calls = .ok e) (hd : (c'.newNetwork name).build m far weight calls = .ok d)
    (before before' : Nat) : e.network before ≠ d.network before' := by
  intro heq
  have hlink : d.HasLink (connName name 0) := (hasLink_build hd).2 ⟨0, by omega, by omega, rfl⟩
  rw [hasLink_iff_network before', ← heq, ← hasLink_iff_network before, hasLink_build he] at hlink
  obtain ⟨_, _, -, hname⟩ := hlink
  have hzero := connName_inj hname
  omega

theorem count_run {ops : List (Operation π)} (h : c.run m far weight ops = .ok c') :
    c'.connectionCount = c.connectionCount + ops.countP Operation.makesLink := by
  induction ops generalizing c with
  | nil =>
    cases h
    rfl
  | cons op _ ih =>
    rw [run, foldlM_cons] at h
    obtain ⟨c₁, hop, hrest⟩ := eq_ok_of_bind h
    have hstep : c₁.connectionCount = c.connectionCount + if op.makesLink then 1 else 0 := by
      cases op with
      | newNetwork =>
        cases hop
        rfl
      | call => exact (makes_call hop).count
    rw [ih hrest, hstep, countP_cons]
    omega

omit [DecidableEq π] in
/-- Networks without links are the same when their switches are. -/
theorem network_eq (h : SameSwitches c c') {before : Nat} (hbefore : c.devices.length = before) (hdevices : c'.devices = []) :
    c.network before = c'.network 0 := by
  have hview : ∀ node ∈ c'.switches, c.viewSwitch node = c'.viewSwitch node := by
    intro node hnode
    have hnone := h.linkless node (h.switches ▸ hnode)
    unfold viewSwitch
    rw [hnone]
    rfl
  unfold network
  rw [h.switches, map_congr_left hview, ← hbefore, drop_length, hdevices]
  rfl

/-- The network is the one that a new connector builds if and only if there are no links in the one or in the other. -/
theorem newNetwork_iff {flitSize : Int} {first : List (Operation π)} {c : Connector π}
    (hfirst : Connector.run m far weight { flitSize } first = .ok c) (name : String) {second : List (Call π)}
    {c₂ : Connector π} (hsecond : (Connector.newNetwork { flitSize } name).build m far weight second = .ok c₂) :
    (∃ c₁, (c.newNetwork name).build m far weight second = .ok c₁ ∧ c₁.network c.devices.length = c₂.network 0) ↔
      (∀ op ∈ first, op.makesLink = false) ∨ ∀ call ∈ second, call.makesLink = false := by
  have hcount := count_run hfirst
  constructor
  · rintro ⟨c₁, hbuild, hnetwork⟩
    by_contra hlinks
    simp only [not_or, not_forall, Bool.not_eq_false] at hlinks
    obtain ⟨⟨op, hop, hoplink⟩, call, hcall, hcalllink⟩ := hlinks
    have hfirstLinks : 0 < first.countP Operation.makesLink := countP_pos_iff.2 ⟨op, hop, hoplink⟩
    exact links_ne (by omega) (countP_pos_iff.2 ⟨call, hcall, hcalllink⟩) rfl hbuild hsecond _ _ hnetwork
  · rintro (hnone | hnone)
    · have hkept := kept_run hnone rfl hfirst
      have hdevices : c.devices = [] := hkept.devices
      rw [newNetwork_eq hkept rfl, hdevices]
      exact ⟨c₂, hsecond, rfl⟩
    · have hsame : SameSwitches (c.newNetwork name) (Connector.newNetwork { flitSize } name) := ⟨rfl, rfl, nofun⟩
      obtain ⟨c₁, hbuild, hsame', hkept⟩ := hsame.build hnone hsecond
      obtain ⟨_, hbuild', -, hkept'⟩ :=
        (show SameSwitches (Connector.newNetwork { flitSize } name) _ from ⟨rfl, rfl, nofun⟩).build hnone hsecond
      rw [hsecond] at hbuild'
      cases hbuild'
      refine ⟨c₁, hbuild, network_eq hsame' ?_ hkept'.devices⟩
      rw [hkept.devices, newNetwork, List.length_map]

end Router

/-! ## Two networks -/

/-- A switch with a device. -/
def star (p : Nat) : List (Call Nat) := [.addSwitch, .connectDevice 0 [p] {}, .establishRoute]

def buildStar (c : Connector Nat) : Except String (Connector Nat) :=
  (c.newNetwork "Second").build FloydWarshallRouter.hops (2 * ·) (fun _ => 1) (star 11)

def runFirst (calls : List (Call Nat)) : Except String (Connector Nat) :=
  Connector.run FloydWarshallRouter.hops (2 * ·) (fun _ => 1) { flitSize := 64 } (.newNetwork "First" :: calls.map .call)

/-- A first network without links. -/
theorem newNetwork_iff_star :
    ∃ c c₁ c₂, runFirst [.addSwitch] = .ok c ∧ buildStar { flitSize := 64 } = .ok c₂ ∧ buildStar c = .ok c₁ ∧
    c₁.network c.devices.length = c₂.network 0 := by
  obtain ⟨c, hc, -⟩ : Succeeds (fun _ => true = true) (runFirst [.addSwitch]) := .of_any (by decide +kernel)
  obtain ⟨c₂, hc₂, -⟩ : Succeeds (fun _ => true = true) (buildStar { flitSize := 64 }) := .of_any (by decide +kernel)
  obtain ⟨c₁, hc₁, heq⟩ := (newNetwork_iff hc "Second" hc₂).2 (inl (by decide))
  exact ⟨c, c₁, c₂, hc, hc₂, hc₁, heq⟩

/-- The switch of the second network has no route to the device of the first one. -/
theorem not_same : ∃ c c₂, runFirst (star 10) = .ok c ∧ buildStar { flitSize := 64 } = .ok c₂ ∧
    ¬ ∃ c₁, buildStar c = .ok c₁ ∧ c₁.network c.devices.length = c₂.network 0 := by
  obtain ⟨c, hc, hpanic⟩ : Succeeds (fun c => (buildStar c).toOption.isNone = true) (runFirst (star 10)) :=
    .of_any (by decide +kernel)
  obtain ⟨c₂, hc₂, -⟩ : Succeeds (fun _ => true = true) (buildStar { flitSize := 64 }) := .of_any (by decide +kernel)
  refine ⟨c, c₂, hc, hc₂, ?_⟩
  rintro ⟨c₁, hc₁, -⟩
  rw [hc₁] at hpanic
  cases hpanic

end Connector

end Akita.Noc.NewNetwork
