import Akita.Noc.Routing
import Mathlib.Algebra.Order.Ring.WithTop
import Mathlib.Tactic.NormNum

/-!
# The routers

* `FloydWarshallRouter.establishRoute_shortest` : the routes have as few hops as possible;
* `BandwidthFirstRouter.establishRoute_widest` : the routes are as wide as possible, and they have no cycle.
-/

namespace Akita.Noc
open List
open FloydWarshall (Measure)
open OrderDual (toDual ofDual)
open Network (build exists_route initial_of_ne pathValue wellFormed_of_build)

variable {π : Type} [DecidableEq π]

/-! ## A network -/

/-- Three switches, the first and the second one with a device. -/
def triangleCalls : List (Call Nat) :=
  [.addSwitch, .addSwitch, .addSwitch, .connectDevice 0 [10] .directConnection, .connectDevice 1 [11] .directConnection,
    .connectSwitches 0 1 (.channel 1), .connectSwitches 0 2 (.channel 3), .connectSwitches 2 1 (.channel 2)]

def triangle : Network Nat := (build triangleCalls).toOption.getD {}

theorem build_triangle : build triangleCalls = .ok triangle := rfl

theorem connected_triangle : triangle.Connected := by
  refine Network.connected_of_center (wellFormed_of_build build_triangle) (u := .switch 0) fun v hv => ?_
  have hnodes : triangle.nodes = [.device 0, .device 1, .switch 0, .switch 1, .switch 2] := rfl
  rw [hnodes] at hv
  simp only [mem_cons, not_mem_nil, or_false] at hv
  rcases hv with rfl | rfl | rfl | rfl | rfl
  · exact ⟨[⟨.switch 0, 1, .device 0, 0, .directConnection⟩], .cons (by decide) (.nil _)⟩
  · exact ⟨[⟨.switch 0, 4, .switch 1, 5, .channel 1⟩, ⟨.switch 1, 3, .device 1, 2, .directConnection⟩],
      .cons (by decide) (.cons (by decide) (.nil _))⟩
  · exact ⟨[], .nil _⟩
  · exact ⟨[⟨.switch 0, 4, .switch 1, 5, .channel 1⟩], .cons (by decide) (.nil _)⟩
  · exact ⟨[⟨.switch 0, 6, .switch 2, 7, .channel 3⟩], .cons (by decide) (.nil _)⟩

theorem lastHolds_triangle : triangle.LastHolds 1 11 := by
  refine ⟨by decide, fun d hd => ?_⟩
  have hdevices : triangle.devices.length ≤ d := hd
  rw [Network.devicePorts, getElem?_eq_none hdevices]
  exact not_mem_nil

/-! ## Least hops -/

namespace FloydWarshallRouter

/-- The distances are of type `uint32`. The sum of two overflows only from 2^30 nodes on, where no memory holds the table. -/
def hops : Measure Nat where
  zero := 0
  op := (· + ·)
  zero_le := Nat.zero_le
  op_mono := Nat.add_le_add
  op_assoc := Nat.add_assoc
  zero_op := Nat.zero_add
  op_zero := Nat.add_zero

def establishRoute (c : Network π) : Except String (Network π) := c.establishRoute hops (2 * c.nodes.length) fun _ => 1

theorem pathValue_eq_length (path : List Remote) : pathValue hops (fun _ => 1) path = path.length := by
  induction path with
  | nil => rfl
  | cons _ _ ih => exact (congrArg (1 + ·) ih).trans (Nat.add_comm ..)

omit [DecidableEq π]

theorem cost_eq_length {c : Network π} {far : Nat} {i : c.Index} {vs : List c.Index}
    (h : (i :: vs).IsChain (FloydWarshall.Linked (c.initial hops far fun _ => 1))) :
    FloydWarshall.cost hops (c.initial hops far fun _ => 1) i vs = vs.length := by
  induction vs generalizing i with
  | nil => rfl
  | cons _ _ ih =>
    rw [isChain_cons_cons] at h
    obtain ⟨⟨hne, hsome⟩, hrest⟩ := h
    rw [FloydWarshall.cost, ih hrest, length_cons, Nat.add_comm]
    rcases initial_of_ne hops far (fun _ => 1) hne with ⟨r, -, -, heq⟩ | ⟨heq, -⟩
    · rw [heq]
      rfl
    · rw [heq] at hsome
      cases hsome

/-- The answers of the switches lead to the end point that holds the port, in as few hops as there are on any path. -/
theorem establishRoute_shortest [DecidableEq π] {calls : List (Call π)} {c : Network π} (hbuild : build calls = .ok c)
    (hconn : c.Connected) {s d : Nat} {p : π} (hs : s < c.switches.length) (hd : c.LastHolds d p) :
    ∃ c', establishRoute c = .ok c' ∧ ∃ path, c'.Route (Table.findPort · p) (.switch s) path (.device d) ∧
      IsLeast {n | ∃ path', c.IsPath (.switch s) path' (.device d) ∧ path'.length = n} path.length := by
  have hpos : ∀ {v}, v ∈ c.nodes → 1 < 2 * c.nodes.length := by
    intro v hv
    have hlen := length_pos_of_mem hv
    omega
  have hw : c.Weighted (2 * c.nodes.length) fun _ => 1 :=
    ⟨fun hr => hpos (Network.mem_nodes_of_mem_remotes hr), fun _ _ _ _ => rfl⟩
  have hbounded : FloydWarshall.Bounded hops (2 * c.nodes.length) (c.initial hops (2 * c.nodes.length) fun _ => 1) := by
    intro i vs hchain hlen
    rw [cost_eq_length hchain]
    have hi := i.isLt
    rw [Fintype.card_fin] at hlen
    omega
  obtain ⟨c', hc', path, hroute, hpath, -, hbest⟩ :=
    exists_route (wellFormed_of_build hbuild) hconn hw hbounded hs hd
  refine ⟨c', hc', path, hroute, ⟨path, hpath, rfl⟩, ?_⟩
  rintro n ⟨path', hpath', rfl⟩
  have hle := hbest path' hpath'
  rwa [pathValue_eq_length, pathValue_eq_length] at hle

theorem establishRoute_shortest_triangle :
    ∃ c', establishRoute triangle = .ok c' ∧ ∃ path, c'.Route (Table.findPort · 11) (.switch 0) path (.device 1) ∧
      IsLeast {n | ∃ path', triangle.IsPath (.switch 0) path' (.device 1) ∧ path'.length = n} path.length :=
  establishRoute_shortest build_triangle connected_triangle (by decide) lastHolds_triangle

end FloydWarshallRouter

/-! ## Greatest bandwidth -/

/-- `Bandwidth` -/
def Remote.bandwidth (r : Remote) (flitSize : Nat) : WithTop ℚ :=
  match r.link with
  | .directConnection => ⊤
  | .channel freq => (freq * flitSize : ℚ)

namespace BandwidthFirstRouter

def min (a b : WithTop ℚ) : WithTop ℚ := if a < b then a else b

theorem min_eq_inf (a b : WithTop ℚ) : min a b = a ⊓ b := by
  unfold min
  split
  · next h => exact (inf_of_le_left h.le).symm
  · next h => exact (inf_of_le_right (not_lt.1 h)).symm

/-- A greater bandwidth is better. -/
def bandwidths : Measure (WithTop ℚ)ᵒᵈ where
  zero := toDual ⊤
  op a b := toDual (min (ofDual a) (ofDual b))
  zero_le a := OrderDual.toDual_le.2 le_top
  op_mono {a a' b b'} ha hb := by
    rw [min_eq_inf, min_eq_inf]
    exact inf_le_inf (OrderDual.ofDual_le_ofDual.2 ha) (OrderDual.ofDual_le_ofDual.2 hb)
  op_assoc a b c := by
    simp only [min_eq_inf, OrderDual.ofDual_toDual]
    rw [inf_assoc]
  zero_op a := by
    rw [min_eq_inf]
    exact congrArg toDual (top_inf_eq (ofDual a))
  op_zero a := by
    rw [min_eq_inf]
    exact congrArg toDual (inf_top_eq (ofDual a))

theorem op_lt {a b far : (WithTop ℚ)ᵒᵈ} (ha : a < far) (hb : b < far) : bandwidths.op a b < far := by
  have hmin : ofDual far < ofDual a ⊓ ofDual b := lt_inf_iff.2 ⟨ha, hb⟩
  rw [← min_eq_inf] at hmin
  exact hmin

/-- Without a link the bandwidth is -1. -/
def establishRoute (flitSize : Nat) (c : Network π) : Except String (Network π) :=
  c.establishRoute bandwidths (toDual ((-1 : ℚ) : WithTop ℚ)) fun r => toDual (r.bandwidth flitSize)

/-- The smallest bandwidth of the links of a path. -/
def width (flitSize : Nat) (path : List Remote) : WithTop ℚ := path.foldr (fun r b => r.bandwidth flitSize ⊓ b) ⊤

theorem pathValue_eq_width (flitSize : Nat) (path : List Remote) :
    pathValue bandwidths (fun r => toDual (r.bandwidth flitSize)) path = toDual (width flitSize path) := by
  induction path with
  | nil => rfl
  | cons _ _ ih =>
    rw [pathValue, ih]
    exact congrArg toDual (min_eq_inf ..)

omit [DecidableEq π]

/-- Two nodes have at most one link. -/
def Simple (c : Network π) : Prop :=
  ∀ v, ∀ r ∈ c.remotes v, ∀ r' ∈ c.remotes v, r.remoteNode = r'.remoteNode → v ≠ r.remoteNode → r = r'

/-- The answers of the switches lead to the end point that holds the port, without visiting a node twice, and no path is
wider. -/
theorem establishRoute_widest [DecidableEq π] {flitSize : Nat} {calls : List (Call π)} {c : Network π}
    (hbuild : build calls = .ok c) (hconn : c.Connected) (hsimple : Simple c)
    (hpos : ∀ v, ∀ r ∈ c.remotes v, 0 < r.bandwidth flitSize) {s d : Nat} {p : π} (hs : s < c.switches.length)
    (hd : c.LastHolds d p) :
    ∃ c', establishRoute flitSize c = .ok c' ∧ ∃ path, c'.Route (Table.findPort · p) (.switch s) path (.device d) ∧
      (Node.switch s :: path.map Remote.remoteNode).Nodup ∧
      IsGreatest {b | ∃ path', c.IsPath (.switch s) path' (.device d) ∧ width flitSize path' = b} (width flitSize path) := by
  have hw : c.Weighted (toDual ((-1 : ℚ) : WithTop ℚ)) fun r => toDual (r.bandwidth flitSize) := by
    refine ⟨fun {v r} hr => ?_, fun {v r r'} hr hr' hnode hv => ?_⟩
    · have hneg : ((-1 : ℚ) : WithTop ℚ) < 0 := by exact_mod_cast (by norm_num : (-1 : ℚ) < 0)
      exact OrderDual.toDual_lt_toDual.2 (hneg.trans (hpos v r hr))
    · rw [hsimple v r hr r' hr' hnode hv]
  have hbounded : FloydWarshall.Bounded bandwidths (toDual ((-1 : ℚ) : WithTop ℚ))
      (c.initial bandwidths (toDual ((-1 : ℚ) : WithTop ℚ)) fun r => toDual (r.bandwidth flitSize)) := by
    intro i vs hchain hlen
    induction vs generalizing i with
    | nil => exact OrderDual.toDual_lt_toDual.2 (WithTop.coe_lt_top _)
    | cons v _ ih =>
      rw [isChain_cons_cons] at hchain
      obtain ⟨⟨hne, hsome⟩, hrest⟩ := hchain
      refine op_lt ?_ (ih v hrest (Nat.le_of_succ_le hlen))
      rcases initial_of_ne bandwidths _ _ hne with ⟨r, hr, -, heq⟩ | ⟨heq, -⟩
      · rw [heq]
        exact hw.lt_far hr
      · rw [heq] at hsome
        cases hsome
  obtain ⟨c', hc', path, hroute, hpath, hnodup, hbest⟩ :=
    exists_route (wellFormed_of_build hbuild) hconn hw hbounded hs hd
  refine ⟨c', hc', path, hroute, hnodup, ⟨path, hpath, rfl⟩, ?_⟩
  rintro b ⟨path', hpath', rfl⟩
  have hle := hbest path' hpath'
  rw [pathValue_eq_width, pathValue_eq_width] at hle
  exact OrderDual.toDual_le_toDual.1 hle

theorem simple_triangle : Simple triangle := by
  have h : ∀ v ∈ triangle.nodes, ∀ r ∈ triangle.remotes v, ∀ r' ∈ triangle.remotes v,
      r.remoteNode = r'.remoteNode → v ≠ r.remoteNode → r = r' := by decide +kernel
  exact fun v r hr => h v (Network.mem_nodes_of_mem_remotes hr) r hr

theorem bandwidth_triangle (v : Node) (r : Remote) (hr : r ∈ triangle.remotes v) : 0 < r.bandwidth 16 := by
  have h : ∀ v ∈ triangle.nodes, ∀ r ∈ triangle.remotes v, 0 < r.bandwidth 16 := by decide +kernel
  exact h v (Network.mem_nodes_of_mem_remotes hr) r hr

theorem establishRoute_widest_triangle :
    ∃ c', establishRoute 16 triangle = .ok c' ∧ ∃ path, c'.Route (Table.findPort · 11) (.switch 0) path (.device 1) ∧
      (Node.switch 0 :: path.map Remote.remoteNode).Nodup ∧
      IsGreatest {b | ∃ path', triangle.IsPath (.switch 0) path' (.device 1) ∧ width 16 path' = b} (width 16 path) :=
  establishRoute_widest build_triangle connected_triangle simple_triangle bandwidth_triangle (by decide) lastHolds_triangle

end BandwidthFirstRouter

end Akita.Noc
