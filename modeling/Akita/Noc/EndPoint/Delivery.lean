import Akita.Noc.EndPoint.Pair

/-!
# Messages between two end points

* `Exact` : what a receiver has delivered and what it keeps for the messages in assembly;
* `Fair` : the engine, the network, the medium and the device ports go on;
* `Pair.complete_delivered` : a message whose flits have all arrived is delivered, whatever else is in assembly;
* `Pair.exactly_once` : with no tick that finds more messages than output channels, every accepted message is delivered, once;
* `Pair.never_delivered` : a tick that finds more loses them.
-/

namespace Akita.Noc.Switching
open Sim List
open MsgToAssemble (complete msg)

variable {π : Type}

theorem sendLoop_ne_nil {net : Nat → Bool} {k i j : Nat} (hi : i ≤ j) (hj : j < i + k) (hnet : net j = true)
    {flits : List (Flit π)} (hne : flits ≠ []) : (sendLoop net k i flits).1 ≠ [] := by
  induction k generalizing i with
  | zero => omega
  | succ _ ih =>
    cases flits with
    | nil => exact absurd rfl hne
    | cons =>
      unfold sendLoop
      by_cases hnow : net i = true
      · rw [if_pos hnow]
        exact cons_ne_nil _ _
      · rw [if_neg hnow]
        have hij : i ≠ j := by
          rintro rfl
          exact hnow hnet
        exact ih (by omega) (by omega)

namespace Config

variable (cfg : Config π) (m : Msg π)

theorem map_seqID : (cfg.msgToFlits m).map Flit.seqID = range (cfg.numFlit m) := by
  rw [msgToFlits, map_map]
  exact map_id _

theorem nodup_msgToFlits : (cfg.msgToFlits m).Nodup := by
  refine List.Nodup.of_map Flit.seqID ?_
  rw [map_seqID]
  exact nodup_range

theorem countOf_msgToFlits : countOf m.id (cfg.msgToFlits m) = cfg.numFlit m := by
  have hids : ([m].map Msg.id).Nodup := nodup_singleton m.id
  have hcount : countOf m.id ([m].flatMap cfg.msgToFlits) = cfg.numFlit m := countOf_flits hids (mem_singleton_self m)
  rw [flatMap_singleton] at hcount
  exact hcount

end Config

/-! ## The queues of an end point -/

namespace Node

variable {cfg : Config π} (n : Node cfg) (a : Act π)

theorem received_act : n.received <+: (n.act a).received ∧
    n.received ++ n.ep.networkPort.elements <+: (n.act a).received ++ (n.act a).ep.networkPort.elements := by
  cases a with
  | send msg =>
    change _ <+: (n.send msg).received ∧ _ <+: (n.send msg).received ++ (n.send msg).ep.networkPort.elements
    rcases n.send_cases msg with heq | ⟨-, heq⟩ <;> rw [heq] <;> exact ⟨prefix_rfl, prefix_rfl⟩
  | arrive flit =>
    rcases n.arrive_cases flit with heq | ⟨-, heq⟩ <;> rw [heq]
    · exact ⟨prefix_rfl, prefix_rfl⟩
    · refine ⟨prefix_rfl, ?_⟩
      change _ <+: n.received ++ (n.ep.networkPort.elements ++ [flit])
      rw [← append_assoc]
      exact prefix_append ..
  | tick net dev =>
    change _ <+: (n.tick net dev).received ∧ _ <+: (n.tick net dev).received ++ (n.tick net dev).ep.networkPort.elements
    rw [n.tick_received, n.tick_networkPort, append_assoc, take_append_drop]
    exact ⟨prefix_append .., prefix_rfl⟩

theorem delivered_act : n.delivered <+: (n.act a).delivered ∧
    n.delivered ++ n.ep.assembledMsgs <+: (n.act a).delivered ++ (n.act a).ep.assembledMsgs := by
  cases a with
  | send msg =>
    change _ <+: (n.send msg).delivered ∧ _ <+: (n.send msg).delivered ++ (n.send msg).ep.assembledMsgs
    rcases n.send_cases msg with heq | ⟨-, heq⟩ <;> rw [heq] <;> exact ⟨prefix_rfl, prefix_rfl⟩
  | arrive flit =>
    rcases n.arrive_cases flit with heq | ⟨-, heq⟩ <;> rw [heq] <;> exact ⟨prefix_rfl, prefix_rfl⟩
  | tick net dev =>
    change _ <+: (n.tick net dev).delivered ∧ _ <+: (n.tick net dev).delivered ++ (n.tick net dev).ep.assembledMsgs
    rw [n.tick_delivered, n.tick_assembled, ← append_assoc, append_assoc n.delivered, deliverLoop_append]
    exact ⟨prefix_append .., prefix_append ..⟩

end Node

/-! ## What a receiver delivers -/

/-- What a receiver `y` has delivered of the messages of a sender `x`, and what it keeps for the others. -/
structure Exact {cfg cfg' : Config π} (x : Node cfg) (y : Node cfg') : Prop where
  accepted : ∀ m ∈ y.delivered, m ∈ x.accepted
  once : (y.delivered.map Msg.id).Nodup
  /-- a message is delivered with all its flits -/
  whole : ∀ m ∈ y.delivered, (y.received.filter fun f => decide (f.msg.id = m.id)).Perm (cfg.msgToFlits m)
  /-- a message is in assembly from its first flit on, until it is given up for delivery -/
  state : ∀ m ∈ x.accepted, m ∈ y.ep.assemblingMsgs.map msg ↔
    0 < countOf m.id y.received ∧ m ∉ y.delivered ++ y.ep.assembledMsgs
  single : (y.ep.assemblingMsgs.map fun e => e.msg.id).Nodup
  /-- which the next tick does if and only if all its flits are there, whatever else is in assembly -/
  given : ∀ net dev, ∀ m ∈ x.accepted, m ∈ y.ep.assemblingMsgs.map msg →
    if countOf m.id y.received = cfg.numFlit m then
      m ∈ (y.tick net dev).ep.assembledMsgs ∧ m ∉ (y.tick net dev).ep.assemblingMsgs.map msg
    else m ∈ (y.tick net dev).ep.assemblingMsgs.map msg

namespace Link

variable {cfg cfg' : Config π} {x : Node cfg} {flight : List (Flit π)} {y : Node cfg'}

theorem received_le (h : Link x flight y) {m : Msg π} (hm : m ∈ x.converted) : countOf m.id y.received ≤ cfg.numFlit m := by
  have hle := h.count_le hm
  rw [countOf_append] at hle
  omega

/-- No message is both in assembly and given up. -/
theorem not_both (h : Link x flight y) {m : Msg π} (hm : m ∈ y.ep.assemblingMsgs.map msg) :
    m ∉ y.delivered ++ y.ep.assembledMsgs := by
  have hdistinct := h.assembly.distinct
  rw [map_append] at hdistinct
  exact fun hgiven => (nodup_append.mp hdistinct).2.2 m.id (mem_map_of_mem hm) m.id (mem_map_of_mem hgiven) rfl

/-- An entry is complete when all the flits of its message are there. -/
theorem complete_iff (h : Link x flight y) {e : MsgToAssemble π} (he : e ∈ y.ep.assemblingMsgs) :
    e.complete = true ↔ countOf e.msg.id y.received = cfg.numFlit e.msg := by
  obtain ⟨_, _, -⟩ := h.assembly.counted e he
  have hle := h.received_le (h.assembly.known e.msg (mem_append_left _ (mem_map_of_mem he)))
  rw [complete, decide_eq_true_eq]
  omega

theorem exact (h : Link x flight y) : Exact x y := by
  have hdistinct := h.assembly.distinct
  rw [map_append, map_append] at hdistinct
  have hdelivered : ∀ m ∈ y.delivered, m ∈ y.delivered ++ y.ep.assembledMsgs := fun m hm => mem_append_left _ hm
  refine ⟨fun m hm => ?_, ?_, fun m hm => ?_, fun m hm => ⟨fun hasm => ?_, ?_⟩, ?_, fun net dev m hm hasm => ?_⟩
  · exact h.converted_accepted m (h.assembly.known m (mem_append_right _ (hdelivered m hm)))
  · exact (nodup_append.mp (nodup_append.mp hdistinct).2.1).1
  · have hconv := h.assembly.known m (mem_append_right _ (hdelivered m hm))
    have hcount := h.assembly.complete m (hdelivered m hm)
    rw [countOf, countP_eq_length_filter, ← Config.length_msgToFlits] at hcount
    refine List.Subperm.perm_of_length_le ?_ hcount.ge
    rw [← filter_flits h.converted_distinct hconv]
    exact ((sublist_append_right ..).subperm.trans h.subperm).filter _
  · obtain ⟨e, he, rfl⟩ := mem_map.mp hasm
    obtain ⟨-, harrived, hpos⟩ := h.assembly.counted e he
    exact ⟨harrived ▸ hpos, h.not_both hasm⟩
  · rintro ⟨hpos, hnot⟩
    exact (mem_append.mp (h.known hm hpos)).resolve_right hnot
  · have hids := (nodup_append.mp hdistinct).1
    rw [map_map] at hids
    exact hids
  · have hnext := h.receiver_tick net dev
    obtain ⟨e, he, rfl⟩ := mem_map.mp hasm
    split
    · rename_i hall
      have hgiven : e.msg ∈ (y.tick net dev).ep.assembledMsgs := by
        rw [y.tick_assembled]
        exact mem_append_right _ (mem_map_of_mem (mem_filter.mpr ⟨he, (h.complete_iff he).mpr hall⟩))
      exact ⟨hgiven, fun hmem => hnext.not_both hmem (mem_append_right _ hgiven)⟩
    · rename_i hpart
      have hpos : 0 < countOf e.msg.id (y.tick net dev).received := by
        obtain ⟨-, harrived, hpos⟩ := h.assembly.counted e he
        rw [y.tick_received, countOf_append]
        omega
      refine (mem_append.mp (hnext.known hm hpos)).resolve_right fun hgiven => ?_
      rw [y.tick_delivered, y.tick_assembled, ← append_assoc, append_assoc y.delivered, deliverLoop_append] at hgiven
      rcases mem_append.mp hgiven with hgiven | hgiven
      · exact h.not_both hasm hgiven
      · obtain ⟨e', he', heq⟩ := mem_map.mp hgiven
        obtain ⟨hmem, hdone⟩ := mem_filter.mp he'
        rw [h.complete_iff hmem, heq] at hdone
        exact hpart hdone

end Link

/-! ## Fair runs -/

/-- Something a tick of the end point itself can do. -/
def EndPoint.Waits {cfg : Config π} (ep : EndPoint cfg) : Prop :=
  ep.msgOutBuf ≠ [] ∨ ep.networkPort.elements ≠ [] ∨ ∃ e ∈ ep.assemblingMsgs, e.complete = true

namespace Pair

variable {cfg : Side → Config π} {acts : Nat → Act π}

/-- The engine ticks an end point that has something to do, the network and the device ports accept again and again what they
refuse, and the medium delivers every flit. -/
structure Fair (cfg : Side → Config π) (acts : Nat → Act π) : Prop where
  ticked : ∀ s n, ∃ k, n ≤ k ∧ (((run cfg acts k).node s).ep.Waits → ∃ net dev, acts k = .tick s net dev)
  sent : ∀ s n, ∃ k, n ≤ k ∧ (((run cfg acts k).node s).ep.flitsToSend ≠ [] →
    ∃ net dev, acts k = .tick s net dev ∧ ∃ i, i < (cfg s).numOutputChannels ∧ net i = true)
  arrived : ∀ s n, ∀ f ∈ (run cfg acts n).flight s, ∃ k, n ≤ k ∧ f ∉ (run cfg acts k).flight s
  delivered : ∀ s n, ∃ k, n ≤ k ∧ (((run cfg acts k).node s).ep.assembledMsgs ≠ [] →
    ∃ net dev, acts k = .tick s net dev ∧ dev 0 = true)

/-- No tick begins with more messages than output channels. -/
def Smooth (cfg : Side → Config π) (acts : Nat → Act π) : Prop :=
  ∀ s k net dev, acts k = .tick s net dev → ((run cfg acts k).node s).ep.msgOutBuf.length ≤ (cfg s).numOutputChannels

variable {s : Side} {k : Nat}

theorem run_tick {net dev : Nat → Bool} (h : acts k = .tick s net dev) :
    (run cfg acts (k + 1)).node s = ((run cfg acts k).node s).tick net dev := by
  change ((run cfg acts k).act (acts k)).node s = _
  rw [h]
  exact node_tick ..

/-- What every step of an end point extends, every step of the pair extends. -/
theorem grows {α : Type} {f : Node (cfg s) → List α} (h : ∀ n a, f n <+: f (n.act a)) (k : Nat) :
    f ((run cfg acts k).node s) <+: f ((run cfg acts (k + 1)).node s) := by
  change _ <+: f (((run cfg acts k).act (acts k)).node s)
  rcases node_act (run cfg acts k) (acts k) s with heq | ⟨a, heq⟩ <;> rw [heq]
  exact h _ a

theorem accepted_mono (cfg : Side → Config π) (acts : Nat → Act π) (s : Side) {n k : Nat} (h : n ≤ k) :
    ((run cfg acts n).node s).accepted <+: ((run cfg acts k).node s).accepted :=
  prefix_of_le (f := fun i => ((run cfg acts i).node s).accepted) (fun i => grows Node.accepted_act i) h

theorem sent_mono (cfg : Side → Config π) (acts : Nat → Act π) (s : Side) {n k : Nat} (h : n ≤ k) :
    ((run cfg acts n).node s).sent <+: ((run cfg acts k).node s).sent :=
  prefix_of_le (f := fun i => ((run cfg acts i).node s).sent) (fun i => grows Node.sent_act i) h

theorem received_mono (cfg : Side → Config π) (acts : Nat → Act π) (s : Side) {n k : Nat} (h : n ≤ k) :
    ((run cfg acts n).node s).received <+: ((run cfg acts k).node s).received :=
  prefix_of_le (f := fun i => ((run cfg acts i).node s).received) (fun i => grows (fun x a => (x.received_act a).1) i) h

section
variable (h : Fair cfg acts)
include h

theorem served_sent {a b : Side} (hab : a ≠ b) :
    Queue.Served (fun k => ((run cfg acts k).node a).sent) (fun k => ((run cfg acts k).node a).ep.flitsToSend) := by
  refine ⟨fun k => grows Node.sent_act k, fun k => ?_, fun n => ?_⟩
  · rw [(Linked.run cfg acts k a b hab).ordered.flits, (Linked.run cfg acts (k + 1) a b hab).ordered.flits]
    obtain ⟨_, hnew⟩ : ((run cfg acts k).node a).converted <+: _ := grows Node.converted_act k
    rw [← hnew, flatMap_append]
    exact prefix_append ..
  · obtain ⟨k, hk, hsend⟩ := h.sent a n
    refine ⟨k, hk, fun hne => ?_⟩
    obtain ⟨net, dev, htick, i, hi, hnet⟩ := hsend hne
    have hsent := sendLoop_ne_nil (Nat.zero_le i) (hi.trans_eq (Nat.zero_add _).symm) hnet hne
    rw [run_tick htick, (Node.tick_flits _ net dev).1, length_append]
    exact Nat.lt_add_of_pos_right (length_pos_iff.mpr hsent)

theorem served_received (hin : 0 < (cfg s).numInputChannels) :
    Queue.Served (fun k => ((run cfg acts k).node s).received)
      (fun k => ((run cfg acts k).node s).ep.networkPort.elements) := by
  refine ⟨fun k => grows (fun x a => (x.received_act a).1) k,
    fun k => grows (f := fun x => x.received ++ x.ep.networkPort.elements) (fun x a => (x.received_act a).2) k, fun n => ?_⟩
  obtain ⟨k, hk, htick⟩ := h.ticked s n
  refine ⟨k, hk, fun hne => ?_⟩
  obtain ⟨_, _, htick⟩ := htick (.inr (.inl hne))
  have hpos := length_pos_iff.mpr hne
  rw [run_tick htick, Node.tick_received, length_append, length_take]
  omega

theorem served_delivered (s : Side) :
    Queue.Served (fun k => ((run cfg acts k).node s).delivered) (fun k => ((run cfg acts k).node s).ep.assembledMsgs) := by
  refine ⟨fun k => grows (fun x a => (x.delivered_act a).1) k,
    fun k => grows (f := fun x => x.delivered ++ x.ep.assembledMsgs) (fun x a => (x.delivered_act a).2) k, fun n => ?_⟩
  obtain ⟨k, hk, hdeliver⟩ := h.delivered s n
  refine ⟨k, hk, fun hne => ?_⟩
  obtain ⟨_, _, htick, hdev⟩ := hdeliver hne
  rw [run_tick htick, Node.tick_delivered, length_append]
  exact Nat.lt_add_of_pos_right (length_pos_iff.mpr (deliverLoop_ne_nil hdev hne))

/-- A message whose flits are all there is delivered, whatever else is in assembly. -/
theorem complete_delivered {a b : Side} (hab : a ≠ b) {n : Nat} {m : Msg π} (hm : m ∈ ((run cfg acts n).node a).accepted)
    (hall : countOf m.id ((run cfg acts n).node b).received = (cfg a).numFlit m) :
    ∃ k, n ≤ k ∧ m ∈ ((run cfg acts k).node b).delivered := by
  obtain ⟨k, hk, htick⟩ := h.ticked b n
  have hlink := Linked.run cfg acts k a b hab
  have hacc := (accepted_mono cfg acts a hk).subset hm
  have hge : (cfg a).numFlit m ≤ countOf m.id ((run cfg acts k).node b).received := by
    rw [← hall]
    exact (received_mono cfg acts b hk).sublist.countP_le
  have hpos : 0 < countOf m.id ((run cfg acts k).node b).received := Nat.lt_of_lt_of_le ((cfg a).numFlit_pos m) hge
  rcases mem_append.mp (hlink.known hacc hpos) with hasm | hgiven
  · obtain ⟨e, he, rfl⟩ := mem_map.mp hasm
    have hle := hlink.received_le (hlink.assembly.known e.msg (mem_append_left _ hasm))
    have hcomplete := (hlink.complete_iff he).mpr (Nat.le_antisymm hle hge)
    obtain ⟨_, _, htick⟩ := htick (.inr (.inr ⟨e, he, hcomplete⟩))
    have hgiven : e.msg ∈ ((run cfg acts (k + 1)).node b).ep.assembledMsgs := by
      rw [run_tick htick, Node.tick_assembled]
      exact mem_append_right _ (mem_map_of_mem (mem_filter.mpr ⟨he, hcomplete⟩))
    obtain ⟨k', hk', hout⟩ := (served_delivered h b).leaves (n := k + 1) (mem_append_right _ hgiven)
    exact ⟨k', by omega, hout⟩
  · obtain ⟨k', hk', hout⟩ := (served_delivered h b).leaves hgiven
    exact ⟨k', hk.trans hk', hout⟩

theorem accepted_converted (hsmooth : Smooth cfg acts) {a b : Side} (hab : a ≠ b) {n : Nat} {m : Msg π}
    (hm : m ∈ ((run cfg acts n).node a).accepted) : ∃ k, n ≤ k ∧ m ∈ ((run cfg acts k).node a).converted := by
  obtain ⟨k, hk, htick⟩ := h.ticked a n
  have hacc := (accepted_mono cfg acts a hk).subset hm
  rw [← (Linked.run cfg acts k a b hab).ordered.msgs] at hacc
  by_cases hempty : ((run cfg acts k).node a).ep.msgOutBuf = []
  · rw [hempty, append_nil] at hacc
    exact ⟨k, hk, hacc⟩
  · obtain ⟨net, dev, htick⟩ := htick (.inl hempty)
    refine ⟨k + 1, by omega, ?_⟩
    rw [run_tick htick, (Node.tick_of_le net dev (hsmooth a k net dev htick)).2.1]
    exact hacc

theorem flit_received {a b : Side} (hab : a ≠ b) (hin : 0 < (cfg b).numInputChannels) {n : Nat} {m : Msg π}
    (hm : m ∈ ((run cfg acts n).node a).converted) {f : Flit π} (hf : f ∈ (cfg a).msgToFlits m) :
    ∃ k, n ≤ k ∧ f ∈ ((run cfg acts k).node b).received := by
  have hwaits : f ∈ ((run cfg acts n).node a).sent ++ ((run cfg acts n).node a).ep.flitsToSend := by
    rw [(Linked.run cfg acts n a b hab).ordered.flits]
    exact mem_flatMap.mpr ⟨m, hm, hf⟩
  obtain ⟨k, _, hsent⟩ := (served_sent h hab).leaves hwaits
  obtain ⟨k', hk', hgone⟩ : ∃ k', k ≤ k' ∧ f ∉ (run cfg acts k').flight b := by
    by_cases hflight : f ∈ (run cfg acts k).flight b
    · exact h.arrived b k f hflight
    · exact ⟨k, le_refl k, hflight⟩
  have hsent' := (sent_mono cfg acts a hk').subset hsent
  rw [← (Linked.run cfg acts k' a b hab).flits.mem_iff] at hsent'
  have hhere := (mem_append.mp hsent').resolve_left hgone
  obtain ⟨k'', _, hrecv⟩ := (served_received h hin).leaves (mem_append.mpr (mem_append.mp hhere).symm)
  exact ⟨k'', by omega, hrecv⟩

theorem accepted_delivered (hsmooth : Smooth cfg acts) {a b : Side} (hab : a ≠ b)
    (hin : 0 < (cfg b).numInputChannels) {n : Nat} {m : Msg π} (hm : m ∈ ((run cfg acts n).node a).accepted) :
    ∃ k, n ≤ k ∧ m ∈ ((run cfg acts k).node b).delivered := by
  obtain ⟨k, hk, hconv⟩ := accepted_converted h hsmooth hab hm
  obtain ⟨k', hk', hrecv⟩ := eventually_forall (P := fun f i => f ∈ ((run cfg acts i).node b).received)
    (fun f i j hij hf => (received_mono cfg acts b hij).subset hf)
    ((cfg a).msgToFlits m) k fun f hf => flit_received h hab hin hconv hf
  have hlink := Linked.run cfg acts k' a b hab
  have hacc := (accepted_mono cfg acts a (hk.trans hk')).subset hm
  have hsub : ((cfg a).msgToFlits m).Subperm ((run cfg acts k').node b).received :=
    subperm_of_subset ((cfg a).nodup_msgToFlits m) hrecv
  have hge : (cfg a).numFlit m ≤ countOf m.id ((run cfg acts k').node b).received := by
    rw [← (cfg a).countOf_msgToFlits m]
    exact hsub.countP_le _
  have hconv' : m ∈ ((run cfg acts k').node a).converted :=
    (prefix_of_le (f := fun i => ((run cfg acts i).node a).converted) (fun i => grows Node.converted_act i) hk').subset hconv
  obtain ⟨k'', _, hout⟩ := complete_delivered h hab hacc (Nat.le_antisymm (hlink.received_le hconv') hge)
  exact ⟨k'', by omega, hout⟩

end

/-- What a pair of end points makes of the messages. -/
structure ExactlyOnce (cfg : Side → Config π) (acts : Nat → Act π) : Prop where
  /-- every message has a flit, and its flits are numbered below their number -/
  flits : ∀ s m, 0 < (cfg s).numFlit m ∧ ((cfg s).msgToFlits m).map Flit.seqID = range ((cfg s).numFlit m) ∧
    ∀ f ∈ (cfg s).msgToFlits m, f.msg = m ∧ f.numFlitInMsg = (cfg s).numFlit m
  exact : ∀ k a b, a ≠ b → Exact ((run cfg acts k).node a) ((run cfg acts k).node b)
  /-- what is complete does not wait for what is not -/
  complete : Fair cfg acts → ∀ k a b, a ≠ b → ∀ m ∈ ((run cfg acts k).node a).accepted,
    countOf m.id ((run cfg acts k).node b).received = (cfg a).numFlit m → ∃ k', k ≤ k' ∧
    m ∈ ((run cfg acts k').node b).delivered
  /-- when no tick finds more messages than output channels, every message is delivered -/
  all : Fair cfg acts → Smooth cfg acts → (∀ s, 0 < (cfg s).numInputChannels) → ∀ k a b, a ≠ b →
    ∀ m ∈ ((run cfg acts k).node a).accepted, ∃ k', k ≤ k' ∧ m ∈ ((run cfg acts k').node b).delivered

theorem exactly_once (cfg : Side → Config π) (acts : Nat → Act π) : ExactlyOnce cfg acts where
  flits := by
    intro s m
    refine ⟨(cfg s).numFlit_pos m, (cfg s).map_seqID m, fun f hf => ?_⟩
    obtain ⟨_, -, rfl⟩ := mem_map.mp hf
    exact ⟨rfl, rfl⟩
  exact k a b hab := (Linked.run cfg acts k a b hab).exact
  complete hfair _ _ _ hab _ hm hall := complete_delivered hfair hab hm hall
  all hfair hsmooth hin _ _ b hab _ hm := accepted_delivered hfair hsmooth hab (hin b) hm

/-! ## Two runs -/

theorem flitByteSize_built : 0 < 32 := by decide

/-- End points as the builder makes them with two input channels and one device port. -/
def built (s : Side) : Config Nat where
  numInputChannels := 2
  numOutputChannels := 1
  flitByteSize := 32
  encodingOverhead := fun bytes => (bytes + 3) / 4
  networkPortBufferSize := 4
  networkPort := if s = .left then 0 else 1
  defaultSwitchDst := 2
  devicePorts := if s = .left then [(3, 2)] else [(4, 2)]
  flitByteSize_pos := flitByteSize_built

/-- The two sides and the medium take turns. -/
def turn (k : Nat) : Act Nat :=
  if k % 3 = 0 then .tick .left (fun _ => true) fun _ => true
  else if k % 3 = 1 then .tick .right (fun _ => true) fun _ => true
  else .arrive .right 0

/-- The same after the messages `msgs` of the left side. -/
def turns (msgs : List (Msg Nat)) (k : Nat) : Act Nat := (msgs[k]?.map (Act.send .left)).getD (turn k)

theorem turns_of_le {msgs : List (Msg Nat)} (h : msgs.length ≤ k) : turns msgs k = turn k := by
  rw [turns, getElem?_eq_none h]
  rfl

theorem turns_tick (msgs : List (Msg Nat)) (s : Side) (n : Nat) :
    ∃ k, n ≤ k ∧ turns msgs k = .tick s (fun _ => true) fun _ => true := by
  cases s with
  | left =>
    refine ⟨3 * (n + msgs.length), by omega, ?_⟩
    rw [turns_of_le (by omega), turn, if_pos (by omega)]
  | right =>
    refine ⟨3 * (n + msgs.length) + 1, by omega, ?_⟩
    rw [turns_of_le (by omega), turn, if_neg (by omega), if_pos (by omega)]

def one : List (Msg Nat) := [⟨0, 4, 64⟩]

theorem turns_rest (h : 24 ≤ k) : run built (turns one) k = run built (turns one) 24 := by
  have hrest : ∀ i, (run built (turns one) 24).act (turn i) = run built (turns one) 24 := by
    intro i
    unfold turn
    split_ifs
    · exact Pair.ext (funext fun s => by cases s <;> decide +kernel) (funext fun s => by cases s <;> decide +kernel)
    · exact Pair.ext (funext fun s => by cases s <;> decide +kernel) (funext fun s => by cases s <;> decide +kernel)
    · exact Pair.ext (funext fun s => by cases s <;> decide +kernel) (funext fun s => by cases s <;> decide +kernel)
  induction k, h using Nat.le_induction with
  | base => rfl
  | succ k hk ih =>
    change (run built (turns one) k).act (turns one k) = _
    rw [ih, turns_of_le (Nat.le_trans (by decide) hk)]
    exact hrest k

theorem run_turns (s : Side) : (run built (turns one) 24).flight s = [] ∧
    ∀ i < 25, ((run built (turns one) i).node s).ep.msgOutBuf.length ≤ 1 := by cases s <;> decide +kernel

theorem fair_turns : Fair built (turns one) where
  ticked s n := by
    obtain ⟨k, hk, htick⟩ := turns_tick one s n
    exact ⟨k, hk, fun _ => ⟨_, _, htick⟩⟩
  sent s n := by
    obtain ⟨k, hk, htick⟩ := turns_tick one s n
    exact ⟨k, hk, fun _ => ⟨_, _, htick, 0, Nat.one_pos, rfl⟩⟩
  arrived s n f _ := by
    refine ⟨max n 24, Nat.le_max_left .., ?_⟩
    rw [turns_rest (Nat.le_max_right ..), (run_turns s).1]
    exact not_mem_nil
  delivered s n := by
    obtain ⟨k, hk, htick⟩ := turns_tick one s n
    exact ⟨k, hk, fun _ => ⟨_, _, htick, rfl⟩⟩

theorem smooth_turns : Smooth built (turns one) := by
  intro s k _ _ _
  change _ ≤ 1
  rcases Nat.lt_or_ge k 24 with hlt | hge
  · exact (run_turns s).2 k (Nat.lt_succ_of_lt hlt)
  · rw [turns_rest hge]
    exact (run_turns s).2 24 (Nat.lt_succ_self 24)

theorem exactly_once_turns : ∃ k, ⟨0, 4, 64⟩ ∈ ((run built (turns one) k).node .right).delivered := by
  obtain ⟨k, -, h⟩ := (exactly_once built (turns one)).all fair_turns smooth_turns (fun _ => Nat.two_pos) 1
    .left .right (by decide)
    ⟨0, 4, 64⟩ (by decide)
  exact ⟨k, h⟩

/-- A message that waits in an end point with too many is never delivered. -/
theorem wedged {a : Side} {n : Nat} (h : (cfg a).numOutputChannels < ((run cfg acts n).node a).ep.msgOutBuf.length) (k : Nat)
    (hk : n ≤ k) :
    ((run cfg acts k).node a).converted = ((run cfg acts n).node a).converted ∧
      ((run cfg acts n).node a).ep.msgOutBuf <+: ((run cfg acts k).node a).ep.msgOutBuf := by
  induction k, hk using Nat.le_induction with
  | base => exact ⟨rfl, prefix_rfl⟩
  | succ k _ ih =>
    change (((run cfg acts k).act (acts k)).node a).converted = _ ∧
      _ <+: (((run cfg acts k).act (acts k)).node a).ep.msgOutBuf
    rcases node_act (run cfg acts k) (acts k) a with heq | ⟨b, heq⟩ <;> rw [heq]
    · exact ih
    · obtain ⟨hconv, hmsgs⟩ := Node.wedged (Nat.lt_of_lt_of_le h ih.2.length_le) [b]
      exact ⟨hconv.trans ih.1, ih.2.trans hmsgs⟩

theorem delivered_converted {a b : Side} (hab : a ≠ b) (k : Nat) :
    ∀ m ∈ ((run cfg acts k).node b).delivered, m ∈ ((run cfg acts k).node a).converted :=
  fun m hm => (Linked.run cfg acts k a b hab).assembly.known m (mem_append_right _ (mem_append_left _ hm))

/-- The left side accepts two messages before its first tick, and none is ever delivered, whatever happens next. -/
theorem never_delivered :
    ((run built (turns [⟨0, 4, 64⟩, ⟨1, 4, 64⟩]) 2).node .left).accepted = [⟨0, 4, 64⟩, ⟨1, 4, 64⟩] ∧
    ∀ acts : Nat → Act Nat, acts 0 = .send .left ⟨0, 4, 64⟩ → acts 1 = .send .left ⟨1, 4, 64⟩ →
      ∀ k, 2 ≤ k → ((run built acts k).node .left).accepted ≠ [] ∧ ((run built acts k).node .right).delivered = [] := by
  refine ⟨by decide, fun acts h0 h1 k hk => ?_⟩
  have htwo : run built acts 2 = run built (turns [⟨0, 4, 64⟩, ⟨1, 4, 64⟩]) 2 := by
    change (Pair.act {} (acts 0)).act (acts 1) = _
    rw [h0, h1]
    rfl
  have hmany : (built .left).numOutputChannels < ((run built acts 2).node .left).ep.msgOutBuf.length := by
    rw [htwo]
    decide
  constructor
  · have hpre := (accepted_mono built acts .left hk).length_le
    rw [htwo] at hpre
    exact ne_nil_of_length_pos (Nat.lt_of_lt_of_le (by decide) hpre)
  · refine eq_nil_iff_forall_not_mem.mpr fun m hm => ?_
    have hconv := delivered_converted (a := .left) (by decide) k m hm
    rw [(wedged hmany k hk).1, htwo] at hconv
    exact not_mem_nil hconv

end Pair

end Akita.Noc.Switching
