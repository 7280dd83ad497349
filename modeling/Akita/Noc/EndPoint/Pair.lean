import Akita.Noc.EndPoint.Assembly
import Akita.Queue

/-!
# Two end points

A pair of end points with a medium between them that delivers each flit once, in any order.

* `Pair.act` : a side sends a message, is ticked, or gets a flit from the medium;
* `Link` : what holds between a sender and a receiver in every state of a run;
* `Pair.Linked.run` : in every state of a run, each side is a sender to the other.
-/

namespace Akita.Noc.Switching
open Sim Function
open List hiding getElem?_eq_some_iff

variable {π : Type}

inductive Side
  | left
  | right
deriving DecidableEq

def Side.other : Side → Side
  | left => right
  | right => left

@[ext]
structure Pair (cfg : Side → Config π) where
  node : ∀ s, Node (cfg s) := fun _ => {}
  /-- the flits that the medium has for each side -/
  flight : Side → List (Flit π) := fun _ => []

namespace Pair

variable {cfg : Side → Config π}

/-- The messages of a side have IDs of their own. -/
def send (p : Pair cfg) (s : Side) (msg : Msg π) : Pair cfg :=
  if msg.id ∈ (p.node s).accepted.map Msg.id then p
  else { p with node := update p.node s ((p.node s).send msg) }

/-- The medium takes what is sent. -/
def tick (p : Pair cfg) (s : Side) (net dev : Nat → Bool) : Pair cfg :=
  { node := update p.node s ((p.node s).tick net dev)
    flight := update p.flight s.other
      (p.flight s.other ++ ((p.node s).tick net dev).sent.drop (p.node s).sent.length) }

/-- The medium delivers one of the flits it has, when the port has room. -/
def arrive (p : Pair cfg) (s : Side) (i : Nat) : Pair cfg :=
  match (p.flight s)[i]? with
  | none => p
  | some flit =>
    match (p.node s).arrive flit with
    | none => p
    | some n => { node := update p.node s n, flight := update p.flight s ((p.flight s).eraseIdx i) }

inductive Act (π : Type)
  | send (s : Side) (msg : Msg π)
  | tick (s : Side) (net dev : Nat → Bool)
  | arrive (s : Side) (i : Nat)

def act (p : Pair cfg) : Act π → Pair cfg
  | .send s msg => p.send s msg
  | .tick s net dev => p.tick s net dev
  | .arrive s i => p.arrive s i

def run (cfg : Side → Config π) (acts : Nat → Act π) : Nat → Pair cfg
  | 0 => {}
  | k + 1 => (run cfg acts k).act (acts k)

end Pair

/-! ## A sender and a receiver -/

/-- What holds of a sender `x`, the flits on the way and the receiver `y`. -/
structure Link {cfg cfg' : Config π} (x : Node cfg) (flight : List (Flit π)) (y : Node cfg') : Prop where
  ordered : x.Ordered
  distinct : (x.accepted.map Msg.id).Nodup
  flits : (flight ++ (y.ep.networkPort.elements ++ y.received)).Perm x.sent
  assembly : Assembly cfg x.converted y.received y.ep.assemblingMsgs (y.delivered ++ y.ep.assembledMsgs)

namespace Link

variable {cfg cfg' : Config π} {x : Node cfg} {flight : List (Flit π)} {y : Node cfg'}

theorem new : Link ({} : Node cfg) [] ({} : Node cfg') := ⟨.new, nodup_nil, List.Perm.refl _, .nil⟩

theorem converted_distinct (h : Link x flight y) : (x.converted.map Msg.id).Nodup := by
  have hids := h.distinct
  rw [← h.ordered.msgs, map_append] at hids
  exact (nodup_append.mp hids).1

theorem converted_accepted (h : Link x flight y) : ∀ m ∈ x.converted, m ∈ x.accepted := by
  intro m hm
  rw [← h.ordered.msgs]
  exact mem_append_left _ hm

/-- The flits of the receiver are flits of the messages that the sender has turned into flits. -/
theorem subperm (h : Link x flight y) :
    (y.ep.networkPort.elements ++ y.received).Subperm (x.converted.flatMap cfg.msgToFlits) := by
  have hsent : x.sent.Subperm (x.converted.flatMap cfg.msgToFlits) := by
    rw [← h.ordered.flits]
    exact (sublist_append_left ..).subperm
  exact ((sublist_append_right ..).subperm.trans h.flits.subperm).trans hsent

theorem count_le (h : Link x flight y) {m : Msg π} (hm : m ∈ x.converted) :
    countOf m.id (y.ep.networkPort.elements ++ y.received) ≤ cfg.numFlit m :=
  (h.subperm.countP_le _).trans_eq (countOf_flits h.converted_distinct hm)

theorem flit_of_mem (h : Link x flight y) {f : Flit π} (hf : f ∈ y.ep.networkPort.elements ++ y.received) :
    f.msg ∈ x.converted ∧ f.numFlitInMsg = cfg.numFlit f.msg := by
  obtain ⟨_, hm, hf⟩ := mem_flatMap.mp (h.subperm.subset hf)
  obtain ⟨_, -, rfl⟩ := mem_map.mp hf
  exact ⟨hm, rfl⟩

/-! ### The steps of the sender -/

theorem send (h : Link x flight y) {msg : Msg π} (hnew : msg.id ∉ x.accepted.map Msg.id) : Link (x.send msg) flight y := by
  have hord : (x.send msg).Ordered := h.ordered.act (.send msg)
  rcases x.send_cases msg with heq | ⟨-, heq⟩
  · rw [heq]
    exact h
  · rw [heq] at hord ⊢
    refine ⟨hord, ?_, h.flits, h.assembly⟩
    change ((x.accepted ++ [msg]).map Msg.id).Nodup
    rw [map_append]
    exact nodup_append_comm.mp (nodup_cons.mpr ⟨hnew, h.distinct⟩)

theorem sender_tick (h : Link x flight y) (net dev : Nat → Bool) :
    Link (x.tick net dev) (flight ++ (x.tick net dev).sent.drop x.sent.length) y := by
  have hsent := (x.tick_flits net dev).1
  refine ⟨h.ordered.act (.tick net dev), h.distinct, ?_, h.assembly.mono fun m hm => mem_append_left _ hm⟩
  rw [hsent, drop_left, append_assoc]
  exact (List.Perm.append_left _ perm_append_comm).trans (by rw [← append_assoc]; exact h.flits.append_right _)

theorem sender_arrive (h : Link x flight y) {flit : Flit π} {n : Node cfg} (hn : x.arrive flit = some n) :
    Link n flight y := by
  unfold Node.arrive at hn
  split at hn
  · rw [← Option.some.inj hn]
    exact ⟨⟨h.ordered.msgs, h.ordered.flits, h.ordered.room⟩, h.distinct, h.flits, h.assembly⟩
  · cases hn

/-! ### The steps of the receiver -/

theorem receiver_send (h : Link x flight y) (msg : Msg π) : Link x flight (y.send msg) := by
  rcases y.send_cases msg with heq | ⟨-, heq⟩ <;> rw [heq]
  · exact h
  · exact ⟨h.ordered, h.distinct, h.flits, h.assembly⟩

theorem receiver_arrive (h : Link x flight y) {i : Nat} {flit : Flit π} (hflit : flight[i]? = some flit) {n : Node cfg'}
    (hn : y.arrive flit = some n) : Link x (flight.eraseIdx i) n := by
  unfold Node.arrive at hn
  split at hn
  · rw [← Option.some.inj hn]
    refine ⟨h.ordered, h.distinct, ?_, h.assembly⟩
    obtain ⟨hi, hget⟩ := List.getElem?_eq_some_iff.mp hflit
    change (flight.eraseIdx i ++ ((y.ep.networkPort.elements ++ [flit]) ++ y.received)).Perm x.sent
    refine List.Perm.trans ?_ h.flits
    have hperm : (flit :: flight.eraseIdx i).Perm flight := by
      rw [← hget]
      exact getElem_cons_eraseIdx_perm hi
    rw [append_assoc, singleton_append]
    exact ((perm_middle.append_left _).trans perm_middle).trans (hperm.append_right _)
  · cases hn

theorem receiver_tick (h : Link x flight y) (net dev : Nat → Bool) : Link x flight (y.tick net dev) := by
  have hport : ((y.tick net dev).ep.networkPort.elements ++ (y.tick net dev).received).Perm
      (y.ep.networkPort.elements ++ y.received) := by
    rw [y.tick_networkPort, y.tick_received]
    refine perm_append_comm.trans ?_
    rw [append_assoc, take_append_drop]
    exact perm_append_comm
  have hflits := (hport.append_left flight).trans h.flits
  refine ⟨h.ordered, h.distinct, hflits, ?_⟩
  have htaken : ∀ f ∈ y.ep.networkPort.elements.take cfg'.numInputChannels, f ∈ y.ep.networkPort.elements ++ y.received :=
    fun f hf => mem_append_left _ (mem_of_mem_take hf)
  have hbefore : ∀ m ∈ x.converted, countOf m.id y.received ≤ cfg.numFlit m := by
    intro m hm
    have hle := h.count_le hm
    rw [countOf_append] at hle
    omega
  have hafter : ∀ m ∈ x.converted, countOf m.id (y.received ++ y.ep.networkPort.elements.take cfg'.numInputChannels) ≤
      cfg.numFlit m := by
    intro m hm
    have hle := h.count_le hm
    rw [← take_append_drop cfg'.numInputChannels y.ep.networkPort.elements] at hle
    simp only [countOf_append] at hle ⊢
    omega
  have hnext := (h.assembly.assemble hbefore).arrives (fun f hf => (h.flit_of_mem (htaken f hf)).1)
    (fun f hf => (h.flit_of_mem (htaken f hf)).2) hafter
  rw [y.tick_received, y.tick_assembling, y.tick_delivered, y.tick_assembled, ← append_assoc, append_assoc y.delivered,
    deliverLoop_append]
  exact hnext

/-! ### What a sender and a receiver do together -/

/-- A receiver that has counted a flit of a message knows the message. -/
theorem known (h : Link x flight y) {m : Msg π} (hm : m ∈ x.accepted) (hpos : 0 < countOf m.id y.received) :
    m ∈ y.ep.assemblingMsgs.map MsgToAssemble.msg ++ (y.delivered ++ y.ep.assembledMsgs) := by
  obtain ⟨f, hf, hid⟩ := countOf_pos.mp hpos
  obtain ⟨m', hm', heq⟩ := mem_map.mp (h.assembly.seen f hf)
  have hacc := h.converted_accepted m' (h.assembly.known m' hm')
  rwa [inj_on_of_nodup_map h.distinct hm hacc (by rw [heq, hid])]

end Link

namespace Pair

variable {cfg : Side → Config π}

theorem other_eq {a b : Side} (h : a ≠ b) : a.other = b := by
  cases a <;> cases b <;> first | rfl | exact absurd rfl h

theorem eq_or_eq {a b : Side} (h : a ≠ b) (s : Side) : s = a ∨ s = b := by
  cases a <;> cases b <;> cases s <;> first | exact .inl rfl | exact .inr rfl | exact absurd rfl h

/-- Each side is a sender to the other. -/
def Linked (p : Pair cfg) : Prop := ∀ a b, a ≠ b → Link (p.node a) (p.flight b) (p.node b)

variable {p : Pair cfg}

theorem Linked.send (h : p.Linked) (s : Side) (msg : Msg π) : (p.send s msg).Linked := by
  intro a b hab
  have hlink := h a b hab
  unfold Pair.send
  split
  · exact hlink
  · rename_i hnew
    change Link (update p.node s _ a) (p.flight b) (update p.node s _ b)
    rcases eq_or_eq hab s with rfl | rfl
    · rw [update_self, update_of_ne hab.symm]
      exact hlink.send hnew
    · rw [update_self, update_of_ne hab]
      exact hlink.receiver_send msg

theorem Linked.tick (h : p.Linked) (s : Side) (net dev : Nat → Bool) : (p.tick s net dev).Linked := by
  intro a b hab
  have hlink := h a b hab
  change Link (update p.node s _ a) (update p.flight s.other _ b) (update p.node s _ b)
  rcases eq_or_eq hab s with rfl | rfl
  · rw [other_eq hab, update_self, update_self, update_of_ne hab.symm]
    exact hlink.sender_tick net dev
  · rw [other_eq hab.symm, update_self, update_of_ne hab, update_of_ne hab.symm]
    exact hlink.receiver_tick net dev

theorem arrive_cases (p : Pair cfg) (s : Side) (i : Nat) : p.arrive s i = p ∨
    ∃ flit n, (p.flight s)[i]? = some flit ∧ (p.node s).arrive flit = some n ∧
      p.arrive s i = { node := update p.node s n, flight := update p.flight s ((p.flight s).eraseIdx i) } := by
  unfold arrive
  split
  · exact .inl rfl
  · rename_i flit hflit
    split
    · exact .inl rfl
    · rename_i n hn
      exact .inr ⟨flit, n, hflit, hn, rfl⟩

theorem Linked.arrive (h : p.Linked) (s : Side) (i : Nat) : (p.arrive s i).Linked := by
  intro a b hab
  have hlink := h a b hab
  rcases p.arrive_cases s i with heq | ⟨_, n, hflit, hn, heq⟩
  · rw [heq]
    exact hlink
  · rw [heq]
    change Link (update p.node s n a) (update p.flight s _ b) (update p.node s n b)
    rcases eq_or_eq hab s with rfl | rfl
    · rw [update_self, update_of_ne hab.symm, update_of_ne hab.symm]
      exact hlink.sender_arrive hn
    · rw [update_self, update_self, update_of_ne hab]
      exact hlink.receiver_arrive hflit hn

theorem Linked.act (h : p.Linked) (a : Act π) : (p.act a).Linked := by
  cases a with
  | send s msg => exact h.send s msg
  | tick s net dev => exact h.tick s net dev
  | arrive s i => exact h.arrive s i

theorem Linked.run (cfg : Side → Config π) (acts : Nat → Act π) (k : Nat) : (Pair.run cfg acts k).Linked := by
  induction k with
  | zero => exact fun a b _ => Link.new
  | succ k ih => exact ih.act (acts k)

theorem node_tick (p : Pair cfg) (s : Side) (net dev : Nat → Bool) : (p.tick s net dev).node s = (p.node s).tick net dev := by
  change update p.node s _ s = _
  rw [update_self]

/-- A side stays as it is, or does what an end point does. -/
theorem node_act (p : Pair cfg) (a : Act π) (s : Side) :
    (p.act a).node s = p.node s ∨ ∃ b : Node.Act π, (p.act a).node s = (p.node s).act b := by
  cases a with
  | send s' msg =>
    change (p.send s' msg).node s = _ ∨ ∃ b, (p.send s' msg).node s = _
    unfold Pair.send
    split
    · exact .inl rfl
    · rcases eq_or_ne s s' with rfl | hne
      · exact .inr ⟨.send msg, update_self ..⟩
      · exact .inl (update_of_ne hne ..)
  | tick s' net dev =>
    rcases eq_or_ne s s' with rfl | hne
    · exact .inr ⟨.tick net dev, p.node_tick s net dev⟩
    · exact .inl (update_of_ne hne ..)
  | arrive s' i =>
    change (p.arrive s' i).node s = _ ∨ ∃ b, (p.arrive s' i).node s = _
    rcases p.arrive_cases s' i with heq | ⟨flit, n, -, hn, heq⟩
    · exact .inl (by rw [heq])
    · rw [heq]
      rcases eq_or_ne s s' with rfl | hne
      · refine .inr ⟨.arrive flit, (update_self ..).trans ?_⟩
        change n = ((p.node s).arrive flit).getD (p.node s)
        rw [hn]
        rfl
      · exact .inl (update_of_ne hne ..)

end Pair

end Akita.Noc.Switching
