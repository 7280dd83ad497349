import Akita.Noc.EndPoint

/-!
# The outgoing side of an end point

* `Node.Ordered`, `Node.Ordered.run` : what was accepted is sent, waits as flits or waits as a message, in this
  order;
* `Node.tick_of_le`, `Node.tick_of_gt` : a tick turns all the waiting messages into flits, or none when they are more than the
  output channels;
* `Node.outgoing_drains` : when no tick finds more messages than output channels, every message is turned into flits by the
  next tick and its flits leave after enough ticks that the network accepts;
* `Node.wedged` : a tick that finds more finds them for ever.
-/

namespace Akita.Noc.Switching
open Sim List

variable {π : Type} {cfg : Config π}

/-! ## The loops -/

theorem sendLoop_append (net : Nat → Bool) (k i : Nat) (flits : List (Flit π)) :
    (sendLoop net k i flits).1 ++ (sendLoop net k i flits).2 = flits := by
  induction k generalizing i flits with
  | zero => rfl
  | succ _ ih =>
    cases flits with
    | nil => rfl
    | cons =>
      unfold sendLoop
      split
      · rw [cons_append, ih]
      · exact ih ..

/-- A network that accepts every flit gets one for each output channel. -/
theorem sendLoop_of_accepting {net : Nat → Bool} {k i : Nat} (h : ∀ j, i ≤ j → j < i + k → net j = true)
    (flits : List (Flit π)) : (sendLoop net k i flits).1 = flits.take k := by
  induction k generalizing i flits with
  | zero => rw [take_zero]; rfl
  | succ _ ih =>
    cases flits with
    | nil => rfl
    | cons flit flits =>
      unfold sendLoop
      rw [if_pos (h i (le_refl i) (by omega)), take_succ_cons]
      exact congrArg (flit :: ·) (ih (fun j hj hj' => h j (by omega) (by omega)) flits)

theorem prepareLoop_of_le {msgs : List (Msg π)} (h : msgs.length ≤ cfg.numOutputChannels) (flits : List (Flit π)) :
    prepareLoop cfg msgs flits = ([], flits ++ msgs.flatMap cfg.msgToFlits) := by
  induction msgs generalizing flits with
  | nil => rw [flatMap_nil, append_nil]; rfl
  | cons _ _ ih =>
    unfold prepareLoop
    rw [if_neg (by omega), ih (Nat.le_of_succ_le h), flatMap_cons, append_assoc]

theorem prepareLoop_of_gt {msgs : List (Msg π)} (h : cfg.numOutputChannels < msgs.length) (flits : List (Flit π)) :
    prepareLoop cfg msgs flits = (msgs, flits) := by
  cases msgs with
  | nil => exact absurd h (Nat.not_lt_zero _)
  | cons =>
    unfold prepareLoop
    rw [if_pos h]

theorem EndPoint.recvLoop_frame (k : Nat) (ep : EndPoint cfg) :
    (recvLoop k ep).2.msgOutBuf = ep.msgOutBuf ∧ (recvLoop k ep).2.flitsToSend = ep.flitsToSend ∧
      (recvLoop k ep).2.assembledMsgs = ep.assembledMsgs := by
  induction k generalizing ep with
  | zero => exact ⟨rfl, rfl, rfl⟩
  | succ _ ih =>
    unfold recvLoop
    split
    · exact ⟨rfl, rfl, rfl⟩
    · exact ih _

theorem Config.numFlit_pos (cfg : Config π) (msg : Msg π) : 0 < cfg.numFlit msg := by
  unfold numFlit
  split
  · exact Nat.succ_pos _
  · exact Nat.one_pos

@[simp] theorem Config.length_msgToFlits (cfg : Config π) (msg : Msg π) : (cfg.msgToFlits msg).length = cfg.numFlit msg := by
  rw [msgToFlits, length_map, length_range]

namespace Node

/-- `Send` refuses the message, or it comes last. -/
theorem send_cases (n : Node cfg) (msg : Msg π) : n.send msg = n ∨ n.ep.msgOutBuf.length < cfg.msgOutBufSize ∧
    n.send msg = { n with ep := { n.ep with msgOutBuf := n.ep.msgOutBuf ++ [msg] }, accepted := n.accepted ++ [msg] } := by
  unfold send EndPoint.send
  rcases Nat.lt_or_ge n.ep.msgOutBuf.length cfg.msgOutBufSize with hlt | hge
  · rw [if_neg (by omega)]
    exact .inr ⟨hlt, rfl⟩
  · rw [if_pos hge, if_neg Bool.false_ne_true, append_nil]
    exact .inl rfl

/-! ## A tick -/

variable (n : Node cfg) (net dev : Nat → Bool)

theorem tick_flits : (n.tick net dev).sent = n.sent ++ (sendLoop net cfg.numOutputChannels 0 n.ep.flitsToSend).1 ∧
    (n.tick net dev).ep.msgOutBuf =
    (prepareLoop cfg n.ep.msgOutBuf (sendLoop net cfg.numOutputChannels 0 n.ep.flitsToSend).2).1 ∧
    (n.tick net dev).ep.flitsToSend =
    (prepareLoop cfg n.ep.msgOutBuf (sendLoop net cfg.numOutputChannels 0 n.ep.flitsToSend).2).2 := by
  refine ⟨rfl, ?_, ?_⟩
  · exact (EndPoint.recvLoop_frame cfg.numInputChannels _).1
  · exact (EndPoint.recvLoop_frame cfg.numInputChannels _).2.1

variable {n}

/-- A tick that finds no more messages than output channels turns them all into flits. -/
theorem tick_of_le (h : n.ep.msgOutBuf.length ≤ cfg.numOutputChannels) :
    (n.tick net dev).ep.msgOutBuf = [] ∧ (n.tick net dev).converted = n.converted ++ n.ep.msgOutBuf ∧
      (n.tick net dev).ep.flitsToSend =
        (sendLoop net cfg.numOutputChannels 0 n.ep.flitsToSend).2 ++ n.ep.msgOutBuf.flatMap cfg.msgToFlits := by
  obtain ⟨-, hmsgs, hflits⟩ := n.tick_flits net dev
  rw [prepareLoop_of_le h] at hmsgs hflits
  refine ⟨hmsgs, ?_, hflits⟩
  change n.converted ++ n.ep.msgOutBuf.take (n.ep.msgOutBuf.length - (n.tick net dev).ep.msgOutBuf.length) = _
  rw [hmsgs, length_nil, Nat.sub_zero, take_length]

/-- A tick that finds more turns none into flits. -/
theorem tick_of_gt (h : cfg.numOutputChannels < n.ep.msgOutBuf.length) :
    (n.tick net dev).ep.msgOutBuf = n.ep.msgOutBuf ∧ (n.tick net dev).converted = n.converted ∧
      (n.tick net dev).ep.flitsToSend = (sendLoop net cfg.numOutputChannels 0 n.ep.flitsToSend).2 := by
  obtain ⟨-, hmsgs, hflits⟩ := n.tick_flits net dev
  rw [prepareLoop_of_gt h] at hmsgs hflits
  refine ⟨hmsgs, ?_, hflits⟩
  change n.converted ++ n.ep.msgOutBuf.take (n.ep.msgOutBuf.length - (n.tick net dev).ep.msgOutBuf.length) = _
  rw [hmsgs, Nat.sub_self, take_zero, append_nil]

/-! ## Runs -/

/-- What happens to an end point: a device port sends, the engine ticks it, the network delivers a flit. -/
inductive Act (π : Type)
  | send (msg : Msg π)
  | tick (net dev : Nat → Bool)
  | arrive (flit : Flit π)

def act (n : Node cfg) : Act π → Node cfg
  | .send msg => n.send msg
  | .tick net dev => n.tick net dev
  | .arrive flit => (n.arrive flit).getD n

def run (n : Node cfg) (acts : List (Act π)) : Node cfg := acts.foldl act n

/-- The flit is refused, or it comes last in the network port. -/
theorem arrive_cases (n : Node cfg) (flit : Flit π) : n.act (.arrive flit) = n ∨ n.ep.networkPort.canPush = true ∧
    n.act (.arrive flit) = { n with ep := { n.ep with networkPort := ⟨n.ep.networkPort.elements ++ [flit]⟩ } } := by
  change (n.arrive flit).getD n = n ∨ _ ∧ (n.arrive flit).getD n = _
  unfold arrive
  by_cases hroom : n.ep.networkPort.canPush = true
  · exact .inr ⟨hroom, by rw [if_pos hroom]; rfl⟩
  · exact .inl (by rw [if_neg hroom]; rfl)

/-- No tick begins with more messages than output channels. -/
def Smooth : Node cfg → List (Act π) → Prop
  | _, [] => True
  | n, a :: acts => (∀ net dev, a = .tick net dev → n.ep.msgOutBuf.length ≤ cfg.numOutputChannels) ∧ Smooth (n.act a) acts

/-- A tick whose network accepts every flit it is offered. -/
def Act.accepts (cfg : Config π) : Act π → Bool
  | .tick net _ => (range cfg.numOutputChannels).all net
  | _ => false

def accepting (cfg : Config π) (acts : List (Act π)) : Nat := acts.countP (Act.accepts cfg)

theorem accepting_cons (a : Act π) (acts : List (Act π)) :
    accepting cfg (a :: acts) = accepting cfg acts + (a.accepts cfg).toNat := by
  unfold accepting
  rw [countP_cons]
  cases a.accepts cfg <;> rfl

/-- What was accepted is kept in order, and the messages never exceed the size that `CanSend` announces. -/
structure Ordered (n : Node cfg) : Prop where
  msgs : n.converted ++ n.ep.msgOutBuf = n.accepted
  flits : n.sent ++ n.ep.flitsToSend = n.converted.flatMap cfg.msgToFlits
  room : n.ep.msgOutBuf.length ≤ cfg.msgOutBufSize

theorem Ordered.new : Ordered ({} : Node cfg) := ⟨rfl, rfl, Nat.zero_le _⟩

theorem Ordered.act (h : n.Ordered) (a : Act π) : (n.act a).Ordered := by
  cases a with
  | send msg =>
    change (n.send msg).Ordered
    rcases n.send_cases msg with heq | ⟨_, heq⟩
    · rw [heq]
      exact h
    · rw [heq]
      refine ⟨?_, h.flits, ?_⟩
      · change n.converted ++ (n.ep.msgOutBuf ++ [msg]) = n.accepted ++ [msg]
        rw [← append_assoc, h.msgs]
      · change (n.ep.msgOutBuf ++ [msg]).length ≤ _
        rw [length_append, length_singleton]
        omega
  | arrive flit =>
    rcases n.arrive_cases flit with heq | ⟨-, heq⟩
    · rw [heq]
      exact h
    · rw [heq]
      exact ⟨h.msgs, h.flits, h.room⟩
  | tick net dev =>
    have hsent : (n.tick net dev).sent = n.sent ++ (sendLoop net cfg.numOutputChannels 0 n.ep.flitsToSend).1 := rfl
    have hflits := h.flits
    rw [← sendLoop_append net cfg.numOutputChannels 0 n.ep.flitsToSend, ← append_assoc, ← hsent] at hflits
    change (n.tick net dev).Ordered
    rcases Nat.lt_or_ge cfg.numOutputChannels n.ep.msgOutBuf.length with hgt | hle
    · obtain ⟨hmsgs, hconv, hrest⟩ := tick_of_gt net dev hgt
      refine ⟨?_, ?_, ?_⟩
      · rw [hmsgs, hconv]
        exact h.msgs
      · rw [hrest, hconv]
        exact hflits
      · rw [hmsgs]
        exact h.room
    · obtain ⟨hmsgs, hconv, hrest⟩ := tick_of_le net dev hle
      refine ⟨?_, ?_, ?_⟩
      · rw [hmsgs, hconv, append_nil]
        exact h.msgs
      · rw [hrest, hconv, flatMap_append, ← hflits, append_assoc]
      · rw [hmsgs]
        exact Nat.zero_le _

theorem Ordered.run (h : n.Ordered) (acts : List (Act π)) : (n.run acts).Ordered := by
  induction acts generalizing n with
  | nil => exact h
  | cons a _ ih => exact ih (h.act a)

/-- The flits of `msgs` that are not yet sent, when these are the messages accepted first. -/
def behind (msgs : List (Msg π)) (n : Node cfg) : Nat := (msgs.flatMap cfg.msgToFlits).length - n.sent.length

/-- The flits that wait, with those of the messages that wait. -/
def waiting (n : Node cfg) : Nat := n.ep.flitsToSend.length + (n.ep.msgOutBuf.flatMap cfg.msgToFlits).length

theorem accepted_act (n : Node cfg) (a : Act π) : n.accepted <+: (n.act a).accepted := by
  cases a with
  | send => exact prefix_append ..
  | tick => exact prefix_rfl
  | arrive flit =>
    rcases n.arrive_cases flit with heq | ⟨-, heq⟩ <;> rw [heq]

theorem sent_act (n : Node cfg) (a : Act π) : n.sent <+: (n.act a).sent := by
  cases a with
  | send => exact prefix_rfl
  | tick => exact prefix_append ..
  | arrive flit =>
    rcases n.arrive_cases flit with heq | ⟨-, heq⟩ <;> rw [heq]

theorem converted_act (n : Node cfg) (a : Act π) : n.converted <+: (n.act a).converted := by
  cases a with
  | send => exact prefix_rfl
  | tick => exact prefix_append ..
  | arrive flit =>
    rcases n.arrive_cases flit with heq | ⟨-, heq⟩ <;> rw [heq]

theorem accepted_run (n : Node cfg) (acts : List (Act π)) : n.accepted <+: (n.run acts).accepted := by
  induction acts generalizing n with
  | nil => exact prefix_rfl
  | cons a _ ih => exact (accepted_act n a).trans (ih _)

theorem converted_run (n : Node cfg) (acts : List (Act π)) : n.converted <+: (n.run acts).converted := by
  induction acts generalizing n with
  | nil => exact prefix_rfl
  | cons a _ ih => exact (converted_act n a).trans (ih _)

theorem behind_act (msgs : List (Msg π)) (n : Node cfg) (a : Act π) : (n.act a).behind msgs ≤ n.behind msgs :=
  Nat.sub_le_sub_left (sent_act n a).length_le _

variable {msgs : List (Msg π)}

/-- A tick with an accepting network sends a flit for each output channel, as long as there are some. -/
theorem behind_tick (h : n.Ordered) (hconv : msgs <+: n.converted) {net : Nat → Bool}
    (hnet : (range cfg.numOutputChannels).all net = true) (dev : Nat → Bool) :
    (n.tick net dev).behind msgs ≤ n.behind msgs - cfg.numOutputChannels := by
  obtain ⟨_, hrest⟩ := hconv
  have hlen := congrArg length h.flits
  rw [← hrest, flatMap_append, length_append, length_append] at hlen
  have hsent : (n.tick net dev).sent = n.sent ++ n.ep.flitsToSend.take cfg.numOutputChannels := by
    rw [(n.tick_flits net dev).1, sendLoop_of_accepting]
    intro j _ hj
    exact all_eq_true.mp hnet j (mem_range.mpr (by omega))
  unfold behind
  rw [hsent, length_append, length_take]
  omega

theorem behind_run (h : n.Ordered) (hconv : msgs <+: n.converted) (acts : List (Act π)) :
    (n.run acts).behind msgs ≤ n.behind msgs - cfg.numOutputChannels * accepting cfg acts := by
  induction acts generalizing n with
  | nil => exact le_refl _
  | cons a _ ih =>
    have hrest := ih (h.act a) (hconv.trans (converted_act n a))
    refine hrest.trans ?_
    rw [accepting_cons]
    by_cases ha : a.accepts cfg = true
    · cases a with
      | send | arrive => cases ha
      | tick _ dev =>
        have htick := behind_tick h hconv ha dev
        rw [ha, Bool.toNat_true, Nat.mul_succ, Nat.add_comm, ← Nat.sub_sub]
        exact Nat.sub_le_sub_right htick _
    · rw [Bool.eq_false_iff.mpr ha, Bool.toNat_false, Nat.add_zero]
      exact Nat.sub_le_sub_right (behind_act msgs n a) _

/-- Without a message too many, every accepted message is turned into flits by the next tick, and they leave in turn. -/
theorem behind_smooth (h : n.Ordered) (hmsgs : msgs <+: n.accepted) {acts : List (Act π)} (hsmooth : n.Smooth acts) :
    (n.run acts).behind msgs ≤ n.behind msgs - cfg.numOutputChannels * (accepting cfg acts - 1) ∧
      ((∃ net dev, .tick net dev ∈ acts) → msgs <+: (n.run acts).converted) := by
  induction acts generalizing n with
  | nil =>
    refine ⟨le_refl _, ?_⟩
    rintro ⟨net, dev, hmem⟩
    cases hmem
  | cons a acts ih =>
    obtain ⟨hrest, hconv⟩ := ih (h.act a) (hmsgs.trans (accepted_act n a)) hsmooth.2
    by_cases htick : ∃ net dev, a = .tick net dev
    · obtain ⟨net, dev, rfl⟩ := htick
      have hall : msgs <+: (n.tick net dev).converted := by
        rw [(tick_of_le net dev (hsmooth.1 net dev rfl)).2.1, h.msgs]
        exact hmsgs
      refine ⟨(behind_run (h.act (.tick net dev)) hall acts).trans ?_, fun _ => hall.trans (converted_run _ acts)⟩
      have hone := Bool.toNat_le (Act.accepts cfg (.tick net dev : Act π))
      have hcount : accepting cfg (.tick net dev :: acts) - 1 ≤ accepting cfg acts := by
        rw [accepting_cons]
        omega
      exact (Nat.sub_le_sub_right (behind_act msgs n (.tick net dev)) _).trans
        (Nat.sub_le_sub_left (Nat.mul_le_mul_left _ hcount) _)
    · have hzero : a.accepts cfg = false := by
        cases a with
        | send | arrive => rfl
        | tick net dev => exact absurd ⟨net, dev, rfl⟩ htick
      rw [accepting_cons, hzero, Bool.toNat_false, Nat.add_zero]
      refine ⟨hrest.trans (Nat.sub_le_sub_right (behind_act msgs n a) _), ?_⟩
      rintro ⟨net, dev, hmem⟩
      rcases mem_cons.mp hmem with rfl | hmem
      · exact absurd ⟨net, dev, rfl⟩ htick
      · exact hconv ⟨net, dev, hmem⟩

theorem Ordered.behind_accepted (h : n.Ordered) : n.behind n.accepted = n.waiting := by
  unfold behind waiting
  have hlen := congrArg length h.flits
  rw [length_append] at hlen
  rw [← h.msgs, flatMap_append, length_append]
  omega

/-- Once more messages wait than there are output channels, they wait for ever. -/
theorem wedged (h : cfg.numOutputChannels < n.ep.msgOutBuf.length) (acts : List (Act π)) :
    (n.run acts).converted = n.converted ∧ n.ep.msgOutBuf <+: (n.run acts).ep.msgOutBuf := by
  induction acts generalizing n with
  | nil => exact ⟨rfl, prefix_rfl⟩
  | cons a _ ih =>
    have hstep : (n.act a).converted = n.converted ∧ n.ep.msgOutBuf <+: (n.act a).ep.msgOutBuf := by
      cases a with
      | send msg =>
        change (n.send msg).converted = _ ∧ _ <+: (n.send msg).ep.msgOutBuf
        rcases n.send_cases msg with heq | ⟨-, heq⟩
        · rw [heq]
          exact ⟨rfl, prefix_rfl⟩
        · rw [heq]
          exact ⟨rfl, prefix_append ..⟩
      | arrive flit =>
        rcases n.arrive_cases flit with heq | ⟨-, heq⟩ <;> rw [heq] <;> exact ⟨rfl, prefix_rfl⟩
      | tick net dev =>
        obtain ⟨hmsgs, hconv, -⟩ := tick_of_gt net dev h
        exact ⟨hconv, by change _ <+: (n.tick net dev).ep.msgOutBuf; rw [hmsgs]⟩
    obtain ⟨hconv, hmsgs⟩ := ih (Nat.lt_of_lt_of_le h hstep.2.length_le)
    exact ⟨hconv.trans hstep.1, hstep.2.trans hmsgs⟩

/-- What an end point does with its outgoing messages when no tick finds more of them than output channels; and what it does
when one does. -/
structure Drains (n : Node cfg) : Prop where
  ordered : n.Ordered
  /-- the next tick turns every accepted message into flits -/
  converted : ∀ acts, n.Smooth acts → (∃ net dev, .tick net dev ∈ acts) → n.accepted <+: (n.run acts).converted
  /-- and every accepting tick after it sends a flit for each output channel, until they have all left -/
  sent : ∀ acts, n.Smooth acts → (n.run acts).behind n.accepted ≤ n.waiting - cfg.numOutputChannels * (accepting cfg acts - 1)
  left : ∀ acts, n.Smooth acts → n.waiting ≤ cfg.numOutputChannels * (accepting cfg acts - 1) →
    n.accepted.flatMap cfg.msgToFlits <+: (n.run acts).sent
  /-- a tick that finds too many messages turns none into flits, nor does any later one -/
  wedged : cfg.numOutputChannels < n.ep.msgOutBuf.length → ∀ acts,
    (n.run acts).converted = n.converted ∧ n.ep.msgOutBuf <+: (n.run acts).ep.msgOutBuf

/-- In every state of every run, ticks that find no more messages than output channels drain the end point. -/
theorem outgoing_drains (cfg : Config π) (acts : List (Act π)) : (({} : Node cfg).run acts).Drains := by
  have hord := Ordered.new.run (n := ({} : Node cfg)) acts
  generalize ({} : Node cfg).run acts = n at hord
  have hsent : ∀ acts, n.Smooth acts →
      (n.run acts).behind n.accepted ≤ n.waiting - cfg.numOutputChannels * (accepting cfg acts - 1) := by
    intro acts hacts
    rw [← hord.behind_accepted]
    exact (behind_smooth hord prefix_rfl hacts).1
  refine ⟨hord, fun acts hacts htick => (behind_smooth hord prefix_rfl hacts).2 htick, hsent, fun acts hacts hwait => ?_,
    fun hgt acts => wedged hgt acts⟩
  have hend := hord.run acts
  have hacc : n.accepted <+: (n.run acts).accepted := accepted_run n acts
  have hall : (n.run acts).sent <+: (n.run acts).accepted.flatMap cfg.msgToFlits := by
    rw [← hend.msgs, flatMap_append, ← hend.flits, append_assoc]
    exact prefix_append ..
  have hmine : n.accepted.flatMap cfg.msgToFlits <+: (n.run acts).accepted.flatMap cfg.msgToFlits := by
    obtain ⟨_, hrest⟩ := hacc
    rw [← hrest, flatMap_append]
    exact prefix_append ..
  have hzero := hsent acts hacts
  rw [Nat.sub_eq_zero_of_le hwait, behind] at hzero
  exact prefix_of_prefix_length_le hmine hall (by omega)

/-- An end point as the builder makes it with two input channels. -/
def twoInputs : Config Nat where
  numInputChannels := 2
  numOutputChannels := 1
  flitByteSize := 32
  encodingOverhead := fun bytes => (bytes + 3) / 4
  networkPortBufferSize := 4
  networkPort := 0
  defaultSwitchDst := 1
  devicePorts := [(2, 2)]
  flitByteSize_pos := by decide

def pair : List (Act Nat) := [.send ⟨0, 5, 64⟩, .send ⟨1, 5, 64⟩]

/-- Two messages sent between two ticks never leave. -/
theorem outgoing_wedges : (({} : Node twoInputs).run pair).accepted = [⟨0, 5, 64⟩, ⟨1, 5, 64⟩] ∧
    ∀ acts, (({} : Node twoInputs).run (pair ++ acts)).converted = [] ∧
    2 ≤ (({} : Node twoInputs).run (pair ++ acts)).ep.msgOutBuf.length := by
  refine ⟨rfl, fun acts => ?_⟩
  rw [run, foldl_append]
  obtain ⟨hconv, hmsgs⟩ := wedged (n := ({} : Node twoInputs).run pair) (by decide) acts
  exact ⟨hconv, hmsgs.length_le⟩

end Node

end Akita.Noc.Switching
