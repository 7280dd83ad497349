import Akita.Noc.Switch.Drain

/-!
# Switches forward every flit exactly once

`Switch.switch_conserves` : a run of a switch, whatever arrives, whatever the network accepts and whatever the arbiter
selects, does not panic when each flit that arrives has an output, and keeps the law (`Switch.Law`) in every state that it
reaches.
-/

namespace Akita.Noc.Switching
open Sim Pipelining List

variable {π : Type}

/-! ## Runs do not panic -/

namespace PortComplex

variable {c : PortConfig π}

theorem routeLoop_ok {assign : Flit π → Except String π} {pc : PortComplex c}
    (h : ∀ flit ∈ pc.routeBuffer.elements, ∃ out, assign flit = .ok out) (k : Nat) : ∃ r, pc.routeLoop assign k = .ok r := by
  induction k generalizing pc with
  | zero => exact ⟨_, rfl⟩
  | succ k ih =>
    unfold routeLoop
    split
    · exact ⟨_, rfl⟩
    · next flit hpeek =>
      have hroute := Buffer.peek_eq_some hpeek
      split
      · obtain ⟨out, hout⟩ := h flit (hroute ▸ mem_cons_self)
        rw [hout]
        obtain ⟨r, hrest⟩ : ∃ r, routeLoop assign k { pc with
            routeBuffer := pc.routeBuffer.pop, forwardBuffer := ⟨pc.forwardBuffer.elements ++ [(flit, out)]⟩ } = .ok r :=
          ih fun flit hflit => h flit (hroute ▸ mem_cons_of_mem _ hflit)
        change ∃ r, (routeLoop assign k _ >>= _) = .ok r
        rw [hrest]
        exact ⟨_, rfl⟩
      · exact ⟨_, rfl⟩

theorem startLoop_ok (k : Nat) (pc : PortComplex c) : ∃ r, pc.startLoop k = .ok r := by
  induction k generalizing pc with
  | zero => exact ⟨_, rfl⟩
  | succ k ih =>
    unfold startLoop
    split
    · exact ⟨_, rfl⟩
    · next flit hpeek =>
      split
      · next haccept =>
        obtain ⟨⟨pipeline, routeBuffer⟩, hnext⟩ := PipelineImpl.accept_ok haccept flit
        obtain ⟨r, hrest⟩ := ih { pc with localPort := pc.localPort.pop, pipeline, routeBuffer }
        rw [hnext]
        change ∃ r, (startLoop k _ >>= _) = .ok r
        rw [hrest]
        exact ⟨_, rfl⟩
      · exact ⟨_, rfl⟩

end PortComplex

namespace Switch

variable [DecidableEq π] {cfg : SwitchConfig π} {s s' : Switch cfg} {progress : Bool}

/-- The flit has an output. -/
def Routable (cfg : SwitchConfig π) (flit : Flit π) : Prop := ∃ out, assignFlitOutputBuf cfg flit = .ok out

theorem forPorts_ok {f : ∀ port, PortComplex (cfg.complex port) → Except String (Bool × PortComplex (cfg.complex port))}
    {ports : List π} (hports : ports.Nodup) (hf : ∀ p ∈ ports, ∃ r, f p (s.complex p) = .ok r) :
    ∃ r, forPorts f ports s = .ok r := by
  induction ports generalizing s with
  | nil => exact ⟨_, rfl⟩
  | cons port ports ih =>
    obtain ⟨hport, hnodup⟩ := nodup_cons.mp hports
    obtain ⟨⟨_, pc⟩, hbody⟩ := hf port mem_cons_self
    obtain ⟨r, hrest⟩ : ∃ r, forPorts f ports (s.setComplex port pc) = .ok r := by
      refine ih hnodup fun p hp => ?_
      have hne : p ≠ port := by
        rintro rfl
        exact hport hp
      rw [complex_setComplex_of_ne s pc hne]
      exact hf p (mem_cons_of_mem _ hp)
    unfold forPorts
    rw [hbody]
    change ∃ r, (forPorts f ports (s.setComplex port pc) >>= _) = .ok r
    rw [hrest]
    exact ⟨_, rfl⟩

/-- The flits that have arrived have outputs. -/
def Routed (s : Switch cfg) : Prop := ∀ p, ∀ flit ∈ (s.complex p).arrived, Routable cfg flit

theorem arrived_step {op : Op π} (hop : ∀ port flit, op ≠ .arrive port flit) (h : s.step op = .ok s') (p : π) :
    (s'.complex p).arrived = (s.complex p).arrived := by
  cases op with
  | arrive port flit => exact absurd rfl (hop port flit)
  | sendOut =>
    obtain ⟨⟨b, t⟩, ht, h⟩ := eq_ok_of_bind h
    cases h
    obtain ⟨_, _, -, -, hsame⟩ := (Sent.of_sendOut ht).sends p
    rw [hsame]
  | forward selected =>
    cases h
    obtain ⟨_, hnew⟩ := Forwarded.forward selected s
    rw [hnew.same p]
  | route =>
    obtain ⟨⟨b, t⟩, ht, h⟩ := eq_ok_of_bind h
    cases h
    exact ((passed_route ht).2 p).arrived
  | movePipeline =>
    obtain ⟨⟨b, t⟩, ht, h⟩ := eq_ok_of_bind h
    cases h
    exact ((passed_movePipeline ht).2 p).arrived
  | startProcessing =>
    obtain ⟨⟨_, _⟩, ht, h⟩ := eq_ok_of_bind h
    cases h
    exact ((passed_startProcessing ht).2 p).arrived

theorem arrived_tick {net : π → Nat → Bool} {selected : List π} (h : s.tick net selected = .ok (progress, s')) (p : π) :
    (s'.complex p).arrived = (s.complex p).arrived := by
  refine of_foldlM (P := fun t : Switch cfg => (t.complex p).arrived = (s.complex p).arrived) (tick_run h) rfl
    fun t op hop t' ht hstep => (arrived_step (fun port flit hop' => ?_) hstep p).trans ht
  rw [hop', stages] at hop
  simp at hop

theorem Routed.arrive (hr : s.Routed) {port : π} {flit : Flit π} (hflit : Routable cfg flit) :
    (s.arrive port flit).Routed := by
  unfold Switch.arrive
  dsimp only
  split
  · intro p x hx
    by_cases hp : port = p
    · subst hp
      rw [complex_setComplex_self] at hx
      rcases mem_append.mp hx with hold | hnew
      · exact hr port x hold
      · rw [mem_singleton.mp hnew]
        exact hflit
    · rw [complex_setComplex_of_ne s _ (Ne.symm hp)] at hx
      exact hr p x hx
  · exact hr

theorem Inv.route_ok (hi : s.Inv) (hr : s.Routed) : ∃ r, s.route = .ok r := by
  refine forPorts_ok cfg.nodup fun p _ => PortComplex.routeLoop_ok (fun flit hflit => hr p flit ?_) _
  rw [← (hi.conserved p).mem_iff, PortComplex.inside]
  exact mem_append_right _ (mem_append_right _ (mem_append_left _ hflit))

theorem Inv.step_ok {op : Op π} (hi : s.Inv) (hr : s.Routed) (hop : ∀ port flit, op = .arrive port flit → Routable cfg flit) :
    ∃ s', s.step op = .ok s' ∧ s'.Routed := by
  have hrouted : ∀ s', (∀ port flit, op ≠ .arrive port flit) → s.step op = .ok s' → s'.Routed := by
    intro s' hne h p flit hflit
    rw [arrived_step hne h p] at hflit
    exact hr p flit hflit
  have hsucceeds : (∀ port flit, op ≠ .arrive port flit) → (∃ s', s.step op = .ok s') →
      ∃ s', s.step op = .ok s' ∧ s'.Routed := by
    rintro hne ⟨s', h⟩
    exact ⟨s', h, hrouted s' hne h⟩
  cases op with
  | arrive port flit => exact ⟨_, rfl, hr.arrive (hop port flit rfl)⟩
  | sendOut net =>
    obtain ⟨r, h⟩ : ∃ r, s.sendOut net = .ok r := forPorts_ok cfg.nodup fun p _ => ⟨_, rfl⟩
    refine hsucceeds (fun _ _ hne => by cases hne) ⟨r.2, ?_⟩
    change (s.sendOut net >>= _) = _
    rw [h]
    rfl
  | forward => exact hsucceeds (fun _ _ hne => by cases hne) ⟨_, rfl⟩
  | route =>
    obtain ⟨r, h⟩ := hi.route_ok hr
    refine hsucceeds (fun _ _ hne => by cases hne) ⟨r.2, ?_⟩
    change (s.route >>= _) = _
    rw [h]
    rfl
  | movePipeline =>
    obtain ⟨r, h⟩ : ∃ r, s.movePipeline = .ok r := forPorts_ok cfg.nodup fun p _ => ⟨_, rfl⟩
    refine hsucceeds (fun _ _ hne => by cases hne) ⟨r.2, ?_⟩
    change (s.movePipeline >>= _) = _
    rw [h]
    rfl
  | startProcessing =>
    obtain ⟨r, h⟩ : ∃ r, s.startProcessing = .ok r := forPorts_ok cfg.nodup fun p _ => PortComplex.startLoop_ok _ _
    refine hsucceeds (fun _ _ hne => by cases hne) ⟨r.2, ?_⟩
    change (s.startProcessing >>= _) = _
    rw [h]
    rfl

theorem run_ok {ops : List (Op π)} (hops : ∀ port flit, .arrive port flit ∈ ops → Routable cfg flit) :
    ∃ s, ({} : Switch cfg).run ops = .ok s := by
  obtain ⟨s, hs, -⟩ : Succeeds (fun s : Switch cfg => s.Inv ∧ s.Routed) (({} : Switch cfg).run ops) := by
    refine Succeeds.foldlM (P := fun _ (s : Switch cfg) => s.Inv ∧ s.Routed) ⟨Inv.new, fun _ _ hx => absurd hx not_mem_nil⟩ ?_
    rintro pre op post s rfl ⟨hi, hr⟩
    obtain ⟨s', h, hr'⟩ := hi.step_ok hr fun port flit hop => hops port flit (hop ▸ mem_append_right _ mem_cons_self)
    exact ⟨s', h, hi.step h, hr'⟩
  exact ⟨s, hs⟩

/-! ## The law -/

/-- What has left through a port. -/
def left (s : Switch cfg) (port : π) : List (Move π) := (toPort s.moves port).take (s.complex port).sent.length

/-- Ticks one after the other, with no arrivals, a network that accepts every flit, and an eager arbiter. -/
def Draining (t : Nat → Switch cfg) : Prop := ∀ n, ∃ net selected progress, (∀ p i, net p i = true) ∧ (t n).Eager selected ∧
  (t n).tick net selected = .ok (progress, t (n + 1))

/-- Every port has a channel in each direction. -/
def Channels (cfg : SwitchConfig π) : Prop :=
  ∀ p ∈ cfg.ports, 1 ≤ (cfg.complex p).numInputChannel ∧ 1 ≤ (cfg.complex p).numOutputChannel

theorem Inv.tick {net : π → Nat → Bool} {selected : List π} (hi : s.Inv) (h : s.tick net selected = .ok (progress, s')) :
    s'.Inv :=
  hi.run (tick_run h)

theorem Inv.empties {t : Nat → Switch cfg} (hi : (t 0).Inv) (hchannel : Channels cfg) (ht : Draining t) :
    ∃ n, (t n).Empty ∧ (t n).Inv ∧ ∀ p, ((t n).complex p).arrived = ((t 0).complex p).arrived := by
  induction hload : (t 0).load using Nat.strong_induction_on generalizing t with
  | _ load ih =>
    obtain ⟨net, selected, progress, hnet, hsel, htick⟩ := ht 0
    cases progress with
    | false => exact ⟨0, hi.tick_idle hnet hsel hchannel htick, hi, fun _ => rfl⟩
    | true =>
      have hlt : (t 1).load + 1 ≤ (t 0).load := (hi.tick_advances hsel.ports htick).load
      obtain ⟨n, hempty, hin, harrived⟩ :=
        ih (t 1).load (by omega) (t := fun n => t (n + 1)) (hi.tick htick) (fun n => ht (n + 1)) rfl
      exact ⟨n + 1, hempty, hin, fun p => (harrived p).trans (arrived_tick htick p)⟩

/-- What holds in every state of every run, also between the stages of a tick. -/
structure Law (s : Switch cfg) : Prop where
  /-- every flit that arrived at a port is inside, or was forwarded from it, once -/
  conserved : ∀ p, ((fromPort s.moves p).map Move.flit ++ (s.complex p).inside).Perm (s.complex p).arrived
  /-- to the output that the routing table gives -/
  routed : ∀ m ∈ s.moves, cfg.findPort m.flit.msg.dst = some m.out ∧ m.out ∈ cfg.ports
  /-- which has sent what was forwarded to it, once and in this order, and keeps the rest -/
  out : ∀ p, (s.complex p).sent ++ (s.complex p).sendOutBuffer.elements.map (PortComplex.stamp (cfg.complex p) p) =
    (toPort s.moves p).map fun m => PortComplex.stamp (cfg.complex p) p m.flit
  /-- what has left through an output from a port with one input channel is what arrived there first for this output -/
  ordered : ∀ p, PortComplex.Single (cfg.complex p) → ∀ o, (fromPort (s.left o) p).map Move.flit <+:
    (s.complex p).arrived.filter fun flit => decide (cfg.findPort flit.msg.dst = some o)
  fits : ∀ p, (s.complex p).Fits
  paced : ∀ net selected progress s', s.tick net selected = .ok (progress, s') → Paced s s'
  /-- when nothing holds the switch, all that has arrived is forwarded and leaves in the end -/
  drains : Channels cfg → ∀ t : Nat → Switch cfg, t 0 = s → Draining t → ∃ n, ∀ p ∈ cfg.ports,
    ((fromPort (t n).moves p).map Move.flit).Perm (s.complex p).arrived ∧
      ((t n).complex p).sent = (toPort (t n).moves p).map fun m => PortComplex.stamp (cfg.complex p) p m.flit
  /-- the crossbar arbiter of the ports lets it drain -/
  arbiter : ∀ (a a' : XBarArbiter π) (selected : List π), a.buffers = cfg.ports →
    a.arbitrate s.outputBuf = .ok (selected, a') →
    s.Eager selected ∧ (selected.map s.outputBuf).Nodup

theorem Inv.law (hi : s.Inv) : s.Law where
  conserved := hi.conserved
  routed m hm := assignFlitOutputBuf_eq_ok (hi.routed m hm)
  out := hi.out
  ordered := by
    intro p hp o
    have hswap : fromPort (toPort s.moves o) p =
        (fromPort s.moves p).filter fun m => decide (cfg.findPort m.flit.msg.dst = some o) := by
      rw [fromPort, toPort, fromPort, filter_filter, filter_filter]
      refine filter_congr fun m hm => ?_
      rw [(assignFlitOutputBuf_eq_ok (hi.routed m hm)).1, Bool.and_comm]
      simp only [Option.some.injEq]
    have hleft : (fromPort (s.left o) p).map Move.flit <+: (fromPort (toPort s.moves o) p).map Move.flit :=
      (( take_prefix ..).filter _).map _
    refine hleft.trans ?_
    rw [hswap, ← hi.ordered p hp, filter_append, filter_map]
    exact prefix_append ..
  fits := hi.fits
  paced _ _ _ _ h := hi.paced h
  drains := by
    rintro hchannel t rfl ht
    obtain ⟨n, hempty, hin, harrived⟩ := hi.empties hchannel ht
    refine ⟨n, fun p hp => ?_⟩
    obtain ⟨hinside, hbuf⟩ := hempty p hp
    have hconserved := hin.conserved p
    have hout := hin.out p
    rw [hinside, append_nil, harrived p] at hconserved
    rw [hbuf, map_nil, append_nil] at hout
    exact ⟨hconserved, hout⟩
  arbiter _ _ _ hports h := eager_arbitrate hports h

/-- A switch keeps the law in every run, and panics only on a flit without an output. -/
theorem switch_conserves (cfg : SwitchConfig π) (ops : List (Op π)) :
    ((∀ port flit, .arrive port flit ∈ ops → Routable cfg flit) → ∃ s, ({} : Switch cfg).run ops = .ok s) ∧
      ∀ s, ({} : Switch cfg).run ops = .ok s → s.Law :=
  ⟨run_ok, fun _ h => (Inv.new.run h).law⟩

/-- Two ports with one stage, each the output for what is not its own. -/
def twoPorts : SwitchConfig Bool where
  ports := [false, true]
  complex port := { remotePort := port, localPortBufferSize := 2, latency := 1, numInputChannel := 1, numOutputChannel := 1 }
  findPort dst := some dst
  nodup := by decide

def crossing : List (Op Bool) :=
  .arrive false ⟨false, false, 0, 1, ⟨7, true, 4⟩⟩ ::
    (replicate 5 (stages (fun _ _ => true) [false, true])).flatten

/-- A flit that crosses a switch in five ticks. -/
theorem switch_conserves_crossing : ∃ s : Switch twoPorts, ({} : Switch twoPorts).run crossing = .ok s ∧ s.Law ∧
    (s.complex true).sent = [⟨true, true, 0, 1, ⟨7, true, 4⟩⟩] := by
  obtain ⟨s, hs, hsent⟩ : Succeeds
      (fun s : Switch twoPorts => decide ((s.complex true).sent = [⟨true, true, 0, 1, ⟨7, true, 4⟩⟩]) = true)
      (({} : Switch twoPorts).run crossing) := Succeeds.of_any (by decide +kernel)
  exact ⟨s, hs, (switch_conserves twoPorts crossing).2 s hs, of_decide_eq_true hsent⟩

end Switch

end Akita.Noc.Switching
