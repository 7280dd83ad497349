import Akita.Noc.EndPoint.Outgoing
import Akita.Noc.Switch
import Akita.Returns

/-!
# The stages of a switch

* `PortComplex.inside` : the flits between the local port and the arbiter, those that come first first;
* `PortComplex.Passed` : what `route`, `movePipeline` and `startProcessing` do to a complex. They lose no flit, and keep the
  order when there is one input channel or no stage;
* `PortComplex.sendOut_eq` : what `sendOut` does;
* `Switch.forPorts_eq` : a loop over ports does to each what its body does.
-/

namespace Akita.Noc.Switching
open Sim Pipelining List
open Prod (fst)

variable {π : Type}

namespace PortComplex

variable {c : PortConfig π}

def inside (pc : PortComplex c) : List (Flit π) :=
  pc.forwardBuffer.elements.map fst ++ (pc.routeBuffer.elements ++ (pc.pipeline.pending.map fst ++ pc.localPort.elements))

/-- No buffer exceeds its capacity. -/
structure Fits (pc : PortComplex c) : Prop where
  localPort : pc.localPort.elements.length ≤ c.localPortBufferSize
  routeBuffer : pc.routeBuffer.elements.length ≤ c.numInputChannel
  forwardBuffer : pc.forwardBuffer.elements.length ≤ c.numInputChannel
  sendOutBuffer : pc.sendOutBuffer.elements.length ≤ c.numOutputChannel

/-- One input channel, or no stage. -/
def Single (c : PortConfig π) : Prop := c.numInputChannel ≤ 1 ∨ c.latency = 0

/-- The flits move on. Those that enter the forward buffer are assigned their output by `assign`, and at most `taken` leave
the port. -/
structure Passed (assign : Flit π → Except String π) (taken : Nat) (pc pc' : PortComplex c) : Prop where
  arrived : pc'.arrived = pc.arrived
  sent : pc'.sent = pc.sent
  sendOutBuffer : pc'.sendOutBuffer = pc.sendOutBuffer
  inside : pc'.inside.Perm pc.inside
  ordered : Single c → pc'.inside = pc.inside
  assigned : ∃ new, pc'.forwardBuffer.elements = pc.forwardBuffer.elements ++ new ∧ ∀ x ∈ new, assign x.1 = .ok x.2
  localPort : ∃ k, k ≤ taken ∧ pc'.localPort.elements = pc.localPort.elements.drop k
  fits : pc.Fits → pc'.Fits

variable {assign : Flit π → Except String π} {taken taken' : Nat} {pc pc' pc'' : PortComplex c} {progress : Bool}

theorem Passed.refl (assign : Flit π → Except String π) (taken : Nat) (pc : PortComplex c) : Passed assign taken pc pc :=
  ⟨rfl, rfl, rfl, List.Perm.refl _, fun _ => rfl, ⟨[], (append_nil _).symm, forall_mem_nil _⟩, ⟨0, Nat.zero_le _, rfl⟩, id⟩

theorem Passed.trans (h : Passed assign taken pc pc') (h' : Passed assign taken' pc' pc'') :
    Passed assign (taken + taken') pc pc'' := by
  obtain ⟨new, hnew, hassign⟩ := h.assigned
  obtain ⟨new', hnew', hassign'⟩ := h'.assigned
  obtain ⟨k, hk, hport⟩ := h.localPort
  obtain ⟨k', hk', hport'⟩ := h'.localPort
  refine ⟨h'.arrived.trans h.arrived, h'.sent.trans h.sent, h'.sendOutBuffer.trans h.sendOutBuffer, h'.inside.trans h.inside,
    fun hc => (h'.ordered hc).trans (h.ordered hc), ⟨new ++ new', ?_, fun x hx => ?_⟩, ⟨k + k', Nat.add_le_add hk hk', ?_⟩,
    h'.fits ∘ h.fits⟩
  · rw [hnew', hnew, append_assoc]
  · exact (mem_append.mp hx).elim (hassign x) (hassign' x)
  · rw [hport', hport, drop_drop]

/-! ## The stages -/

theorem passed_movePipeline (assign : Flit π → Except String π) (pc : PortComplex c) :
    Passed assign 0 pc pc.movePipeline.2 := by
  refine ⟨rfl, rfl, rfl, ?_, fun hc => ?_, ⟨[], (append_nil _).symm, forall_mem_nil _⟩,
    ⟨0, le_refl _, rfl⟩, fun hf => ⟨hf.localPort, pc.pipeline.room_tick hf.routeBuffer, hf.forwardBuffer, hf.sendOutBuffer⟩⟩
  · have hperm := pc.pipeline.items_tick pc.routeBuffer
    refine List.Perm.append_left _ ?_
    rw [← append_assoc, ← append_assoc]
    exact ((perm_append_comm.trans hperm).trans perm_append_comm).append_right _
  · obtain ⟨_, hout, haged⟩ := pc.pipeline.aged_tick_single hc pc.routeBuffer
    have hpending := fst_of_aged haged
    change _ ++ ((pc.pipeline.tick pc.routeBuffer).2.2.elements ++
      ((pc.pipeline.tick pc.routeBuffer).2.1.pending.map fst ++ _)) = _
    rw [hout, inside, hpending, append_assoc, append_assoc]
    rfl

theorem passed_routeLoop {k : Nat} (h : routeLoop assign k pc = .ok (progress, pc')) : Passed assign 0 pc pc' := by
  induction k generalizing pc progress with
  | zero =>
    cases h
    exact Passed.refl ..
  | succ _ ih =>
    unfold routeLoop at h
    split at h
    · cases h
      exact Passed.refl ..
    · next flit hpeek =>
      split at h
      · next hpush =>
        obtain ⟨out, hout, h⟩ := eq_ok_of_bind h
        obtain ⟨⟨_, _⟩, hloop, h⟩ := eq_ok_of_bind h
        cases h
        refine Passed.trans (?_ : Passed assign 0 pc _) (ih hloop)
        have hroute := Buffer.peek_eq_some hpeek
        have hinside : (pc.forwardBuffer.elements ++ [(flit, out)]).map fst ++
            (pc.routeBuffer.pop.elements ++ (pc.pipeline.pending.map fst ++ pc.localPort.elements)) = pc.inside := by
          rw [inside, hroute, map_append, append_assoc]
          rfl
        refine ⟨rfl, rfl, rfl, hinside ▸ List.Perm.refl _, fun _ => hinside, ⟨[(flit, out)], rfl, fun x hx => ?_⟩,
          ⟨0, le_refl _, rfl⟩, fun hf => ⟨hf.localPort, ?_, ?_, hf.sendOutBuffer⟩⟩
        · rw [mem_singleton.mp hx]
          exact hout
        · exact (tail_sublist _).length_le.trans hf.routeBuffer
        · rw [Buffer.canPush, decide_eq_true_eq] at hpush
          rw [length_append]
          exact hpush
      · cases h
        exact Passed.refl ..

theorem passed_accept {flit : Flit π} {pipeline : PipelineImpl c.numInputChannel c.latency 1 (Flit π)}
    {routeBuffer : Buffer c.numInputChannel (Flit π)} (hpeek : pc.localPort.peek = some flit)
    (h : pc.pipeline.accept pc.routeBuffer flit = .ok (pipeline, routeBuffer)) :
    Passed assign 1 pc { pc with localPort := pc.localPort.pop, pipeline, routeBuffer } := by
  have hport := Buffer.peek_eq_some hpeek
  have hone : ∃ k, k ≤ 1 ∧ pc.localPort.pop.elements = pc.localPort.elements.drop k := ⟨1, le_refl _, drop_one.symm⟩
  have hnew : ∃ new, pc.forwardBuffer.elements = pc.forwardBuffer.elements ++ new ∧ ∀ x ∈ new, assign x.1 = .ok x.2 :=
    ⟨[], (append_nil _).symm, forall_mem_nil _⟩
  have htail : pc.localPort.pop.elements.length ≤ pc.localPort.elements.length := (tail_sublist _).length_le
  rcases PipelineImpl.accept_cases h with ⟨hstage, rfl, hroom, rfl⟩ | ⟨-, ⟨l, hl, rfl⟩, rfl⟩
  · have hnil : pc.pipeline.pending = [] := by
      rw [pc.pipeline.pending_eq_lane (.inr hstage), pc.pipeline.lane_of_no_stage hstage]
    have hinside : pc.forwardBuffer.elements.map fst ++ (pc.routeBuffer.elements ++ [flit] ++
        (pc.pipeline.pending.map fst ++ pc.localPort.pop.elements)) = pc.inside := by
      rw [inside, hport, hnil, map_nil, nil_append, nil_append, append_assoc]
      rfl
    refine ⟨rfl, rfl, rfl, hinside ▸ List.Perm.refl _, fun _ => hinside, hnew, hone,
      fun hf => ⟨htail.trans hf.localPort, ?_, hf.forwardBuffer, hf.sendOutBuffer⟩⟩
    rw [Buffer.canPush, decide_eq_true_eq] at hroom
    rw [length_append]
    exact hroom
  · refine ⟨rfl, rfl, rfl, ?_, fun hc => ?_, hnew, hone,
      fun hf => ⟨htail.trans hf.localPort, hf.routeBuffer, hf.forwardBuffer, hf.sendOutBuffer⟩⟩
    · have hperm := (PipelineImpl.pending_put hl flit).map fst
      rw [map_append, map_singleton] at hperm
      refine List.Perm.append_left _ (List.Perm.append_left _ ?_)
      rw [hport]
      exact (hperm.append_right _).trans (by rw [append_assoc]; exact List.Perm.refl _)
    · change _ ++ (_ ++ ((pc.pipeline.put l flit).pending.map fst ++ pc.localPort.pop.elements)) = _
      rw [PipelineImpl.pending_put_single hc hl, inside, hport, map_append, append_assoc]
      rfl

theorem passed_startLoop {k : Nat} (h : startLoop k pc = .ok (progress, pc')) : Passed assign k pc pc' := by
  induction k generalizing pc progress with
  | zero =>
    cases h
    exact Passed.refl ..
  | succ _ ih =>
    unfold startLoop at h
    split at h
    · cases h
      exact Passed.refl ..
    · next flit hpeek =>
      split at h
      · obtain ⟨⟨_, _⟩, haccept, h⟩ := eq_ok_of_bind h
        obtain ⟨⟨_, _⟩, hloop, h⟩ := eq_ok_of_bind h
        cases h
        rw [Nat.add_comm]
        exact (passed_accept hpeek haccept).trans (ih hloop)
      · cases h
        exact Passed.refl ..

theorem length_sendLoop (net : Nat → Bool) (k i : Nat) (flits : List (Flit π)) : (sendLoop net k i flits).1.length ≤ k := by
  induction k generalizing i flits with
  | zero => exact le_refl _
  | succ k ih =>
    cases flits with
    | nil => exact Nat.zero_le _
    | cons =>
      unfold sendLoop
      split
      · exact Nat.succ_le_succ (ih ..)
      · exact (ih ..).trans (Nat.le_succ k)

/-- A flit on its way from a port to the next hop. -/
def stamp (c : PortConfig π) (port : π) (flit : Flit π) : Flit π := { flit with src := port, dst := c.remotePort }

/-- `sendOut` sends the first flits of its buffer, no more than there are output channels. -/
theorem sendOut_eq (port : π) (net : Nat → Bool) (pc : PortComplex c) : ∃ out rest, pc.sendOutBuffer.elements = out ++ rest ∧
    out.length ≤ c.numOutputChannel ∧
    (pc.sendOut port net).2 = { pc with sendOutBuffer := ⟨rest⟩, sent := pc.sent ++ out.map (stamp c port) } :=
  ⟨_, _, (sendLoop_append net c.numOutputChannel 0 pc.sendOutBuffer.elements).symm, length_sendLoop .., rfl⟩

end PortComplex

namespace Switch

variable [DecidableEq π] {cfg : SwitchConfig π} {s s' : Switch cfg} {progress : Bool}

@[simp] theorem complex_setComplex_self (s : Switch cfg) (port : π) (pc : PortComplex (cfg.complex port)) :
    (s.setComplex port pc).complex port = pc := Function.update_self ..

theorem complex_setComplex_of_ne (s : Switch cfg) {port q : π} (pc : PortComplex (cfg.complex port)) (h : q ≠ port) :
    (s.setComplex port pc).complex q = s.complex q := Function.update_of_ne h ..

@[simp] theorem moves_setComplex (s : Switch cfg) (port : π) (pc : PortComplex (cfg.complex port)) :
    (s.setComplex port pc).moves = s.moves := rfl

theorem forPorts_eq {f : ∀ port, PortComplex (cfg.complex port) → Except String (Bool × PortComplex (cfg.complex port))}
    {ports : List π} (hports : ports.Nodup) (h : forPorts f ports s = .ok (progress, s')) :
    s'.moves = s.moves ∧ (∀ p ∈ ports, ∃ b, f p (s.complex p) = .ok (b, s'.complex p)) ∧
      ∀ p, p ∉ ports → s'.complex p = s.complex p := by
  induction ports generalizing s progress with
  | nil =>
    cases h
    exact ⟨rfl, forall_mem_nil _, fun _ _ => rfl⟩
  | cons port _ ih =>
    obtain ⟨⟨b, pc⟩, hbody, h⟩ := eq_ok_of_bind h
    obtain ⟨⟨_, _⟩, hloop, h⟩ := eq_ok_of_bind h
    cases h
    obtain ⟨hport, hnodup⟩ := nodup_cons.mp hports
    obtain ⟨hmoves, heach, hothers⟩ := ih hnodup hloop
    refine ⟨hmoves, fun p hp => ?_, fun p hp => ?_⟩
    · rcases mem_cons.mp hp with rfl | hrest
      · rw [hothers p hport, complex_setComplex_self]
        exact ⟨b, hbody⟩
      · have hne : p ≠ port := by
          rintro rfl
          exact hport hrest
        rw [← complex_setComplex_of_ne s pc hne]
        exact heach p hrest
    · rw [hothers p fun h => hp (mem_cons_of_mem _ h), complex_setComplex_of_ne s pc fun h => hp (h ▸ mem_cons_self)]

end Switch

end Akita.Noc.Switching
