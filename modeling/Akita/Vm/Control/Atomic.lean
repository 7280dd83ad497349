import Akita.Vm.Control.Frames
import Akita.Vm.TlbCf.Messages

/-!
# Control requests of the TLBs

`tlb`, `tlb_cf` and `tlb_gmmu` serve their control ports as `Controlled` components do.

* `performable` : the requests that do not panic;
* `ctrl_atomic_iff` : for all three, when a control request is performed and answered as one.
-/

namespace Akita.Vm
open Sim
open Vm.Tlb (ControlReq ControlRsp FlushReq SetImpl)

/-- A flush divides by the page size and by the number of sets for each address it names. -/
def performable (pageSize : UInt64) (numSets : Nat) : ControlReq → Prop
  | .flush req => req.vAddr = [] ∨ pageSize ≠ 0 ∧ numSets ≠ 0
  | .restart .. => True

/-- The handlers send the response first. -/
theorem respond_first {σ : Type} {sent : Bool} {idle : σ} {e : Except String σ} {f : σ → σ} {x : Except String (Bool × σ)}
    (h : x = e.map fun t => (true, f t)) :
    (if !sent then .ok (false, idle) else x) = if sent then e.map fun t => (true, f t) else Except.ok (false, idle) := by
  cases sent with
  | false => rfl
  | true => exact h

theorem exists_bind_ok {σ α : Type} {x : Except String α} {f : α → σ} :
    (∃ s, (x >>= fun a => .ok (f a)) = Except.ok s) ↔ ∃ a, x = .ok a := by
  cases x with
  | error => exact iff_of_false nofun nofun
  | ok => exact iff_of_true ⟨_, rfl⟩ ⟨_, rfl⟩

theorem performable_flush_iff {σ : Type} {n numSets : Nat} {pageSize : UInt64} {sets : Nat → SetImpl}
    {f : (Nat → SetImpl) → σ} (hsets : SoundSets n sets) (req : FlushReq) :
    (∃ t, (invalidateSets (setIDOf pageSize numSets) req.pid req.vAddr sets >>= fun sets => .ok (f sets)) = Except.ok t) ↔
      performable pageSize numSets (.flush req) := by
  rw [performable, ← invalidateSets_iff req.pid req.vAddr hsets]
  exact exists_bind_ok

namespace Tlb

variable {cfg : Config}

/-- What a control request does besides its response. -/
def performed (t : TLB cfg) : ControlReq → Except String (TLB cfg)
  | .flush req => do
    let sets ← invalidateAll cfg req.pid req.vAddr t.sets
    return { t with sets, mshr := [], isPaused := true, log := t.log ++ [Event.flushAck req] }
  | .restart .. => .ok { t with isPaused := false, topPort := t.topPort.clear, bottomPort := t.bottomPort.clear }

theorem performCtrlReq_eq {t : TLB cfg} {req : ControlReq} (h : t.controlPort.peek = some req) : performCtrlReq t =
    if (t.controlPort.retrieve.send (rspTo req)).1 then
      (performed t req).map fun t' => (true, { t' with controlPort := (t.controlPort.retrieve.send (rspTo req)).2 })
    else .ok (false, { t with controlPort := (t.controlPort.retrieve.send (rspTo req)).2 }) := by
  rw [performCtrlReq, h]
  cases req with
  | flush req => exact respond_first (by rw [performed]; cases invalidateAll cfg req.pid req.vAddr t.sets <;> rfl)
  | restart => exact respond_first rfl

/-- `tlb.TLB` at its control port. -/
def controlled (cfg : Config) : Controlled (TLB cfg) where
  port := TLB.controlPort
  withPort p t := { t with controlPort := p }
  performCtrlReq := performCtrlReq
  perform req t := performed t req
  Performable := performable cfg.pageSize cfg.numSets
  Built t := build cfg = .ok t
  Other t t' := (∃ k p, k ≠ Call.ctrl ∧ k.exec t = .ok (p, t')) ∨ ∃ topPort bottomPort, t' = { t with topPort, bottomPort }
  Kept t := SoundSets cfg.numWays t.sets
  port_withPort _ _ := rfl
  performCtrlReq_none h := by rw [performCtrlReq, h]
  performCtrlReq_some h := performCtrlReq_eq h
  perform_iff {t} hsets req := by
    cases req with
    | restart => exact iff_of_true ⟨_, rfl⟩ trivial
    | flush req =>
      rw [performed, invalidateAll_eq]
      exact performable_flush_iff hsets req
  kept_perform {t t' req} hsets h := by
    cases req with
    | restart =>
      cases h
      exact hsets
    | flush =>
      obtain ⟨sets, hinv, h⟩ := eq_ok_of_bind h
      cases h
      exact invalidateSets_sound hsets (@invalidateAll_eq cfg _ _ _ ▸ hinv)
  kept_withPort hsets _ := hsets
  built h := by
    obtain ⟨_, hnew, h⟩ := eq_ok_of_bind h
    obtain ⟨_, hset, hnew⟩ := eq_ok_of_bind hnew
    cases hnew
    cases h
    exact ⟨soundSets_new hset, rfl⟩
  other h hsets := by
    rcases h with ⟨_, _, hk, hexec⟩ | ⟨_, _, rfl⟩
    · exact exec_framed hk hsets hexec
    · exact ⟨hsets, rfl⟩

end Tlb

namespace TlbCf

variable {cfg : Config}

/-- What a control request does besides its response. -/
def performed (t : TLB cfg) : ControlReq → Except String (TLB cfg)
  | .flush req => do
    let sets ← invalidateAll cfg req.pid req.vAddr t.sets
    return { t with sets, mshr := t.mshr.reset, isPaused := true }
  | .restart .. => .ok { t with isPaused := false, topPort := t.topPort.clear, bottomPort := t.bottomPort.clear }

theorem performCtrlReq_eq {t : TLB cfg} {req : ControlReq} (h : t.controlPort.peek = some req) : performCtrlReq t =
    if (t.controlPort.retrieve.send (rspTo req)).1 then
      (performed t req).map fun t' => (true, { t' with controlPort := (t.controlPort.retrieve.send (rspTo req)).2 })
    else .ok (false, { t with controlPort := (t.controlPort.retrieve.send (rspTo req)).2 }) := by
  rw [performCtrlReq, h]
  cases req with
  | flush req => exact respond_first (by rw [performed]; cases invalidateAll cfg req.pid req.vAddr t.sets <;> rfl)
  | restart => exact respond_first rfl

/-- `tlb_cf.TLB` at its control port. -/
def controlled (cfg : Config) : Controlled (TLB cfg) where
  port := TLB.controlPort
  withPort p t := { t with controlPort := p }
  performCtrlReq := performCtrlReq
  perform req t := performed t req
  Performable := performable cfg.pageSize cfg.numSets
  Built t := ∃ rand, build cfg rand = .ok t
  Other t t' := (∃ k p, k ≠ Call.ctrl ∧ k.exec t = .ok (p, t')) ∨
    ∃ topPort bottomPort outsidePort cmpPort pageTable, t' = { t with topPort, bottomPort, outsidePort, cmpPort, pageTable }
  Kept t := SoundSets cfg.numWays t.sets
  port_withPort _ _ := rfl
  performCtrlReq_none h := by rw [performCtrlReq, h]
  performCtrlReq_some h := performCtrlReq_eq h
  perform_iff {t} hsets req := by
    cases req with
    | restart => exact iff_of_true ⟨_, rfl⟩ trivial
    | flush req =>
      rw [performed, invalidateAll_eq]
      exact performable_flush_iff hsets req
  kept_perform {t t' req} hsets h := by
    cases req with
    | restart =>
      cases h
      exact hsets
    | flush =>
      obtain ⟨sets, hinv, h⟩ := eq_ok_of_bind h
      cases h
      exact invalidateSets_sound hsets (@invalidateAll_eq cfg _ _ _ ▸ hinv)
  kept_withPort hsets _ := hsets
  built h := by
    obtain ⟨_, h⟩ := h
    obtain ⟨sets, hnew, h⟩ := eq_ok_of_bind h
    obtain ⟨_, hset, hnew⟩ := eq_ok_of_bind hnew
    cases hnew
    cases h
    exact ⟨soundSets_new hset, rfl⟩
  other {t t'} h hsets := by
    rcases h with ⟨_, _, hk, hexec⟩ | ⟨_, _, _, _, _, rfl⟩
    · have hframed := exec_framed hk t _ hexec
      exact ⟨hframed.sets hsets, hframed.controlPort⟩
    · exact ⟨hsets, rfl⟩

end TlbCf

namespace TlbGmmu

variable {cfg : Config}

/-- What a control request does besides its response. -/
def performed (t : GMMUTLB cfg) : ControlReq → Except String (GMMUTLB cfg)
  | .flush req => do
    let sets ← invalidateAll cfg req.pid req.vAddr t.sets
    return { t with sets, mshr := t.mshr.reset, isPaused := true }
  | .restart .. => .ok { t with isPaused := false, topPort := t.topPort.clear, bottomPort := t.bottomPort.clear }

theorem performCtrlReq_eq {t : GMMUTLB cfg} {req : ControlReq} (h : t.controlPort.peek = some req) : performCtrlReq t =
    if (t.controlPort.retrieve.send (rspTo req)).1 then
      (performed t req).map fun t' => (true, { t' with controlPort := (t.controlPort.retrieve.send (rspTo req)).2 })
    else .ok (false, { t with controlPort := (t.controlPort.retrieve.send (rspTo req)).2 }) := by
  rw [performCtrlReq, h]
  cases req with
  | flush req => exact respond_first (by rw [performed]; cases invalidateAll cfg req.pid req.vAddr t.sets <;> rfl)
  | restart => exact respond_first rfl

/-- `GMMUTLB` at its control port. -/
def controlled (cfg : Config) : Controlled (GMMUTLB cfg) where
  port := GMMUTLB.controlPort
  withPort p t := { t with controlPort := p }
  performCtrlReq := performCtrlReq
  perform req t := performed t req
  Performable := performable cfg.pageSize cfg.numSets
  Built t := ∃ rand, build cfg rand = .ok t
  Other t t' := (∃ k p, k ≠ Call.ctrl ∧ k.exec t = .ok (p, t')) ∨
    ∃ topPort bottomPort outsidePort pageTable, t' = { t with topPort, bottomPort, outsidePort, pageTable }
  Kept t := Sided t ∧ SoundSets cfg.numWays t.sets
  port_withPort _ _ := rfl
  performCtrlReq_none h := by rw [performCtrlReq, h]
  performCtrlReq_some h := performCtrlReq_eq h
  perform_iff {t} hkept req := by
    cases req with
    | restart => exact iff_of_true ⟨_, rfl⟩ trivial
    | flush req =>
      rw [performed, invalidateAll_eq]
      exact performable_flush_iff hkept.2 req
  kept_perform {t t' req} hkept h := by
    cases req with
    | restart =>
      cases h
      exact hkept
    | flush =>
      obtain ⟨sets, hinv, h⟩ := eq_ok_of_bind h
      cases h
      refine ⟨?_, invalidateSets_sound hkept.2 (@invalidateAll_eq cfg _ _ _ ▸ hinv)⟩
      rintro e (he | he)
      · cases he
      · exact hkept.1 e (.inr he)
  kept_withPort hkept _ := hkept
  built h := by
    obtain ⟨_, h⟩ := h
    obtain ⟨_, hnew, h⟩ := eq_ok_of_bind h
    obtain ⟨_, hset, hnew⟩ := eq_ok_of_bind hnew
    cases hnew
    cases h
    refine ⟨⟨?_, soundSets_new hset⟩, rfl⟩
    rintro e (he | he) <;> cases he
  other h hkept := by
    rcases h with ⟨_, _, hk, hexec⟩ | ⟨_, _, _, _, rfl⟩
    · exact exec_framed hk hkept.1 hkept.2 hexec
    · exact ⟨hkept, rfl⟩

end TlbGmmu

/-- **Control requests of the TLBs.** In all three TLBs a call of `performCtrlReq` performs and answers the request, or leaves
it, if and only if the connection takes the response and the request does not panic; and in every run in which this is so at
each call, each control request is performed and answered once. -/
theorem ctrl_atomic_iff (tlb : Tlb.Config) (tlbCf : TlbCf.Config) (tlbGmmu : TlbGmmu.Config) :
    (Tlb.controlled tlb).Lawful ∧ (TlbCf.controlled tlbCf).Lawful ∧ (TlbGmmu.controlled tlbGmmu).Lawful :=
  ⟨Controlled.lawful _, Controlled.lawful _, Controlled.lawful _⟩

namespace Tlb

/-- One set of one way. -/
def cfgOne : Config :=
  { numReqPerCycle := 1, numSets := 1, numWays := 1, pageSize := 4096, lowModule := 2, numMSHREntry := 1 }

/-- The TLB as built. -/
def builtOne : TLB cfgOne := { sets := fun _ => (SetImpl.new 1).toOption.getD { numWays := 1 } }

/-- A restart has come to its control port. -/
def restarting (conn : List Bool) : TLB cfgOne := { builtOne with controlPort := { buf := ⟨[.restart 0 1]⟩, conn } }

theorem run_restarting (G : TLB cfgOne → ControlReq → Prop) (conn : List Bool) :
    (controlled cfgOne).Run G (restarting conn) [.restart 0 1] [] := by
  have hbuilt : (controlled cfgOne).Built builtOne := rfl
  have hrun := Controlled.Run.connect conn (Controlled.Run.built (G := G) hbuilt)
  exact Controlled.Run.arrive hrun rfl

end Tlb

/-- A restart whose response is taken. -/
theorem ctrl_atomic_iff_restart : (Tlb.controlled Tlb.cfgOne).Atomic (Tlb.restarting [true]) (.restart 0 1) :=
  ((ctrl_atomic_iff Tlb.cfgOne TlbCf.tiny TlbGmmu.tiny).1.atomic _ _ (Tlb.run_restarting (fun _ _ => True) _).kept rfl).mpr
    ⟨rfl, trivial⟩

/-- A restart whose response is not taken is gone, and has not been performed. -/
theorem restart_lost : (Tlb.controlled Tlb.cfgOne).Run (fun _ _ => True) (Tlb.restarting [false]) [.restart 0 1] [] ∧
    ¬ (Tlb.controlled Tlb.cfgOne).Atomic (Tlb.restarting [false]) (.restart 0 1) ∧
    ∃ t', Tlb.performCtrlReq (Tlb.restarting [false]) = .ok (false, t') ∧ t'.controlPort = {} ∧
      ¬ (Tlb.controlled Tlb.cfgOne).Once t' [.restart 0 1] [] := by
  have hrun := Tlb.run_restarting (fun _ _ => True) [false]
  refine ⟨hrun, fun h => ?_, _, rfl, rfl, fun h => ?_⟩
  · have hserved := (Controlled.atomic_iff hrun.kept rfl).mp h
    cases hserved.1
  · exact absurd h.arrived (by decide)

end Akita.Vm
