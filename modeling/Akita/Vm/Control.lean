import Akita.Vm.Tlb.Tlb

/-!
# Control ports

The TLBs serve their control ports alike: `performCtrlReq` takes the request at the head off the port, sends the response, and
only then has the request take effect. `Controlled σ` is a component of states `σ` that does so.

* `Controlled.Atomic C t req` : a call has performed and answered the request, or, when the response cannot be sent, left all
  as it was;
* `Controlled.atomic_iff` : when a call is atomic;
* `Controlled.Run C G t arrived performed` : a run with the requests that have arrived and those performed, `G` holding of
  each request when it is handled;
* `Controlled.Run.once` : a run whose requests can all be answered performs and answers each of them once, in the order of
  arrival.
-/

namespace Akita.Vm
open Sim List
open Vm.Tlb (FlushReq ControlReq ControlRsp)

/-- The response to a control request. -/
def rspTo : ControlReq → ControlRsp
  | .flush req => .flush req.src
  | .restart _ src => .restart src

/-- A component that serves a control port. `perform` : what a request does besides, `Performable` : it does not panic;
`Built` : the states the builder returns; `Other` : a step that is not a call of `performCtrlReq`; `Kept` : what all these
keep. -/
structure Controlled (σ : Type) where
  port : σ → Port 1 ControlReq ControlRsp
  withPort : Port 1 ControlReq ControlRsp → σ → σ
  performCtrlReq : σ → Except String (Bool × σ)
  perform : ControlReq → σ → Except String σ
  Performable : ControlReq → Prop
  Built : σ → Prop
  Other : σ → σ → Prop
  Kept : σ → Prop
  port_withPort (p t) : port (withPort p t) = p
  performCtrlReq_none {t} (h : (port t).peek = none) : performCtrlReq t = .ok (false, t)
  performCtrlReq_some {t req} (h : (port t).peek = some req) : performCtrlReq t =
    if ((port t).retrieve.send (rspTo req)).1
      then (perform req t).map fun t' => (true, withPort ((port t).retrieve.send (rspTo req)).2 t')
    else .ok (false, withPort ((port t).retrieve.send (rspTo req)).2 t)
  perform_iff {t} (h : Kept t) (req) : (∃ t', perform req t = .ok t') ↔ Performable req
  kept_perform {t t' req} (h : Kept t) (hperform : perform req t = .ok t') : Kept t'
  kept_withPort {t} (h : Kept t) (p) : Kept (withPort p t)
  built {t} (h : Built t) : Kept t ∧ port t = {}
  other {t t'} (h : Other t t') (hkept : Kept t) : Kept t' ∧ port t' = port t

namespace Controlled

variable {σ : Type} (C : Controlled σ) {t t' : σ} {req : ControlReq}

/-- The connection takes the next response. -/
def Accepting (t : σ) : Prop := (C.port t).conn.headD false = true

/-- The request has taken effect, and its response has been sent. -/
def Performed (t : σ) (req : ControlReq) (t' : σ) : Prop :=
  ∃ t₁, C.perform req t = .ok t₁ ∧
    t' = C.withPort { buf := (C.port t).buf.pop, outgoing := (C.port t).outgoing ++ [rspTo req],
                      conn := (C.port t).conn.tail } t₁

/-- Nothing has changed but what the connection will answer. -/
def Unchanged (t t' : σ) : Prop := t' = C.withPort { C.port t with conn := (C.port t).conn.tail } t

/-- The call performs and answers the request, or it cannot answer and leaves it. -/
def Atomic (t : σ) (req : ControlReq) : Prop :=
  ∃ progress t', C.performCtrlReq t = .ok (progress, t') ∧ (C.Performed t req t' ∨ ¬ C.Accepting t ∧ C.Unchanged t t')

/-- A run, with the requests that have arrived at the control port and those that have been performed. `G` holds of the state
and the request whenever a request is handled. -/
inductive Run (G : σ → ControlReq → Prop) : σ → List ControlReq → List ControlReq → Prop
  | built {t : σ} (h : C.Built t) : Run G t [] []
  | arrive {t : σ} {arrived performed : List ControlReq} {req : ControlReq} {p : Port 1 ControlReq ControlRsp}
      (h : Run G t arrived performed) (hrecv : (C.port t).recv req = some p) :
      Run G (C.withPort p t) (arrived ++ [req]) performed
  | connect {t : σ} {arrived performed : List ControlReq} (conn : List Bool) (h : Run G t arrived performed) :
      Run G (C.withPort { C.port t with conn } t) arrived performed
  | ctrl {t t' : σ} {arrived performed : List ControlReq} {progress : Bool} (h : Run G t arrived performed)
      (hG : ∀ req, (C.port t).peek = some req → G t req) (hctrl : C.performCtrlReq t = .ok (progress, t')) :
      Run G t' arrived (performed ++ if progress then (C.port t).peek.toList else [])
  | other {t t' : σ} {arrived performed : List ControlReq} (h : Run G t arrived performed) (hother : C.Other t t') :
      Run G t' arrived performed

/-- What has arrived has been performed and answered, in the order of arrival, or waits. -/
structure Once (t : σ) (arrived performed : List ControlReq) : Prop where
  arrived : arrived = performed ++ (C.port t).buf.elements
  answered : (C.port t).outgoing = performed.map rspTo

variable {C}

theorem send_of_accepting (h : C.Accepting t) (rsp : ControlRsp) : (C.port t).retrieve.send rsp =
    (true, { buf := (C.port t).buf.pop, outgoing := (C.port t).outgoing ++ [rsp], conn := (C.port t).conn.tail }) := by
  unfold Accepting at h
  unfold Port.send
  cases hconn : (C.port t).conn with
  | nil =>
    rw [hconn] at h
    cases h
  | cons b =>
    rw [hconn] at h
    obtain rfl : b = true := h
    simp only [Port.retrieve, hconn, tail_cons]

theorem performCtrlReq_of_accepting (h : C.Accepting t) (hreq : (C.port t).peek = some req) {t₁ : σ}
    (hperform : C.perform req t = .ok t₁) :
    C.performCtrlReq t = .ok (true, C.withPort
      { buf := (C.port t).buf.pop, outgoing := (C.port t).outgoing ++ [rspTo req], conn := (C.port t).conn.tail } t₁) := by
  rw [C.performCtrlReq_some hreq, send_of_accepting h, if_pos rfl, hperform]
  rfl

theorem popped_of_not_accepting (h : ¬ C.Accepting t) (hreq : (C.port t).peek = some req) :
    ∃ p, C.performCtrlReq t = .ok (false, C.withPort p t) ∧ p.buf = (C.port t).buf.pop ∧
    p.outgoing = (C.port t).outgoing := by
  have hnot : ((C.port t).retrieve.send (rspTo req)).1 = false := by
    rw [Port.sent_eq]
    exact Bool.eq_false_iff.mpr h
  rw [C.performCtrlReq_some hreq, if_neg (by rw [hnot]; nofun)]
  refine ⟨_, rfl, ?_⟩
  rcases (C.port t).retrieve.send_cases (rspTo req) with ⟨hsent, -, -⟩ | ⟨-, hout, hbuf⟩
  · rw [hnot] at hsent
    cases hsent
  · exact ⟨hbuf, hout⟩

/-- **When a call is atomic**: when the connection takes the response and the request does not panic. -/
theorem atomic_iff (hkept : C.Kept t) (hreq : (C.port t).peek = some req) :
    C.Atomic t req ↔ C.Accepting t ∧ C.Performable req := by
  constructor
  · rintro ⟨progress, t', hcall, hdone⟩
    by_cases hacc : C.Accepting t
    · refine ⟨hacc, (C.perform_iff hkept req).mp ?_⟩
      rcases hdone with ⟨t₁, hperform, -⟩ | ⟨hnot, -⟩
      · exact ⟨t₁, hperform⟩
      · exact absurd hacc hnot
    · -- the request is gone, and no response has been sent
      obtain ⟨p, hcall', hbuf, hout⟩ := popped_of_not_accepting hacc hreq
      rw [hcall', Except.ok.injEq, Prod.mk.injEq] at hcall
      obtain ⟨-, rfl⟩ := hcall
      have hport : C.port (C.withPort p t) = p := C.port_withPort p t
      exfalso
      rcases hdone with ⟨t₁, -, heq⟩ | ⟨-, heq⟩
      · rw [heq, C.port_withPort] at hport
        have hlen := congrArg length ((congrArg Port.outgoing hport).trans hout)
        rw [length_append] at hlen
        simp at hlen
      · rw [heq, C.port_withPort] at hport
        have hlen := congrArg (fun b => b.elements.length) ((congrArg Port.buf hport).trans hbuf)
        have hhead : (C.port t).buf.elements = req :: (C.port t).buf.pop.elements := Buffer.peek_eq_some hreq
        dsimp only at hlen
        rw [hhead, length_cons] at hlen
        omega
  · rintro ⟨hacc, hperformable⟩
    obtain ⟨t₁, hperform⟩ := (C.perform_iff hkept req).mpr hperformable
    exact ⟨true, _, performCtrlReq_of_accepting hacc hreq hperform, .inl ⟨t₁, hperform, rfl⟩⟩

section
variable {G : σ → ControlReq → Prop} {arrived performed : List ControlReq}

/-- What the connection takes and what does not panic. -/
def Served (C : Controlled σ) (t : σ) (req : ControlReq) : Prop := C.Accepting t ∧ C.Performable req

theorem Run.kept (h : C.Run G t arrived performed) : C.Kept t := by
  induction h with
  | built h => exact (C.built h).1
  | arrive _ _ ih => exact C.kept_withPort ih _
  | connect _ _ ih => exact C.kept_withPort ih _
  | @ctrl t t' arrived performed progress h hG hctrl ih =>
    cases hreq : (C.port t).peek with
    | none =>
      rw [C.performCtrlReq_none hreq] at hctrl
      cases hctrl
      exact ih
    | some req =>
      rw [C.performCtrlReq_some hreq] at hctrl
      split at hctrl
      · cases hperform : C.perform req t with
        | error =>
          rw [hperform] at hctrl
          cases hctrl
        | ok =>
          rw [hperform] at hctrl
          cases hctrl
          exact C.kept_withPort (C.kept_perform ih hperform) _
      · cases hctrl
        exact C.kept_withPort ih _
  | other _ hother ih => exact (C.other hother ih).1

/-- **Each control request is performed and answered once** in a run whose requests can all be answered and performed when
they are handled. -/
theorem Run.once (h : C.Run C.Served t arrived performed) : C.Once t arrived performed := by
  induction h with
  | built h =>
    constructor <;> rw [(C.built h).2] <;> rfl
  | arrive _ hrecv ih =>
    have hp := Port.recv_eq hrecv
    constructor
    · rw [C.port_withPort, hp, ih.arrived, append_assoc]
    · rw [C.port_withPort, hp, ih.answered]
  | connect _ _ ih =>
    constructor
    · rw [C.port_withPort, ih.arrived]
    · rw [C.port_withPort, ih.answered]
  | @ctrl t t' arrived performed progress h hG hctrl ih =>
    cases hreq : (C.port t).peek with
    | none =>
      rw [C.performCtrlReq_none hreq] at hctrl
      cases hctrl
      rw [if_neg (by nofun), append_nil]
      exact ih
    | some req =>
      obtain ⟨hacc, hperformable⟩ := hG req hreq
      obtain ⟨_, hperform⟩ := (C.perform_iff h.kept req).mpr hperformable
      rw [performCtrlReq_of_accepting hacc hreq hperform] at hctrl
      cases hctrl
      have hhead : (C.port t).buf.elements = req :: (C.port t).buf.pop.elements := Buffer.peek_eq_some hreq
      constructor
      · rw [C.port_withPort, ih.arrived, hhead, if_pos rfl, append_assoc]
        rfl
      · rw [C.port_withPort, ih.answered, if_pos rfl, map_append]
        rfl
  | @other t t' arrived performed h hother ih =>
    obtain ⟨-, hport⟩ := C.other hother h.kept
    refine ⟨?_, ?_⟩
    · rw [hport]
      exact ih.arrived
    · rw [hport]
      exact ih.answered

end

/-- A call is atomic if and only if it can send the response and does not panic; and where this is so at every call of a run,
each request is performed and answered once. -/
structure Lawful (C : Controlled σ) : Prop where
  atomic : ∀ t req, C.Kept t → (C.port t).peek = some req → (C.Atomic t req ↔ C.Served t req)
  once : ∀ t arrived performed, C.Run C.Served t arrived performed → C.Once t arrived performed

theorem lawful (C : Controlled σ) : C.Lawful := ⟨fun _ _ hkept hreq => atomic_iff hkept hreq, fun _ _ _ h => h.once⟩

end Controlled

end Akita.Vm
