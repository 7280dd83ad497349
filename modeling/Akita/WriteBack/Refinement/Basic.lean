import Akita.WriteBack.Invariant

/-!
# Stages refine the flow

A stage that starts in a state whose flow satisfies `Flow.Inv` succeeds, and what it does to the flow is a step, or a
sequence of silent steps. This one statement says that no stage panics and that `Flow.Step` leaves nothing out.

* `Wired` : what is left of a cache beside its flow: the order of the blocks, what is inside the bank, the messages sent;
* `Refines s τ l r` : the stage with result `r` succeeds on `s` and moves its flow with label `l`.
-/

namespace Akita.WriteBack
open Sim Pipelining Mem Mem.Cache List

variable {cfg : Config}

def Event.sent? : Event → Option (AccessRsp Bytes)
  | .topSend rsp => some rsp
  | _ => none

/-- The responses sent on the top port. -/
def sentOf (log : List Event) : List (AccessRsp Bytes) := log.filterMap Event.sent?

structure Wired (c : Cache cfg) : Prop where
  directory : c.directory.Whole
  counted : c.bank.inflightTransCount = (c.bank.pipeline.items + ↑c.bank.postPipelineBuf.elements).card
  noFetch : ∀ t ∈ c.bank.pipeline.items + ↑c.bank.postPipelineBuf.elements, t.action ≠ .writeBufferFetch
  sent : c.topPort.outgoing = sentOf c.log

theorem Wired.of_eq {c c' : Cache cfg} (h : Wired c) (hdir : c'.directory = c.directory) (hbank : c'.bank = c.bank)
    (hout : c'.topPort.outgoing = c.topPort.outgoing) (hlog : sentOf c'.log = sentOf c.log) : Wired c' := by
  refine ⟨hdir ▸ h.directory, hbank ▸ h.counted, hbank ▸ h.noFetch, ?_⟩
  rw [hout, hlog]
  exact h.sent

namespace Flow

/-- Any number of silent steps. -/
def Silent (a a' : Flow cfg) : Prop := Relation.ReflTransGen (fun a a' => Step a .silent a') a a'

/-- A step with a label, or silent steps. -/
inductive Moves (l : Label) (a a' : Flow cfg) : Prop
  | silent (h : Silent a a')
  | step (h : Step a l a')

variable {a a' : Flow cfg} {l : Label}

theorem Silent.inv (hs : Silent a a') (h : a.Inv) : a'.Inv := by
  induction hs with
  | refl => exact h
  | tail _ hstep ih => exact ih.step (l := .silent) trivial hstep

end Flow

open WriteBack.Flow (Silent Moves)

/-- The system after a stage of its cache. -/
def System.become (s : System cfg) (c : Cache cfg) : System cfg := { s with cache := c }

/-- The stage succeeds, and its effect on the flow is a step or silent steps. -/
def Refines (s : System cfg) (τ : List Moment) (l : Flow.Label) (r : Result cfg) : Prop :=
  ∃ p c τ', r = .ok (p, c) ∧ Wired c ∧ logOf τ' = c.log ∧ Moves l (s.flow τ) ((s.become c).flow τ')

variable {s : System cfg} {τ : List Moment} {l : Flow.Label}

theorem logOf_concat (τ : List Moment) (e : Event) : logOf (τ ++ [Moment.event e]) = logOf τ ++ [e] := by
  simp [logOf, Moment.event?]

theorem logOf_effect (τ : List Moment) (w : TopWrite) (e : Event) :
    logOf (τ ++ [Moment.effect w, .event e]) = logOf τ ++ [e] := by
  unfold logOf
  rw [filterMap_append]
  rfl

theorem logOf_effects (τ : List Moment) (ws : List TopWrite) : logOf (τ ++ ws.map .effect) = logOf τ := by
  have hnil : (ws.map Moment.effect).filterMap Moment.event? = [] := by
    rw [filterMap_map]
    exact filterMap_eq_nil_iff.mpr fun _ _ => rfl
  unfold logOf
  rw [filterMap_append, hnil, append_nil]

theorem sentOf_concat {log : List Event} {e : Event} (h : e.sent? = none) : sentOf (log ++ [e]) = sentOf log := by
  simp [sentOf, h]

namespace Refines

theorem refl (hw : Wired s.cache) (hlog : logOf τ = s.cache.log) (p : Bool) : Refines s τ l (.ok (p, s.cache)) :=
  ⟨p, s.cache, τ, rfl, hw, hlog, .silent .refl⟩

variable {c : Cache cfg} {p : Bool}

theorem same (hw : Wired c) (hlog : logOf τ = s.cache.log) (hc : c.log = s.cache.log)
    (hflow : s.flow τ = (s.become c).flow τ) : Refines s τ l (.ok (p, c)) :=
  ⟨p, c, τ, rfl, hw, hlog.trans hc.symm, .silent (hflow ▸ .refl)⟩

theorem silent (τ' : List Moment) (hw : Wired c) (hlog : logOf τ' = c.log)
    (hs : Flow.Step (s.flow τ) .silent ((s.become c).flow τ')) : Refines s τ l (.ok (p, c)) :=
  ⟨p, c, τ', rfl, hw, hlog, .silent (.single hs)⟩

theorem step (τ' : List Moment) (hw : Wired c) (hlog : logOf τ' = c.log)
    (hs : Flow.Step (s.flow τ) l ((s.become c).flow τ')) : Refines s τ l (.ok (p, c)) :=
  ⟨p, c, τ', rfl, hw, hlog, .step hs⟩

theorem bind {r : Result cfg} {f : Bool × Cache cfg → Result cfg} (hr : Refines s τ .silent r) (hinv : (s.flow τ).Inv)
    (hf : ∀ p c τ', Wired c → logOf τ' = c.log → ((s.become c).flow τ').Inv → Refines (s.become c) τ' .silent (f (p, c))) :
    Refines s τ .silent (r >>= f) := by
  obtain ⟨p, c, τ', rfl, hw, hlog, hm⟩ := hr
  have hs : Silent (s.flow τ) ((s.become c).flow τ') := by
    cases hm with
    | silent h => exact h
    | step h => exact .single h
  obtain ⟨p', c', τ'', hok, hw', hlog', hm'⟩ := hf p c τ' hw hlog (hs.inv hinv)
  refine ⟨p', c', τ'', hok, hw', hlog', .silent (hs.trans ?_)⟩
  cases hm' with
  | silent h => exact h
  | step h => exact .single h

theorem report {r : Result cfg} (hr : Refines s τ l r) (g : Bool → Bool) :
    Refines s τ l (r >>= fun x => .ok (g x.1, x.2)) := by
  obtain ⟨p, c, τ', rfl, hw, hlog, hm⟩ := hr
  exact ⟨g p, c, τ', rfl, hw, hlog, hm⟩

end Refines

/-! ## Senders and the top parser -/

section
variable (hw : Wired s.cache) (hlog : logOf τ = s.cache.log)
include hw hlog

theorem controlPortSender_refines :
    Refines s τ l (.ok (controlPortSender s.cache)) := by
  unfold controlPortSender
  cases s.cache.controlPortSender.buffer.peek with
  | none => exact .refl hw hlog false
  | some msg =>
    rcases s.cache.controlPort.send_cases msg with ⟨hsent, -, hbuf⟩ | ⟨hsent, -, hbuf⟩
    · simp only [hsent, if_true]
      refine .same (hw.of_eq rfl rfl rfl rfl) hlog rfl ?_
      simp only [System.flow, System.become, hbuf]
    · simp only [hsent, Bool.false_eq_true, if_false]
      refine .same (hw.of_eq rfl rfl rfl rfl) hlog rfl ?_
      simp only [System.flow, System.become, hbuf]

theorem topSender_refines :
    Refines s τ l (.ok (topSender s.cache)) := by
  unfold topSender
  cases hpeek : s.cache.topSender.buffer.peek with
  | none => exact .refl hw hlog false
  | some msg =>
    rcases s.cache.topPort.send_cases (msg.map s.cache.slices.view) with ⟨hsent, hout, hbuf⟩ | ⟨hsent, hout, hbuf⟩
    · simp only [hsent, if_true]
      refine .silent (τ ++ [Moment.event (.topSend (msg.map s.cache.slices.view))]) ⟨hw.directory, hw.counted, hw.noFetch, ?_⟩
        (by rw [logOf_concat, hlog]) ?_
      · simp only [hout, hw.sent, sentOf, filterMap_append]
        rfl
      · convert Flow.Step.topSend (a := s.flow τ) msg _ (Buffer.peek_eq_some hpeek) using 1
        simp only [System.flow, System.become, hbuf]
    · simp only [hsent, Bool.false_eq_true, if_false]
      refine .same (hw.of_eq rfl rfl hout rfl) hlog rfl ?_
      simp only [System.flow, System.become, hbuf]

theorem bottomSender_refines :
    Refines s τ l (.ok (bottomSender s.cache)) := by
  unfold bottomSender
  cases hpeek : s.cache.bottomSender.buffer.peek with
  | none => exact .refl hw hlog false
  | some msg =>
    have hmem := Buffer.peek_eq_some hpeek
    rcases s.cache.bottomPort.send_cases msg with ⟨hsent, hout, hbuf⟩ | ⟨hsent, hout, hbuf⟩
    · simp only [hsent, if_true]
      refine .silent (τ ++ [Moment.event (.bottomSend msg (payload s.cache.slices msg))])
        (hw.of_eq rfl rfl rfl (sentOf_concat rfl)) (by rw [logOf_concat, hlog]) ?_
      convert Flow.Step.bottomSend (a := s.flow τ) msg (mem_append_right _ (hmem ▸ mem_cons_self)) using 1
      simp only [System.flow, System.become, hout, hbuf, hmem, append_assoc, singleton_append]
    · simp only [hsent, Bool.false_eq_true, if_false]
      refine .same (hw.of_eq rfl rfl rfl rfl) hlog rfl ?_
      simp only [System.flow, System.become, hout, hbuf]

theorem topParser_refines : Refines s τ l (topParser s.cache) := by
  unfold topParser
  split
  · exact .refl hw hlog false
  next hmode =>
  cases hreq : s.cache.topPort.peek with
  | none => exact .refl hw hlog false
  | some req =>
  dsimp only
  split
  · exact .refl hw hlog false
  next hpush =>
  simp only [Buffer.push_of_canPush (b := s.cache.dirStageBuffer) (by simpa using hpush), bind_ok]
  refine .silent (τ ++ [Moment.event (.reqReceive req)]) (hw.of_eq rfl rfl rfl (sentOf_concat rfl))
    (by rw [logOf_concat, hlog]) ?_
  convert Flow.Step.accept (a := s.flow τ) req _ (not_not.mp hmode) (Buffer.peek_eq_some hreq) using 1
  simp only [System.flow, System.become, Port.buf_retrieve, coe_concat, Multiset.cons_add]

end

end Akita.WriteBack
