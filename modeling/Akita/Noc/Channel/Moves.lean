import Akita.Noc.Channel

/-!
# How messages move through a channel

* `Move` : a message moves one place on; `tick_moves` : a tick is a sequence of moves, empty only when none is possible;
* `Inv` : nothing is lost or repeated, a direction of one lane keeps the order, no buffer is overfull, and a sender waits for
  a notification only while its buffer is full;
* `todo` : what the messages still have to go. Every move leaves less of it, so without further messages a direction empties
  (`inside_of_run`).
-/

namespace Akita.Noc.Messaging
open Sim Pipelining List
open PipelineImpl (accept_cases pending_put work_put)
open Prod (fst)

variable {width numStage cyclePerStage bufSize portSize : Nat} {α : Type}

namespace Direction

variable (d : Direction width numStage cyclePerStage bufSize portSize α)

/-! ## The moves of a tick -/

/-- A direction as its tick begins. -/
def begun : Direction width numStage cyclePerStage bufSize portSize α :=
  { d with roomy := d.roomy + d.incoming.canPush.toNat }

/-- The port takes a message from the post-pipeline buffer. -/
def handed (msg : α) (rest : List α) : Direction width numStage cyclePerStage bufSize portSize α :=
  { d with src := { d.src with postPipelineBuf := ⟨rest⟩ }, incoming := ⟨d.incoming.elements ++ [msg]⟩ }

/-- The pipeline is ticked. -/
def shifted : Direction width numStage cyclePerStage bufSize portSize α :=
  { d with src := { d.src with
    pipeline := (d.src.pipeline.tick d.src.postPipelineBuf).2.1
    postPipelineBuf := (d.src.pipeline.tick d.src.postPipelineBuf).2.2 } }

/-- A message is handed to the port, the pipeline moves, or a message enters the pipeline. -/
inductive Move : Direction width numStage cyclePerStage bufSize portSize α →
    Direction width numStage cyclePerStage bufSize portSize α → Prop
  | hand {d : Direction width numStage cyclePerStage bufSize portSize α} {msg : α} {rest : List α}
      (hpost : d.src.postPipelineBuf.elements = msg :: rest) (hroom : d.incoming.canPush = true) : Move d (d.handed msg rest)
  | shift {d : Direction width numStage cyclePerStage bufSize portSize α}
      (hprogress : (d.src.pipeline.tick d.src.postPipelineBuf).1 = true) : Move d d.shifted
  | feed {d : Direction width numStage cyclePerStage bufSize portSize α} {msg : α} {rest : List α}
      {pipeline : PipelineImpl width numStage cyclePerStage α} {postPipelineBuf : Buffer bufSize α}
      (hsrc : d.src.srcSideBuf.elements = msg :: rest)
      (hacc : d.src.pipeline.accept d.src.postPipelineBuf msg = .ok (pipeline, postPipelineBuf)) :
      Move d { d with
        src := { d.src with srcSideBuf := ⟨rest⟩, pipeline, postPipelineBuf, busy := false }
        waiting := d.waiting && !d.src.busy }

open Relation (ReflTransGen)

variable {d} {d' : Direction width numStage cyclePerStage bufSize portSize α}

variable {msgs : List α}

theorem hand_moves (hpost : d.src.postPipelineBuf.elements = msgs) : ReflTransGen Move d (d.hand msgs).2 := by
  induction msgs generalizing d with
  | nil => exact .refl
  | cons _ _ ih =>
    unfold hand
    split
    · next hroom => exact .head (.hand hpost hroom) (ih rfl)
    · exact .refl

theorem hand_cases (hpost : d.src.postPipelineBuf.elements = msgs) :
    ((d.hand msgs).1 = true ∧ ∃ d₁, Move d d₁ ∧ ReflTransGen Move d₁ (d.hand msgs).2) ∨
    (d.hand msgs = (false, d) ∧ (msgs = [] ∨ d.incoming.canPush = false)) := by
  cases msgs with
  | nil => exact .inr ⟨rfl, .inl rfl⟩
  | cons =>
    unfold hand
    split
    · next hroom => exact .inl ⟨rfl, _, .hand hpost hroom, hand_moves rfl⟩
    · next hroom => exact .inr ⟨rfl, .inr (by simpa using hroom)⟩

theorem fill_moves (hsrc : d.src.srcSideBuf.elements = msgs) {moved notified : Bool}
    {src : ChannelEnd width numStage cyclePerStage bufSize α} (h : d.src.fill msgs = .ok (moved, notified, src)) :
    ReflTransGen Move d { d with src, waiting := d.waiting && !notified } ∧
    (moved = true ∧ (∃ d₁, Move d d₁ ∧ ReflTransGen Move d₁ { d with src, waiting := d.waiting && !notified }) ∨
      moved = false ∧ src = d.src ∧ notified = false ∧
      (msgs = [] ∨ d.src.pipeline.canAccept d.src.postPipelineBuf = false)) := by
  induction msgs generalizing d moved notified with
  | nil =>
    cases h
    refine ⟨?_, .inr ⟨rfl, rfl, rfl, .inl rfl⟩⟩
    rw [Bool.not_false, Bool.and_true]
  | cons _ rest ih =>
    unfold ChannelEnd.fill at h
    by_cases hcan : d.src.pipeline.canAccept d.src.postPipelineBuf = true
    · rw [if_pos hcan] at h
      obtain ⟨⟨pipeline, postPipelineBuf⟩, hacc, h⟩ := eq_ok_of_bind h
      obtain ⟨⟨_, _, _⟩, hfill, h⟩ := eq_ok_of_bind h
      cases h
      have hmove : Move d _ := .feed hsrc hacc
      obtain ⟨hrest, -⟩ := ih (d := { d with
        src := { d.src with srcSideBuf := ⟨rest⟩, pipeline, postPipelineBuf, busy := false }
        waiting := d.waiting && !d.src.busy }) rfl hfill
      rw [Bool.not_or, ← Bool.and_assoc]
      exact ⟨.head hmove hrest, .inl ⟨rfl, _, hmove, hrest⟩⟩
    · rw [if_neg hcan] at h
      cases h
      refine ⟨?_, .inr ⟨rfl, rfl, rfl, .inr (by simpa using hcan)⟩⟩
      rw [Bool.not_false, Bool.and_true]

theorem fill_ok (e : ChannelEnd width numStage cyclePerStage bufSize α) (msgs : List α) : ∃ r, e.fill msgs = .ok r := by
  induction msgs generalizing e with
  | nil => exact ⟨_, rfl⟩
  | cons msg rest ih =>
    unfold ChannelEnd.fill
    by_cases hcan : e.pipeline.canAccept e.postPipelineBuf = true
    · obtain ⟨⟨pipeline, postPipelineBuf⟩, hacc⟩ := PipelineImpl.accept_ok hcan msg
      obtain ⟨r, hr⟩ := ih { e with srcSideBuf := ⟨rest⟩, pipeline, postPipelineBuf, busy := false }
      rw [if_pos hcan, hacc]
      refine ⟨(true, e.busy || r.2.1, r.2.2), ?_⟩
      change (ChannelEnd.fill { e with srcSideBuf := ⟨rest⟩, pipeline, postPipelineBuf, busy := false } rest >>= _) = _
      rw [hr]
      rfl
    · rw [if_neg hcan]
      exact ⟨_, rfl⟩

theorem shifted_of_false (h : (d.src.pipeline.tick d.src.postPipelineBuf).1 = false) : d.shifted = d := by
  unfold shifted
  rw [PipelineImpl.tick_of_false h]

variable (d) in
theorem moveMsgOneEnd_eq : d.moveMsgOneEnd =
    (d.shifted.src.fill d.shifted.src.srcSideBuf.elements >>= fun r =>
      .ok ((d.src.pipeline.tick d.src.postPipelineBuf).1 || r.1,
        { d.shifted with src := r.2.2, waiting := d.waiting && !r.2.1 })) :=
  rfl

variable (d) in
theorem tick_eq : d.tick =
    ((d.begun.hand d.begun.src.postPipelineBuf.elements).2.moveMsgOneEnd >>= fun r =>
      .ok ((d.begun.hand d.begun.src.postPipelineBuf.elements).1 || r.1, r.2)) :=
  rfl

variable {progress : Bool}

theorem moveMsg_shifted (h : d.moveMsgOneEnd = .ok (progress, d')) : ReflTransGen Move d.shifted d' := by
  rw [moveMsgOneEnd_eq] at h
  obtain ⟨⟨_, _, _⟩, hfill, h⟩ := eq_ok_of_bind h
  cases h
  exact (fill_moves rfl hfill).1

/-- The second half of a tick moves something, or nothing can move. -/
theorem moveMsg_moves (h : d.moveMsgOneEnd = .ok (progress, d')) :
    ReflTransGen Move d d' ∧ (progress = true ∧ (∃ d₁, Move d d₁ ∧ ReflTransGen Move d₁ d') ∨
      progress = false ∧ d' = d ∧ (d.src.pipeline.tick d.src.postPipelineBuf).1 = false ∧
        (d.src.srcSideBuf.elements = [] ∨ d.src.pipeline.canAccept d.src.postPipelineBuf = false)) := by
  rw [moveMsgOneEnd_eq] at h
  obtain ⟨⟨_, _, src⟩, hfill, h⟩ := eq_ok_of_bind h
  obtain ⟨hmoves, hcases⟩ := fill_moves rfl hfill
  cases h
  cases hprogress : (d.src.pipeline.tick d.src.postPipelineBuf).1 with
  | true => exact ⟨.head (.shift hprogress) hmoves, .inl ⟨rfl, _, .shift hprogress, hmoves⟩⟩
  | false =>
    rw [shifted_of_false hprogress] at hmoves hcases ⊢
    refine ⟨hmoves, ?_⟩
    rcases hcases with ⟨rfl, hfirst⟩ | ⟨rfl, rfl, rfl, hstuck⟩
    · exact .inl ⟨rfl, hfirst⟩
    · refine .inr ⟨rfl, ?_, rfl, hstuck⟩
      rw [Bool.not_false, Bool.and_true]

/-- A tick moves something, or nothing can move. -/
theorem tick_moves (h : d.tick = .ok (progress, d')) :
    ReflTransGen Move d.begun d' ∧ (progress = true ∧ (∃ d₁, Move d.begun d₁ ∧ ReflTransGen Move d₁ d') ∨
      progress = false ∧ d' = d.begun ∧ (d.src.postPipelineBuf.elements = [] ∨ d.incoming.canPush = false) ∧
        (d.src.pipeline.tick d.src.postPipelineBuf).1 = false ∧
        (d.src.srcSideBuf.elements = [] ∨ d.src.pipeline.canAccept d.src.postPipelineBuf = false)) := by
  rw [tick_eq] at h
  have hhands := hand_moves (d := d.begun) rfl
  have hhand := hand_cases (d := d.begun) rfl
  generalize d.begun.hand d.begun.src.postPipelineBuf.elements = r at h hhands hhand
  obtain ⟨handed, _⟩ := r
  obtain ⟨⟨_, _⟩, hmove, h⟩ := eq_ok_of_bind h
  cases h
  obtain ⟨hmoves, hcases⟩ := moveMsg_moves hmove
  refine ⟨hhands.trans hmoves, ?_⟩
  rcases hhand with ⟨hfirst, d₁, hd₁, hrest⟩ | ⟨hnone, hstuck⟩
  · obtain rfl : handed = true := hfirst
    exact .inl ⟨rfl, d₁, hd₁, hrest.trans hmoves⟩
  · cases hnone
    rcases hcases with ⟨rfl, hfirst⟩ | ⟨rfl, rfl, hpipe, hsrc⟩
    · exact .inl ⟨rfl, hfirst⟩
    · exact .inr ⟨rfl, rfl, hstuck, hpipe, hsrc⟩

variable (d) in
theorem moveMsg_ok : ∃ r, d.moveMsgOneEnd = .ok r := by
  rw [moveMsgOneEnd_eq]
  obtain ⟨_, hr⟩ := fill_ok d.shifted.src d.shifted.src.srcSideBuf.elements
  rw [hr]
  exact ⟨_, rfl⟩

/-! ## What is where -/

variable (d) in
def delivered : List α := d.retrieved ++ d.incoming.elements

variable (d) in
/-- The messages still in the channel, those closest to the port first. -/
def inside : List α :=
  d.src.postPipelineBuf.elements ++ d.src.pipeline.pending.map fst ++ d.src.srcSideBuf.elements

variable {msg : α}

/-- The message that enters the pipeline, or the buffer after it, is the only one there that is new. -/
theorem accept_perm {p p' : PipelineImpl width numStage cyclePerStage α} {buf buf' : Buffer bufSize α}
    (h : p.accept buf msg = .ok (p', buf')) :
    (buf'.elements ++ p'.pending.map fst).Perm (buf.elements ++ p.pending.map fst ++ [msg]) := by
  rcases accept_cases h with ⟨-, rfl, -, rfl⟩ | ⟨-, ⟨_, hl, rfl⟩, rfl⟩
  · rw [append_assoc, append_assoc]
    exact List.Perm.append_left _ perm_append_comm
  · rw [append_assoc]
    refine List.Perm.append_left _ (((pending_put hl msg).map fst).trans ?_)
    rw [map_append]
    rfl

theorem accept_single {p p' : PipelineImpl width numStage cyclePerStage α} {buf buf' : Buffer bufSize α}
    (hw : width ≤ 1 ∨ numStage = 0) (h : p.accept buf msg = .ok (p', buf')) :
    buf'.elements ++ p'.pending.map fst = buf.elements ++ p.pending.map fst ++ [msg] := by
  rcases accept_cases h with ⟨hstage, rfl, -, rfl⟩ | ⟨-, ⟨_, hl, rfl⟩, rfl⟩
  · rw [p'.pending_eq_lane hw, p'.lane_of_no_stage hstage]
    simp
  · rw [PipelineImpl.pending_put_single hw hl, map_append, ← append_assoc]
    rfl

theorem inOrder_handed {rest : List α} (hpost : d.src.postPipelineBuf.elements = msg :: rest) :
    (d.handed msg rest).delivered ++ (d.handed msg rest).inside = d.delivered ++ d.inside := by
  simp [delivered, inside, handed, hpost]

theorem Move.accepted (h : Move d d') : d'.accepted = d.accepted := by
  cases h <;> rfl

theorem accepted_of_moves (h : ReflTransGen Move d d') : d'.accepted = d.accepted := by
  induction h with
  | refl => rfl
  | tail _ hmove ih => rw [← ih, hmove.accepted]

theorem accepted_tick (h : d.tick = .ok (progress, d')) : d'.accepted = d.accepted :=
  accepted_of_moves (d := d.begun) (tick_moves h).1

theorem roomy_of_moves (h : ReflTransGen Move d d') : d'.roomy = d.roomy := by
  induction h with
  | refl => rfl
  | tail _ hmove ih => rw [← ih]; cases hmove <;> rfl

/-- A move neither loses nor repeats a message. -/
theorem Move.perm (h : Move d d') : (d'.delivered ++ d'.inside).Perm (d.delivered ++ d.inside) := by
  cases h with
  | hand hpost => rw [inOrder_handed hpost]
  | shift =>
    have hitems := d.src.pipeline.items_tick d.src.postPipelineBuf
    refine List.Perm.append_left _ (List.Perm.append_right _ ?_)
    exact (perm_append_comm.trans hitems).trans perm_append_comm
  | @feed msg rest pipeline postPipelineBuf hsrc hacc =>
    unfold inside
    rw [hsrc]
    refine List.Perm.append_left _ (((accept_perm hacc).append_right rest).trans ?_)
    rw [append_assoc (_ ++ _) [msg]]
    exact .refl _

/-- In one lane it keeps their order. -/
theorem Move.inOrder (hw : width ≤ 1 ∨ numStage = 0) (h : Move d d') :
    d'.delivered ++ d'.inside = d.delivered ++ d.inside := by
  cases h with
  | hand hpost => exact inOrder_handed hpost
  | shift =>
    obtain ⟨_, hout, haged⟩ := d.src.pipeline.aged_tick_single hw d.src.postPipelineBuf
    unfold inside shifted
    rw [hout, fst_of_aged haged, append_assoc d.src.postPipelineBuf.elements]
    rfl
  | @feed msg rest pipeline postPipelineBuf hsrc hacc =>
    unfold inside
    rw [hsrc, accept_single hw hacc, append_assoc (_ ++ _) [msg]]
    rfl

variable (d) in
theorem delivered_retrieve : d.retrieve.delivered = d.delivered := by
  unfold delivered retrieve
  rw [append_assoc]
  congr 1
  obtain ⟨elements⟩ := d.incoming
  cases elements <;> rfl

variable (d) in
/-- What holds of a direction in every run. -/
structure Inv : Prop where
  conserved : (d.delivered ++ d.inside).Perm d.accepted
  inOrder : width ≤ 1 ∨ numStage = 0 → d.delivered ++ d.inside = d.accepted
  srcSide_room : d.src.srcSideBuf.elements.length ≤ bufSize
  postPipeline_room : d.src.postPipelineBuf.elements.length ≤ bufSize
  incoming_room : d.incoming.elements.length ≤ portSize
  waiting : d.waiting = d.src.busy
  busy : d.src.busy = true → d.src.srcSideBuf.canPush = false
  sized : d.accepted ≠ [] → 0 < bufSize

namespace Inv

theorem new : Inv ({} : Direction width numStage cyclePerStage bufSize portSize α) where
  conserved := by simp [delivered, inside]
  inOrder := by simp [delivered, inside]
  srcSide_room := Nat.zero_le _
  postPipeline_room := Nat.zero_le _
  incoming_room := Nat.zero_le _
  waiting := rfl
  busy := by intro h; cases h
  sized := by intro h; exact absurd rfl h

theorem move (h : d.Inv) (hmove : Move d d') : d'.Inv where
  conserved := by
    rw [hmove.accepted]
    exact hmove.perm.trans h.conserved
  inOrder := by
    intro hw
    rw [hmove.accepted, hmove.inOrder hw]
    exact h.inOrder hw
  srcSide_room := by
    have hroom := h.srcSide_room
    cases hmove with
    | hand | shift => exact hroom
    | feed hsrc =>
      rw [hsrc, length_cons] at hroom
      exact Nat.le_of_succ_le hroom
  postPipeline_room := by
    have hroom := h.postPipeline_room
    cases hmove with
    | hand hpost =>
      rw [hpost, length_cons] at hroom
      exact Nat.le_of_succ_le hroom
    | shift => exact d.src.pipeline.room_tick hroom
    | feed _ hacc =>
      rcases accept_cases hacc with ⟨-, -, hpush, rfl⟩ | ⟨-, -, rfl⟩
      · change (_ ++ [_]).length ≤ _
        rw [length_append]
        exact of_decide_eq_true hpush
      · exact hroom
  incoming_room := by
    have hroom := h.incoming_room
    cases hmove with
    | hand _ hpush =>
      change (_ ++ [_]).length ≤ _
      rw [length_append]
      exact of_decide_eq_true hpush
    | shift | feed => exact hroom
  waiting := by
    cases hmove with
    | hand | shift => exact h.waiting
    | feed =>
      change (d.waiting && !d.src.busy) = false
      rw [h.waiting, Bool.and_not_self]
  busy := by
    cases hmove with
    | hand | shift => exact h.busy
    | feed =>
      intro hbusy
      cases hbusy
  sized := by
    rw [hmove.accepted]
    exact h.sized

theorem moves (h : d.Inv) (hmoves : ReflTransGen Move d d') : d'.Inv := by
  induction hmoves with
  | refl => exact h
  | tail _ hmove ih => exact ih.move hmove

theorem begun (h : d.Inv) : d.begun.Inv :=
  ⟨h.conserved, h.inOrder, h.srcSide_room, h.postPipeline_room, h.incoming_room, h.waiting, h.busy, h.sized⟩

theorem tick (h : d.Inv) {progress : Bool} (htick : d.tick = .ok (progress, d')) : d'.Inv :=
  h.begun.moves (tick_moves htick).1

theorem refused (h : d.Inv) (hfull : d.src.srcSideBuf.canPush = false) :
    Inv { d with src := { d.src with busy := true }, waiting := true } :=
  ⟨h.conserved, h.inOrder, h.srcSide_room, h.postPipeline_room, h.incoming_room, rfl, fun _ => hfull, h.sized⟩

theorem canSend (h : d.Inv) : d.canSend.2.Inv := by
  unfold Direction.canSend
  split
  · exact h
  · next hfull => exact h.refused (by simpa using hfull)

theorem send (h : d.Inv) (msg : α) : (d.send msg).2.Inv := by
  unfold Direction.send
  split
  · next hroom =>
    have hinside : d.delivered ++ (d.src.postPipelineBuf.elements ++ d.src.pipeline.pending.map fst ++
        (d.src.srcSideBuf.elements ++ [msg])) = d.delivered ++ d.inside ++ [msg] := by
      simp [inside]
    constructor
    case conserved =>
      change (d.delivered ++ (_ ++ _ ++ (_ ++ [msg]))).Perm (d.accepted ++ [msg])
      rw [hinside]
      exact h.conserved.append_right _
    case inOrder =>
      intro hw
      change d.delivered ++ (_ ++ _ ++ (_ ++ [msg])) = d.accepted ++ [msg]
      rw [hinside, h.inOrder hw]
    case srcSide_room =>
      change (_ ++ [_]).length ≤ _
      rw [length_append]
      exact of_decide_eq_true hroom
    case postPipeline_room => exact h.postPipeline_room
    case incoming_room => exact h.incoming_room
    case waiting => exact h.waiting
    case busy =>
      intro hbusy
      rw [h.busy hbusy] at hroom
      cases hroom
    case sized =>
      intro _
      exact Nat.lt_of_le_of_lt (Nat.zero_le _) (of_decide_eq_true hroom)
  · next hfull => exact h.refused (by simpa using hfull)

theorem retrieve (h : d.Inv) : d.retrieve.Inv := by
  have hdelivered := delivered_retrieve d
  constructor
  case conserved =>
    rw [hdelivered]
    exact h.conserved
  case inOrder =>
    rw [hdelivered]
    exact h.inOrder
  case srcSide_room => exact h.srcSide_room
  case postPipeline_room => exact h.postPipeline_room
  case incoming_room =>
    have hroom := h.incoming_room
    change d.incoming.elements.tail.length ≤ _
    rw [length_tail]
    omega
  case waiting => exact h.waiting
  case busy => exact h.busy
  case sized => exact h.sized

end Inv

/-! ## What is left to do -/

/-- The moves that messages in the two buffers and the pipeline between them still need, at most. -/
def cost (post : List α) (p : PipelineImpl width numStage cyclePerStage α) (src : List α) : Nat :=
  post.length + (p.work + p.pending.length) + src.length * (numStage * max cyclePerStage 1 + 2)

variable (d) in
def todo : Nat :=
  cost d.src.postPipelineBuf.elements d.src.pipeline d.src.srcSideBuf.elements

theorem todo_eq_zero : d.todo = 0 ↔ d.inside = [] := by
  unfold todo cost inside
  constructor
  · intro h
    have hsrc : d.src.srcSideBuf.elements.length * (numStage * max cyclePerStage 1 + 2) = 0 := by omega
    have hlen := (Nat.mul_eq_zero.mp hsrc).resolve_right (by omega)
    rw [length_eq_zero_iff.mp hlen, length_eq_zero_iff.mp (show d.src.postPipelineBuf.elements.length = 0 by omega),
      length_eq_zero_iff.mp (show d.src.pipeline.pending.length = 0 by omega)]
    rfl
  · intro h
    obtain ⟨h, hsrc⟩ := append_eq_nil_iff.mp h
    obtain ⟨hpost, hpend⟩ := append_eq_nil_iff.mp h
    have hnil := map_eq_nil_iff.mp hpend
    rw [hpost, hsrc, PipelineImpl.work_eq_zero.mpr hnil, hnil]
    simp

/-- Every move leaves less to do. -/
theorem Move.todo (h : Move d d') : d'.todo < d.todo := by
  unfold Direction.todo
  cases h with
  | @hand msg rest hpost hroom =>
    change cost rest d.src.pipeline d.src.srcSideBuf.elements < _
    rw [hpost]
    unfold cost
    rw [length_cons]
    omega
  | shift hprogress =>
    have hlen := (d.src.pipeline.items_tick d.src.postPipelineBuf).length_eq
    have hwork := d.src.pipeline.work_tick d.src.postPipelineBuf
    rw [hprogress, Bool.toNat_true] at hwork
    rw [length_append, length_append, length_map, length_map] at hlen
    change cost (d.src.pipeline.tick d.src.postPipelineBuf).2.2.elements (d.src.pipeline.tick d.src.postPipelineBuf).2.1
      d.src.srcSideBuf.elements < _
    unfold cost
    omega
  | @feed msg rest pipeline postPipelineBuf hsrc hacc =>
    change cost postPipelineBuf.elements pipeline rest < _
    rw [hsrc]
    unfold cost
    rw [length_cons, Nat.add_mul]
    rcases accept_cases hacc with ⟨-, rfl, -, rfl⟩ | ⟨-, ⟨_, hl, rfl⟩, rfl⟩
    · rw [length_append, length_singleton]
      omega
    · have hwork := work_put hl msg
      have hlen := (pending_put hl msg).length_eq
      rw [length_append, length_singleton] at hlen
      omega

theorem todo_of_moves (hmoves : ReflTransGen Move d d') : d'.todo ≤ d.todo := by
  induction hmoves with
  | refl => exact le_refl _
  | tail _ hmove ih => exact hmove.todo.le.trans ih

/-- A direction whose port has room is stuck only when it is empty. -/
theorem inside_of_stuck (hw : 1 ≤ width ∨ numStage = 0) (h : d.Inv) (hroom : d.incoming.canPush = true)
    (htick : d.tick = .ok (progress, d')) (hprogress : progress = false) : d.inside = [] := by
  rcases (tick_moves htick).2 with ⟨htrue, -⟩ | ⟨-, -, hpost, hpipe, hsrc⟩
  · rw [hprogress] at htrue
    cases htrue
  · have hpost := hpost.resolve_right (by rw [hroom]; decide)
    by_cases hacc : d.accepted = []
    · have hperm := h.conserved
      rw [hacc] at hperm
      exact (append_eq_nil_iff.mp hperm.eq_nil).2
    · have hpush : d.src.postPipelineBuf.canPush = true := by
        unfold Buffer.canPush
        rw [hpost]
        exact decide_eq_true (h.sized hacc)
      have hpend : d.src.pipeline.pending = [] := by
        by_contra hne
        rw [PipelineImpl.tick_of_room hpush hne] at hpipe
        cases hpipe
      have hsrc := hsrc.resolve_right (by rw [PipelineImpl.canAccept_of_empty hw hpend hpush]; decide)
      rw [inside, hpost, hpend, hsrc]
      rfl

theorem todo_tick (hw : 1 ≤ width ∨ numStage = 0) (h : d.Inv) (htick : d.tick = .ok (progress, d')) :
    d'.todo + d'.roomy ≤ d.todo + d.roomy ∨ d'.todo = 0 := by
  have hroomy : d'.roomy = d.roomy + d.incoming.canPush.toNat := roomy_of_moves (tick_moves htick).1
  rcases (tick_moves htick).2 with ⟨-, d₁, hfirst, hrest⟩ | ⟨hfalse, rfl, -⟩
  · have hone : d₁.todo < d.todo := hfirst.todo
    have hmore := todo_of_moves hrest
    have hle := Bool.toNat_le d.incoming.canPush
    exact .inl (by omega)
  · cases hroom : d.incoming.canPush with
    | false =>
      rw [hroom, Bool.toNat_false] at hroomy
      exact .inl (by rw [hroomy]; exact le_refl _)
    | true => exact .inr ((todo_eq_zero (d := d)).mpr (inside_of_stuck hw h hroom htick hfalse))

/-! ## Runs of one direction -/

/-- What concerns one direction: its sender asks or sends, a tick, its receiver retrieves. -/
inductive Act (α : Type)
  | canSend
  | send (msg : α)
  | tick
  | retrieve

variable (d) in
def act : Act α → Except String (Direction width numStage cyclePerStage bufSize portSize α)
  | .canSend => .ok d.canSend.2
  | .send msg => .ok (d.send msg).2
  | .tick => do
    let (_, d) ← d.tick
    return d
  | .retrieve => .ok d.retrieve

variable (d) in
def run (acts : List (Act α)) : Except String (Direction width numStage cyclePerStage bufSize portSize α) :=
  acts.foldlM act d

theorem Inv.act (h : d.Inv) {a : Act α} (ha : d.act a = .ok d') : d'.Inv := by
  cases a with
  | canSend =>
    cases ha
    exact h.canSend
  | send msg =>
    cases ha
    exact h.send msg
  | tick =>
    obtain ⟨⟨_, _⟩, htick, hret⟩ := eq_ok_of_bind ha
    cases hret
    exact h.tick htick
  | retrieve =>
    cases ha
    exact h.retrieve

theorem Inv.run (h : d.Inv) {acts : List (Act α)} (hrun : d.run acts = .ok d') : d'.Inv :=
  of_foldlM hrun h fun _ _ _ _ hb hact => hb.act hact

/-- Without a further message, ticks that find room in the port empty the direction. -/
theorem inside_of_run (hw : 1 ≤ width ∨ numStage = 0) (h : d.Inv) {acts : List (Act α)} (hacts : ∀ msg, .send msg ∉ acts)
    (hrun : d.run acts = .ok d') (hroomy : d.roomy + d.todo ≤ d'.roomy) : d'.accepted = d.accepted ∧ d'.inside = [] := by
  have hall : d'.Inv ∧ d'.accepted = d.accepted ∧ (d'.todo + d'.roomy ≤ d.todo + d.roomy ∨ d'.todo = 0) := by
    refine of_foldlM (P := fun d₁ => d₁.Inv ∧ d₁.accepted = d.accepted ∧
      (d₁.todo + d₁.roomy ≤ d.todo + d.roomy ∨ d₁.todo = 0))
      hrun ⟨h, rfl, .inl (le_refl _)⟩ fun d₁ a ha d₂ h₁ hact => ⟨h₁.1.act hact, ?_⟩
    cases a with
    | canSend =>
      cases hact
      unfold canSend
      split <;> exact h₁.2
    | send msg => exact absurd ha (hacts msg)
    | retrieve =>
      cases hact
      exact h₁.2
    | tick =>
      obtain ⟨⟨_, _⟩, htick, hret⟩ := eq_ok_of_bind hact
      cases hret
      refine ⟨(accepted_of_moves (tick_moves htick).1).trans h₁.2.1, ?_⟩
      have hmoves := todo_of_moves (tick_moves htick).1
      change d₂.todo ≤ d₁.todo at hmoves
      rcases todo_tick hw h₁.1 htick with hle | hzero
      · rcases h₁.2.2 with h₂ | h₂
        · exact .inl (hle.trans h₂)
        · exact .inr (by omega)
      · exact .inr hzero
  refine ⟨hall.2.1, todo_eq_zero.mp ?_⟩
  rcases hall.2.2 with _ | hzero
  · omega
  · exact hzero

end Direction

end Akita.Noc.Messaging
