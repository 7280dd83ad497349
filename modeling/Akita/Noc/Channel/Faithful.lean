import Akita.Noc.Channel.Traffic

/-!
# What a channel delivers

* `Channel.run_split` : the two directions do not meet, each is run by the operations that concern it;
* `Channel.channel_faithful` : the law of both, for every channel with a lane or without stages;
* `Channel.channel_starves` : with two lanes a message may be overtaken for ever while its sender goes on.
-/

namespace Akita.Noc.Messaging
open Sim Pipelining Option List

/-! ## The two directions -/

variable {π α : Type} [DecidableEq π] {cfg : Config π}

/-- What an operation on the channel is for the direction away from one side. -/
def Op.actOf (cfg : Config π) (side : Side) : Op π α → Option (Direction.Act (Msg π α))
  | .canSend port => if port = side then some .canSend else none
  | .send msg => if msg.src = some (cfg.port side) then some (.send msg) else none
  | .tick => some .tick
  | .retrieve port => if port = side then none else some .retrieve

namespace Channel

variable {u : Unit}

theorem portMustBeConnected_ok {port : π} (h : portMustBeConnected cfg port = .ok u) :
    port = cfg.port .left ∨ port = cfg.port .right := by
  unfold portMustBeConnected at h
  split at h
  · assumption
  · cases h

variable {msg : Msg π α}

theorem msgMustBeValid_ok (h : msgMustBeValid cfg msg = .ok u) :
    (msg.src = some (cfg.port .left) ∧ msg.dst = some (cfg.port .right)) ∨
    (msg.src = some (cfg.port .right) ∧ msg.dst = some (cfg.port .left)) := by
  obtain ⟨src, dst, _⟩ := msg
  obtain ⟨src', hsrc, h₁⟩ := eq_ok_of_bind h
  obtain ⟨dst', hdst, h₂⟩ := eq_ok_of_bind h₁
  obtain ⟨_, hsrc', h₃⟩ := eq_ok_of_bind h₂
  obtain ⟨_, hdst', h₄⟩ := eq_ok_of_bind h₃
  cases src with
  | none => cases hsrc
  | some =>
    cases dst with
    | none => cases hdst
    | some =>
      cases hsrc
      cases hdst
      have hne : src' ≠ dst' := by
        intro heq
        rw [if_pos heq] at h₄
        cases h₄
      rcases portMustBeConnected_ok hsrc' with rfl | rfl
      · rcases portMustBeConnected_ok hdst' with rfl | rfl
        · exact absurd rfl hne
        · exact .inl ⟨rfl, rfl⟩
      · rcases portMustBeConnected_ok hdst' with rfl | rfl
        · exact .inr ⟨rfl, rfl⟩
        · exact absurd rfl hne

variable {c c' : Channel cfg α}

theorem send_left (hvalid : msgMustBeValid cfg msg = .ok u) (hsrc : msg.src = some (cfg.port .left)) :
    c.send msg = .ok ((c.left.send msg).1, { c with left := (c.left.send msg).2 }) := by
  unfold send
  rw [hvalid]
  exact (if_pos hsrc).trans rfl

theorem send_right (hvalid : msgMustBeValid cfg msg = .ok u) (hsrc : msg.src ≠ some (cfg.port .left)) :
    c.send msg = .ok ((c.right.send msg).1, { c with right := (c.right.send msg).2 }) := by
  unfold send
  rw [hvalid]
  exact (if_neg hsrc).trans rfl

omit [DecidableEq π] in
theorem tick_split {progress : Bool} (h : c.tick = .ok (progress, c')) :
    (∃ b, c.left.tick = .ok (b, c'.left)) ∧ ∃ b, c.right.tick = .ok (b, c'.right) := by
  obtain ⟨⟨_, _⟩, hmove, hret⟩ := eq_ok_of_bind h
  cases hret
  obtain ⟨⟨pl, left⟩, hleft, hmove⟩ := eq_ok_of_bind hmove
  obtain ⟨⟨pr, right⟩, hright, hmove⟩ := eq_ok_of_bind hmove
  cases hmove
  refine ⟨⟨c.left.deliverOneEnd.1 || pl, ?_⟩, c.right.deliverOneEnd.1 || pr, ?_⟩
  · change (c.left.deliverOneEnd.2.moveMsgOneEnd >>= _) = _
    rw [show c.left.deliverOneEnd.2.moveMsgOneEnd = .ok (pl, left) from hleft]
    rfl
  · change (c.right.deliverOneEnd.2.moveMsgOneEnd >>= _) = _
    rw [show c.right.deliverOneEnd.2.moveMsgOneEnd = .ok (pr, right) from hright]
    rfl

theorem tick_ok (c : Channel cfg α) : ∃ c', c.step .tick = .ok c' := by
  obtain ⟨⟨pl, left⟩, hl⟩ := Direction.moveMsg_ok c.left.deliverOneEnd.2
  obtain ⟨⟨pr, right⟩, hr⟩ := Direction.moveMsg_ok c.right.deliverOneEnd.2
  refine ⟨{ left, right }, ?_⟩
  have hmove : c.deliver.2.moveMsg = .ok (pl || pr, { left, right }) := by
    change (c.left.deliverOneEnd.2.moveMsgOneEnd >>= _) = _
    rw [hl]
    change (c.right.deliverOneEnd.2.moveMsgOneEnd >>= _) = _
    rw [hr]
    rfl
  change ((c.deliver.2.moveMsg >>= _) >>= _) = _
  rw [hmove]
  rfl

variable {op : Op π α}

theorem step_split (h : c.step op = .ok c') :
    c.left.run (op.actOf cfg .left).toList = .ok c'.left ∧ c.right.run (op.actOf cfg .right).toList = .ok c'.right := by
  cases op with
  | canSend port => cases port <;> cases h <;> exact ⟨rfl, rfl⟩
  | retrieve port => cases port <;> cases h <;> exact ⟨rfl, rfl⟩
  | send msg =>
    obtain ⟨⟨_, c₁⟩, hsend, hret⟩ := eq_ok_of_bind h
    cases hret
    obtain ⟨_, hvalid, -⟩ := eq_ok_of_bind hsend
    have hne := cfg.distinct
    rcases msgMustBeValid_ok hvalid with ⟨hsrc, -⟩ | ⟨hsrc, -⟩
    · have hright : msg.src ≠ some (cfg.port .right) := by
        rw [hsrc]
        exact fun heq => hne (some.inj heq)
      rw [send_left hvalid hsrc] at hsend
      cases hsend
      have hact : (Op.send msg).actOf cfg .left = some (.send msg) := if_pos hsrc
      have hact' : (Op.send msg).actOf cfg .right = none := if_neg hright
      rw [hact, hact']
      exact ⟨rfl, rfl⟩
    · have hleft : msg.src ≠ some (cfg.port .left) := by
        rw [hsrc]
        exact fun heq => hne (some.inj heq).symm
      rw [send_right hvalid hleft] at hsend
      cases hsend
      have hact : (Op.send msg).actOf cfg .left = none := if_neg hleft
      have hact' : (Op.send msg).actOf cfg .right = some (.send msg) := if_pos hsrc
      rw [hact, hact']
      exact ⟨rfl, rfl⟩
  | tick =>
    obtain ⟨⟨_, _⟩, htick, hret⟩ := eq_ok_of_bind h
    cases hret
    obtain ⟨⟨_, hleft⟩, _, hright⟩ := tick_split htick
    constructor
    · change ((c.left.tick >>= _) >>= _) = _
      rw [hleft]
      rfl
    · change ((c.right.tick >>= _) >>= _) = _
      rw [hright]
      rfl

theorem filterMap_cons_toList {β γ : Type} (f : β → Option γ) (b : β) (bs : List β) :
    (b :: bs).filterMap f = (f b).toList ++ bs.filterMap f := by
  cases hf : f b with
  | none => rw [filterMap_cons_none hf, toList_none, nil_append]
  | some => rw [filterMap_cons_some hf, toList_some, singleton_append]

/-- The two directions do not meet. -/
theorem run_split {ops : List (Op π α)} (h : c.run ops = .ok c') :
    c.left.run (ops.filterMap (Op.actOf cfg .left)) = .ok c'.left ∧ c.right.run (ops.filterMap (Op.actOf cfg .right)) =
      .ok c'.right := by
  induction ops generalizing c with
  | nil =>
    cases h
    exact ⟨rfl, rfl⟩
  | cons _ _ ih =>
    rw [run, foldlM_cons] at h
    obtain ⟨_, hstep, hrest⟩ := eq_ok_of_bind h
    obtain ⟨hleft, hright⟩ := step_split hstep
    obtain ⟨hlefts, hrights⟩ := ih hrest
    rw [filterMap_cons_toList, filterMap_cons_toList]
    unfold Direction.run at *
    rw [foldlM_append, foldlM_append, hleft, hright]
    exact ⟨hlefts, hrights⟩

/-- An operation panics only on a message that is not valid. -/
theorem step_ok (c : Channel cfg α) (h : ∀ msg, op = .send msg → msgMustBeValid cfg msg = .ok ()) :
    ∃ c', c.step op = .ok c' := by
  cases op with
  | canSend port => cases port <;> exact ⟨_, rfl⟩
  | retrieve port => cases port <;> exact ⟨_, rfl⟩
  | tick => exact c.tick_ok
  | send msg =>
    have hvalid := h msg rfl
    by_cases hsrc : msg.src = some (cfg.port .left)
    · exact ⟨{ c with left := (c.left.send msg).2 }, by rw [step, send_left hvalid hsrc]; rfl⟩
    · exact ⟨{ c with right := (c.right.send msg).2 }, by rw [step, send_right hvalid hsrc]; rfl⟩

theorem run_ok (c : Channel cfg α) {ops : List (Op π α)} (h : ∀ msg, .send msg ∈ ops → msgMustBeValid cfg msg = .ok ()) :
    ∃ c', c.run ops = .ok c' := by
  induction ops generalizing c with
  | nil => exact ⟨c, rfl⟩
  | cons _ _ ih =>
    obtain ⟨c₁, hc₁⟩ := c.step_ok fun msg hop => h msg (hop ▸ mem_cons_self)
    obtain ⟨c₂, hc₂⟩ := ih c₁ fun msg hmem => h msg (mem_cons_of_mem _ hmem)
    exact ⟨c₂, by rw [run, foldlM_cons, hc₁]; exact hc₂⟩

/-- The messages of a direction are from its sender and for its receiver. -/
structure Addressed (c : Channel cfg α) : Prop where
  left : ∀ msg ∈ c.left.accepted, msg.src = some (cfg.port .left) ∧ msg.dst = some (cfg.port .right)
  right : ∀ msg ∈ c.right.accepted, msg.src = some (cfg.port .right) ∧ msg.dst = some (cfg.port .left)

theorem Addressed.step (h : c.Addressed) (hstep : c.step op = .ok c') : c'.Addressed := by
  cases op with
  | canSend port =>
    cases port <;> cases hstep
    · refine ⟨?_, h.right⟩
      change ∀ msg ∈ c.left.canSend.2.accepted, _
      unfold Direction.canSend
      split <;> exact h.left
    · refine ⟨h.left, ?_⟩
      change ∀ msg ∈ c.right.canSend.2.accepted, _
      unfold Direction.canSend
      split <;> exact h.right
  | retrieve port =>
    cases port <;> cases hstep <;> exact ⟨h.left, h.right⟩
  | tick =>
    obtain ⟨⟨_, c₁⟩, htick, hret⟩ := eq_ok_of_bind hstep
    cases hret
    obtain ⟨⟨_, hleft⟩, _, hright⟩ := tick_split htick
    have haccl : c'.left.accepted = c.left.accepted := Direction.accepted_tick hleft
    have haccr : c'.right.accepted = c.right.accepted := Direction.accepted_tick hright
    exact ⟨by rw [haccl]; exact h.left, by rw [haccr]; exact h.right⟩
  | send =>
    obtain ⟨⟨_, _⟩, hsend, hret⟩ := eq_ok_of_bind hstep
    cases hret
    obtain ⟨_, hvalid, -⟩ := eq_ok_of_bind hsend
    rcases msgMustBeValid_ok hvalid with hends | hends
    · rw [send_left hvalid hends.1] at hsend
      cases hsend
      refine ⟨fun m hm => ?_, h.right⟩
      rcases Direction.mem_accepted_send hm with hold | rfl
      · exact h.left m hold
      · exact hends
    · rw [send_right hvalid (by rw [hends.1]; exact fun heq => cfg.distinct (some.inj heq).symm)] at hsend
      cases hsend
      refine ⟨h.left, fun m hm => ?_⟩
      rcases Direction.mem_accepted_send hm with hold | rfl
      · exact h.right m hold
      · exact hends

theorem channel_faithful (hw : 1 ≤ cfg.pipelineWidth ∨ cfg.pipelineNumStages = 0) (ops : List (Op π α)) (c : Channel cfg α)
    (h : ({} : Channel cfg α).run ops = .ok c) :
    c.left.Law ∧ c.right.Law ∧ c.Addressed ∧ (∃ c', c.step .tick = .ok c') ∧
      ∀ ops' c', c.run ops' = .ok c' → c.left.run (ops'.filterMap (Op.actOf cfg .left)) = .ok c'.left ∧
        c.right.run (ops'.filterMap (Op.actOf cfg .right)) = .ok c'.right := by
  obtain ⟨hleft, hright⟩ := run_split h
  refine ⟨(Direction.Inv.new.run hleft).law hw, (Direction.Inv.new.run hright).law hw, ?_, c.tick_ok, fun _ _ => run_split⟩
  refine of_foldlM h ⟨?_, ?_⟩ fun _ _ _ _ hc hstep => hc.step hstep
  · intro msg hmsg
    cases hmsg
  · intro msg hmsg
    cases hmsg

/-- Two ports joined by pipelines of `width` lanes with one stage, and with room for one message everywhere. -/
def small (width : Nat) : Config Bool where
  pipelineWidth := width
  pipelineNumStages := 1
  pipelineCyclesPerStage := 1
  port := fun side => side = .left
  sourceSideBufSize := fun _ => 1
  portBufSize := fun _ => 1
  distinct := by decide

/-- The `k`-th message from left to right. -/
def numbered (k : Nat) : Msg Bool Nat := ⟨some true, some false, k⟩

theorem channel_faithful_small : ∃ c : Channel (small 1) Nat,
    ({} : Channel (small 1) Nat).run [.send (numbered 0), .tick, .send (numbered 1), .tick, .tick] = .ok c ∧
      c.left.incoming.elements = [numbered 0] ∧ c.left.Law ∧ c.right.Law ∧ c.Addressed := by
  have hrun : Succeeds (fun c : Channel (small 1) Nat => decide (c.left.incoming.elements = [numbered 0]) = true)
      (({} : Channel (small 1) Nat).run [.send (numbered 0), .tick, .send (numbered 1), .tick, .tick]) :=
        .of_any (by decide +kernel)
  obtain ⟨c, hc, hdone⟩ := hrun
  have h := channel_faithful (.inl (le_refl 1)) _ c hc
  exact ⟨c, hc, of_decide_eq_true hdone, h.1, h.2.1, h.2.2.1⟩

/-- The receiver takes a message, the sender sends the next one, and the channel ticks. -/
def round (k : Nat) : List (Op Bool Nat) := [.retrieve .right, .send (numbered k), .tick]

def start : List (Op Bool Nat) :=
  [.send (numbered 0), .tick, .send (numbered 1), .tick, .send (numbered 2), .tick, .send (numbered 3), .tick]

/-- A direction whose second lane holds a message while the first one is always busy. -/
structure Starving (d : Direction 2 1 1 1 1 (Msg Bool Nat)) : Prop where
  srcSideBuf : d.src.srcSideBuf.elements = []
  others : ∃ a b z, d.src.postPipelineBuf.elements = [a] ∧ d.incoming.elements = [z] ∧
    d.src.pipeline.stages = [[some (b, 0)], [some (numbered 3, 0)]] ∧ a ≠ numbered 3 ∧ b ≠ numbered 3 ∧ z ≠ numbered 3
  retrieved : numbered 3 ∉ d.retrieved

variable {d : Direction 2 1 1 1 1 (Msg Bool Nat)}

theorem Starving.round (h : Starving d) {msg : Msg Bool Nat} (hmsg : msg ≠ numbered 3) :
    ∃ d', d.run [.retrieve, .send msg, .tick] = .ok d' ∧ Starving d' ∧ d'.roomy = d.roomy + 1 := by
  obtain ⟨hsrc, ⟨a, b, z, hpost, hinc, hstages, ha, hb, hz⟩, hret⟩ := h
  obtain ⟨⟨⟨_⟩, ⟨_⟩, ⟨_, _, _, _⟩, _⟩, ⟨_⟩, _, retrieved, _, _⟩ := d
  cases hsrc
  cases hpost
  cases hinc
  cases hstages
  refine ⟨_, rfl, ⟨rfl, ⟨b, msg, a, rfl, rfl, rfl, hb, hmsg, ha⟩, ?_⟩, rfl⟩
  change numbered 3 ∉ retrieved ++ [z]
  simp [hret, Ne.symm hz]

theorem Starving.rounds (h : Starving d) (n : Nat) :
    ∃ d', d.run ((range n).flatMap fun k => [.retrieve, .send (numbered (k + 4)), .tick]) = .ok d' ∧ Starving d' ∧
      d'.roomy = d.roomy + n := by
  induction n with
  | zero => exact ⟨d, rfl, h, rfl⟩
  | succ n ih =>
    obtain ⟨_, hrun, h₁, _⟩ := ih
    have hmsg : numbered (n + 4) ≠ numbered 3 := by
      intro heq
      have hdata := congrArg Msg.data heq
      exact absurd hdata (by change n + 4 ≠ 3; omega)
    obtain ⟨d₂, hround, h₂, _⟩ := h₁.round hmsg
    refine ⟨d₂, ?_, h₂, by omega⟩
    unfold Direction.run at hrun hround ⊢
    rw [range_succ, flatMap_append, foldlM_append, hrun, flatMap_singleton]
    exact hround

theorem Starving.not_delivered (h : Starving d) : numbered 3 ∉ d.delivered := by
  obtain ⟨-, ⟨a, _, _, -, hinc, -, -, -, hz⟩, hret⟩ := h
  rw [Direction.delivered, hinc]
  simp [hret, Ne.symm hz]

/-- With two lanes a message can be overtaken for ever, by messages sent after it, and without a lane none is delivered. -/
theorem channel_starves :
    (∃ c : Channel (small 2) Nat, ({} : Channel (small 2) Nat).run start = .ok c ∧ numbered 3 ∈ c.left.accepted ∧
      ∀ n, ∃ c', c.run ((range n).flatMap fun k => round (k + 4)) = .ok c' ∧ c'.left.roomy = c.left.roomy + n ∧
        numbered 3 ∉ c'.left.delivered) ∧
    ∃ c : Channel (small 0) Nat, ({} : Channel (small 0) Nat).run [.send (numbered 0)] = .ok c ∧
    numbered 0 ∈ c.left.accepted ∧
      ∀ ops c', c.run ops = .ok c' → c'.left.delivered = [] := by
  constructor
  · have hstart : ∃ c : Channel (small 2) Nat, ({} : Channel (small 2) Nat).run start = .ok c ∧ numbered 3 ∈ c.left.accepted ∧
        Starving c.left := by
      refine ⟨_, rfl, ?_, rfl, ⟨numbered 1, numbered 2, numbered 0, rfl, rfl, rfl, ?_, ?_, ?_⟩, ?_⟩ <;> decide
    obtain ⟨c, hc, hmem, hstarving⟩ := hstart
    refine ⟨c, hc, hmem, fun n => ?_⟩
    have hvalid : ∀ msg, .send msg ∈ ((range n).flatMap fun k => round (k + 4)) → msgMustBeValid (small 2) msg = .ok () := by
      intro msg hmsg
      obtain ⟨_, -, hk⟩ := mem_flatMap.mp hmsg
      simp only [round, mem_cons, Op.send.injEq, reduceCtorEq, not_mem_nil, or_false, false_or] at hk
      rw [hk]
      rfl
    obtain ⟨c', hrun⟩ := c.run_ok hvalid
    obtain ⟨_, hd, hstarving', hroomy⟩ := hstarving.rounds n
    have hleft := (run_split hrun).1
    rw [filterMap_flatMap] at hleft
    have heq := hleft.symm.trans hd
    cases heq
    exact ⟨c', hrun, hroomy, hstarving'.not_delivered⟩
  · have hstart : ∃ c : Channel (small 0) Nat, ({} : Channel (small 0) Nat).run [.send (numbered 0)] = .ok c ∧
        numbered 0 ∈ c.left.accepted := ⟨_, rfl, by decide⟩
    obtain ⟨c, hc, hmem⟩ := hstart
    refine ⟨c, hc, hmem, fun ops c' hrun => ?_⟩
    have hall : ({} : Channel (small 0) Nat).run ([.send (numbered 0)] ++ ops) = .ok c' := by
      unfold run at hc hrun ⊢
      rw [foldlM_append, hc]
      exact hrun
    exact Direction.not_delivered_of_no_lane rfl (by decide) (run_split hall).1

end Channel

end Akita.Noc.Messaging
