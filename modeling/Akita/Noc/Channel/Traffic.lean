import Akita.Noc.Channel.Moves

/-!
# A direction under traffic

* `toGo` : what the messages accepted first still have to go. In one lane every tick that finds room in the port leaves less
  of it (`toGo_tick`), whatever is sent meanwhile, so they are all delivered (`delivered_of_run`);
* `Law` : what holds of a direction after every run.
-/

namespace Akita.Noc.Messaging
open Sim Pipelining List

variable {width numStage cyclePerStage bufSize portSize : Nat} {α : Type}

namespace Direction
open Relation (ReflTransGen)

variable {d d' : Direction width numStage cyclePerStage bufSize portSize α}

/-! ## One lane under traffic

In one lane nothing overtakes, so what is sent later does not delay what was sent before. -/

/-- The moves each message still needs, at most, those closest to the port first. -/
def weightsOf (post : List α) (p : PipelineImpl width numStage cyclePerStage α) (src : List α) : List Nat :=
  (post.map fun _ => 1) ++ (p.pending.map fun a => a.2 + 1) ++ src.map fun _ => numStage * max cyclePerStage 1 + 2

variable (d) in
def weights : List Nat :=
  weightsOf d.src.postPipelineBuf.elements d.src.pipeline d.src.srcSideBuf.elements

/-- What the first `a` accepted messages still have to go. -/
def toGo (a : Nat) (d : Direction width numStage cyclePerStage bufSize portSize α) : Nat :=
  (d.weights.take (a - d.delivered.length)).sum

theorem sum_take_le {xs ys : List Nat} (h : List.Forall₂ (· ≤ ·) xs ys) (k : Nat) : (xs.take k).sum ≤ (ys.take k).sum := by
  have htake := forall₂_take k h
  generalize xs.take k = us, ys.take k = vs at htake
  induction htake with
  | nil => exact le_refl _
  | cons hab _ ih => exact Nat.add_le_add hab ih

theorem sum_take_lt {x y : Nat} {xs ys : List Nat} (hxy : x < y) (h : List.Forall₂ (· ≤ ·) xs ys) {k : Nat} (hk : 0 < k) :
    ((x :: xs).take k).sum < ((y :: ys).take k).sum := by
  obtain ⟨k, rfl⟩ := Nat.exists_eq_succ_of_ne_zero hk.ne'
  exact Nat.add_lt_add_of_lt_of_le hxy (sum_take_le h k)

theorem le_refl_weights (xs : List Nat) : List.Forall₂ (· ≤ ·) xs xs := forall₂_same.mpr fun x _ => le_refl x

theorem weights_shifted_eq {out : List α}
    (hout : (d.src.pipeline.tick d.src.postPipelineBuf).2.2.elements = d.src.postPipelineBuf.elements ++ out) :
    d.shifted.weights = (d.src.postPipelineBuf.elements.map fun _ => 1) ++
      ((out.map (·, 0) ++ (d.src.pipeline.tick d.src.postPipelineBuf).2.1.pending).map fun a : α × Nat => a.2 + 1) ++
      d.src.srcSideBuf.elements.map fun _ => numStage * max cyclePerStage 1 + 2 := by
  unfold weights weightsOf shifted
  dsimp only
  rw [hout, map_append, map_append, map_map]
  simp only [append_assoc, Function.comp_def, Nat.zero_add]

theorem weights_shifted (hw : width ≤ 1 ∨ numStage = 0) (d : Direction width numStage cyclePerStage bufSize portSize α) :
    List.Forall₂ (· ≤ ·) d.shifted.weights d.weights := by
  obtain ⟨_, hout, haged⟩ := d.src.pipeline.aged_tick_single hw d.src.postPipelineBuf
  rw [weights_shifted_eq hout]
  refine rel_append (rel_append (le_refl_weights _) ?_) (le_refl_weights _)
  rw [forall₂_map_left_iff, forall₂_map_right_iff]
  refine haged.flip.imp fun a b hab => ?_
  rcases hab.2 with h | ⟨-, h⟩ <;> omega

theorem weights_feed (hw : width ≤ 1 ∨ numStage = 0) {p p' : PipelineImpl width numStage cyclePerStage α}
    {buf buf' : Buffer bufSize α} {msg : α} (h : p.accept buf msg = .ok (p', buf')) (rest : List α) :
    ∃ x y ws, x < y ∧ weightsOf buf'.elements p' rest = weightsOf buf.elements p [] ++ x :: ws ∧
      weightsOf buf.elements p (msg :: rest) = weightsOf buf.elements p [] ++ y :: ws := by
  rcases PipelineImpl.accept_cases h with ⟨hstage, rfl, -, rfl⟩ | ⟨-, ⟨_, hl, rfl⟩, rfl⟩
  · refine ⟨1, numStage * max cyclePerStage 1 + 2, rest.map fun _ => numStage * max cyclePerStage 1 + 2, by omega, ?_, ?_⟩
    · unfold weightsOf
      rw [p'.pending_eq_lane hw, p'.lane_of_no_stage hstage]
      simp
    · unfold weightsOf
      simp
  · refine ⟨numStage * max cyclePerStage 1 + 1, numStage * max cyclePerStage 1 + 2,
      rest.map fun _ => numStage * max cyclePerStage 1 + 2, by omega, ?_, ?_⟩
    · unfold weightsOf
      rw [PipelineImpl.pending_put_single hw hl]
      simp
    · unfold weightsOf
      simp

theorem toGo_hand {msg : α} {rest : List α} (hpost : d.src.postPipelineBuf.elements = msg :: rest) (a : Nat) :
    (d.handed msg rest).toGo a + (if d.delivered.length < a then 1 else 0) = d.toGo a := by
  have hcons : d.weights = 1 :: weightsOf rest d.src.pipeline d.src.srcSideBuf.elements := by
    rw [weights, hpost]
    rfl
  have hlen : (d.retrieved ++ (d.incoming.elements ++ [msg])).length = d.delivered.length + 1 := by
    rw [← append_assoc, length_append]
    rfl
  change ((weightsOf rest d.src.pipeline d.src.srcSideBuf.elements).take
    (a - (d.retrieved ++ (d.incoming.elements ++ [msg])).length)).sum
    + _ = (d.weights.take (a - d.delivered.length)).sum
  rw [hlen, hcons]
  by_cases ha : d.delivered.length < a
  · obtain ⟨k, hk⟩ : ∃ k, a - d.delivered.length = k + 1 := ⟨a - d.delivered.length - 1, by omega⟩
    rw [if_pos ha, hk, show a - (d.delivered.length + 1) = k by omega, take_succ_cons, sum_cons, Nat.add_comm]
  · rw [if_neg ha, show a - (d.delivered.length + 1) = 0 by omega, show a - d.delivered.length = 0 by omega]
    rfl

theorem Move.toGo (hw : width ≤ 1 ∨ numStage = 0) (h : Move d d') (a : Nat) : d'.toGo a ≤ d.toGo a := by
  cases h with
  | hand hpost =>
    rw [← toGo_hand hpost a]
    exact Nat.le_add_right ..
  | shift => exact sum_take_le (weights_shifted hw d) _
  | @feed msg rest pipeline postPipelineBuf hsrc hacc =>
    obtain ⟨_, _, _, hxy, hx, hy⟩ := weights_feed hw hacc rest
    refine sum_take_le ?_ _
    rw [weights, weights, hsrc]
    dsimp only
    rw [hx, hy]
    exact rel_append (le_refl_weights _) (.cons hxy.le (le_refl_weights _))

theorem toGo_of_moves (hw : width ≤ 1 ∨ numStage = 0) (hmoves : ReflTransGen Move d d') (a : Nat) : d'.toGo a ≤ d.toGo a := by
  induction hmoves with
  | refl => exact le_refl _
  | tail _ hmove ih => exact (hmove.toGo hw a).trans ih

variable {a : Nat}

theorem toGo_shifted (hw : width ≤ 1 ∨ numStage = 0) (hsize : 0 < bufSize) (hpost : d.src.postPipelineBuf.elements = [])
    (hpend : d.src.pipeline.pending ≠ []) (ha : d.delivered.length < a) : d.shifted.toGo a < d.toGo a := by
  obtain ⟨out, hout, haged⟩ := d.src.pipeline.aged_tick_single hw d.src.postPipelineBuf
  have hle := weights_shifted hw d
  have hpos : ∀ x ∈ d.src.pipeline.pending, 1 ≤ x.2 := by
    intro x hx
    obtain ⟨_, hl⟩ := PipelineImpl.mem_pending.mp hx
    exact PipelineImpl.pos_of_mem_lane hl
  have hhead : ∃ x y xs ys, x < y ∧ d.shifted.weights = x :: xs ∧ d.weights = y :: ys := by
    have hsplit := weights_shifted_eq hout
    have hold : d.weights = ([].map fun _ : α => 1) ++ (d.src.pipeline.pending.map fun a => a.2 + 1) ++
        d.src.srcSideBuf.elements.map fun _ => numStage * max cyclePerStage 1 + 2 := by
      rw [weights, weightsOf, hpost]
    rw [hpost] at hsplit hout
    rw [hsplit, hold]
    generalize d.src.pipeline.pending = pend at haged hpos hpend ⊢
    generalize hbs : out.map (·, 0) ++ (d.src.pipeline.tick d.src.postPipelineBuf).2.1.pending = bs at haged ⊢
    cases haged with
    | nil => exact absurd rfl hpend
    | @cons y x ys xs hyx hrest =>
      refine ⟨x.2 + 1, y.2 + 1, _, _, ?_, rfl, rfl⟩
      rcases hyx.2 with _ | ⟨hfull, heq⟩
      · omega
      · -- a message held back leaves nothing in the buffer, which then is not full
        have hy := hpos y mem_cons_self
        cases out with
        | nil =>
          rw [Buffer.canPush, hout] at hfull
          exact absurd hsize (of_decide_eq_false hfull)
        | cons o =>
          have hx : x = (o, 0) := (cons.inj hbs).1.symm
          rw [hx] at heq
          omega
  obtain ⟨_, _, _, _, hxy, hx, hy⟩ := hhead
  rw [hx, hy] at hle
  unfold toGo
  rw [hx, hy]
  exact sum_take_lt hxy (forall₂_cons.mp hle).2 (by change 0 < a - d.delivered.length; omega)

/-- A tick that finds room in the port brings the messages accepted first closer to it. -/
theorem toGo_tick (hw : width ≤ 1 ∨ numStage = 0) (hw' : 1 ≤ width ∨ numStage = 0) (h : d.Inv)
    (hroom : d.incoming.canPush = true) (ha : d.delivered.length < a) (hinside : d.inside ≠ []) {progress : Bool}
    (htick : d.tick = .ok (progress, d')) : d'.toGo a < d.toGo a := by
  have hstuck := inside_of_stuck hw' h hroom htick
  have hsize : 0 < bufSize := by
    refine h.sized fun hnil => hinside ?_
    have hperm := h.conserved
    rw [hnil] at hperm
    exact (append_eq_nil_iff.mp hperm.eq_nil).2
  rw [tick_eq] at htick
  obtain ⟨⟨_, d₂⟩, hmove, hret⟩ := eq_ok_of_bind htick
  cases hret
  change d₂.toGo a < d.begun.toGo a
  cases hpost : d.begun.src.postPipelineBuf.elements with
  | cons msg rest =>
    -- the first message of the post-pipeline buffer is handed over
    have hhand : (d.begun.hand (msg :: rest)).2 = ((d.begun.handed msg rest).hand rest).2 := by
      rw [hand, if_pos (show d.begun.incoming.canPush = true from hroom)]
      rfl
    rw [hpost, hhand] at hmove
    have hmoves : ReflTransGen Move (d.begun.handed msg rest) d₂ := (hand_moves rfl).trans (moveMsg_moves hmove).1
    have hle := toGo_of_moves hw hmoves a
    have heq := toGo_hand hpost a
    rw [if_pos (show d.begun.delivered.length < a from ha)] at heq
    omega
  | nil =>
    rw [hpost] at hmove hstuck
    change d.begun.moveMsgOneEnd = _ at hmove
    have hle := toGo_of_moves hw (moveMsg_shifted hmove) a
    by_cases hpend : d.begun.src.pipeline.pending = []
    · -- nothing is in the pipeline, so the first message of the sender's buffer enters it
      rcases (moveMsg_moves hmove).2 with ⟨-, _, hfirst, hrest⟩ | ⟨hfalse, -⟩
      · refine Nat.lt_of_le_of_lt (toGo_of_moves hw hrest a) ?_
        cases hfirst with
        | hand hpost' =>
          rw [hpost] at hpost'
          cases hpost'
        | shift hprogress =>
          have hwork := d.begun.src.pipeline.work_tick d.begun.src.postPipelineBuf
          rw [hprogress, PipelineImpl.work_eq_zero.mpr hpend, Bool.toNat_true] at hwork
          omega
        | @feed msg rest pipeline postPipelineBuf hsrc hacc =>
          obtain ⟨_, _, _, hxy, hx, hy⟩ := weights_feed hw hacc rest
          have hnil : weightsOf d.begun.src.postPipelineBuf.elements d.begun.src.pipeline [] = [] := by
            rw [hpost, weightsOf, hpend]
            rfl
          rw [hnil, nil_append] at hx hy
          change ((weightsOf postPipelineBuf.elements pipeline rest).take _).sum < ((weightsOf _ _ _).take _).sum
          rw [hsrc, hx, hy]
          exact sum_take_lt hxy (le_refl_weights _) (by change 0 < a - d.delivered.length; omega)
      · exact absurd (hstuck (by rw [hfalse]; rfl)) hinside
    · exact Nat.lt_of_le_of_lt hle (toGo_shifted hw hsize hpost hpend ha)

variable (d) in
theorem length_weights : d.weights.length = d.inside.length := by
  unfold weights weightsOf inside
  simp only [length_append, length_map]

theorem weights_pos : ∀ w ∈ d.weights, 1 ≤ w := by
  intro w hw
  unfold weights weightsOf at hw
  rcases mem_append.mp hw with hw | hw
  · rcases mem_append.mp hw with hw | hw
    · obtain ⟨_, _, rfl⟩ := mem_map.mp hw
      exact le_refl _
    · obtain ⟨_, _, rfl⟩ := mem_map.mp hw
      exact Nat.le_add_left ..
  · obtain ⟨_, _, rfl⟩ := mem_map.mp hw
    omega

theorem Inv.length_accepted (h : d.Inv) : d.delivered.length + d.inside.length = d.accepted.length := by
  rw [← length_append, h.conserved.length_eq]

theorem le_of_toGo_eq_zero (h : d.Inv) (ha : a ≤ d.accepted.length) (hzero : d.toGo a = 0) : a ≤ d.delivered.length := by
  by_contra hlt
  have hlen := h.length_accepted
  have hweights := length_weights d
  unfold toGo at hzero
  obtain ⟨k, hk⟩ : ∃ k, a - d.delivered.length = k + 1 := ⟨a - d.delivered.length - 1, by omega⟩
  have hpos := weights_pos (d := d)
  rw [hk] at hzero
  cases hw : d.weights with
  | nil =>
    rw [hw, length_nil] at hweights
    omega
  | cons w =>
    have hone := hpos w (by rw [hw]; exact mem_cons_self)
    rw [hw, take_succ_cons, sum_cons] at hzero
    omega

theorem length_delivered_of_moves (hmoves : ReflTransGen Move d d') : d.delivered.length ≤ d'.delivered.length := by
  induction hmoves with
  | refl => exact le_refl _
  | tail _ hmove ih =>
    refine ih.trans ?_
    cases hmove with
    | hand =>
      unfold delivered handed
      simp only [length_append]
      omega
    | shift | feed => exact le_refl _

theorem toGo_send (h : d.Inv) (ha : a ≤ d.accepted.length) (msg : α) : (d.send msg).2.toGo a = d.toGo a := by
  unfold send
  split
  · have hlen := h.length_accepted
    have hweights := length_weights d
    have hsent : weightsOf d.src.postPipelineBuf.elements d.src.pipeline (d.src.srcSideBuf.elements ++ [msg]) =
        d.weights ++ [numStage * max cyclePerStage 1 + 2] := by
      unfold weights weightsOf
      simp
    change ((weightsOf _ _ _).take (a - d.delivered.length)).sum = (d.weights.take (a - d.delivered.length)).sum
    rw [hsent, take_append_of_le_length (by omega)]
  · rfl

theorem mem_accepted_send {msg m : α} (h : m ∈ (d.send msg).2.accepted) : m ∈ d.accepted ∨ m = msg := by
  unfold send at h
  split at h
  · rcases mem_append.mp h with hold | hnew
    · exact .inl hold
    · exact .inr (mem_singleton.mp hnew)
  · exact .inl h

variable (d) in
theorem accepted_send (msg : α) : d.accepted <+: (d.send msg).2.accepted := by
  unfold send
  split
  · exact prefix_append ..
  · exact prefix_rfl

/-- In one lane, ticks that find room in the port deliver every message accepted before, whatever is sent meanwhile. -/
theorem delivered_of_run (hw : width = 1 ∨ numStage = 0) (h : d.Inv) {acts : List (Act α)} (hrun : d.run acts = .ok d')
    (hroomy : d.roomy + d.toGo d.accepted.length ≤ d'.roomy) : d.accepted <+: d'.delivered := by
  have hw₁ : width ≤ 1 ∨ numStage = 0 := hw.imp_left le_of_eq
  have hw₂ : 1 ≤ width ∨ numStage = 0 := hw.imp_left ge_of_eq
  let P (d₁ : Direction width numStage cyclePerStage bufSize portSize α) : Prop := d₁.Inv ∧ d.accepted <+: d₁.accepted ∧
    (d₁.toGo d.accepted.length + d₁.roomy ≤ d.toGo d.accepted.length + d.roomy ∨ d.accepted.length ≤ d₁.delivered.length)
  have hP : P d' := by
    refine of_foldlM hrun ⟨h, prefix_rfl, .inl (le_refl _)⟩ fun d₁ a _ d₂ h₁ hact => ⟨h₁.1.act hact, ?_⟩
    obtain ⟨hinv, hacc, hgo⟩ := h₁
    cases a with
    | canSend =>
      cases hact
      unfold canSend
      split <;> exact ⟨hacc, hgo⟩
    | send msg =>
      cases hact
      refine ⟨hacc.trans (accepted_send d₁ msg), ?_⟩
      rw [toGo_send hinv hacc.length_le]
      unfold send
      split <;> exact hgo
    | retrieve =>
      cases hact
      have hdelivered := delivered_retrieve d₁
      unfold toGo at hgo ⊢
      rw [hdelivered]
      exact ⟨hacc, hgo⟩
    | tick =>
      obtain ⟨⟨_, _⟩, htick, hret⟩ := eq_ok_of_bind hact
      cases hret
      have hmoves := (tick_moves htick).1
      have hroomy : d₂.roomy = d₁.roomy + d₁.incoming.canPush.toNat := roomy_of_moves hmoves
      refine ⟨by rw [accepted_of_moves hmoves]; exact hacc, ?_⟩
      have hlen : d₁.delivered.length ≤ d₂.delivered.length := length_delivered_of_moves (d := d₁.begun) hmoves
      by_cases hlt : d₁.delivered.length < d.accepted.length
      · have hgo := hgo.resolve_right (by omega)
        refine .inl ?_
        cases hroom : d₁.incoming.canPush with
        | false =>
          have hle : d₂.toGo d.accepted.length ≤ d₁.toGo d.accepted.length := toGo_of_moves hw₁ hmoves _
          rw [hroom, Bool.toNat_false] at hroomy
          omega
        | true =>
          have hinside : d₁.inside ≠ [] := by
            intro hnil
            have hsum := hinv.length_accepted
            have hle := hacc.length_le
            rw [hnil, length_nil] at hsum
            omega
          have hstrict := toGo_tick hw₁ hw₂ hinv hroom hlt hinside htick
          rw [hroom, Bool.toNat_true] at hroomy
          omega
      · exact .inr (by omega)
  obtain ⟨hinv, hacc, hgo⟩ := hP
  have hlen : d.accepted.length ≤ d'.delivered.length := by
    rcases hgo with _ | hlen
    · exact le_of_toGo_eq_zero hinv hacc.length_le (by omega)
    · exact hlen
  have hpre : d'.delivered <+: d'.accepted := ⟨_, hinv.inOrder hw₁⟩
  exact prefix_of_prefix_length_le hacc hpre hlen

/-- Without lanes nothing is delivered. -/
theorem not_delivered_of_no_lane (hw : width = 0) (hstage : numStage ≠ 0) {acts : List (Act α)}
    (hrun : ({} : Direction width numStage cyclePerStage bufSize portSize α).run acts = .ok d') : d'.delivered = [] := by
  let P (d₁ : Direction width numStage cyclePerStage bufSize portSize α) : Prop :=
    d₁.src.postPipelineBuf.elements = [] ∧ d₁.delivered = []
  have hmove : ∀ d₁ d₂ : Direction width numStage cyclePerStage bufSize portSize α, Move d₁ d₂ → P d₁ → P d₂ := by
    intro d₁ d₂ hm h₁
    cases hm with
    | hand hpost =>
      rw [h₁.1] at hpost
      cases hpost
    | shift hprogress =>
      have hwork := d₁.src.pipeline.work_tick d₁.src.postPipelineBuf
      have hnil : d₁.src.pipeline.pending = [] := by
        rw [d₁.src.pipeline.pending_eq_lane (.inl (by omega))]
        unfold PipelineImpl.lane
        rw [length_eq_zero_iff.mp (d₁.src.pipeline.length_stages.trans hw)]
        rfl
      rw [hprogress, PipelineImpl.work_eq_zero.mpr hnil, Bool.toNat_true] at hwork
      omega
    | feed _ hacc =>
      rcases PipelineImpl.accept_cases hacc with ⟨hzero, -⟩ | ⟨-, ⟨_, hl, -⟩, -⟩
      · exact absurd hzero hstage
      · obtain ⟨_, hrest⟩ := PipelineImpl.freeLane_eq hl
        rw [length_eq_zero_iff.mp (d₁.src.pipeline.length_stages.trans hw)] at hrest
        cases hrest
  have hP : P d' := by
    refine of_foldlM hrun ⟨rfl, rfl⟩ fun d₁ a _ d₂ h₁ hact => ?_
    cases a with
    | canSend =>
      cases hact
      unfold canSend
      split <;> exact h₁
    | send =>
      cases hact
      unfold send
      split <;> exact h₁
    | retrieve =>
      cases hact
      exact ⟨h₁.1, (delivered_retrieve d₁).trans h₁.2⟩
    | tick =>
      obtain ⟨⟨_, _⟩, htick, hret⟩ := eq_ok_of_bind hact
      cases hret
      have hmoves := (tick_moves htick).1
      clear hact htick
      induction hmoves with
      | refl => exact h₁
      | tail _ hm ih => exact hmove _ _ hm ih
  exact hP.2

/-! ## The law of a direction -/

variable (d) in
structure Law : Prop where
  /-- each accepted message is delivered or still inside, once -/
  conserved : (d.delivered ++ d.inside).Perm d.accepted
  /-- in one lane the messages arrive in the order they were sent -/
  inOrder : width = 1 ∨ numStage = 0 → d.delivered <+: d.accepted
  room : d.src.srcSideBuf.elements.length ≤ bufSize ∧ d.src.postPipelineBuf.elements.length ≤ bufSize ∧
    d.incoming.elements.length ≤ portSize
  /-- a refused sender is still to be notified only while there is no space -/
  notified : d.waiting = true → d.src.srcSideBuf.canPush = false
  /-- ticks that find room in the port deliver everything, once the sender pauses -/
  drains : ∀ acts d', (∀ msg, .send msg ∉ acts) → d.run acts = .ok d' → d.roomy + d.todo ≤ d'.roomy →
    d'.delivered.Perm d.accepted
  /-- and, in one lane, while it goes on sending -/
  arrives : width = 1 ∨ numStage = 0 → ∀ acts d', d.run acts = .ok d' → d.roomy + d.toGo d.accepted.length ≤ d'.roomy →
    d.accepted <+: d'.delivered

theorem Inv.law (h : d.Inv) (hw : 1 ≤ width ∨ numStage = 0) : d.Law where
  conserved := h.conserved
  inOrder := fun hone => ⟨_, h.inOrder (hone.imp_left le_of_eq)⟩
  room := ⟨h.srcSide_room, h.postPipeline_room, h.incoming_room⟩
  notified := by
    intro hwait
    rw [h.waiting] at hwait
    exact h.busy hwait
  drains := by
    intro acts d' hacts hrun hroomy
    obtain ⟨hacc, hnil⟩ := inside_of_run hw h hacts hrun hroomy
    have hconserved := (h.run hrun).conserved
    rwa [hnil, append_nil, hacc] at hconserved
  arrives := fun hone _ _ hrun hroomy => delivered_of_run hone h hrun hroomy

end Direction

end Akita.Noc.Messaging
