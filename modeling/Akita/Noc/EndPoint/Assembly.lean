import Akita.Noc.EndPoint.Outgoing

/-!
# The incoming side of an end point

* `filter_flits` : the flits of a message are found by its ID;
* `Assembly` : the counters of the messages in assembly agree with the flits received, and a message is given up for delivery
  once, when all its flits are there. `Assembly.arrive`, `Assembly.assemble` : a flit and an assembling keep it so;
* `Node.tick_delivered`, `Node.tick_assembled`, `Node.tick_assembling`, `Node.tick_networkPort`, `Node.tick_received` : what a
  tick does to the incoming side.
-/

namespace Akita.Noc.Switching
open Sim List

variable {π : Type} {cfg : Config π}

/-- The flits of a message. -/
def countOf (id : Nat) (flits : List (Flit π)) : Nat := flits.countP fun f => f.msg.id = id

theorem countOf_append (id : Nat) (l l' : List (Flit π)) : countOf id (l ++ l') = countOf id l + countOf id l' :=
  countP_append

theorem countOf_singleton (id : Nat) (f : Flit π) : countOf id [f] = if f.msg.id = id then 1 else 0 := by
  unfold countOf
  by_cases h : f.msg.id = id <;> simp [h]

theorem countOf_pos {id : Nat} {flits : List (Flit π)} : 0 < countOf id flits ↔ ∃ f ∈ flits, f.msg.id = id := by
  unfold countOf
  rw [countP_pos_iff]
  simp

/-- The flits of a message are those of its ID. -/
theorem filter_flits {msgs : List (Msg π)} (hids : (msgs.map Msg.id).Nodup) {m : Msg π} (hm : m ∈ msgs) :
    (msgs.flatMap cfg.msgToFlits).filter (fun f => decide (f.msg.id = m.id)) = cfg.msgToFlits m := by
  have hmsg : ∀ m' : Msg π, ∀ f ∈ cfg.msgToFlits m', f.msg = m' := by
    intro m' f hf
    obtain ⟨_, -, rfl⟩ := mem_map.mp hf
    rfl
  have hothers : ∀ l : List (Msg π), m.id ∉ l.map Msg.id →
      (l.flatMap cfg.msgToFlits).filter (fun f => decide (f.msg.id = m.id)) = [] := by
    intro l hl
    rw [filter_eq_nil_iff]
    intro f hf
    obtain ⟨m', hm', hf'⟩ := mem_flatMap.mp hf
    rw [hmsg m' f hf', decide_eq_true_eq]
    exact fun heq => hl (heq ▸ mem_map_of_mem hm')
  obtain ⟨pre, post, rfl⟩ := append_of_mem hm
  rw [map_append, map_cons, nodup_middle, nodup_cons, ← map_append] at hids
  rw [flatMap_append, flatMap_cons, filter_append, filter_append,
    hothers pre fun h => hids.1 (by rw [map_append]; exact mem_append_left _ h),
    hothers post fun h => hids.1 (by rw [map_append]; exact mem_append_right _ h), nil_append, append_nil]
  exact filter_eq_self.mpr fun f hf => decide_eq_true (congrArg Msg.id (hmsg m f hf))

theorem countOf_flits {msgs : List (Msg π)} (hids : (msgs.map Msg.id).Nodup) {m : Msg π} (hm : m ∈ msgs) :
    countOf m.id (msgs.flatMap cfg.msgToFlits) = cfg.numFlit m := by
  rw [countOf, countP_eq_length_filter, filter_flits hids hm, Config.length_msgToFlits]

def MsgToAssemble.complete (e : MsgToAssemble π) : Bool := decide (e.numFlitRequired ≤ e.numFlitArrived)

/-- What the receiver knows of the messages `msgs` of the sender. -/
structure Assembly (cfg : Config π) (msgs : List (Msg π)) (received : List (Flit π)) (assembling : List (MsgToAssemble π))
    (completed : List (Msg π)) : Prop where
  distinct : ((assembling.map MsgToAssemble.msg ++ completed).map Msg.id).Nodup
  known : ∀ m ∈ assembling.map MsgToAssemble.msg ++ completed, m ∈ msgs
  counted : ∀ e ∈ assembling, e.numFlitRequired = cfg.numFlit e.msg ∧ e.numFlitArrived = countOf e.msg.id received ∧
    0 < e.numFlitArrived
  complete : ∀ m ∈ completed, countOf m.id received = cfg.numFlit m
  seen : ∀ f ∈ received, f.msg.id ∈ (assembling.map MsgToAssemble.msg ++ completed).map Msg.id

theorem arrived_cases (f : Flit π) (l : List (MsgToAssemble π)) :
    (∃ pre e post, l = pre ++ e :: post ∧ e.msg.id = f.msg.id ∧
      arrived f l = pre ++ { e with numFlitArrived := e.numFlitArrived + 1 } :: post) ∨
    ((∀ e ∈ l, e.msg.id ≠ f.msg.id) ∧
      arrived f l = l ++ [{ msg := f.msg, numFlitRequired := f.numFlitInMsg, numFlitArrived := 1 }]) := by
  induction l with
  | nil => exact .inr ⟨by simp, rfl⟩
  | cons e rest ih =>
    unfold arrived
    by_cases he : e.msg.id = f.msg.id
    · rw [if_pos he]
      exact .inl ⟨[], e, rest, rfl, he, rfl⟩
    · rw [if_neg he]
      rcases ih with ⟨pre, e', post, hl, he', harr⟩ | ⟨hnone, harr⟩
      · exact .inl ⟨e :: pre, e', post, by rw [hl]; rfl, he', by rw [harr]; rfl⟩
      · refine .inr ⟨?_, by rw [harr]; rfl⟩
        intro x hx
        rcases mem_cons.mp hx with rfl | hx
        · exact he
        · exact hnone x hx

namespace Assembly

variable {msgs : List (Msg π)} {received : List (Flit π)} {assembling : List (MsgToAssemble π)} {completed : List (Msg π)}

theorem nil : Assembly cfg msgs [] [] [] := ⟨nodup_nil, by simp, by simp, by simp, by simp⟩

section
variable (h : Assembly cfg msgs received assembling completed)
include h

theorem mono {msgs' : List (Msg π)} (hsub : ∀ m ∈ msgs, m ∈ msgs') :
    Assembly cfg msgs' received assembling completed :=
  ⟨h.distinct, fun m hm => hsub m (h.known m hm), h.counted, h.complete, h.seen⟩

theorem arrive {f : Flit π} (hmsg : f.msg ∈ msgs)
    (hnum : f.numFlitInMsg = cfg.numFlit f.msg) (hcount : ∀ m ∈ msgs, countOf m.id (received ++ [f]) ≤ cfg.numFlit m) :
    Assembly cfg msgs (received ++ [f]) (arrived f assembling) completed := by
  have hnew : ∀ m ∈ completed, f.msg.id ≠ m.id := by
    intro m hm heq
    have hle := hcount m (h.known m (mem_append_right _ hm))
    rw [countOf_append, countOf_singleton, if_pos heq, h.complete m hm] at hle
    omega
  have hcompleted : ∀ m ∈ completed, countOf m.id (received ++ [f]) = cfg.numFlit m := by
    intro m hm
    rw [countOf_append, countOf_singleton, if_neg (hnew m hm), h.complete m hm, Nat.add_zero]
  rcases arrived_cases f assembling with ⟨pre, e, post, rfl, he, harr⟩ | ⟨hnone, harr⟩
  · have hmap : (arrived f (pre ++ e :: post)).map MsgToAssemble.msg = (pre ++ e :: post).map MsgToAssemble.msg := by
      rw [harr]
      simp
    refine ⟨?_, ?_, ?_, hcompleted, ?_⟩
    · rw [hmap]
      exact h.distinct
    · rw [hmap]
      exact h.known
    · have hothers : ∀ x ∈ pre ++ post, x.msg.id ≠ f.msg.id := by
        have hperm : ((pre ++ e :: post).map fun x => x.msg.id).Perm (e.msg.id :: (pre ++ post).map fun x => x.msg.id) :=
          (perm_middle.map _)
        have hdistinct := h.distinct
        rw [map_append, map_map] at hdistinct
        have hnodup := hperm.nodup_iff.mp (nodup_append.mp hdistinct).1
        intro x hx heq
        exact (nodup_cons.mp hnodup).1 (by rw [he, ← heq]; exact mem_map_of_mem hx)
      rw [harr]
      intro x hx
      rw [countOf_append, countOf_singleton]
      rcases mem_append.mp hx with hx | hx
      · rw [if_neg (Ne.symm (hothers x (mem_append_left _ hx)))]
        exact h.counted x (mem_append_left _ hx)
      · rcases mem_cons.mp hx with rfl | hx
        · obtain ⟨hreq, harrived, -⟩ := h.counted e (by simp)
          rw [if_pos he.symm]
          exact ⟨hreq, congrArg (· + 1) harrived, Nat.succ_pos _⟩
        · rw [if_neg (Ne.symm (hothers x (mem_append_right _ hx)))]
          exact h.counted x (mem_append_right _ (mem_cons_of_mem _ hx))
    · rw [hmap]
      intro g hg
      rcases mem_append.mp hg with hg | hg
      · exact h.seen g hg
      · rw [mem_singleton.mp hg, ← he]
        simp
  · have hmap : (arrived f assembling).map MsgToAssemble.msg = assembling.map MsgToAssemble.msg ++ [f.msg] := by
      rw [harr]
      simp
    have hperm : ((arrived f assembling).map MsgToAssemble.msg ++ completed).Perm
        (f.msg :: (assembling.map MsgToAssemble.msg ++ completed)) := by
      rw [hmap, append_assoc]
      exact perm_middle
    have hfresh : f.msg.id ∉ (assembling.map MsgToAssemble.msg ++ completed).map Msg.id := by
      intro hmem
      obtain ⟨m, hm, heq⟩ := mem_map.mp hmem
      rcases mem_append.mp hm with hm | hm
      · obtain ⟨e, he, rfl⟩ := mem_map.mp hm
        exact hnone e he heq
      · exact hnew m hm heq.symm
    have hzero : countOf f.msg.id received = 0 := by
      by_contra hne
      obtain ⟨g, hg, hid⟩ := countOf_pos.mp (Nat.pos_of_ne_zero hne)
      exact hfresh (hid ▸ h.seen g hg)
    refine ⟨?_, ?_, ?_, hcompleted, ?_⟩
    · rw [(hperm.map Msg.id).nodup_iff]
      exact nodup_cons.mpr ⟨hfresh, h.distinct⟩
    · intro m hm
      rcases mem_cons.mp (hperm.mem_iff.mp hm) with rfl | hm
      · exact hmsg
      · exact h.known m hm
    · rw [harr]
      intro e he
      rw [countOf_append, countOf_singleton]
      rcases mem_append.mp he with he | he
      · rw [if_neg (Ne.symm (hnone e he))]
        exact h.counted e he
      · rw [mem_singleton.mp he, if_pos rfl, hzero]
        exact ⟨hnum, rfl, Nat.one_pos⟩
    · intro g hg
      rw [(hperm.map Msg.id).mem_iff]
      rcases mem_append.mp hg with hg | hg
      · exact mem_cons_of_mem _ (h.seen g hg)
      · rw [mem_singleton.mp hg]
        exact mem_cons_self

theorem arrives {flits : List (Flit π)} (hmsg : ∀ f ∈ flits, f.msg ∈ msgs)
    (hnum : ∀ f ∈ flits, f.numFlitInMsg = cfg.numFlit f.msg)
    (hcount : ∀ m ∈ msgs, countOf m.id (received ++ flits) ≤ cfg.numFlit m) :
    Assembly cfg msgs (received ++ flits) (flits.foldl (fun l f => arrived f l) assembling) completed := by
  induction flits generalizing received assembling with
  | nil =>
    rw [append_nil]
    exact h
  | cons f flits ih =>
    have hsplit : received ++ f :: flits = received ++ [f] ++ flits := by simp
    rw [hsplit] at hcount ⊢
    refine ih (h.arrive (hmsg f mem_cons_self) (hnum f mem_cons_self) fun m hm => ?_)
      (fun g hg => hmsg g (mem_cons_of_mem _ hg)) (fun g hg => hnum g (mem_cons_of_mem _ hg)) hcount
    have hle := hcount m hm
    rw [countOf_append] at hle
    omega

/-- The complete messages are given up for delivery. -/
theorem assemble (hcount : ∀ m ∈ msgs, countOf m.id received ≤ cfg.numFlit m) :
    Assembly cfg msgs received (assembling.filter fun e => !e.complete)
      (completed ++ (assembling.filter MsgToAssemble.complete).map MsgToAssemble.msg) := by
  have hperm : ((assembling.filter fun e => !e.complete).map MsgToAssemble.msg ++
      (completed ++ (assembling.filter MsgToAssemble.complete).map MsgToAssemble.msg)).Perm
      (assembling.map MsgToAssemble.msg ++ completed) := by
    refine perm_append_comm_assoc .. |>.trans (perm_append_comm.trans ?_)
    rw [← map_append]
    exact ((filter_append_perm _ assembling).symm.trans perm_append_comm).symm.map _ |>.append_right _
  refine ⟨?_, ?_, ?_, ?_, ?_⟩
  · rw [(hperm.map Msg.id).nodup_iff]
    exact h.distinct
  · intro m hm
    exact h.known m (hperm.mem_iff.mp hm)
  · intro e he
    exact h.counted e (mem_of_mem_filter he)
  · intro m hm
    rcases mem_append.mp hm with hm | hm
    · exact h.complete m hm
    · obtain ⟨e, he, rfl⟩ := mem_map.mp hm
      obtain ⟨hmem, hdone⟩ := mem_filter.mp he
      obtain ⟨_, _, -⟩ := h.counted e hmem
      have hle := hcount e.msg (h.known e.msg (mem_append_left _ (mem_map_of_mem hmem)))
      have hge := of_decide_eq_true hdone
      omega
  · intro f hf
    rw [(hperm.map Msg.id).mem_iff]
    exact h.seen f hf

end

end Assembly

/-! ## A tick -/

theorem deliverLoop_append (dev : Nat → Bool) (i : Nat) (msgs : List (Msg π)) :
    (deliverLoop dev i msgs).1 ++ (deliverLoop dev i msgs).2 = msgs := by
  induction msgs generalizing i with
  | nil => rfl
  | cons _ _ ih =>
    unfold deliverLoop
    split
    · rw [cons_append, ih]
    · rfl

theorem deliverLoop_ne_nil {dev : Nat → Bool} {i : Nat} (hdev : dev i = true) {msgs : List (Msg π)} (hne : msgs ≠ []) :
    (deliverLoop dev i msgs).1 ≠ [] := by
  cases msgs with
  | nil => exact absurd rfl hne
  | cons =>
    unfold deliverLoop
    rw [if_pos hdev]
    exact cons_ne_nil _ _

theorem EndPoint.recvLoop_eq (k : Nat) (ep : EndPoint cfg) :
    (recvLoop k ep).2.networkPort.elements = ep.networkPort.elements.drop k ∧
      (recvLoop k ep).2.assemblingMsgs = (ep.networkPort.elements.take k).foldl
      (fun l f => arrived f l) ep.assemblingMsgs := by
  induction k generalizing ep with
  | zero => exact ⟨rfl, rfl⟩
  | succ k ih =>
    unfold recvLoop
    split
    · rename_i hnone
      rw [Buffer.peek_eq_none hnone]
      exact ⟨rfl, rfl⟩
    · rename_i flit hsome
      obtain ⟨hport, hasm⟩ := ih { ep with assemblingMsgs := arrived flit ep.assemblingMsgs,
                                           networkPort := ep.networkPort.pop }
      rw [Buffer.peek_eq_some hsome]
      exact ⟨hport, hasm⟩

namespace Node

variable (n : Node cfg) (net dev : Nat → Bool)

theorem tick_delivered : (n.tick net dev).delivered = n.delivered ++ (deliverLoop dev 0 n.ep.assembledMsgs).1 := rfl

theorem tick_assembled : (n.tick net dev).ep.assembledMsgs =
    (deliverLoop dev 0 n.ep.assembledMsgs).2 ++ (n.ep.assemblingMsgs.filter MsgToAssemble.complete).map
      MsgToAssemble.msg := by
  refine (EndPoint.recvLoop_frame cfg.numInputChannels _).2.2.trans ?_
  change (deliverLoop dev 0 n.ep.assembledMsgs).2 ++ (n.ep.assemblingMsgs.partition MsgToAssemble.complete).1.map
    MsgToAssemble.msg = _
  rw [partition_eq_filter_filter]

theorem tick_assembling : (n.tick net dev).ep.assemblingMsgs = (n.ep.networkPort.elements.take cfg.numInputChannels).foldl
    (fun l f => arrived f l) (n.ep.assemblingMsgs.filter fun e => !e.complete) := by
  refine (EndPoint.recvLoop_eq cfg.numInputChannels _).2.trans ?_
  change (n.ep.networkPort.elements.take _).foldl _ (n.ep.assemblingMsgs.partition MsgToAssemble.complete).2 = _
  rw [partition_eq_filter_filter]
  rfl

theorem tick_networkPort : (n.tick net dev).ep.networkPort.elements = n.ep.networkPort.elements.drop cfg.numInputChannels :=
  (EndPoint.recvLoop_eq cfg.numInputChannels _).1

theorem tick_received : (n.tick net dev).received = n.received ++ n.ep.networkPort.elements.take cfg.numInputChannels := by
  change n.received ++ n.ep.networkPort.elements.take (_ - (n.tick net dev).ep.networkPort.elements.length) = _
  rw [tick_networkPort, length_drop, Nat.sub_sub_eq_min, Nat.min_comm, ← take_eq_take_min]

end Node

end Akita.Noc.Switching
