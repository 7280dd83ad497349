import Akita.Dram.Splitter
import Akita.Dram.Steps
import Akita.Multisets
import Mathlib.Data.List.FinRange
import Mathlib.Data.List.Indexes

/-!
# No sub-transaction is lost or doubled

Each sub-transaction of an accepted request is in one place: in the sub-transaction queue, in a command queue as one command,
in progress in the bank of its command, or completed (`Conserved`). A command in progress completes with its last cycle
(`completed_of_turns`), and a completed transaction is answered when the connection takes the responses (`answered_of_turns`).
-/

namespace Akita.Dram
open Mem Sim Function
open Option hiding map map_coe mem_map
open List hiding getElem?_eq_some_iff
open Multiset (coe_add coe_nil map_coe)
open Storage (new)

namespace Config

variable (cfg : Config)

/-- The sub-transactions of the request accepted at a place. -/
def subTransactionsOf (place : Nat) (req : AccessReq) : List SubTransaction :=
  ((split cfg.log2AccessUnitSize place req).toOption).getD []

/-- The sub-transactions of all accepted requests. -/
def allSubTransactions (accepted : List AccessReq) : List SubTransaction :=
  accepted.zipIdx.flatMap fun r => cfg.subTransactionsOf r.2 r.1

variable {cfg}

theorem allSubTransactions_concat (accepted : List AccessReq) (req : AccessReq) :
    cfg.allSubTransactions (accepted ++ [req]) = cfg.allSubTransactions accepted ++
      cfg.subTransactionsOf accepted.length req := by
  simp [allSubTransactions, zipIdx_append]

theorem mem_allSubTransactions {accepted : List AccessReq} {st : SubTransaction} :
    st ∈ cfg.allSubTransactions accepted ↔ ∃ place req, accepted[place]? = some req ∧
    st ∈ cfg.subTransactionsOf place req := by
  simp only [allSubTransactions, mem_flatMap, Prod.exists, mk_mem_zipIdx_iff_getElem?]
  rw [exists_comm]

/-- A sub-transaction is one unit of its request. -/
theorem subTransactionsOf_eq (place : Nat) (req : AccessReq) : cfg.subTransactionsOf place req =
    (unitsOf cfg.log2AccessUnitSize req).mapIdx fun i address => { id := (place, i), isRead := isReadReq req, address } := by
  unfold subTransactionsOf unitsOf split
  cases splitAddresses cfg.log2AccessUnitSize req with
  | error | ok => rfl

theorem nodup_allSubTransactions (accepted : List AccessReq) : ((cfg.allSubTransactions accepted).map (·.id)).Nodup := by
  induction accepted using reverseRecOn with
  | nil => exact nodup_nil
  | append_singleton _ _ ih =>
    rw [allSubTransactions_concat, map_append, nodup_append]
    refine ⟨ih, ?_, fun i hi j hj => ?_⟩
    · rw [subTransactionsOf_eq, mapIdx_eq_ofFn, map_ofFn, nodup_ofFn]
      intro i j hij
      simpa [Fin.ext_iff] using hij
    · rw [mem_map] at hi hj
      obtain ⟨_, hst, rfl⟩ := hi
      obtain ⟨_, hst', rfl⟩ := hj
      obtain ⟨_, _, hr, hst⟩ := mem_allSubTransactions.1 hst
      rw [subTransactionsOf_eq, mem_mapIdx] at hst hst'
      obtain ⟨_, _, rfl⟩ := hst
      obtain ⟨_, _, rfl⟩ := hst'
      have hlt := (List.getElem?_eq_some_iff.1 hr).1
      simp only [ne_eq, Prod.mk.injEq, not_and]
      omega

theorem nodup_bankIDs : cfg.bankIDs.Nodup := by
  unfold bankIDs
  refine nodup_flatMap.2 ⟨fun i _ => nodup_flatMap.2 ⟨fun j _ => ?_, ?_⟩, ?_⟩
  · apply nodup_range.map
    intro k k' hk
    simpa using hk
  · refine nodup_range.imp fun {j j'} hne id hid hid' => hne ?_
    simp only [mem_map] at hid hid'
    obtain ⟨k, -, rfl⟩ := hid
    obtain ⟨k', -, hid'⟩ := hid'
    exact (congrArg BankID.bankGroup hid').symm
  · refine nodup_range.imp fun {i i'} hne id hid hid' => hne ?_
    simp only [mem_flatMap, mem_map] at hid hid'
    obtain ⟨_, -, _, -, rfl⟩ := hid
    obtain ⟨_, -, _, -, hid'⟩ := hid'
    exact (congrArg BankID.rank hid').symm

end Config

/-- The sub-transaction that the bank reads or writes. -/
def Bank.moving (b : Bank) : Option SubTransID := b.currentCmd.bind Bank.completes

namespace MemController

variable {cfg : Config} {s t : MemController cfg} {p : Bool}

/-- The names of the sub-transactions in the places they can be in. -/
def places (s : MemController cfg) : Multiset SubTransID :=
  ↑(s.subTransactionQueue.map (·.id)) + ↑(s.queues.flatten.map (·.subTrans.id)) +
    ↑(cfg.bankIDs.filterMap fun id => (s.banks id).moving) + ↑s.completed

/-- Every sub-transaction is in one place, and every request is in flight or answered. -/
structure Conserved (s : MemController cfg) : Prop where
  places : s.places = ↑((cfg.allSubTransactions s.accepted).map (·.id))
  split : ∀ (place : Nat) req, s.accepted[place]? = some req → ∃ units, splitAddresses cfg.log2AccessUnitSize req = .ok units
  waiting : ∀ st ∈ s.subTransactionQueue, st ∈ cfg.allSubTransactions s.accepted
  /-- A command in a queue is the command of its sub-transaction. -/
  queued : ∀ rank queue, s.queues[rank]? = some queue → ∀ cmd ∈ queue,
    cmd.rank = rank ∧ ∃ st ∈ cfg.allSubTransactions s.accepted, cmd = cfg.create st
  /-- A command that moves data is in its bank. -/
  started : ∀ id cmd, (s.banks id).currentCmd = some cmd → cmd.kind.isReadOrWrite = true →
    id ∈ cfg.bankIDs ∧ cmd.bankID = id ∧ ∃ st ∈ cfg.allSubTransactions s.accepted, { cmd with cycleLeft := 0 } = cfg.create st
  requests : (s.inflightTransactions.map (·.place) ++ s.responses.map Prod.fst).Perm (range s.accepted.length)
  inflight : ∀ t ∈ s.inflightTransactions, s.accepted[t.place]? = some t.req ∧
    t.subTransactions = cfg.subTransactionsOf t.place t.req
  answered : ∀ place rsp, (place, rsp) ∈ s.responses → ∃ req, s.accepted[place]? = some req ∧ IsAnswer req rsp ∧
    ∀ st ∈ cfg.subTransactionsOf place req, st.id ∈ s.completed

/-! ## The parts of a tick -/

variable {answers : List Bool}

theorem Conserved.respond (h : s.Conserved) (hr : s.respond answers = .ok (p, t)) : t.Conserved := by
  rcases respond_eq_ok hr with ⟨storage, rfl⟩ | ⟨_, x, _, _, storage, hts, hcompleted, hrsp, rfl⟩
  · exact ⟨h.places, h.split, h.waiting, h.queued, h.started, h.requests, h.inflight, h.answered⟩
  have hx : x ∈ s.inflightTransactions := by simp [hts]
  obtain ⟨hreq, hsts⟩ := h.inflight x hx
  refine ⟨h.places, h.split, h.waiting, h.queued, h.started, ?_, fun y hy => h.inflight y ?_, fun place rsp' hmem => ?_⟩
  · refine List.Perm.trans ?_ h.requests
    rw [hts]
    simp only [map_append, map_cons, map_nil, append_assoc, cons_append]
    refine List.Perm.append_left _ ?_
    rw [← append_assoc]
    exact perm_append_singleton ..
  · rw [hts]
    simp only [mem_append, mem_cons] at hy ⊢
    exact hy.imp_right .inr
  · rcases mem_append.1 hmem with hmem | hmem
    · exact h.answered place rsp' hmem
    · obtain ⟨rfl, rfl⟩ := Prod.mk.inj (mem_singleton.1 hmem)
      refine ⟨x.req, hreq, hrsp, fun st hst => ?_⟩
      rw [← hsts] at hst
      simpa using all_eq_true.1 hcompleted st hst

theorem moving_tick (b : Bank) :
    (b.tick.2.2.moving = b.moving ∧ b.tick.2.1 = none) ∨ (b.tick.2.2.moving = none ∧ b.tick.2.1 = b.moving) := by
  unfold Bank.moving
  rcases b.tick_cases with ⟨hb, hdone, hb'⟩ | ⟨cmd, hb, -, hdone, hb'⟩ | ⟨cmd, hb, -, hdone, hb'⟩
  · exact .inl ⟨by rw [hb, hb'], hdone⟩
  · exact .inr ⟨by rw [hb']; rfl, by rw [hb, hdone]; rfl⟩
  · exact .inl ⟨by rw [hb, hb']; rfl, hdone⟩

theorem Conserved.channelTick (h : s.Conserved) : s.channelTick.2.Conserved := by
  refine ⟨?_, h.split, h.waiting, h.queued, fun id cmd hcmd hmoves => ?_, h.requests, h.inflight, fun place rsp hmem => ?_⟩
  · have hbanks : cfg.bankIDs.filterMap (fun id => (s.channelTick.2.banks id).moving) =
        cfg.bankIDs.filterMap fun id => (s.banks id).tick.2.2.moving := by
      refine filterMap_congr fun id hid => ?_
      simp only [MemController.channelTick, if_pos hid]
    have hsplit := @coe_filterMap_split _ _ cfg.bankIDs (fun id => (s.banks id).moving)
      (fun id => (s.banks id).tick.2.2.moving) (fun id => (s.banks id).tick.2.1) fun id _ => moving_tick _
    refine Eq.trans ?_ h.places
    unfold MemController.places
    rw [hbanks, hsplit]
    simp only [MemController.channelTick, ← coe_add]
    abel
  · simp only [MemController.channelTick] at hcmd
    split at hcmd
    · rcases (s.banks id).tick_cases with ⟨-, -, hnone⟩ | ⟨-, -, -, -, hnone⟩ | ⟨c, hc, -, -, hsome⟩
      · rw [hnone] at hcmd
        cases hcmd
      · rw [hnone] at hcmd
        cases hcmd
      · rw [hsome, some.injEq] at hcmd
        subst hcmd
        exact h.started id c hc hmoves
    · exact h.started id cmd hcmd hmoves
  · obtain ⟨req, hreq, hrsp, hdone⟩ := h.answered place rsp hmem
    exact ⟨req, hreq, hrsp, fun st hst => mem_append_left _ (hdone st hst)⟩

theorem Conserved.issue (h : s.Conserved) (hi : s.issue = .ok (p, t)) : t.Conserved := by
  rcases issue_eq_ok hi with ⟨next, rfl⟩ | hissues
  · exact ⟨h.places, h.split, h.waiting, h.queued, h.started, h.requests, h.inflight, h.answered⟩
  obtain ⟨i, before, cmd, after, k, hq, hid, hnone, hmoves, hk, hcurrent, next, banks, rfl⟩ := hissues.effects
  obtain ⟨-, st, hst, hcreate⟩ := h.queued i _ hq cmd (by simp)
  simp only at hcurrent
  have hmoving : (fun id => (banks id).moving) =
      update (fun id => (s.banks id).moving) cmd.bankID (if k = cmd.kind then some cmd.subTrans.id else none) := by
    funext id
    by_cases hsame : id = cmd.bankID
    · subst hsame
      rw [Bank.moving, hcurrent, if_pos rfl, update_self]
      rcases hk with rfl | hk
      · simp [Bank.completes, hmoves]
      · have hne : k ≠ cmd.kind := by
          rintro rfl
          rw [hmoves] at hk
          cases hk
        simp [Bank.completes, hk, hne]
    · rw [Bank.moving, hcurrent, if_neg hsame, update_of_ne hsame, Bank.moving]
  have hfree : (s.banks cmd.bankID).moving = none := by rw [Bank.moving, hnone]; rfl
  refine ⟨?_, h.split, h.waiting, fun rank queue hqueue c hc => ?_, fun id c hc hcmoves => ?_, h.requests,
    h.inflight, h.answered⟩
  · have hbanks := @coe_filterMap_update _ _ _ cfg.bankIDs Config.nodup_bankIDs cmd.bankID hid (fun id => (s.banks id).moving)
      hfree
      (if k = cmd.kind then some cmd.subTrans.id else none)
    refine Eq.trans ?_ h.places
    unfold MemController.places
    simp only [hmoving]
    rw [hbanks]
    rcases eq_or_ne k cmd.kind with rfl | hne
    · have hqueues := congrArg (Multiset.map (·.subTrans.id)) (coe_flatten_set_remove hq)
      rw [Multiset.map_cons, map_coe, map_coe] at hqueues
      rw [if_pos rfl, if_pos rfl, hqueues, toList_some, Multiset.coe_singleton, ← Multiset.singleton_add]
      abel
    · have hsame : s.queues.set i (before ++ cmd :: after) = s.queues := by
        obtain ⟨_, hget⟩ := List.getElem?_eq_some_iff.1 hq
        rw [← hget, List.set_getElem_self]
      rw [if_neg hne, if_neg (Ne.symm hne), hsame, toList_none, coe_nil, add_zero]
  · rcases eq_or_ne i rank with rfl | hne
    · rw [getElem?_set_self (List.getElem?_eq_some_iff.1 hq).1, some.injEq] at hqueue
      refine h.queued i _ hq c ?_
      rw [← hqueue] at hc
      split at hc
      · simp only [mem_append, mem_cons] at hc ⊢
        exact hc.imp_right .inr
      · exact hc
    · rw [getElem?_set_ne hne] at hqueue
      exact h.queued rank queue hqueue c hc
  · simp only [hcurrent] at hc
    split at hc
    · next hsame =>
      rw [some.injEq] at hc
      subst hc
      rcases hk with rfl | hk
      · exact ⟨hsame ▸ hid, hsame.symm, st, hst, by rw [hcreate]; rfl⟩
      · rw [hk] at hcmoves
        cases hcmoves
    · exact h.started id c hc hcmoves

theorem Conserved.subTransQueueTick (h : s.Conserved) (hs : s.subTransQueueTick = .ok (p, t)) : t.Conserved := by
  rcases subTransQueueTick_eq_ok hs with rfl | ⟨before, st, after, queue, hsts, hq, -, rfl⟩
  · exact h
  have hwaiting := hsts ▸ h.waiting
  have hst : st ∈ cfg.allSubTransactions s.accepted := hwaiting st (by simp)
  refine ⟨?_, h.split, fun x hx => hwaiting x ?_, fun rank queue' hqueue c hc => ?_, h.started, h.requests,
    h.inflight, h.answered⟩
  · have hqueues := congrArg (Multiset.map (·.subTrans.id)) (coe_flatten_modify_concat hq (cfg.create st))
    have hids : (↑((before ++ st :: after).map (·.id)) : Multiset SubTransID) = st.id ::ₘ ↑((before ++ after).map (·.id)) :=
      Multiset.coe_eq_coe.2 (perm_middle.map _)
    rw [Multiset.map_cons, map_coe, map_coe] at hqueues
    refine Eq.trans ?_ h.places
    unfold MemController.places
    rw [hqueues, hsts, hids, Multiset.add_cons, Multiset.cons_add]
    rfl
  · simp only [mem_append, mem_cons] at hx ⊢
    exact hx.imp_right .inr
  · simp only [getElem?_modify] at hqueue
    split at hqueue
    · next hrank =>
      rw [← hrank, hq] at hqueue
      obtain rfl := some.inj hqueue
      rcases mem_append.1 hc with hc | hc
      · exact h.queued rank queue (hrank ▸ hq) c hc
      · rw [mem_singleton.1 hc]
        exact ⟨hrank, st, hst, rfl⟩
    · exact h.queued rank queue' (by simpa using hqueue) c hc

theorem Conserved.parseTop (h : s.Conserved) (hp : s.parseTop = .ok (p, t)) : t.Conserved := by
  rcases parseTop_eq_ok hp with rfl | ⟨msg, _, sts, _, -, hsts, -, rfl⟩
  · exact h
  have hof : cfg.subTransactionsOf s.accepted.length msg = sts := by rw [Config.subTransactionsOf, hsts]; rfl
  have hall := @Config.allSubTransactions_concat cfg s.accepted msg
  rw [hof] at hall
  have hold : ∀ st ∈ cfg.allSubTransactions s.accepted, st ∈ cfg.allSubTransactions (s.accepted ++ [msg]) := by
    intro st hst
    rw [hall]
    exact mem_append_left _ hst
  have haccepted : ∀ (place : Nat) (req : AccessReq), s.accepted[place]? = some req →
      (s.accepted ++ [msg])[place]? = some req := by
    intro place req hreq
    rw [getElem?_append_left (List.getElem?_eq_some_iff.1 hreq).1, hreq]
  refine ⟨?_, fun place req hreq => ?_, fun st hst => ?_, fun rank queue hqueue c hc => ?_, fun id c hc hmoves => ?_, ?_,
    fun x hx => ?_, fun place rsp hmem => ?_⟩
  · simp only [hall, map_append, ← coe_add, ← h.places]
    unfold MemController.places
    simp only [map_append, ← coe_add]
    abel
  · rcases mem_append.1 (mem_of_getElem? hreq) with hmem | hmem
    · obtain ⟨i, hi⟩ := mem_iff_getElem?.1 hmem
      exact h.split i req hi
    · rw [mem_singleton.1 hmem]
      obtain ⟨units, hunits, -⟩ := eq_ok_of_bind hsts
      exact ⟨units, hunits⟩
  · rcases mem_append.1 hst with hst | hst
    · exact hold st (h.waiting st hst)
    · simp only [hall]
      exact mem_append_right _ hst
  · obtain ⟨hrank, st, hst, hcreate⟩ := h.queued rank queue hqueue c hc
    exact ⟨hrank, st, hold st hst, hcreate⟩
  · obtain ⟨hid, hbank, st, hst, hcreate⟩ := h.started id c hc hmoves
    exact ⟨hid, hbank, st, hold st hst, hcreate⟩
  · simp only [map_append, map_cons, map_nil, length_append, length_singleton, range_succ, append_assoc]
    refine List.Perm.trans ?_ (h.requests.append_right _)
    rw [append_assoc]
    exact List.Perm.append_left _ perm_append_comm
  · rcases mem_append.1 hx with hx | hx
    · obtain ⟨hreq, hsub⟩ := h.inflight x hx
      exact ⟨haccepted x.place x.req hreq, hsub⟩
    · rw [mem_singleton.1 hx]
      exact ⟨getElem?_concat_length .., hof.symm⟩
  · obtain ⟨req, hreq, hrsp, hdone⟩ := h.answered place rsp hmem
    exact ⟨req, haccepted _ _ hreq, hrsp, hdone⟩

/-! ## Runs -/

theorem Conserved.deliver (h : s.Conserved) (req : AccessReq) (hd : s.step (.deliver req) = .ok t) : t.Conserved := by
  cases hd
  split
  · exact ⟨h.places, h.split, h.waiting, h.queued, h.started, h.requests, h.inflight, h.answered⟩
  · exact h

variable {first second : List Bool}

theorem Conserved.tick (h : s.Conserved) (ht : s.tick first second = .ok (p, t)) : t.Conserved := by
  obtain ⟨_, _, _, _, ⟨_, ha⟩, ⟨_, hb⟩, ⟨_, hc⟩, ⟨_, hd⟩, _, ht⟩ := tick_eq_ok ht
  exact ((((h.respond ha).respond hb).channelTick.issue hc).subTransQueueTick hd).parseTop ht

theorem Conserved.of_reaches {storage : Storage} {ok : MemController cfg → Turn → Prop} (h : Reaches ok storage s) :
    s.Conserved := by
  induction h with
  | start =>
    refine ⟨?_, fun place req hreq => ?_, fun st hst => ?_, fun rank queue hqueue cmd hcmd => ?_,
      fun id cmd hcmd => ?_, List.Perm.refl _, fun x hx => ?_, fun place rsp hmem => ?_⟩
    · have hbanks : cfg.bankIDs.filterMap (fun _ => ({} : Bank).moving) = [] := filterMap_eq_nil_iff.2 fun _ _ => rfl
      simp only [MemController.places, hbanks, flatten_replicate_nil]
      rfl
    · cases hreq
    · cases hst
    · rw [(mem_replicate.1 (mem_of_getElem? hqueue)).2] at hcmd
      cases hcmd
    · cases hcmd
    · cases hx
    · cases hmem
  | @step s s' turn _ _ h ih =>
    cases turn with
    | deliver req => exact ih.deliver req h
    | tick =>
      obtain ⟨⟨_, _⟩, ht, h⟩ := eq_ok_of_bind h
      cases h
      exact ih.tick ht

/-! ## Progress -/

def ticks (turns : List Turn) : Nat := turns.countP fun turn => match turn with
  | .deliver _ => false
  | .tick _ _ => true

@[simp] theorem ticks_deliver (req : AccessReq) (turns : List Turn) : ticks (.deliver req :: turns) = ticks turns := by
  simp [ticks]

@[simp] theorem ticks_tick (first second : List Bool) (turns : List Turn) :
    ticks (.tick first second :: turns) = ticks turns + 1 := by
  simp [ticks]

/-- The connection takes the first response of a tick. -/
def Takes : Turn → Prop
  | .deliver _ => True
  | .tick first _ => first.headD true = true

theorem tick_effects (ht : s.tick first second = .ok (p, t)) :
    t.completed = s.completed ++ cfg.bankIDs.filterMap (fun id => (s.banks id).tick.2.1) ∧
      ∀ id ∈ cfg.bankIDs, ∀ cmd, (s.banks id).tick.2.2.currentCmd = some cmd → (t.banks id).currentCmd = some cmd := by
  obtain ⟨_, b, c, d, ⟨_, ha⟩, ⟨_, hb⟩, ⟨_, hc⟩, ⟨_, hd⟩, _, ht⟩ := tick_eq_ok ht
  have hrespond : ∀ {s t : MemController cfg} {p answers}, s.respond answers = .ok (p, t) →
      t.banks = s.banks ∧ t.completed = s.completed := by
    intro s t p answers h
    rcases respond_eq_ok h with ⟨storage, rfl⟩ | ⟨before, _, after, _, storage, -, -, -, rfl⟩
    · exact ⟨rfl, rfl⟩
    · exact ⟨rfl, rfl⟩
  have hbanks : b.banks = s.banks := (hrespond hb).1.trans (hrespond ha).1
  have hcompleted : b.completed = s.completed := (hrespond hb).2.trans (hrespond ha).2
  have hdc : d.banks = c.banks ∧ d.completed = c.completed := by
    rcases subTransQueueTick_eq_ok hd with rfl | ⟨before, _, after, _, -, -, -, rfl⟩
    · exact ⟨rfl, rfl⟩
    · exact ⟨rfl, rfl⟩
  have htd : t.banks = d.banks ∧ t.completed = d.completed := by
    rcases parseTop_eq_ok ht with rfl | ⟨_, _, _, -, -, -, -, rfl⟩
    · exact ⟨rfl, rfl⟩
    · exact ⟨rfl, rfl⟩
  rw [htd.1, htd.2, hdc.1, hdc.2]
  have hchannel : b.channelTick.2.completed = s.completed ++ cfg.bankIDs.filterMap (fun id => (s.banks id).tick.2.1) := by
    simp only [channelTick, hbanks, hcompleted]
  have hcurrent : ∀ id ∈ cfg.bankIDs, b.channelTick.2.banks id = (s.banks id).tick.2.2 := by
    intro id hid
    simp only [channelTick, if_pos hid, hbanks]
  rcases issue_eq_ok hc with ⟨next, rfl⟩ | hissues
  · exact ⟨hchannel, fun id hid cmd hcmd => by rw [← hcmd, ← hcurrent id hid]⟩
  · obtain ⟨_, _, _, _, _, -, -, hnone, -, -, hstarted, _, _, rfl⟩ := hissues.effects
    refine ⟨hchannel, fun id hid cmd hcmd => ?_⟩
    rw [hstarted, if_neg]
    · rw [hcurrent id hid, hcmd]
    · rintro rfl
      rw [hcurrent _ hid, hcmd] at hnone
      cases hnone

theorem completed_deliver {req : AccessReq} (h : s.step (.deliver req) = .ok t) :
    t.banks = s.banks ∧ t.completed = s.completed := by
  cases h
  split
  · exact ⟨rfl, rfl⟩
  · exact ⟨rfl, rfl⟩

variable {turns : List Turn}

theorem completed_turns (h : turns.foldlM (fun s turn => s.step turn) s = .ok t) {i : SubTransID}
    (hi : i ∈ s.completed) : i ∈ t.completed := by
  refine @of_foldlM _ _ _ (fun t : MemController cfg => i ∈ t.completed) _ _ _ _ h hi fun s turn _ t hs ht => ?_
  cases turn with
  | deliver => rwa [(completed_deliver ht).2]
  | tick =>
    obtain ⟨⟨_, _⟩, hv, ht⟩ := eq_ok_of_bind ht
    cases ht
    rw [(tick_effects hv).1]
    exact mem_append_left _ hs

/-- A command that moves data is completed by its bank after its cycles. -/
theorem completed_of_turns {id : BankID} {cmd : Command} (hid : id ∈ cfg.bankIDs) (hcmd : (s.banks id).currentCmd = some cmd)
    (hmoves : cmd.kind.isReadOrWrite = true) (hcycles : max 1 cmd.cycleLeft ≤ ticks turns)
    (h : turns.foldlM (fun s turn => s.step turn) s = .ok t) : cmd.subTrans.id ∈ t.completed := by
  induction turns generalizing s cmd with
  | nil =>
    have hzero : ticks [] = 0 := rfl
    rw [hzero] at hcycles
    omega
  | cons turn _ ih =>
    rw [foldlM_cons] at h
    obtain ⟨_, hu, hrest⟩ := eq_ok_of_bind h
    cases turn with
    | deliver =>
      rw [ticks_deliver] at hcycles
      rw [← (completed_deliver hu).1] at hcmd
      exact ih hcmd hmoves hcycles hrest
    | tick =>
      obtain ⟨⟨_, _⟩, hv, hu⟩ := eq_ok_of_bind hu
      cases hu
      obtain ⟨hcompleted, hstays⟩ := tick_effects hv
      rw [ticks_tick] at hcycles
      rcases (s.banks id).tick_cases with ⟨hnone, -⟩ | ⟨c, hc, -, hdone, -⟩ | ⟨c, hc, _, -, hleft⟩
      · rw [hnone] at hcmd
        cases hcmd
      · obtain rfl := some.inj (hc.symm.trans hcmd)
        refine completed_turns hrest ?_
        rw [hcompleted]
        refine mem_append_right _ (mem_filterMap.2 ⟨id, hid, ?_⟩)
        rw [hdone, Bank.completes, if_pos hmoves]
      · obtain rfl := some.inj (hc.symm.trans hcmd)
        refine @ih _ { c with cycleLeft := c.cycleLeft - 1 } (hstays id hid _ hleft) hmoves ?_ hrest
        simp only
        omega

/-! ## Answers -/

/-- A transaction is completed and among the first in flight, or answered. -/
def Pending (s : MemController cfg) (x : Transaction) (n : Nat) : Prop :=
  (x.isCompleted s.completed = true ∧ ∃ j < n, s.inflightTransactions[j]? = some x) ∨ ∃ rsp, (x.place, rsp) ∈ s.responses

variable {x : Transaction} {n : Nat}

theorem isCompleted_mono {c c' : List SubTransID} (h : x.isCompleted c = true) (hc : ∀ i ∈ c, i ∈ c') :
    x.isCompleted c' = true := by
  refine all_eq_true.2 fun st hst => ?_
  have hst := all_eq_true.1 h st hst
  simp only [contains_iff_mem] at hst ⊢
  exact hc _ hst

theorem getElem?_remove {α : Type} {before after : List α} {y z : α} {j : Nat} (h : (before ++ y :: after)[j]? = some z) :
    (j < before.length ∧ (before ++ after)[j]? = some z) ∨ (j = before.length ∧ z = y) ∨
      ∃ i, j = i + 1 ∧ (before ++ after)[i]? = some z := by
  rcases lt_trichotomy j before.length with hlt | rfl | hgt
  · rw [getElem?_append_left hlt] at h
    exact .inl ⟨hlt, by rw [getElem?_append_left hlt, h]⟩
  · rw [getElem?_append_right (le_refl _), Nat.sub_self, getElem?_cons_zero, some.injEq] at h
    exact .inr (.inl ⟨rfl, h.symm⟩)
  · obtain ⟨d, rfl⟩ := Nat.exists_eq_add_of_lt hgt
    rw [getElem?_append_right (by omega), show before.length + d + 1 - before.length = d + 1 by omega, getElem?_cons_succ]
      at h
    refine .inr (.inr ⟨before.length + d, rfl, ?_⟩)
    rw [getElem?_append_right (Nat.le_add_right ..), Nat.add_sub_cancel_left, h]

theorem Pending.respond (h : s.Pending x n) (hr : s.respond answers = .ok (p, t)) : t.Pending x n := by
  rcases respond_eq_ok hr with ⟨storage, rfl⟩ | ⟨_, _, _, rsp, storage, hts, -, -, rfl⟩
  · exact h
  rcases h with ⟨hx, j, hj, hget⟩ | ⟨rsp', hmem⟩
  · rw [hts] at hget
    rcases getElem?_remove hget with ⟨-, hget⟩ | ⟨-, rfl⟩ | ⟨i, rfl, hget'⟩
    · exact .inl ⟨hx, j, hj, hget⟩
    · exact .inr ⟨rsp, mem_append_right _ (mem_singleton.2 rfl)⟩
    · exact .inl ⟨hx, i, by omega, hget'⟩
  · exact .inr ⟨rsp', mem_append_left _ hmem⟩

theorem respondLoop_takes {ts left : List Transaction} {done : Bool} (htakes : answers.headD true = true)
    (h : respondLoop ts answers s = .ok (done, left, t)) {j : Nat} (hj : ts[j]? = some x)
    (hx : x.isCompleted s.completed = true) :
    ∃ before y after rsp, ts = before ++ y :: after ∧ before.length ≤ j ∧ left = before ++ after ∧ t.completed = s.completed ∧
      t.responses = s.responses ++ [(y.place, rsp)] := by
  induction ts generalizing left done j with
  | nil => simp at hj
  | cons y _ ih =>
    unfold respondLoop at h
    split at h
    · next hcompleted =>
      obtain ⟨_, hu, h⟩ := eq_ok_of_bind h
      rw [htakes] at hu
      simp only [htakes] at h
      cases h
      obtain ⟨_, rsp, -, rfl⟩ := finalizeTransaction_eq_ok hu
      exact ⟨[], y, _, rsp, rfl, Nat.zero_le _, rfl, rfl, rfl⟩
    · next hne =>
      obtain ⟨⟨_, _, _⟩, hv, h⟩ := eq_ok_of_bind h
      cases h
      cases j with
      | zero =>
        cases hj
        exact absurd hx hne
      | succ =>
        obtain ⟨before, z, after, rsp, rfl, hle, rfl, hcompleted, hresponses⟩ := ih hv (by simpa using hj)
        exact ⟨y :: before, z, after, rsp, rfl, by simpa using hle, rfl, hcompleted, hresponses⟩

theorem Pending.takes (htakes : answers.headD true = true) (h : s.Pending x (n + 1))
    (hr : s.respond answers = .ok (p, t)) : t.Pending x n := by
  rcases h with ⟨hx, _, _, hget⟩ | ⟨rsp', hmem⟩
  · obtain ⟨⟨_, _, _⟩, hu, hr⟩ := eq_ok_of_bind hr
    cases hr
    obtain ⟨before, y, after, rsp, hts, _, rfl, hcompleted, hresponses⟩ := respondLoop_takes htakes hu hget hx
    rw [hts] at hget
    unfold Pending
    simp only [hcompleted, hresponses]
    rcases getElem?_remove hget with ⟨_, -⟩ | ⟨-, rfl⟩ | ⟨i, rfl, hget'⟩
    · omega
    · exact .inr ⟨rsp, mem_append_right _ (mem_singleton.2 rfl)⟩
    · exact .inl ⟨hx, i, by omega, hget'⟩
  · rcases respond_eq_ok hr with ⟨storage, rfl⟩ | ⟨_, _, after, _, storage, -, -, -, rfl⟩
    · exact .inr ⟨rsp', hmem⟩
    · exact .inr ⟨rsp', mem_append_left _ hmem⟩

theorem Pending.mono {k : Nat} (h : s.Pending x n) (hcompleted : ∀ i ∈ s.completed, i ∈ t.completed)
    (hinflight : ∃ more, t.inflightTransactions = s.inflightTransactions ++ more) (hresponses : t.responses = s.responses)
    (hk : n ≤ k) : t.Pending x k := by
  obtain ⟨_, hmore⟩ := hinflight
  rcases h with ⟨hx, j, _, hget⟩ | hmem
  · refine .inl ⟨isCompleted_mono hx hcompleted, j, by omega, ?_⟩
    rw [hmore, getElem?_append_left (List.getElem?_eq_some_iff.1 hget).1, hget]
  · exact .inr (hresponses ▸ hmem)

theorem Pending.tick (htakes : first.headD true = true) (h : s.Pending x (n + 1))
    (ht : s.tick first second = .ok (p, t)) : t.Pending x n := by
  obtain ⟨a, b, c, d, ⟨_, ha⟩, ⟨_, hb⟩, ⟨_, hc⟩, ⟨_, hd⟩, _, ht⟩ := tick_eq_ok ht
  have hbp := (h.takes htakes ha).respond hb
  have hchannel : b.channelTick.2.Pending x n :=
    hbp.mono (fun i hi => mem_append_left _ hi) ⟨[], (append_nil _).symm⟩ rfl (le_refl n)
  have hcp : c.Pending x n := by
    rcases issue_eq_ok hc with ⟨next, rfl⟩ | hissues
    · exact hchannel
    · obtain ⟨i, before, _, after, _, -, -, -, -, -, -, _, _, rfl⟩ := hissues.effects
      exact hchannel
  have hdp : d.Pending x n := by
    rcases subTransQueueTick_eq_ok hd with rfl | ⟨_, _, after, _, -, -, -, rfl⟩
    · exact hcp
    · exact hcp
  rcases parseTop_eq_ok ht with rfl | ⟨_, _, _, -, -, -, -, rfl⟩
  · exact hdp
  · exact hdp.mono (fun i hi => hi) ⟨_, rfl⟩ rfl (le_refl n)

/-- A completed transaction is answered after as many ticks as there are transactions up to it, if the connection takes a
response in each. -/
theorem answered_of_turns (htakes : ∀ turn ∈ turns, Takes turn) (h : s.Pending x (ticks turns))
    (ht : turns.foldlM (fun s turn => s.step turn) s = .ok t) : ∃ rsp, (x.place, rsp) ∈ t.responses := by
  induction turns generalizing s with
  | nil =>
    cases ht
    exact h.resolve_left fun ⟨_, j, hj, _⟩ => by simp [ticks] at hj
  | cons turn _ ih =>
    rw [foldlM_cons] at ht
    obtain ⟨_, hu, hrest⟩ := eq_ok_of_bind ht
    refine ih (fun turn' hturn => htakes turn' (mem_cons_of_mem _ hturn)) ?_ hrest
    have hturn := htakes turn (mem_cons_self ..)
    cases turn with
    | deliver =>
      rw [ticks_deliver] at h
      cases hu
      split
      · exact h
      · exact h
    | tick =>
      obtain ⟨⟨_, _⟩, hv, hu⟩ := eq_ok_of_bind hu
      cases hu
      rw [ticks_tick] at h
      exact h.tick hturn hv

/-! ## Requests -/

/-- What a turn brings to the port. -/
def arrives (s : MemController cfg) : Turn → List AccessReq
  | .deliver req => if s.topPort.canPush then [req] else []
  | .tick _ _ => []

/-- A request stays in the port until it is accepted. -/
theorem port_step {turn : Turn} (h : s.step turn = .ok t) :
    t.accepted ++ t.topPort.elements = s.accepted ++ s.topPort.elements ++ s.arrives turn := by
  cases turn with
  | deliver =>
    cases h
    simp only [arrives]
    split
    · simp
    · simp
  | tick =>
    obtain ⟨⟨_, _⟩, hu, h⟩ := eq_ok_of_bind h
    cases h
    obtain ⟨a, b, c, d, ⟨_, ha⟩, ⟨_, hb⟩, ⟨_, hc⟩, ⟨_, hd⟩, _, ht⟩ := tick_eq_ok hu
    have hrespond : ∀ {s t : MemController cfg} {p answers}, s.respond answers = .ok (p, t) →
        t.accepted = s.accepted ∧ t.topPort = s.topPort := by
      intro s t p answers h
      rcases respond_eq_ok h with ⟨storage, rfl⟩ | ⟨before, x, after, rsp, storage, -, -, -, rfl⟩
      · exact ⟨rfl, rfl⟩
      · exact ⟨rfl, rfl⟩
    have hcb : c.accepted = b.accepted ∧ c.topPort = b.topPort := by
      rcases issue_eq_ok hc with ⟨next, rfl⟩ | hissues
      · exact ⟨rfl, rfl⟩
      · obtain ⟨_, before, cmd, after, _, -, -, -, -, -, -, _, banks, rfl⟩ := hissues.effects
        exact ⟨rfl, rfl⟩
    have hdc : d.accepted = c.accepted ∧ d.topPort = c.topPort := by
      rcases subTransQueueTick_eq_ok hd with rfl | ⟨_, _, after, _, -, -, -, rfl⟩
      · exact ⟨rfl, rfl⟩
      · exact ⟨rfl, rfl⟩
    have haccepted : d.accepted = s.accepted := by rw [hdc.1, hcb.1, (hrespond hb).1, (hrespond ha).1]
    have hport : d.topPort = s.topPort := by rw [hdc.2, hcb.2, (hrespond hb).2, (hrespond ha).2]
    rw [arrives, append_nil, ← haccepted, ← hport]
    rcases parseTop_eq_ok ht with rfl | ⟨_, _, _, hpeek, -, -, -, rfl⟩
    · rfl
    · rw [Buffer.peek_eq_some hpeek, append_assoc]
      rfl

/-- Requests and their sub-transactions in a run: the sub-transactions of a request that ends below 2^64 are its units, each
is in one place and comes to the end of its command, and each request is answered once, after them. -/
structure Conserves (s : MemController cfg) : Prop extends s.Conserved where
  distinct : ((cfg.allSubTransactions s.accepted).map (·.id)).Nodup
  splits : ∀ (place : Nat) req, s.accepted[place]? = some req → req.address + req.byteSize < 2 ^ 64 →
    IsSplit cfg.log2AccessUnitSize req ((cfg.subTransactionsOf place req).map (·.address))
  /-- After its cycles a command is marked complete by its bank. -/
  completes : ∀ id cmd, (s.banks id).currentCmd = some cmd → cmd.kind.isReadOrWrite = true →
    ∀ turns t, turns.foldlM (fun s turn => s.step turn) s = .ok t → max 1 cmd.cycleLeft ≤ ticks turns →
    cmd.subTrans.id ∈ t.completed
  /-- A completed transaction is answered, when the connection takes as many responses as there are transactions up to it. -/
  answers : ∀ (j : Nat) x, s.inflightTransactions[j]? = some x → x.isCompleted s.completed = true →
    ∀ turns t, turns.foldlM (fun s turn => s.step turn) s = .ok t → (∀ turn ∈ turns, Takes turn) → j < ticks turns →
      ∃ rsp, (x.place, rsp) ∈ t.responses
  port : ∀ turn t, s.step turn = .ok t → t.accepted ++ t.topPort.elements = s.accepted ++ s.topPort.elements ++ s.arrives turn

theorem conserves_of_reaches {storage : Storage} (h : Reaches (fun _ _ => True) storage s) : s.Conserves := by
  have hconserved := Conserved.of_reaches h
  refine ⟨hconserved, Config.nodup_allSubTransactions _, fun place req hreq hend => ?_,
    fun id cmd hcmd hmoves turns t ht hcycles => ?_,
    fun j x hget hx turns t ht htakes hj => ?_, fun turn t ht => port_step ht⟩
  · obtain ⟨units, hunits⟩ := hconserved.split place req hreq
    have haddresses : (cfg.subTransactionsOf place req).map (·.address) = units := by
      rw [Config.subTransactionsOf_eq, unitsOf, hunits]
      refine ext_getElem? fun i => ?_
      cases hi : units[i]? <;> simp [Except.toOption, hi]
    rw [haddresses]
    exact isSplit_of_ok hend hunits
  · exact completed_of_turns (hconserved.started id cmd hcmd hmoves).1 hcmd hmoves hcycles ht
  · exact answered_of_turns htakes (.inl ⟨hx, j, hj, hget⟩) ht

/-- Requests are delivered, and the controller ticks. -/
def requestTurns (reqs : List AccessReq) (ticks : Nat) : List Turn := reqs.map .deliver ++ replicate ticks (.tick [] [])

def readReq (address accessByteSize : Nat) : AccessReq := .read { id := 1, src := 0, pid := 0, address, accessByteSize }

def requestRun (cfg : Config) (reqs : List AccessReq) (ticks : Nat) : Except String (MemController cfg) :=
  (requestTurns reqs ticks).foldlM (fun s turn => s.step turn) { storage := new 4096 }

/-- A read of two units is answered, once both are completed. -/
theorem conserves_of_reaches_read : ∃ s : MemController ({} : Builder).build, (Reaches (fun _ _ => True) (new 4096) s ∧
    s.completed = [(0, 0), (0, 1)] ∧ s.responses.map Prod.fst = [0]) ∧ s.Conserves := by
  have hrun : (requestRun ({} : Builder).build [readReq 60 8] 80).toOption.any (fun s =>
      s.completed = [(0, 0), (0, 1)] ∧ s.responses.map Prod.fst = [0]) = true := by decide +kernel
  obtain ⟨s, hs, hrun⟩ := Succeeds.of_any hrun
  have hreaches : Reaches (fun _ _ => True) (new 4096) s := Reaches.turns .start (fun _ _ _ => trivial) hs
  exact ⟨s, ⟨hreaches, of_decide_eq_true hrun⟩, conserves_of_reaches hreaches⟩

/-! ## Requests with more or fewer sub-transactions -/

/-- A unit that has a byte of the request. -/
def Overlaps (log2AccessUnitSize : Nat) (req : AccessReq) (u : Nat) : Prop :=
  ∃ x, req.address ≤ x ∧ x < req.address + req.byteSize ∧ u ≤ x ∧ x < u + 2 ^ log2AccessUnitSize

/-- A read of no bytes at address 4 is accepted with the unit at 0, and a read of the last unit below 2^64 with none. -/
theorem read_of_other_units :
    (∃ s : MemController ({} : Builder).build, Reaches (fun _ _ => True) (new 4096) s ∧ ∃ req, s.accepted = [req] ∧
      req.address = 4 ∧ req.byteSize = 0 ∧ 0 ∈ (Config.subTransactionsOf ({} : Builder).build 0 req).map (·.address) ∧
      ¬ Overlaps ({} : Builder).build.log2AccessUnitSize req 0) ∧
    ∃ s : MemController ({} : Builder).build, Reaches (fun _ _ => True) (new 4096) s ∧ ∃ req, s.accepted = [req] ∧
      req.address = 2 ^ 64 - 64 ∧ req.byteSize = 64 ∧ Config.subTransactionsOf ({} : Builder).build 0 req = [] ∧
      Overlaps ({} : Builder).build.log2AccessUnitSize req (2 ^ 64 - 64) := by
  have hempty : (requestRun ({} : Builder).build [readReq 4 0] 1).toOption.any (fun s => s.accepted = [readReq 4 0]) =
      true := by decide +kernel
  have hlast : (requestRun ({} : Builder).build [readReq (2 ^ 64 - 64) 64] 1).toOption.any (fun s =>
      s.accepted = [readReq (2 ^ 64 - 64) 64]) = true := by decide +kernel
  obtain ⟨s, hs, haccepted⟩ := Succeeds.of_any hempty
  obtain ⟨t, ht, haccepted'⟩ := Succeeds.of_any hlast
  refine ⟨⟨s, Reaches.turns .start (fun _ _ _ => trivial) hs, _, of_decide_eq_true haccepted, rfl,
    rfl, by decide +kernel, ?_⟩,
    t, Reaches.turns .start (fun _ _ _ => trivial) ht, _, of_decide_eq_true haccepted', rfl, rfl, by
    decide +kernel, 2 ^ 64 - 64, by decide +kernel⟩
  rintro ⟨x, hle, hlt, -⟩
  simp only [readReq, AccessReq.address, AccessReq.byteSize] at hle hlt
  omega

end MemController

end Akita.Dram
