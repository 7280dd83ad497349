import Akita.Dram.Conservation
import Akita.Mem.IdealMemController

/-!
# Accesses in arrival order

A write changes the storage when its response is first tried, a read sees the storage when its response is sent. A run in
which every completed transaction waits for the earlier ones it conflicts with (`Waits`) is a run of a service that answers in
order (`serves_of_reaches`), so reads return the last earlier writes and the storage holds the last writes in the end. The
queues reorder commands, and a read can overtake a write (`read_completes_first`).
-/

namespace Akita.Dram
open Mem Sim
open List hiding getElem?_eq_some_iff
open Service (accept answer answered_answer new ordered_of_reaches)

/-- The access to the storage that a request asks for. -/
def Config.access (cfg : Config) : AccessReq → Access
  | .read r => .read ((cfg.convert r.address).toOption.getD 0) r.accessByteSize
  | .write w => .write ((cfg.convert w.address).toOption.getD 0) w.data w.dirtyMask

namespace Transaction

def access (t : Transaction) : Access :=
  match t.req with
  | .read r => .read t.internalAddress r.accessByteSize
  | .write w => .write t.internalAddress w.data w.dirtyMask

/-- The data of a write agrees with the stored bytes where the mask keeps them. -/
def KeepsMasked (t : Transaction) (m : Nat → UInt8) : Prop :=
  ∀ w, t.req = .write w → ∀ i < w.data.length, t.access.writes (t.internalAddress + i) = false →
    w.data.getD i 0 = m (t.internalAddress + i)

variable {t : Transaction} {m : Nat → UInt8}

theorem isRead_of_writes {a : Nat} (h : t.access.writes a = true) : isReadReq t.req = false := by
  unfold access at h
  cases ht : t.req with
  | read =>
    rw [ht] at h
    cases h
  | write => rfl

theorem writes_of_isRead (h : isReadReq t.req = true) (a : Nat) : t.access.writes a = false := by
  cases hw : t.access.writes a with
  | false => rfl
  | true =>
    rw [isRead_of_writes hw] at h
    cases h

/-- A write of all the bytes is the write under the mask, if it keeps the masked bytes. -/
theorem data_write {w : WriteReq Bytes Mask} {storage storage' : Storage} (ht : t.req = .write w)
    (hkeeps : t.KeepsMasked storage.data) (h : storage.write t.internalAddress w.data = .ok storage') :
    storage'.data = t.access.effect storage.data := by
  obtain rfl := Storage.write_eq_ok h
  have haccess : t.access = .write t.internalAddress w.data w.dirtyMask := by rw [access, ht]
  funext a
  simp only [Access.effect]
  by_cases hin : t.internalAddress ≤ a ∧ a < t.internalAddress + w.data.length
  · obtain ⟨i, rfl⟩ := Nat.exists_eq_add_of_le hin.1
    rw [if_pos hin, Nat.add_sub_cancel_left]
    split
    · rw [haccess, Access.value, Nat.add_sub_cancel_left]
    · next hw => exact hkeeps w ht i (by omega) (by simpa using hw)
  · have hout : t.access.writes a = false := by
      rw [haccess]
      simp only [Access.writes, covers, Bool.and_eq_false_iff, decide_eq_false_iff_not]
      left
      by_contra hboth
      simp only [not_or, not_not] at hboth
      exact hin hboth
    rw [if_neg hin, hout]
    rfl

end Transaction

namespace MemController

variable {cfg : Config} {s s' : MemController cfg} {v : Service} {t : Transaction} {passed ts : List Transaction}
  {p taken : Bool}

/-- The requests and responses as those of a service. -/
def service (initial : Nat → UInt8) (s : MemController cfg) : Service where
  initial
  memory := s.storage.data
  accepted := s.accepted.map cfg.access
  answered := s.responses.map fun r => (r.1, Ideal.Comp.rspData r.2)

/-- The condition to answer a transaction, `passed` being the earlier ones in flight: a write keeps its masked bytes and
conflicts with none of them, and a read that is sent reads no byte of a write among them that is not completed. -/
def MayAnswer (s : MemController cfg) (passed : List Transaction) (t : Transaction) (taken : Bool) : Prop :=
  (isReadReq t.req = false → t.KeepsMasked s.storage.data ∧ ∀ x ∈ passed, ¬ x.access.Conflict t.access) ∧
  (isReadReq t.req = true → taken = true →
    ∀ x ∈ passed, ∀ a, x.access.writes a = true → t.access.touches a = true → x.isCompleted s.completed = true)

/-- The transactions that the loop of `respond` answers may be answered. -/
def LoopWaits : List Transaction → List Transaction → List Bool → MemController cfg → Prop
  | _, [], _, _ => True
  | passed, t :: ts, answers, s =>
    if t.isCompleted s.completed then
      s.MayAnswer passed t (answers.headD true) ∧
        ∀ s', answers.headD true = false → s.finalizeTransaction t false = .ok s' →
        LoopWaits (passed ++ [t]) ts answers.tail s'
    else LoopWaits (passed ++ [t]) ts answers s

/-- The answers of a turn wait for the earlier transactions. -/
def Waits (s : MemController cfg) : Turn → Prop
  | .deliver _ => True
  | .tick first second => LoopWaits [] s.inflightTransactions first s ∧
    ∀ p u, s.respond first = .ok (p, u) → LoopWaits [] u.inflightTransactions second u

/-- The state is that of a service that answers in order. A write in flight is answered there when it has changed the
storage. -/
structure Serves (initial : Nat → UInt8) (s : MemController cfg) (v : Service) : Prop where
  run : Relation.ReflTransGen (Service.Step Service.Ordered) (new initial) v
  memory : v.memory = s.storage.data
  accepted : v.accepted = s.accepted.map cfg.access
  responses : ∀ r ∈ s.responses, (r.1, Ideal.Comp.rspData r.2) ∈ v.answered
  answered : ∀ k, v.Answered k → k ∈ s.responses.map Prod.fst ∨ ∃ x ∈ s.inflightTransactions, x.place = k ∧
    isReadReq x.req = false
  /-- What a write in flight has stored is still there. -/
  stored : ∀ x ∈ s.inflightTransactions, v.Answered x.place → ∀ a, x.access.writes a = true → v.memory a = x.access.value a
  access : ∀ x ∈ s.inflightTransactions, x.access = cfg.access x.req
  increasing : (s.inflightTransactions.map (·.place)).Pairwise (· < ·)

variable {initial : Nat → UInt8}

theorem Serves.getElem? (h : s.Serves initial v) (hc : s.Conserved) {x : Transaction} (hx : x ∈ s.inflightTransactions) :
    v.accepted[x.place]? = some x.access := by
  rw [h.accepted, getElem?_map, (hc.inflight x hx).1, h.access x hx]
  rfl

theorem Serves.mem_passed (h : s.Serves initial v) (hts : s.inflightTransactions = passed ++ t :: ts) {x : Transaction}
    (hx : x ∈ s.inflightTransactions) (hlt : x.place < t.place) : x ∈ passed := by
  have hincreasing := h.increasing
  rw [hts, map_append, map_cons, pairwise_append, pairwise_cons] at hincreasing
  rw [hts, mem_append, mem_cons] at hx
  rcases hx with hx | rfl | hx
  · exact hx
  · omega
  · have := hincreasing.2.1.1 x.place (mem_map_of_mem hx)
    omega

theorem Serves.ordered (h : s.Serves initial v) (hc : s.Conserved) (hts : s.inflightTransactions = passed ++ t :: ts)
    (hpassed : ∀ x ∈ passed, x.access.Conflict t.access → v.Answered x.place) : v.Ordered t.place := by
  have ht : t ∈ s.inflightTransactions := by simp [hts]
  intro j r q hj hr hq hconflict
  rw [h.getElem? hc ht, Option.some.injEq] at hq
  subst hq
  have hlt : j < s.accepted.length := by
    have := Service.lt_of_getElem? hr
    rwa [h.accepted, length_map] at this
  have hmem := hc.requests.mem_iff.2 (mem_range.2 hlt)
  rcases mem_append.1 hmem with hmem | hmem
  · obtain ⟨x, hx, rfl⟩ := mem_map.1 hmem
    rw [h.getElem? hc hx, Option.some.injEq] at hr
    exact hpassed x (h.mem_passed hts hx hj) (hr ▸ hconflict)
  · obtain ⟨rsp, hrsp, rfl⟩ := mem_map.1 hmem
    exact mem_map_of_mem (h.responses rsp hrsp)

theorem Serves.not_answered (h : s.Serves initial v) (hc : s.Conserved) (ht : t ∈ s.inflightTransactions)
    (hread : isReadReq t.req = true) : ¬ v.Answered t.place := by
  intro hanswered
  rcases h.answered _ hanswered with hmem | ⟨x, hx, hplace, hwrite⟩
  · have hnodup := hc.requests.nodup_iff.2 nodup_range
    exact (disjoint_of_nodup_append hnodup) (mem_map_of_mem ht) hmem
  · have hreq := (hc.inflight x hx).1
    rw [hplace, (hc.inflight t ht).1, Option.some.injEq] at hreq
    rw [← hreq, hread] at hwrite
    cases hwrite

/-! ## Answers -/

theorem finalizeWrite_eq_ok {w : WriteReq Bytes Mask} (ht : t.req = .write w) (h : s.finalizeTransaction t taken = .ok s') :
    ∃ storage, s.storage.write t.internalAddress w.data = .ok storage ∧ s' = { s with
      storage
      responses := if taken then s.responses ++ [(t.place, .writeDone { dst := w.src, respondTo := w.id })]
        else s.responses } := by
  unfold finalizeTransaction at h
  rw [ht] at h
  obtain ⟨storage, hstorage, h⟩ := eq_ok_of_bind h
  exact ⟨storage, hstorage, (Except.ok.inj h).symm⟩

theorem finalizeRead_eq_ok {r : ReadReq} (ht : t.req = .read r) (h : s.finalizeTransaction t taken = .ok s') :
    ∃ data, s.storage.read t.internalAddress r.accessByteSize = .ok data ∧ s' = { s with
      responses := if taken then s.responses ++ [(t.place, .dataReady { dst := r.src, respondTo := r.id, data })]
        else s.responses } := by
  unfold finalizeTransaction at h
  rw [ht] at h
  obtain ⟨data, hdata, h⟩ := eq_ok_of_bind h
  exact ⟨data, hdata, (Except.ok.inj h).symm⟩

/-- A write that is tried: the first time the service answers it, and later tries change nothing. -/
theorem Serves.write (h : s.Serves initial v) (hc : s.Conserved) (hts : s.inflightTransactions = passed ++ t :: ts)
    {w : WriteReq Bytes Mask} (ht : t.req = .write w) (hok : s.MayAnswer passed t taken) {storage : Storage}
    (hstorage : s.storage.write t.internalAddress w.data = .ok storage) :
    ∃ v', Serves initial { s with storage } v' ∧ v'.Answered t.place ∧ ∀ k, v.Answered k → v'.Answered k := by
  have hmem : t ∈ s.inflightTransactions := by simp [hts]
  have hwrite : isReadReq t.req = false := by rw [ht]; rfl
  obtain ⟨hkeeps, hfree⟩ := hok.1 hwrite
  have hdata := Transaction.data_write ht hkeeps hstorage
  by_cases hanswered : v.Answered t.place
  · -- the bytes are there already
    have hsame : t.access.effect s.storage.data = s.storage.data := by
      funext a
      simp only [Access.effect]
      split
      · next hw => rw [← h.memory, h.stored t hmem hanswered a hw]
      · rfl
    exact ⟨v, ⟨h.run, by rw [h.memory]; exact (hdata.trans hsame).symm, h.accepted, h.responses, h.answered, h.stored,
      h.access, h.increasing⟩,
      hanswered, fun _ hk => hk⟩
  · have hordered := h.ordered hc hts fun x hx hconflict => absurd hconflict (hfree x hx)
    obtain ⟨-, hinorder, -⟩ := ordered_of_reaches h.run
    refine ⟨v.answer t.place t.access,
      ⟨h.run.tail (.answer v t.place t.access (h.getElem? hc hmem) hanswered hordered), ?_, h.accepted,
      fun r hr => ?_, fun k hk => ?_, fun x hx hk a hw => ?_, h.access, h.increasing⟩, ?_, fun k hk => ?_⟩
    · rw [answer, h.memory]
      exact hdata.symm
    · exact mem_append_left _ (h.responses r hr)
    · rcases (answered_answer ..).1 hk with hk | rfl
      · exact h.answered k hk
      · exact .inr ⟨t, hmem, rfl, hwrite⟩
    · simp only [answer, Access.effect]
      by_cases hplace : x.place = t.place
      · have hsame := h.getElem? hc hx
        rw [hplace, h.getElem? hc hmem, Option.some.injEq] at hsame
        rw [hsame, if_pos hw]
      · have hk : v.Answered x.place := ((answered_answer ..).1 hk).resolve_right hplace
        rw [if_neg]
        · exact h.stored x hx hk a hw
        · intro htw
          rcases Nat.lt_or_gt_of_ne hplace with hlt | hgt
          · exact hfree x (h.mem_passed hts hx hlt) ⟨a, .inl ⟨hw, Access.touches_of_writes htw⟩⟩
          · exact hanswered (hinorder _ hk t.place _ _ hgt (h.getElem? hc hmem) (h.getElem? hc hx)
              ⟨a, .inl ⟨htw, Access.touches_of_writes hw⟩⟩)
    · exact (answered_answer ..).2 (.inr rfl)
    · exact (answered_answer ..).2 (.inl hk)

theorem Serves.sent {v' : Service} (h : s.Serves initial v) (hts : s.inflightTransactions = passed ++ t :: ts)
    (hrun : Relation.ReflTransGen (Service.Step Service.Ordered) (new initial) v') (hmemory : v'.memory = v.memory)
    (haccepted : v'.accepted = v.accepted) (hold : ∀ r ∈ v.answered, r ∈ v'.answered)
    (hnew : ∀ k, v'.Answered k → v.Answered k ∨ k = t.place) {rsp : AccessRsp Bytes}
    (hrsp : (t.place, Ideal.Comp.rspData rsp) ∈ v'.answered) :
    Serves initial { s with inflightTransactions := passed ++ ts, responses := s.responses ++ [(t.place, rsp)] } v' := by
  have hsub : ∀ x ∈ passed ++ ts, x ∈ s.inflightTransactions := by
    intro x hx
    rw [hts]
    simp only [mem_append, mem_cons] at hx ⊢
    exact hx.imp_right .inr
  have hincreasing := h.increasing
  rw [hts] at hincreasing
  refine ⟨hrun, hmemory.trans h.memory, haccepted.trans h.accepted, fun r hr => ?_, fun k hk => ?_, fun x hx hk a hw => ?_,
    fun x hx => h.access x (hsub x hx), ?_⟩
  · rcases mem_append.1 hr with hr | hr
    · exact hold _ (h.responses r hr)
    · rw [mem_singleton.1 hr]
      exact hrsp
  · simp only [map_append, map_cons, map_nil, mem_append, mem_singleton]
    rcases hnew k hk with hk | rfl
    · rcases h.answered k hk with hk | ⟨x, hx, rfl, hwrite⟩
      · exact .inl (.inl hk)
      · rw [hts, mem_append, mem_cons] at hx
        rcases hx with hx | rfl | hx
        · exact .inr ⟨x, .inl hx, rfl, hwrite⟩
        · exact .inl (.inr rfl)
        · exact .inr ⟨x, .inr hx, rfl, hwrite⟩
    · exact .inl (.inr rfl)
  · rw [hmemory]
    refine h.stored x (hsub x hx) ((hnew _ hk).resolve_right fun hplace => ?_) a hw
    -- the places in flight are distinct
    have hne : t.place ∉ (passed ++ ts).map (·.place) := by
      have hnodup := (hincreasing.imp fun hlt => ne_of_lt hlt).perm (perm_middle.map _) Ne.symm
      exact (nodup_cons.1 hnodup).1
    exact hne (hplace ▸ mem_map_of_mem hx)
  · exact hincreasing.sublist ((List.Sublist.append_left (sublist_cons_self ..) _).map _)

theorem Serves.read (h : s.Serves initial v) (hc : s.Conserved) (hts : s.inflightTransactions = passed ++ t :: ts)
    {r : ReadReq} (ht : t.req = .read r) (hok : s.MayAnswer passed t true)
    (hpassed : ∀ x ∈ passed, x.isCompleted s.completed = true → isReadReq x.req = false → v.Answered x.place) {data : Bytes}
    (hdata : s.storage.read t.internalAddress r.accessByteSize = .ok data) :
    ∃ v', Serves initial { s with
      inflightTransactions := passed ++ ts
      responses := s.responses ++ [(t.place, .dataReady { dst := r.src, respondTo := r.id, data })] } v' := by
  have hmem : t ∈ s.inflightTransactions := by simp [hts]
  have hread : isReadReq t.req = true := by rw [ht]; rfl
  have haccess : t.access = .read t.internalAddress r.accessByteSize := by rw [Transaction.access, ht]
  have hnew := h.not_answered hc hmem hread
  have hordered : v.Ordered t.place := by
    refine h.ordered hc hts fun x hx hconflict => ?_
    obtain ⟨a, ⟨hw, htouches⟩ | ⟨-, hw⟩⟩ := hconflict
    · exact hpassed x hx (hok.2 hread rfl x hx a hw htouches) (Transaction.isRead_of_writes hw)
    · rw [Transaction.writes_of_isRead hread] at hw
      cases hw
  have hbytes : (t.place, data) ∈ (v.answer t.place t.access).answered := by
    refine mem_append_right _ (mem_singleton.2 ?_)
    rw [haccess, h.memory, Storage.read_eq_ok hdata]
    rfl
  have hmemory : (v.answer t.place t.access).memory = v.memory := by
    funext a
    simp only [answer, Access.effect, Transaction.writes_of_isRead hread]
    rfl
  exact ⟨v.answer t.place t.access, h.sent hts (h.run.tail (.answer v t.place t.access (h.getElem? hc hmem) hnew hordered))
    hmemory rfl
    (fun r hr => mem_append_left _ hr) (fun k hk => (answered_answer ..).1 hk) hbytes⟩

theorem Conserved.write (h : s.Conserved) (storage : Storage) : Conserved { s with storage } :=
  ⟨h.places, h.split, h.waiting, h.queued, h.started, h.requests, h.inflight, h.answered⟩

variable {answers : List Bool}

/-- The loop of `respond`: the completed transactions that were passed have been tried. -/
theorem Serves.respondLoop {done : Bool} {left : List Transaction} (h : s.Serves initial v) (hc : s.Conserved)
    (hts : s.inflightTransactions = passed ++ ts)
    (hpassed : ∀ x ∈ passed, x.isCompleted s.completed = true → isReadReq x.req = false → v.Answered x.place)
    (hok : LoopWaits passed ts answers s) (hr : MemController.respondLoop ts answers s = .ok (done, left, s')) :
    ∃ v', Serves initial { s' with inflightTransactions := passed ++ left } v' := by
  induction ts generalizing passed s v answers done left with
  | nil =>
    cases hr
    exact ⟨v, by rw [← hts]; exact h⟩
  | cons t ts ih =>
    have hnext : s.inflightTransactions = (passed ++ [t]) ++ ts := by rw [hts, append_assoc]; rfl
    unfold MemController.respondLoop at hr
    unfold LoopWaits at hok
    by_cases hcompleted : t.isCompleted s.completed = true
    · rw [if_pos hcompleted] at hr hok
      obtain ⟨hmay, hrest⟩ := hok
      obtain ⟨u, hu, hr⟩ := eq_ok_of_bind hr
      cases htaken : answers.headD true with
      | true =>
        simp only [htaken] at hu hr hmay
        cases hr
        cases hreq : t.req with
        | write =>
          obtain ⟨storage, hstorage, rfl⟩ := finalizeWrite_eq_ok hreq hu
          obtain ⟨v', hv', hanswered, -⟩ := h.write hc hts hreq hmay hstorage
          refine ⟨v', hv'.sent hts hv'.run rfl rfl (fun r hr => hr) (fun k hk => .inl hk) ?_⟩
          -- a write returns no bytes
          have hmem : t ∈ s.inflightTransactions := by simp [hts]
          obtain ⟨⟨_, _⟩, hd, rfl⟩ := mem_map.1 hanswered
          obtain ⟨_, _, hq, rfl⟩ := Service.data_of_reaches hv'.run hd
          have hsame := hv'.getElem? (hc.write storage) hmem
          rw [hq, Option.some.injEq, Transaction.access, hreq] at hsame
          subst hsame
          exact hd
        | read =>
          obtain ⟨data, hdata, rfl⟩ := finalizeRead_eq_ok hreq hu
          exact h.read hc hts hreq hmay hpassed hdata
      | false =>
        simp only [htaken] at hu hr hmay
        obtain ⟨⟨done', left', x⟩, hx, hr⟩ := eq_ok_of_bind hr
        cases hr
        have hrest := hrest u htaken hu
        cases hreq : t.req with
        | write =>
          obtain ⟨storage, hstorage, rfl⟩ := finalizeWrite_eq_ok hreq hu
          obtain ⟨v', hv', _, hmono⟩ := h.write hc hts hreq hmay hstorage
          have hpassed' : ∀ x ∈ passed ++ [t], x.isCompleted s.completed = true → isReadReq x.req = false →
              v'.Answered x.place := by
            intro x hx hxc hxw
            rcases mem_append.1 hx with hx | hx
            · exact hmono _ (hpassed x hx hxc hxw)
            · rwa [mem_singleton.1 hx]
          obtain ⟨v'', hv''⟩ := ih hv' (hc.write storage) hnext hpassed' hrest hx
          exact ⟨v'', by rwa [append_assoc] at hv''⟩
        | read =>
          obtain ⟨_, _, rfl⟩ := finalizeRead_eq_ok hreq hu
          have hpassed' : ∀ x ∈ passed ++ [t], x.isCompleted s.completed = true → isReadReq x.req = false →
              v.Answered x.place := by
            intro x hx hxc hxw
            rcases mem_append.1 hx with hx | hx
            · exact hpassed x hx hxc hxw
            · rw [mem_singleton.1 hx, hreq] at hxw
              cases hxw
          obtain ⟨v', hv'⟩ := ih h hc hnext hpassed' hrest hx
          exact ⟨v', by rwa [append_assoc] at hv'⟩
    · rw [if_neg hcompleted] at hr hok
      obtain ⟨⟨_, _, x⟩, hx, hr⟩ := eq_ok_of_bind hr
      cases hr
      have hpassed' : ∀ x ∈ passed ++ [t], x.isCompleted s.completed = true → isReadReq x.req = false →
          v.Answered x.place := by
        intro x hx hxc hxw
        rcases mem_append.1 hx with hx | hx
        · exact hpassed x hx hxc hxw
        · rw [mem_singleton.1 hx] at hxc
          exact absurd hxc hcompleted
      obtain ⟨v', hv'⟩ := ih h hc hnext hpassed' hok hx
      exact ⟨v', by rwa [append_assoc] at hv'⟩

theorem Serves.respond (h : s.Serves initial v) (hc : s.Conserved) (hok : LoopWaits [] s.inflightTransactions answers s)
    (hr : s.respond answers = .ok (p, s')) : ∃ v', s'.Serves initial v' := by
  obtain ⟨⟨_, _, _⟩, hu, hr⟩ := eq_ok_of_bind hr
  cases hr
  exact h.respondLoop hc rfl (fun x hx => absurd hx not_mem_nil) hok hu

/-! ## The other parts of a tick -/

theorem Serves.parseTop (h : s.Serves initial v) (hc : s.Conserved) (hp : s.parseTop = .ok (p, s')) :
    ∃ v', s'.Serves initial v' := by
  rcases parseTop_eq_ok hp with rfl | ⟨msg, internalAddress, sts, -, haddress, -, -, rfl⟩
  · exact ⟨v, h⟩
  obtain ⟨hsettled, -⟩ := ordered_of_reaches h.run
  have hlen : v.accepted.length = s.accepted.length := by rw [h.accepted, length_map]
  have haccess : Transaction.access ⟨s.accepted.length, msg, internalAddress, sts⟩ = cfg.access msg := by
    have hget : (cfg.convert msg.address).toOption.getD 0 = internalAddress := by rw [haddress]; rfl
    rw [← hget]
    cases msg with
    | read | write => rfl
  refine ⟨v.accept (cfg.access msg), h.run.tail (.accept v _), h.memory, ?_, fun r hr => ?_,
    fun k hk => ?_, fun x hx hk => ?_, fun x hx => ?_, ?_⟩
  · simp only [accept, h.accepted, map_append, map_cons, map_nil]
  · exact h.responses r hr
  · rcases h.answered k hk with hk | ⟨x, hx, hplace⟩
    · exact .inl hk
    · exact .inr ⟨x, mem_append_left _ hx, hplace⟩
  · rcases mem_append.1 hx with hx | hx
    · exact h.stored x hx hk
    · have := hsettled.accepted _ hk
      rw [mem_singleton.1 hx] at this
      simp only at this
      omega
  · rcases mem_append.1 hx with hx | hx
    · exact h.access x hx
    · rw [mem_singleton.1 hx, haccess]
  · rw [map_append, pairwise_append]
    refine ⟨h.increasing, pairwise_singleton .., fun i hi j hj => ?_⟩
    obtain ⟨x, hx, rfl⟩ := mem_map.1 hi
    rw [mem_singleton.1 hj]
    exact (List.getElem?_eq_some_iff.1 (hc.inflight x hx).1).1

/-- The banks and the queues leave the storage and the requests. -/
theorem Serves.frame (h : s.Serves initial v) (hstorage : s'.storage = s.storage) (haccepted : s'.accepted = s.accepted)
    (hresponses : s'.responses = s.responses) (hinflight : s'.inflightTransactions = s.inflightTransactions) :
    s'.Serves initial v := by
  refine ⟨h.run, hstorage ▸ h.memory, haccepted ▸ h.accepted, hresponses ▸ h.responses, ?_,
    hinflight ▸ h.stored, hinflight ▸ h.access, hinflight ▸ h.increasing⟩
  rw [hresponses, hinflight]
  exact h.answered

theorem Serves.tick {first second : List Bool} (h : s.Serves initial v) (hc : s.Conserved)
    (hok : s.Waits (.tick first second)) (ht : s.tick first second = .ok (p, s')) : ∃ v', s'.Serves initial v' := by
  obtain ⟨a, _, c, d, ⟨q, ha⟩, ⟨_, hb⟩, ⟨_, hc'⟩, ⟨_, hd⟩, _, ht⟩ := tick_eq_ok ht
  obtain ⟨_, h₁⟩ := h.respond hc hok.1 ha
  obtain ⟨v₂, h₂⟩ := h₁.respond (hc.respond ha) (hok.2 q a ha) hb
  have h₃ : c.Serves initial v₂ := by
    rcases issue_eq_ok hc' with ⟨next, rfl⟩ | hissues
    · exact h₂.frame rfl rfl rfl rfl
    · obtain ⟨_, before, _, after, _, -, -, -, -, -, -, _, _, rfl⟩ := hissues.effects
      exact h₂.frame rfl rfl rfl rfl
  have h₄ : d.Serves initial v₂ := by
    rcases subTransQueueTick_eq_ok hd with rfl | ⟨_, _, _, _, -, -, -, rfl⟩
    · exact h₃
    · exact h₃.frame rfl rfl rfl rfl
  exact h₄.parseTop (((((hc.respond ha).respond hb).channelTick).issue hc').subTransQueueTick hd) ht

/-- A controller whose answers wait serves in order. -/
theorem serves_of_reaches {storage : Storage} (h : Reaches Waits storage s) : ∃ v, s.Serves storage.data v := by
  induction h with
  | start =>
    exact ⟨new storage.data, .refl, rfl, rfl, forall_mem_nil _, forall_mem_nil _, forall_mem_nil _,
      forall_mem_nil _, List.Pairwise.nil⟩
  | @step s s' turn hs hok h ih =>
    obtain ⟨v, hv⟩ := ih
    cases turn with
    | deliver =>
      cases h
      refine ⟨v, ?_⟩
      split
      · exact hv.frame rfl rfl rfl rfl
      · exact hv
    | tick =>
      obtain ⟨⟨_, _⟩, ht, h⟩ := eq_ok_of_bind h
      cases h
      exact hv.tick (Conserved.of_reaches hs) hok ht

/-- Reads return the last writes accepted before them, and in the end the storage holds the last accepted writes. -/
structure InOrder (storage : Storage) (s : MemController cfg) : Prop where
  reads : (s.service storage.data).ReadsExact
  final : (s.service storage.data).Final

theorem inOrder_of_waits {storage : Storage} (h : Reaches Waits storage s) : s.InOrder storage := by
  obtain ⟨v, hv⟩ := serves_of_reaches h
  obtain ⟨hsettled, -, hreads⟩ := ordered_of_reaches hv.run
  have hlast : ∀ q a x, v.Last q a x → (s.service storage.data).Last q a x := by
    intro q a x hx
    have haccepted : v.accepted = (s.service storage.data).accepted := hv.accepted
    refine hx.congr (Service.initial_of_reaches hv.run).symm (fun k r hr hk _ => ⟨hk, ?_⟩) fun k r hr hk _ => ⟨hk, ?_⟩
    · rw [← haccepted, hr]
    · rw [haccepted, hr]
  refine ⟨fun k d address size hk hread => ?_, fun hall a => ?_⟩
  · obtain ⟨r, hr, heq⟩ := mem_map.1 hk
    obtain ⟨rfl, rfl⟩ := Prod.mk.inj heq
    have hread : v.accepted[r.1]? = some (.read address size) := by rw [hv.accepted]; exact hread
    obtain ⟨hlen, hbytes⟩ := hreads _ _ address size (hv.responses r hr) hread
    exact ⟨hlen, fun i hi => hlast _ _ _ (hbytes i hi)⟩
  · have hmemory : (s.service storage.data).memory a = v.memory a := by rw [hv.memory]; rfl
    rw [hmemory]
    refine hlast _ _ _ (hsettled.final (fun k hk => ?_) a)
    rw [hv.accepted] at hk
    obtain ⟨_, hd, rfl⟩ := mem_map.1 (hall k hk)
    obtain ⟨r, hr, rfl⟩ := mem_map.1 hd
    exact mem_map_of_mem (hv.responses r hr)

/-! ## A write and a read -/

/-- Only the first transaction in flight may be completed, and no write has a mask. -/
def firstOnly (s : MemController cfg) (_ : Turn) : Bool :=
  (s.inflightTransactions.tail.all fun t => !t.isCompleted s.completed) && s.inflightTransactions.all fun t =>
    match t.req with
    | .read _ => true
    | .write w => w.dirtyMask.isNone

theorem loopWaits_of_none (h : ∀ x ∈ ts, x.isCompleted s.completed = false) : LoopWaits passed ts answers s := by
  induction ts generalizing passed with
  | nil => trivial
  | cons t _ ih =>
    rw [LoopWaits, if_neg (by simp [h t (mem_cons_self ..)])]
    exact ih fun x hx => h x (mem_cons_of_mem _ hx)

theorem keepsMasked_of_none (h : ∀ w, t.req = .write w → w.dirtyMask = none) (m : Nat → UInt8) : t.KeepsMasked m := by
  intro w hw i hi hmasked
  simp [Transaction.access, hw, h w hw, Access.writes, covers, hi] at hmasked

theorem loopWaits_of_firstOnly {turn : Turn} (h : s.firstOnly turn = true) (answers : List Bool) :
    LoopWaits [] s.inflightTransactions answers s := by
  rw [firstOnly, Bool.and_eq_true, all_eq_true, all_eq_true] at h
  obtain ⟨hnone, hmask⟩ := h
  cases hts : s.inflightTransactions with
  | nil => trivial
  | cons t ts =>
    rw [hts] at hnone hmask
    have hnone : ∀ x ∈ ts, x.isCompleted s.completed = false := fun x hx => by simpa using hnone x hx
    unfold LoopWaits
    split
    · refine ⟨⟨fun _ => ⟨keepsMasked_of_none (fun w hw => ?_) _, forall_mem_nil _⟩, fun _ _ _ hx => absurd hx not_mem_nil⟩,
        fun u _ hu => loopWaits_of_none ?_⟩
      · have := hmask t (mem_cons_self ..)
        rw [hw] at this
        simpa using this
      · obtain ⟨_, _, -, rfl⟩ := finalizeTransaction_eq_ok hu
        exact hnone
    · exact loopWaits_of_none hnone

theorem waits_of_firstOnly (s : MemController cfg) (turn : Turn) (h : s.firstOnly turn = true) : s.Waits turn := by
  cases turn with
  | deliver => trivial
  | tick first second =>
    refine ⟨loopWaits_of_firstOnly h first, fun p u hu => @loopWaits_of_firstOnly _ u (.tick [] []) ?_ second⟩
    rcases respond_eq_ok hu with ⟨storage, rfl⟩ | ⟨before, t, _, _, storage, hts, hcompleted, -, rfl⟩
    · exact h
    · -- the transaction that left is the first one
      rw [firstOnly, Bool.and_eq_true, all_eq_true, all_eq_true] at h ⊢
      rw [hts] at h
      cases before with
      | nil => exact ⟨fun x hx => h.1 x (mem_of_mem_tail hx), fun x hx => h.2 x (mem_cons_of_mem _ hx)⟩
      | cons =>
        have := h.1 t (by simp)
        rw [hcompleted] at this
        cases this

/-- A write and then a read of one byte. -/
def writeThenRead : List AccessReq :=
  [.write { id := 1, src := 0, pid := 0, address := 0, data := [7], dirtyMask := none },
    .read { id := 2, src := 0, pid := 0, address := 0, accessByteSize := 1 }]

/-- With the default parameters the write is answered first, and the read returns its byte. -/
theorem inOrder_of_waits_ddr3 : ∃ s : MemController ({} : Builder).build, (s.accepted = writeThenRead ∧ s.responses =
      [(0, .writeDone { dst := 0, respondTo := 1 }), (1, .dataReady { dst := 0, respondTo := 2, data := [7] })]) ∧
    s.InOrder (Storage.new 4096) := by
  have hrun : (runChecked firstOnly (requestTurns writeThenRead 80)
      ({ storage := Storage.new 4096 } : MemController ({} : Builder).build)).toOption.any
        (fun s => s.accepted = writeThenRead ∧ s.responses =
        [(0, .writeDone { dst := 0, respondTo := 1 }), (1, .dataReady { dst := 0, respondTo := 2, data := [7] })]) =
          true := by
    decide +kernel
  obtain ⟨s, hs, hrun⟩ := Succeeds.of_any hrun
  exact ⟨s, of_decide_eq_true hrun, inOrder_of_waits (Reaches.start.run waits_of_firstOnly hs)⟩

/-- GDDR5 timing in which a bank can read 2 cycles before it can write. -/
def readFirst : Builder :=
  { protocol := .gddr5, numRank := 1, numBank := 1, burstLength := 4, tCL := 1, tCWL := 1, tRP := 1, tRAS := 4, tCCDL := 1,
    tCCDS := 1, tRTP := 1, tWTRL := 1, tWTRS := 1, tWR := 1, tRRDL := 1, tRRDS := 1, tRCDRD := 1, tRCDWR := 3 }

/-- The read is completed and answered first, with the old byte. -/
theorem read_completes_first : ∃ s : MemController readFirst.build, Reaches (fun _ _ => True) (Storage.new 4096) s ∧
    s.accepted = writeThenRead ∧ ¬ s.InOrder (Storage.new 4096) := by
  have hrun : (requestRun readFirst.build writeThenRead 20).toOption.any (fun s => s.accepted = writeThenRead ∧
      s.responses = [(1, .dataReady { dst := 0, respondTo := 2, data := [0] }),
        (0, .writeDone { dst := 0, respondTo := 1 })]) = true := by
    decide +kernel
  obtain ⟨s, hs, hrun⟩ := Succeeds.of_any hrun
  obtain ⟨haccepted, hresponses⟩ := of_decide_eq_true hrun
  refine ⟨s, Reaches.turns .start (fun _ _ _ => trivial) hs, haccepted, fun horder => ?_⟩
  have haccesses : (s.service (Storage.new 4096).data).accepted = [.write 0 [7] none, .read 0 1] := by
    rw [service, haccepted]
    rfl
  have hanswered : (1, [0]) ∈ (s.service (Storage.new 4096).data).answered := by
    simp [service, hresponses, Ideal.Comp.rspData]
  obtain ⟨-, hbytes⟩ := horder.reads 1 [0] 0 1 hanswered (by rw [haccesses]; rfl)
  rcases hbytes 0 (by decide) with ⟨k, _, _, hr, _, hv, -⟩ | ⟨hnone, -⟩
  · rw [haccesses] at hr
    obtain rfl : k = 0 := by omega
    cases hr
    exact absurd hv (by decide)
  · exact absurd (hnone 0 (.write 0 [7] none) (by decide) (by rw [haccesses]; rfl)) (by decide)

end MemController

end Akita.Dram
