import Akita.Vm.Gmmu.Steps
import Akita.Vm.Mmu.Conservation

/-!
# Conservation of translation requests in the GMMUs

* `inFlight m rsps` : the process and address of each request under way below;
* `Apart s k` : the call `k` meets the condition: a request is sent down only when none is under way for its virtual address,
  and no walk goes to the migration queue;
* `Phase m ks` : what is to be removed, by the calls still to do of a tick;
* `Inv m rsps` : the transaction of each request under way is kept, and each accepted request is answered, walking or under
  way.

`requests_settle` : all of this in every run whose calls meet the condition.
-/

namespace Akita.Vm.Gmmu
open Mem Sim Function
open Vm.Mmu (keep keep_nil keep_map coe_keep_concat map_set_of_eq)
open Multiset (add_cons cons_add map map_coe map_cons mem_map_of_mem nodup_cons)
open List hiding map map_cons nodup_cons
open Option hiding map map_coe map_map
open Prod (fst snd)

variable {cfg : Config}

/-! ## What is under way -/

def keyOfReq (req : TranslationReq) : PID × VAddr := (req.pid, req.vAddr)

def keyOfRsp (rsp : Rsp) : PID × VAddr := (rsp.page.pid, rsp.page.vAddr)

def inFlight (m : GMMU cfg) (rsps : List Rsp) : Multiset (PID × VAddr) :=
  ↑(m.bottomPort.outgoing.map keyOfReq) + ↑(rsps.map keyOfRsp) + ↑(m.bottomPort.buf.elements.map keyOfRsp)

/-- The request whose transaction is kept for a key. -/
def slotReq (remoteMemReqs : VAddr → Option Transaction) (key : PID × VAddr) : Option TranslationReq :=
  (remoteMemReqs key.2).map (·.req)

/-- No request is under way for the virtual address. -/
def Free (s : System cfg) (vAddr : VAddr) : Prop := vAddr ∉ (inFlight s.gmmu s.rsps).map snd

/-- The condition on a call. -/
def Apart (s : System cfg) : Call → Prop
  | .parse => ∀ req, s.gmmu.topPort.peek = some req →
      s.gmmu.walkingTranslations.length < cfg.maxRequestsInFlight → predicts cfg = true →
      (findPage s.gmmu req).deviceID ≠ cfg.deviceID → Free s req.vAddr
  | .walk i => ∀ walking, s.gmmu.walkingTranslations[i]? = some walking → walking.cycleLeft = 0 →
      (isLocal cfg (findPage s.gmmu walking.req) = true → queues cfg { walking with page := findPage s.gmmu walking.req } =
        false) ∧
      (isLocal cfg (findPage s.gmmu walking.req) = false → Free s walking.req.vAddr)
  | _ => True

/-! ## What is to be removed -/

/-- `outside` : nothing is to be removed; `walking` : the walks from `j` on are still to do, those to be removed come
before. -/
inductive Phase (m : GMMU cfg) : List Call → Prop
  | outside (ks : List Call) (hks : ∀ k ∈ ks, k = .sender ∨ k = .parse ∨ k = .fetch) (hrm : m.toRemoveFromPTW = []) :
      Phase m ks
  | walking (j : Nat) (hj : j ≤ m.walkingTranslations.length) (hnodup : m.toRemoveFromPTW.Nodup)
      (hrm : ∀ i ∈ m.toRemoveFromPTW, i < j) :
      Phase m ((range' j (m.walkingTranslations.length - j)).map .walk ++ [.remove, .fetch])

variable {m : GMMU cfg}

theorem Phase.idle (h : Phase m []) : m.toRemoveFromPTW = [] := by
  generalize hl : ([] : List Call) = l at h
  cases h with
  | outside _ _ hrm => exact hrm
  | walking => simp at hl

variable {ks : List Call} {k : Call}

theorem Phase.of_outside (h : Phase m (k :: ks)) (hk : k = .sender ∨ k = .parse ∨ k = .fetch) :
    m.toRemoveFromPTW = [] ∧ ∀ l ∈ ks, l = .sender ∨ l = .parse ∨ l = .fetch := by
  generalize hl : k :: ks = l at h
  cases h with
  | outside _ hks hrm => exact ⟨hrm, fun k' hk' => hks k' (by rw [← hl]; exact mem_cons_of_mem _ hk')⟩
  | walking j =>
    -- the calls of this phase begin with a walk or the removal
    exfalso
    cases hlen : m.walkingTranslations.length - j with
    | zero =>
      rw [hlen] at hl
      have hremove : k = .remove := (cons.inj hl).1
      subst hremove
      simp at hk
    | succ =>
      rw [hlen, range'_succ] at hl
      have hwalk : k = .walk j := (cons.inj hl).1
      subst hwalk
      simp at hk

theorem Phase.toRemove_nil (h : Phase m (k :: ks)) (hk : k = .sender ∨ k = .parse ∨ k = .fetch) :
    m.toRemoveFromPTW = [] := (h.of_outside hk).1

variable {i : Nat}

/-- A walk that is to be done now is not to be removed yet. -/
theorem Phase.walk (h : Phase m (.walk i :: ks)) :
    i < m.walkingTranslations.length ∧ m.toRemoveFromPTW.Nodup ∧ (∀ j ∈ m.toRemoveFromPTW, j < i) ∧
      ks = (range' (i + 1) (m.walkingTranslations.length - (i + 1))).map Call.walk ++ [Call.remove, Call.fetch] := by
  generalize hl : Call.walk i :: ks = l at h
  cases h with
  | outside _ hks =>
    have hk := hks (.walk i) (by rw [← hl]; exact mem_cons_self)
    simp at hk
  | walking j _ hnodup hrm =>
    cases hlen : m.walkingTranslations.length - j with
    | zero =>
      rw [hlen] at hl
      exact absurd (cons.inj hl).1 Call.noConfusion
    | succ n =>
      rw [hlen, range'_succ] at hl
      obtain ⟨hi, hks⟩ := cons.inj hl
      cases hi
      refine ⟨by omega, hnodup, hrm, ?_⟩
      rw [hks, show m.walkingTranslations.length - (i + 1) = n by omega]
      rfl

theorem Phase.remove (h : Phase m (.remove :: ks)) : ks = [.fetch] := by
  generalize hl : Call.remove :: ks = l at h
  cases h with
  | outside _ hks =>
    have hk := hks .remove (by rw [← hl]; exact mem_cons_self)
    simp at hk
  | walking j =>
    cases hlen : m.walkingTranslations.length - j with
    | zero =>
      rw [hlen] at hl
      exact (cons.inj hl).2
    | succ =>
      rw [hlen, range'_succ] at hl
      exact absurd (cons.inj hl).1 Call.noConfusion

theorem Phase.tail {m m' : GMMU cfg} (h : Phase m (k :: ks)) (hk : k = .sender ∨ k = .fetch)
    (hrm : m'.toRemoveFromPTW = m.toRemoveFromPTW) : Phase m' ks := by
  obtain ⟨hnil, hks⟩ := h.of_outside (hk.imp_right .inr)
  exact .outside ks hks (hrm.trans hnil)

theorem Phase.next {m m' : GMMU cfg} (h : Phase m (.walk i :: ks))
    (hlen : m'.walkingTranslations.length = m.walkingTranslations.length)
    (hrm : m'.toRemoveFromPTW = m.toRemoveFromPTW ∨ m'.toRemoveFromPTW = m.toRemoveFromPTW ++ [i]) : Phase m' ks := by
  obtain ⟨_, hnodup, hlt, rfl⟩ := h.walk
  rw [← hlen]
  refine .walking (i + 1) (by omega) ?_ ?_
  · rcases hrm with hrm | hrm
    · rw [hrm]
      exact hnodup
    · rw [hrm, nodup_append]
      refine ⟨hnodup, nodup_singleton i, fun a ha b hb => ?_⟩
      rw [mem_singleton.mp hb]
      exact Nat.ne_of_lt (hlt a ha)
  · intro j hj
    rcases hrm with hrm | hrm
    · rw [hrm] at hj
      exact Nat.lt_succ_of_lt (hlt j hj)
    · rw [hrm] at hj
      rcases mem_append.mp hj with hj | hj
      · exact Nat.lt_succ_of_lt (hlt j hj)
      · rw [mem_singleton.mp hj]
        exact Nat.lt_succ_self i

theorem Phase.walks (hrm : m.toRemoveFromPTW = []) : Phase m (walks m) := by
  have hstart := Phase.walking (m := m) 0 (Nat.zero_le _) (by rw [hrm]; exact nodup_nil) (by rw [hrm]; simp)
  rw [Nat.sub_zero, ← range_eq_range'] at hstart
  exact hstart

theorem Phase.step {m m' : GMMU cfg} (h : Phase m (k :: ks)) (hs : Step m k m') : Phase m' (todo m' k ks) := by
  cases hs with
  | idle k hk =>
    cases k with
    | sender => exact h.tail (.inl rfl) rfl
    | parse => exact Phase.walks (h.toRemove_nil (.inr (.inl rfl)))
    | walk => exact h.next rfl (.inl rfl)
    | remove => exact absurd rfl hk
    | fetch => exact h.tail (.inr rfl) rfl
  | sent => exact h.tail (.inl rfl) rfl
  | receive => exact Phase.walks (h.toRemove_nil (.inr (.inl rfl)))
  | predict | predictRefused => exact Phase.walks rfl
  | countdown | stay => exact h.next (length_set ..) (.inl rfl)
  | hit | enqueue => exact h.next (length_set ..) (.inr rfl)
  | forward => exact h.next rfl (.inr rfl)
  | refuse => exact h.next rfl (.inl rfl)
  | remove =>
    rw [h.remove]
    exact .outside [.fetch] (by simp) rfl
  | answer => exact h.tail (.inr rfl) rfl

/-! ## Conservation -/

def Event.received? : Event → Option TranslationReq
  | .reqReceive req => some req
  | _ => none

def Event.answered? : Event → Option (TranslationReq × TranslationRsp)
  | .answer req rsp => some (req, rsp)
  | _ => none

/-- The requests accepted. -/
def receivedOf (log : List Event) : List TranslationReq := log.filterMap Event.received?

/-- The requests answered, with their answers. -/
def answersOf (log : List Event) : List (TranslationReq × TranslationRsp) := log.filterMap Event.answered?

/-- Everything handed to the top sender so far. -/
def handed (m : GMMU cfg) : List TranslationRsp := m.topPort.outgoing ++ m.topSender.buffer.elements

/-- The response goes to the requester, with the page of its process and address. -/
structure Answers (req : TranslationReq) (rsp : TranslationRsp) : Prop where
  dst : rsp.dst = req.src
  pid : rsp.page.pid = req.pid
  vAddr : rsp.page.vAddr = req.vAddr

/-- The page of the request exists, and the request has its address. -/
structure Known (pt : PageTable) (req : TranslationReq) : Prop where
  page : (pt.find req.pid req.vAddr).isSome = true
  aligned : pt.alignToPage req.vAddr = req.vAddr

/-- The requests that walk, without those to be removed. -/
def walkingReqs (m : GMMU cfg) : List TranslationReq := keep m.toRemoveFromPTW (m.walkingTranslations.map (·.req))

/-- The requests accepted and not answered. -/
def waiting (m : GMMU cfg) (rsps : List Rsp) : Multiset (Option TranslationReq) :=
  ↑((walkingReqs m).map some) + (inFlight m rsps).map (slotReq m.remoteMemReqs)

structure Inv (m : GMMU cfg) (rsps : List Rsp) : Prop where
  known : (∀ req ∈ m.topPort.buf.elements, Known m.pageTable req) ∧ ∀ walking ∈ m.walkingTranslations,
    Known m.pageTable walking.req
  distinct : ((inFlight m rsps).map snd).Nodup
  kept : ∀ key ∈ inFlight m rsps, ∃ tr, m.remoteMemReqs key.2 = some tr ∧ keyOfReq tr.req = key
  answers : ∀ a ∈ answersOf m.log, Answers a.1 a.2
  responses : handed m = (answersOf m.log).map snd
  balance : (↑((receivedOf m.log).map some) : Multiset (Option TranslationReq)) =
    ↑((answersOf m.log).map fun a => some a.1) + waiting m rsps

theorem Inv.of_same {m m' : GMMU cfg} {rsps rsps' : List Rsp} (h : Inv m rsps)
    (htop : ∀ req ∈ m'.topPort.buf.elements, req ∈ m.topPort.buf.elements)
    (hwalking : m'.walkingTranslations.map (·.req) = m.walkingTranslations.map (·.req))
    (hknown : ∀ req, Known m.pageTable req → Known m'.pageTable req) (hflight : inFlight m' rsps' = inFlight m rsps)
    (hslots : m'.remoteMemReqs = m.remoteMemReqs) (hrm : m'.toRemoveFromPTW = m.toRemoveFromPTW) (hlog : m'.log = m.log)
    (hhanded : handed m' = handed m) : Inv m' rsps' := by
  refine ⟨⟨fun req hreq => hknown _ (h.known.1 req (htop req hreq)), fun walking hw => ?_⟩, ?_, ?_, ?_, ?_, ?_⟩
  · have hmem : walking.req ∈ m.walkingTranslations.map (·.req) := by
      rw [← hwalking]
      exact mem_map_of_mem hw
    obtain ⟨walking', hw', heq⟩ := mem_map.mp hmem
    rw [← heq]
    exact hknown _ (h.known.2 walking' hw')
  · rw [hflight]
    exact h.distinct
  · rw [hflight, hslots]
    exact h.kept
  · rw [hlog]
    exact h.answers
  · rw [hhanded, hlog]
    exact h.responses
  · rw [hlog, waiting, walkingReqs, hwalking, hrm, hflight, hslots]
    exact h.balance

theorem map_slotReq_update {slots : VAddr → Option Transaction} {keys : Multiset (PID × VAddr)} {vAddr : VAddr}
    (x : Option Transaction) (hfree : vAddr ∉ keys.map snd) :
    keys.map (slotReq (update slots vAddr x)) = keys.map (slotReq slots) := by
  refine Multiset.map_congr rfl fun key hkey => ?_
  have hne : key.2 ≠ vAddr := fun heq => hfree (heq ▸ mem_map_of_mem snd hkey)
  rw [slotReq, slotReq, update_of_ne hne]

theorem kept_update {slots : VAddr → Option Transaction} {keys : Multiset (PID × VAddr)} {vAddr : VAddr}
    (x : Option Transaction) (hfree : vAddr ∉ keys.map snd)
    (h : ∀ key ∈ keys, ∃ tr, slots key.2 = some tr ∧ keyOfReq tr.req = key) :
    ∀ key ∈ keys, ∃ tr, update slots vAddr x key.2 = some tr ∧ keyOfReq tr.req = key := by
  intro key hkey
  have hne : key.2 ≠ vAddr := fun heq => hfree (heq ▸ mem_map_of_mem snd hkey)
  rw [update_of_ne hne]
  exact h key hkey

/-! ## Steps -/

variable {rsps : List Rsp} {req : TranslationReq}

theorem Inv.received (h : Inv m rsps) (hreq : m.topPort.peek = some req)
    (hrm : m.toRemoveFromPTW = []) : Inv (received m req) rsps := by
  have hbuf := Buffer.peek_eq_some hreq
  have hmem : req ∈ m.topPort.buf.elements := by
    rw [hbuf]
    exact mem_cons_self
  refine ⟨⟨fun r hr => h.known.1 r ?_, fun walking hw => ?_⟩, h.distinct, h.kept, ?_, ?_, ?_⟩
  · rw [hbuf]
    exact mem_cons_of_mem _ hr
  · rcases mem_append.mp hw with hw | hw
    · exact h.known.2 walking hw
    · rw [mem_singleton.mp hw]
      exact h.known.1 req hmem
  · rw [Gmmu.received, answersOf, filterMap_concat]
    simp only [Event.answered?, toList_none, append_nil]
    exact h.answers
  · rw [Gmmu.received, answersOf, filterMap_concat]
    simp only [Event.answered?, toList_none, append_nil]
    exact h.responses
  · have hwalking : walkingReqs (Gmmu.received m req) = walkingReqs m ++ [req] := by
      simp only [walkingReqs, Gmmu.received, hrm, keep_nil, map_append, map_singleton]
    have hbalance := h.balance
    rw [waiting] at hbalance ⊢
    rw [hwalking]
    simp only [Gmmu.received, receivedOf, answersOf, filterMap_concat, Event.received?, Event.answered?, toList_some,
      toList_none, append_nil, map_append, map_singleton, coe_concat, cons_add, add_cons]
    exact congrArg _ hbalance

variable {walking : Transaction}

theorem Inv.forwarded (h : Inv m rsps) (conn : List Bool)
    (hwalking : m.walkingTranslations[i]? = some walking) (hnew : i ∉ m.toRemoveFromPTW)
    (hfree : walking.req.vAddr ∉ (inFlight m rsps).map snd) : Inv (forwarded m i walking conn) rsps := by
  have hflight : inFlight (Gmmu.forwarded m i walking conn) rsps = keyOfReq walking.req ::ₘ inFlight m rsps := by
    simp only [inFlight, Gmmu.forwarded, map_append, map_singleton, coe_concat, cons_add]
    rfl
  have hslot : (Gmmu.forwarded m i walking conn).remoteMemReqs walking.req.vAddr = some walking := update_self ..
  refine ⟨h.known, ?_, ?_, ?_, ?_, ?_⟩
  · rw [hflight, map_cons, nodup_cons]
    exact ⟨hfree, h.distinct⟩
  · rw [hflight]
    intro key hkey
    rcases Multiset.mem_cons.mp hkey with rfl | hkey
    · exact ⟨walking, hslot, rfl⟩
    · exact kept_update (some walking) hfree h.kept key hkey
  · rw [Gmmu.forwarded, answersOf, filterMap_concat]
    simp only [Event.answered?, toList_none, append_nil]
    exact h.answers
  · rw [Gmmu.forwarded, answersOf, filterMap_concat]
    simp only [Event.answered?, toList_none, append_nil]
    exact h.responses
  · have hgone : (↑(walkingReqs m) : Multiset TranslationReq) =
        walking.req ::ₘ ↑(walkingReqs (Gmmu.forwarded m i walking conn)) := by
      apply coe_keep_concat hnew
      rw [getElem?_map, hwalking]
      rfl
    have hgone := congrArg (map some) hgone
    rw [map_coe, map_cons, map_coe] at hgone
    have hbalance := h.balance
    rw [waiting, hgone, ← map_slotReq_update (some walking) hfree] at hbalance
    rw [waiting, hflight, map_cons, slotReq, show (keyOfReq walking.req).2 = walking.req.vAddr from rfl, hslot]
    simp only [Gmmu.forwarded, receivedOf, answersOf, filterMap_concat, Event.received?, Event.answered?, toList_none,
      append_nil, map_some, add_cons, cons_add] at hbalance ⊢
    exact hbalance

/-- The port refuses the request. Its slot is written all the same. -/
theorem Inv.refused (h : Inv m rsps) (conn : List Bool)
    (hfree : walking.req.vAddr ∉ (inFlight m rsps).map snd) : Inv (refused m walking conn) rsps := by
  refine ⟨h.known, h.distinct, kept_update (some walking) hfree h.kept, h.answers, h.responses, ?_⟩
  have hbalance := h.balance
  rw [waiting, ← map_slotReq_update (some walking) hfree] at hbalance
  exact hbalance

theorem Inv.removeWalked (h : Inv m rsps) : Inv (removeWalked m) rsps := by
  refine ⟨⟨h.known.1, fun walking hw => ?_⟩, h.distinct, h.kept, h.answers, h.responses, ?_⟩
  · obtain ⟨_, hx, rfl⟩ := mem_map.mp hw
    have hmem := (mem_filter.mp hx).1
    exact h.known.2 _ (fst_mem_of_mem_zipIdx hmem)
  · have hbalance := h.balance
    rw [waiting, walkingReqs, keep_map] at hbalance
    rw [waiting, walkingReqs]
    simp only [Gmmu.removeWalked, keep_nil]
    exact hbalance

theorem Inv.hit (h : Inv m rsps) (hwalking : m.walkingTranslations[i]? = some walking) (hnew : i ∉ m.toRemoveFromPTW) :
    Inv (answered { m with
      walkingTranslations := m.walkingTranslations.set i { walking with page := findPage m walking.req }
      toRemoveFromPTW := m.toRemoveFromPTW ++ [i] } walking.req
        (rspOfWalk cfg { walking with page := findPage m walking.req })) rsps := by
  have hknown := h.known.2 walking (mem_of_getElem? hwalking)
  obtain ⟨page, hpage⟩ := isSome_iff_exists.mp hknown.page
  have hfind : findPage m walking.req = page := by
    rw [findPage, hpage]
    rfl
  have hkey := PageTable.key_of_find hpage
  have hanswers : Answers walking.req (rspOfWalk cfg { walking with page := findPage m walking.req }) := by
    rw [hfind]
    exact ⟨rfl, hkey.1, hkey.2.trans hknown.aligned⟩
  have hreqs : (m.walkingTranslations.set i { walking with page := findPage m walking.req }).map (·.req) =
      m.walkingTranslations.map (·.req) := map_set_of_eq hwalking rfl
  refine ⟨⟨h.known.1, fun w hw => ?_⟩, h.distinct, h.kept, ?_, ?_, ?_⟩
  · have hmem : w.req ∈ m.walkingTranslations.map (·.req) := by
      rw [← hreqs]
      exact mem_map_of_mem hw
    obtain ⟨w', hw', heq⟩ := mem_map.mp hmem
    rw [← heq]
    exact h.known.2 w' hw'
  · rw [Gmmu.answered, answersOf, filterMap_concat]
    exact forall_mem_append.mpr ⟨h.answers, forall_mem_singleton.mpr hanswers⟩
  · have hresponses := h.responses
    rw [handed] at hresponses ⊢
    simp only [Gmmu.answered, answersOf, filterMap_concat, Event.answered?, toList_some, map_append, map_singleton]
    rw [← append_assoc, hresponses]
    rfl
  · have hgone : (↑(walkingReqs m) : Multiset TranslationReq) =
        walking.req ::ₘ ↑(keep (m.toRemoveFromPTW ++ [i]) (m.walkingTranslations.map (·.req))) := by
      apply coe_keep_concat hnew
      rw [getElem?_map, hwalking]
      rfl
    have hgone := congrArg (map some) hgone
    rw [map_coe, map_cons, map_coe] at hgone
    have hbalance := h.balance
    rw [waiting, hgone] at hbalance
    simp only [waiting, walkingReqs, Gmmu.answered, hreqs, receivedOf, answersOf, filterMap_concat,
      Event.received?, Event.answered?, toList_none, toList_some, append_nil, map_append, map_singleton, coe_concat, add_cons,
      cons_add] at hbalance ⊢
    exact hbalance

variable {rsp : Rsp}

theorem inFlight_of_peek (hrsp : m.bottomPort.peek = some rsp) (rsps : List Rsp) :
    inFlight m rsps = keyOfRsp rsp ::ₘ
      (↑(m.bottomPort.outgoing.map keyOfReq) + ↑(rsps.map keyOfRsp) +
        ↑(m.bottomPort.retrieve.buf.elements.map keyOfRsp)) := by
  rw [inFlight, Buffer.peek_eq_some hrsp, List.map_cons, ← Multiset.cons_coe, add_cons]
  rfl

theorem Inv.kept_of_peek (h : Inv m rsps) (hrsp : m.bottomPort.peek = some rsp) :
    ∃ tr, m.remoteMemReqs rsp.page.vAddr = some tr ∧ keyOfReq tr.req = keyOfRsp rsp := by
  apply h.kept (keyOfRsp rsp)
  rw [inFlight_of_peek hrsp]
  exact Multiset.mem_cons_self _ _

theorem Inv.answer (h : Inv m rsps) {tr : Transaction} (hrsp : m.bottomPort.peek = some rsp)
    (htr : m.remoteMemReqs rsp.page.vAddr = some tr) :
    Inv (answered { m with
      bottomPort := m.bottomPort.retrieve, remoteMemReqs := update m.remoteMemReqs rsp.page.vAddr none } tr.req
      (rspToTop cfg tr.req rsp)) rsps := by
  obtain ⟨tr', htr', hkey⟩ := h.kept_of_peek hrsp
  obtain rfl : tr' = tr := some.inj (htr'.symm.trans htr)
  have hflight := inFlight_of_peek hrsp rsps
  have hdistinct := h.distinct
  rw [hflight, map_cons, nodup_cons] at hdistinct
  refine ⟨h.known, hdistinct.2, ?_, ?_, ?_, ?_⟩
  · refine kept_update none hdistinct.1 fun key hkey => h.kept key ?_
    rw [hflight]
    exact Multiset.mem_cons_of_mem hkey
  · rw [Gmmu.answered, answersOf, filterMap_concat]
    exact forall_mem_append.mpr ⟨h.answers,
      forall_mem_singleton.mpr ⟨rfl, (congrArg fst hkey).symm, (congrArg snd hkey).symm⟩⟩
  · have hresponses := h.responses
    rw [handed] at hresponses ⊢
    simp only [Gmmu.answered, answersOf, filterMap_concat, Event.answered?, toList_some, map_append, map_singleton]
    rw [← append_assoc, hresponses]
    rfl
  · have hslot : slotReq m.remoteMemReqs (keyOfRsp rsp) = some tr'.req := by
      rw [slotReq, show (keyOfRsp rsp).2 = rsp.page.vAddr from rfl, htr]
      rfl
    have hbalance := h.balance
    rw [waiting, hflight, map_cons, hslot, ← map_slotReq_update none hdistinct.1] at hbalance
    simp only [waiting, walkingReqs, Gmmu.answered, receivedOf, answersOf, filterMap_concat, Event.received?, Event.answered?,
      toList_none, toList_some, append_nil, map_append, map_singleton, coe_concat, add_cons, cons_add] at hbalance ⊢
    exact hbalance

variable {s : System cfg}

theorem Inv.step (h : Inv s.gmmu s.rsps) (hphase : Phase s.gmmu (k :: ks))
    (hG : Apart s k) (hs : Step s.gmmu k m) : Inv m s.rsps := by
  have hnew : ∀ i, k = .walk i → i ∉ s.gmmu.toRemoveFromPTW := by
    rintro i rfl hi
    exact Nat.lt_irrefl i (hphase.walk.2.2.1 i hi)
  cases hs with
  | idle _ hk => exact h.of_same (fun _ hr => hr) rfl (fun _ hk => hk) rfl rfl rfl rfl rfl
  | sent _ _ hrsp =>
    refine h.of_same (fun _ hr => hr) rfl (fun _ hk => hk) rfl rfl rfl rfl ?_
    simp only [handed, append_assoc, singleton_append, Buffer.peek_eq_some hrsp]
  | receive _ hreq => exact h.received hreq (hphase.toRemove_nil (.inr (.inl rfl)))
  | predict req conn hreq hroom hpredicts hremote =>
    have hnil := hphase.toRemove_nil (.inr (.inl rfl))
    have hlast : (Gmmu.received s.gmmu req).walkingTranslations[s.gmmu.walkingTranslations.length]? =
        some { req, cycleLeft := cfg.latency } := by
      simp [Gmmu.received]
    refine ((h.received hreq hnil).forwarded conn hlast ?_ (hG req hreq hroom hpredicts hremote)).removeWalked
    rw [Gmmu.received, hnil]
    exact not_mem_nil
  | predictRefused req conn hreq hroom hpredicts hremote =>
    have hnil := hphase.toRemove_nil (.inr (.inl rfl))
    have hfree : ({ req, cycleLeft := cfg.latency } : Transaction).req.vAddr ∉
        (inFlight (Gmmu.received s.gmmu req) s.rsps).map snd :=
      hG req hreq hroom hpredicts hremote
    exact ((h.received hreq hnil).refused conn hfree).removeWalked
  | countdown _ _ hwalking =>
    exact h.of_same (fun _ hr => hr) (map_set_of_eq hwalking rfl) (fun _ hk => hk) rfl rfl rfl rfl rfl
  | stay _ _ hwalking =>
    exact h.of_same (fun _ hr => hr) (map_set_of_eq hwalking rfl) (fun _ hk => hk) rfl rfl rfl rfl rfl
  | hit i _ hwalking => exact h.hit hwalking (hnew i rfl)
  | enqueue _ walking _ hwalking hready hlocal hqueues =>
    have hfalse := (hG walking hwalking hready).1 hlocal
    rw [hqueues] at hfalse
    exact absurd hfalse.symm Bool.false_ne_true
  | forward i walking conn hwalking hready hremote =>
    exact h.forwarded conn hwalking (hnew i rfl) ((hG walking hwalking hready).2 hremote)
  | refuse _ walking conn hwalking hready hremote => exact h.refused conn ((hG walking hwalking hready).2 hremote)
  | remove => exact h.removeWalked
  | answer _ _ hrsp htr => exact h.answer hrsp htr

/-! ## Runs -/

theorem Inv.init (pageTable : PageTable) : Inv ({ pageTable } : GMMU cfg) [] :=
  ⟨⟨forall_mem_nil _, forall_mem_nil _⟩, Multiset.nodup_zero, fun _ hkey => absurd hkey (Multiset.notMem_zero _),
    forall_mem_nil _, rfl, rfl⟩

theorem Inv.request (h : Inv s.gmmu s.rsps) (hreq : Known s.gmmu.pageTable req) :
    Inv (s.request req).gmmu (s.request req).rsps := by
  unfold System.request Port.recv
  split
  next hrecv =>
    split at hrecv
    · cases hrecv
      refine ⟨⟨fun r hr => ?_, h.known.2⟩, h.distinct, h.kept, h.answers, h.responses, h.balance⟩
      rcases mem_append.mp hr with hr | hr
      · exact h.known.1 r hr
      · rw [mem_singleton.mp hr]
        exact hreq
    · cases hrecv
  next => exact h

theorem Known.setPage {pt : PageTable} (h : Known pt req) (page : Page) : Known (pt.set page) req := by
  refine ⟨?_, h.aligned⟩
  rw [PageTable.find_set]
  split
  · rfl
  · exact h.page

theorem Inv.answered_below (h : Inv s.gmmu s.rsps) (k : Nat) (id : MsgID) (page : Page) :
    Inv (s.answer k id page).gmmu (s.answer k id page).rsps := by
  unfold System.answer
  split
  next req hreq =>
    refine h.of_same (fun _ hr => hr) rfl (fun _ hk => hk) ?_ rfl rfl rfl rfl
    have hperm : (↑(s.gmmu.bottomPort.outgoing.map keyOfReq) : Multiset (PID × VAddr)) =
        keyOfReq req ::ₘ ↑((s.gmmu.bottomPort.outgoing.eraseIdx k).map keyOfReq) :=
          congrArg (map keyOfReq) (coe_eraseIdx hreq)
    simp only [inFlight, map_append, map_singleton, coe_concat, hperm, cons_add, add_cons]
    rfl
  next => exact h

theorem Inv.deliver (h : Inv s.gmmu s.rsps) (k : Nat) : Inv (s.deliver k).gmmu (s.deliver k).rsps := by
  unfold System.deliver
  split
  next rsp hrsp =>
    split
    next bottomPort hrecv =>
      refine h.of_same (fun _ hr => hr) rfl (fun _ hk => hk) ?_ rfl rfl rfl rfl
      have hperm : (↑(s.rsps.map keyOfRsp) : Multiset (PID × VAddr)) = keyOfRsp rsp ::ₘ ↑((s.rsps.eraseIdx k).map keyOfRsp) :=
        congrArg (map keyOfRsp) (coe_eraseIdx hrsp)
      simp only [inFlight, Port.recv_eq hrecv, map_append, map_singleton, coe_concat, hperm, cons_add, add_cons]
    next => exact h
  next => exact h

theorem inv_of_reaches (h : Reaches Apart s ks) : Inv s.gmmu s.rsps ∧ Phase s.gmmu ks := by
  have houtside : ∀ {m m' : GMMU cfg}, Phase m [] → m'.toRemoveFromPTW = m.toRemoveFromPTW → Phase m' [] :=
    fun hphase hrm => .outside [] (forall_mem_nil _) (hrm.trans hphase.idle)
  induction h with
  | init pageTable => exact ⟨.init pageTable, .outside [] (fun k hk => absurd hk not_mem_nil) rfl⟩
  | @request s req h hpage haligned ih =>
    refine ⟨ih.1.request ⟨hpage, haligned⟩, houtside ih.2 ?_⟩
    unfold System.request
    split
    · rfl
    · rfl
  | connect _ _ _ ih => exact ⟨ih.1.of_same (fun _ hr => hr) rfl (fun _ hk => hk) rfl rfl rfl rfl rfl, houtside ih.2 rfl⟩
  | setPage page _ ih =>
    exact ⟨ih.1.of_same (fun _ hr => hr) rfl (fun _ hk => hk.setPage page) rfl rfl rfl rfl rfl, houtside ih.2 rfl⟩
  | @answer s k id page h ih =>
    refine ⟨ih.1.answered_below k id page, houtside ih.2 ?_⟩
    unfold System.answer
    split
    · rfl
    · rfl
  | @deliver s k h ih =>
    refine ⟨ih.1.deliver k, houtside ih.2 ?_⟩
    unfold System.deliver
    split
    · split
      · rfl
      · rfl
    · rfl
  | tick _ ih => exact ⟨ih.1, .outside _ (by simp) ih.2.idle⟩
  | call _ hG hexec ih => exact ⟨ih.1.step ih.2 hG (Call.step hexec), ih.2.step (Call.step hexec)⟩

/-- `answers`, `responses` : the responses handed over answer the requests answered, one each, in this order; `balance` : each
accepted request is answered, walking or under way below, and only one of these; `kept` : the transaction of each request
under way is kept; `found` : a response that has come finds its transaction; `settled` : when nothing walks and nothing is
under way, each accepted request has been answered. -/
structure Settles (s : System cfg) : Prop where
  answers : ∀ a ∈ answersOf s.gmmu.log, Answers a.1 a.2
  responses : handed s.gmmu = (answersOf s.gmmu.log).map snd
  balance : (↑((receivedOf s.gmmu.log).map some) : Multiset (Option TranslationReq)) =
    ↑((answersOf s.gmmu.log).map fun a => some a.1) +
    (↑((walkingReqs s.gmmu).map some) + (inFlight s.gmmu s.rsps).map (slotReq s.gmmu.remoteMemReqs))
  kept : ∀ key ∈ inFlight s.gmmu s.rsps, ∃ tr, s.gmmu.remoteMemReqs key.2 = some tr ∧ keyOfReq tr.req = key
  found : ∀ rsp, s.gmmu.bottomPort.peek = some rsp → ∃ tr, s.gmmu.remoteMemReqs rsp.page.vAddr = some tr ∧
    keyOfReq tr.req = keyOfRsp rsp
  settled : s.gmmu.walkingTranslations = [] → inFlight s.gmmu s.rsps = 0 →
    (↑(receivedOf s.gmmu.log) : Multiset TranslationReq) = ↑((answersOf s.gmmu.log).map fst)

/-- **Transactions never collide** in a run that sends no request down while one is under way for its virtual address, and
whose walks do not go to the migration queue. -/
theorem requests_settle {s : System cfg} {ks : List Call} (h : Reaches Apart s ks) : Settles s := by
  have hi := (inv_of_reaches h).1
  refine ⟨hi.answers, hi.responses, hi.balance, hi.kept, fun rsp hrsp => hi.kept_of_peek hrsp, ?_⟩
  intro hwalking hflight
  have hbalance := hi.balance
  have hnone : walkingReqs s.gmmu = [] := by
    rw [walkingReqs, hwalking]
    rfl
  rw [waiting, hnone, hflight, Multiset.map_zero, map_nil, Multiset.coe_nil, add_zero, add_zero] at hbalance
  apply Multiset.map_injective (some_injective TranslationReq)
  rw [map_coe, map_coe, map_map]
  exact hbalance

/-- A GMMU of device 1 without latency. -/
def fast : Config :=
  { kind := .gmmu, deviceID := 1, latency := 0, maxRequestsInFlight := 16, topPort := 0, bottomPort := 1, lowModule := 2 }

/-- Two processes have a page at one virtual address, on device 2. -/
def twoPages : PageTable :=
  (PageTable.empty.set { pid := 1, vAddr := 0x1000, pAddr := 0x2000, pageSize := 4096, valid := true, deviceID := 2 }).set
    { pid := 2, vAddr := 0x1000, pAddr := 0x3000, pageSize := 4096, valid := true, deviceID := 2 }

def firstReq : TranslationReq := { id := 7, src := 5, vAddr := 0x1000, pid := 1, deviceID := 1 }

def secondReq : TranslationReq := { id := 8, src := 6, vAddr := 0x1000, pid := 2, deviceID := 1 }

section
variable {G : System cfg → Call → Prop} [∀ s k, Decidable (G s k)]

def System.exec (k : Call) (s : System cfg) : Except String (Bool × System cfg) :=
  (k.exec s.gmmu).map fun r => (r.1, { s with gmmu := r.2 })

/-- A tick, if `G` holds before each of its calls. -/
def System.tickIf (G : System cfg → Call → Prop) [∀ s k, Decidable (G s k)] (s : System cfg) : System cfg :=
  ((guarded G System.exec [.sender, .parse] s).bind fun s => guarded G System.exec (walks s.gmmu) s).getD s

omit [∀ s k, Decidable (G s k)] in
theorem Reaches.exec {s : System cfg} {r : Bool × System cfg} (h : Reaches G s (k :: ks)) (hk : G s k)
    (hexec : s.exec k = .ok r) : Reaches G r.2 (todo r.2.gmmu k ks) := by
  unfold System.exec at hexec
  cases hm : k.exec s.gmmu with
  | error =>
    rw [hm] at hexec
    cases hexec
  | ok =>
    rw [hm] at hexec
    cases hexec
    exact h.call hk hm

theorem Reaches.tickIf {s : System cfg} (h : Reaches G s []) : Reaches G (s.tickIf G) [] := by
  unfold System.tickIf
  cases hs : (guarded G System.exec [.sender, .parse] s).bind fun s => guarded G System.exec (walks s.gmmu) s with
  | none => exact h
  | some t =>
    obtain ⟨s₁, hfirst, hwalks⟩ := bind_eq_some_iff.mp hs
    obtain ⟨hsender, _, hexec, hfirst⟩ := guarded_cons hfirst
    obtain ⟨hparse, _, hexec', hfirst⟩ := guarded_cons hfirst
    cases hfirst
    have hreach := (h.tick.exec hsender hexec).exec hparse hexec'
    -- the walks do not parse
    refine (guarded_induct (I := fun s ks => Reaches G s ks ∧ .parse ∉ ks) (fun {s k ks r} hi hk hexec => ?_) hwalks (l := [])
      (by rw [append_nil]; exact ⟨hreach, by simp [walks]⟩)).1
    obtain ⟨hs, hno⟩ := hi
    have hnext := hs.exec hk hexec
    rw [mem_cons, not_or] at hno
    cases k with
    | parse => exact absurd rfl hno.1
    | _ => exact ⟨hnext, hno.2⟩

end

instance (s : System cfg) (k : Call) : Decidable (Apart s k) :=
  match k with
  | .parse => inferInstanceAs (Decidable (∀ req ∈ s.gmmu.topPort.peek, _ → _ → _ → ¬ _))
  | .walk i => inferInstanceAs (Decidable (∀ walking ∈ s.gmmu.walkingTranslations[i]?, _ → (_ → _) ∧ (_ → ¬ _)))
  | .sender | .remove | .fetch => inferInstanceAs (Decidable True)

/-- A request is sent down and answered. -/
def asked (s : System fast) (req : TranslationReq) : System fast :=
  (((((s.request req).tickIf Apart).answer 0 req.id { deviceID := 2 }).deliver 0).tickIf Apart).tickIf Apart

theorem reaches_asked {s : System fast} {req : TranslationReq} (h : Reaches Apart s [])
    (hpage : (s.gmmu.pageTable.find req.pid req.vAddr).isSome = true)
    (haligned : s.gmmu.pageTable.alignToPage req.vAddr = req.vAddr) : Reaches Apart (asked s req) [] :=
  ((((h.request req hpage haligned).tickIf.answer 0 req.id { deviceID := 2 }).deliver 0).tickIf).tickIf

/-- The second request is for the same address, and goes down after the first is answered. -/
theorem requests_settle_asked :
    ∃ s, asked (asked (({ gmmu := { pageTable := twoPages } } : System fast).connect [true, true] [true, true])
    firstReq) secondReq = s ∧ (answersOf s.gmmu.log).map (fun x => (x.1, x.2.dst, x.2.page.pid)) =
      [(firstReq, 5, 1), (secondReq, 6, 2)] ∧
    Settles s :=
  ⟨_, rfl, by decide +kernel,
    requests_settle (reaches_asked (reaches_asked (.connect [true, true] [true, true] (.init twoPages))
    (by decide +kernel) (by decide +kernel)) (by decide +kernel) (by decide +kernel))⟩

theorem reaches_call {p : Bool} (h : Reaches (fun _ _ => True) s (k :: ks)) (hexec : k.exec s.gmmu = .ok (p, m)) :
    Reaches (fun _ _ => True) { s with gmmu := m } (todo m k ks) := .call h trivial hexec

/-- The second request takes the slot of the first while it is under way. The response for the first goes to the second
requester with the page of the other process, and the response for the second finds no transaction. -/
theorem slot_taken : ∃ s : System fast, ∃ rsp, Reaches (fun _ _ => True) s [.fetch] ∧
    answersOf s.gmmu.log = [(secondReq, rsp)] ∧
    rsp.dst = 6 ∧ rsp.page.pid = 1 ∧
    Call.exec s.gmmu .fetch = .error "runtime error: invalid memory address or nil pointer dereference" ∧ ¬Settles s := by
  have harrived := Reaches.connect [] [true, true]
    (.request secondReq (.request firstReq (@Reaches.init fast (fun _ _ => True) twoPages)
    rfl (by decide)) rfl (by decide))
  -- both requests are accepted, walk and go down
  have hfirst := reaches_call (reaches_call (reaches_call (reaches_call (reaches_call (.tick harrived) rfl) rfl) rfl) rfl) rfl
  have hsecond := reaches_call (reaches_call (reaches_call (reaches_call (reaches_call (.tick hfirst) rfl) rfl) rfl) rfl) rfl
  -- the response for the first request
  have hanswered := reaches_call (reaches_call (reaches_call (reaches_call
    (.tick (.deliver 0 (.answer 0 0 { deviceID := 2 } hsecond))) rfl) rfl) rfl) rfl
  have hstuck := reaches_call (reaches_call (reaches_call (.tick (.deliver 0 (.answer 0 1 { deviceID := 2 } hanswered))) rfl)
    rfl) rfl
  refine ⟨_, _, hstuck, rfl, rfl, rfl, rfl, fun hsettles => ?_⟩
  obtain ⟨tr, htr, -⟩ := hsettles.found _ rfl
  exact absurd htr.symm (some_ne_none tr)

end Akita.Vm.Gmmu
