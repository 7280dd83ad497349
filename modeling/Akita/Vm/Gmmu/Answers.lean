import Akita.Vm.Gmmu.Conservation

/-!
# Local and remote answers of the GMMUs

A request whose page is local is answered at the end of its walk, any other when the response comes from below.

* `Agrees cfg req rsp` : `rsp` is the local answer to `req`, for the page it carries, which is the page of the request;
* `Handles m rsp tr` : the next call of `fetchFromBottom` answers the request of the transaction `tr` for the response `rsp`;
* `Matched s k` : the response that the call `k` handles has the ID of the request itself and the page of its process, and
  `L2gmmu` has no task to pass on;
* `answers_agree_iff` : the answers of a call agree if and only if it is matched.
-/

namespace Akita.Vm.Gmmu
open Mem Sim Option Function List
open Vm.Mmu (keep map_set_of_eq)
open Returns (bind error ok)

variable {cfg : Config}

/-- The answer of `doPageWalkHit` to a request whose walk has found the page. -/
def localRsp (cfg : Config) (req : TranslationReq) (page : Page) : TranslationRsp :=
  rspOfWalk cfg { req, page, cycleLeft := 0 }

/-- What the requester sees of a local answer. -/
structure Agrees (cfg : Config) (req : TranslationReq) (rsp : TranslationRsp) : Prop where
  localRsp : rsp = localRsp cfg req rsp.page
  page : rsp.page.pid = req.pid ∧ rsp.page.vAddr = req.vAddr

/-- The response at the head of the bottom port is handled, with the transaction found under its virtual address. -/
structure Handles (m : GMMU cfg) (rsp : Rsp) (tr : Transaction) : Prop where
  canSend : m.topSender.canSend 1 = .ok true
  peek : m.bottomPort.peek = some rsp
  transaction : m.remoteMemReqs rsp.page.vAddr = some tr

/-- The condition on a call. -/
def Matched (s : System cfg) : Call → Prop
  | .fetch => ∀ rsp tr, Handles s.gmmu rsp tr →
      rsp.id = tr.req.id ∧ rsp.page.pid = tr.req.pid ∧ (cfg.kind = .gmmu ∨ tr.req.taskID = "")
  | _ => True

/-! ## What is kept -/

/-- The requests are for pages that exist, and the transactions are kept under their virtual addresses. -/
structure Keyed (m : GMMU cfg) : Prop where
  top : ∀ req ∈ m.topPort.buf.elements, Known m.pageTable req
  walking : ∀ walking ∈ m.walkingTranslations, Known m.pageTable walking.req
  slots : ∀ vAddr tr, m.remoteMemReqs vAddr = some tr → tr.req.vAddr = vAddr

section
variable {m m' : GMMU cfg}

/-- The pages that exist still do. -/
def Extends (m m' : GMMU cfg) : Prop := ∀ req, Known m.pageTable req → Known m'.pageTable req

theorem walk_extends (m : GMMU cfg) (i : Nat) : Returns (fun r => Extends m r.2) (walk m i) := by
  have hsame : Extends m m := fun _ h => h
  unfold walk
  split
  · exact error _
  · split
    · exact ok hsame
    · split
      · unfold finalizePageWalk
        dsimp only
        split
        · unfold addTransactionToMigrationQueue
          split
          · exact ok hsame
          · refine bind fun pageTable hupdate => ok fun req hreq => ?_
            unfold PageTable.update at hupdate
            split at hupdate
            · cases hupdate
              exact hreq.setPage _
            · cases hupdate
        · refine bind fun ok _ => ?_
          cases ok with
          | false => exact ok hsame
          | true =>
            refine bind fun m' hm' => ok ?_
            have heq := answer_returns _ _ _ m' hm'
            rw [heq]
            exact hsame
      · rename_i walking _ _ _
        refine ok ?_
        rcases processRemoteMemReq_cases m i walking with ⟨conn, heq⟩ | ⟨conn, heq⟩
        · rw [heq]
          exact hsame
        · rw [heq]
          exact hsame

variable {p : Bool}

variable {k : Call}

theorem exec_extends (h : k.exec m = .ok (p, m')) : Extends m m' := by
  cases k with
  | walk i => exact walk_extends m i _ h
  | _ => cases Call.step h <;> exact fun _ hreq => hreq

theorem Keyed.removeWalked (h : Keyed m) : Keyed (removeWalked m) := by
  refine ⟨h.top, fun walking hw => ?_, h.slots⟩
  obtain ⟨_, hx, rfl⟩ := mem_map.mp hw
  exact h.walking _ (fst_mem_of_mem_zipIdx (mem_filter.mp hx).1)

theorem Keyed.received (h : Keyed m) {req : TranslationReq} (hreq : m.topPort.peek = some req) : Keyed (received m req) := by
  have hbuf := Buffer.peek_eq_some hreq
  refine ⟨fun r hr => h.top r ?_, fun walking hw => ?_, h.slots⟩
  · rw [hbuf]
    exact mem_cons_of_mem _ hr
  · rcases mem_append.mp hw with hw | hw
    · exact h.walking walking hw
    · rw [mem_singleton.mp hw]
      exact h.top req (by rw [hbuf]; exact mem_cons_self)

theorem slots_update {slots : VAddr → Option Transaction} (h : ∀ vAddr tr, slots vAddr = some tr → tr.req.vAddr = vAddr)
    (walking : Transaction) :
    ∀ vAddr tr, update slots walking.req.vAddr (some walking) vAddr = some tr → tr.req.vAddr = vAddr := by
  intro vAddr tr htr
  by_cases heq : vAddr = walking.req.vAddr
  · subst heq
    rw [update_self, some.injEq] at htr
    rw [htr]
  · rw [update_of_ne heq] at htr
    exact h vAddr tr htr

theorem Keyed.set (h : Keyed m) {i : Nat} {walking walking' : Transaction}
    (hwalking : m.walkingTranslations[i]? = some walking) (hreq : walking'.req = walking.req) :
    ∀ w ∈ m.walkingTranslations.set i walking', Known m.pageTable w.req := by
  intro w hw
  rcases mem_or_eq_of_mem_set hw with hw | rfl
  · exact h.walking w hw
  · rw [hreq]
    exact h.walking walking (mem_of_getElem? hwalking)

theorem Keyed.step (h : Keyed m) (hs : Step m k m') (hextends : Extends m m') : Keyed m' := by
  cases hs with
  | idle _ _ top => exact ⟨h.top, h.walking, h.slots⟩
  | sent => exact ⟨h.top, h.walking, h.slots⟩
  | receive _ hreq => exact h.received hreq
  | predict | predictRefused =>
    have hreceived := h.received ‹_›
    exact Keyed.removeWalked ⟨hreceived.top, hreceived.walking, slots_update hreceived.slots _⟩
  | countdown _ _ hwalking => exact ⟨h.top, h.set hwalking rfl, h.slots⟩
  | stay _ _ hwalking => exact ⟨h.top, h.set hwalking rfl, h.slots⟩
  | hit _ _ hwalking => exact ⟨h.top, h.set hwalking rfl, h.slots⟩
  | enqueue _ walking _ hwalking =>
    have hset := h.set hwalking (show ({ walking with page := findPage m walking.req } : Transaction).req =
      walking.req from rfl)
    exact ⟨fun req hreq => hextends req (h.top req hreq), fun w hw => hextends w.req (hset w hw), h.slots⟩
  | forward _ walking => exact ⟨h.top, h.walking, slots_update h.slots walking⟩
  | refuse _ walking => exact ⟨h.top, h.walking, slots_update h.slots walking⟩
  | remove => exact h.removeWalked
  | answer rsp =>
    refine ⟨h.top, h.walking, fun vAddr tr' htr' => ?_⟩
    by_cases heq : vAddr = rsp.page.vAddr
    · subst heq
      change update _ _ _ _ = _ at htr'
      rw [update_self] at htr'
      cases htr'
    · change update _ _ _ _ = _ at htr'
      rw [update_of_ne heq] at htr'
      exact h.slots vAddr tr' htr'

variable {s : System cfg}

theorem Keyed.request (h : Keyed s.gmmu) {req : TranslationReq} (hreq : Known s.gmmu.pageTable req) :
    Keyed (s.request req).gmmu := by
  unfold System.request
  split
  next topPort hrecv =>
    rw [Port.recv_eq hrecv]
    refine ⟨fun r hr => ?_, h.walking, h.slots⟩
    rcases mem_append.mp hr with hr | hr
    · exact h.top r hr
    · rw [mem_singleton.mp hr]
      exact hreq
  next => exact h

theorem keyed_of_reaches {G : System cfg → Call → Prop} {ks : List Call} (h : Reaches G s ks) : Keyed s.gmmu := by
  induction h with
  | init =>
    exact ⟨forall_mem_nil _, forall_mem_nil _, fun _ _ htr => nomatch htr⟩
  | request _ _ hpage haligned ih => exact ih.request ⟨hpage, haligned⟩
  | connect top _ _ ih => exact ⟨ih.top, ih.walking, ih.slots⟩
  | setPage page _ ih =>
    exact ⟨fun req hreq => (ih.top req hreq).setPage page, fun w hw => (ih.walking w hw).setPage page, ih.slots⟩
  | @answer s k id page h ih =>
    unfold System.answer
    split
    · exact ⟨ih.top, ih.walking, ih.slots⟩
    · exact ih
  | @deliver s k h ih =>
    unfold System.deliver
    split
    · split
      · exact ⟨ih.top, ih.walking, ih.slots⟩
      · exact ih
    · exact ih
  | tick _ ih => exact ih
  | call _ _ hexec ih => exact ih.step (Call.step hexec) (exec_extends hexec)

/-! ## Answers -/

theorem agrees_localRsp {walking : Transaction} (hknown : Known m.pageTable walking.req) :
    Agrees cfg walking.req (rspOfWalk cfg { walking with page := findPage m walking.req }) := by
  obtain ⟨page, hpage⟩ := isSome_iff_exists.mp hknown.page
  have hfind : findPage m walking.req = page := by
    rw [findPage, hpage]
    rfl
  have hkey := PageTable.key_of_find hpage
  rw [hfind]
  exact ⟨rfl, hkey.1, hkey.2.trans hknown.aligned⟩

theorem agrees_rspToTop {rsp : Rsp} {tr : Transaction} (hslot : tr.req.vAddr = rsp.page.vAddr) :
    Agrees cfg tr.req (rspToTop cfg tr.req rsp) ↔
      rsp.id = tr.req.id ∧ rsp.page.pid = tr.req.pid ∧ (cfg.kind = .gmmu ∨ tr.req.taskID = "") := by
  have htask : (rspToTop cfg tr.req rsp).taskID = tr.req.taskID ↔ cfg.kind = .gmmu ∨ tr.req.taskID = "" := by
    unfold rspToTop
    cases cfg.kind with
    | gmmu => exact iff_of_true rfl (.inl rfl)
    | l2gmmu | gmmuneighbors => exact ⟨fun h => .inr h.symm, fun h => (h.resolve_left nofun).symm⟩
  constructor
  · rintro ⟨hrsp, hpage⟩
    exact ⟨congrArg TranslationRsp.respondTo hrsp, hpage.1, htask.mp (congrArg TranslationRsp.taskID hrsp)⟩
  · rintro ⟨hid, hpid, hkind⟩
    refine ⟨?_, hpid, hslot.symm⟩
    have htaskID := htask.mpr hkind
    unfold rspToTop at htaskID ⊢
    dsimp only at htaskID
    rw [htaskID, hid]
    rfl

theorem Handles.unique {rsp rsp' : Rsp} {tr tr' : Transaction} (h : Handles m rsp tr) (h' : Handles m rsp' tr') :
    rsp = rsp' ∧ tr = tr' := by
  obtain rfl : rsp = rsp' := some.inj (h.peek.symm.trans h'.peek)
  exact ⟨rfl, some.inj (h.transaction.symm.trans h'.transaction)⟩

theorem fetch_cases (h : fetchFromBottom m = .ok (p, m')) :
    (∃ rsp tr, Handles m rsp tr ∧ m'.log = m.log ++ [Event.answer tr.req (rspToTop cfg tr.req rsp)]) ∨
    (∀ rsp tr, ¬ Handles m rsp tr) ∧ m'.log = m.log := by
  unfold fetchFromBottom at h
  obtain ⟨ok, hok, h⟩ := eq_ok_of_bind h
  cases ok with
  | false =>
    cases h
    refine .inr ⟨fun rsp tr hhandles => ?_, rfl⟩
    have hcan := hok.symm.trans hhandles.canSend
    cases hcan
  | true =>
    cases hrsp : m.bottomPort.peek with
    | none =>
      rw [hrsp] at h
      cases h
      refine .inr ⟨fun rsp tr hhandles => ?_, rfl⟩
      have hpeek := hrsp.symm.trans hhandles.peek
      cases hpeek
    | some rsp =>
      rw [hrsp] at h
      simp only [handleTranslationRsp, if_bnot_true] at h
      cases htr : m.remoteMemReqs rsp.page.vAddr with
      | none =>
        rw [htr] at h
        cases h
      | some tr =>
        rw [htr] at h
        obtain ⟨m₁, hm₁, h⟩ := eq_ok_of_bind h
        have heq := answer_returns _ _ _ m₁ hm₁
        cases h
        refine .inl ⟨rsp, tr, ⟨hok, hrsp, htr⟩, ?_⟩
        rw [heq]
        rfl

theorem Handles.log {rsp : Rsp} {tr : Transaction} (h : Handles m rsp tr) (hfetch : fetchFromBottom m = .ok (p, m')) :
    m'.log = m.log ++ [Event.answer tr.req (rspToTop cfg tr.req rsp)] := by
  rcases fetch_cases hfetch with ⟨_, _, hhandles, hlog⟩ | ⟨hnot, -⟩
  · obtain ⟨rfl, rfl⟩ := h.unique hhandles
    exact hlog
  · exact absurd h (hnot rsp tr)

/-- The answers of a call agree if and only if it is matched. -/
theorem exec_answers (hkeyed : Keyed s.gmmu) (h : k.exec s.gmmu = .ok (p, m')) :
    ∃ new, m'.log = s.gmmu.log ++ new ∧ ((∀ a ∈ answersOf new, Agrees cfg a.1 a.2) ↔ Matched s k) := by
  have hquiet : ∀ {new : List Event}, answersOf new = [] → ∀ a ∈ answersOf new, Agrees cfg a.1 a.2 := by
    intro new hnew a ha
    rw [hnew] at ha
    cases ha
  cases k with
  | fetch =>
    rcases fetch_cases h with ⟨rsp, tr, hhandles, hlog⟩ | ⟨hnot, hlog⟩
    · refine ⟨_, hlog, ?_⟩
      have hiff := @agrees_rspToTop cfg rsp tr (hkeyed.slots _ tr hhandles.transaction)
      constructor
      · intro hall rsp' tr' hhandles'
        obtain ⟨rfl, rfl⟩ := hhandles.unique hhandles'
        exact hiff.mp (hall _ (mem_singleton_self _))
      · intro hmatched a ha
        rw [mem_singleton.mp ha]
        exact hiff.mpr (hmatched rsp tr hhandles)
    · refine ⟨[], by rw [hlog, append_nil], iff_of_true (hquiet rfl) fun rsp tr hhandles => absurd hhandles (hnot rsp tr)⟩
  | walk i =>
    cases Call.step h with
    | hit _ walking hwalking =>
      refine ⟨_, rfl, iff_of_true (fun a ha => ?_) trivial⟩
      rw [mem_singleton.mp ha]
      exact agrees_localRsp (hkeyed.walking walking (mem_of_getElem? hwalking))
    | forward => exact ⟨_, rfl, iff_of_true (hquiet rfl) trivial⟩
    | _ => exact ⟨[], (append_nil _).symm, iff_of_true (hquiet rfl) trivial⟩
  | parse =>
    cases Call.step h with
    | idle => exact ⟨[], (append_nil _).symm, iff_of_true (hquiet rfl) trivial⟩
    | receive | predictRefused => exact ⟨_, rfl, iff_of_true (hquiet rfl) trivial⟩
    | predict =>
      exact ⟨_, append_assoc _ _ _, iff_of_true (hquiet rfl) trivial⟩
  | _ => cases Call.step h <;> exact ⟨[], (append_nil _).symm, iff_of_true (hquiet rfl) trivial⟩

end

/-- **Local and remote answers.** In every run each call answers as `doPageWalkHit` does, for the page of the request, if and
only if the response it handles, if it handles one, has the ID of the request and the page of its process, and in `L2gmmu` the
request has no task; so where this is so at every call, all answers agree. -/
theorem answers_agree_iff (cfg : Config) :
    (∀ (s : System cfg) (k : Call) (ks : List Call) (p : Bool) (m : GMMU cfg), Reaches (fun _ _ => True) s (k :: ks) →
      k.exec s.gmmu = .ok (p, m) →
      ∃ new, m.log = s.gmmu.log ++ new ∧ ((∀ a ∈ answersOf new, Agrees cfg a.1 a.2) ↔ Matched s k)) ∧
    ∀ (s : System cfg) (ks : List Call), Reaches Matched s ks → ∀ a ∈ answersOf s.gmmu.log, Agrees cfg a.1 a.2 := by
  refine ⟨fun s k ks p m h hexec => exec_answers (keyed_of_reaches h) hexec, fun s ks h => ?_⟩
  induction h with
  | init => exact forall_mem_nil _
  | @request s req h hpage haligned ih =>
    unfold System.request
    split <;> exact ih
  | connect _ _ _ ih => exact ih
  | setPage _ _ ih => exact ih
  | @answer s k id page h ih =>
    unfold System.answer
    split <;> exact ih
  | @deliver s k h ih =>
    unfold System.deliver
    split
    · split <;> exact ih
    · exact ih
  | tick _ ih => exact ih
  | call h hG hexec ih =>
    obtain ⟨_, hlog, hiff⟩ := exec_answers (keyed_of_reaches h) hexec
    intro a ha
    dsimp only at ha
    rw [hlog, answersOf, filterMap_append] at ha
    rcases mem_append.mp ha with ha | ha
    · exact ih a ha
    · exact hiff.mpr hG a ha

theorem Reaches.any {G : System cfg → Call → Prop} {s : System cfg} {ks : List Call} (h : Reaches G s ks) :
    Reaches (fun _ _ => True) s ks := by
  induction h with
  | init pageTable => exact .init pageTable
  | request req _ hpage haligned ih => exact .request req ih hpage haligned
  | connect top bottom _ ih => exact .connect top bottom ih
  | setPage page _ ih => exact .setPage page ih
  | answer k id page _ ih => exact .answer k id page ih
  | deliver k _ ih => exact .deliver k ih
  | tick _ ih => exact .tick ih
  | call _ _ hexec ih => exact .call ih trivial hexec

/-- The response of the MMU below to the first request, with an ID of its own. -/
def rspBelow (id : MsgID) : Rsp := { id, dst := 1, respondTo := 0, page := { pid := 1, vAddr := 0x1000, deviceID := 2 } }

theorem reaches_response (id : MsgID) :
    ∃ s : System fast, Reaches Matched s [.fetch] ∧ s.gmmu.log = [.reqReceive firstReq, .forward firstReq] ∧
    Handles s.gmmu (rspBelow id) { req := firstReq, cycleLeft := 0 } ∧ ∃ m, Call.exec s.gmmu .fetch = .ok (true, m) := by
  have hcall : ∀ {s : System fast} {k : Call} {ks : List Call} {p : Bool} {m : GMMU fast}, Reaches Matched s (k :: ks) →
      (∀ rsp, s.gmmu.bottomPort.peek ≠ some rsp) → k.exec s.gmmu = .ok (p, m) →
      Reaches Matched { s with gmmu := m } (todo m k ks) := by
    intro s k ks p m h hnone hexec
    refine .call h ?_ hexec
    cases k with
    | fetch => exact fun rsp tr hhandles => absurd hhandles.peek (hnone rsp)
    | _ => trivial
  have harrived := Reaches.connect [] [true] (.request firstReq (@Reaches.init fast Matched twoPages) rfl (by decide))
  have hforwarded := hcall (hcall (hcall (hcall (hcall (.tick harrived) nofun rfl) nofun rfl) nofun rfl) nofun rfl) nofun rfl
  have hback := Reaches.deliver 0 (.answer 0 id { deviceID := 2 } hforwarded)
  have hsender := Reaches.call (k := .sender) (p := false) (.tick hback) trivial rfl
  have hparse := Reaches.call (k := .parse) (p := false) hsender trivial rfl
  have hremove := Reaches.call (k := .remove) (p := false) hparse trivial rfl
  exact ⟨_, hremove, rfl, ⟨rfl, rfl, rfl⟩, _, rfl⟩

/-- A response that has the ID of the request. -/
theorem answers_agree_iff_response : ∃ s : System fast, Reaches Matched s [] ∧
    ∀ a ∈ answersOf s.gmmu.log, Agrees fast a.1 a.2 := by
  obtain ⟨s, hreaches, -, hhandles, _, hexec⟩ := reaches_response 7
  have hmatched : Matched s .fetch := by
    intro rsp tr hhandles'
    obtain ⟨rfl, rfl⟩ := hhandles.unique hhandles'
    exact ⟨rfl, rfl, .inl rfl⟩
  exact ⟨_, .call hreaches hmatched hexec, (answers_agree_iff fast).2 _ _ (.call hreaches hmatched hexec)⟩

/-- The MMU below gives its response an ID of its own, and the answer responds to this ID instead of the request's. -/
theorem responds_to_response : ∃ s : System fast, Reaches (fun _ _ => True) s [] ∧
    answersOf s.gmmu.log = [(firstReq, rspToTop fast firstReq (rspBelow 1))] ∧
    (rspToTop fast firstReq (rspBelow 1)).respondTo = 1 ∧ (localRsp fast firstReq (rspBelow 1).page).respondTo = 7 ∧
    ¬ Agrees fast firstReq (rspToTop fast firstReq (rspBelow 1)) := by
  obtain ⟨_, hreaches, hlog, hhandles, _, hexec⟩ := reaches_response 1
  refine ⟨_, .call hreaches.any trivial hexec, ?_, rfl, rfl, fun h => ?_⟩
  · dsimp only
    rw [hhandles.log hexec, hlog]
    rfl
  · exact absurd (congrArg TranslationRsp.respondTo h.localRsp) (by decide)

end Akita.Vm.Gmmu
