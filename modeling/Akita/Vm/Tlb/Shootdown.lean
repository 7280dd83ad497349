import Akita.Vm.Tlb.Tlb

/-!
# Shootdowns

* `Fresh log p` : the lower level has returned the page `p` after the last acknowledged flush that names it;
* `Effective log` : every response after an acknowledged flush that names its page carries a page returned since.

A flush leaves two things behind: the entry that is being answered, and the answers of the lower level that arrive later.
`effective_of_reaches` : flushes are effective in every run in which neither is about a page that was flushed.
-/

namespace Akita.Vm.Tlb
open Mem Sim Function List
open Tlb.System (rsp)

variable {cfg : Config}

/-- The flush names the page. -/
def FlushReq.names (req : FlushReq) (p : Page) : Prop := p.pid = req.pid ∧ p.vAddr ∈ req.vAddr

instance (req : FlushReq) (p : Page) : Decidable (req.names p) := inferInstanceAs (Decidable (_ ∧ _))

/-- The event is an acknowledged flush that names the page. -/
def Event.flushes (p : Page) : Event → Prop
  | flushAck req => req.names p
  | _ => False

/-- The event is that the lower level returns the page. -/
def Event.returns (p : Page) : Event → Prop
  | returned rsp => rsp.page = p
  | _ => False

instance (p : Page) : (e : Event) → Decidable (e.flushes p)
  | .flushAck req => inferInstanceAs (Decidable (req.names p))
  | .reqReceive _ | .reqComplete _ | .topSend _ | .returned _ => inferInstanceAs (Decidable False)

instance (p : Page) : (e : Event) → Decidable (e.returns p)
  | .returned rsp => inferInstanceAs (Decidable (rsp.page = p))
  | .reqReceive _ | .reqComplete _ | .topSend _ | .flushAck _ => inferInstanceAs (Decidable False)

def Fresh (log : List Event) (p : Page) : Prop :=
  ∃ l₁ rsp l₂, log = l₁ ++ .returned rsp :: l₂ ∧ rsp.page = p ∧ ∀ e ∈ l₂, ¬ e.flushes p

def Effective (log : List Event) : Prop :=
  ∀ l₁ req l₂ rsp l₃, log = l₁ ++ .flushAck req :: (l₂ ++ .topSend rsp :: l₃) → req.names rsp.page →
    ∃ r, .returned r ∈ l₂ ∧ r.page = rsp.page

section
variable {log : List Event} {p : Page} {e : Event}

theorem Fresh.concat (h : Fresh log p) (he : ¬ e.flushes p) : Fresh (log ++ [e]) p := by
  obtain ⟨l₁, rsp, l₂, rfl, hp, hl₂⟩ := h
  refine ⟨l₁, rsp, l₂ ++ [e], by simp, hp, fun e' he' => ?_⟩
  rcases mem_append.mp he' with he' | he'
  · exact hl₂ e' he'
  · rw [mem_singleton.mp he']
    exact he

/-- A page that is fresh has been returned since any flush that names it. -/
theorem Fresh.returned (h : Fresh log p) {l₁ l₂ : List Event} {req : FlushReq} (hlog : log = l₁ ++ .flushAck req :: l₂)
    (hnames : req.names p) : ∃ r, .returned r ∈ l₂ ∧ r.page = p := by
  obtain ⟨_, rsp, _, hm, hp, hm₂⟩ := h
  rw [hlog] at hm
  rcases append_eq_append_iff.mp hm with ⟨a, -, ha⟩ | ⟨c, -, hc⟩
  · cases a with
    | nil => cases ha
    | cons =>
      rw [cons_append, cons.injEq] at ha
      exact ⟨rsp, by rw [ha.2]; simp, hp⟩
  · -- the flush would come after the page was returned
    cases c with
    | nil => cases hc
    | cons =>
      rw [cons_append, cons.injEq] at hc
      exact absurd hnames (hm₂ (.flushAck req) (by rw [hc.2]; simp))

/-- A response with a fresh page keeps the log effective, and so does any other event. -/
theorem Effective.concat (h : Effective log) (he : ∀ rsp, e = .topSend rsp → Fresh log rsp.page) :
    Effective (log ++ [e]) := by
  intro l₁ req l₂ rsp l₃ heq hnames
  rcases eq_nil_or_concat l₃ with rfl | ⟨l₃, e', rfl⟩
  · have hsplit : log ++ [e] = (l₁ ++ .flushAck req :: l₂) ++ [Event.topSend rsp] := by simpa using heq
    obtain ⟨hlog, hlast⟩ := append_inj' hsplit rfl
    rw [singleton_inj] at hlast
    exact (he rsp hlast).returned hlog hnames
  · have hsplit : log ++ [e] = (l₁ ++ .flushAck req :: (l₂ ++ .topSend rsp :: l₃)) ++ [e'] := by simpa using heq
    exact h l₁ req l₂ rsp l₃ (append_inj' hsplit rfl).1 hnames

end

/-- The set of a page. -/
def InSet (cfg : Config) (i : Nat) (p : Page) : Prop := vAddrToSetID cfg p.vAddr = .ok i

/-- Every page the TLB may respond with is fresh. -/
structure Guarded (t : TLB cfg) : Prop where
  sets : ∀ i, Sound cfg.numWays (fun p => InSet cfg i p ∧ Fresh t.log p) (t.sets i)
  responding : ∀ e, t.respondingMSHREntry = some e → Fresh t.log e.page
  effective : Effective t.log

/-- What a call must find. A flush is not acknowledged while an entry with one of its pages is being answered; and an answer
of the lower level for a page that has an MSHR entry was returned after the last flush of the page. -/
def Timely (t : TLB cfg) : Call → Prop
  | .ctrl => ∀ req, t.controlPort.peek = some (.flush req) → (t.controlPort.send (.flush req.src)).1 = true →
      ∀ e, t.respondingMSHREntry = some e → ¬ req.names e.page
  | .parse => t.isPaused = false → t.respondingMSHREntry = none → ∀ rsp, t.bottomPort.peek = some rsp →
      MSHR.isEntryPresent t.mshr rsp.page.pid rsp.page.vAddr = true → Fresh t.log rsp.page
  | _ => True

section
variable {t t' : TLB cfg} {k : Call}

/-- An event that is not a flush is recorded, and nothing else that `Guarded` speaks about changes. -/
theorem Guarded.record (h : Guarded t) (e : Event) (he : ∀ req, e ≠ .flushAck req)
    (hsend : ∀ rsp, e = .topSend rsp → Fresh t.log rsp.page) (hlog : t'.log = t.log ++ [e]) (hsets : t'.sets = t.sets)
    (hresp : ∀ x, t'.respondingMSHREntry = some x → ∃ x₀, t.respondingMSHREntry = some x₀ ∧ x₀.page = x.page) :
    Guarded t' := by
  have hno : ∀ p, ¬ e.flushes p := by
    intro p hp
    cases e with
    | flushAck req => exact he req rfl
    | _ => exact hp
  refine ⟨fun i => ?_, fun x hx => ?_, ?_⟩
  · rw [hsets, hlog]
    exact (h.sets i).imp fun p hp => ⟨hp.1, hp.2.concat (hno p)⟩
  · obtain ⟨x₀, hx₀, hpage⟩ := hresp x hx
    rw [hlog, ← hpage]
    exact (h.responding x₀ hx₀).concat (hno _)
  · rw [hlog]
    exact h.effective.concat hsend

theorem Guarded.of_eq (h : Guarded t) (hlog : t'.log = t.log) (hsets : t'.sets = t.sets)
    (hresp : t'.respondingMSHREntry = t.respondingMSHREntry) : Guarded t' := by
  refine ⟨fun i => ?_, fun x hx => ?_, ?_⟩
  · rw [hsets, hlog]
    exact h.sets i
  · rw [hlog]
    exact h.responding x (hresp ▸ hx)
  · rw [hlog]
    exact h.effective

theorem Guarded.step (h : Guarded t) (hk : Timely t k) (hrun : t.isPaused = false) (hs : Step t k t') : Guarded t' := by
  cases hs with
  | idle => exact h.of_eq rfl rfl rfl
  | respond e req _ _ he =>
    have hmid : Guarded { t with log := t.log ++ [Event.topSend (rspOf req e.page)] } := by
      refine h.record (.topSend (rspOf req e.page)) nofun (fun rsp heq => ?_) rfl rfl fun x hx => ⟨x, hx, rfl⟩
      cases heq
      exact h.responding e he
    refine hmid.record (.reqComplete req) nofun nofun (by simp) rfl fun x hx => ⟨e, he, ?_⟩
    dsimp only at hx
    split at hx
    · cases hx
    · cases hx
      rfl
  | hit req setID wayID page set _ _ _ hlook hvalid hvisit =>
    obtain ⟨_, hlook', hr⟩ := (h.sets setID).lookup req.pid req.vAddr
    rw [hlook, Except.ok.injEq] at hlook'
    obtain ⟨hway, -, -, hfresh⟩ := hr wayID page hlook'.symm
    obtain ⟨set', hvisit', hsound⟩ := (h.sets setID).visit hway
    rw [hvisit, Except.ok.injEq] at hvisit'
    subst hvisit'
    have h₀ : Guarded { t with sets := update t.sets setID set } :=
      ⟨sound_update h.sets hsound, h.responding, h.effective⟩
    have h₁ : Guarded { t with
        sets := update t.sets setID set,
        log := t.log ++ [Event.topSend { rspOf req page with taskID := "" }] } := by
      refine h₀.record (.topSend { rspOf req page with taskID := "" }) nofun (fun rsp heq => ?_)
        rfl rfl fun x hx => ⟨x, hx, rfl⟩
      cases heq
      exact (hfresh hvalid).2
    have h₂ : Guarded { t with
        sets := update t.sets setID set,
        log := t.log ++ [Event.topSend { rspOf req page with taskID := "" }] ++ [Event.reqReceive req] } :=
      h₁.record (.reqReceive req) nofun nofun rfl rfl fun x hx => ⟨x, hx, rfl⟩
    exact h₂.record (.reqComplete req) nofun nofun (by simp) rfl fun x hx => ⟨x, hx, rfl⟩
  | miss | join => exact h.record (.reqReceive ‹_›) nofun nofun rfl rfl fun x hx => ⟨x, hx, rfl⟩
  | parse rsp _ setID _ _ hnone hrsp he hset hfill =>
    have hfresh := hk hrun hnone rsp hrsp (isEntryPresent_of_query he)
    obtain ⟨_, _, hfill', hsound⟩ := (h.sets setID).fill ((h.sets setID).pos_of_fill hfill) fun _ => ⟨hset, hfresh⟩
    rw [hfill, Except.ok.injEq, Prod.mk.injEq] at hfill'
    obtain ⟨rfl, rfl⟩ := hfill'
    refine ⟨sound_update h.sets hsound, fun x hx => ?_, h.effective⟩
    cases hx
    exact hfresh
  | drop => exact h.of_eq rfl rfl rfl

theorem invalidateAll_sound {P : Nat → Page → Prop} (hP : ∀ i p, P i p → InSet cfg i p) (pid : PID) (vAddrs : List VAddr)
    {sets sets' : Nat → SetImpl} (h : ∀ i, Sound cfg.numWays (P i) (sets i))
    (hinv : invalidateAll cfg pid vAddrs sets = .ok sets') :
    ∀ i, Sound cfg.numWays (fun p => P i p ∧ ¬ (p.pid = pid ∧ p.vAddr ∈ vAddrs)) (sets' i) := by
  induction vAddrs generalizing sets P with
  | nil =>
    cases hinv
    exact fun i => (h i).imp fun p hp => ⟨hp, by simp⟩
  | cons vAddr _ ih =>
    rw [invalidateAll] at hinv
    obtain ⟨setID, hset, hinv⟩ := eq_ok_of_bind hinv
    obtain ⟨set, _, hone, hsound⟩ := (h setID).invalidate pid vAddr
    simp only [hone, bind, Except.bind] at hinv
    have hmid : ∀ i, Sound cfg.numWays (fun p => P i p ∧ ¬ (p.pid = pid ∧ p.vAddr = vAddr)) (update sets setID set i) := by
      intro i
      by_cases heq : i = setID
      · subst heq
        rw [update_self]
        exact hsound
      · -- the page belongs to another set
        rw [update_of_ne heq]
        refine (h i).imp fun p hp => ⟨hp, ?_⟩
        rintro ⟨-, rfl⟩
        have hin : vAddrToSetID cfg p.vAddr = .ok i := hP i p hp
        rw [hset, Except.ok.injEq] at hin
        exact heq hin.symm
    intro i
    refine (ih (fun i p hp => hP i p hp.1) hmid hinv i).imp fun p hp => ⟨hp.1.1, ?_⟩
    rintro ⟨hpid, hmem⟩
    rcases mem_cons.mp hmem with heq | hmem
    · exact hp.1.2 ⟨hpid, heq⟩
    · exact hp.2 ⟨hpid, hmem⟩

theorem Guarded.ctrlStep (h : Guarded t) (hk : Timely t .ctrl) (hs : CtrlStep t t') : Guarded t' := by
  cases hs with
  | idle => exact h.of_eq rfl rfl rfl
  | flush req sets _ hreq hsent hsets =>
    have hsound := invalidateAll_sound (fun i p hp => hp.1) req.pid req.vAddr h.sets hsets
    refine ⟨fun i => (hsound i).imp fun p hp => ⟨hp.1.1, hp.1.2.concat hp.2⟩, fun e he => ?_, h.effective.concat nofun⟩
    exact (h.responding e he).concat (hk req hreq hsent e he)
  | restart => exact h.of_eq rfl rfl rfl

end

/-- Any requests, flushes, restarts and answers, with timely calls. -/
def Rules.timely (cfg : Config) : Rules cfg where
  request _ := True
  control _ := True
  answer _ _ := True
  call := Timely

/-- **Shootdown.** In every run whose calls are timely, a response after an acknowledged flush that names its page carries a
page that the lower level has returned since. -/
theorem effective_of_reaches {s : System cfg} {ks : List Call} (h : Reaches (Rules.timely cfg) s ks) :
    Effective s.tlb.log := by
  suffices hg : Guarded s.tlb from hg.effective
  induction h with
  | init hbuild =>
    obtain ⟨set, hnew, -⟩ := new_represents cfg.numWays
    simp only [build, newSets, hnew, bind, Except.bind, pure, Except.pure, Except.ok.injEq] at hbuild
    subst hbuild
    refine ⟨fun i => ?_, nofun, ?_⟩
    · obtain ⟨_, hnew', hsound⟩ := new_sound cfg.numWays fun p => InSet cfg i p ∧ Fresh [] p
      rw [hnew, Except.ok.injEq] at hnew'
      subst hnew'
      exact hsound
    · intro l₁ req l₂ rsp l₃ heq
      simp at heq
  | request _ _ _ ih =>
    unfold System.request
    split
    · exact ih.of_eq rfl rfl rfl
    · exact ih
  | control _ _ _ ih =>
    unfold System.control
    split
    · exact ih.of_eq rfl rfl rfl
    · exact ih
  | connect _ _ _ _ ih => exact ih.of_eq rfl rfl rfl
  | answer _ page _ _ ih =>
    unfold System.answer
    split
    next req _ => exact ih.record (.returned (rsp req page)) nofun nofun rfl rfl fun x hx => ⟨x, hx, rfl⟩
    next => exact ih
  | deliver _ _ ih =>
    unfold System.deliver
    split
    · split
      · exact ih.of_eq rfl rfl rfl
      · exact ih
    · exact ih
  | tick _ ih => exact ih
  | call _ hk hexec ih =>
    rcases Call.step hexec with ⟨rfl, hs⟩ | rfl | ⟨hrun, hs⟩
    · exact ih.ctrlStep hk hs
    · exact ih
    · exact ih.step hk hrun hs

/-- A TLB with one set of one way. -/
def tiny : Config where
  numReqPerCycle := 1
  numSets := 1
  numWays := 1
  pageSize := 4096
  lowModule := 0
  numMSHREntry := 1

/-- A request for the page 4096 of process 1. -/
def reqFor (id : MsgID) : TranslationReq := { id, src := 9, vAddr := 4096, pid := 1 }

/-- `Fresh`, for a list of events that is given. -/
def Renewed (log : List Event) (p : Page) : Prop :=
  ∃ l ∈ log.tails, (∃ e ∈ l.head?, e.returns p) ∧ ∀ e ∈ l.tail, ¬ e.flushes p

instance (log : List Event) (p : Page) : Decidable (Renewed log p) := inferInstanceAs (Decidable (∃ l ∈ _, _))

theorem Renewed.fresh {log : List Event} {p : Page} (h : Renewed log p) : Fresh log p := by
  obtain ⟨l, hl, ⟨e, he, hp⟩, hno⟩ := h
  obtain ⟨l₁, rfl⟩ := (mem_tails _ _).mp hl
  cases l with
  | nil => cases he
  | cons _ l₂ =>
    cases he
    cases e with
    | returned rsp => exact ⟨l₁, rsp, l₂, rfl, hp, hno⟩
    | _ => exact hp.elim

/-- No entry is being answered when a control request is handled, and an answer for a page is newer than its flushes. -/
def Prompt (t : TLB cfg) : Call → Prop
  | .ctrl => t.controlPort.peek.isNone = true ∨ t.respondingMSHREntry.isNone = true
  | .parse => ∀ rsp ∈ t.bottomPort.peek, Renewed t.log rsp.page
  | _ => True

instance (t : TLB cfg) : (k : Call) → Decidable (Prompt t k)
  | .ctrl => inferInstanceAs (Decidable (_ ∨ _))
  | .parse => inferInstanceAs (Decidable (∀ rsp ∈ t.bottomPort.peek, Renewed t.log rsp.page))
  | .respond | .lookup => inferInstanceAs (Decidable True)

theorem Prompt.timely {t : TLB cfg} {k : Call} (h : Prompt t k) : Timely t k := by
  cases k with
  | ctrl =>
    intro _ hreq _ e he
    rcases h with h | h
    · rw [hreq] at h
      cases h
    · rw [he] at h
      cases h
  | parse => exact fun _ _ rsp hrsp _ => (h rsp hrsp).fresh
  | _ => trivial

/-- A request for a page is answered. -/
def answered (req : TranslationReq) : List Input :=
  [.request req, .tick, .answer 0 (pageAt 4096), .deliver 0, .tick, .tick]

/-- The page is flushed in between. -/
def refetched : List Input :=
  [.connect [true, true] [true, true] [true, true]] ++ answered (reqFor 7) ++
    [.control (.flush { id := 20, src := 3, vAddr := [4096], pid := 1 }), .tick, .control (.restart 21 3), .tick] ++ answered
    (reqFor 8)

theorem effective_of_reaches_refetched :
    ∃ t, build tiny = .ok t ∧ ∃ s, refetched.foldl (System.replay Prompt) { tlb := t } = s ∧
    s.tlb.log = [.reqReceive (reqFor 7), .returned (rsp (reqToBottom tiny 0 (reqFor 7)) (pageAt 4096)),
      .topSend (rspOf (reqFor 7) (pageAt 4096)), .reqComplete (reqFor 7),
      .flushAck { id := 20, src := 3, vAddr := [4096], pid := 1 },
      .reqReceive (reqFor 8), .returned (rsp (reqToBottom tiny 1 (reqFor 8)) (pageAt 4096)),
      .topSend (rspOf (reqFor 8) (pageAt 4096)), .reqComplete (reqFor 8)] ∧ Effective s.tlb.log := by
  refine ⟨_, rfl, _, rfl, by decide +kernel,
    effective_of_reaches (.replay (fun _ _ => Prompt.timely) (.init (rfl : build tiny = _)) ?_)⟩
  simp [refetched, answered, Rules.Allows, Rules.timely]

/-- Two requests for a page wait for one answer. The first is answered, the page is flushed, and after the restart the second
is answered with the page returned before. -/
def staleAnswer : List Input :=
  [.connect [true, true] [true] [true, true], .request (reqFor 7), .tick, .request (reqFor 8), .tick,
    .answer 0 (pageAt 4096), .deliver 0, .tick, .tick,
    .control (.flush { id := 20, src := 3, vAddr := [4096], pid := 1 }), .tick, .control (.restart 21 3), .tick]

theorem stale_after_flush : ∃ t s, build tiny = .ok t ∧ ({ tlb := t } : System tiny).run staleAnswer = .ok s ∧
    s.tlb.log = [.reqReceive (reqFor 7), .reqReceive (reqFor 8),
      .returned (rsp (reqToBottom tiny 0 (reqFor 7)) (pageAt 4096)),
      .topSend (rspOf (reqFor 7) (pageAt 4096)), .reqComplete (reqFor 7),
      .flushAck { id := 20, src := 3, vAddr := [4096], pid := 1 },
      .topSend (rspOf (reqFor 8) (pageAt 4096)), .reqComplete (reqFor 8)] ∧
    ¬ Effective s.tlb.log := by
  refine ⟨_, _, rfl, rfl, by decide +kernel, fun h => ?_⟩
  obtain ⟨_, hr, -⟩ := h [.reqReceive (reqFor 7), .reqReceive (reqFor 8),
      .returned (rsp (reqToBottom tiny 0 (reqFor 7)) (pageAt 4096)),
      .topSend (rspOf (reqFor 7) (pageAt 4096)), .reqComplete (reqFor 7)]
    { id := 20, src := 3, vAddr := [4096], pid := 1 } [] (rspOf (reqFor 8) (pageAt 4096)) [.reqComplete (reqFor 8)]
    (by decide +kernel) (by decide)
  cases hr

end Akita.Vm.Tlb
