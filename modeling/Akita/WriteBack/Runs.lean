import Akita.WriteBack.Refinement.Flusher

/-!
# Runs of the write-back cache

A run goes from stage call to stage call, so that what holds of its states holds in the middle of a tick too.

* `Rules` : what the surroundings of a run promise, and what its stage calls find;
* `Reaches R m s ks` : a run by the rules `R` over the memory `m` reaches `s`, with the calls `ks` of a tick still to do;
* `Flow.Reachable G m a` : steps whose labels satisfy `G` reach the flow `a`.

`Reaches.flow` : every run is a sequence of steps of the flow. `Reaches.no_panic` : no call of a run panics.
-/

namespace Akita.WriteBack
open List hiding getElem?_eq_some_iff
open Sim Pipelining Mem Mem.Cache

variable {cfg : Config}

/-- `request` and `control` : the messages that may arrive; `apply` : which of the requests it has received the lower
memory may apply next; `call` : what holds before a stage call. -/
structure Rules (cfg : Config) where
  request : System cfg → AccessReq → Prop
  control : System cfg → ControlReq → Prop
  apply : System cfg → Nat → Prop
  call : Cache cfg → Call → Prop

inductive Reaches (R : Rules cfg) (m : Memory) : System cfg → List Call → Prop
  | init : Reaches R m (System.init cfg m) []
  | request {s : System cfg} (req : AccessReq) (h : Reaches R m s []) (hreq : R.request s req) :
      Reaches R m (s.request req) []
  | control {s : System cfg} (req : ControlReq) (h : Reaches R m s []) (hreq : R.control s req) :
      Reaches R m (s.control req) []
  | connect {s : System cfg} (top bottom control : List Bool) (h : Reaches R m s []) :
      Reaches R m (s.connect top bottom control) []
  | apply {s : System cfg} (k : Nat) (h : Reaches R m s []) (hk : R.apply s k) : Reaches R m (s.apply k) []
  | answer {s : System cfg} (k : Nat) (h : Reaches R m s []) : Reaches R m (s.answer k) []
  | tick {s : System cfg} (h : Reaches R m s []) : Reaches R m s (schedule s.cache)
  | call {s : System cfg} {k : Call} {ks : List Call} {p : Bool} {c : Cache cfg} (h : Reaches R m s (k :: ks))
      (hk : R.call s.cache k) (hexec : k.exec s.cache = .ok (p, c)) : Reaches R m (s.become c) ks

/-! ## Replays -/

/-- A tick is done only if `G` holds before each of its calls. -/
def System.replay (G : Cache cfg → Call → Prop) [∀ c k, Decidable (G c k)] (s : System cfg) : Input → System cfg
  | .tick => ((guarded G (fun k c => k.exec c) (schedule s.cache) s.cache).map s.become).getD s
  | i => (s.step i).toOption.getD s

/-- The rules allow the input in every state. -/
def Rules.Allows (R : Rules cfg) : Input → Prop
  | .request req => ∀ s, R.request s req
  | .control req => ∀ s, R.control s req
  | .apply k => ∀ s, R.apply s k
  | _ => True

section
variable {R : Rules cfg} {m : Memory} {s : System cfg} {G : Cache cfg → Call → Prop} [∀ c k, Decidable (G c k)]

/-- A run goes on with the first calls `ks` of a tick. -/
theorem Reaches.upto (hG : ∀ c k, G c k → R.call c k) (h : Reaches R m s []) {ks ls : List Call}
    (hks : schedule s.cache = ks ++ ls) {c : Cache cfg} (hc : guarded G (fun k c => k.exec c) ks s.cache = some c) :
    Reaches R m (s.become c) ls :=
  guarded_induct (I := fun c ks => Reaches R m (s.become c) ks) (fun h hk hexec => h.call (hG _ _ hk) hexec) hc (hks ▸ h.tick)

theorem Reaches.replay (hG : ∀ c k, G c k → R.call c k) {is : List Input} (his : ∀ i ∈ is, R.Allows i)
    (h : Reaches R m s []) :
    Reaches R m (is.foldl (System.replay G) s) [] := by
  refine foldlRecOn (motive := fun s => Reaches R m s []) is _ h fun s hs i hi => ?_
  have hallows := his i hi
  cases i with
  | request req => exact hs.request req (hallows s)
  | control req => exact hs.control req (hallows s)
  | connect top bottom control => exact hs.connect top bottom control
  | apply k => exact hs.apply k (hallows s)
  | answer k => exact hs.answer k
  | tick =>
    unfold System.replay
    cases hc : guarded G (fun k c => k.exec c) (schedule s.cache) s.cache with
    | none => exact hs
    | some c => exact hs.upto hG (append_nil _).symm hc

end

namespace Flow

inductive Reachable (G : Flow cfg → Label → Prop) (m : Memory) : Flow cfg → Prop
  | init : Reachable G m ((System.init cfg m).flow [])
  | step {a a' : Flow cfg} {l : Label} (h : Reachable G m a) (hG : G a l) (hs : Step a l a') : Reachable G m a'

section
variable {m : Memory}

theorem init_dir : ((System.init cfg m).flow []).dir = 0 := by simp [System.flow, System.init, build]

theorem init_work : ((System.init cfg m).flow []).work = 0 := by
  simp [work, System.flow, System.init, build]

theorem init_held : ((System.init cfg m).flow []).ledger.held = 0 ∧ ((System.init cfg m).flow []).ledger.opened = 0 := by
  have hfilled : ((System.init cfg m).flow []).ledger.filled = 0 := by
    unfold Ledger.filled
    rw [show ((System.init cfg m).flow []).ledger.work = 0 from init_work]
    rfl
  unfold Ledger.held Ledger.opened
  rw [hfilled]
  exact ⟨rfl, rfl⟩

theorem init_holders (i : Nat) : ((System.init cfg m).flow []).ledger.holders i = 0 := by
  have hdir : ((System.init cfg m).flow []).ledger.dir = 0 := init_dir
  have hwork : ((System.init cfg m).flow []).ledger.work = 0 := init_work
  unfold Ledger.holders
  rw [hdir, hwork, init_held.1]
  rfl

theorem init_custody : ((System.init cfg m).flow []).ledger.Custody := by
  have hdir : ((System.init cfg m).flow []).ledger.dir = 0 := init_dir
  have hwork : ((System.init cfg m).flow []).ledger.work = 0 := init_work
  constructor
  case held_le => simp [init_held.1]
  case held_lt => simp [init_held.1]
  case keys => exact fun _ he => nomatch he
  case fetching => simp [hwork]
  case fetchers => simp [hwork]
  case filling => simp [hwork]
  case holders_le => simp [init_holders]
  case holders_lt => simp [init_holders]
  case inFlight_nodup => exact nodup_nil
  case inFlight_lt => exact fun _ ht => nomatch ht
  case dir_live => simp [hdir]
  case work_live => simp [hwork]
  case covered => exact fun _ ht => nomatch ht
  case discarded => exact fun _ => hdir

theorem init_blocks (b : BlockRef) : ((System.init cfg m).flow []).ledger.blocks b = {} := by
  show (if b.gen = 0 then ({} : Block) else {}) = {}
  split <;> rfl

theorem init_ownership : ((System.init cfg m).flow []).ledger.Ownership := by
  have hwork : ((System.init cfg m).flow []).ledger.work = 0 := init_work
  have howners : ∀ b, ((System.init cfg m).flow []).ledger.owners b = 0 := by
    intro b
    unfold Ledger.owners
    rw [hwork, init_held.2]
    rfl
  have hreaders : ∀ b, ((System.init cfg m).flow []).ledger.readers b = 0 := by
    intro b
    unfold Ledger.readers
    rw [hwork]
    rfl
  constructor
  case locked => simp [init_blocks]
  case unlocked => exact fun _ b _ _ => howners b
  case discarded => simp [init_blocks]
  case reading => simp [init_blocks, hreaders]
  case excl => simp [init_blocks]
  case outside => exact fun b _ => ⟨init_blocks b, howners b, hreaders b⟩
  case placed => simp [init_blocks]
  case unique => simp [init_blocks]
  case entries => simp [init_held.2]
  case hits => simp [hwork]

theorem init_shaped : ((System.init cfg m).flow []).Shaped := by
  have hbank : ((System.init cfg m).flow []).bank = 0 := by simp [System.flow, System.init, build]
  constructor
  case top => intro _ h; cases h
  case dir => simp [init_dir]
  case bank => simp [hbank]
  case toBank => intro _ h; cases h
  case wb => intro _ h; cases h
  case fetches => intro _ h; cases h
  case work => simp [init_work]
  case pending => intro _ h; cases h
  case inflight => intro _ h; cases h
  case lines => intro _ _ h; cases h
  case masks =>
    intro b m' h
    have h : (((System.init cfg m).flow []).ledger.blocks b).dirtyMask = some m' := h
    rw [init_blocks] at h
    cases h
  case topOut => intro _ h; cases h
  case capacity => rfl
  case answers => exact fun _ h => absurd h (Multiset.notMem_zero _)
  case chan => intro _ h; cases h
  case toEvict => intro _ h; cases h

theorem init_inv : ((System.init cfg m).flow []).Inv where
  custody := init_custody
  ownership := init_ownership
  entries := ⟨by simp [init_held.1], by
    have hfilled : ∀ e, e ∉ ((System.init cfg m).flow []).ledger.filled := by
      intro e he
      have := Ledger.mem_held.mpr (.inr (.inl he))
      rw [init_held.1] at this
      cases this
    rintro e (he | he)
    · exact absurd he (hfilled e)
    · cases he⟩
  live := by
    intro _ e he
    rw [init_held.2] at he
    cases he
  shaped := init_shaped
  messages := ⟨fun _ => le_rfl, fun _ => le_rfl, fun _ => Nat.zero_le _, fun _ => Nat.zero_le _,
    fun _ _ => rfl, fun _ _ => rfl⟩
  modes := ⟨fun _ => .inl rfl, nofun, nofun, fun _ => rfl⟩

end

variable {G : Flow cfg → Label → Prop} {m : Memory} {a a' : Flow cfg}

/-- What holds in the beginning and is kept by every step holds of every flow reached. -/
theorem Reachable.induct {P : Flow cfg → Prop} (h : Reachable G m a) (hinit : P ((System.init cfg m).flow []))
    (hstep : ∀ {a a' l}, Reachable G m a → P a → G a l → Step a l a' → P a') : P a := by
  induction h with
  | init => exact hinit
  | step h hG hs ih => exact hstep h ih hG hs

theorem Reachable.inv (hallow : ∀ a l, G a l → a.Allowed l) (h : Reachable G m a) : a.Inv :=
  h.induct init_inv fun _ hinv hG hs => hinv.step (hallow _ _ hG) hs

theorem Reachable.silent (hsilent : ∀ a, G a .silent) (h : Reachable G m a) (hs : Silent a a') : Reachable G m a' := by
  induction hs with
  | refl => exact h
  | tail _ hstep ih => exact .step ih (hsilent _) hstep

end Flow

open WriteBack.Flow (Reachable)

/-- The rules of a run keep the labels of its flow within `G`. -/
structure Ensures (R : Rules cfg) (m : Memory) (G : Flow cfg → Flow.Label → Prop) : Prop where
  allowed : ∀ a l, G a l → a.Allowed l
  silent : ∀ a, G a .silent
  request : ∀ (s : System cfg) τ req, R.request s req → logOf τ = s.cache.log → Reachable G m (s.flow τ) →
    G (s.flow τ) (.request req)
  control : ∀ (s : System cfg) τ req, R.control s req → logOf τ = s.cache.log → Reachable G m (s.flow τ) →
    G (s.flow τ) (.command req)
  apply : ∀ (s : System cfg) τ k, R.apply s k → logOf τ = s.cache.log → Reachable G m (s.flow τ) → G (s.flow τ) (.serve k)
  call : ∀ (s : System cfg) τ k, R.call s.cache k → logOf τ = s.cache.log → Reachable G m (s.flow τ) →
    G (s.flow τ) (k.label s.cache)

variable {R : Rules cfg} {m : Memory} {G : Flow cfg → Flow.Label → Prop} {s : System cfg} {τ : List Moment}
  {ks : List Call}

/-- The system is wired, and its flow has been reached by steps within `G`, with what the log has recorded. -/
def Tracked (G : Flow cfg → Flow.Label → Prop) (m : Memory) (s : System cfg) (τ : List Moment) : Prop :=
  Wired s.cache ∧ logOf τ = s.cache.log ∧ Reachable G m (s.flow τ)

theorem Tracked.inv (h : Tracked G m s τ) (hG : Ensures R m G) : (s.flow τ).Inv := h.2.2.inv hG.allowed

theorem tracked_init : Tracked G m (System.init cfg m) [] := by
  refine ⟨⟨Directory.whole_fresh _ _ _, ?_, ?_, rfl⟩, rfl, .init⟩
  · simp [System.init, build]
  · simp [System.init, build]

theorem System.flow_request (s : System cfg) (τ : List Moment) (req : AccessReq) :
    (s.request req).flow τ = s.flow τ ∨ Flow.Step (s.flow τ) (.request req) ((s.request req).flow τ) := by
  unfold System.request Port.recv
  by_cases hroom : s.cache.topPort.buf.canPush = true
  · rw [if_pos hroom]
    exact .inr (.request req)
  · rw [if_neg hroom]
    exact .inl rfl

theorem System.flow_control (s : System cfg) (τ : List Moment) (req : ControlReq) :
    (s.control req).flow τ = s.flow τ ∨ Flow.Step (s.flow τ) (.command req) ((s.control req).flow τ) := by
  unfold System.control Port.recv
  by_cases hroom : s.cache.controlPort.buf.canPush = true
  · rw [if_pos hroom]
    exact .inr (.command req)
  · rw [if_neg hroom]
    exact .inl rfl

theorem System.flow_apply (s : System cfg) (τ : List Moment) (k : Nat) :
    (s.apply k).flow τ = s.flow τ ∨ Flow.Step (s.flow τ) (.serve k) ((s.apply k).flow τ) := by
  unfold System.apply
  cases hreq : s.cache.bottomPort.outgoing[k]? with
  | none => exact .inl rfl
  | some req =>
    obtain ⟨hlt, -⟩ := List.getElem?_eq_some_iff.mp hreq
    right
    convert Flow.Step.serve (a := s.flow τ) k req ?_ using 1
    · simp only [System.flow, coe_concat, Multiset.cons_add]
      rw [eraseIdx_append_of_lt_length hlt]
    · show (s.cache.bottomPort.outgoing ++ s.cache.bottomSender.buffer.elements)[k]? = some req
      rw [getElem?_append_left hlt, hreq]

theorem System.flow_answer (s : System cfg) (τ : List Moment) (k : Nat) : (s.answer k).flow τ = s.flow τ := by
  unfold System.answer Port.recv
  cases hrsp : s.answers[k]? with
  | none => rfl
  | some rsp =>
    by_cases hroom : s.cache.bottomPort.buf.canPush = true
    · simp only [if_pos hroom]
      have hanswers : (↑s.answers : Multiset (AccessRsp Bytes)) = rsp ::ₘ ↑(s.answers.eraseIdx k) := by
        obtain ⟨hlt, hget⟩ := List.getElem?_eq_some_iff.mp hrsp
        rw [Multiset.cons_coe, Multiset.coe_eq_coe, ← hget]
        exact (List.getElem_cons_eraseIdx_perm hlt).symm
      simp only [System.flow, coe_concat, hanswers, Multiset.cons_add, Multiset.add_cons]
    · simp only [if_neg hroom]

/-- What happens outside the cache leaves its log and its wiring alone. -/
structure System.Outside (s s' : System cfg) : Prop where
  directory : s'.cache.directory = s.cache.directory
  bank : s'.cache.bank = s.cache.bank
  outgoing : s'.cache.topPort.outgoing = s.cache.topPort.outgoing
  log : s'.cache.log = s.cache.log

theorem System.outside_request (s : System cfg) (req : AccessReq) : s.Outside (s.request req) := by
  unfold System.request Port.recv
  by_cases hroom : s.cache.topPort.buf.canPush = true
  · rw [if_pos hroom]
    exact ⟨rfl, rfl, rfl, rfl⟩
  · rw [if_neg hroom]
    exact ⟨rfl, rfl, rfl, rfl⟩

theorem System.outside_control (s : System cfg) (req : ControlReq) : s.Outside (s.control req) := by
  unfold System.control
  split <;> exact ⟨rfl, rfl, rfl, rfl⟩

theorem System.outside_apply (s : System cfg) (k : Nat) : s.Outside (s.apply k) := by
  unfold System.apply
  split <;> exact ⟨rfl, rfl, rfl, rfl⟩

theorem System.outside_answer (s : System cfg) (k : Nat) : s.Outside (s.answer k) := by
  unfold System.answer
  split
  · split <;> exact ⟨rfl, rfl, rfl, rfl⟩
  · exact ⟨rfl, rfl, rfl, rfl⟩

theorem Tracked.outside {s' : System cfg} (h : Tracked G m s τ) (hout : s.Outside s') (hreach : Reachable G m (s'.flow τ)) :
    Tracked G m s' τ :=
  ⟨h.1.of_eq hout.directory hout.bank hout.outgoing (congrArg sentOf hout.log), h.2.1.trans hout.log.symm, hreach⟩

theorem Tracked.request (h : Tracked G m s τ) (hG : Ensures R m G) {req : AccessReq} (hreq : R.request s req) :
    Tracked G m (s.request req) τ := by
  refine h.outside (s.outside_request req) ?_
  rcases s.flow_request τ req with heq | hs
  · exact heq ▸ h.2.2
  · exact .step h.2.2 (hG.request s τ req hreq h.2.1 h.2.2) hs

theorem Tracked.control (h : Tracked G m s τ) (hG : Ensures R m G) {req : ControlReq} (hreq : R.control s req) :
    Tracked G m (s.control req) τ := by
  refine h.outside (s.outside_control req) ?_
  rcases s.flow_control τ req with heq | hs
  · exact heq ▸ h.2.2
  · exact .step h.2.2 (hG.control s τ req hreq h.2.1 h.2.2) hs

theorem Tracked.connect (h : Tracked G m s τ) (top bottom control : List Bool) :
    Tracked G m (s.connect top bottom control) τ :=
  ⟨h.1.of_eq rfl rfl rfl rfl, h.2.1, h.2.2⟩

theorem Tracked.apply (h : Tracked G m s τ) (hG : Ensures R m G) {k : Nat} (hk : R.apply s k) :
    Tracked G m (s.apply k) τ := by
  refine h.outside (s.outside_apply k) ?_
  rcases s.flow_apply τ k with heq | hs
  · exact heq ▸ h.2.2
  · exact .step h.2.2 (hG.apply s τ k hk h.2.1 h.2.2) hs

theorem Tracked.answer (h : Tracked G m s τ) (k : Nat) : Tracked G m (s.answer k) τ :=
  h.outside (s.outside_answer k) (s.flow_answer τ k ▸ h.2.2)

/-! ## A cache without ports

With `numReqPerCycle = 0` the ports have no room, so nothing ever happens. -/

/-- Nothing has been asked of the cache, and its ticks have only these calls. -/
structure Unused (c : Cache cfg) (ks : List Call) : Prop where
  control : c.controlPort.buf.elements = []
  flush : c.processingFlush = none
  calls : ∀ k ∈ ks, k = .controlPortSender ∨ k = .bankPipeline ∨ k = .flusher

theorem Unused.extractFromPort {c : Cache cfg} (h : Unused c ks) : Flusher.tick c = .ok (false, c) := by
  unfold Flusher.tick Flusher.extractFromPort Port.peek Buffer.peek
  rw [h.flush, h.control]
  rfl

theorem controlPort_controlPortSender (c : Cache cfg) :
    (controlPortSender c).2.controlPort.buf = c.controlPort.buf ∧
      (controlPortSender c).2.processingFlush = c.processingFlush := by
  unfold controlPortSender
  split
  · exact ⟨rfl, rfl⟩
  next msg hpeek =>
  rcases c.controlPort.send_cases msg with ⟨hsent, -, hbuf⟩ | ⟨hsent, -, hbuf⟩
  · simp only [hsent, if_true]
    exact ⟨hbuf, trivial⟩
  · simp only [hsent, Bool.false_eq_true, if_false]
    exact ⟨hbuf, trivial⟩

variable {k : Call}

theorem Unused.exec {c c' : Cache cfg} {p : Bool} (h : Unused c (k :: ks)) (hexec : k.exec c = .ok (p, c')) :
    Unused c' ks := by
  have hcalls := fun k hk => h.calls k (mem_cons_of_mem _ hk)
  rcases h.calls k mem_cons_self with rfl | rfl | rfl
  · obtain ⟨hbuf, hflush⟩ := controlPort_controlPortSender c
    have hc : (controlPortSender c).2 = c' := congrArg Prod.snd (Except.ok.inj hexec)
    rw [hc] at hbuf hflush
    exact ⟨by rw [hbuf]; exact h.control, by rw [hflush]; exact h.flush, hcalls⟩
  · cases hexec
    exact ⟨h.control, h.flush, hcalls⟩
  · have hsame : Flusher.tick c = .ok (p, c') := hexec
    rw [h.extractFromPort] at hsame
    cases hsame
    exact ⟨h.control, h.flush, hcalls⟩

theorem Reaches.unused (h : Reaches R m s ks) (hn : cfg.numReqPerCycle = 0) : Unused s.cache ks := by
  induction h with
  | init => exact ⟨rfl, rfl, nofun⟩
  | request _ _ _ ih =>
    unfold System.request Port.recv
    split
    · next topPort _ => exact ⟨ih.control, ih.flush, ih.calls⟩
    · exact ih
  | control _ _ _ ih =>
    unfold System.control Port.recv
    rw [if_neg (by simp [Buffer.canPush, hn])]
    exact ih
  | connect _ _ control _ ih => exact ⟨ih.control, ih.flush, ih.calls⟩
  | apply _ _ _ ih =>
    unfold System.apply
    split
    · exact ⟨ih.control, ih.flush, ih.calls⟩
    · exact ih
  | answer _ _ ih =>
    unfold System.answer
    split
    · split
      · exact ⟨ih.control, ih.flush, ih.calls⟩
      · exact ih
    · exact ih
  | @tick s h ih =>
    refine ⟨ih.control, ih.flush, fun k hk => ?_⟩
    have hcalls : pipelineCalls cfg.numReqPerCycle = [.bankPipeline] := by rw [hn]; rfl
    unfold schedule at hk
    rw [hcalls] at hk
    split at hk
    · simp only [append_nil, cons_append, nil_append, mem_cons, not_mem_nil, or_false] at hk
      rcases hk with rfl | rfl
      · exact .inl rfl
      · exact .inr (.inr rfl)
    · simpa using hk
  | call _ _ hexec ih => exact ih.exec hexec

theorem Unused.refines (h : Unused s.cache (k :: ks)) (hw : Wired s.cache) (hlog : logOf τ = s.cache.log) :
    Refines s τ (k.label s.cache) (k.exec s.cache) := by
  rcases h.calls k mem_cons_self with rfl | rfl | rfl
  · exact controlPortSender_refines hw hlog
  · exact BankStage.tickPipeline_refines hw hlog
  · show Refines s τ _ (Flusher.tick s.cache)
    rw [h.extractFromPort]
    exact .refl hw hlog false

/-! ## Runs are sequences of steps -/

/-- A call succeeds, and what it does to the flow is a step with its label or silent steps. -/
theorem Tracked.moves (h : Tracked G m s τ) (hG : Ensures R m G) (hreach : Reaches R m s (k :: ks)) :
    ∃ p c τ', k.exec s.cache = .ok (p, c) ∧ (Wired c ∧ logOf τ' = c.log) ∧
      Flow.Moves (k.label s.cache) (s.flow τ) ((s.become c).flow τ') := by
  have hinv := h.inv hG
  obtain ⟨hw, hlog, -⟩ := h
  have href : Refines s τ (k.label s.cache) (k.exec s.cache) := by
    rcases Nat.eq_zero_or_pos cfg.numReqPerCycle with hn | hn
    · exact (hreach.unused hn).refines hw hlog
    · exact k.refines hw hlog hinv hn
  obtain ⟨p, c, τ', hok, hw', hlog', hm⟩ := href
  exact ⟨p, c, τ', hok, ⟨hw', hlog'⟩, hm⟩

theorem Tracked.become {c : Cache cfg} {τ' : List Moment} (h : Tracked G m s τ) (hG : Ensures R m G) (hk : R.call s.cache k)
    (hwired : Wired c) (hlog : logOf τ' = c.log) (hm : Flow.Moves (k.label s.cache) (s.flow τ) ((s.become c).flow τ')) :
    Tracked G m (s.become c) τ' := by
  refine ⟨hwired, hlog, ?_⟩
  cases hm with
  | silent hs => exact h.2.2.silent hG.silent hs
  | step hs => exact .step h.2.2 (hG.call s τ k hk h.2.1 h.2.2) hs

theorem Tracked.call (h : Tracked G m s τ) (hG : Ensures R m G) (hreach : Reaches R m s (k :: ks))
    (hk : R.call s.cache k) : ∃ p c τ', k.exec s.cache = .ok (p, c) ∧ Tracked G m (s.become c) τ' := by
  obtain ⟨p, c, τ', hok, ⟨hwired, hlog⟩, hm⟩ := h.moves hG hreach
  exact ⟨p, c, τ', hok, h.become hG hk hwired hlog hm⟩

/-- **Every state of a run is tracked by steps of the flow.** -/
theorem Reaches.flow (h : Reaches R m s ks) (hG : Ensures R m G) : ∃ τ, Tracked G m s τ := by
  induction h with
  | init => exact ⟨[], tracked_init⟩
  | request _ _ hreq ih =>
    obtain ⟨τ, hτ⟩ := ih
    exact ⟨τ, hτ.request hG hreq⟩
  | control _ _ hreq ih =>
    obtain ⟨τ, hτ⟩ := ih
    exact ⟨τ, hτ.control hG hreq⟩
  | connect top bottom control _ ih =>
    obtain ⟨τ, hτ⟩ := ih
    exact ⟨τ, hτ.connect top bottom control⟩
  | apply _ _ hk ih =>
    obtain ⟨τ, hτ⟩ := ih
    exact ⟨τ, hτ.apply hG hk⟩
  | answer k _ ih =>
    obtain ⟨τ, hτ⟩ := ih
    exact ⟨τ, hτ.answer k⟩
  | tick _ ih => exact ih
  | call h hk hexec ih =>
    obtain ⟨_, hτ⟩ := ih
    obtain ⟨_, _, τ', hok, hτ'⟩ := hτ.call hG h hk
    rw [hexec] at hok
    cases hok
    exact ⟨τ', hτ'⟩

/-- **No stage call of a run panics.** -/
theorem Reaches.no_panic (h : Reaches R m s (k :: ks)) (hG : Ensures R m G) (hk : R.call s.cache k) :
    ∃ p c, k.exec s.cache = .ok (p, c) := by
  obtain ⟨_, hτ⟩ := h.flow hG
  obtain ⟨p, c, -, hok, -⟩ := hτ.call hG h hk
  exact ⟨p, c, hok⟩

/-- Under rules that say nothing about calls, the calls of a tick succeed one after the other. -/
theorem Reaches.calls (h : Reaches R m s ks) (hG : Ensures R m G) (hcall : ∀ c k, R.call c k) :
    ∃ c, Akita.calls (fun k c => Call.exec c k) ks s.cache = .ok c ∧ Reaches R m (s.become c) [] := by
  induction ks generalizing s with
  | nil => exact ⟨s.cache, rfl, h⟩
  | cons _ _ ih =>
    obtain ⟨_, _, hok⟩ := h.no_panic hG (hcall _ _)
    obtain ⟨c', hcalls, hreach⟩ := ih (.call h (hcall _ _) hok)
    refine ⟨c', ?_, hreach⟩
    rw [Akita.calls, hok]
    exact hcalls

/-- **No tick of a run panics**, under rules that say nothing about calls. -/
theorem Reaches.tick_ok (h : Reaches R m s []) (hG : Ensures R m G) (hcall : ∀ c k, R.call c k) :
    ∃ p c, WriteBack.tick s.cache = .ok (p, c) ∧ Reaches R m (s.become c) [] := by
  obtain ⟨_, hcalls, hreach⟩ := h.tick.calls hG hcall
  rw [← tick_eq_calls] at hcalls
  cases htick : WriteBack.tick s.cache with
  | error =>
    rw [htick] at hcalls
    cases hcalls
  | ok r =>
    rw [htick] at hcalls
    cases hcalls
    exact ⟨r.1, r.2, rfl, hreach⟩

end Akita.WriteBack
