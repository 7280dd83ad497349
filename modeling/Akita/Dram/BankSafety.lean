import Akita.Dram.Steps

/-!
# Commands that a bank can start

When a command is selected for a bank, the bank has no command in progress, unless the command overtakes an activation
(`Bank.Overtakes`): the tables of the builder keep everything else apart (`Builder.spaced_build`), and an activation from what
follows it where the parameters do (`inTurn_of_reaches`).
-/

namespace Akita.Dram
open Mem Sim Option List
open Raises (bind error of_ok ok)

/-- The commands that the builder's command creator makes: they close the row. -/
def CommandKind.closes (k : CommandKind) : Prop := k = .readPrecharge ∨ k = .writePrecharge

/-- The table puts `k` off until a command `j` of the same bank has had its cycles. -/
def Config.Covers (cfg : Config) (j k : CommandKind) : Prop := ∃ m, (k, m) ∈ cfg.timing.sameBank j ∧ cfg.cmdCycles j ≤ max 1 m

/-- What the tables must put off: reads after an activation, and activations after the commands that close the row. -/
structure Spaced (cfg : Config) : Prop where
  create : ∀ isRead, (cfg.createKind isRead).closes
  read : cfg.Covers .activate .readPrecharge
  closed : ∀ j, j = .precharge ∨ j.closes → cfg.Covers j .activate

namespace Bank

variable {cfg : Config} {b b' : Bank} {cmd : Command}

/-- The bank still activates when the cycle is over, and by then a precharge for another row or a write to the row is due. -/
def Overtakes (b : Bank) (cmd : Command) : Prop :=
  (∃ c ∈ b.currentCmd, c.kind = .activate ∧ 1 < c.cycleLeft) ∧
    if b.openRow = cmd.row then cmd.kind.isWrite = true ∧ b.cyclesToCmdAvailable cmd.kind ≤ 1
      else b.cyclesToCmdAvailable .precharge ≤ 1

instance : Decidable (b.Overtakes cmd) := inferInstanceAs (Decidable (_ ∧ ite _ _ _))

/-- The command in progress is what has opened or closed the row, and ends before anything it covers is available, at the
latest with the next cycle. -/
structure Safe (cfg : Config) (b : Bank) : Prop where
  state : b.state = .opened ∨ b.state = .closed
  nonneg : ∀ k, 0 ≤ b.cyclesToCmdAvailable k
  kind : ∀ c, b.currentCmd = some c →
    (b.state = .opened ∧ c.kind = .activate) ∨ (b.state = .closed ∧ (c.kind = .precharge ∨ c.kind.closes))
  covers : ∀ c, b.currentCmd = some c → ∀ k, cfg.Covers c.kind k → c.cycleLeft ≤ max 1 (b.cyclesToCmdAvailable k)

/-- A command stays in progress over a tick if it has more than a cycle left. -/
theorem currentCmd_tick {c : Command} (hc : b.tick.2.2.currentCmd = some c) :
    ∃ cmd, b.currentCmd = some cmd ∧ 1 < cmd.cycleLeft ∧ c = { cmd with cycleLeft := cmd.cycleLeft - 1 } := by
  rcases b.tick_cases with ⟨-, -, hnone⟩ | ⟨-, -, -, -, hnone⟩ | ⟨cmd, hcmd, hlt, -, hsome⟩
  · rw [hnone] at hc
    cases hc
  · rw [hnone] at hc
    cases hc
  · rw [hsome, some.injEq] at hc
    exact ⟨cmd, hcmd, hlt, hc.symm⟩

theorem Safe.tick (h : b.Safe cfg) : b.tick.2.2.Safe cfg := by
  refine ⟨by simpa using h.state, fun k => ?_, fun c hc => ?_, fun c hc k hk => ?_⟩
  · have := h.nonneg k
    rw [cycles_tick]
    split <;> omega
  · obtain ⟨cmd, hcmd, -, rfl⟩ := currentCmd_tick hc
    simpa using h.kind cmd hcmd
  · obtain ⟨cmd, hcmd, -, rfl⟩ := currentCmd_tick hc
    have := h.covers cmd hcmd k hk
    rw [cycles_tick]
    simp only
    split <;> omega

/-- After a tick, what a command needs is available while another command is in progress exactly if it overtakes an
activation. -/
theorem Safe.overtakes_iff (hspaced : Spaced cfg) (h : b.Safe cfg) (hcmd : cmd.kind.closes) : b.Overtakes cmd ↔
    ∃ c k, b.tick.2.2.currentCmd = some c ∧ b.tick.2.2.getRequiredCommandKind cmd = some k ∧
      b.tick.2.2.cyclesToCmdAvailable k = 0 := by
  have hmoves : cmd.kind.isReadOrWrite = true := by
    rcases hcmd with hk | hk <;> rw [hk] <;> rfl
  have hdue : ∀ k, b.tick.2.2.cyclesToCmdAvailable k = 0 ↔ b.cyclesToCmdAvailable k ≤ 1 := by
    intro k
    have := h.nonneg k
    rw [cycles_tick]
    split <;> omega
  constructor
  · rintro ⟨⟨c, hc, hkind, hlt⟩, hwhen⟩
    have hopened : b.state = .opened := by
      rcases h.kind c hc with ⟨hs, -⟩ | ⟨-, hk | hk | hk⟩
      · exact hs
      all_goals
        rw [hkind] at hk
        cases hk
    have hcurrent : b.tick.2.2.currentCmd = some { c with cycleLeft := c.cycleLeft - 1 } := by
      rcases b.tick_cases with ⟨hnone, -⟩ | ⟨d, hd, hle, -⟩ | ⟨d, hd, -, -, hsome⟩
      · rw [hnone] at hc
        cases hc
      · rw [hd, mem_some_iff] at hc
        rw [hc] at hle
        omega
      · rw [hd, mem_some_iff] at hc
        rw [hsome, hc]
    refine ⟨_, _, hcurrent, ?_, (hdue (if b.openRow = cmd.row then cmd.kind else .precharge)).2 ?_⟩
    · rw [getRequiredCommandKind, if_pos hmoves, state_tick, hopened, openRow_tick]
    · split at hwhen
      · next hrow => simpa [hrow] using hwhen.2
      · next hrow => simpa [hrow] using hwhen
  · rintro ⟨d, k, hd, hk, hzero⟩
    obtain ⟨c, hc, hlt, rfl⟩ := currentCmd_tick hd
    have hle := (hdue k).1 hzero
    -- what is covered is not available yet
    have hfree : ¬ cfg.Covers c.kind k := fun hcov => by
      have := h.covers c hc k hcov
      omega
    obtain ⟨-, hcases⟩ := getRequiredCommandKind_eq hk
    rw [state_tick, openRow_tick] at hcases
    rcases h.kind c hc with ⟨hs, hkind⟩ | ⟨hs, hkind⟩
    · refine ⟨⟨c, hc, hkind, hlt⟩, ?_⟩
      rcases hcases with ⟨hs', -⟩ | ⟨-, hrow, rfl⟩ | ⟨-, hrow, rfl⟩
      · rw [hs] at hs'
        cases hs'
      · rw [if_pos hrow]
        refine ⟨?_, hle⟩
        rcases hcmd with hread | hwrite
        · rw [hkind, hread] at hfree
          exact absurd hspaced.read hfree
        · rw [hwrite]
          rfl
      · rwa [if_neg hrow]
    · rcases hcases with ⟨-, rfl⟩ | ⟨hs', -⟩ | ⟨hs', -⟩
      · exact absurd (hspaced.closed _ hkind) hfree
      all_goals
        rw [hs] at hs'
        cases hs'

/-- Nothing overtakes an activation that covers precharges and writes. -/
theorem Safe.not_overtakes (h : b.Safe cfg) (hcmd : cmd.kind.closes) (hprecharge : cfg.Covers .activate .precharge)
    (hwrite : cfg.Covers .activate .writePrecharge) : ¬ b.Overtakes cmd := by
  rintro ⟨⟨c, hc, hkind, hlt⟩, hwhen⟩
  have hcov := h.covers c hc
  rw [hkind] at hcov
  split at hwhen
  · rcases hcmd with hk | hk
    · rw [hk] at hwhen
      cases hwhen.1
    · have := hcov _ hwrite
      rw [hk] at hwhen
      omega
  · have := hcov _ hprecharge
    omega

/-- Commands in other banks only put off what this bank may need. -/
theorem Safe.updateTiming (h : b.Safe cfg) (entries : List (CommandKind × Int)) :
    (entries.foldl Bank.updateTiming b).Safe cfg := by
  obtain ⟨hstate, -, hcmd, hmono, -⟩ := foldl_updateTiming entries b
  refine ⟨by rw [hstate]; exact h.state, fun k => (h.nonneg k).trans (hmono k), fun c hc => ?_, fun c hc k hk => ?_⟩
  · rw [hcmd] at hc
    rw [hstate]
    exact h.kind c hc
  · rw [hcmd] at hc
    have := h.covers c hc k hk
    have := hmono k
    omega

/-- A bank that starts a command is safe once its timing is updated. -/
theorem Safe.start (h : b.Safe cfg) (hb : startCommand cfg.cmdCycles b cmd = .ok b')
    (hkind : cmd.kind = .activate ∨ cmd.kind = .precharge ∨ cmd.kind.closes) :
    ((cfg.timing.sameBank cmd.kind).foldl Bank.updateTiming b').Safe cfg := by
  obtain ⟨-, hcurrent, hcycles, hfollows⟩ := startCommand_eq_ok hb
  obtain ⟨hstate, -, hcmd, hmono, hentries⟩ := foldl_updateTiming (cfg.timing.sameBank cmd.kind) b'
  have hrow : b'.state = .opened ∧ cmd.kind = .activate ∨ b'.state = .closed ∧ (cmd.kind = .precharge ∨ cmd.kind.closes) := by
    rcases hfollows with ⟨-, hk, hs, -⟩ | ⟨-, hk, hs⟩ | ⟨-, hk, -, -⟩
    · exact .inl ⟨hs, hk⟩
    · exact .inr ⟨hs, hk⟩
    · rcases hkind with hk' | hk' | hk' | hk' <;> simp [hk'] at hk
  refine ⟨?_, fun k => ?_, fun c hc => ?_, fun c hc k hk => ?_⟩
  · rw [hstate]
    exact hrow.imp And.left And.left
  · have := h.nonneg k
    have := hmono k
    rw [hcycles] at this
    omega
  · rw [hcmd, hcurrent, some.injEq] at hc
    subst hc
    rwa [hstate]
  · rw [hcmd, hcurrent, some.injEq] at hc
    subst hc
    obtain ⟨m, hmem, (hle : cfg.cmdCycles cmd.kind ≤ max 1 m)⟩ := hk
    have := hentries (k, m) hmem
    simp only at this ⊢
    omega

end Bank

namespace MemController

variable {cfg : Config} {s t : MemController cfg}

/-- The banks are safe, and the commands in the queues close the row. -/
structure Guarded (s : MemController cfg) : Prop where
  banks : ∀ id, (s.banks id).Safe cfg
  queues : ∀ queue ∈ s.queues, ∀ cmd ∈ queue, cmd.kind.closes

variable {p : Bool} {answers : List Bool}

theorem Guarded.respond (h : s.Guarded) (hr : s.respond answers = .ok (p, t)) : t.Guarded := by
  rcases respond_eq_ok hr with ⟨storage, rfl⟩ | ⟨_, _, _, _, storage, -, -, -, rfl⟩
  · exact ⟨h.banks, h.queues⟩
  · exact ⟨h.banks, h.queues⟩

theorem Guarded.channelTick (h : s.Guarded) : s.channelTick.2.Guarded := by
  refine ⟨fun id => ?_, h.queues⟩
  simp only [MemController.channelTick]
  split
  · exact (h.banks id).tick
  · exact h.banks id

theorem updatesTiming_of_kind {k : CommandKind} (hk : k = .activate ∨ k = .precharge ∨ k.isReadOrWrite = true) :
    updatesTiming k = true := by
  rcases hk with rfl | rfl | hk
  · rfl
  · rfl
  · cases k <;> first | rfl | cases hk

theorem timingTable_self (cmd : Command) : cfg.timingTable cmd cmd.bankID = cfg.timing.sameBank := by
  simp [Config.timingTable, Location.bankID]

theorem required_kind {b : Bank} {cmd : Command} {k : CommandKind} (hcmd : cmd.kind.closes)
    (h : b.getRequiredCommandKind cmd = some k) : k = .activate ∨ k = .precharge ∨ k.closes := by
  obtain ⟨-, ⟨-, rfl⟩ | ⟨-, -, rfl⟩ | ⟨-, -, rfl⟩⟩ := Bank.getRequiredCommandKind_eq h
  · exact .inl rfl
  · exact .inr (.inr hcmd)
  · exact .inr (.inl rfl)

theorem Guarded.issue (h : s.Guarded) (hi : s.issue = .ok (p, t)) : t.Guarded := by
  rcases issue_eq_ok hi with ⟨next, rfl⟩ | ⟨_, _, cmd, _, next, k, _, hq, hid, hk, hb, rfl⟩
  · exact ⟨h.banks, h.queues⟩
  have hqueue := h.queues _ (mem_of_getElem? hq)
  have hkind := required_kind (hqueue cmd (by simp)) hk
  have hupdates : updatesTiming k = true := by
    refine updatesTiming_of_kind (hkind.imp_right fun hk => hk.imp_right fun hk => ?_)
    rcases hk with rfl | rfl <;> rfl
  unfold updateTiming
  rw [if_pos hupdates]
  refine ⟨fun id => ?_, fun queue hmem => ?_⟩
  · by_cases hsame : id = cmd.bankID
    · subst hsame
      simp only [if_pos hid, Function.update_self]
      have hstart := (h.banks cmd.bankID).start hb hkind
      rwa [← timingTable_self { cmd with kind := k }] at hstart
    · simp only [Function.update_of_ne hsame]
      split
      · exact (h.banks id).updateTiming _
      · exact h.banks id
  · rcases mem_or_eq_of_mem_set hmem with hmem | rfl
    · exact h.queues queue hmem
    · intro c hc
      refine hqueue c ?_
      split at hc
      · simp only [mem_append, mem_cons] at hc ⊢
        exact hc.imp_right .inr
      · exact hc

theorem Guarded.subTransQueueTick (hspaced : Spaced cfg) (h : s.Guarded) (hs : s.subTransQueueTick = .ok (p, t)) :
    t.Guarded := by
  rcases subTransQueueTick_eq_ok hs with rfl | ⟨_, st, _, queue, -, hq, -, rfl⟩
  · exact h
  refine ⟨h.banks, fun q hq' => ?_⟩
  rw [modify_eq_set_getElem?, hq] at hq'
  rcases mem_or_eq_of_mem_set hq' with hq' | rfl
  · exact h.queues q hq'
  · exact forall_mem_append.mpr ⟨h.queues queue (mem_of_getElem? hq), forall_mem_singleton.mpr (hspaced.create st.isRead)⟩

theorem Guarded.parseTop (h : s.Guarded) (hp : s.parseTop = .ok (p, t)) : t.Guarded := by
  rcases parseTop_eq_ok hp with rfl | ⟨_, _, _, -, -, -, -, rfl⟩
  · exact h
  · exact ⟨h.banks, h.queues⟩

/-- No command in the queues overtakes an activation. -/
def InTurn (s : MemController cfg) : Prop :=
  ∀ queue ∈ s.queues, ∀ cmd ∈ queue, cmd.bankID ∈ cfg.bankIDs → ¬ (s.banks cmd.bankID).Overtakes cmd

instance : Decidable s.InTurn := inferInstanceAs (Decidable (∀ _ ∈ _, ∀ _ ∈ _, _ ∈ _ → ¬ _))

/-- What holds when commands are selected: a command that is ready finds its bank with no command in progress and starts there
without a panic, the row follows it, and it moves data only on its row. -/
structure Startable (s : MemController cfg) : Prop where
  starts : ∀ queue ∈ s.queues, ∀ cmd ∈ queue, cmd.bankID ∈ cfg.bankIDs →
    ∃ found, (s.banks cmd.bankID).getReadyCommand cmd = .ok found ∧
    ∀ ready, found = some ready → (s.banks cmd.bankID).currentCmd = none ∧
      ∃ b, Bank.startCommand cfg.cmdCycles (s.banks cmd.bankID) ready = .ok b ∧ (s.banks cmd.bankID).Follows b ready ∧
        (ready.kind.isReadOrWrite = true → (s.banks cmd.bankID).state = .opened ∧ (s.banks cmd.bankID).openRow = ready.row)
  /-- `issue` panics only when a location is not in the channel. -/
  issue : Raises (· = "index out of range") s.issue

/-- While a command is in progress, nothing its bank needs for `cmd` is available. -/
def Defers (s : MemController cfg) (cmd : Command) : Prop :=
  ∀ c k, (s.banks cmd.bankID).currentCmd = some c → (s.banks cmd.bankID).getRequiredCommandKind cmd = some k →
    (s.banks cmd.bankID).cyclesToCmdAvailable k ≠ 0

theorem Guarded.starts (h : s.Guarded) {queue : List Command} (hqueue : queue ∈ s.queues) {cmd : Command} (hcmd : cmd ∈ queue)
    (hdefers : s.Defers cmd) : ∃ found, (s.banks cmd.bankID).getReadyCommand cmd = .ok found ∧
      ∀ ready, found = some ready → (s.banks cmd.bankID).currentCmd = none ∧
        ∃ b, Bank.startCommand cfg.cmdCycles (s.banks cmd.bankID) ready = .ok b ∧ (s.banks cmd.bankID).Follows b ready ∧
          (ready.kind.isReadOrWrite = true → (s.banks cmd.bankID).state = .opened ∧
            (s.banks cmd.bankID).openRow = ready.row) := by
  have hrw : cmd.kind.isReadOrWrite = true := by
    rcases h.queues queue hqueue cmd hcmd with hk | hk <;> rw [hk] <;> rfl
  obtain ⟨k, hk⟩ : ∃ k, (s.banks cmd.bankID).getRequiredCommandKind cmd = some k := by
    unfold Bank.getRequiredCommandKind
    rw [if_pos hrw]
    rcases (h.banks cmd.bankID).state with hs | hs
    · exact ⟨_, by rw [hs]⟩
    · exact ⟨_, by rw [hs]⟩
  refine ⟨_, by rw [Bank.getReadyCommand, hk], fun ready hfound => ?_⟩
  split at hfound
  case isFalse => cases hfound
  case isTrue hzero =>
    cases hfound
    have hnone : (s.banks cmd.bankID).currentCmd = none := by
      cases hc : (s.banks cmd.bankID).currentCmd with
      | none => rfl
      | some c => exact absurd hzero (hdefers c k hc hk)
    obtain ⟨-, hcases⟩ := Bank.getRequiredCommandKind_eq hk
    have hstart : ((s.banks cmd.bankID).state = .closed ∧ k = .activate) ∨
        ((s.banks cmd.bankID).state = .opened ∧ (k.isReadOrWrite = true ∨ k = .precharge)) := by
      rcases hcases with hcase | ⟨hs, -, rfl⟩ | ⟨hs, -, rfl⟩
      · exact .inl hcase
      · exact .inr ⟨hs, .inl hrw⟩
      · exact .inr ⟨hs, .inr rfl⟩
    obtain ⟨b, hb⟩ := @Bank.startCommand_succeeds (s.banks cmd.bankID) { cmd with kind := k } cfg.cmdCycles hnone hstart
    refine ⟨hnone, b, hb, (Bank.startCommand_eq_ok hb).2.2.2, fun hmoves => ?_⟩
    rcases hcases with ⟨-, rfl⟩ | ⟨hs, hrow, -⟩ | ⟨-, -, rfl⟩
    · cases hmoves
    · exact ⟨hs, hrow⟩
    · cases hmoves

/-! ## Panics of the issue stage -/

theorem raises_getBank (s : MemController cfg) (l : Location) : Raises (· = "index out of range") (s.getBank l) := by
  unfold getBank
  split
  · exact ok _
  · exact error rfl

theorem raises_getFirstReady {queue : List Command}
    (h : ∀ cmd ∈ queue, cmd.bankID ∈ cfg.bankIDs → ∃ found, (s.banks cmd.bankID).getReadyCommand cmd = .ok found) :
    Raises (· = "index out of range") (s.getFirstReadyInQueue queue) := by
  induction queue with
  | nil => exact ok _
  | cons cmd _ ih =>
    refine bind (raises_getBank s _) fun bank hbank => ?_
    obtain ⟨hid, rfl⟩ := getBank_eq_ok hbank
    obtain ⟨_, hfound⟩ := h cmd (mem_cons_self ..) hid
    refine bind (of_ok hfound) fun r _ => ?_
    cases r with
    | some => exact ok _
    | none => exact bind (ih fun c hc => h c (mem_cons_of_mem _ hc)) fun _ _ => ok _

theorem raises_getCommandLoop {n : Nat} (h : ∀ queue ∈ s.queues, ∀ cmd ∈ queue, cmd.bankID ∈ cfg.bankIDs →
      ∃ found, (s.banks cmd.bankID).getReadyCommand cmd = .ok found) :
    Raises (· = "index out of range") (getCommandLoop n s) := by
  induction n generalizing s with
  | zero => exact ok _
  | succ _ ih =>
    unfold getCommandLoop
    cases hq : s.queues[s.nextQueueIndex]? with
    | none => exact error rfl
    | some queue =>
      refine bind (raises_getFirstReady (h queue (mem_of_getElem? hq))) fun r _ => ?_
      cases r with
      | some => exact ok _
      | none => exact @ih { s with nextQueueIndex := _ } h

theorem Guarded.startable_iff (h : s.Guarded) :
    s.Startable ↔ ∀ queue ∈ s.queues, ∀ cmd ∈ queue, cmd.bankID ∈ cfg.bankIDs → s.Defers cmd := by
  constructor
  · intro hs queue hqueue cmd hcmd hid c k hc hk hzero
    obtain ⟨_, hfound, hstarts⟩ := hs.starts queue hqueue cmd hcmd hid
    rw [Bank.getReadyCommand, hk] at hfound
    simp only [hzero, if_true, Except.ok.injEq] at hfound
    rw [(hstarts _ hfound.symm).1] at hc
    cases hc
  · intro hdefers
    have hstarts := fun queue hqueue cmd hcmd hid => @Guarded.starts cfg s h queue hqueue cmd hcmd
      (hdefers queue hqueue cmd hcmd hid)
    refine ⟨hstarts, ?_⟩
    have hfound := fun queue hqueue cmd hcmd hid => (hstarts queue hqueue cmd hcmd hid).imp fun _ h => h.1
    refine bind (raises_getCommandLoop hfound) fun r hr => ?_
    obtain ⟨found, _⟩ := r
    rcases getCommandLoop_eq_ok hr with ⟨rfl, -⟩ | ⟨ready, rfl, _, _, cmd, _, _, hi, hid, hget, rfl⟩
    · exact ok _
    · obtain ⟨_, hfound, hstart⟩ := hstarts _ (mem_of_getElem? hi) cmd (by simp) hid
      rw [hget, Except.ok.injEq] at hfound
      obtain ⟨-, _, hb, -⟩ := hstart ready hfound.symm
      obtain ⟨_, -, -, rfl⟩ := Bank.getReadyCommand_eq_ok hget
      refine bind (bind (raises_getBank _ _) fun bank hbank => ?_) fun _ _ => ok _
      obtain ⟨-, rfl⟩ := getBank_eq_ok hbank
      exact bind (of_ok hb) fun _ _ => ok _

/-- After the channel has ticked, every ready command can start exactly if none overtakes an activation. -/
theorem Guarded.channelTick_startable (hspaced : Spaced cfg) (h : s.Guarded) : s.channelTick.2.Startable ↔ s.InTurn := by
  refine h.channelTick.startable_iff.trans (forall₅_congr fun queue hqueue cmd hcmd hid => ?_)
  rw [(h.banks cmd.bankID).overtakes_iff hspaced (h.queues queue hqueue cmd hcmd)]
  simp only [Defers, MemController.channelTick, if_pos hid, not_exists, not_and, ne_eq]

/-! ## Runs -/

theorem Guarded.tick (hspaced : Spaced cfg) (h : s.Guarded) {first second : List Bool}
    (ht : s.tick first second = .ok (p, t)) :
    t.Guarded := by
  obtain ⟨_, _, _, _, ⟨_, hu⟩, ⟨_, hv⟩, ⟨_, hi⟩, ⟨_, hq⟩, _, hp⟩ := tick_eq_ok ht
  exact (((((h.respond hu).respond hv).channelTick).issue hi).subTransQueueTick hspaced hq).parseTop hp

theorem guarded_of_reaches {ok : MemController cfg → Turn → Prop} {storage : Storage} (hspaced : Spaced cfg)
    (h : Reaches ok storage s) : s.Guarded := by
  induction h with
  | start =>
    refine ⟨fun _ => ⟨.inr rfl, fun _ => le_refl _, ?_, ?_⟩, fun queue hqueue cmd hcmd => ?_⟩
    · intro _ hc
      cases hc
    · intro _ hc
      cases hc
    · rw [(mem_replicate.1 hqueue).2] at hcmd
      cases hcmd
  | @step s s' turn _ _ h ih =>
    cases turn with
    | deliver req =>
      cases h
      split
      · exact ⟨ih.banks, ih.queues⟩
      · exact ih
    | tick =>
      obtain ⟨⟨_, _⟩, ht, h⟩ := eq_ok_of_bind h
      cases h
      exact ih.tick hspaced ht

/-- A tick starts its commands exactly if none overtook an activation before. -/
theorem Guarded.tickBegin_startable (hspaced : Spaced cfg) (h : s.Guarded) {first second : List Bool}
    (ht : s.tickBegin first second = .ok (p, t)) : t.Startable ↔ s.InTurn := by
  obtain ⟨⟨_, u⟩, hu, ht⟩ := eq_ok_of_bind ht
  obtain ⟨⟨_, v⟩, hv, ht⟩ := eq_ok_of_bind ht
  cases ht
  refine (((h.respond hu).respond hv).channelTick_startable hspaced).trans ?_
  -- the responses touch neither the queues nor the banks
  have hkeeps : ∀ {s t : MemController cfg} {p : Bool} {answers : List Bool}, s.respond answers = .ok (p, t) →
      (t.InTurn ↔ s.InTurn) := by
    intro s t p answers hr
    rcases respond_eq_ok hr with ⟨_, rfl⟩ | ⟨_, _, _, _, _, -, -, -, rfl⟩ <;> exact Iff.rfl
  exact (hkeeps hv).trans (hkeeps hu)

end MemController

/-! ## The tables of the builder -/

namespace Builder

variable (b : Builder)

/-- The timing parameters that the tables add are not negative. -/
structure Nonneg : Prop where
  tAL : 0 ≤ b.tAL
  tCWL : 0 ≤ b.tCWL
  tRTP : 0 ≤ b.tRTP
  tWR : 0 ≤ b.tWR

theorem burstCycle_nonneg : 0 ≤ b.burstCycle := by
  unfold burstCycle
  split <;> omega

theorem activateCycles_le_activateToRead (h : b.Nonneg) : b.activateCycles ≤ b.activateToRead := by
  unfold activateCycles activateToRead
  have := h.tAL
  split <;> omega

theorem spaced_build (h : b.Nonneg) : Spaced b.build where
  create isRead := by
    cases isRead
    · exact .inr rfl
    · exact .inl rfl
  read := by
    refine ⟨b.activateToRead, by simp [build, generateTiming, sameBank, dataEntries], ?_⟩
    have := b.activateCycles_le_activateToRead h
    show b.activateCycles ≤ _
    omega
  closed j hj := by
    have hburst := b.burstCycle_nonneg
    have hal := h.tAL
    have hcwl := h.tCWL
    have hrtp := h.tRTP
    have hwr := h.tWR
    rcases hj with rfl | rfl | rfl
    · refine ⟨b.prechargeToActivate, by simp [build, generateTiming, sameBank, closedEntries], ?_⟩
      show b.tRP ≤ max 1 b.tRP
      omega
    · refine ⟨b.readpToAct, by simp [build, generateTiming, sameBank, closedEntries], ?_⟩
      show b.tRP ≤ max 1 (b.tAL + b.burstCycle + b.tRTP + b.tRP)
      omega
    · refine ⟨b.writeToActivate, by simp [build, generateTiming, sameBank, closedEntries], ?_⟩
      show b.tRP ≤ max 1 (b.tAL + b.tCWL + b.burstCycle + b.tWR + b.tRP)
      omega

theorem covers_precharge (hras : b.activateCycles ≤ max 1 b.tRAS) : b.build.Covers .activate .precharge :=
  ⟨b.tRAS, by simp [build, generateTiming, sameBank], hras⟩

theorem covers_write (hwrite : b.activateCycles ≤ max 1 b.activateToWrite) : b.build.Covers .activate .writePrecharge :=
  ⟨b.activateToWrite, by simp [build, generateTiming, sameBank, dataEntries], hwrite⟩

end Builder

namespace MemController

variable {b : Builder} {storage : Storage} {s t : MemController b.build}

/-- Nothing overtakes an activation when the parameters put precharges and writes off by its cycles. -/
theorem inTurn_of_reaches (h : b.Nonneg) (hras : b.activateCycles ≤ max 1 b.tRAS)
    (hwrite : b.activateCycles ≤ max 1 b.activateToWrite) (hs : Reaches (fun _ _ => True) storage s) : s.InTurn := by
  have hguarded := guarded_of_reaches (b.spaced_build h) hs
  exact fun queue hqueue cmd hcmd _ =>
    (hguarded.banks cmd.bankID).not_overtakes (hguarded.queues queue hqueue cmd hcmd) (b.covers_precharge hras)
      (b.covers_write hwrite)

def oneRead : AccessReq := .read { id := 1, src := 0, pid := 0, address := 0, accessByteSize := 1 }

def oneWrite : AccessReq := .write { id := 1, src := 0, pid := 0, address := 0, data := [7], dirtyMask := none }

/-- A request is delivered, and the controller ticks. -/
def oneRun (b : Builder) (req : AccessReq) (ticks : Nat) : Except String (MemController b.build) :=
  (.deliver req :: replicate ticks (.tick [] [])).foldlM (fun s turn => s.step turn) { storage := Storage.new 4096 }

end MemController

end Akita.Dram
