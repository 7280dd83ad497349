import Akita.Dram.Builder
import Akita.Returns

/-!
# Banks

* `Bank` : `org.BankImpl`, with one lemma for each of its functions;
* `Banks` : the banks of `org.ChannelImpl`.
-/

namespace Akita.Dram
open Option

inductive BankState
  | opened
  | closed
  | sRef
  | pd
  | invalid
deriving DecidableEq

structure Bank where
  state : BankState := .closed
  currentCmd : Option Command := none
  openRow : Nat := 0
  cyclesToCmdAvailable : CommandKind → Int := fun _ => 0

namespace Bank

/-- `completeCurrentCmd` marks the sub-transaction of a read or write. -/
def completes (cmd : Command) : Option SubTransID := if cmd.kind.isReadOrWrite then some cmd.subTrans.id else none

/-- `countDownCurrentCmd`, with the sub-transaction that is completed. -/
def countDownCurrentCmd (b : Bank) : Bool × Option SubTransID × Bank :=
  match b.currentCmd with
  | none => (false, none, b)
  | some cmd =>
    if cmd.cycleLeft - 1 ≤ 0 then (true, completes cmd, { b with currentCmd := none })
    else (true, none, { b with currentCmd := some { cmd with cycleLeft := cmd.cycleLeft - 1 } })

def allKinds : List CommandKind :=
  [.read, .readPrecharge, .write, .writePrecharge, .activate, .precharge, .refreshBank, .refresh, .sRefEnter, .sRefExit]

def countDownTiming (b : Bank) : Bool × Bank :=
  (allKinds.any fun k => b.cyclesToCmdAvailable k > 0,
    { b with cyclesToCmdAvailable := fun k => if b.cyclesToCmdAvailable k > 0 then b.cyclesToCmdAvailable k - 1
               else b.cyclesToCmdAvailable k })

def tick (b : Bank) : Bool × Option SubTransID × Bank :=
  let (progress, done, b) := b.countDownCurrentCmd
  let (madeProgress, b) := b.countDownTiming
  (progress || madeProgress, done, b)

/-- `requiredCmdKindTable`, `none` for `NumCmdKind`. -/
def getRequiredCommandKind (b : Bank) (cmd : Command) : Option CommandKind :=
  if cmd.kind.isReadOrWrite then
    match b.state with
    | .closed => some .activate
    | .opened => some (if b.openRow = cmd.row then cmd.kind else .precharge)
    | _ => none
  else none

/-- The command that is ready, or nothing. -/
def getReadyCommand (b : Bank) (cmd : Command) : Except String (Option Command) :=
  match b.getRequiredCommandKind cmd with
  | none => .error "never"
  | some requiredKind =>
    .ok (if b.cyclesToCmdAvailable requiredKind = 0 then some { cmd with kind := requiredKind } else none)

def openTheRow (b : Bank) (cmd : Command) : Bank := { b with openRow := cmd.row, state := .opened }

def closeRow (b : Bank) (_ : Command) : Bank := { b with state := .closed }

def doNothing (b : Bank) (_ : Command) : Bank := b

def stateUpdateTable : BankState → CommandKind → Option (Bank → Command → Bank)
  | .closed, .activate => some openTheRow
  | .opened, .precharge | .opened, .readPrecharge | .opened, .writePrecharge => some closeRow
  | .opened, .read | .opened, .write => some doNothing
  | _, _ => none

def startCommand (cmdCycles : CommandKind → Int) (b : Bank) (cmd : Command) : Except String Bank :=
  if b.currentCmd.isSome then .error "previous cmd is not completed"
  else
    match stateUpdateTable b.state cmd.kind with
    | none => .error "never"
    | some updateFunc => .ok (updateFunc { b with currentCmd := some { cmd with cycleLeft := cmdCycles cmd.kind } } cmd)

def updateTiming (b : Bank) (entry : CommandKind × Int) : Bank :=
  if b.cyclesToCmdAvailable entry.1 < entry.2 then
    { b with cyclesToCmdAvailable := Function.update b.cyclesToCmdAvailable entry.1 entry.2 }
  else b

/-! ## What the functions do -/

variable {b b' : Bank} {cmd : Command} {cmdCycles : CommandKind → Int}

@[simp] theorem state_tick (b : Bank) : b.tick.2.2.state = b.state := by
  unfold tick countDownCurrentCmd
  cases b.currentCmd with
  | none => rfl
  | some =>
    dsimp only
    split <;> rfl

@[simp] theorem openRow_tick (b : Bank) : b.tick.2.2.openRow = b.openRow := by
  unfold tick countDownCurrentCmd
  cases b.currentCmd with
  | none => rfl
  | some =>
    dsimp only
    split <;> rfl

theorem cycles_tick (b : Bank) (k : CommandKind) : b.tick.2.2.cyclesToCmdAvailable k =
    if b.cyclesToCmdAvailable k > 0 then b.cyclesToCmdAvailable k - 1 else b.cyclesToCmdAvailable k := by
  unfold tick countDownCurrentCmd
  cases b.currentCmd with
  | none => rfl
  | some =>
    dsimp only
    split <;> rfl

/-- The current command of a bank ticks down, and completes with its last cycle. -/
theorem tick_cases (b : Bank) :
    (b.currentCmd = none ∧ b.tick.2.1 = none ∧ b.tick.2.2.currentCmd = none) ∨
    (∃ cmd, b.currentCmd = some cmd ∧ cmd.cycleLeft ≤ 1 ∧ b.tick.2.1 = completes cmd ∧ b.tick.2.2.currentCmd = none) ∨
    (∃ cmd, b.currentCmd = some cmd ∧ 1 < cmd.cycleLeft ∧ b.tick.2.1 = none ∧
      b.tick.2.2.currentCmd = some { cmd with cycleLeft := cmd.cycleLeft - 1 }) := by
  unfold tick countDownCurrentCmd
  cases hc : b.currentCmd with
  | none => exact .inl ⟨rfl, rfl, hc⟩
  | some cmd =>
    by_cases hle : cmd.cycleLeft - 1 ≤ 0
    · exact .inr (.inl ⟨cmd, rfl, by omega, by simp [hle], by simp [hle, countDownTiming]⟩)
    · exact .inr (.inr ⟨cmd, rfl, by omega, by simp [hle], by simp [hle, countDownTiming]⟩)

/-- A ready command is the command asked for, or what must come before it. -/
theorem getReadyCommand_eq_ok {ready : Command} (h : b.getReadyCommand cmd = .ok (some ready)) :
    ∃ k, b.getRequiredCommandKind cmd = some k ∧ b.cyclesToCmdAvailable k = 0 ∧ ready = { cmd with kind := k } := by
  unfold getReadyCommand at h
  cases hk : b.getRequiredCommandKind cmd with
  | none =>
    rw [hk] at h
    cases h
  | some k =>
    rw [hk] at h
    by_cases hz : b.cyclesToCmdAvailable k = 0
    · simp only [hz, if_true, Except.ok.injEq, some.injEq] at h
      exact ⟨k, rfl, hz, h.symm⟩
    · simp [hz] at h

theorem getRequiredCommandKind_eq {k : CommandKind} (h : b.getRequiredCommandKind cmd = some k) :
    cmd.kind.isReadOrWrite = true ∧
    ((b.state = .closed ∧ k = .activate) ∨ (b.state = .opened ∧ b.openRow = cmd.row ∧ k = cmd.kind) ∨
      (b.state = .opened ∧ b.openRow ≠ cmd.row ∧ k = .precharge)) := by
  unfold getRequiredCommandKind at h
  split at h
  · next hrw =>
    refine ⟨hrw, ?_⟩
    cases hs : b.state with
    | closed =>
      simp only [hs, some.injEq] at h
      exact .inl ⟨rfl, h.symm⟩
    | opened =>
      simp only [hs, some.injEq] at h
      by_cases hrow : b.openRow = cmd.row
      · exact .inr (.inl ⟨rfl, hrow, by rw [← h, if_pos hrow]⟩)
      · exact .inr (.inr ⟨rfl, hrow, by rw [← h, if_neg hrow]⟩)
    | sRef | pd | invalid => simp [hs] at h
  · cases h

/-- What a command does to the row: an activation opens the row of a closed bank, a precharge closes it, and data moves on an
open row. -/
def Follows (b b' : Bank) (cmd : Command) : Prop :=
  (b.state = .closed ∧ cmd.kind = .activate ∧ b'.state = .opened ∧ b'.openRow = cmd.row) ∨
  (b.state = .opened ∧ (cmd.kind = .precharge ∨ cmd.kind = .readPrecharge ∨ cmd.kind = .writePrecharge) ∧
    b'.state = .closed) ∨
  (b.state = .opened ∧ (cmd.kind = .read ∨ cmd.kind = .write) ∧ b'.state = .opened ∧ b'.openRow = b.openRow)

theorem startCommand_eq_ok (h : startCommand cmdCycles b cmd = .ok b') :
    b.currentCmd = none ∧ b'.currentCmd = some { cmd with cycleLeft := cmdCycles cmd.kind } ∧
      b'.cyclesToCmdAvailable = b.cyclesToCmdAvailable ∧ b.Follows b' cmd := by
  unfold startCommand at h
  split at h
  · cases h
  next hnone =>
  refine ⟨by simpa using hnone, ?_⟩
  unfold Follows
  cases hs : b.state <;> cases hk : cmd.kind <;> simp only [hs, hk, stateUpdateTable] at h <;> cases h <;>
    simp [openTheRow, closeRow, doNothing]

/-- A command whose row is as it needs it starts in a bank with no command. -/
theorem startCommand_succeeds (hnone : b.currentCmd = none)
    (h : (b.state = .closed ∧ cmd.kind = .activate) ∨
      (b.state = .opened ∧ (cmd.kind.isReadOrWrite = true ∨ cmd.kind = .precharge))) :
    ∃ b', startCommand cmdCycles b cmd = .ok b' := by
  have hfound : ∃ f, stateUpdateTable b.state cmd.kind = some f := by
    rcases h with ⟨hs, hk⟩ | ⟨hs, hk⟩
    · exact ⟨openTheRow, by rw [hs, hk]; rfl⟩
    · rw [hs]
      rcases hk with hk | hk
      · cases hkind : cmd.kind <;> simp [hkind, CommandKind.isReadOrWrite, CommandKind.isRead, CommandKind.isWrite] at hk <;>
          simp [stateUpdateTable]
      · exact ⟨closeRow, by rw [hk]; rfl⟩
  obtain ⟨f, hf⟩ := hfound
  exact ⟨_, by simp only [startCommand, hnone, isSome_none, hf]; rfl⟩

@[simp] theorem state_updateTiming (b : Bank) (entry : CommandKind × Int) : (b.updateTiming entry).state = b.state := by
  unfold updateTiming
  split <;> rfl

@[simp] theorem openRow_updateTiming (b : Bank) (entry : CommandKind × Int) : (b.updateTiming entry).openRow = b.openRow := by
  unfold updateTiming
  split <;> rfl

@[simp] theorem currentCmd_updateTiming (b : Bank) (entry : CommandKind × Int) :
    (b.updateTiming entry).currentCmd = b.currentCmd := by
  unfold updateTiming
  split <;> rfl

theorem cycles_updateTiming (b : Bank) (entry : CommandKind × Int) (k : CommandKind) :
    b.cyclesToCmdAvailable k ≤ (b.updateTiming entry).cyclesToCmdAvailable k := by
  unfold updateTiming
  split
  · next hlt =>
    by_cases hk : k = entry.1
    · subst hk
      simpa using le_of_lt hlt
    · simp [Function.update_of_ne hk]
  · exact le_refl _

theorem le_cycles_updateTiming (b : Bank) (entry : CommandKind × Int) :
    entry.2 ≤ (b.updateTiming entry).cyclesToCmdAvailable entry.1 := by
  unfold updateTiming
  split
  · simp
  · next hge => exact not_lt.1 hge

/-- The entries of a table only put off what is available, each to its cycles. -/
theorem foldl_updateTiming (entries : List (CommandKind × Int)) (b : Bank) :
    (entries.foldl updateTiming b).state = b.state ∧ (entries.foldl updateTiming b).openRow = b.openRow ∧
      (entries.foldl updateTiming b).currentCmd = b.currentCmd ∧
      (∀ k, b.cyclesToCmdAvailable k ≤ (entries.foldl updateTiming b).cyclesToCmdAvailable k) ∧
      ∀ e ∈ entries, e.2 ≤ (entries.foldl updateTiming b).cyclesToCmdAvailable e.1 := by
  induction entries generalizing b with
  | nil => exact ⟨rfl, rfl, rfl, fun _ => le_refl _, fun e he => absurd he List.not_mem_nil⟩
  | cons entry _ ih =>
    obtain ⟨hstate, hrow, hcmd, hmono, hentries⟩ := ih (b.updateTiming entry)
    refine ⟨by simp [hstate], by simp [hrow], by simp [hcmd], fun k => (b.cycles_updateTiming entry k).trans (hmono k),
      fun e he => ?_⟩
    rcases List.mem_cons.1 he with rfl | he
    · exact (b.le_cycles_updateTiming e).trans (hmono e.1)
    · exact hentries e he

end Bank

end Akita.Dram
