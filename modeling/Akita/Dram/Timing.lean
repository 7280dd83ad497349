import Akita.Dram.BankSafety

/-!
# The commands of a run

* `started` : the commands that the channel starts in a run, each with its tick;
* `each_started` : what the ticks and the starts of the banks keep holds of each of them;
* `timing_kept` : two commands are as far apart as the tables ask for, whichever banks they are for;
* `rows_kept` : a command starts in a bank whose row is as the commands before have left it.
-/

namespace Akita.Dram
open Function

/-- Each of the commands, given those before it, has `Q`. -/
def Each (Q : List (ℕ × Command) → ℕ × Command → Prop) : List (ℕ × Command) → List (ℕ × Command) → Prop
  | _, [] => True
  | past, x :: rest => Q past x ∧ Each Q (past ++ [x]) rest

/-- The row that a bank has open. -/
def Bank.row (b : Bank) : Option ℕ := if b.state = .opened then some b.openRow else none

/-- The row of a bank after one more command. -/
def leaves (id : BankID) (row : Option ℕ) (p : ℕ × Command) : Option ℕ :=
  if p.2.bankID = id then
    match p.2.kind with
    | .activate => some p.2.row
    | .read | .write => row
    | _ => none
  else row

/-- The row that the commands leave open in a bank. -/
def rowLeft (id : BankID) (past : List (ℕ × Command)) : Option ℕ := past.foldl (leaves id) none

/-- An activation opens a row where none is open, a precharge closes another row, and data moves on the row of the command. -/
inductive Fits (row : Option ℕ) (cmd : Command) : Prop
  | activate (hrow : row = none) (hkind : cmd.kind = .activate)
  | precharge (other : ℕ) (hne : other ≠ cmd.row) (hrow : row = some other) (hkind : cmd.kind = .precharge)
  | moves (hrow : row = some cmd.row) (hkind : cmd.kind.isReadOrWrite = true)

theorem Bank.row_tick (b : Bank) : b.tick.2.2.row = b.row := by
  unfold tick countDownCurrentCmd
  cases b.currentCmd with
  | none => rfl
  | some =>
    dsimp only
    split <;> rfl

theorem Bank.Follows.row {b b' : Bank} {cmd : Command} (h : b.Follows b' cmd) (n : ℕ) :
    b'.row = leaves cmd.bankID b.row (n, cmd) := by
  unfold leaves Bank.row
  rw [if_pos rfl]
  dsimp only
  rcases h with ⟨-, hk, hs, hrow⟩ | ⟨-, hk | hk | hk, hs⟩ | ⟨hopen, hk | hk, hs, hrow⟩ <;> simp [*]

namespace MemController

variable {cfg : Config}

/-- The command that a tick starts. -/
def nextStart (s : MemController cfg) (first second : List Bool) : Option Command :=
  match s.tickBegin first second with
  | .error _ => none
  | .ok (_, t) =>
    match t.getCommandToIssue with
    | .error _ => none
    | .ok (cmd, _) => cmd

/-- The commands of a run that goes on after `n` ticks, up to a panic. -/
def started : List Turn → ℕ → MemController cfg → List (ℕ × Command)
  | [], _, _ => []
  | turn :: turns, n, s =>
    match s.step turn with
    | .error _ => []
    | .ok t =>
      match turn with
      | .deliver _ => started turns n t
      | .tick first second => ((s.nextStart first second).map (n + 1, ·)).toList ++ started turns (n + 1) t

/-- The banks after they have ticked. -/
def ticked (cfg : Config) (banks : BankID → Bank) (id : BankID) : Bank :=
  if id ∈ cfg.bankIDs then (banks id).tick.2.2 else banks id

/-- A command starts in its bank, and the banks wait for what the tables say. -/
structure Starts (cfg : Config) (banks banks' : BankID → Bank) (cmd : Command) : Prop where
  mem : cmd.bankID ∈ cfg.bankIDs
  available : (banks cmd.bankID).cyclesToCmdAvailable cmd.kind = 0
  fits : Fits (banks cmd.bankID).row cmd
  starts : ∃ b, Bank.startCommand cfg.cmdCycles (banks cmd.bankID) cmd = .ok b ∧ ∀ id ∈ cfg.bankIDs,
    banks' id = (cfg.timingTable cmd id cmd.kind).foldl Bank.updateTiming (update banks cmd.bankID b id)

variable {s t : MemController cfg} {p : Bool}

theorem banks_respond {answers : List Bool} (h : s.respond answers = .ok (p, t)) : t.banks = s.banks := by
  rcases respond_eq_ok h with ⟨_, rfl⟩ | ⟨_, _, _, _, _, -, -, -, rfl⟩ <;> rfl

theorem starts_of_issue (h : s.issue = .ok (p, t)) : ∃ found u, s.getCommandToIssue = .ok (found, u) ∧
    ((found = none ∧ t.banks = s.banks) ∨ ∃ cmd, found = some cmd ∧ Starts cfg s.banks t.banks cmd) := by
  obtain ⟨⟨found, u⟩, hfound, h⟩ := eq_ok_of_bind h
  refine ⟨found, u, hfound, ?_⟩
  rcases getCommandLoop_eq_ok hfound with ⟨rfl, _, rfl⟩ | ⟨_, rfl, _, _, asked, _, _, -, hid, hget, rfl⟩
  · cases h
    exact .inl ⟨rfl, rfl⟩
  obtain ⟨_, hu, h⟩ := eq_ok_of_bind h
  cases h
  obtain ⟨_, hbank, hu⟩ := eq_ok_of_bind hu
  obtain ⟨b, hb, hu⟩ := eq_ok_of_bind hu
  cases hu
  obtain ⟨-, rfl⟩ := getBank_eq_ok hbank
  obtain ⟨k, hk, hzero, rfl⟩ := Bank.getReadyCommand_eq_ok hget
  obtain ⟨hmoves, hkind⟩ := Bank.getRequiredCommandKind_eq hk
  have hfits : Fits (s.banks asked.bankID).row { asked with kind := k } ∧ updatesTiming k = true := by
    unfold Bank.row
    rcases hkind with ⟨hs, rfl⟩ | ⟨hs, hrow, rfl⟩ | ⟨hs, hrow, rfl⟩
    · exact ⟨.activate (by simp [hs]) rfl, rfl⟩
    · refine ⟨.moves (by simp [hs, hrow]) hmoves, ?_⟩
      cases hk : asked.kind <;> first | rfl | (rw [hk] at hmoves; cases hmoves)
    · exact ⟨.precharge _ hrow (if_pos hs) rfl, rfl⟩
  refine .inr ⟨_, rfl, hid, hzero, hfits.1, b, hb, fun id hmem => ?_⟩
  unfold updateTiming
  rw [if_pos hfits.2]
  exact if_pos hmem

theorem tick_banks {first second : List Bool} (h : s.tick first second = .ok (p, t)) :
    (s.nextStart first second = none ∧ t.banks = ticked cfg s.banks) ∨
      ∃ cmd, s.nextStart first second = some cmd ∧ Starts cfg (ticked cfg s.banks) t.banks cmd := by
  obtain ⟨⟨_, a⟩, hbegin, h⟩ := eq_ok_of_bind h
  obtain ⟨⟨_, b⟩, hissue, h⟩ := eq_ok_of_bind h
  obtain ⟨⟨_, c⟩, hqueue, h⟩ := eq_ok_of_bind h
  obtain ⟨⟨_, _⟩, hparse, h⟩ := eq_ok_of_bind h
  cases h
  have htail : t.banks = b.banks := by
    have hc : c.banks = b.banks := by
      rcases subTransQueueTick_eq_ok hqueue with rfl | ⟨_, _, _, _, -, -, -, rfl⟩ <;> rfl
    rw [← hc]
    rcases parseTop_eq_ok hparse with rfl | ⟨_, _, _, -, -, -, -, rfl⟩ <;> rfl
  have hhead : a.banks = ticked cfg s.banks := by
    obtain ⟨⟨_, u⟩, hu, hbegin⟩ := eq_ok_of_bind hbegin
    obtain ⟨⟨_, v⟩, hv, hbegin⟩ := eq_ok_of_bind hbegin
    cases hbegin
    show ticked cfg v.banks = _
    rw [banks_respond hv, banks_respond hu]
  obtain ⟨found, u, hfound, hcase⟩ := starts_of_issue hissue
  have hnext : s.nextStart first second = found := by simp only [nextStart, hbegin, hfound]
  rw [hnext, htail, ← hhead]
  exact hcase

/-- An invariant of the banks and of the commands before them says something of each command when it starts. -/
theorem each_started (Inv : ℕ → List (ℕ × Command) → (BankID → Bank) → Prop) {Q : List (ℕ × Command) → ℕ × Command → Prop}
    (htick : ∀ {n past banks}, Inv n past banks → Inv (n + 1) past (ticked cfg banks))
    (hstart : ∀ {n past banks banks' cmd}, Inv n past banks → Starts cfg banks banks' cmd → Q past (n, cmd) ∧
      Inv n (past ++ [(n, cmd)]) banks')
    {n : ℕ} {past : List (ℕ × Command)} (h : Inv n past s.banks) (turns : List Turn) : Each Q past (started turns n s) := by
  induction turns generalizing n past s with
  | nil => trivial
  | cons turn turns ih =>
    unfold started
    cases hstep : s.step turn with
    | error => trivial
    | ok t =>
      cases turn with
      | deliver req =>
        refine ih (s := t) ?_
        cases hstep
        split <;> exact h
      | tick first second =>
        obtain ⟨⟨_, _⟩, ht, hret⟩ := eq_ok_of_bind hstep
        cases hret
        dsimp only
        rcases tick_banks ht with ⟨hnone, hbanks⟩ | ⟨cmd, hsome, hstarts⟩
        · rw [hnone]
          exact ih (s := t) (hbanks ▸ htick h)
        · rw [hsome]
          obtain ⟨hq, hinv⟩ := hstart (htick h) hstarts
          exact ⟨hq, ih (s := t) hinv⟩

/-- After `n` ticks the banks still wait for what the commands before ask for. -/
def Waited (cfg : Config) (n : ℕ) (past : List (ℕ × Command)) (banks : BankID → Bank) : Prop :=
  ∀ p ∈ past, ∀ id ∈ cfg.bankIDs, ∀ k m, (k, m) ∈ cfg.timingTable p.2 id p.2.kind →
    p.1 + m ≤ n + (banks id).cyclesToCmdAvailable k

/-- **The tables are kept**: in every run a command starts only when the cycles that the tables ask for after each earlier
command are over. -/
theorem timing_kept (storage : Mem.Storage) (turns : List Turn) : Each (fun past x => ∀ p ∈ past, ∀ m,
      (x.2.kind, m) ∈ cfg.timingTable p.2 x.2.bankID p.2.kind → p.1 + m ≤ x.1) []
        (started turns 0 ({ storage } : MemController cfg)) := by
  refine each_started (Waited cfg) (fun h p hp id hid k m hm => ?_) (fun {n past banks banks' cmd} h hs =>
    ⟨fun p hp m hm => ?_, List.forall_mem_append.mpr ⟨fun p hp id hid k m hm => ?_,
      List.forall_mem_singleton.mpr fun id hid k m hm => ?_⟩⟩)
    (fun p hp => absurd hp List.not_mem_nil) turns
  · have hle := h p hp id hid k m hm
    rw [ticked, if_pos hid, Bank.cycles_tick]
    push_cast
    split <;> omega
  · have hle := h p hp _ hs.mem _ m hm
    rwa [hs.available, add_zero] at hle
  all_goals
    obtain ⟨b, hb, hbanks⟩ := hs.starts
    obtain ⟨-, -, hcycles, -⟩ := Bank.startCommand_eq_ok hb
    obtain ⟨-, -, -, hmono, hentries⟩ :=
      Bank.foldl_updateTiming (cfg.timingTable cmd id cmd.kind) (update banks cmd.bankID b id)
    rw [hbanks id hid]
  · have hle := h p hp id hid k m hm
    have hmono := hmono k
    have hsame : (update banks cmd.bankID b id).cyclesToCmdAvailable k = (banks id).cyclesToCmdAvailable k := by
      by_cases hself : id = cmd.bankID
      · rw [hself, update_self, hcycles]
      · rw [update_of_ne hself]
    omega
  · have hle := hentries (k, m) hm
    dsimp only at hle ⊢
    omega

example : (started (.deliver oneWrite :: List.replicate 14 (.tick [] [])) 0
    ({ storage := .new 4096 } : MemController ({} : Builder).build)).map
    (fun p => (p.1, p.2.kind)) = [(3, .activate), (14, .writePrecharge)] := by decide +kernel

/-- **Rows are kept**: in every run a command starts in a bank whose open row, by the commands before, is the one it needs: no
row for an activation, another row for a precharge, its own row for a read or a write. -/
theorem rows_kept (storage : Mem.Storage) (turns : List Turn) :
    Each (fun past x => Fits (rowLeft x.2.bankID past) x.2) [] (started turns 0 ({ storage } : MemController cfg)) := by
  refine each_started (fun _ past banks => ∀ id ∈ cfg.bankIDs, (banks id).row = rowLeft id past) (fun h id hid => ?_)
    (fun {n past banks banks' cmd} h hs => ⟨h _ hs.mem ▸ hs.fits, fun id hid => ?_⟩) (fun _ _ => rfl) turns
  · rw [ticked, if_pos hid, Bank.row_tick]
    exact h id hid
  · obtain ⟨b, hb, hbanks⟩ := hs.starts
    obtain ⟨hstate, hopen, -⟩ := Bank.foldl_updateTiming (cfg.timingTable cmd id cmd.kind) (update banks cmd.bankID b id)
    have hrow : (banks' id).row = (update banks cmd.bankID b id).row := by
      unfold Bank.row
      rw [hbanks id hid, hstate, hopen]
    rw [hrow, rowLeft, List.foldl_append, ← rowLeft, ← h id hid]
    show _ = leaves id (banks id).row (n, cmd)
    by_cases hself : id = cmd.bankID
    · subst hself
      rw [update_self]
      exact (Bank.startCommand_eq_ok hb).2.2.2.row n
    · rw [update_of_ne hself, leaves, if_neg fun heq => hself heq.symm]

end MemController

end Akita.Dram
