import Akita.Dram.MemController

/-!
# What the parts of a tick do

One lemma for each of `respond`, `issue`, `Tick` of the sub-transaction queue and `parseTop`.
-/

namespace Akita.Dram.MemController
open Mem Sim Function

variable {cfg : Config} {s s' : MemController cfg}

theorem getBank_eq_ok {l : Location} {b : Bank} (h : s.getBank l = .ok b) :
    l.bankID ∈ cfg.bankIDs ∧ b = s.banks l.bankID := by
  unfold getBank at h
  split at h
  · next hl =>
    refine ⟨?_, (Except.ok.inj h).symm⟩
    simp [Config.bankIDs, Location.bankID, hl]
  · cases h

theorem getFirstReadyInQueue_eq_ok {queue left : List Command} {ready : Command}
    (h : s.getFirstReadyInQueue queue = .ok (some (ready, left))) :
    ∃ before cmd after, queue = before ++ cmd :: after ∧ cmd.bankID ∈ cfg.bankIDs ∧
      (s.banks cmd.bankID).getReadyCommand cmd = .ok (some ready) ∧
      left = if cmd.kind = ready.kind then before ++ after else queue := by
  induction queue generalizing left with
  | nil => cases h
  | cons cmd rest ih =>
    obtain ⟨_, hbank, h⟩ := eq_ok_of_bind h
    obtain ⟨hid, rfl⟩ := getBank_eq_ok hbank
    obtain ⟨found, hready, h⟩ := eq_ok_of_bind h
    cases found with
    | some =>
      cases h
      exact ⟨[], cmd, rest, rfl, hid, hready, rfl⟩
    | none =>
      obtain ⟨found, hfound, h⟩ := eq_ok_of_bind h
      cases found with
      | none => cases h
      | some =>
        cases h
        obtain ⟨before, c, after, rfl, hc, hready, hleft⟩ := ih hfound
        refine ⟨cmd :: before, c, after, rfl, hc, hready, ?_⟩
        rw [hleft]
        split <;> rfl

/-- A command is selected from one of the queues. -/
def Selects (s s' : MemController cfg) (ready : Command) : Prop :=
  ∃ i before cmd after next, s.queues[i]? = some (before ++ cmd :: after) ∧ cmd.bankID ∈ cfg.bankIDs ∧
    (s.banks cmd.bankID).getReadyCommand cmd = .ok (some ready) ∧
    s' = { s with
      nextQueueIndex := next
      queues := s.queues.set i (if cmd.kind = ready.kind then before ++ after else before ++ cmd :: after) }

theorem getCommandLoop_eq_ok {n : Nat} {found : Option Command} (h : getCommandLoop n s = .ok (found, s')) :
    (found = none ∧ ∃ next, s' = { s with nextQueueIndex := next }) ∨ ∃ ready, found = some ready ∧ s.Selects s' ready := by
  induction n generalizing s with
  | zero =>
    cases h
    exact .inl ⟨rfl, s'.nextQueueIndex, rfl⟩
  | succ _ ih =>
    unfold getCommandLoop at h
    cases hq : s.queues[s.nextQueueIndex]? with
    | none =>
      rw [hq] at h
      cases h
    | some =>
      rw [hq] at h
      obtain ⟨r, hr, h⟩ := eq_ok_of_bind h
      cases r with
      | none =>
        rcases ih h with ⟨hnone, next, hs⟩ | ⟨ready, hready, i, before, cmd, after, next, hi, hid, hget, hs⟩
        · exact .inl ⟨hnone, next, hs⟩
        · exact .inr ⟨ready, hready, i, before, cmd, after, next, hi, hid, hget, hs⟩
      | some r =>
        cases h
        obtain ⟨before, cmd, after, hqueue, hid, hready, hleft⟩ := getFirstReadyInQueue_eq_ok hr
        refine .inr ⟨r.1, rfl, _, before, cmd, after, (s.nextQueueIndex + 1) % s.queues.length, hqueue ▸ hq, hid, hready, ?_⟩
        rw [hleft, hqueue]

/-- `issue` starts a selected command in its bank. -/
def Issues (s s' : MemController cfg) : Prop :=
  ∃ i before cmd after next k b, s.queues[i]? = some (before ++ cmd :: after) ∧ cmd.bankID ∈ cfg.bankIDs ∧
    (s.banks cmd.bankID).getRequiredCommandKind cmd = some k ∧
    Bank.startCommand cfg.cmdCycles (s.banks cmd.bankID) { cmd with kind := k } = .ok b ∧
    s' = updateTiming { s with
      nextQueueIndex := next
      queues := s.queues.set i (if cmd.kind = k then before ++ after else before ++ cmd :: after)
      banks := update s.banks cmd.bankID b } { cmd with kind := k }

variable {progress : Bool}

theorem issue_eq_ok (h : s.issue = .ok (progress, s')) :
    (∃ next, s' = { s with nextQueueIndex := next }) ∨ s.Issues s' := by
  obtain ⟨⟨_, _⟩, hfound, h⟩ := eq_ok_of_bind h
  rcases getCommandLoop_eq_ok hfound with ⟨rfl, next, rfl⟩ | ⟨_, rfl, i, before, cmd, after, next, hi, hid, hget, rfl⟩
  · cases h
    exact .inl ⟨next, rfl⟩
  · obtain ⟨_, hu, h⟩ := eq_ok_of_bind h
    cases h
    obtain ⟨_, hbank, hu⟩ := eq_ok_of_bind hu
    obtain ⟨b, hb, hu⟩ := eq_ok_of_bind hu
    cases hu
    obtain ⟨-, rfl⟩ := getBank_eq_ok hbank
    obtain ⟨k, hk, -, rfl⟩ := Bank.getReadyCommand_eq_ok hget
    exact .inr ⟨i, before, cmd, after, next, k, b, hi, hid, hk, hb, rfl⟩

theorem updateTiming_eq (s : MemController cfg) (cmd : Command) :
    ∃ banks, s.updateTiming cmd = { s with banks } ∧ ∀ id, (banks id).currentCmd = (s.banks id).currentCmd := by
  unfold updateTiming
  split
  · refine ⟨_, rfl, fun id => ?_⟩
    split
    · exact (Bank.foldl_updateTiming _ _).2.2.1
    · rfl
  · exact ⟨s.banks, rfl, fun id => rfl⟩

theorem Issues.effects (h : s.Issues s') : ∃ i before cmd after k, s.queues[i]? = some (before ++ cmd :: after) ∧
    cmd.bankID ∈ cfg.bankIDs ∧ (s.banks cmd.bankID).currentCmd = none ∧ cmd.kind.isReadOrWrite = true ∧
    (k = cmd.kind ∨ k.isReadOrWrite = false) ∧
    (∀ id, (s'.banks id).currentCmd =
      if id = cmd.bankID then some { cmd with kind := k, cycleLeft := cfg.cmdCycles k } else (s.banks id).currentCmd) ∧
    ∃ next banks, s' = { s with
      nextQueueIndex := next
      queues := s.queues.set i (if cmd.kind = k then before ++ after else before ++ cmd :: after)
      banks } := by
  obtain ⟨i, before, cmd, after, next, k, b, hq, hid, hk, hb, rfl⟩ := h
  obtain ⟨hnone, hcurrent, -, -⟩ := Bank.startCommand_eq_ok hb
  obtain ⟨hmoves, hkind⟩ := Bank.getRequiredCommandKind_eq hk
  have hrw : k = cmd.kind ∨ k.isReadOrWrite = false := by
    rcases hkind with ⟨-, rfl⟩ | ⟨-, -, rfl⟩ | ⟨-, -, rfl⟩
    · exact .inr rfl
    · exact .inl rfl
    · exact .inr rfl
  have hstart : ∀ id, (update s.banks cmd.bankID b id).currentCmd =
      if id = cmd.bankID then some { cmd with kind := k, cycleLeft := cfg.cmdCycles k } else (s.banks id).currentCmd := by
    intro id
    by_cases hsame : id = cmd.bankID
    · subst hsame
      simp [hcurrent]
    · simp [hsame]
  obtain ⟨banks, hupdate, hbanks⟩ := updateTiming_eq { s with
    nextQueueIndex := next
    queues := s.queues.set i (if cmd.kind = k then before ++ after else before ++ cmd :: after)
    banks := update s.banks cmd.bankID b } { cmd with kind := k }
  refine ⟨i, before, cmd, after, k, hq, hid, hnone, hmoves, hrw, fun id => ?_, next, banks, hupdate⟩
  rw [hupdate, ← hstart id]
  exact hbanks id

theorem firstAccepted_eq_ok {queues : List (List Command)} {sts left : List SubTransaction} {cmd : Command}
    (h : firstAccepted cfg queues sts = .ok (some (cmd, left))) :
    ∃ before st after queue, sts = before ++ st :: after ∧ left = before ++ after ∧ cmd = cfg.create st ∧
      queues[cmd.rank]? = some queue ∧ queue.length < cfg.commandQueueSize := by
  induction sts generalizing left with
  | nil => cases h
  | cons st _ ih =>
    unfold firstAccepted at h
    cases hq : queues[(cfg.create st).rank]? with
    | none =>
      rw [hq] at h
      cases h
    | some queue =>
      rw [hq] at h
      simp only at h
      split at h
      · next hlt =>
        cases h
        exact ⟨[], st, _, queue, rfl, rfl, rfl, hq, hlt⟩
      · obtain ⟨found, hfound, h⟩ := eq_ok_of_bind h
        cases found with
        | none => cases h
        | some =>
          cases h
          obtain ⟨before, st', after, queue', rfl, hleft, hcmd, hqueue, hlt⟩ := ih hfound
          exact ⟨st :: before, st', after, queue', rfl, by rw [hleft]; rfl, hcmd, hqueue, hlt⟩

theorem subTransQueueTick_eq_ok (h : s.subTransQueueTick = .ok (progress, s')) :
    s' = s ∨ ∃ before st after queue, s.subTransactionQueue = before ++ st :: after ∧
    s.queues[(cfg.create st).rank]? = some queue ∧
      queue.length < cfg.commandQueueSize ∧
      s' = { s with queues := s.queues.modify (cfg.create st).rank (· ++ [cfg.create st]),
                    subTransactionQueue := before ++ after } := by
  obtain ⟨found, hfound, h⟩ := eq_ok_of_bind h
  cases found with
  | none =>
    cases h
    exact .inl rfl
  | some =>
    cases h
    obtain ⟨before, st, after, queue, hsts, hleft, hcmd, hqueue, hlt⟩ := firstAccepted_eq_ok hfound
    rw [hcmd] at hqueue
    exact .inr ⟨before, st, after, queue, hsts, hqueue, hlt, by rw [hcmd, hleft]⟩

/-- `parseTop` accepts the first request of the port when its sub-transactions fit. -/
theorem parseTop_eq_ok (h : s.parseTop = .ok (progress, s')) :
    s' = s ∨ ∃ msg internalAddress sts, s.topPort.peek = some msg ∧ cfg.convert msg.address = .ok internalAddress ∧
      split cfg.log2AccessUnitSize s.accepted.length msg = .ok sts ∧
      s.subTransactionQueue.length + sts.length ≤ cfg.transactionQueueSize ∧
      s' = { s with
        subTransactionQueue := s.subTransactionQueue ++ sts
        inflightTransactions := s.inflightTransactions ++ [⟨s.accepted.length, msg, internalAddress, sts⟩]
        topPort := s.topPort.pop
        accepted := s.accepted ++ [msg] } := by
  unfold parseTop at h
  cases hpeek : s.topPort.peek with
  | none =>
    rw [hpeek] at h
    cases h
    exact .inl rfl
  | some msg =>
    rw [hpeek] at h
    obtain ⟨internalAddress, haddress, h⟩ := eq_ok_of_bind h
    obtain ⟨sts, hsts, h⟩ := eq_ok_of_bind h
    split at h
    · cases h
    split at h
    · cases h
      exact .inl rfl
    · next hfits =>
      cases h
      exact .inr ⟨msg, internalAddress, sts, rfl, haddress, hsts, by omega, rfl⟩

/-- The response to a request. -/
def IsAnswer (req : AccessReq) (rsp : AccessRsp Bytes) : Prop := rsp.respondTo = req.id ∧ rsp.dst = req.src

theorem finalizeTransaction_eq_ok {t : Transaction} {taken : Bool} (h : s.finalizeTransaction t taken = .ok s') :
    ∃ storage rsp, IsAnswer t.req rsp ∧
      s' = { s with storage, responses := if taken then s.responses ++ [(t.place, rsp)] else s.responses } := by
  unfold finalizeTransaction at h
  cases hreq : t.req with
  | write w =>
    rw [hreq] at h
    obtain ⟨storage, -, h⟩ := eq_ok_of_bind h
    exact ⟨storage, .writeDone { dst := w.src, respondTo := w.id }, ⟨rfl, rfl⟩, (Except.ok.inj h).symm⟩
  | read r =>
    rw [hreq] at h
    obtain ⟨data, -, h⟩ := eq_ok_of_bind h
    exact ⟨s.storage, .dataReady { dst := r.src, respondTo := r.id, data }, ⟨rfl, rfl⟩, (Except.ok.inj h).symm⟩

/-- At most one transaction leaves, and it is completed. -/
def Leaves (s s' : MemController cfg) : Prop :=
  ∃ before t after rsp storage, s.inflightTransactions = before ++ t :: after ∧ t.isCompleted s.completed = true ∧
    IsAnswer t.req rsp ∧
    s' = { s with storage, inflightTransactions := before ++ after, responses := s.responses ++ [(t.place, rsp)] }

theorem respondLoop_eq_ok {ts left : List Transaction} {answers : List Bool} {done : Bool}
    (h : respondLoop ts answers s = .ok (done, left, s')) :
    ∃ storage, (left = ts ∧ s' = { s with storage }) ∨
      ∃ before t after rsp, ts = before ++ t :: after ∧ left = before ++ after ∧ t.isCompleted s.completed = true ∧
      IsAnswer t.req rsp ∧
        s' = { s with storage, responses := s.responses ++ [(t.place, rsp)] } := by
  induction ts generalizing answers left done s with
  | nil =>
    cases h
    exact ⟨s'.storage, .inl ⟨rfl, rfl⟩⟩
  | cons t _ ih =>
    unfold respondLoop at h
    split at h
    · next hcompleted =>
      obtain ⟨_, hu, h⟩ := eq_ok_of_bind h
      obtain ⟨storage, rsp, hrsp, rfl⟩ := finalizeTransaction_eq_ok hu
      split at h
      · cases h
        exact ⟨storage, .inr ⟨[], t, _, rsp, rfl, rfl, hcompleted, hrsp, rfl⟩⟩
      · obtain ⟨⟨done', left', v⟩, hv, h⟩ := eq_ok_of_bind h
        cases h
        obtain ⟨storage', ⟨rfl, rfl⟩ | ⟨before, t', after, rsp', rfl, rfl, hcompleted', hrsp', rfl⟩⟩ := ih hv
        · exact ⟨storage', .inl ⟨rfl, rfl⟩⟩
        · exact ⟨storage', .inr ⟨t :: before, t', after, rsp', rfl, rfl, hcompleted', hrsp', rfl⟩⟩
    · obtain ⟨⟨_, _, _⟩, hv, h⟩ := eq_ok_of_bind h
      cases h
      obtain ⟨storage', ⟨rfl, rfl⟩ | ⟨before, t', after, rsp', rfl, rfl, hcompleted', hrsp', rfl⟩⟩ := ih hv
      · exact ⟨storage', .inl ⟨rfl, rfl⟩⟩
      · exact ⟨storage', .inr ⟨t :: before, t', after, rsp', rfl, rfl, hcompleted', hrsp', rfl⟩⟩

theorem respond_eq_ok {answers : List Bool} (h : s.respond answers = .ok (progress, s')) :
    (∃ storage, s' = { s with storage }) ∨ s.Leaves s' := by
  obtain ⟨⟨_, _, _⟩, ht, h⟩ := eq_ok_of_bind h
  cases h
  obtain ⟨storage, ⟨rfl, rfl⟩ | ⟨before, t', after, rsp, hts, rfl, hcompleted, hrsp, rfl⟩⟩ := respondLoop_eq_ok ht
  · exact .inl ⟨storage, rfl⟩
  · exact .inr ⟨before, t', after, rsp, storage, hts, hcompleted, hrsp, rfl⟩

theorem tick_eq_ok {first second : List Bool} (h : s.tick first second = .ok (progress, s')) :
    ∃ a b c d, (∃ p, s.respond first = .ok (p, a)) ∧ (∃ p, a.respond second = .ok (p, b)) ∧
    (∃ p, b.channelTick.2.issue = .ok (p, c)) ∧
      (∃ p, c.subTransQueueTick = .ok (p, d)) ∧ ∃ p, d.parseTop = .ok (p, s') := by
  obtain ⟨⟨_, _⟩, ht, h⟩ := eq_ok_of_bind h
  obtain ⟨⟨p, c⟩, hc, h⟩ := eq_ok_of_bind h
  obtain ⟨⟨q, d⟩, hd, h⟩ := eq_ok_of_bind h
  obtain ⟨⟨r, _⟩, hu, h⟩ := eq_ok_of_bind h
  cases h
  obtain ⟨⟨v, a⟩, ha, ht⟩ := eq_ok_of_bind ht
  obtain ⟨⟨w, b⟩, hb, ht⟩ := eq_ok_of_bind ht
  cases ht
  exact ⟨a, b, c, d, ⟨v, ha⟩, ⟨w, hb⟩, ⟨p, hc⟩, ⟨q, hd⟩, r, hu⟩

end Akita.Dram.MemController
