import Akita.Dram.Bank
import Akita.Mem.Service
import Akita.Mem.Storage

/-!
# The DRAM controller

`dram.MemController` with its queues and the channel. A run is any order of deliveries to the top port and ticks; in a tick
the connection takes or rejects each response (`Turn`).

The state has a history beside the fields of the code: the requests accepted and the responses sent, each with the place of
its request.
-/

namespace Akita.Dram
open Mem Sim

structure BankID where
  rank : Nat
  bankGroup : Nat
  bank : Nat
deriving DecidableEq

def Location.bankID (l : Location) : BankID := ⟨l.rank, l.bankGroup, l.bank⟩

namespace Config

/-- All banks of the channel. -/
def bankIDs (cfg : Config) : List BankID :=
  (List.range cfg.numRank).flatMap
    fun i => (List.range cfg.numBankGroup).flatMap fun j => (List.range cfg.numBank).map fun k => ⟨i, j, k⟩

def convert (cfg : Config) (address : Nat) : Except String Nat :=
  match cfg.addrConverter with
  | some converter => converter address
  | none => .ok address

/-- `Create` of the command creator. -/
def create (cfg : Config) (st : SubTransaction) : Command :=
  { toLocation := cfg.map st.address, kind := cfg.createKind st.isRead, subTrans := st }

/-- The table for a bank after a command. -/
def timingTable (cfg : Config) (cmd : Command) (id : BankID) : TimeTable :=
  if cmd.rank = id.rank then
    if cmd.bankGroup = id.bankGroup then
      if cmd.bank = id.bank then cfg.timing.sameBank else cfg.timing.otherBanksInBankGroup
    else cfg.timing.sameRank
  else cfg.timing.otherRanks

end Config

structure MemController (cfg : Config) where
  topPort : Buffer cfg.topBufSize AccessReq := {}
  storage : Storage
  subTransactionQueue : List SubTransaction := []
  queues : List (List Command) := List.replicate (cfg.numChannel * cfg.numRank) []
  nextQueueIndex : Nat := 0
  banks : BankID → Bank := fun _ => {}
  inflightTransactions : List Transaction := []
  completed : List SubTransID := []
  accepted : List AccessReq := []
  responses : List (Nat × AccessRsp Bytes) := []

/-- A request is delivered, or the controller ticks, with the answers of the connection to the `Send`s of the two calls of
`respond`. -/
inductive Turn
  | deliver (req : AccessReq)
  | tick (first second : List Bool)

namespace MemController

variable {cfg : Config}

/-! ## The channel -/

def getBank (s : MemController cfg) (l : Location) : Except String Bank :=
  if l.rank < cfg.numRank ∧ l.bankGroup < cfg.numBankGroup ∧ l.bank < cfg.numBank then .ok (s.banks l.bankID)
  else .error "index out of range"

/-- `Tick` of the channel. The banks are independent of one another. -/
def channelTick (s : MemController cfg) : Bool × MemController cfg :=
  (cfg.bankIDs.any fun id => (s.banks id).tick.1,
    { s with
      banks := fun id => if id ∈ cfg.bankIDs then (s.banks id).tick.2.2 else s.banks id
      completed := s.completed ++ cfg.bankIDs.filterMap fun id => (s.banks id).tick.2.1 })

def startCommand (s : MemController cfg) (cmd : Command) : Except String (MemController cfg) := do
  let bank ← s.getBank cmd.toLocation
  let bank ← bank.startCommand cfg.cmdCycles cmd
  return { s with banks := Function.update s.banks cmd.bankID bank }

/-- The kinds that `UpdateTiming` handles. -/
def updatesTiming : CommandKind → Bool
  | .activate | .read | .readPrecharge | .write | .writePrecharge | .precharge | .refreshBank => true
  | _ => false

def updateTiming (s : MemController cfg) (cmd : Command) : MemController cfg :=
  if updatesTiming cmd.kind then
    { s with banks := fun id =>
        if id ∈ cfg.bankIDs then (cfg.timingTable cmd id cmd.kind).foldl Bank.updateTiming (s.banks id) else s.banks id }
  else s

/-! ## The command queues -/

/-- `getFirstReadyInQueue`, with what is left of the queue. -/
def getFirstReadyInQueue (s : MemController cfg) : List Command → Except String (Option (Command × List Command))
  | [] => .ok none
  | cmd :: rest => do
    let bank ← s.getBank cmd.toLocation
    match ← bank.getReadyCommand cmd with
    | some readyCmd => return some (readyCmd, if cmd.kind = readyCmd.kind then rest else cmd :: rest)
    | none =>
      let found ← s.getFirstReadyInQueue rest
      return found.map fun r => (r.1, cmd :: r.2)

/-- The loop of `GetCommandToIssue`. -/
def getCommandLoop : Nat → MemController cfg → Except String (Option Command × MemController cfg)
  | 0, s => .ok (none, s)
  | n + 1, s =>
    match s.queues[s.nextQueueIndex]? with
    | none => .error "index out of range"
    | some queue => do
      let next := (s.nextQueueIndex + 1) % s.queues.length
      match ← s.getFirstReadyInQueue queue with
      | some (readyCmd, queue) =>
        return (some readyCmd, { s with nextQueueIndex := next, queues := s.queues.set s.nextQueueIndex queue })
      | none => getCommandLoop n { s with nextQueueIndex := next }

def getCommandToIssue (s : MemController cfg) : Except String (Option Command × MemController cfg) :=
  getCommandLoop s.queues.length s

def issue (s : MemController cfg) : Except String (Bool × MemController cfg) := do
  match ← s.getCommandToIssue with
  | (none, s) => return (false, s)
  | (some cmd, s) =>
    let s ← s.startCommand cmd
    return (true, s.updateTiming cmd)

/-! ## The sub-transaction queue -/

/-- The first sub-transaction whose command can be accepted, and the others. -/
def firstAccepted (cfg : Config) (queues : List (List Command)) : List SubTransaction →
    Except String (Option (Command × List SubTransaction))
  | [] => .ok none
  | st :: rest =>
    match queues[(cfg.create st).rank]? with
    | none => .error "index out of range"
    | some queue =>
      if queue.length < cfg.commandQueueSize then .ok (some (cfg.create st, rest))
      else do
        let found ← firstAccepted cfg queues rest
        return found.map fun r => (r.1, st :: r.2)

/-- `Tick` of the sub-transaction queue. -/
def subTransQueueTick (s : MemController cfg) : Except String (Bool × MemController cfg) := do
  match ← firstAccepted cfg s.queues s.subTransactionQueue with
  | none => return (false, s)
  | some (cmd, rest) => return (true, { s with queues := s.queues.modify cmd.rank (· ++ [cmd]), subTransactionQueue := rest })

/-! ## The controller -/

def parseTop (s : MemController cfg) : Except String (Bool × MemController cfg) :=
  match s.topPort.peek with
  | none => .ok (false, s)
  | some msg => do
    let internalAddress ← cfg.convert msg.address
    let subTransactions ← split cfg.log2AccessUnitSize s.accepted.length msg
    if subTransactions.length ≥ cfg.transactionQueueSize
      then .error "queue size not large enough to handle a single transaction"
    else if s.subTransactionQueue.length + subTransactions.length > cfg.transactionQueueSize then .ok (false, s)
    else
      let trans := { place := s.accepted.length, req := msg, internalAddress, subTransactions }
      .ok (true, { s with
        subTransactionQueue := s.subTransactionQueue ++ subTransactions
        inflightTransactions := s.inflightTransactions ++ [trans]
        topPort := s.topPort.pop
        accepted := s.accepted ++ [msg] })

/-- `finalizeWriteTrans` writes the storage before it sends; `finalizeReadTrans` reads it. -/
def finalizeTransaction (s : MemController cfg) (t : Transaction) (taken : Bool) : Except String (MemController cfg) :=
  match t.req with
  | .write w => do
    let storage ← s.storage.write t.internalAddress w.data
    let rsp := .writeDone { dst := w.src, respondTo := w.id }
    return { s with storage, responses := if taken then s.responses ++ [(t.place, rsp)] else s.responses }
  | .read r => do
    let data ← s.storage.read t.internalAddress r.accessByteSize
    let rsp := .dataReady { dst := r.src, respondTo := r.id, data }
    return { s with responses := if taken then s.responses ++ [(t.place, rsp)] else s.responses }

/-- The loop of `respond` over the transactions, with those that stay in flight. -/
def respondLoop : List Transaction → List Bool → MemController cfg →
    Except String (Bool × List Transaction × MemController cfg)
  | [], _, s => .ok (false, [], s)
  | t :: ts, answers, s =>
    if t.isCompleted s.completed then do
      let taken := answers.headD true
      let s ← s.finalizeTransaction t taken
      if taken then return (true, ts, s)
      else
        let (done, left, s) ← respondLoop ts answers.tail s
        return (done, t :: left, s)
    else do
      let (done, left, s) ← respondLoop ts answers s
      return (done, t :: left, s)

def respond (s : MemController cfg) (answers : List Bool) : Except String (Bool × MemController cfg) := do
  let (done, left, s) ← respondLoop s.inflightTransactions answers s
  return (done, { s with inflightTransactions := left })

/-- The first half of `Tick`. -/
def tickBegin (s : MemController cfg) (first second : List Bool) : Except String (Bool × MemController cfg) := do
  let (p, s) ← s.respond first
  let (q, s) ← s.respond second
  let (r, s) := s.channelTick
  return (p || q || r, s)

def tick (s : MemController cfg) (first second : List Bool) : Except String (Bool × MemController cfg) := do
  let (p, s) ← s.tickBegin first second
  let (q, s) ← s.issue
  let (r, s) ← s.subTransQueueTick
  let (t, s) ← s.parseTop
  return (p || q || r || t, s)

def step (turn : Turn) (s : MemController cfg) : Except String (MemController cfg) :=
  match turn with
  | .deliver req => .ok (if s.topPort.canPush then { s with topPort := ⟨s.topPort.elements ++ [req]⟩ } else s)
  | .tick first second => do
    let (_, s) ← s.tick first second
    return s

/-- The states of the runs from a storage, with a condition on the turns. -/
inductive Reaches (ok : MemController cfg → Turn → Prop) (storage : Storage) : MemController cfg → Prop
  | start : Reaches ok storage { storage }
  | step {s s' : MemController cfg} {turn : Turn} (hs : Reaches ok storage s) (hok : ok s turn) (h : s.step turn = .ok s') :
      Reaches ok storage s'

variable {s s' : MemController cfg} {storage : Storage} {ok ok' : MemController cfg → Turn → Prop}

theorem Reaches.turns {turns : List Turn} (hs : Reaches ok storage s) (hok : ∀ t, ∀ turn ∈ turns, ok t turn)
    (h : turns.foldlM (fun s turn => s.step turn) s = .ok s') : Reaches ok storage s' :=
  of_foldlM h hs fun t turn hturn _ ht hstep => ht.step (hok t turn hturn) hstep

/-- The steps of a run, each under a check. -/
def runChecked (check : MemController cfg → Turn → Bool) (turns : List Turn) (s : MemController cfg) :
    Except String (MemController cfg) :=
  turns.foldlM (fun s turn => if check s turn then s.step turn else .error "not checked") s

theorem Reaches.run {check : MemController cfg → Turn → Bool} (hs : Reaches ok storage s)
    (hcheck : ∀ t turn, check t turn = true → ok t turn) {turns : List Turn} (h : runChecked check turns s = .ok s') :
    Reaches ok storage s' := by
  refine of_foldlM h hs fun t turn _ t' ht hstep => ?_
  split at hstep
  · next hc => exact ht.step (hcheck t turn hc) hstep
  · cases hstep

end MemController

end Akita.Dram
