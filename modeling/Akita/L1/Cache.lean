import Akita.Pipelining
import Akita.Mem.Memory
import Akita.Mem.Cache.MSHR
import Akita.Mem.Cache.Protocol

/-!
# The L1 caches: data model

`writethrough.Cache`, `writearound.Cache` and `writeevict.Cache` are one cache with a `Policy`: their code differs in what a
write does in the directory, in `GL0InvalidateReq` and in how often a tick runs two stages.

Transactions are reached through pointers. `TransRef` is such a pointer and `heap` what it points to: the transactions made
for requests (`transactions`) and those made for waves of requests (`postCoalesceTransactions`).

The dirty masks of blocks are left out: no stage reads them.
-/

namespace Akita.L1
open Sim Pipelining Mem Mem.Cache Function

inductive Policy
  | writethrough | writearound | writeevict
deriving DecidableEq

/-- The parameters of `Builder`. -/
structure Config where
  policy : Policy
  log2BlockSize : Nat
  totalByteSize : Nat
  wayAssociativity : Nat
  numMSHREntry : Nat
  numBank : Nat
  dirLatency : Nat
  bankLatency : Nat
  maxNumConcurrentTrans : Nat
  numReqPerCycle : Nat
  lowModuleFinder : Nat → PortID

namespace Config

def blockSize (cfg : Config) : Nat := 2 ^ cfg.log2BlockSize

def numSets (cfg : Config) : Nat := cfg.totalByteSize / (cfg.wayAssociativity * cfg.blockSize)

def geometry (cfg : Config) : Geometry where
  numSets := cfg.numSets
  numWays := cfg.wayAssociativity
  blockSize := cfg.blockSize

/-- `addr / blockSize * blockSize`. -/
def cacheLineID (cfg : Config) (addr : Nat) : Nat := addr / cfg.blockSize * cfg.blockSize

end Config

/-- The requests at the top port: `mem.ReadReq`, `mem.WriteReq` and `mem.GL0InvalidateReq`. -/
inductive TopReq
  | access (req : AccessReq)
  | gl0Invalidate (src : PortID) (pid : PID)
deriving DecidableEq

inductive TopRsp
  | access (rsp : AccessRsp Bytes)
  | gl0Invalidate (dst : PortID) (pid : PID)
deriving DecidableEq

abbrev TransRef := Nat

/-- `bankActionType`. -/
inductive BankAction
  | invalid | readHit | write | writeFetched
deriving DecidableEq

/-- `transaction`. Of `read` and `write` the one that is not nil is `req`. -/
structure Transaction where
  req : AccessReq
  readToBottom : Option ReadReq := none
  writeToBottom : Option (WriteReq Bytes Mask) := none
  preCoalesceTransactions : List TransRef := []
  bankAction : BankAction := .invalid
  block : Option BlockRef := none
  data : Bytes := []
  fetchAndWrite : Bool := false
  done : Bool := false
deriving DecidableEq

instance : Inhabited Transaction := ⟨{ req := .read { id := 0, src := 0, pid := 0, address := 0, accessByteSize := 0 } }⟩

/-- The steps of a task: the texts of `AddTaskStep`. -/
inductive TaskStep
  | readHit | readMiss | readMSHRHit | writeHit | writeMiss | writeMSHRHit
deriving DecidableEq

/-- What the tracer and the ports' send hooks record, with the transaction concerned, and the answers of the lower level. The
last two record the pointers and IDs in use when the cache is reset. -/
inductive Event
  | reqReceive (r : TransRef) (req : AccessReq)
  | startTask (x : TransRef) (req : AccessReq) (pre : List TransRef)
  | addTaskStep (x : TransRef) (what : TaskStep)
  | reqInitiate (x : TransRef) (req : AccessReq)
  | reqComplete (r : TransRef) (req : AccessReq) (rsp : AccessRsp Bytes)
  | served (req : AccessReq) (rsp : AccessRsp Bytes)
  | invalidated (dst : PortID)
  | flushed (req : FlushReq) (nextRef : TransRef) (nextID : MsgID)
deriving DecidableEq

variable (cfg : Config)

/-- A bank: its buffer in `bankBufs`, and the pipeline and buffer of its `bankStage`. -/
structure Bank where
  buf : Buffer cfg.numReqPerCycle TransRef := {}
  pipeline : Pipeline cfg.numReqPerCycle cfg.bankLatency TransRef := {}
  postPipelineBuf : Buffer cfg.numReqPerCycle TransRef := {}

structure Cache where
  topPort : Port cfg.numReqPerCycle TopReq TopRsp := {}
  bottomPort : Port cfg.numReqPerCycle (AccessRsp Bytes) AccessReq := {}
  controlPort : Port cfg.numReqPerCycle ControlReq ControlRsp := {}
  storage : Storage
  directory : Directory cfg.geometry
  mshr : MSHR cfg.numMSHREntry TransRef := {}
  toCoalesce : List TransRef := []
  dirBuf : Buffer cfg.numReqPerCycle TransRef := {}
  dirPipeline : Pipeline cfg.numReqPerCycle cfg.dirLatency TransRef := {}
  dirPostBuf : Buffer cfg.numReqPerCycle TransRef := {}
  banks : Nat → Bank cfg := fun _ => {}
  transactions : List TransRef := []
  postCoalesceTransactions : List TransRef := []
  currFlushReq : Option FlushReq := none
  isPaused : Bool := false
  heap : TransRef → Transaction := fun _ => default
  nextRef : TransRef := 0
  nextID : MsgID := 0
  log : List Event := []

variable {cfg : Config}

def build (cfg : Config) : Cache cfg where
  storage := Storage.new cfg.totalByteSize
  directory := Directory.new cfg.geometry

/-- The result of a stage: whether it made progress, and the cache it leaves. -/
abbrev Result (cfg : Config) := Except String (Bool × Cache cfg)

namespace Cache

variable (c : Cache cfg)

/-- An assignment to fields of a transaction. -/
def modify (r : TransRef) (f : Transaction → Transaction) : Cache cfg :=
  { c with heap := update c.heap r (f (c.heap r)) }

/-- A new transaction. -/
def alloc (t : Transaction) : TransRef × Cache cfg :=
  (c.nextRef, { c with heap := update c.heap c.nextRef t, nextRef := c.nextRef + 1 })

def modifyBank (i : Nat) (f : Bank cfg → Bank cfg) : Cache cfg :=
  { c with banks := update c.banks i (f (c.banks i)) }

def modifyBlock (b : BlockRef) (f : Block → Block) : Cache cfg := { c with directory := c.directory.modify b f }

/-- `removeTransaction` of the stages. -/
def removePostCoalesce (x : TransRef) : Cache cfg :=
  { c with postCoalesceTransactions := c.postCoalesceTransactions.erase x }

def record (e : Event) : Cache cfg := { c with log := c.log ++ [e] }

end Cache

/-- What a nil pointer leads to. -/
def nilPointer : String := "runtime error: invalid memory address or nil pointer dereference"

/-- `getBankBuf`: the number of the bank of a block. -/
def bankOf (cfg : Config) (b : BlockRef) : Except String Nat :=
  if cfg.numBank = 0 then .error "runtime error: integer divide by zero"
  else .ok ((b.setID * cfg.wayAssociativity + b.wayID) % cfg.numBank)

/-- `address - tag` of 64-bit numbers. -/
def offsetIn (address tag : Nat) : Nat := if tag ≤ address then address - tag else 2 ^ 64 - (tag - address)

/-- `data[offset : offset+len]`. -/
def slice (data : Bytes) (offset len : Nat) : Except String Bytes :=
  if offset + len ≤ data.length then .ok ((data.drop offset).take len)
  else .error "runtime error: slice bounds out of range"

end Akita.L1
