import Akita.Pipelining
import Akita.Stages
import Akita.Mem.Cache.MSHR
import Akita.Mem.Cache.Protocol

/-!
# The write-back cache: data model

`writeback.Cache` as its builder makes it, with one bank. A transaction is passed from stage to stage by value. What the
Go code compares by pointer is compared by `id`, and the fields another holder of the pointer reads (the request in an
MSHR entry or in `inFlightTransactions`, the eviction in the write buffer's lists) are not assigned after the copy.

Slices that two owners share are numbers of arrays in `Slices`: the data of an eviction may also be the data of an
MSHR entry and of messages, and the dirty mask of an eviction may also be the mask of a block.
-/

namespace Akita.WriteBack
open Sim Pipelining Mem Mem.Cache Function

/-- The parameters of `Builder`. -/
structure Config where
  log2BlockSize : Nat
  byteSize : Nat
  wayAssociativity : Nat
  numReqPerCycle : Nat
  numMSHREntry : Nat
  writeBufferCapacity : Nat
  maxInflightFetch : Nat
  maxInflightEviction : Nat
  dirLatency : Nat
  bankLatency : Nat
  addrConverter : Option InterleavingConverter
  lowModuleFinder : Nat → PortID

namespace Config

def blockSize (cfg : Config) : Nat := 2 ^ cfg.log2BlockSize

def numSets (cfg : Config) : Nat := cfg.byteSize / (cfg.wayAssociativity * cfg.blockSize)

def geometry (cfg : Config) : Geometry where
  numSets := cfg.numSets
  numWays := cfg.wayAssociativity
  blockSize := cfg.blockSize
  addrConverter := cfg.addrConverter

/-- `laneWidth` of `buildBankStages`. -/
def laneWidth (cfg : Config) : Nat := if cfg.numReqPerCycle = 1 then 2 else cfg.numReqPerCycle

end Config

variable (cfg : Config)

inductive CacheState
  | running | preFlushing | flushing | paused
deriving DecidableEq

inductive Action
  | actionInvalid
  | bankReadHit
  | bankWriteHit
  | bankEvict
  | bankEvictAndWrite
  | bankEvictAndFetch
  | bankWriteFetched
  | writeBufferFetch
  | writeBufferEvictAndFetch
  | writeBufferEvictAndWrite
  | writeBufferFlush
deriving DecidableEq

abbrev ArrayRef := Nat

/-- A slice of an array: `arr[off : off+len]`. -/
structure Slice where
  arr : ArrayRef
  off : Nat
  len : Nat
deriving DecidableEq

/-- The arrays behind the slices: `bytes` for data, `masks` for dirty masks. -/
structure Slices where
  bytes : ArrayRef → Bytes := fun _ => []
  masks : ArrayRef → Mask := fun _ => []
  next : ArrayRef := 0

namespace Slices

def newBytes (s : Slices) (d : Bytes) : ArrayRef × Slices :=
  (s.next, { s with bytes := update s.bytes s.next d, next := s.next + 1 })

def newMask (s : Slices) (m : Mask) : ArrayRef × Slices :=
  (s.next, { s with masks := update s.masks s.next m, next := s.next + 1 })

def setBytes (s : Slices) (r : ArrayRef) (d : Bytes) : Slices := { s with bytes := update s.bytes r d }

def setMask (s : Slices) (r : ArrayRef) (m : Mask) : Slices := { s with masks := update s.masks r m }

/-- The bytes a slice shows. -/
def view (s : Slices) (x : Slice) : Bytes := ((s.bytes x.arr).drop x.off).take x.len

end Slices

/-- A write-back: its data and mask are the arrays of the eviction. -/
abbrev EvictionReq := WriteReq ArrayRef ArrayRef

/-- A request to the lower module. -/
inductive BottomReq
  | read (r : ReadReq)
  | write (w : EvictionReq)
deriving DecidableEq

namespace BottomReq

def id : BottomReq → MsgID
  | read r => r.id
  | write w => w.id

def pid : BottomReq → PID
  | read r => r.pid
  | write w => w.pid

def address : BottomReq → Nat
  | read r => r.address
  | write w => w.address

end BottomReq

/-- The copy of the block that `updateTransForEviction` makes. -/
structure Victim where
  pid : PID
  tag : Nat
  cacheAddress : Nat
  dirtyMask : Option ArrayRef
deriving DecidableEq

structure Transaction where
  id : Nat
  action : Action := .actionInvalid
  read : Option ReadReq := none
  write : Option (WriteReq Bytes Mask) := none
  flush : Option FlushReq := none
  block : Option BlockRef := none
  victim : Option Victim := none
  fetchPID : PID := 0
  fetchAddress : Nat := 0
  fetchedData : Option ArrayRef := none
  fetchReadReq : Option ReadReq := none
  evictingPID : PID := 0
  evictingAddr : Nat := 0
  evictingData : Option ArrayRef := none
  evictingDirtyMask : Option ArrayRef := none
  evictionWriteReq : Option EvictionReq := none
  mshrEntry : Option EntryRef := none
deriving DecidableEq

namespace Transaction

def accessReq (t : Transaction) : Option AccessReq :=
  match t.read, t.write with
  | some r, _ => some (.read r)
  | none, some w => some (.write w)
  | none, none => none

/-- The transaction `topParser` makes of a request. -/
def ofReq (id : Nat) : AccessReq → Transaction
  | .read r => { id, read := some r }
  | .write w => { id, write := some w }

@[simp] theorem accessReq_ofReq (id : Nat) (req : AccessReq) : (ofReq id req).accessReq = some req := by
  cases req <;> rfl

@[simp] theorem id_ofReq (id : Nat) (req : AccessReq) : (ofReq id req).id = id := by cases req <;> rfl

end Transaction

/-- What the task tracer and the ports' send hooks record. -/
inductive Event
  | reqReceive (req : AccessReq)
  | reqComplete (req : AccessReq)
  | topSend (rsp : AccessRsp Bytes)
  | flushReceive (req : FlushReq)
  | flushComplete (req : FlushReq)
  | reqInitiate (req : BottomReq)
  | bottomSend (req : BottomReq) (payload : Option (Bytes × Option Mask))
deriving DecidableEq

/-- `bankStage` with its two input buffers. -/
structure BankStage where
  pipeline : Pipeline cfg.laneWidth cfg.bankLatency Transaction := {}
  postPipelineBuf : Buffer cfg.laneWidth Transaction := {}
  inflightTransCount : Int := 0
  downwardInflightTransCount : Int := 0

/-- `writeBufferStage`. -/
structure WriteBuffer where
  pendingEvictions : List Transaction := []
  inflightFetch : List Transaction := []
  inflightEviction : List Transaction := []

/-- `Cache`. The record has the fields of the stages too. -/
structure Cache where
  topPort : Port (cfg.numReqPerCycle * 2) AccessReq (AccessRsp Bytes) := {}
  bottomPort : Port (cfg.numReqPerCycle * 2) (AccessRsp Bytes) BottomReq := {}
  controlPort : Port (cfg.numReqPerCycle * 2) ControlReq ControlRsp := {}
  dirStageBuffer : Buffer cfg.numReqPerCycle Transaction := {}
  dirToBankBuffer : Buffer cfg.numReqPerCycle Transaction := {}
  writeBufferToBankBuffer : Buffer cfg.numReqPerCycle Transaction := {}
  mshrStageBuffer : Buffer cfg.numReqPerCycle EntryRef := {}
  writeBufferBuffer : Buffer cfg.numReqPerCycle Transaction := {}
  topSender : BufferedSender (cfg.numReqPerCycle * 4) (AccessRsp Slice) := {}
  bottomSender : BufferedSender (cfg.numReqPerCycle * 4) BottomReq := {}
  controlPortSender : BufferedSender (cfg.numReqPerCycle * 4) ControlRsp := {}
  dirPipeline : Pipeline cfg.numReqPerCycle cfg.dirLatency Transaction := {}
  dirBuf : Buffer cfg.numReqPerCycle Transaction := {}
  bank : BankStage cfg := {}
  writeBuffer : WriteBuffer := {}
  processingMSHREntry : Option EntryRef := none
  blockToEvict : List BlockRef := []
  processingFlush : Option FlushReq := none
  storage : Storage := Storage.new cfg.byteSize
  directory : Directory cfg.geometry := Directory.new cfg.geometry
  mshr : MSHR cfg.numMSHREntry Transaction := {}
  state : CacheState := .running
  inFlightTransactions : List Transaction := []
  evictingList : Nat → Bool := fun _ => false
  slices : Slices := {}
  nextID : Nat := 1
  log : List Event := []

variable {cfg : Config}

/-- The result of a stage: whether it made progress, and the cache it leaves. -/
abbrev Result (cfg : Config) := Except String (Bool × Cache cfg)

namespace Cache

def cacheLineID (_ : Cache cfg) (addr : Nat) : Nat := (getCacheLineID addr cfg.log2BlockSize).1

def record (c : Cache cfg) (e : Event) : Cache cfg := { c with log := c.log ++ [e] }

/-- `removeTransaction` of the bank and MSHR stages. -/
def removeTransaction (c : Cache cfg) (t : Transaction) : Except String (Cache cfg) :=
  if c.inFlightTransactions.any (·.id == t.id) then
    .ok { c with inFlightTransactions := c.inFlightTransactions.eraseP (·.id == t.id) }
  else .error "transaction not found"

/-- `findTransaction` of the MSHR stage. -/
def findTransaction (c : Cache cfg) (t : Transaction) : Bool := c.inFlightTransactions.any (·.id == t.id)

end Cache

/-- Dereferencing a nil pointer. -/
def deref {α : Type} (o : Option α) : Except String α :=
  match o with
  | some a => .ok a
  | none => .error "invalid memory address or nil pointer dereference"

end Akita.WriteBack
