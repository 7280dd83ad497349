import Akita.Mem.Protocol

/-!
# Signals of the DRAM controller

Commands, transactions and sub-transactions, and how a request is split.

A sub-transaction is an object that its transaction, its command and the bank share. Here it is named by the place of its
request among the accepted ones and by its index (`SubTransaction.id`), and its `Completed` flag is kept beside it, as a list
of completed names.
-/

namespace Akita.Dram
open Mem

structure Location where
  channel : Nat
  rank : Nat
  bankGroup : Nat
  bank : Nat
  row : Nat
  column : Nat
deriving DecidableEq

inductive CommandKind
  | read
  | readPrecharge
  | write
  | writePrecharge
  | activate
  | precharge
  | refreshBank
  | refresh
  | sRefEnter
  | sRefExit
deriving DecidableEq

namespace CommandKind

def isRead (k : CommandKind) : Bool := k = read || k = readPrecharge

def isWrite (k : CommandKind) : Bool := k = write || k = writePrecharge

def isReadOrWrite (k : CommandKind) : Bool := k.isRead || k.isWrite

end CommandKind

abbrev SubTransID := Nat × Nat

structure SubTransaction where
  id : SubTransID
  isRead : Bool
  address : Nat
deriving DecidableEq

structure Command extends Location where
  kind : CommandKind
  cycleLeft : Int := 0
  subTrans : SubTransaction
deriving DecidableEq

structure Transaction where
  place : Nat
  req : AccessReq
  internalAddress : Nat
  subTransactions : List SubTransaction
deriving DecidableEq

def Transaction.isCompleted (t : Transaction) (completed : List SubTransID) : Bool :=
  t.subTransactions.all fun st => completed.contains st.id

def isReadReq : AccessReq → Bool
  | .read _ => true
  | .write _ => false

/-! ## The splitter -/

/-- The loop of `align`, from `currAddr` on. The addresses are 64-bit: past the last unit `currAddr` wraps to 0, which is
still before `endAddr`, and the loop does not end. -/
def alignLoop (log2AccessUnitSize endAddr currAddr size : Nat) : Except String Nat :=
  if currAddr < endAddr then
    if currAddr + 2 ^ log2AccessUnitSize < 2 ^ 64 then
      alignLoop log2AccessUnitSize endAddr (currAddr + 2 ^ log2AccessUnitSize) (size + 2 ^ log2AccessUnitSize)
    else .error "the loop does not end"
  else .ok size
termination_by endAddr - currAddr
decreasing_by
  have := Nat.two_pow_pos log2AccessUnitSize
  omega

/-- The first unit of the request and the bytes of its units. -/
def align (log2AccessUnitSize address byteSize : Nat) : Except String (Nat × Nat) := do
  let unitSize := 2 ^ log2AccessUnitSize
  let endAddr := (address + byteSize) % 2 ^ 64
  let addr := address / unitSize * unitSize
  let size ← alignLoop log2AccessUnitSize endAddr addr 0
  return (addr, size)

/-- The loop of `Split`. -/
def splitLoop (log2AccessUnitSize endAddr addr : Nat) : List Nat :=
  if addr < endAddr then addr :: splitLoop log2AccessUnitSize endAddr (addr + 2 ^ log2AccessUnitSize) else []
termination_by endAddr - addr
decreasing_by
  have := Nat.two_pow_pos log2AccessUnitSize
  omega

/-- The addresses of the sub-transactions. -/
def splitAddresses (log2AccessUnitSize : Nat) (req : AccessReq) : Except String (List Nat) := do
  let (addr, size) ← align log2AccessUnitSize req.address req.byteSize
  return splitLoop log2AccessUnitSize (addr + size) addr

/-- `Split`, for the request accepted at a place. -/
def split (log2AccessUnitSize place : Nat) (req : AccessReq) : Except String (List SubTransaction) := do
  let addresses ← splitAddresses log2AccessUnitSize req
  return addresses.mapIdx fun i address => { id := (place, i), isRead := isReadReq req, address }

end Akita.Dram
