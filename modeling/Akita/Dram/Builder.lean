import Akita.Dram.Signal

/-!
# The DRAM builder

`dram.Builder`: the timing tables, the cycles of the commands and the address mapping of a controller, from its parameters.
-/

namespace Akita.Dram

inductive Protocol
  | ddr3
  | ddr4
  | gddr5
  | gddr5x
  | gddr6
  | lpddr
  | lpddr3
  | lpddr4
  | hbm
  | hbm2
  | hmc
deriving DecidableEq

namespace Protocol

def isGDDR (p : Protocol) : Bool := p = gddr5 || p = gddr5x || p = gddr6

def isHBM (p : Protocol) : Bool := p = hbm || p = hbm2

end Protocol

abbrev TimeTable := CommandKind → List (CommandKind × Int)

structure Timing where
  sameBank : TimeTable
  otherBanksInBankGroup : TimeTable
  sameRank : TimeTable
  otherRanks : TimeTable

/-- What a `MemController` is built from. -/
structure Config where
  log2AccessUnitSize : Nat
  transactionQueueSize : Nat
  commandQueueSize : Nat
  numChannel : Nat
  numRank : Nat
  numBankGroup : Nat
  numBank : Nat
  timing : Timing
  cmdCycles : CommandKind → Int
  /-- `Map` of the address mapper. -/
  map : Nat → Location
  /-- The kind of command that the command creator creates for a read or a write. -/
  createKind : Bool → CommandKind
  createKind_rw : ∀ isRead, (createKind isRead).isReadOrWrite = true
  addrConverter : Option (Nat → Except String Nat) := none
  topBufSize : Nat := 1024

/-- The parameters, with their defaults. -/
structure Builder where
  protocol : Protocol := .ddr3
  transactionQueueSize : Nat := 32
  commandQueueSize : Nat := 8
  busWidth : Nat := 64
  burstLength : Nat := 8
  numChannel : Nat := 1
  numRank : Nat := 2
  numBankGroup : Nat := 1
  numBank : Nat := 8
  numRow : Nat := 32768
  numCol : Nat := 1024
  tAL : Int := 0
  tCL : Int := 11
  tCWL : Int := 8
  tRCD : Int := 11
  tRP : Int := 11
  tRAS : Int := 28
  tCCDL : Int := 4
  tCCDS : Int := 4
  tRTRS : Int := 1
  tRTP : Int := 6
  tWTRL : Int := 6
  tWTRS : Int := 6
  tWR : Int := 12
  tPPD : Int := 0
  tRRDL : Int := 5
  tRRDS : Int := 5
  tRCDRD : Int := 24
  tRCDWR : Int := 20
  tREFI : Int := 6240
  tRFC : Int := 208
  tRFCb : Int := 1950
  tCKESR : Int := 5
  tXS : Int := 216
  addrConverter : Option (Nat → Except String Nat) := none

/-- `log2`: the position of the highest bit. -/
def log2 (n : Nat) : Nat := (List.range 64).foldl (fun onePos i => if n.testBit i then i else onePos) 0

namespace Builder

/-- `calculateBurstCycle`. -/
def burstCycle (b : Builder) : Int :=
  match b.protocol with
  | .gddr5 => ((b.burstLength / 4 : Nat) : Int)
  | .gddr5x => ((b.burstLength / 8 : Nat) : Int)
  | .gddr6 => ((b.burstLength / 16 : Nat) : Int)
  | _ => ((b.burstLength / 2 : Nat) : Int)

def tRL (b : Builder) : Int := b.tAL + b.tCL

def tWL (b : Builder) : Int := b.tAL + b.tCWL

def readDelay (b : Builder) : Int := b.tRL + b.burstCycle

def writeDelay (b : Builder) : Int := b.tRL + b.burstCycle

def tRC (b : Builder) : Int := b.tRAS + b.tRP

def readToReadL (b : Builder) : Int := if b.numBankGroup = 1 then max b.burstCycle b.tCCDS else max b.burstCycle b.tCCDL

def readToReadS (b : Builder) : Int := max b.burstCycle b.tCCDS

def readToReadO (b : Builder) : Int := b.burstCycle + b.tRTRS

def readToWrite (b : Builder) : Int := b.tRL + b.burstCycle - b.tWL + b.tRTRS

def readToWriteO (b : Builder) : Int := b.readDelay + b.burstCycle + b.tRTRS - b.writeDelay

def readToPrecharge (b : Builder) : Int := b.tAL + b.tRTP

def readpToAct (b : Builder) : Int := b.tAL + b.burstCycle + b.tRTP + b.tRP

def writeToReadL (b : Builder) : Int := if b.numBankGroup = 1 then b.writeDelay + b.tWTRS else b.writeDelay + b.tWTRL

def writeToReadS (b : Builder) : Int := b.writeDelay + b.tWTRS

def writeToReadO (b : Builder) : Int := b.writeDelay + b.burstCycle + b.tRTRS - b.readDelay

def writeToWriteL (b : Builder) : Int := if b.numBankGroup = 1 then max b.burstCycle b.tCCDS else max b.burstCycle b.tCCDL

def writeToWriteS (b : Builder) : Int := max b.burstCycle b.tCCDS

def writeToWriteO (b : Builder) : Int := b.burstCycle

def writeToPrecharge (b : Builder) : Int := b.tWL + b.burstCycle + b.tWR

def prechargeToActivate (b : Builder) : Int := b.tRP

def readToActivate (b : Builder) : Int := b.readToPrecharge + b.prechargeToActivate

def writeToActivate (b : Builder) : Int := b.writeToPrecharge + b.prechargeToActivate

def activateToActivateL (b : Builder) : Int := if b.numBankGroup = 1 then b.tRRDS else b.tRRDL

def activateToRead (b : Builder) : Int := if b.protocol.isGDDR || b.protocol.isHBM then b.tRCDRD else b.tRCD - b.tAL

def activateToWrite (b : Builder) : Int := if b.protocol.isGDDR || b.protocol.isHBM then b.tRCDWR else b.tRCD - b.tAL

/-- The entries for the four commands that move data. -/
def dataEntries (toRead toWrite : Int) : List (CommandKind × Int) :=
  [(.read, toRead), (.write, toWrite), (.readPrecharge, toRead), (.writePrecharge, toWrite)]

/-- The entries for the commands that need a closed bank. -/
def closedEntries (toActivate toOthers : Int) : List (CommandKind × Int) :=
  [(.activate, toActivate), (.refresh, toOthers), (.refreshBank, toOthers), (.sRefEnter, toOthers)]

def sameBank (b : Builder) : TimeTable
  | .read => dataEntries b.readToReadL b.readToWrite ++ [(.precharge, b.readToPrecharge)]
  | .write => dataEntries b.writeToReadL b.writeToWriteL ++ [(.precharge, b.writeToPrecharge)]
  | .readPrecharge => closedEntries b.readpToAct b.readToActivate
  | .writePrecharge => closedEntries b.writeToActivate b.writeToActivate
  | .activate => (.activate, b.tRC) :: dataEntries b.activateToRead b.activateToWrite ++ [(.precharge, b.tRAS)]
  | .precharge => closedEntries b.prechargeToActivate b.prechargeToActivate
  | _ => []

def otherBanksInBankGroup (b : Builder) : TimeTable
  | .read | .readPrecharge => dataEntries b.readToReadL b.readToWrite
  | .write | .writePrecharge => dataEntries b.writeToReadL b.writeToWriteL
  | .activate => [(.activate, b.activateToActivateL), (.refreshBank, b.tRC)]
  | .precharge => if b.protocol.isGDDR || b.protocol = .lpddr4 then [(.precharge, b.tPPD)] else []
  | .refreshBank => [(.activate, b.tRFC), (.refreshBank, b.tREFI)]
  | _ => []

def sameRank (b : Builder) : TimeTable
  | .read | .readPrecharge => dataEntries b.readToReadS b.readToWrite
  | .write | .writePrecharge => dataEntries b.writeToReadS b.writeToWriteS
  | .activate => [(.activate, b.tRRDS), (.refreshBank, b.tRC)]
  | .precharge => if b.protocol.isGDDR || b.protocol = .lpddr4 then [(.precharge, b.tPPD)] else []
  | .refreshBank => [(.activate, b.tRFC), (.refreshBank, b.tREFI)]
  | .refresh => [(.activate, b.tRFC), (.refresh, b.tRFC), (.sRefEnter, b.tRFC)]
  | .sRefEnter => [(.sRefExit, b.tCKESR)]
  | .sRefExit => closedEntries b.tXS b.tXS

def otherRanks (b : Builder) : TimeTable
  | .read | .readPrecharge => dataEntries b.readToReadO b.readToWriteO
  | .write | .writePrecharge => dataEntries b.writeToReadO b.writeToWriteO
  | _ => []

def generateTiming (b : Builder) : Timing where
  sameBank := b.sameBank
  otherBanksInBankGroup := b.otherBanksInBankGroup
  sameRank := b.sameRank
  otherRanks := b.otherRanks

/-- The cycles of an activation. -/
def activateCycles (b : Builder) : Int := if b.protocol.isGDDR || b.protocol.isHBM then b.tRCDRD - b.tAL else b.tRCD - b.tAL

def cmdCycles (b : Builder) : CommandKind → Int
  | .read => b.readDelay
  | .write => b.writeDelay
  | .readPrecharge | .writePrecharge | .precharge => b.tRP
  | .activate => b.activateCycles
  | .refreshBank | .refresh | .sRefEnter | .sRefExit => 1

/-- `DefaultMapper.Map` with the default bit order, from low to high: column, bank group, bank, rank, channel, row. A `numCol`
below the burst length, for which the bits of the code wrap, is left to `AddressMapping`. -/
def map (b : Builder) (addr : Nat) : Location :=
  let accessUnitBit := log2 (b.busWidth / 8 * b.burstLength)
  let colHiBit := log2 b.numCol - log2 b.burstLength
  let bankGroupPos := accessUnitBit + colHiBit
  let bankPos := bankGroupPos + log2 b.numBankGroup
  let rankPos := bankPos + log2 b.numBank
  let channelPos := rankPos + log2 b.numRank
  let rowPos := channelPos + log2 b.numChannel
  { column := addr / 2 ^ accessUnitBit % 2 ^ colHiBit
    bankGroup := addr / 2 ^ bankGroupPos % 2 ^ log2 b.numBankGroup
    bank := addr / 2 ^ bankPos % 2 ^ log2 b.numBank
    rank := addr / 2 ^ rankPos % 2 ^ log2 b.numRank
    channel := addr / 2 ^ channelPos % 2 ^ log2 b.numChannel
    row := addr / 2 ^ rowPos % 2 ^ log2 b.numRow }

/-- `ClosePageCommandCreator.Create`. -/
def closePageKind (isRead : Bool) : CommandKind := if isRead then .readPrecharge else .writePrecharge

def build (b : Builder) : Config where
  log2AccessUnitSize := log2 (b.busWidth / 8 * b.burstLength)
  transactionQueueSize := b.transactionQueueSize
  commandQueueSize := b.commandQueueSize
  numChannel := b.numChannel
  numRank := b.numRank
  numBankGroup := b.numBankGroup
  numBank := b.numBank
  timing := b.generateTiming
  cmdCycles := b.cmdCycles
  map := b.map
  createKind := closePageKind
  createKind_rw isRead := by cases isRead <;> rfl
  addrConverter := b.addrConverter

end Builder

end Akita.Dram
