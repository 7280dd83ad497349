import Akita.WriteBack.Flow
import Mathlib.Data.Multiset.Bind

/-!
# The ledger of requests, entries and blocks

`Ledger` forgets the data: it keeps who holds which request, which MSHR entry and which block. `Ledger.Step` lists the
ways these change hands, and `Flow.Step.ledger` says that each step of the flow is one of them.

* `Flow.work` : the transactions between the directory and the end of the bank;
* `Ledger.held` : the MSHR entries in use: those in the MSHR, those whose line is on its way to the bank, those that are
  being answered;
* `Ledger.holders i` : how many hold the request with ID `i`;
* `Ledger.owners b`, `Ledger.readers b` : how many will write the block, how many will read it.
-/

namespace Akita.WriteBack
open Sim Pipelining Mem Mem.Cache
open Function (update)

variable {cfg : Config}

/-! ## Kinds of transactions -/

namespace Action

/-- The bank answers the transaction's own request. -/
def isHit : Action → Bool
  | bankReadHit | bankWriteHit | bankEvictAndWrite | writeBufferEvictAndWrite => true
  | _ => false

/-- The bank will write the transaction's own data to its block. -/
def isWrite : Action → Bool
  | bankWriteHit | bankEvictAndWrite | writeBufferEvictAndWrite => true
  | _ => false

/-- The transaction fetches the line of an MSHR entry. -/
def isFetch : Action → Bool
  | bankEvictAndFetch | writeBufferEvictAndFetch | writeBufferFetch => true
  | _ => false

end Action

namespace Transaction

/-- The transaction carries this request. -/
def Asks (t : Transaction) : AccessReq → Prop
  | .read r => t.read = some r ∧ t.write = none
  | .write w => t.read = none ∧ t.write = some w

/-- The entry whose line the transaction brings to the bank. -/
def fills (t : Transaction) : Multiset EntryRef :=
  match t.action, t.mshrEntry with
  | .bankWriteFetched, some e => {e}
  | _, _ => 0

/-- The transaction holds the request with ID `i`. -/
def holds (i : Nat) (t : Transaction) : Bool := t.action.isHit && t.id == i

/-- The transaction fetches for the entry `e`. -/
def fetchesFor (e : EntryRef) (t : Transaction) : Bool := t.action.isFetch && t.mshrEntry == some e

/-- The transaction will write its data to the block. -/
def writesTo (b : BlockRef) (t : Transaction) : Bool := t.action.isWrite && t.block == some b

/-- The transaction will read the block. -/
def readsFrom (b : BlockRef) (t : Transaction) : Bool := t.action == .bankReadHit && t.block == some b

theorem asks_ofReq (id : Nat) (req : AccessReq) : (ofReq id req).Asks req := by cases req <;> exact ⟨rfl, rfl⟩

theorem accessReq_of_asks {t : Transaction} {req : AccessReq} (h : t.Asks req) : t.accessReq = some req := by
  cases req <;> simp [accessReq, h.1, h.2]

/-- The two transactions hold the same requests, entries and blocks. -/
structure Alike (t t' : Transaction) : Prop where
  id : t'.id = t.id
  isHit : t'.action.isHit = t.action.isHit
  isWrite : t'.action.isWrite = t.action.isWrite
  isRead : t'.action = .bankReadHit ↔ t.action = .bankReadHit
  isFetch : t'.action.isFetch = t.action.isFetch
  isFill : t'.action = .bankWriteFetched ↔ t.action = .bankWriteFetched
  read : t'.read = t.read
  write : t'.write = t.write
  block : t'.block = t.block
  mshrEntry : t'.mshrEntry = t.mshrEntry
  fetchPID : t'.fetchPID = t.fetchPID
  fetchAddress : t'.fetchAddress = t.fetchAddress

/-- The transaction holds nothing. -/
structure Idle (t : Transaction) : Prop where
  isHit : t.action.isHit = false
  isFetch : t.action.isFetch = false
  isFill : t.action ≠ .bankWriteFetched

end Transaction

/-- The pointer names a block of the cache. -/
def InRange (cfg : Config) (b : BlockRef) : Prop := b.setID < cfg.numSets ∧ b.wayID < cfg.wayAssociativity

theorem inRange_of_inSet {gen addr : Nat} {b : BlockRef} (h : Flow.InSet cfg gen addr b) : InRange cfg b :=
  ⟨Directory.getSet_lt h.1, h.2.2⟩

/-- The block was made by a reset so far. -/
def Within (cfg : Config) (gen : Nat) (b : BlockRef) : Prop := b.gen ≤ gen ∧ InRange cfg b

structure Ledger (cfg : Config) where
  dir : Multiset Transaction
  work : Multiset Transaction
  mshr : MSHR cfg.numMSHREntry Transaction
  drain : List EntryRef
  inFlight : List Transaction
  nextID : Nat
  gen : Nat
  blocks : BlockRef → Block
  discarding : Bool

def Flow.work (a : Flow cfg) : Multiset Transaction := a.bank + a.toBank + ↑a.wb + ↑a.fetches

def Flow.discarding (a : Flow cfg) : Bool := a.flush.any (·.discardInflight)

def Flow.ledger (a : Flow cfg) : Ledger cfg where
  dir := a.dir
  work := a.work
  mshr := a.mshr
  drain := a.drain
  inFlight := a.inFlight
  nextID := a.nextID
  gen := a.gen
  blocks := a.blocks
  discarding := a.discarding

namespace Ledger

/-- The entries whose line is on its way to the bank. -/
def filled (L : Ledger cfg) : Multiset EntryRef := L.work.bind Transaction.fills

def held (L : Ledger cfg) : Multiset EntryRef := ↑L.mshr.entries + L.filled + ↑L.drain

/-- The entries whose line is not yet in its block. -/
def opened (L : Ledger cfg) : Multiset EntryRef := ↑L.mshr.entries + L.filled

/-- The requests of an entry with ID `i`. -/
def asking (i : Nat) (entry : MSHREntry Transaction) : Nat := entry.requests.countP (·.id == i)

def holders (L : Ledger cfg) (i : Nat) : Nat :=
  L.dir.countP (fun t => t.id = i) + L.work.countP (fun t => t.holds i = true) +
    (L.held.map fun e => asking i (L.mshr.heap e)).sum

/-- The entry's line will be written to the block. -/
def filling (b : BlockRef) (entry : MSHREntry Transaction) : Nat := if entry.block = some b then 1 else 0

def owners (L : Ledger cfg) (b : BlockRef) : Nat :=
  L.work.countP (fun t => t.writesTo b = true) + (L.opened.map fun e => filling b (L.mshr.heap e)).sum

def readers (L : Ledger cfg) (b : BlockRef) : Nat := L.work.countP fun t => t.readsFrom b = true

/-- The block is locked for one writer, for a line of a process. -/
structure Taken (blk blk' : Block) (pid : PID) (line : Nat) : Prop where
  isValid : blk'.isValid = true
  tag : blk'.tag = line
  pid : blk'.pid = pid
  readCount : blk'.readCount = blk.readCount
  isLocked : blk'.isLocked = true

/-- How requests, entries and blocks change hands. -/
inductive Step (L : Ledger cfg) : Ledger cfg → Prop
  | pass (k : Nat) (hk : L.nextID ≤ k) : Step L { L with nextID := k }
  | accept (t : Transaction) (hid : t.id = L.nextID) (hlive : L.discarding = false) :
      Step L { L with dir := t ::ₘ L.dir, inFlight := L.inFlight ++ [t], nextID := L.nextID + 1 }
  | relabel (t t' : Transaction) (w : Multiset Transaction) (hwork : L.work = t ::ₘ w) (halike : t.Alike t')
      (k : Nat) (hk : L.nextID ≤ k) : Step L { L with work := t' ::ₘ w, nextID := k }
  | drop (t : Transaction) (w : Multiset Transaction) (hwork : L.work = t ::ₘ w) (hidle : t.Idle) :
      Step L { L with work := w }
  | add (t : Transaction) (hidle : t.Idle) : Step L { L with work := t ::ₘ L.work }
  | join (t t' : Transaction) (d : Multiset Transaction) (req : AccessReq) (e : EntryRef) (hdir : L.dir = t ::ₘ d)
      (hid : t'.id = t.id) (hreq : t.accessReq = some req)
      (he : L.mshr.query req.pid (lineOf cfg req.address) = some e) (hasks : t'.Asks req) (hlegal : Legal cfg req) :
      Step L { L with
        dir := d, mshr := L.mshr.modify e fun entry => { entry with requests := entry.requests ++ [t'] } }
  | read (t t' : Transaction) (d : Multiset Transaction) (r : ReadReq) (b : BlockRef) (hdir : L.dir = t ::ₘ d)
      (hid : t'.id = t.id) (haction : t'.action = .bankReadHit) (hblock : t'.block = some b) (hread : t'.read = some r)
      (hset : Flow.InSet cfg L.gen (lineOf cfg r.address) b) (hb : Flow.Holds L.blocks b r.pid (lineOf cfg r.address))
      (hlock : (L.blocks b).isLocked = false) (hsame : t'.accessReq = t.accessReq) :
      Step L { L with
        dir := d, work := t' ::ₘ L.work,
        blocks := update L.blocks b { L.blocks b with readCount := (L.blocks b).readCount + 1 } }
  | write (t t' : Transaction) (d : Multiset Transaction) (w : TopWrite) (b : BlockRef) (blk : Block) (hdir : L.dir = t ::ₘ d)
      (hid : t'.id = t.id) (haction : t'.action.isWrite = true) (hblock : t'.block = some b) (hread : t'.read = none)
      (hwrite : t'.write = some w) (hset : Flow.InSet cfg L.gen (lineOf cfg w.address) b)
      (hidle : (L.blocks b).isLocked = false ∧ (L.blocks b).readCount ≤ 0)
      (hnone : L.mshr.query w.pid (lineOf cfg w.address) = none)
      (hb : Flow.Holds L.blocks b w.pid (lineOf cfg w.address) ∨ ∀ b', Flow.InSet cfg L.gen (lineOf cfg w.address) b' →
        ¬ Flow.Holds L.blocks b' w.pid (lineOf cfg w.address))
      (hblk : Taken (L.blocks b) blk w.pid (lineOf cfg w.address)) (hsame : t'.accessReq = t.accessReq) :
      Step L { L with dir := d, work := t' ::ₘ L.work, blocks := update L.blocks b blk }
  | opening (t t' : Transaction) (d : Multiset Transaction) (pid : PID) (line : Nat) (b : BlockRef) (blk : Block)
      (hdir : L.dir = t ::ₘ d) (hid : t'.id = t.id) (haction : t'.action.isFetch = true)
      (hentry : t'.mshrEntry = some L.mshr.nextRef) (hpid : t'.fetchPID = pid) (hline : t'.fetchAddress = line)
      (hset : Flow.InSet cfg L.gen line b) (hidle : (L.blocks b).isLocked = false ∧ (L.blocks b).readCount ≤ 0)
      (hnone : L.mshr.query pid line = none) (hb : ∀ b', Flow.InSet cfg L.gen line b' → ¬ Flow.Holds L.blocks b' pid line)
      (hasks : ∃ req, t'.Asks req ∧ Legal cfg req ∧ req.pid = pid ∧ lineOf cfg req.address = line)
      (hblk : Taken (L.blocks b) blk pid line) (hsame : t'.accessReq = t.accessReq) :
      Step L { L with
        dir := d, work := t' ::ₘ L.work, mshr := Flow.allocate L.mshr pid line b t', blocks := update L.blocks b blk }
  | fill (t t' : Transaction) (w : Multiset Transaction) (e : EntryRef) (arr : ArrayRef) (b : BlockRef) (m : ArrayRef)
      (dirty : Bool) (hwork : L.work = t ::ₘ w) (haction : t.action.isFetch = true) (hentry : t.mshrEntry = some e)
      (he : e ∈ L.mshr.entries) (hblock : (L.mshr.heap e).block = some b) (hid : t'.id = t.id)
      (haction' : t'.action = .bankWriteFetched) (hentry' : t'.mshrEntry = some e) :
      Step L { L with
        work := t' ::ₘ w, mshr := Flow.fillMSHR L.mshr e arr, blocks := Flow.fillBlock L.blocks b m dirty }
  | settle (t : Transaction) (w : Multiset Transaction) (e : EntryRef) (b : BlockRef) (hwork : L.work = t ::ₘ w)
      (haction : t.action = .bankWriteFetched) (hentry : t.mshrEntry = some e) (hblock : (L.mshr.heap e).block = some b) :
      Step L { L with
        work := w, drain := L.drain ++ [e],
        blocks := update L.blocks b { L.blocks b with isLocked := false, isValid := true } }
  | finishRead (t : Transaction) (w : Multiset Transaction) (b : BlockRef) (hwork : L.work = t ::ₘ w)
      (haction : t.action = .bankReadHit) (hblock : t.block = some b) :
      Step L { L with
        work := w, inFlight := L.inFlight.eraseP (·.id == t.id),
        blocks := update L.blocks b { L.blocks b with readCount := (L.blocks b).readCount - 1 } }
  | finishWrite (t : Transaction) (w : Multiset Transaction) (b : BlockRef) (m : ArrayRef) (hwork : L.work = t ::ₘ w)
      (haction : t.action = .bankWriteHit) (hblock : t.block = some b) :
      Step L { L with
        work := w, inFlight := L.inFlight.eraseP (·.id == t.id), blocks := update L.blocks b
          { L.blocks b with isValid := true, isLocked := false, isDirty := true, dirtyMask := some m } }
  | answer (e : EntryRef) (rest : List EntryRef) (t : Transaction) (ts : List Transaction) (hdrain : L.drain = e :: rest)
      (hreqs : (L.mshr.heap e).requests = t :: ts) :
      Step L { L with
        inFlight := L.inFlight.eraseP (·.id == t.id), mshr := L.mshr.modify e fun entry => { entry with requests := ts },
        drain := if ts.isEmpty then rest else e :: rest }
  | discard (w : Multiset Transaction) (hwork : w ≤ L.work) (hhit : ∀ t ∈ w, t.action.isHit = false) :
      Step L { L with
        dir := 0, work := w, drain := [], inFlight := [], discarding := true,
        blocks := fun b => if b.gen = L.gen ∧ b.setID < cfg.numSets ∧ b.wayID < cfg.wayAssociativity
          then { L.blocks b with readCount := 0, isLocked := false } else L.blocks b }
  | finish (hin : L.inFlight = []) (hfetch : ∀ t ∈ L.work, t.action.isFetch = false)
      (hread : ∀ t ∈ L.work, t.action ≠ .bankReadHit) :
      Step L { L with
        mshr := L.mshr.reset, gen := L.gen + 1, discarding := false,
        blocks := fun b => if b.gen = L.gen + 1 then {} else L.blocks b }

end Ledger

end Akita.WriteBack
