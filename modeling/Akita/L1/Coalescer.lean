import Akita.L1.Cache

/-!
# The coalescer

`coalescer` : requests to one line are gathered in `toCoalesce` until the wave ends; the wave becomes one transaction for a
whole line, which goes to the directory stage.
-/

namespace Akita.L1
open Sim Mem Mem.Cache

variable {cfg : Config}

namespace Coalescer

/-- `createTransaction`, and its two lists. -/
def createTransaction (c : Cache cfg) (req : AccessReq) : Cache cfg :=
  let (r, c) := c.alloc { req }
  { c with
    toCoalesce := c.toCoalesce ++ [r]
    transactions := c.transactions ++ [r]
    topPort := c.topPort.retrieve
    log := c.log ++ [Event.reqReceive r req] }

def isReqLastInWave : AccessReq → Bool
  | .read r => !r.canWaitForCoalesce
  | .write w => !w.canWaitForCoalesce

/-- `len(c.toCoalesce) == 0 || c.canReqCoalesce(req)`. -/
def canReqCoalesce (c : Cache cfg) (req : AccessReq) : Bool :=
  match c.toCoalesce with
  | [] => true
  | r :: _ => req.address / cfg.blockSize == (c.heap r).req.address / cfg.blockSize

/-- The loop of `coalesceWrite`. -/
def mergeWrites (heap : TransRef → Transaction) (line : Nat) : List TransRef → Bytes × Mask → Except String (Bytes × Mask)
  | [], acc => .ok acc
  | r :: rs, acc =>
    match (heap r).req with
    | .read _ => .error nilPointer
    | .write w => do
      let acc ← overlay acc.1 acc.2 (w.address - line) w.data w.dirtyMask
      mergeWrites heap line rs acc

def coalesceRead (c : Cache cfg) (first : ReadReq) : AccessReq :=
  .read { id := c.nextID, src := 0, pid := first.pid, address := cfg.cacheLineID first.address,
          accessByteSize := cfg.blockSize }

def coalesceWrite (c : Cache cfg) (first : WriteReq Bytes Mask) : Except String AccessReq := do
  let line := cfg.cacheLineID first.address
  let (data, mask) ← mergeWrites c.heap line c.toCoalesce (List.replicate cfg.blockSize 0, List.replicate cfg.blockSize false)
  return .write { id := c.nextID, src := 0, pid := first.pid, address := line, data, dirtyMask := some mask }

/-- The request of the wave whose first transaction is `r`. -/
def waveReq (c : Cache cfg) (r : TransRef) : Except String AccessReq :=
  match (c.heap r).req with
  | .read first => .ok (coalesceRead c first)
  | .write first => coalesceWrite c first

def coalesceAndSend (c : Cache cfg) : Except String (Cache cfg) :=
  match c.toCoalesce with
  | [] => .error "runtime error: index out of range [0] with length 0"
  | r :: _ => do
    let req ← waveReq c r
    let pre := c.toCoalesce
    let (x, c) := c.alloc { req, preCoalesceTransactions := pre }
    let dirBuf ← c.dirBuf.push x
    return { c with
      dirBuf
      postCoalesceTransactions := c.postCoalesceTransactions ++ [x]
      toCoalesce := []
      nextID := c.nextID + 1
      log := c.log ++ [Event.startTask x req pre] }

def processReqCoalescable (c : Cache cfg) (req : AccessReq) : Result cfg := .ok (true, createTransaction c req)

def processReqNoncoalescable (c : Cache cfg) (req : AccessReq) : Result cfg :=
  if !c.dirBuf.canPush then .ok (false, c) else do
    let c ← coalesceAndSend c
    return (true, createTransaction c req)

def processReqLastInWaveCoalescable (c : Cache cfg) (req : AccessReq) : Result cfg :=
  if !c.dirBuf.canPush then .ok (false, c) else do
    let c ← coalesceAndSend (createTransaction c req)
    return (true, c)

def processReqLastInWaveNoncoalescable (c : Cache cfg) (req : AccessReq) : Result cfg :=
  if !c.dirBuf.canPush then .ok (false, c) else do
    let c ← coalesceAndSend c
    if !c.dirBuf.canPush then return (true, c)
    let c ← coalesceAndSend (createTransaction c req)
    return (true, c)

def processGL0InvalidateReq (c : Cache cfg) (src : PortID) (pid : PID) : Result cfg :=
  let c := { c with directory := c.directory.reset }
  let (sent, topPort) := c.topPort.send (.gl0Invalidate src pid)
  if sent then .ok (true, { c with topPort := topPort.retrieve, log := c.log ++ [Event.invalidated src] })
  else .ok (false, { c with topPort })

def processReq (c : Cache cfg) (req : TopReq) : Result cfg :=
  if c.transactions.length ≥ cfg.maxNumConcurrentTrans then .ok (false, c) else
    match req with
    | .gl0Invalidate src pid =>
      -- the write-evict cache has no case for it
      if cfg.policy = .writeevict then .error "unknown type" else processGL0InvalidateReq c src pid
    | .access req =>
      if isReqLastInWave req then
        if canReqCoalesce c req then processReqLastInWaveCoalescable c req else processReqLastInWaveNoncoalescable c req
      else
        if canReqCoalesce c req then processReqCoalescable c req else processReqNoncoalescable c req

def tick (c : Cache cfg) : Result cfg :=
  match c.topPort.peek with
  | none => .ok (false, c)
  | some req => processReq c req

end Coalescer

end Akita.L1
