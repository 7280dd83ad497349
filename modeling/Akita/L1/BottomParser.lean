import Akita.L1.BankStage

/-!
# The bottom parser and the respond stage

`bottomParser` takes the answers of the lower level; `respondStage` answers the requests that are done.
-/

namespace Akita.L1
open Sim Mem Mem.Cache

variable {cfg : Config}

namespace BottomParser

def retrieve (c : Cache cfg) : Cache cfg := { c with bottomPort := c.bottomPort.retrieve }

def findTransactionByWriteToBottomID (c : Cache cfg) (id : MsgID) : Option TransRef :=
  c.postCoalesceTransactions.find? fun x => (c.heap x).writeToBottom.any (·.id == id)

def findTransactionByReadToBottomID (c : Cache cfg) (id : MsgID) : Option TransRef :=
  c.postCoalesceTransactions.find? fun x => (c.heap x).readToBottom.any (·.id == id)

def processDoneRsp (c : Cache cfg) (rsp : WriteDoneRsp) : Result cfg :=
  match findTransactionByWriteToBottomID c rsp.respondTo with
  | none => .ok (true, retrieve c)
  | some x =>
    if (c.heap x).fetchAndWrite then .ok (true, retrieve c)
    else .ok (true, retrieve ((finishWrites (c.heap x).preCoalesceTransactions c).removePostCoalesce x))

/-- `mergeMSHRData`: the writes that joined the miss. -/
def mergeMSHRData (heap : TransRef → Transaction) (tag : Nat) : List TransRef → Bytes × Mask → Except String (Bytes × Mask)
  | [], acc => .ok acc
  | x :: xs, acc =>
    match (heap x).req with
    | .read _ => mergeMSHRData heap tag xs acc
    | .write w => do
      let acc ← overlay acc.1 acc.2 (offsetIn w.address tag) w.data (some (w.dirtyMask.getD []))
      mergeMSHRData heap tag xs acc

def finalizeMSHRTrans (data : Bytes) (tag : Nat) : List TransRef → Cache cfg → Except String (Cache cfg)
  | [], c => .ok c
  | x :: xs, c =>
    match (c.heap x).req with
    | .read _ => do
      let c ← finishReads data tag (c.heap x).preCoalesceTransactions c
      finalizeMSHRTrans data tag xs (c.removePostCoalesce x)
    | .write _ => finalizeMSHRTrans data tag xs ((finishWrites (c.heap x).preCoalesceTransactions c).removePostCoalesce x)

def processDataReady (c : Cache cfg) (rsp : DataReadyRsp Bytes) : Result cfg :=
  match findTransactionByReadToBottomID c rsp.respondTo with
  | none => .ok (true, retrieve c)
  | some x =>
    match (c.heap x).readToBottom, (c.heap x).block with
    | some readToBottom, some b => do
      let bank ← bankOf cfg b
      if !(c.banks bank).buf.canPush then return (false, c)
      let line := cfg.cacheLineID (c.heap x).req.address
      match c.mshr.query readToBottom.pid line with
      | none => .error nilPointer
      | some e =>
        match (c.mshr.heap e).block with
        | none => .error nilPointer
        | some victim =>
          let tag := (c.directory.blocks victim).tag
          let requests := (c.mshr.heap e).requests
          let (data, _) ← mergeMSHRData c.heap tag requests (rsp.data, List.replicate cfg.blockSize false)
          let c ← finalizeMSHRTrans data tag requests c
          let mshr ← c.mshr.remove readToBottom.pid line
          let c := { c with mshr }
          let c := c.modify x fun t => { t with bankAction := .writeFetched, data }
          let buf ← (c.banks bank).buf.push x
          let c := c.modifyBank bank fun k => { k with buf }
          return (true, retrieve (c.removePostCoalesce x))
    | _, _ => .error nilPointer

def tick (c : Cache cfg) : Result cfg :=
  match c.bottomPort.peek with
  | none => .ok (false, c)
  | some (.writeDone rsp) => processDoneRsp c rsp
  | some (.dataReady rsp) => processDataReady c rsp

end BottomParser

namespace RespondStage

/-- The response to a request that is done. -/
def response (t : Transaction) : AccessRsp Bytes :=
  match t.req with
  | .read r => .dataReady { dst := r.src, respondTo := r.id, data := t.data }
  | .write w => .writeDone { dst := w.src, respondTo := w.id }

def tick (c : Cache cfg) : Result cfg :=
  match c.transactions.find? fun r => (c.heap r).done with
  | none => .ok (false, c)
  | some r =>
    let (sent, topPort) := c.topPort.send (.access (response (c.heap r)))
    if !sent then .ok (false, { c with topPort })
    else .ok (true, { c with
      topPort
      transactions := c.transactions.erase r
      log := c.log ++ [Event.reqComplete r (c.heap r).req (response (c.heap r))] })

end RespondStage

end Akita.L1
