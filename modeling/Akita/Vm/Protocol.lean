import Akita.Mem.Protocol

/-!
# Messages of address translation

`vm.Page` and the messages of `mem/vm/protocol.go`. Virtual addresses are 64-bit numbers.
-/

namespace Akita.Vm
open Mem

abbrev VAddr := UInt64

structure Page where
  pid : PID := 0
  accessCounts : Nat := 0
  pAddr : UInt64 := 0
  vAddr : VAddr := 0
  pageSize : UInt64 := 0
  valid : Bool := false
  deviceID : UInt64 := 0
  unified : Bool := false
  isMigrating : Bool := false
  isPinned : Bool := false
deriving DecidableEq

structure TranslationReq where
  id : MsgID
  src : PortID
  dst : PortID := 0
  vAddr : VAddr
  pid : PID
  taskID : String := ""
  deviceID : UInt64 := 0
  originPort : PortID := 0
deriving DecidableEq

structure TranslationRsp where
  src : PortID := 0
  dst : PortID
  respondTo : MsgID
  page : Page
  taskID : String := ""
  originPort : PortID := 0
deriving DecidableEq

end Akita.Vm
