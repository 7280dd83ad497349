import Akita.Mem.Protocol

/-!
# Control messages of caches

The messages of `mem/cache/protocol.go` at the control port of a cache.
-/

namespace Akita.Mem.Cache

structure FlushReq where
  id : MsgID
  src : PortID
  invalidateAllCachelines : Bool := false
  discardInflight : Bool
  pauseAfterFlushing : Bool
deriving DecidableEq

inductive ControlReq
  | flush (r : FlushReq)
  | restart (id : MsgID) (src : PortID)
deriving DecidableEq

/-- `cache.FlushRsp` and `cache.RestartRsp`, with their destination and the request they answer. -/
inductive ControlRsp
  | flush (dst : PortID) (rspTo : MsgID)
  | restart (dst : PortID) (rspTo : MsgID)
deriving DecidableEq

def ControlReq.discards : ControlReq → Bool
  | .flush req => req.discardInflight
  | .restart _ _ => false

end Akita.Mem.Cache
