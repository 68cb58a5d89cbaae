import DsrUu.LinkCache.Model
import DsrUu.Pkt.Model

namespace DsrUu

inductive ConfVal
  | automaticRouteShortening | roundTripTimeout | routeCacheTimeout | sendBufferTimeout
  | requestTableIds | maxRequestRexmt | maxRequestPeriod | requestPeriod | nonpropRequestTimeout
  | maintHoldoffTime | maxMaintRexmt | gratReplyHoldOff | maxSalvageCount
deriving DecidableEq, Repr

inductive ConfValType
  | seconds | milliseconds | quanta | binary
deriving DecidableEq, Repr

def ConfVal.type : ConfVal → ConfValType
  | automaticRouteShortening => .binary
  | roundTripTimeout => .milliseconds
  | routeCacheTimeout => .seconds
  | sendBufferTimeout => .seconds
  | requestTableIds => .quanta
  | maxRequestRexmt => .quanta
  | maxRequestPeriod => .seconds
  | requestPeriod => .milliseconds
  | nonpropRequestTimeout => .milliseconds
  | maintHoldoffTime => .milliseconds
  | maxMaintRexmt => .quanta
  | gratReplyHoldOff => .seconds
  | maxSalvageCount => .quanta

def confvalsDef : ConfVal → ℕ
  | .automaticRouteShortening => 1
  | .roundTripTimeout => 2000
  | .routeCacheTimeout => 300
  | .sendBufferTimeout => 30
  | .requestTableIds => 16
  | .maxRequestRexmt => 16
  | .maxRequestPeriod => 10
  | .requestPeriod => 500
  | .nonpropRequestTimeout => 30
  | .maintHoldoffTime => 250
  | .maxMaintRexmt => 2
  | .gratReplyHoldOff => 1
  | .maxSalvageCount => 15

def maintBufMaxLen : ℕ := 100
def rreqTblMaxLen : ℕ := 64
def sendBufMaxLen : ℕ := 100
def neighTblMaxLen : ℕ := 50
def gratRrepTblMaxLen : ℕ := 64
def maxTtl : ℕ := 255
def ttlStart : ℕ := 1

inductive Lock
  | lc | neighTbl | rreqTbl | rreqIdTbl (e : ℕ) | gratRrepTbl | sendBuf | maintBuf
deriving DecidableEq, Repr

inductive Stop
  | relock (l : Lock)
  | oops
  | hang
deriving DecidableEq, Repr

structure Neighbor where
  addr : InAddr
  hwAddr : HwAddr
  id : ℕ
  lastAckReq : Timeval
  tSrtt : ℕ
  tRxtcur : ℕ
  tRttmin : ℕ
  tRttvar : ℕ
deriving DecidableEq, Repr

structure NeighborInfo where
  hwAddr : HwAddr
  id : ℕ
  rto : ℕ
  lastAckReq : Timeval
deriving DecidableEq, Repr

inductive RreqState
  | idle | inRouteDisc
deriving DecidableEq, Repr

structure IdEntry where
  trgAddr : InAddr
  id : ℕ
deriving DecidableEq, Repr

structure RreqTblEntry where
  ref : ℕ
  state : RreqState
  nodeAddr : InAddr
  ttl : ℕ
  timer : Option Timeval
  lastUsed : Timeval
  timeout : ℕ
  numRexmts : ℕ
  rreqIdTbl : Tbl IdEntry

structure GratRrepEntry where
  src : InAddr
  prevHop : InAddr
  expires : Timeval
deriving DecidableEq, Repr

structure SendBufEntry where
  dp : DsrPkt
  qtime : Timeval
  born : ℕ
deriving DecidableEq, Repr

structure MaintEntry where
  nxtHop : InAddr
  rexmt : ℕ
  id : ℕ
  txTime : Timeval
  expires : Timeval
  rto : ℕ
  ackReqSent : Bool
  dp : DsrPkt
  born : ℕ
deriving DecidableEq, Repr

inductive XmitSite
  | rreqSend | rrepSend | rerrSend | ackSend | ackReqSend | forward | forwardRreq | startXmit
  | sendBuf | salvage
deriving DecidableEq, Repr

structure Frame where
  hwDest : Option HwAddr
  nxtHop : InAddr
  skb : Skb
deriving DecidableEq, Repr

inductive DiscStatus
  | started | cancelled | maxRexmt | evicted
deriving DecidableEq, Repr

inductive MaintEvent
  | buffered (m : MaintEntry) (ahead : List MaintEntry)
  | request (m : MaintEntry)
  | linkBreak (m : MaintEntry)
  | acked (nxtHop : InAddr) (id : ℕ)
deriving DecidableEq, Repr

inductive SendBufEvent
  | given (e : SendBufEntry)
  | overflow (e : SendBufEntry)
  | refused (e : SendBufEntry)
  | expired (e : SendBufEntry)
  | dropped (e : SendBufEntry)
  | noRoute (e : SendBufEntry)
  | sent (e : SendBufEntry) (dp : DsrPkt)
  | flushed (e : SendBufEntry)
deriving DecidableEq, Repr

inductive Event
  | xmit (site : XmitSite) (dp : DsrPkt) (ackDue : Bool)
  | send (site : XmitSite) (f : Frame)
  | deliver (dp : DsrPkt)
  | icmp (dp : DsrPkt)
  | ackReq (nxtHop : InAddr) (id : ℕ)
  | discovery (dst : InAddr) (status : DiscStatus)
  | maint (now : Timeval) (e : MaintEvent)
  | sendBuf (e : SendBufEvent)
deriving DecidableEq, Repr

structure DsrNode where
  ifaddr : InAddr
  confvals : ConfVal → ℕ
  slaveDev : Bool
  locking : Bool
  budget : ℕ
  now : Timeval
  kmem : ℕ → UInt8
  held : List Lock
  lc : LcGraph
  neighTbl : Tbl Neighbor
  rreqBrk : ℕ
  rreqTbl : Tbl RreqTblEntry
  rreqSeqno : ℕ
  gratRrepTbl : Tbl GratRrepEntry
  gratRrepTblTimer : Option Timeval
  sendBuf : Tbl SendBufEntry
  sendBufTimer : Option Timeval
  maintBuf : Tbl MaintEntry
  ackTimer : Option Timeval
  out : List Event

def dsrNodeInit (ifaddr : InAddr) (confvals : ConfVal → ℕ) (locking : Bool) (budget : ℕ)
    (now : Timeval) (kmem : ℕ → UInt8) (rreqSeqno : ℕ) : DsrNode :=
  { ifaddr := ifaddr, confvals := confvals, slaveDev := true, locking := locking, budget := budget
    now := now, kmem := kmem, held := [], lc := lcInit, neighTbl := Tbl.init neighTblMaxLen
    rreqBrk := 0, rreqTbl := Tbl.init rreqTblMaxLen, rreqSeqno := rreqSeqno
    gratRrepTbl := Tbl.init gratRrepTblMaxLen, gratRrepTblTimer := none
    sendBuf := Tbl.init sendBufMaxLen, sendBufTimer := none, maintBuf := Tbl.init maintBufMaxLen
    ackTimer := none, out := [] }

abbrev DsrM := EStateM Stop DsrNode

def confVal (cv : ConfVal) : DsrM ℕ := do
  let s ← get
  pure (s.confvals cv)

def usecsOf (cv : ConfVal) (val : ℕ) : ℕ :=
  match cv.type with
  | .seconds => toUint32 (val * 1000000)
  | .milliseconds => toUint32 (val * 1000)
  | _ => 0

def confValToUsecs (cv : ConfVal) : DsrM ℕ := do
  let val ← confVal cv
  pure (usecsOf cv val)

def myAddr : DsrM InAddr := do
  let s ← get
  pure s.ifaddr

def gettime : DsrM Timeval := do
  let s ← get
  pure s.now

def kmalloc : DsrM (ℕ → UInt8) := do
  let s ← get
  pure s.kmem

def srtFlags (mem : ℕ → UInt8) : ℕ :=
  (mem 8).toNat + 256 * (mem 9).toNat + 65536 * (mem 10).toNat + 16777216 * (mem 11).toNat

def lockBh (l : Lock) : DsrM Unit := do
  let s ← get
  if s.locking then
    if l ∈ s.held then throw (.relock l)
    else set { s with held := l :: s.held }
  else pure ()

def unlockBh (l : Lock) : DsrM Unit :=
  modify fun s => if s.locking then { s with held := s.held.erase l } else s

def locked {α : Type} (l : Lock) (m : DsrM α) : DsrM α := do
  lockBh l
  let r ← m
  unlockBh l
  pure r

def emit (e : Event) : DsrM Unit := modify fun s => { s with out := s.out ++ [e] }

def emitMaint (e : MaintEvent) : DsrM Unit :=
  modify fun s => { s with out := s.out ++ [.maint s.now e] }

def emitSendBuf (f : SendBufEntry → SendBufEvent) (es : List SendBufEntry) : DsrM Unit :=
  modify fun s => { s with out := s.out ++ es.map fun e => .sendBuf (f e) }

def setLc (lc : LcGraph) : DsrM Unit := modify fun s => { s with lc := lc }
def setNeighTbl (t : Tbl Neighbor) : DsrM Unit := modify fun s => { s with neighTbl := t }
def setRreqTbl (t : Tbl RreqTblEntry) : DsrM Unit := modify fun s => { s with rreqTbl := t }
def setGratRrepTbl (t : Tbl GratRrepEntry) : DsrM Unit := modify fun s => { s with gratRrepTbl := t }
def setSendBuf (t : Tbl SendBufEntry) : DsrM Unit := modify fun s => { s with sendBuf := t }
def setMaintBuf (t : Tbl MaintEntry) : DsrM Unit := modify fun s => { s with maintBuf := t }
def setAckTimer (t : Option Timeval) : DsrM Unit := modify fun s => { s with ackTimer := t }
def setSendBufTimer (t : Option Timeval) : DsrM Unit := modify fun s => { s with sendBufTimer := t }
def setGratTimer (t : Option Timeval) : DsrM Unit := modify fun s => { s with gratRrepTblTimer := t }

def ofOption {α : Type} (o : Option α) : DsrM α :=
  match o with
  | some a => pure a
  | none => throw .oops

end DsrUu
