import DsrUu.Node.State

namespace DsrUu

def dsrRtcFind (src dst : InAddr) : DsrM (Option DsrSrt) := do
  if src = dst then pure none
  else
    locked .lc do
      let s ← get
      let (r, lc) ← ofOption (lcSrtFind (srtFlags s.kmem) src dst s.lc)
      setLc lc
      pure r.srt

def dsrRtcAdd (srt : DsrSrt) : DsrM Unit := do
  let timeout ← confValToUsecs .routeCacheTimeout
  locked .lc do
    let s ← get
    setLc (lcSrtAdd s.now srt timeout s.lc)

def rtcLinkAdd (src dst : InAddr) : DsrM Unit := do
  let timeout ← confValToUsecs .routeCacheTimeout
  locked .lc do
    let s ← get
    setLc (lcLinkAdd s.now src dst timeout 0 1 s.lc)

def rtcLinkDel (src dst : InAddr) : DsrM Unit :=
  locked .lc do
    let s ← get
    let lc ← ofOption (lcLinkDel src dst s.lc)
    setLc lc

def dsrRttdflt : ℕ := 30
def dsrSrttdflt : ℕ := 60
def dsrMin : ℕ := 20
def dsrRexmtmax : ℕ := 1280
def prSlowhz : ℕ := 2

def dsrRangeset (value tvmin tvmax : ℕ) : ℕ :=
  if value < tvmin then tvmin else if tvmax < value then tvmax else value

def neighTblCreate (addr : InAddr) (hwAddr : HwAddr) (id : ℕ) : Neighbor :=
  { addr := addr, hwAddr := hwAddr, id := id, lastAckReq := ⟨0, 0⟩, tSrtt := 0
    tRxtcur := dsrRangeset (4 * dsrSrttdflt / 2) dsrMin dsrRexmtmax
    tRttmin := dsrMin
    tRttvar := 4 * (dsrRttdflt * prSlowhz) }

def neighTblFind (addr : InAddr) : DsrM (Option Neighbor) :=
  locked .neighTbl do
    let s ← get
    pure (s.neighTbl.find fun n => n.addr = addr)

def neighTblAdd (addr : InAddr) (hSource : HwAddr) : DsrM Unit := do
  match ← neighTblFind addr with
  | some _ => pure ()
  | none =>
      locked .neighTbl do
        let s ← get
        setNeighTbl ((s.neighTbl.add (neighTblCreate addr hSource 1) fun _ => true).getD s.neighTbl)

def neighTblQuery (addr : InAddr) : DsrM (Option NeighborInfo) := do
  let rto ← confValToUsecs .roundTripTimeout
  let n ← neighTblFind addr
  pure (n.map fun n =>
    { hwAddr := n.hwAddr, id := n.id, lastAckReq := n.lastAckReq
      rto := if rto = 0 then toUint64 (n.tRxtcur * 1000) / prSlowhz else rto })

def neighTblFindDo (addr : InAddr) (f : Neighbor → Neighbor) : DsrM Unit :=
  locked .neighTbl do
    let s ← get
    setNeighTbl (s.neighTbl.findDo (fun n => n.addr = addr) f)

def neighTblSetAckReqTime (addr : InAddr) : DsrM Unit := do
  let now ← gettime
  neighTblFindDo addr fun n => { n with lastAckReq := now }

def neighTblIdInc (addr : InAddr) : DsrM Unit :=
  neighTblFindDo addr fun n => { n with id := (n.id + 1) % 65536 }

def rtoCalc (rtt : ℕ) (n : Neighbor) : Neighbor :=
  let (srtt, rttvar) :=
    if n.tSrtt ≠ 0 then
      let delta := toInt32 (toUint64 ((rtt : Int) - 1 - (n.tSrtt / 8 : ℕ)))
      let srtt := toUint64 (n.tSrtt + delta)
      let delta := if delta < 0 then -delta else delta
      let delta := toInt32 (toUint64 (delta - (n.tRttvar / 4 : ℕ)))
      let rttvar := toUint64 (n.tRttvar + delta)
      (if srtt = 0 then 1 else srtt, if rttvar = 0 then 1 else rttvar)
    else (toUint64 (rtt * 8), toUint64 (rtt * 2))
  { n with tSrtt := srtt, tRttvar := rttvar
           tRxtcur := dsrRangeset (toUint64 (srtt / 8 + srtt)) n.tRttmin dsrRexmtmax }

def neighTblSetRto (addr : InAddr) (rtt : ℕ) : DsrM Unit := neighTblFindDo addr (rtoCalc rtt)

def rreqTblUpdate (ref : ℕ) (f : RreqTblEntry → RreqTblEntry) : DsrM Unit :=
  modify fun s => { s with rreqTbl := s.rreqTbl.findDo (fun e => e.ref = ref) f }

def rreqTblEntryCreate (ref : ℕ) (nodeAddr : InAddr) (ids : ℕ) : RreqTblEntry :=
  { ref := ref, state := .idle, nodeAddr := nodeAddr, ttl := 0, timer := none, lastUsed := ⟨0, 0⟩
    timeout := 0, numRexmts := 0, rreqIdTbl := Tbl.init ids }

def rreqTblAdd (nodeAddr : InAddr) : DsrM ℕ := do
  let ids ← confVal .requestTableIds
  let s ← get
  let e := rreqTblEntryCreate s.rreqBrk nodeAddr ids
  set { s with rreqBrk := s.rreqBrk + 1 }
  if s.rreqTbl.full then
    let (f, t) ← ofOption s.rreqTbl.detachFirst
    setRreqTbl t
    emit (.discovery f.nodeAddr .evicted)
    locked (.rreqIdTbl f.ref) (pure ())
  let s ← get
  setRreqTbl ((s.rreqTbl.addTail e).getD s.rreqTbl)
  pure e.ref

def rreqTblFindLast (nodeAddr : InAddr) : DsrM ℕ := do
  let s ← get
  match s.rreqTbl.findDetach fun e => e.nodeAddr = nodeAddr with
  | none => rreqTblAdd nodeAddr
  | some (e, t) =>
      setRreqTbl ((t.addTail e).getD t)
      pure e.ref

def rreqTblSetMaxLen (maxLen : ℕ) : DsrM Unit :=
  modify fun s => { s with rreqTbl := { s.rreqTbl with maxLen := maxLen } }

def idTblDelFirst (e : RreqTblEntry) : RreqTblEntry :=
  { e with rreqIdTbl := (e.rreqIdTbl.detachFirst.map Prod.snd).getD e.rreqIdTbl }

def idTblAddTail (id : IdEntry) (e : RreqTblEntry) : RreqTblEntry :=
  { e with rreqIdTbl := (e.rreqIdTbl.addTail id).getD e.rreqIdTbl }

def rreqTblAddId (initiator target : InAddr) (id : ℕ) : DsrM Unit :=
  locked .rreqTbl do
    let ref ← rreqTblFindLast initiator
    let now ← gettime
    rreqTblUpdate ref fun e => { e with lastUsed := now }
    let s ← get
    if (s.rreqTbl.find fun e => e.ref = ref && e.rreqIdTbl.full).isSome then
      locked (.rreqIdTbl ref) (rreqTblUpdate ref idTblDelFirst)
    locked (.rreqIdTbl ref) (rreqTblUpdate ref (idTblAddTail { trgAddr := target, id := id % 65536 }))

def rreqTblRouteDiscoveryCancel (dst : InAddr) : DsrM Unit := do
  emit (.discovery dst .cancelled)
  let found ← locked .rreqTbl do
    let s ← get
    match s.rreqTbl.findDetach fun e => e.nodeAddr = dst with
    | none => pure none
    | some (e, t) =>
        setRreqTbl t
        pure (some e)
  match found with
  | none => pure ()
  | some e =>
      let now ← gettime
      let timer := if e.state = .inRouteDisc then none else e.timer
      locked .rreqTbl do
        let s ← get
        let e := { e with timer := timer, state := .idle, lastUsed := now }
        setRreqTbl ((s.rreqTbl.addTail e).getD s.rreqTbl)

def dsrRreqDuplicate (initiator target : InAddr) (id : ℕ) : DsrM Bool :=
  locked .rreqTbl do
    let s ← get
    pure (s.rreqTbl.find fun e => e.nodeAddr = initiator &&
      e.rreqIdTbl.head.any fun i => i.trgAddr = target && i.id = id).isSome

def gratRrepTblFind (src prevHop : InAddr) : DsrM Bool :=
  locked .gratRrepTbl do
    let s ← get
    pure (s.gratRrepTbl.find fun e => e.src = src && e.prevHop = prevHop).isSome

def kmemTimeval (mem : ℕ → UInt8) : Timeval :=
  { tvSec := toInt64 ((List.range 8).map fun i => (mem i).toNat * 256 ^ i).sum
    tvUsec := toInt64 ((List.range 8).map fun i => (mem (8 + i)).toNat * 256 ^ i).sum }

def critTime (time : Timeval) (p : GratRrepEntry) : Bool := toInt64 (timevalDiff p.expires time) < 0

def gratSetTimer : DsrM Unit :=
  locked .gratRrepTbl do
    let s ← get
    match s.gratRrepTbl.head with
    | [] => throw .oops
    | e :: _ => setGratTimer (some e.expires)

def gratRrepTblAdd (src prevHop : InAddr) : DsrM Unit := do
  if ← gratRrepTblFind src prevHop then pure ()
  else
    let now ← gettime
    let holdoff ← confValToUsecs .gratReplyHoldOff
    let mem ← kmalloc
    setGratTimer none
    let e : GratRrepEntry := { src := src, prevHop := prevHop, expires := timevalAddUsecs now holdoff }
    locked .gratRrepTbl do
      let s ← get
      setGratRrepTbl ((s.gratRrepTbl.add e (critTime (kmemTimeval mem))).getD s.gratRrepTbl)
    gratSetTimer

def gratRrepTblTimeout : DsrM Unit := do
  setGratTimer none
  locked .gratRrepTbl do
    let s ← get
    setGratRrepTbl ((s.gratRrepTbl.detachFirst.map Prod.snd).getD s.gratRrepTbl)
  let s ← get
  if s.gratRrepTbl.head = [] then pure () else gratSetTimer

end DsrUu
