import DsrUu.Node.Tables

namespace DsrUu

def rreqPkt (mem : ℕ → UInt8) (me target : InAddr) (ttl seqno : ℕ) : Option DsrPkt :=
  let len := dsrOptHdrLen + dsrRreqHdrLen
  let dp : DsrPkt := { dst := dsrBroadcast, nxtHop := dsrBroadcast, src := me }
  let dp := dsrPktAllocOpts mem dp len
  let dp := dsrBuildIp dp dp.src dp.dst (ipHdrLen + len) ipprotoDsr ttl
  (dsrOptHdrAdd dp len dsrNoNextHdrType).bind fun dp =>
    (dsrRreqOptAdd dp dsrOptHdrLen (len - dsrOptHdrLen) target seqno).map fun dp =>
      { dp with rreqOpt := some (dp.ptr dsrOptHdrLen), xmitJitter := true }

def rrepPkt (mem : ℕ → UInt8) (me : InAddr) (srt srtToMe : DsrSrt) : Option DsrPkt :=
  let dp : DsrPkt := { src := me, dst := srt.dst }
  let dp := { dp with nxtHop := if srt.laddrs = 0 then dp.dst else srt.addrAt 0 }
  let len := dsrOptHdrLen + dsrSrtOptLen srt + dsrRrepOptLen srtToMe
  let dp := dsrPktAllocOpts mem dp len
  let dp := dsrBuildIp dp dp.src dp.dst (ipHdrLen + len) ipprotoDsr (srt.n + 1)
  let rrepOff := dsrOptHdrLen + dsrSrtOptLen srt
  (dsrOptHdrAdd dp len dsrNoNextHdrType).bind fun dp =>
    (dsrSrtOptAdd dp dsrOptHdrLen (len - dsrOptHdrLen) dp.salvage srt).bind fun dp =>
      (dsrRrepOptAdd dp rrepOff (len - rrepOff) srtToMe).map fun dp =>
        { dp with srtOpt := some (dp.ptr dsrOptHdrLen), rrepOpt := dp.rrepOpt ++ [dp.ptr rrepOff]
                  xmitJitter := true }

def ackPkt (mem : ℕ → UInt8) (me dst : InAddr) (id : ℕ) : Option DsrPkt :=
  let len := dsrOptHdrLen + dsrAckHdrLen
  let dp : DsrPkt := { dst := dst, nxtHop := dst, src := me }
  let dp := dsrPktAllocOpts mem dp len
  let dp := dsrBuildIp dp dp.src dp.dst (ipHdrLen + len) ipprotoDsr ipDefTtl
  (dsrOptHdrAdd dp len dsrNoNextHdrType).bind fun dp =>
    (dsrAckOptAdd dp dsrOptHdrLen (len - dsrOptHdrLen) dp.src dp.dst id).map fun dp =>
      { dp with xmitJitter := true }

def ackReqPkt (mem : ℕ → UInt8) (me neigh : InAddr) (id : ℕ) : Option DsrPkt :=
  let len := dsrOptHdrLen + dsrAckReqHdrLen
  let dp : DsrPkt := { dst := neigh, nxtHop := neigh, src := me }
  let dp := dsrPktAllocOpts mem dp len
  let dp := dsrBuildIp dp dp.src dp.dst (ipHdrLen + len) ipprotoDsr 1
  (dsrOptHdrAdd dp len dsrNoNextHdrType).bind fun dp =>
    dsrAckReqOptCreate dp dsrOptHdrLen (len - dsrOptHdrLen) id

def rerrOptSalv (dp : DsrPkt) (p : OptPtr) : ℕ := (dp.fieldAt p 3).toNat / 16

def oldRerrOpts (maxSalvage : ℕ) (dp : DsrPkt) : List (List UInt8) :=
  (dp.rerrOpt.takeWhile fun p => rerrOptSalv dp p ≤ maxSalvage).map fun p =>
    dp.fieldsAt p 0 (dp.optLength p + 2)

def oldAckOpts (dp : DsrPkt) : List (List UInt8) :=
  dp.ackOpt.map fun p => dp.fieldsAt p 0 (dp.optLength p + 2)

def writeOpts (dp : DsrPkt) : ℕ → List (List UInt8) → DsrPkt
  | _, [] => dp
  | off, o :: os => writeOpts (dp.write off o) (off + o.length) os

def rerrPkt (mem : ℕ → UInt8) (me dst unreach : InAddr) (maxSalvage : ℕ) (srt : DsrSrt)
    (trigg : DsrPkt) (salv : ℕ) : Option DsrPkt :=
  let rerrs := oldRerrOpts maxSalvage trigg
  let acks := oldAckOpts trigg
  let len := dsrOptHdrLen + dsrSrtOptLen srt + (dsrRerrHdrLen + 4) +
    dsrAckHdrLen * trigg.ackOpt.length + (rerrs.map List.length).sum
  let dp : DsrPkt := { srt := some srt, src := me, dst := dst, nxtHop := dsrSrtNextHop srt srt.n }
  let dp := dsrBuildIp dp dp.src dp.dst (ipHdrLen + len) ipprotoDsr ipDefTtl
  let dp := dsrPktAllocOpts mem dp len
  let rerrOff := dsrOptHdrLen + dsrSrtOptLen srt
  (dsrOptHdrAdd dp len dsrNoNextHdrType).bind fun dp =>
    (dsrSrtOptAdd dp dsrOptHdrLen (len - dsrOptHdrLen) 0 srt).bind fun dp =>
      (dsrRerrOptAdd dp rerrOff (len - rerrOff) nodeUnreachable dp.src dp.dst unreach salv).map
        fun dp =>
          writeOpts { dp with srtOpt := some (dp.ptr dsrOptHdrLen) }
            (rerrOff + dsrRerrHdrLen + 4) (rerrs ++ acks)

def junkAddr (mem : ℕ → UInt8) : InAddr := ⟨mem 16, mem 17, mem 18, mem 19⟩

def salvageSrt (mem : ℕ → UInt8) (me : InAddr) (alt old : DsrSrt) (nxtHop : InAddr) :
    Option (DsrSrt × ℕ) :=
  if old.addrs.headD (junkAddr mem) = nxtHop then some (alt, alt.laddrs / 4)
  else
    (dsrSrtNewSplit (srtFlags mem) old me).map fun toMe =>
      let srt := dsrSrtConcatenate (srtFlags mem) toMe alt
      (srt, srt.laddrs / 4 - toMe.laddrs / 4 - 1)

def salvageRealloc (mem : ℕ → UInt8) (dp : DsrPkt) (p : OptPtr) (oldLen salv : ℕ)
    (srt : DsrSrt) : DsrPkt :=
  let newLen := dsrSrtOptLen srt
  let before := dp.bytesAt 0 p.off
  let rest := dp.bytesAt (p.off + oldLen) (dp.optsLen - (p.off + oldLen))
  let newOptLen := dp.optsLen - oldLen + newLen
  let dp := dsrPktAllocOpts mem dp newOptLen
  let dp := dp.write 0 before
  let dp := dp.write p.off (srtOptBytes (salv + 1) srt)
  let dp := dp.write (p.off + newLen) rest
  let dp := dp.write 2 (Bytes.toBe16 ((newOptLen - dsrOptHdrLen) % 65536))
  { dp with srtOpt := some (dp.ptr p.off) }

def salvageRewrite (mem : ℕ → UInt8) (dp : DsrPkt) (p : OptPtr) (srt : DsrSrt) : DsrPkt :=
  let oldLen := dp.optLength p + 2
  let salv := srtOptSalv dp p
  if oldLen = dsrSrtOptLen srt then
    { dp.writeField p 0 (srtOptBytes (salv + 1) srt) with srtOpt := some p }
  else salvageRealloc mem dp p oldLen salv srt

def oldSrt (mem : ℕ → UInt8) (dp : DsrPkt) (p : OptPtr) : DsrSrt :=
  dsrSrtNew (srtFlags mem) dp.src dp.dst (toUint32 ((dp.optLength p : Int) - 2))
    (dp.fieldsAt p 4 (dp.optLength p - 2))

def salvagePkt (mem : ℕ → UInt8) (me : InAddr) (alt : DsrSrt) (dp : DsrPkt) : Option DsrPkt :=
  match dp.srtOpt with
  | none => none
  | some p =>
      match salvageSrt mem me alt (oldSrt mem dp p) dp.nxtHop with
      | none => none
      | some (srt, sleft) =>
          if dsrSrtCheckDuplicate srt then none
          else
            let dp := salvageRewrite mem dp p srt
            let q := dp.ptr p.off
            let dp := srtOptSetSleft dp q sleft
            some { dp with nxtHop := dsrSrtNextHop srt (srtOptSleft dp q), srt := some srt }

def salvageOverrun (dp dp' : DsrPkt) : Bool :=
  match dp.srtOpt with
  | none => false
  | some p => dp'.gen ≠ dp.gen && dp.optsLen < p.off + (dp.optLength p + 2)

section Xmit

variable (xmit : XmitSite → DsrPkt → DsrM Unit)

def xmitPkt (site : XmitSite) (dp : Option DsrPkt) : DsrM Unit :=
  match dp with
  | none => pure ()
  | some dp => xmit site dp

def dsrRreqSend (target : InAddr) (ttl : ℕ) : DsrM Unit := do
  let mem ← kmalloc
  let me ← myAddr
  let s ← get
  let seqno := incUint32 s.rreqSeqno
  set { s with rreqSeqno := seqno }
  xmitPkt xmit .rreqSend (rreqPkt mem me target ttl seqno)

def dsrRrepSend (srt srtToMe : DsrSrt) : DsrM Unit := do
  let mem ← kmalloc
  let me ← myAddr
  xmitPkt xmit .rrepSend (rrepPkt mem me srt srtToMe)

def dsrAckSend (dst : InAddr) (id : ℕ) : DsrM Unit := do
  let mem ← kmalloc
  let me ← myAddr
  xmitPkt xmit .ackSend (ackPkt mem me dst id)

def dsrAckReqSend (neigh : InAddr) (id : ℕ) : DsrM Unit := do
  let mem ← kmalloc
  let me ← myAddr
  xmitPkt xmit .ackReqSend (ackReqPkt mem me neigh id)

def dsrRerrSend (trigg : DsrPkt) (unreach : InAddr) : DsrM Unit := do
  let mem ← kmalloc
  let me ← myAddr
  let maxSalvage ← confVal .maxSalvageCount
  if trigg.src = me then pure ()
  else
    match trigg.srtOpt with
    | none => pure ()
    | some p =>
        let salv := srtOptSalv trigg p
        let dst := if salv = 0 then trigg.src else trigg.addrField p 8
        match ← dsrRtcFind me dst with
        | none => pure ()
        | some srt => xmitPkt xmit .rerrSend (rerrPkt mem me dst unreach maxSalvage srt trigg salv)

def maintBufSalvage (dp : DsrPkt) : DsrM Int := do
  let mem ← kmalloc
  let me ← myAddr
  match ← dsrRtcFind me dp.dst with
  | none => pure (-1)
  | some alt =>
      match salvagePkt mem me alt dp with
      | none => pure (-1)
      | some dp' =>
          if salvageOverrun dp dp' then throw .oops
          else
            xmit .salvage dp'
            pure 0

def salvageLoop (nxtHop : InAddr) : ℕ → DsrM Unit
  | 0 => throw .hang
  | fuel + 1 => do
      let s ← get
      match s.maintBuf.findDetach fun m => m.nxtHop = nxtHop with
      | none => pure ()
      | some (m, t) =>
          setMaintBuf t
          let _ ← maintBufSalvage xmit m.dp
          salvageLoop nxtHop fuel

def maintBufGiveUp (m : MaintEntry) : DsrM Unit := do
  let s ← get
  if m.ackReqSent then
    emitMaint (.linkBreak m)
    rtcLinkDel s.ifaddr m.nxtHop
    dsrRerrSend xmit m.dp m.nxtHop
    let _ ← maintBufSalvage xmit m.dp
    salvageLoop xmit m.nxtHop s.budget
  else pure ()

def maintBufRexmt (m : MaintEntry) : DsrM Unit := do
  let now ← gettime
  let m := { m with txTime := now, expires := timevalAddUsecs now m.rto }
  if m.ackReqSent then
    emitMaint (.request m)
    dsrAckReqSend xmit m.nxtHop m.id
  let s ← get
  setMaintBuf ((s.maintBuf.add m fun p => timevalDiff p.expires m.expires > 0).getD s.maintBuf)

def maintBufTimeoutUnlocked (setTimeout : DsrM Unit) : DsrM Unit := do
  let s ← get
  if s.ackTimer.isSome then pure ()
  else
    match s.maintBuf.detachFirst with
    | none => pure ()
    | some (m, t) =>
        setMaintBuf t
        let m := { m with rexmt := incUint32 m.rexmt }
        let maxRexmt ← confVal .maxMaintRexmt
        if maxRexmt ≤ m.rexmt then maintBufGiveUp xmit m else maintBufRexmt xmit m
        setTimeout

end Xmit

def maintBufSetMaxLen (maxLen : ℕ) : DsrM Unit :=
  modify fun s => { s with maintBuf := { s.maintBuf with maxLen := maxLen } }

def maintEntryCreate (dp : DsrPkt) (id rto : ℕ) : DsrM MaintEntry := do
  let mem ← kmalloc
  let now ← gettime
  let skb ← ofOption dp.skb
  let s ← get
  pure { nxtHop := dp.nxtHop, rexmt := 0, id := id, txTime := now
         expires := timevalAddUsecs now rto, rto := rto, ackReqSent := false
         dp := { dsrPktAlloc mem skb with nxtHop := dp.nxtHop }, born := s.out.length }

section Knot

variable (setTimeout : DsrM Unit)

def maintBufEnqueue (m : MaintEntry) : DsrM Unit :=
  locked .maintBuf do
    let s ← get
    match s.maintBuf.addTail m with
    | none => pure ()
    | some t =>
        emitMaint (.buffered m s.maintBuf.head)
        setMaintBuf t
        setTimeout

def maintBufAdd (dp : DsrPkt) : DsrM DsrPkt := do
  let mem ← kmalloc
  let now ← gettime
  match ← neighTblQuery dp.nxtHop with
  | none => pure dp
  | some info =>
      let m ← maintEntryCreate dp info.id info.rto
      if dp.requestAck then
        let holdoff ← confValToUsecs .maintHoldoffTime
        if toUint64 (timevalDiff now info.lastAckReq) > holdoff then
          neighTblSetAckReqTime m.nxtHop
          neighTblIdInc m.nxtHop
          let dp := dsrAckReqOptAdd mem dp m.id
          emit (.ackReq m.nxtHop m.id)
          maintBufEnqueue setTimeout { m with ackReqSent := true }
          pure dp
        else
          maintBufEnqueue setTimeout m
          pure dp
      else pure dp

def dsrHwHeaderCreate (dp : DsrPkt) : DsrM (Option HwAddr) := do
  if dp.dst = dsrBroadcast then pure none
  else
    let mem ← kmalloc
    let info ← neighTblQuery dp.nxtHop
    pure (some ((info.map NeighborInfo.hwAddr).getD (mem 0).toNat))

def ackDue (s : DsrNode) (dp : DsrPkt) : Bool :=
  match s.neighTbl.find fun n => n.addr = dp.nxtHop with
  | none => false
  | some n =>
      toUint64 (timevalDiff s.now n.lastAckReq) >
        usecsOf .maintHoldoffTime (s.confvals .maintHoldoffTime)

def devQueueXmit (site : XmitSite) (dp : DsrPkt) : DsrM Unit := do
  let s ← get
  if s.slaveDev then
    let hwDest ← dsrHwHeaderCreate dp
    emit (.send site { hwDest := hwDest, nxtHop := dp.nxtHop, skb := dsrSkbCreate dp })
  else pure ()

def nsPacketDest (dp : DsrPkt) : DsrM (Option (Option HwAddr)) := do
  if dp.dst = dsrBroadcast then pure (some none)
  else
    match ← neighTblQuery dp.nxtHop with
    | none => pure none
    | some info => pure (some (some info.hwAddr))

def nsSchedule (site : XmitSite) (dp : DsrPkt) : DsrM Unit := do
  match ← nsPacketDest dp with
  | none => pure ()
  | some hwDest =>
      if dp.iph.ttl = 0 then pure ()
      else emit (.send site { hwDest := hwDest, nxtHop := dp.nxtHop, skb := dsrSkbCreate dp })

def xmitVia (queue : XmitSite → DsrPkt → DsrM Unit) (site : XmitSite) (dp : DsrPkt) : DsrM Unit := do
  let s ← get
  emit (.xmit site dp (ackDue s dp))
  let dp ← if dp.requestAck then maintBufAdd setTimeout dp else pure dp
  queue site dp

def dsrDevXmit (site : XmitSite) (dp : DsrPkt) : DsrM Unit := xmitVia setTimeout devQueueXmit site dp

def nsXmitNode (site : XmitSite) (dp : DsrPkt) : DsrM Unit := xmitVia setTimeout nsSchedule site dp

def buildXmit (site : XmitSite) (dp : DsrPkt) : DsrM Unit := do
  let s ← get
  if s.locking then dsrDevXmit setTimeout site dp else nsXmitNode setTimeout site dp

end Knot

def maintBufSetTimeoutUnlocked : ℕ → DsrM Unit
  | 0 => throw .hang
  | fuel + 1 => do
      let s ← get
      match s.maintBuf.find MaintEntry.ackReqSent with
      | none => pure ()
      | some m =>
          let expires := timevalAddUsecs m.txTime m.rto
          setMaintBuf (s.maintBuf.findDo MaintEntry.ackReqSent fun m => { m with expires := expires })
          if timevalDiff s.now m.txTime > toInt32 m.rto then
            maintBufTimeoutUnlocked (buildXmit (maintBufSetTimeoutUnlocked fuel))
              (maintBufSetTimeoutUnlocked fuel)
          else setAckTimer (some expires)

def xmit (site : XmitSite) (dp : DsrPkt) : DsrM Unit := do
  let s ← get
  buildXmit (maintBufSetTimeoutUnlocked s.budget) site dp

def maintBufSetTimeout : DsrM Unit := do
  let s ← get
  maintBufSetTimeoutUnlocked s.budget

def maintBufTimeout : DsrM Unit := do
  setAckTimer none
  locked .maintBuf (maintBufTimeoutUnlocked xmit maintBufSetTimeout)

def maintBufDelAll (nxtHop : InAddr) : DsrM Unit :=
  locked .maintBuf do
    setAckTimer none
    let s ← get
    setMaintBuf (s.maintBuf.forEachDel fun m => m.nxtHop = nxtHop)
    maintBufSetTimeout

def ackRtt (now : Timeval) (nxtHop : InAddr) (id : ℕ) (ms : List MaintEntry) : ℕ :=
  ms.foldl (fun rtt m => if m.nxtHop = nxtHop ∧ m.id = id ∧ m.rexmt = 0 then
    toUint64 (timevalDiff now m.txTime) else rtt) 0

def maintBufDelAllId (nxtHop : InAddr) (id : ℕ) : DsrM Unit :=
  locked .maintBuf do
    setAckTimer none
    emitMaint (.acked nxtHop id)
    let s ← get
    setMaintBuf (s.maintBuf.forEachDel fun m => m.nxtHop = nxtHop && m.id ≤ id)
    let rtt := ackRtt s.now nxtHop id s.maintBuf.head
    if rtt > 0 then neighTblSetRto nxtHop rtt
    maintBufSetTimeout

inductive Verdict
  | drop | send
deriving DecidableEq, Repr

def sendBufSetMaxLen (maxLen : ℕ) : DsrM Unit :=
  modify fun s => { s with sendBuf := { s.sendBuf with maxLen := maxLen } }

def sendBufEvict : DsrM Unit := do
  let s ← get
  match s.sendBuf.detachFirst with
  | none => pure ()
  | some (f, t) =>
      setSendBuf t
      emitSendBuf .overflow [f]

def sendBufAddAgain (e : SendBufEntry) : DsrM Bool :=
  locked .sendBuf do
    let s ← get
    match s.sendBuf.addTail e with
    | some t =>
        setSendBuf t
        pure true
    | none =>
        emitSendBuf .refused [e]
        pure false

def sendBufEnqueuePacket (dp : DsrPkt) : DsrM Bool := do
  let now ← gettime
  let timeout ← confValToUsecs .sendBufferTimeout
  let s ← get
  let e : SendBufEntry := { dp := dp, qtime := now, born := s.out.length }
  emitSendBuf .given [e]
  let (empty, res) ← locked .sendBuf do
    let s ← get
    let empty : Bool := s.sendBuf.head = []
    match s.sendBuf.addTail e with
    | some t =>
        setSendBuf t
        pure (empty, true)
    | none =>
        sendBufEvict
        let res ← sendBufAddAgain e
        pure (empty, res)
  if res && empty then setSendBufTimer (some (timevalAddUsecs now timeout))
  pure res

def sendBufDropLoop (dst : InAddr) : ℕ → Bool → DsrM Unit
  | 0, _ => throw .hang
  | fuel + 1, first => do
      let s ← get
      match s.sendBuf.findDetach fun e => e.dp.dst = dst with
      | none => pure ()
      | some (e, t) =>
          setSendBuf t
          if first && s.locking then emit (.icmp e.dp)
          emitSendBuf .dropped [e]
          sendBufDropLoop dst fuel false

def sendBufSendOne (e : SendBufEntry) : DsrM Unit := do
  let mem ← kmalloc
  match ← dsrRtcFind e.dp.src e.dp.dst with
  | none => emitSendBuf .noRoute [e]
  | some srt =>
      match dsrSrtAdd mem { e.dp with srt := some srt } with
      | none => emitSendBuf .noRoute [e]
      | some dp =>
          xmit .sendBuf dp
          emitSendBuf (.sent · dp) [e]

def sendBufSendLoop (dst : InAddr) : ℕ → DsrM Unit
  | 0 => throw .hang
  | fuel + 1 => do
      let s ← get
      match s.sendBuf.findDetach fun e => e.dp.dst = dst with
      | none => pure ()
      | some (e, t) =>
          setSendBuf t
          sendBufSendOne e
          sendBufSendLoop dst fuel

def sendBufSetVerdict (verdict : Verdict) (dst : InAddr) : DsrM Unit :=
  locked .sendBuf do
    let s ← get
    match verdict with
    | .drop => sendBufDropLoop dst (s.sendBuf.head.length + 1) true
    | .send => sendBufSendLoop dst (s.sendBuf.head.length + 1)

def sendBufTimeout : DsrM Unit := do
  setSendBufTimer none
  let now ← gettime
  let timeout ← confValToUsecs .sendBufferTimeout
  locked .sendBuf do
    let s ← get
    setSendBuf (s.sendBuf.forEachDel fun e => timevalDiff now e.qtime ≥ toInt32 timeout)
    emitSendBuf .expired (s.sendBuf.head.filter fun e => timevalDiff now e.qtime ≥ toInt32 timeout)
  let first ← locked .sendBuf do
    let s ← get
    pure s.sendBuf.head.head?
  match first with
  | none => pure ()
  | some e => setSendBufTimer (some (timevalAddUsecs e.qtime timeout))

def sendBufFlush : DsrM Unit :=
  locked .sendBuf do
    let s ← get
    setSendBuf s.sendBuf.flush
    emitSendBuf .flushed s.sendBuf.head

def rreqTblStart (target : InAddr) : DsrM Bool := do
  let ref ← rreqTblFindLast target
  let s ← get
  let timeout ← confValToUsecs .nonpropRequestTimeout
  if (s.rreqTbl.find fun e => e.ref = ref && e.state = .inRouteDisc).isSome then pure false
  else
    rreqTblUpdate ref fun e =>
      { e with lastUsed := s.now, ttl := ttlStart, timeout := timeout, state := .inRouteDisc
               numRexmts := 0, timer := some (timevalAddUsecs s.now timeout) }
    emit (.discovery target .started)
    pure true

def dsrRreqRouteDiscovery (target : InAddr) : DsrM Unit := do
  if ← locked .rreqTbl (rreqTblStart target) then dsrRreqSend xmit target ttlStart
  else pure ()

def rreqTblTakeOut (ref : ℕ) : DsrM RreqTblEntry :=
  locked .rreqTbl do
    let s ← get
    let (e, t) ← ofOption (s.rreqTbl.findDetach fun e => e.ref = ref)
    setRreqTbl t
    pure { e with timer := none }

def rreqTblPutBack (e : RreqTblEntry) : DsrM Unit :=
  locked .rreqTbl do
    let s ← get
    setRreqTbl ((s.rreqTbl.addTail e).getD s.rreqTbl)

def rreqTblTimeout (ref : ℕ) : DsrM Unit := do
  let e ← rreqTblTakeOut ref
  let maxRexmt ← confVal .maxRequestRexmt
  if maxRexmt ≤ e.numRexmts then
    emit (.discovery e.nodeAddr .maxRexmt)
    rreqTblPutBack { e with state := .idle }
  else
    let maxPeriod ← confValToUsecs .maxRequestPeriod
    let now ← gettime
    let ttl := if maxTtl < 2 * e.ttl then maxTtl else 2 * e.ttl
    let timeout := if maxPeriod < toUint64 (2 * e.timeout) then maxPeriod else toUint64 (2 * e.timeout)
    dsrRreqSend xmit e.nodeAddr ttl
    rreqTblPutBack
      { e with numRexmts := incUint32 e.numRexmts, ttl := ttl, timeout := timeout, lastUsed := now
               timer := some (timevalAddUsecs now timeout) }

end DsrUu
