import DsrUu.Node.Send

namespace DsrUu

inductive DsrPktAction
  | none | srtRemove | sendIcmp | sendRrep | sendBuffered | sendAck | forward | forwardRreq | drop
  | error | deliver
deriving DecidableEq, Repr

abbrev Handler := DsrPkt → OptPtr → DsrM (DsrPkt × List DsrPktAction)

def rrepOptAddrsLen (dp : DsrPkt) (p : OptPtr) : ℕ := dp.optLength p - 5

def rrepOptDst (dp : DsrPkt) (p : OptPtr) : InAddr :=
  if dp.optLength p = 0 then dp.addrField { p with off := p.off - 4 } 0
  else if dp.optLength p < 5 then dp.addrField p 0
  else dp.addrField p (4 + 4 * (rrepOptAddrsLen dp p / 4))

def rrepOptSrt (mem : ℕ → UInt8) (dp : DsrPkt) (p : OptPtr) : DsrSrt :=
  dsrSrtNew (srtFlags mem) dp.dst (rrepOptDst dp p) (rrepOptAddrsLen dp p)
    (dp.fieldsAt p 4 (rrepOptAddrsLen dp p))

def dsrRrepOptRecv : Handler := fun dp p => do
  if dp.promiscRecv || maxRrepOpts ≤ dp.rrepOpt.length then pure (dp, [.error])
  else
    let dp := { dp with rrepOpt := dp.rrepOpt ++ [p] }
    if dp.optLength p < 5 then pure (dp, [.error])
    else
      let mem ← kmalloc
      let me ← myAddr
      let srt := rrepOptSrt mem dp p
      dsrRtcAdd srt
      rreqTblRouteDiscoveryCancel srt.dst
      if dp.dst = me then pure (dp, [.sendBuffered]) else pure (dp, [.forward])

def dsrRerrOptRecv : Handler := fun dp p => do
  let dp := { dp with rerrOpt := dp.rerrOpt ++ [p] }
  if (dp.fieldAt p 2).toNat = nodeUnreachable then
    maintBufDelAll (dp.addrField p 8)
    rtcLinkDel (dp.addrField p 4) (dp.addrField p 12)
  pure (dp, [])

def dsrAckOptRecv (dp : DsrPkt) (p : OptPtr) : DsrM (List DsrPktAction) := do
  let me ← myAddr
  if dp.addrField p 8 ≠ me then pure [.error]
  else
    maintBufDelAllId (dp.addrField p 4) (dp.be16Field p 2)
    pure [.none]

def dsrAckReqOptRecv : Handler := fun dp p => do
  if dp.promiscRecv then pure (dp, [.error])
  else
    let dp := { dp with ackReqOpt := some p }
    let dp := if dp.srtOpt = none then { dp with prvHop := dp.src } else dp
    dsrAckSend xmit dp.prvHop (dp.be16Field p 2)
    pure (dp, [.none])

def srtOptSrt (mem : ℕ → UInt8) (dp : DsrPkt) (p : OptPtr) : DsrSrt :=
  dsrSrtNew (srtFlags mem) dp.src dp.dst (dp.optLength p) (dp.fieldsAt p 4 (dp.optLength p))

def srtOptCacheSplit (me : InAddr) (mem : ℕ → UInt8) (dp : DsrPkt) (srt : DsrSrt) : DsrM Unit := do
  if dp.dst = me then dsrRtcAdd srt
  else
    match dsrSrtNewSplit (srtFlags mem) srt (if dp.promiscRecv then dp.prvHop else me) with
    | none => pure ()
    | some split => dsrRtcAdd split

def srtOptCache (me : InAddr) (mem : ℕ → UInt8) (dp : DsrPkt) (srt : DsrSrt) : DsrM Unit := do
  if dp.promiscRecv then pure () else rtcLinkAdd me dp.prvHop
  srtOptCacheSplit me mem dp srt

def automaticRouteShortening (me nextHopIntended : InAddr) (sleft : ℕ) (dp : DsrPkt)
    (srt : DsrSrt) : DsrM Bool := do
  let enabled ← confVal .automaticRouteShortening
  if enabled ≠ 0 ∧ nextHopIntended ≠ me ∧ dsrSrtFindAddr srt me sleft then
    if ← gratRrepTblFind dp.src dp.prvHop then pure true
    else
      let mem ← kmalloc
      let cut := dsrSrtShortcut (srtFlags mem) srt dp.prvHop me
      let back :=
        if cut.n = 0 then some (dsrSrtNewRev (srtFlags mem) cut)
        else dsrSrtNewSplitRev (srtFlags mem) cut me
      match back with
      | none => pure false
      | some back =>
          gratRrepTblAdd dp.src dp.prvHop
          dsrRrepSend xmit back cut
          pure true
  else pure true

def srtOptNote (dp : DsrPkt) (p : OptPtr) (srt : DsrSrt) (sleft : ℕ) : DsrPkt :=
  { dp with srtOpt := some p, srt := some srt, salvage := srtOptSalv dp p
            prvHop := dsrSrtPrevHop srt ((sleft : Int) - 1)
            nxtHop := dsrSrtNextHop srt ((sleft : Int) - 1) }

def dsrSrtOptRecv : Handler := fun dp p => do
  let me ← myAddr
  let mem ← kmalloc
  let srt := srtOptSrt mem dp p
  let sleft := srtOptSleft dp p
  let dp := srtOptNote dp p srt sleft
  neighTblAdd dp.prvHop dp.hSource
  srtOptCache me mem dp srt
  let ok ← automaticRouteShortening me (dsrSrtNextHop srt sleft) sleft dp srt
  if ¬ ok ∨ dp.promiscRecv then pure (dp, [.drop])
  else if sleft = 0 then pure (dp, [.srtRemove])
  else if srt.n < sleft then pure (dp, [.sendIcmp])
  else pure (srtOptSetSleft dp p (sleft - 1), [.forward])

def rreqOptSrt (mem : ℕ → UInt8) (me : InAddr) (dp : DsrPkt) (p : OptPtr) : DsrSrt :=
  dsrSrtNew (srtFlags mem) dp.src me (dp.optLength p - 6) (dp.fieldsAt p 8 (dp.optLength p - 6))

def dsrLastOpt (dp : DsrPkt) (p : OptPtr) : Bool := dp.pLen + 4 = p.off + dp.optLength p + 2

def rreqForward (mem : ℕ → UInt8) (me : InAddr) (dp : DsrPkt) (p : OptPtr) : DsrPkt :=
  let n := (dp.optLength p - 6) / 4
  let dp := ((dsrPktAllocOptsExpand mem dp 4).map Prod.fst).getD dp
  let dp :=
    if dsrLastOpt dp p then dp
    else dp.writeField p (dp.optLength p + 6) (dp.fieldsAt p (dp.optLength p + 2) 4)
  let dp := dp.writeField p (8 + 4 * n) me.bytes
  let dp := dp.writeField p 1 [UInt8.ofNat (dp.optLength p + 4)]
  let dp := dp.write 2 (Bytes.toBe16 ((dp.pLen + 4) % 65536))
  dsrBuildIp dp dp.src dp.dst (dp.iph.totLen + 4) ipprotoDsr dp.iph.ttl

def dsrRreqOptRecv : Handler := fun dp p => do
  if dp.promiscRecv then pure (dp, [.drop])
  else
    let dp := { dp with numRreqOpts := dp.numRreqOpts + 1 }
    if dp.numRreqOpts > 1 then pure (dp, [.error])
    else
      let dp := { dp with rreqOpt := some p }
      let me ← myAddr
      let mem ← kmalloc
      let trg := dp.addrField p 4
      let id := dp.be16Field p 2
      if ← dsrRreqDuplicate dp.src trg id then pure (dp, [.drop])
      else
        rreqTblAddId dp.src trg id
        if dp.optLength p < 6 then pure (dp, [.error])
        else
          let srt := rreqOptSrt mem me dp p
          let dp := { dp with srt := some srt }
          let rev := dsrSrtNewRev (srtFlags mem) srt
          dsrRtcAdd rev
          let dp := { dp with prvHop := if rev.laddrs > 0 then rev.addrs.headD (junkAddr mem) else rev.dst }
          neighTblAdd dp.prvHop dp.hSource
          sendBufSetVerdict .send rev.dst
          if trg = me then
            let dp := dp.setDaddr trg
            dsrRrepSend xmit rev srt
            pure (dp, [.none])
          else if srt.src = me then pure (dp, [.drop])
          else if me ∈ srt.addrs.take srt.n then pure (dp, [.drop])
          else
            match ← dsrRtcFind me trg with
            | none => pure (rreqForward mem me dp p, [.forwardRreq])
            | some rc =>
                let cat := dsrSrtConcatenate (srtFlags mem) srt rc
                if dsrSrtCheckDuplicate cat then pure (rreqForward mem me dp p, [.forwardRreq])
                else
                  let dp := dp.setDaddr trg
                  dsrRrepSend xmit rev cat
                  pure (dp, [.none])

def dsrOptRecvOne (dp : DsrPkt) (p : OptPtr) : DsrM (DsrPkt × List DsrPktAction) := do
  match optTypeOf (dp.fieldAt p 0) with
  | .rreq => if dp.promiscRecv then pure (dp, []) else dsrRreqOptRecv dp p
  | .rrep => if dp.promiscRecv then pure (dp, []) else dsrRrepOptRecv dp p
  | .rerr =>
      if dp.promiscRecv || maxRerrOpts ≤ dp.rerrOpt.length then pure (dp, [])
      else dsrRerrOptRecv dp p
  | .ack =>
      if dp.promiscRecv || maxAckOpts ≤ dp.ackOpt.length then pure (dp, [])
      else
        let dp := { dp with ackOpt := dp.ackOpt ++ [p] }
        let action ← dsrAckOptRecv dp p
        pure (dp, action)
  | .srt => dsrSrtOptRecv dp p
  | .ackReq => dsrAckReqOptRecv dp p
  | _ => pure (dp, [])

def dsrOptRecvLoop : ℕ → ℕ → ℕ → OptPtr → DsrPkt → List DsrPktAction →
    DsrM (DsrPkt × List DsrPktAction)
  | 0, _, _, _, dp, action => pure (dp, action)
  | fuel + 1, dsrLen, l, p, dp, action => do
      if l < dsrLen ∧ dsrLen - l > 2 then
        if optTypeOf (dp.fieldAt p 0) = .pad1 then
          dsrOptRecvLoop fuel dsrLen (l + 1) { p with off := p.off + 2 } dp action
        else
          let (dp, a) ← dsrOptRecvOne dp p
          let size := dp.optLength p + 2
          dsrOptRecvLoop fuel dsrLen (l + size) { p with off := p.off + size } dp (action ++ a)
      else pure (dp, action)

def dsrOptRecv (dp : DsrPkt) : DsrM (DsrPkt × List DsrPktAction) := do
  let me ← myAddr
  let action : List DsrPktAction := if dp.dst = me ∧ dp.payloadLen ≠ 0 then [.deliver] else []
  dsrOptRecvLoop dp.optsLen dp.optsLen dsrOptHdrLen (dp.ptr dsrOptHdrLen) dp action

def dsrDevDeliver (dp : DsrPkt) : DsrM Unit :=
  emit (.deliver (if dp.dh.isSome then dsrOptRemove dp else dp))

def sendBuffered (dp : DsrPkt) : List OptPtr → DsrM Unit
  | [] => pure ()
  | p :: ps => do
      sendBufSetVerdict .send (rrepOptDst dp p)
      sendBuffered dp ps

def dispatch (dp : DsrPkt) (action : List DsrPktAction) : List DsrPktAction → DsrM Unit
  | [] => pure ()
  | a :: rest =>
      if a ∈ action then
        match a with
        | .drop | .error => pure ()
        | .forward => if dp.iph.ttl < 1 then pure () else xmit .forward dp
        | .forwardRreq => xmit .forwardRreq dp
        | .sendBuffered => do
            sendBuffered dp dp.rrepOpt
            dispatch dp action rest
        | .deliver => dsrDevDeliver dp
        | _ => dispatch dp action rest
      else dispatch dp action rest

def dispatchOrder : List DsrPktAction :=
  [.none, .srtRemove, .sendIcmp, .sendRrep, .sendBuffered, .sendAck, .forward, .forwardRreq, .drop,
    .error, .deliver]

def dsrRecv (dp : DsrPkt) : DsrM Unit := do
  let me ← myAddr
  if dp.promiscRecv && me = dp.src then pure ()
  else
    let (dp, action) ← dsrOptRecv dp
    if dp.promiscRecv then pure () else dispatch dp action dispatchOrder

def dsrStartXmit (dp : DsrPkt) : DsrM Unit := do
  let mem ← kmalloc
  match ← dsrRtcFind dp.src dp.dst with
  | some srt => xmitPkt xmit .startXmit (dsrSrtAdd mem { dp with srt := some srt })
  | none =>
      if ← sendBufEnqueuePacket dp then dsrRreqRouteDiscovery dp.dst else pure ()

def dsrIpRecv (promisc : Bool) (skb : Skb) : DsrM Unit := do
  let mem ← kmalloc
  let dp := { dsrPktAlloc mem skb with promiscRecv := promisc }
  if skb.data.length + 4 * skb.iph.ihl < skb.iph.totLen then pure () else dsrRecv dp

def dsrDevStartXmit (skb : Skb) : DsrM Unit := do
  let s ← get
  if s.slaveDev then
    let mem ← kmalloc
    dsrStartXmit (dsrPktAlloc mem skb)
  else pure ()

inductive Input
  | startXmit (skb : Skb)
  | recv (promisc : Bool) (skb : Skb)
  | ackTimer
  | sendBufTimer
  | rreqTimer (ref : ℕ)
  | gratTimer
  | flushLinkCache
  | setVerdict (verdict : Verdict) (dst : InAddr)

def lcFlushLocked : DsrM Unit :=
  locked .lc do
    let s ← get
    setLc (lcFlush s.lc)

def Input.handle : Input → DsrM Unit
  | .startXmit skb => dsrDevStartXmit skb
  | .recv promisc skb => dsrIpRecv promisc skb
  | .ackTimer => maintBufTimeout
  | .sendBufTimer => sendBufTimeout
  | .rreqTimer ref => rreqTblTimeout ref
  | .gratTimer => gratRrepTblTimeout
  | .flushLinkCache => lcFlushLocked
  | .setVerdict verdict dst => sendBufSetVerdict verdict dst

def Input.ready (s : DsrNode) : Input → Prop
  | .ackTimer => s.ackTimer.isSome
  | .sendBufTimer => s.sendBufTimer.isSome
  | .rreqTimer ref => ∃ e ∈ s.rreqTbl.head, e.ref = ref ∧ e.timer.isSome
  | .gratTimer => s.gratRrepTblTimer.isSome
  | _ => True

end DsrUu
