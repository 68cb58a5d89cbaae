import DsrUu.Node.Recv

namespace DsrUu

open Bytes

structure NsEnv where
  nodeaddr : InAddr → InAddr
  ptDsr : ℕ
  ptPing : ℕ
  ptNtype : ℕ
  dataPacket : ℕ → Bool
  useNetworkLayerAck : Bool

structure NsIpHdr where
  saddr : InAddr
  daddr : InAddr
  ttl : ℕ
deriving DecidableEq, Repr, Inhabited

structure HdrCmn where
  ptype : ℕ
  size : Int
  addrNone : Bool
  down : Bool
  iface : Int
  error : ℕ
  prevHop : InAddr
  nextHop : InAddr
deriving DecidableEq, Repr, Inhabited

structure NsPacket where
  cmh : HdrCmn
  iph : NsIpHdr
  macDst : ℕ
  dsruu : List UInt8
deriving DecidableEq, Repr, Inhabited

structure NsPkt where
  dp : DsrPkt
  iph : NsIpHdr
  p : Option NsPacket
deriving DecidableEq, Repr

def le16 (lo hi : UInt8) : ℕ := lo.toNat + 256 * hi.toNat

def nsOptsLenOf (opth : List UInt8) : ℕ := le16 (opth.getD 2 0) (opth.getD 3 0) + dsrOptHdrLen

def nsPLen (dp : DsrPkt) : ℕ := le16 (dp.byteAt 2) (dp.byteAt 3)

section Env

variable (env : NsEnv)

def nsPktAlloc (mem : ℕ → UInt8) (p : NsPacket) : NsPkt :=
  let dp : DsrPkt := { src := env.nodeaddr p.iph.saddr, dst := env.nodeaddr p.iph.daddr }
  let isDsr : Bool := p.cmh.ptype = env.ptDsr
  let len := if isDsr then nsOptsLenOf p.dsruu else 0
  let dp := if isDsr then dsrOptParse ((dsrPktAllocOpts mem dp len).write 0 (readAt p.dsruu 0 len)) else dp
  let prot := if isDsr then dp.nextHdr else p.cmh.ptype
  { dp := { dp with requestAck := (env.dataPacket prot || prot = env.ptPing) && env.useNetworkLayerAck
                    payloadLen := p.cmh.size - len - ipHdrLen }
    iph := p.iph
    p := some p }

def nsBuildIp (d : NsPkt) (protocol ttl : ℕ) : NsPkt :=
  { d with iph := { saddr := d.dp.src, daddr := d.dp.dst, ttl := ttl }
           p := d.p.map fun p => { p with cmh := { p.cmh with ptype := protocol } } }

def nsOptHdrBytes (len protocol : ℕ) : List UInt8 :=
  let pLen := (len - dsrOptHdrLen) % 65536
  [UInt8.ofNat protocol, 0, UInt8.ofNat pLen, UInt8.ofNat (pLen / 256)]

def nsOptHdrAdd (dp : DsrPkt) (len protocol : ℕ) : Option DsrPkt :=
  if len < dsrOptHdrLen then none else some (dp.write 0 (nsOptHdrBytes len protocol))

def nsSrtAdd (mem : ℕ → UInt8) (d : NsPkt) : Option NsPkt :=
  match d.dp.srt with
  | none => none
  | some srt =>
      let dp := { d.dp with nxtHop := dsrSrtNextHop srt srt.n }
      let len := dsrOptHdrLen + dsrSrtOptLen srt
      let prot := (d.p.map fun p => p.cmh.ptype).getD env.ptNtype
      let d := nsBuildIp { d with dp := dsrPktAllocOpts mem dp len } env.ptDsr d.iph.ttl
      (nsOptHdrAdd d.dp len prot).bind fun dp =>
        (dsrSrtOptAdd dp dsrOptHdrLen (len - dsrOptHdrLen) dp.salvage srt).map fun dp =>
          { d with dp := { dp with srtOpt := some (dp.ptr dsrOptHdrLen) } }

def nsAckReqOptBytes (id : ℕ) : List UInt8 :=
  [UInt8.ofNat OptType.ackReq.code, 2, UInt8.ofNat id, UInt8.ofNat (id / 256)]

def nsAckReqOptAdd (mem : ℕ → UInt8) (d : NsPkt) (id : ℕ) : NsPkt :=
  match d.dp.ackReqOpt with
  | some q => { d with dp := d.dp.writeField q 0 (nsAckReqOptBytes id) }
  | none =>
      let prot := (d.p.map fun p => p.cmh.ptype).getD env.ptNtype
      if d.dp.optsLen = 0 then
        let len := dsrOptHdrLen + dsrAckReqHdrLen
        let d := nsBuildIp { d with dp := dsrPktAllocOpts mem d.dp len } env.ptDsr d.iph.ttl
        { d with dp := (d.dp.write 0 (nsOptHdrBytes len prot)).write dsrOptHdrLen (nsAckReqOptBytes id) }
      else
        match dsrPktAllocOptsExpand mem d.dp dsrAckReqHdrLen with
        | none => d
        | some (dp, off) =>
            let d := nsBuildIp { d with dp := dp } env.ptDsr d.iph.ttl
            let hdr := nsOptHdrBytes (dsrOptHdrLen + nsPLen d.dp + dsrAckReqHdrLen) d.dp.nextHdr
            { d with dp := (d.dp.write 0 hdr).write off (nsAckReqOptBytes id) }

def nsMaintBufAdd (mem : ℕ → UInt8) (req : Option ℕ) (d : NsPkt) : NsPkt :=
  if d.dp.requestAck then
    match req with
    | none => d
    | some id => nsAckReqOptAdd env mem d id
  else d

def nsPacketCreate (neigh : InAddr → Option ℕ) (me : InAddr) (d : NsPkt) : Option NsPacket :=
  let p := d.p.getD default
  let addrNone : Bool := d.dp.dst = dsrBroadcast
  let len := d.dp.optsLen
  (if addrNone then some p.macDst else neigh d.dp.nxtHop).map fun mac =>
    { cmh := { ptype := env.ptDsr, size := ipHdrLen + len + d.dp.payloadLen, addrNone := addrNone, down := true
               iface := -2, error := 0, prevHop := me, nextHop := d.dp.nxtHop }
      iph := d.iph
      macDst := mac
      dsruu := d.dp.bytesAt 0 len ++ p.dsruu.drop len }

def nsXmit (mem : ℕ → UInt8) (neigh : InAddr → Option ℕ) (me : InAddr) (req : Option ℕ) (d : NsPkt) :
    Option NsPacket :=
  (nsPacketCreate env neigh me (nsMaintBufAdd env mem req d)).filter fun p => p.iph.ttl ≠ 0

def nsOptRemove (d : NsPkt) : NsPkt :=
  let d := nsBuildIp d d.dp.nextHdr d.iph.ttl
  { d with dp := dsrPktFreeOpts d.dp }

def nsDeliver (junk : Int) (d : NsPkt) : Option NsPacket :=
  let len : Int := if d.dp.dh.isSome then d.dp.optsLen else junk
  let d := if d.dp.dh.isSome then nsOptRemove d else d
  let dsrLen : Int := if len ≠ 0 then len else 0
  d.p.map fun p => { p with cmh := { p.cmh with size := p.cmh.size - (ipHdrLen - dsrLen) } }

inductive NsRecv
  | dsrRecv (d : NsPkt)
  | own (d : NsPkt)
  | startXmit (d : NsPkt)
  | free (d : NsPkt)

def nsRecv (mem : ℕ → UInt8) (me : InAddr) (p : NsPacket) : NsRecv :=
  let d := nsPktAlloc env mem p
  if p.cmh.ptype = env.ptDsr then
    if d.dp.src ≠ me then .dsrRecv d else .own d
  else if d.dp.src = me then .startXmit { d with dp := { d.dp with payloadLen := d.dp.payloadLen + ipHdrLen } }
  else .free d

end Env

def nsSrtNote (mem : ℕ → UInt8) (dp : DsrPkt) (q : OptPtr) : DsrPkt :=
  srtOptNote dp q (srtOptSrt mem dp q) (srtOptSleft dp q)

def nsSrtForward (mem : ℕ → UInt8) (dp : DsrPkt) (q : OptPtr) : DsrPkt :=
  srtOptSetSleft (nsSrtNote mem dp q) q (srtOptSleft dp q - 1)

end DsrUu
