import DsrUu.Pkt.Bytes
import DsrUu.Srt.Model

namespace DsrUu

open Bytes

def defaultTailroom : ℕ := 128
def dsrOptHdrLen : ℕ := 4
def ipHdrLen : ℕ := 20
def ipprotoDsr : ℕ := 168
def ipDefTtl : ℕ := 64
def dsrNoNextHdrType : ℕ := 0
def maxRrepOpts : ℕ := 10
def maxRerrOpts : ℕ := 10
def maxAckOpts : ℕ := 10
def dsrSrtHdrLen : ℕ := 4
def dsrRreqHdrLen : ℕ := 8
def dsrRrepHdrLen : ℕ := 4
def dsrRerrHdrLen : ℕ := 12
def dsrAckHdrLen : ℕ := 12
def dsrAckReqHdrLen : ℕ := 4
def nodeUnreachable : ℕ := 1

inductive OptType
  | padn | rrep | rreq | rerr | prevHop | ack | srt | timeout | flowid | ackReq | pad1
  | unknown
deriving DecidableEq, Repr

def OptType.code : OptType → ℕ
  | padn => 0
  | rrep => 1
  | rreq => 2
  | rerr => 3
  | prevHop => 5
  | ack => 32
  | srt => 96
  | timeout => 128
  | flowid => 129
  | ackReq => 160
  | pad1 => 224
  | unknown => 255

def optTypeOf (b : UInt8) : OptType :=
  match b.toNat with
  | 0 => .padn
  | 1 => .rrep
  | 2 => .rreq
  | 3 => .rerr
  | 5 => .prevHop
  | 32 => .ack
  | 96 => .srt
  | 128 => .timeout
  | 129 => .flowid
  | 160 => .ackReq
  | 224 => .pad1
  | _ => .unknown

structure IpHdr where
  ihl : ℕ
  totLen : ℕ
  ttl : ℕ
  protocol : ℕ
  saddr : InAddr
  daddr : InAddr
deriving DecidableEq, Repr, Inhabited

abbrev HwAddr := ℕ

structure Skb where
  hSource : HwAddr
  iph : IpHdr
  data : List UInt8
deriving DecidableEq, Repr

structure OptBuf where
  raw : List UInt8
  tail : ℕ
deriving DecidableEq, Repr

structure OptPtr where
  gen : ℕ
  off : ℕ
deriving DecidableEq, Repr

inductive NhPtr
  | null | skb | ipData
deriving DecidableEq, Repr

theorem nhPtr_ipData_ne : NhPtr.ipData ≠ .null := by decide

theorem nhPtr_skb_ne : NhPtr.skb ≠ .null := by decide

structure DsrPkt where
  src : InAddr := default
  dst : InAddr := default
  nxtHop : InAddr := default
  prvHop : InAddr := default
  promiscRecv : Bool := false
  requestAck : Bool := false
  xmitJitter : Bool := false
  salvage : ℕ := 0
  hSource : HwAddr := 0
  nh : NhPtr := .null
  ipData : IpHdr := default
  dh : Option OptBuf := none
  gen : ℕ := 0
  numRreqOpts : ℕ := 0
  srtOpt : Option OptPtr := none
  rreqOpt : Option OptPtr := none
  rrepOpt : List OptPtr := []
  rerrOpt : List OptPtr := []
  ackOpt : List OptPtr := []
  ackReqOpt : Option OptPtr := none
  srt : Option DsrSrt := none
  payload : List UInt8 := []
  payloadLen : Int := 0
  skb : Option Skb := none
deriving DecidableEq, Repr

namespace DsrPkt

def iph (dp : DsrPkt) : IpHdr :=
  match dp.nh, dp.skb with
  | .skb, some skb => skb.iph
  | _, _ => dp.ipData

def setDaddr (dp : DsrPkt) (a : InAddr) : DsrPkt :=
  match dp.nh, dp.skb with
  | .skb, some skb => { dp with skb := some { skb with iph := { skb.iph with daddr := a } } }
  | _, _ => { dp with ipData := { dp.ipData with daddr := a } }

def optsLen (dp : DsrPkt) : ℕ :=
  match dp.dh with
  | none => 0
  | some b => b.tail

def tailroom (dp : DsrPkt) : ℕ :=
  match dp.dh with
  | none => 0
  | some b => b.raw.length - b.tail

def byteAt (dp : DsrPkt) (off : ℕ) : UInt8 :=
  match dp.dh with
  | none => 0
  | some b => b.raw.getD off 0

def bytesAt (dp : DsrPkt) (off len : ℕ) : List UInt8 :=
  match dp.dh with
  | none => readAt [] off len
  | some b => readAt b.raw off len

def write (dp : DsrPkt) (off : ℕ) (xs : List UInt8) : DsrPkt :=
  match dp.dh with
  | none => dp
  | some b => { dp with dh := some { b with raw := writeAt b.raw off xs } }

def ptr (dp : DsrPkt) (off : ℕ) : OptPtr := { gen := dp.gen, off := off }

def live (dp : DsrPkt) (p : OptPtr) : Bool := dp.dh.isSome && p.gen = dp.gen

def fieldAt (dp : DsrPkt) (p : OptPtr) (i : ℕ) : UInt8 := if dp.live p then dp.byteAt (p.off + i) else 0

def fieldsAt (dp : DsrPkt) (p : OptPtr) (i len : ℕ) : List UInt8 :=
  if dp.live p then dp.bytesAt (p.off + i) len else readAt [] 0 len

def writeField (dp : DsrPkt) (p : OptPtr) (i : ℕ) (xs : List UInt8) : DsrPkt :=
  if dp.live p then dp.write (p.off + i) xs else dp

def optLength (dp : DsrPkt) (p : OptPtr) : ℕ := (dp.fieldAt p 1).toNat

def addrField (dp : DsrPkt) (p : OptPtr) (i : ℕ) : InAddr :=
  ⟨dp.fieldAt p i, dp.fieldAt p (i + 1), dp.fieldAt p (i + 2), dp.fieldAt p (i + 3)⟩

def be16Field (dp : DsrPkt) (p : OptPtr) (i : ℕ) : ℕ := be16 (dp.fieldAt p i) (dp.fieldAt p (i + 1))

def pLen (dp : DsrPkt) : ℕ := be16 (dp.byteAt 2) (dp.byteAt 3)

def nextHdr (dp : DsrPkt) : ℕ := (dp.byteAt 0).toNat

end DsrPkt

def dsrPktAllocOpts (mem : ℕ → UInt8) (dp : DsrPkt) (len : ℕ) : DsrPkt :=
  { dp with dh := some { raw := fill mem (len + defaultTailroom), tail := len }
            gen := dp.gen + 1 }

def dsrPktAllocOptsExpand (mem : ℕ → UInt8) (dp : DsrPkt) (len : ℕ) : Option (DsrPkt × ℕ) :=
  match dp.dh with
  | none => none
  | some b =>
      if dp.tailroom > len then some ({ dp with dh := some { b with tail := b.tail + len } }, b.tail)
      else
        let dp' := dsrPktAllocOpts mem dp (b.tail + len)
        some (dp'.write 0 (b.raw.take b.tail), b.tail)

def dsrPktFreeOpts (dp : DsrPkt) : DsrPkt :=
  { dp with dh := none, srtOpt := none, rreqOpt := none, rrepOpt := [], rerrOpt := [], ackOpt := [] }

def optHdrBytes (len protocol : ℕ) : List UInt8 :=
  UInt8.ofNat protocol :: 0 :: toBe16 ((len - dsrOptHdrLen) % 65536)

def dsrOptHdrAdd (dp : DsrPkt) (len protocol : ℕ) : Option DsrPkt :=
  if len < dsrOptHdrLen then none else some (dp.write 0 (optHdrBytes len protocol))

def dsrBuildIp (dp : DsrPkt) (src dst : InAddr) (totLen protocol ttl : ℕ) : DsrPkt :=
  let iph : IpHdr :=
    match dp.skb with
    | some skb => skb.iph
    | none => { ihl := 5, totLen := 0, ttl := (if ttl = 0 then ipDefTtl else ttl) % 256
                protocol := 0, saddr := src, daddr := dst }
  { dp with nh := .ipData, ipData := { iph with totLen := totLen % 65536, protocol := protocol } }

def dsrOptRemove (dp : DsrPkt) : DsrPkt :=
  let ipLen := 4 * dp.iph.ihl
  dsrPktFreeOpts
    (dsrBuildIp dp dp.src dp.dst (toUint32 (ipLen + dp.payloadLen)) dp.nextHdr dp.iph.ttl)

def optParseStep (dp : DsrPkt) (off : ℕ) : DsrPkt :=
  let p := dp.ptr off
  match optTypeOf (dp.byteAt off) with
  | .rreq => if dp.numRreqOpts = 0 then { dp with rreqOpt := some p } else dp
  | .rrep => if dp.rrepOpt.length < maxRrepOpts then { dp with rrepOpt := dp.rrepOpt ++ [p] } else dp
  | .rerr => if dp.rerrOpt.length < maxRerrOpts then { dp with rerrOpt := dp.rerrOpt ++ [p] } else dp
  | .ack => if dp.ackOpt.length < maxAckOpts then { dp with ackOpt := dp.ackOpt ++ [p] } else dp
  | .srt => if dp.srtOpt = none then { dp with srtOpt := some p } else dp
  | .ackReq => if dp.ackReqOpt = none then { dp with ackReqOpt := some p } else dp
  | _ => dp

def optParseLoop : ℕ → ℕ → ℕ → ℕ → DsrPkt → DsrPkt
  | 0, _, _, _, dp => dp
  | fuel + 1, dsrLen, l, off, dp =>
      if l < dsrLen ∧ dsrLen - l > 2 then
        if optTypeOf (dp.byteAt off) = .pad1 then optParseLoop fuel dsrLen (l + 1) (off + 2) dp
        else
          let size := (dp.byteAt (off + 1)).toNat + 2
          optParseLoop fuel dsrLen (l + size) (off + size) (optParseStep dp off)
      else dp

def dsrOptParse (dp : DsrPkt) : DsrPkt :=
  let dp := { dp with rrepOpt := [], rerrOpt := [], ackOpt := [], numRreqOpts := 0
                      srtOpt := none, ackReqOpt := none }
  optParseLoop dp.optsLen dp.optsLen dsrOptHdrLen dsrOptHdrLen dp

def optParseCount : ℕ → ℕ → ℕ → ℕ → ℕ → DsrPkt → ℕ
  | 0, _, _, _, n, _ => n
  | fuel + 1, dsrLen, l, off, n, dp =>
      if l < dsrLen ∧ dsrLen - l > 2 then
        if optTypeOf (dp.byteAt off) = .pad1 then optParseCount fuel dsrLen (l + 1) (off + 2) n dp
        else
          let size := (dp.byteAt (off + 1)).toNat + 2
          optParseCount fuel dsrLen (l + size) (off + size) (n + 1) dp
      else n

def dsrOptParseRet (dp : DsrPkt) : ℕ :=
  optParseCount dp.optsLen dp.optsLen dsrOptHdrLen dsrOptHdrLen 0 dp

def optFindLoop : ℕ → ℕ → ℕ → ℕ → ℕ → DsrPkt → Option OptPtr
  | 0, _, _, _, _, _ => none
  | fuel + 1, dsrLen, type, l, off, dp =>
      if l < dsrLen ∧ dsrLen - l > 2 then
        if type = (dp.byteAt off).toNat then some (dp.ptr off)
        else
          let size := (dp.byteAt (off + 1)).toNat + 2
          optFindLoop fuel dsrLen type (l + size) (off + size) dp
      else none

def dsrOptFindOpt (dp : DsrPkt) (type : ℕ) : Option OptPtr :=
  optFindLoop dp.optsLen dp.optsLen type dsrOptHdrLen dsrOptHdrLen dp

def dsrPktAlloc (mem : ℕ → UInt8) (skb : Skb) : DsrPkt :=
  let dp : DsrPkt := { skb := some skb, hSource := skb.hSource, nh := .skb
                       src := skb.iph.saddr, dst := skb.iph.daddr }
  let isDsr : Bool := skb.iph.protocol = ipprotoDsr
  let dsrOptsLen : ℕ :=
    if isDsr then be16 (skb.data.getD 2 0) (skb.data.getD 3 0) + dsrOptHdrLen else 0
  let dp :=
    if isDsr then
      dsrOptParse ((dsrPktAllocOpts mem dp dsrOptsLen).write 0 (readAt skb.data 0 dsrOptsLen))
    else dp
  let payloadLen : Int := (skb.iph.totLen : Int) - 4 * skb.iph.ihl - dsrOptsLen
  { dp with payload := readAt skb.data dsrOptsLen payloadLen.toNat
            payloadLen := payloadLen
            requestAck := payloadLen ≠ 0 }

def dsrSrtOptLen (srt : DsrSrt) : ℕ := dsrSrtHdrLen + srt.laddrs

def srtWord (f l res salv sleft : ℕ) : List UInt8 :=
  let w := f % 2 + 2 * (l % 2) + 4 * (res % 16) + 64 * (salv % 16) + 1024 * (sleft % 64)
  [UInt8.ofNat w, UInt8.ofNat (w / 256)]

def srtAddrBytes (srt : DsrSrt) : List UInt8 := readAt (encodeAddrs srt.addrs) 0 srt.laddrs

def srtOptBytes (salvage : ℕ) (srt : DsrSrt) : List UInt8 :=
  UInt8.ofNat OptType.srt.code :: UInt8.ofNat (srt.laddrs + 2) ::
    srtWord 0 0 0 salvage srt.n ++ srtAddrBytes srt

def dsrSrtOptAdd (dp : DsrPkt) (off len salvage : ℕ) (srt : DsrSrt) : Option DsrPkt :=
  if len < dsrSrtOptLen srt then none else some (dp.write off (srtOptBytes salvage srt))

def srtOptWord (dp : DsrPkt) (p : OptPtr) : ℕ :=
  (dp.fieldAt p 2).toNat + 256 * (dp.fieldAt p 3).toNat

def srtOptSalv (dp : DsrPkt) (p : OptPtr) : ℕ := srtOptWord dp p / 64 % 16

def srtOptSleft (dp : DsrPkt) (p : OptPtr) : ℕ := srtOptWord dp p / 1024

def srtOptSetSleft (dp : DsrPkt) (p : OptPtr) (sleft : ℕ) : DsrPkt :=
  let w := srtOptWord dp p % 1024 + 1024 * (sleft % 64)
  dp.writeField p 2 [UInt8.ofNat w, UInt8.ofNat (w / 256)]

def rreqOptBytes (target : InAddr) (seqno : ℕ) : List UInt8 :=
  UInt8.ofNat OptType.rreq.code :: 6 :: toBe16 (seqno % 65536) ++ target.bytes

def dsrRreqOptAdd (dp : DsrPkt) (off len : ℕ) (target : InAddr) (seqno : ℕ) : Option DsrPkt :=
  if len < dsrRreqHdrLen then none else some (dp.write off (rreqOptBytes target seqno))

def dsrRrepOptLen (srt : DsrSrt) : ℕ := dsrRrepHdrLen + srt.laddrs + 4

def rrepOptHdr (srt : DsrSrt) : List UInt8 :=
  [UInt8.ofNat OptType.rrep.code, UInt8.ofNat (srt.laddrs + 5), 0]

def dsrRrepAddSrt (dp : DsrPkt) (off : ℕ) (srt : DsrSrt) : DsrPkt :=
  (dp.write (off + dsrRrepHdrLen) (srtAddrBytes srt)).write (off + dsrRrepHdrLen + 4 * srt.n)
    srt.dst.bytes

def dsrRrepOptAdd (dp : DsrPkt) (off len : ℕ) (srt : DsrSrt) : Option DsrPkt :=
  if len < dsrRrepOptLen srt then none
  else some (dsrRrepAddSrt (dp.write off (rrepOptHdr srt)) off srt)

def rerrOptBytes (errType : ℕ) (errSrc errDst unreach : InAddr) (salv : ℕ) : List UInt8 :=
  let len := if errType = nodeUnreachable then 14 else 10
  UInt8.ofNat OptType.rerr.code :: UInt8.ofNat len :: UInt8.ofNat errType ::
    UInt8.ofNat (16 * (salv % 16)) :: errSrc.bytes ++ errDst.bytes ++
    (if errType = nodeUnreachable then unreach.bytes else [])

def dsrRerrOptAdd (dp : DsrPkt) (off len errType : ℕ) (errSrc errDst unreach : InAddr)
    (salv : ℕ) : Option DsrPkt :=
  if len < dsrRerrHdrLen ∨ (errType = nodeUnreachable ∧ len < dsrRerrHdrLen + 4) then none
  else some (dp.write off (rerrOptBytes errType errSrc errDst unreach salv))

def ackOptBytes (src dst : InAddr) (id : ℕ) : List UInt8 :=
  UInt8.ofNat OptType.ack.code :: 10 :: toBe16 (id % 65536) ++ src.bytes ++ dst.bytes

def dsrAckOptAdd (dp : DsrPkt) (off len : ℕ) (src dst : InAddr) (id : ℕ) : Option DsrPkt :=
  if len < dsrAckHdrLen then none else some (dp.write off (ackOptBytes src dst id))

def ackReqOptBytes (id : ℕ) : List UInt8 :=
  UInt8.ofNat OptType.ackReq.code :: 2 :: toBe16 (id % 65536)

def dsrAckReqOptCreate (dp : DsrPkt) (off len id : ℕ) : Option DsrPkt :=
  if len < dsrAckReqHdrLen then none else some (dp.write off (ackReqOptBytes id))

def dsrAckReqOptAdd (mem : ℕ → UInt8) (dp : DsrPkt) (id : ℕ) : DsrPkt :=
  match dp.ackReqOpt with
  | some p => dp.writeField p 0 (ackReqOptBytes id)
  | none =>
      let totLen := if dp.nh = .null then 0 else dp.iph.totLen
      let prot := if dp.nh = .null then 0 else dp.iph.protocol
      let ttl := if dp.nh = .null then ipDefTtl else dp.iph.ttl
      if dp.optsLen = 0 then
        let len := dsrOptHdrLen + dsrAckReqHdrLen
        let dp := dsrPktAllocOpts mem dp len
        let dp := dsrBuildIp dp dp.src dp.dst (totLen + len) ipprotoDsr ttl
        (dp.write 0 (optHdrBytes len prot)).write dsrOptHdrLen (ackReqOptBytes id)
      else
        match dsrPktAllocOptsExpand mem dp dsrAckReqHdrLen with
        | none => dp
        | some (dp, off) =>
            let dp := dsrBuildIp dp dp.src dp.dst (totLen + dsrAckReqHdrLen) ipprotoDsr ttl
            (dp.write 0 (optHdrBytes (dsrOptHdrLen + dp.pLen + dsrAckReqHdrLen) dp.nextHdr)).write
              off (ackReqOptBytes id)

def dsrSrtAdd (mem : ℕ → UInt8) (dp : DsrPkt) : Option DsrPkt :=
  match dp.srt with
  | none => none
  | some srt =>
      let dp := { dp with nxtHop := dsrSrtNextHop srt srt.n }
      let len := dsrOptHdrLen + dsrSrtOptLen srt
      let dp := dsrPktAllocOpts mem dp len
      let prot := dp.iph.protocol
      let dp := dsrBuildIp dp dp.src dp.dst (dp.iph.totLen + len) ipprotoDsr dp.iph.ttl
      (dsrOptHdrAdd dp len prot).bind fun dp =>
        (dsrSrtOptAdd dp dsrOptHdrLen (len - dsrOptHdrLen) dp.salvage srt).map fun dp =>
          { dp with srtOpt := some (dp.ptr dsrOptHdrLen) }

def dsrSkbCreate (dp : DsrPkt) : Skb :=
  { hSource := 0
    iph := dp.iph
    data := dp.bytesAt 0 dp.optsLen ++
      (if dp.payloadLen ≠ 0 then readAt dp.payload 0 dp.payloadLen.toNat else []) }

end DsrUu
