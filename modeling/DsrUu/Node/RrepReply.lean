import DsrUu.Node.OptCodec
import DsrUu.Node.RreqPath
import DsrUu.Srt.Algebra

namespace DsrUu

open Bytes Effect Graph

def rrepOptImage (pad : UInt8) (dst : InAddr) (as : List InAddr) : List UInt8 :=
  [UInt8.ofNat OptType.rrep.code, UInt8.ofNat (4 * as.length + 5), 0, pad] ++ (encodeAddrs as ++ dst.bytes)

theorem length_rrepOptImage (pad : UInt8) (dst : InAddr) (as : List InAddr) :
    (rrepOptImage pad dst as).length = 8 + 4 * as.length := by
  simp +arith [rrepOptImage, length_bytes, length_encodeAddrs]

section Decode

variable {dp : DsrPkt} {p : OptPtr} {pre post : List UInt8} {pad : UInt8} {dst : InAddr} {as : List InAddr}
  (h : OptAt dp p pre (rrepOptImage pad dst as) post)

include h

theorem OptAt.rrep_type : optTypeOf (dp.fieldAt p 0) = .rrep := by
  rw [h.fieldAt (by rw [length_rrepOptImage]; omega)]
  rfl

theorem OptAt.rrep_length (has : as.length ≤ 62) : dp.optLength p = 4 * as.length + 5 := by
  rw [DsrPkt.optLength, h.fieldAt (by rw [length_rrepOptImage]; omega)]
  change (UInt8.ofNat (4 * as.length + 5)).toNat = _
  rw [UInt8.toNat_ofNat']
  omega

theorem OptAt.rrep_dst (has : as.length ≤ 62) : rrepOptDst dp p = dst := by
  have himg := length_rrepOptImage pad dst as
  have hget : ∀ i, i < 4 → dp.fieldAt p (4 + 4 * as.length + i) = dst.bytes.getD i 0 := by
    intro i hi
    have hpre : rrepOptImage pad dst as =
        ([UInt8.ofNat OptType.rrep.code, UInt8.ofNat (4 * as.length + 5), 0, pad] ++ encodeAddrs as) ++
          dst.bytes := by
      rw [rrepOptImage, List.append_assoc]
    have hl : ([UInt8.ofNat OptType.rrep.code, UInt8.ofNat (4 * as.length + 5), 0, pad] ++
        encodeAddrs as).length = 4 + 4 * as.length := by
      rw [List.length_append, length_encodeAddrs]
      rfl
    rw [h.fieldAt (by omega), hpre, ← hl]
    exact getD_append_right i 0
  have hn : rrepOptAddrsLen dp p / 4 = as.length := by
    rw [rrepOptAddrsLen, h.rrep_length has]
    omega
  have hlen := h.rrep_length has
  rw [rrepOptDst, if_neg (by omega), if_neg (by omega), hn, DsrPkt.addrField]
  have h0 := hget 0 (by decide)
  have h1 := hget 1 (by decide)
  have h2 := hget 2 (by decide)
  have h3 := hget 3 (by decide)
  rw [Nat.add_zero] at h0
  rw [h0, h1, h2, h3]
  rfl

theorem OptAt.rrep_srt (has : as.length ≤ 62) (mem : ℕ → UInt8) : rrepOptSrt mem dp p =
    { src := dp.dst, dst := dst, flags := srtFlags mem, laddrs := 4 * as.length, addrs := as } := by
  have himg := length_rrepOptImage pad dst as
  have hlen : rrepOptAddrsLen dp p = 4 * as.length := by
    rw [rrepOptAddrsLen, h.rrep_length has]
    omega
  have hf : dp.fieldsAt p 4 (4 * as.length) = encodeAddrs as := by
    rw [h.fieldsAt (by omega), ← length_encodeAddrs]
    exact List.take_left
  rw [rrepOptSrt, h.rrep_dst has, hlen, hf, dsrSrtNew, ← length_encodeAddrs, List.take_length,
    decodeAddrs_encodeAddrs]

end Decode

structure RrepIph (me dst : InAddr) (len : ℕ) (iph : IpHdr) : Prop where
  protocol : iph.protocol = ipprotoDsr
  saddr : iph.saddr = me
  daddr : iph.daddr = dst
  ihl : iph.ihl = 5
  totLen : iph.totLen = 20 + len

def rrepLen (back route : DsrSrt) : ℕ := dsrOptHdrLen + dsrSrtOptLen back + dsrRrepOptLen route

structure RouteOk (srt : DsrSrt) : Prop where
  laddrs : srt.laddrs = 4 * srt.addrs.length
  few : srt.addrs.length ≤ 62

theorem rrepLen_eq {back route : DsrSrt} (hb : back.laddrs = 4 * back.addrs.length)
    (hr : route.laddrs = 4 * route.addrs.length) :
    rrepLen back route = 16 + 4 * back.addrs.length + 4 * route.addrs.length := by
  rw [rrepLen, dsrSrtOptLen, dsrRrepOptLen, hb, hr, dsrOptHdrLen, dsrSrtHdrLen, dsrRrepHdrLen]
  omega

structure RrepWire (me : InAddr) (back route : DsrSrt) (sleft : ℕ) (skb : Skb) : Prop where
  iph : RrepIph me back.dst skb.data.length skb.iph
  data : ∃ hdr pad, skb.data = hdr ++ (srtOptImage 0 sleft back.addrs ++ rrepOptImage pad route.dst route.addrs) ∧
    hdr.length = dsrOptHdrLen ∧ be16 (hdr.getD 2 0) (hdr.getD 3 0) + dsrOptHdrLen = skb.data.length

structure RrepPkt (me : InAddr) (back route : DsrSrt) (sleft : ℕ) (hdr : List UInt8) (pad : UInt8)
    (dp : DsrPkt) : Prop where
  hdr_length : hdr.length = dsrOptHdrLen
  pLen : be16 (hdr.getD 2 0) (hdr.getD 3 0) + dsrOptHdrLen = 16 + 4 * back.addrs.length + 4 * route.addrs.length
  dh : ∃ junk, dp.dh = some
    { raw := hdr ++ (srtOptImage 0 sleft back.addrs ++ (rrepOptImage pad route.dst route.addrs ++ junk))
      tail := 16 + 4 * back.addrs.length + 4 * route.addrs.length }
  src_eq : dp.src = me
  dst_eq : dp.dst = back.dst
  iph : RrepIph me back.dst (16 + 4 * back.addrs.length + 4 * route.addrs.length) dp.iph
  payloadLen : dp.payloadLen = 0
  requestAck : dp.requestAck = false

theorem writeAt_snoc {pre t xs : List UInt8} {off : ℕ} (hoff : off = pre.length) (h : xs.length ≤ t.length) :
    writeAt (pre ++ t) off xs = (pre ++ xs) ++ t.drop xs.length := by
  rw [hoff]
  exact writeAt_append pre h

theorem writeAt_rrep {pre t hdr body dst : List UInt8} {off : ℕ} (hoff : off = pre.length)
    (hhdr : hdr.length = 3) (ht : 4 + body.length + dst.length ≤ t.length) : ∃ pad junk,
    writeAt (writeAt (writeAt (pre ++ t) off hdr) (off + 4) body) (off + 4 + body.length) dst =
      pre ++ (hdr ++ pad :: (body ++ dst)) ++ junk := by
  obtain ⟨pad, t₁, hdrop⟩ : ∃ pad t₁, t.drop 3 = pad :: t₁ :=
    List.exists_cons_of_length_pos (by rw [List.length_drop]; omega)
  have hlen : t₁.length + 4 = t.length := by
    have hl := congrArg List.length hdrop
    rw [List.length_drop, List.length_cons] at hl
    omega
  have h₁ : writeAt (pre ++ t) off hdr = (pre ++ hdr ++ [pad]) ++ t₁ := by
    rw [writeAt_snoc hoff (by omega), hhdr, hdrop, List.append_assoc _ [pad] t₁, List.singleton_append]
  have h₂ : writeAt ((pre ++ hdr ++ [pad]) ++ t₁) (off + 4) body =
      (pre ++ hdr ++ [pad] ++ body) ++ t₁.drop body.length :=
    writeAt_snoc (by simp only [List.length_append, List.length_singleton]; omega) (by omega)
  have h₃ : writeAt ((pre ++ hdr ++ [pad] ++ body) ++ t₁.drop body.length) (off + 4 + body.length) dst =
      (pre ++ hdr ++ [pad] ++ body ++ dst) ++ (t₁.drop body.length).drop dst.length :=
    writeAt_snoc (by simp only [List.length_append, List.length_singleton]; omega)
      (by rw [List.length_drop]; omega)
  refine ⟨pad, (t₁.drop body.length).drop dst.length, ?_⟩
  rw [h₁, h₂, h₃]
  simp only [List.append_assoc, List.cons_append, List.nil_append]

section Send

variable {mem : ℕ → UInt8} {me : InAddr} {back route : DsrSrt} {dp : DsrPkt}

structure RrepHead (me dst : InAddr) (len : ℕ) (x : DsrPkt) : Prop where
  src_eq : x.src = me
  dst_eq : x.dst = dst
  iph : RrepIph me dst len x.iph
  payloadLen : x.payloadLen = 0
  requestAck : x.requestAck = false
  dh : ∃ raw, x.dh = some { raw := raw, tail := len } ∧ len ≤ raw.length

def rrepWrite (x : DsrPkt) (protocol : ℕ) (back route : DsrSrt) : DsrPkt :=
  dsrRrepAddSrt (((x.write 0 (optHdrBytes (rrepLen back route) protocol)).write dsrOptHdrLen
    (srtOptBytes 0 back)).write (dsrOptHdrLen + dsrSrtOptLen back) (rrepOptHdr route))
    (dsrOptHdrLen + dsrSrtOptLen back) route

theorem rrepWrite_same (x : DsrPkt) (protocol : ℕ) (back route : DsrSrt) :
    SameHdr x (rrepWrite x protocol back route) :=
  ((((write_same x _ _).trans (write_same _ _ _)).trans (write_same _ _ _)).trans (write_same _ _ _)).trans
    (write_same _ _ _)

theorem rrepWrite_dh {x : DsrPkt} {raw : List UInt8} (hdh : x.dh = some { raw := raw, tail := rrepLen back route })
    (hraw : rrepLen back route ≤ raw.length) (hb : back.laddrs = 4 * back.addrs.length)
    (hr : route.laddrs = 4 * route.addrs.length) (protocol : ℕ) : ∃ pad junk,
    (rrepWrite x protocol back route).dh = some
      { raw := optHdrBytes (rrepLen back route) protocol ++ (srtOptImage 0 back.addrs.length back.addrs ++
          (rrepOptImage pad route.dst route.addrs ++ junk))
        tail := rrepLen back route } := by
  obtain ⟨hdr, hhdr⟩ : ∃ hdr, hdr = optHdrBytes (rrepLen back route) protocol := ⟨_, rfl⟩
  have hhlen : hdr.length = 4 := by rw [hhdr]; rfl
  have himg := length_srtOptImage 0 back.addrs.length back.addrs
  have hsrt : dsrSrtOptLen back = 4 * back.addrs.length + 4 := by rw [dsrSrtOptLen, hb, dsrSrtHdrLen, Nat.add_comm]
  have hrlen := rrepLen_eq hb hr
  have hroute := length_encodeAddrs route.addrs
  have htwo := @writeAt_two raw hdr (srtOptImage 0 back.addrs.length back.addrs) (by omega)
  rw [hhlen, ← List.append_assoc] at htwo
  obtain ⟨pad, junk, hrrep⟩ := @writeAt_rrep (hdr ++ srtOptImage 0 back.addrs.length back.addrs)
    (raw.drop (4 + (srtOptImage 0 back.addrs.length back.addrs).length)) (rrepOptHdr route)
    (encodeAddrs route.addrs) route.dst.bytes (dsrOptHdrLen + dsrSrtOptLen back)
    (by rw [List.length_append, hhlen, himg, hsrt]; rfl) rfl
    (by rw [List.length_drop, length_bytes]; omega)
  have hn : route.n = route.addrs.length := n_of_laddrs hr
  have hopt : rrepOptHdr route ++ pad :: (encodeAddrs route.addrs ++ route.dst.bytes) =
      rrepOptImage pad route.dst route.addrs := by
    rw [rrepOptHdr, hr]
    rfl
  rw [hopt] at hrrep
  refine ⟨pad, junk, ?_⟩
  rw [rrepWrite, dsrRrepAddSrt, ← hhdr, srtOptBytes_of_wf hb, srtAddrBytes_of_wf hr, hn, ← hroute]
  rw [write_dh hdh, write_dh rfl, write_dh rfl, write_dh rfl, write_dh rfl]
  dsimp only
  rw [← List.append_assoc, ← List.append_assoc, ← hrrep, ← htwo]
  rfl

theorem RrepHead.pkt {x : DsrPkt} (h : RrepHead me back.dst (rrepLen back route) x) (hb : RouteOk back)
    (hr : RouteOk route) (protocol : ℕ) : ∃ hdr pad,
    RrepPkt me back route back.addrs.length hdr pad (rrepWrite x protocol back route) := by
  obtain ⟨raw, hdh, hraw⟩ := h.dh
  obtain ⟨pad, junk, hdh'⟩ := rrepWrite_dh hdh hraw hb.laddrs hr.laddrs protocol
  have hsame := rrepWrite_same x protocol back route
  have hbf := hb.few
  have hrf := hr.few
  have hlen := rrepLen_eq hb.laddrs hr.laddrs
  have hpl := @be16_optHdrBytes (rrepLen back route) protocol (by omega)
  have hiph := h.iph
  rw [hlen] at hdh' hpl hiph
  refine ⟨_, pad, rfl, ?_, ⟨junk, hdh'⟩, hsame.src.trans h.src_eq, hsame.dst.trans h.dst_eq, hsame.iph ▸ hiph,
    hsame.payloadLen.trans h.payloadLen, hsame.requestAck.trans h.requestAck⟩
  rw [hpl, dsrOptHdrLen]
  omega

theorem RrepPkt.wire {sleft : ℕ} {hdr : List UInt8} {pad : UInt8} (h : RrepPkt me back route sleft hdr pad dp) :
    RrepWire me back route sleft (dsrSkbCreate dp) := by
  obtain ⟨junk, hdh⟩ := h.dh
  have hhdr : hdr.length = 4 := h.hdr_length
  have himg := length_srtOptImage 0 sleft back.addrs
  have hrrep := length_rrepOptImage pad route.dst route.addrs
  have hsize : 16 + 4 * back.addrs.length + 4 * route.addrs.length =
      (hdr ++ (srtOptImage 0 sleft back.addrs ++ rrepOptImage pad route.dst route.addrs)).length := by
    rw [List.length_append, List.length_append]
    omega
  have hdata : (dsrSkbCreate dp).data =
      hdr ++ (srtOptImage 0 sleft back.addrs ++ rrepOptImage pad route.dst route.addrs) := by
    rw [dsrSkbCreate, if_neg (not_not.mpr h.payloadLen), List.append_nil, bytesAt_dh hdh, optsLen_dh hdh]
    dsimp only
    rw [hsize, ← List.append_assoc _ _ junk, ← List.append_assoc hdr _ junk]
    exact readAt_append_left _ _
  have hlen : (dsrSkbCreate dp).data.length = 16 + 4 * back.addrs.length + 4 * route.addrs.length := by
    rw [hdata, ← hsize]
  exact ⟨hlen ▸ h.iph, hdr, pad, hdata, h.hdr_length, by rw [hlen]; exact h.pLen⟩

theorem rrepPkt_wire (h : rrepPkt mem me back route = some dp) (hb : RouteOk back) (hr : RouteOk route) :
    RrepWire me back route back.addrs.length (dsrSkbCreate dp) := by
  unfold rrepPkt at h
  obtain ⟨dp₁, h₁, h⟩ := Option.bind_eq_some_iff.mp h
  obtain ⟨dp₂, h₂, h⟩ := Option.bind_eq_some_iff.mp h
  obtain ⟨dp₃, h₃, rfl⟩ := Option.map_eq_some_iff.mp h
  unfold dsrOptHdrAdd at h₁
  unfold dsrSrtOptAdd at h₂
  unfold dsrRrepOptAdd at h₃
  split at h₁
  · cases h₁
  split at h₂
  · cases h₂
  split at h₃
  · cases h₃
  rw [Option.some.injEq] at h₁ h₂ h₃
  obtain ⟨x, hx⟩ : ∃ x, x = dsrBuildIp (dsrPktAllocOpts mem
    { src := me, dst := back.dst, nxtHop := if back.laddrs = 0 then back.dst else back.addrAt 0 }
    (rrepLen back route)) me back.dst (ipHdrLen + rrepLen back route) ipprotoDsr (back.n + 1) := ⟨_, rfl⟩
  have hbf := hb.few
  have hrf := hr.few
  have hlen := rrepLen_eq hb.laddrs hr.laddrs
  have hhead : RrepHead me back.dst (rrepLen back route) x := by
    rw [hx]
    refine ⟨rfl, rfl, ⟨rfl, rfl, rfl, rfl, ?_⟩, rfl, rfl, ⟨_, rfl, ?_⟩⟩
    · change (ipHdrLen + rrepLen back route) % 65536 = _
      rw [ipHdrLen, Nat.mod_eq_of_lt (by omega)]
    · rw [length_fill]
      exact Nat.le_add_right _ _
  have hsalv : dp₁.salvage = 0 := by
    rw [← h₁, write_salvage]
    rfl
  obtain ⟨hdr, pad, hpkt⟩ := hhead.pkt hb hr dsrNoNextHdrType
  have hw := hpkt.wire
  have hs : dsrSkbCreate { dp₃ with srtOpt := some (dp₃.ptr dsrOptHdrLen)
                                    rrepOpt := dp₃.rrepOpt ++ [dp₃.ptr (dsrOptHdrLen + dsrSrtOptLen back)]
                                    xmitJitter := true } = dsrSkbCreate dp₃ := rfl
  rw [hsalv] at h₂
  rw [hs, ← h₃, ← h₂, ← h₁]
  rw [hx] at hw
  exact hw

end Send

structure RrepDecoded (me src target : InAddr) (back route : List InAddr) (mem : ℕ → UInt8) (dp : DsrPkt)
    (p q : OptPtr) : Prop where
  dst : dp.dst = src
  first : p = dp.ptr dsrOptHdrLen
  srt_type : optTypeOf (dp.fieldAt p 0) = .srt
  next : q = { p with off := p.off + (dp.optLength p + 2) }
  rrep_type : optTypeOf (dp.fieldAt q 0) = .rrep
  last : q.off + (dp.optLength q + 2) + 1 = dp.optsLen
  srt : (srtOptSrt mem dp p).path = me :: (back ++ [src])
  rrep : (rrepOptSrt mem dp q).path = src :: (route ++ [target])

section Decoded

variable {me : InAddr} {back route : DsrSrt} {sleft : ℕ} {skb : Skb} {hdr : List UInt8} {pad : UInt8} {dp : DsrPkt}

theorem RrepWire.pkt (h : RrepWire me back route sleft skb) (mem : ℕ → UInt8) (promisc : Bool) : ∃ hdr pad,
    RrepPkt me back route sleft hdr pad (dsrPktRecv mem promisc skb) := by
  obtain ⟨hdr, pad, hdata, hhdr, hplen⟩ := h.data
  have hhdr : hdr.length = 4 := hhdr
  have himg := length_srtOptImage 0 sleft back.addrs
  have hrrep := length_rrepOptImage pad route.dst route.addrs
  have hlen : skb.data.length = 16 + 4 * back.addrs.length + 4 * route.addrs.length := by
    rw [hdata, List.length_append, List.length_append]
    omega
  have hopts : dsrOptsLenOf skb = skb.data.length := by
    rw [dsrOptsLenOf, hdata, getD_append_left (by omega), getD_append_left (by omega), hplen, ← hdata]
  have ha := dsrPktAlloc_dsr mem h.iph.protocol
  have hread : readAt skb.data 0 skb.data.length = skb.data := by
    have := readAt_append_left skb.data []
    rwa [List.append_nil] at this
  have hdh := dsrPktRecv_dh h.iph.protocol mem promisc
  rw [hopts, hread, hlen, hdata] at hdh
  have hpay : (dsrPktAlloc mem skb).payloadLen = 0 := by
    rw [ha.payloadLen, h.iph.totLen, h.iph.ihl, hopts]
    omega
  have hiph : (dsrPktRecv mem promisc skb).iph = skb.iph := by
    change (dsrPktAlloc mem skb).iph = skb.iph
    rw [DsrPkt.iph, ha.nh, ha.skb_eq]
  have hi := h.iph
  rw [hlen, ← hiph] at hi
  rw [List.append_assoc, List.append_assoc] at hdh
  refine ⟨hdr, pad, hhdr, hplen.trans hlen, ⟨_, hdh⟩, ha.src.trans h.iph.saddr, ha.dst.trans h.iph.daddr, hi, hpay, ?_⟩
  exact ha.requestAck.trans (by rw [hpay]; rfl)

theorem RrepPkt.optsLen (h : RrepPkt me back route sleft hdr pad dp) :
    dp.optsLen = 16 + 4 * back.addrs.length + 4 * route.addrs.length := by
  obtain ⟨junk, hdh⟩ := h.dh
  exact optsLen_dh hdh

theorem RrepPkt.srtAt (h : RrepPkt me back route sleft hdr pad dp) : ∃ junk,
    OptAt dp (dp.ptr dsrOptHdrLen) hdr (srtOptImage 0 sleft back.addrs)
      (rrepOptImage pad route.dst route.addrs ++ junk) := by
  obtain ⟨junk, hdh⟩ := h.dh
  exact ⟨junk, ⟨_, hdh, rfl⟩, rfl, h.hdr_length.symm⟩

theorem RrepPkt.rrepAt (h : RrepPkt me back route sleft hdr pad dp) : ∃ junk,
    OptAt dp (dp.ptr (8 + 4 * back.addrs.length)) (hdr ++ srtOptImage 0 sleft back.addrs)
      (rrepOptImage pad route.dst route.addrs) junk := by
  obtain ⟨junk, hdh⟩ := h.dh
  refine ⟨junk, ⟨_, hdh, by rw [List.append_assoc]⟩, rfl, ?_⟩
  rw [List.length_append, h.hdr_length, length_srtOptImage]
  change 8 + 4 * back.addrs.length = dsrOptHdrLen + _
  rw [dsrOptHdrLen]
  omega

theorem RrepPkt.optLength_srt (h : RrepPkt me back route sleft hdr pad dp) (hb : RouteOk back) :
    dp.optLength (dp.ptr dsrOptHdrLen) = 4 * back.addrs.length + 2 := by
  obtain ⟨junk, hat⟩ := h.srtAt
  rw [srtOptImage_raw] at hat
  exact hat.optLength_srt (Nat.le_trans hb.few (Nat.le_succ _))

theorem RrepPkt.srt_type (h : RrepPkt me back route sleft hdr pad dp) :
    optTypeOf (dp.fieldAt (dp.ptr dsrOptHdrLen) 0) = .srt := by
  obtain ⟨junk, hat⟩ := h.srtAt
  have himg := length_srtOptImage 0 sleft back.addrs
  rw [hat.fieldAt (by omega)]
  rfl

theorem RrepPkt.srtOptSrt (h : RrepPkt me back route sleft hdr pad dp) (hb : RouteOk back) (mem : ℕ → UInt8) :
    srtOptSrt mem dp (dp.ptr dsrOptHdrLen) = routeSrt mem dp back.addrs := by
  obtain ⟨junk, hat⟩ := h.srtAt
  rw [srtOptImage_raw] at hat
  exact hat.srtOptSrt_raw (Nat.le_trans hb.few (Nat.le_succ _)) mem

theorem RrepPkt.decoded (h : RrepPkt me back route sleft hdr pad dp) (hb : RouteOk back) (hr : RouteOk route)
    (mem : ℕ → UInt8) : ∃ p q, RrepDecoded me back.dst route.dst back.addrs route.addrs mem dp p q := by
  obtain ⟨junk, hat⟩ := h.rrepAt
  refine ⟨dp.ptr dsrOptHdrLen, dp.ptr (8 + 4 * back.addrs.length), h.dst_eq, rfl, h.srt_type, ?_, hat.rrep_type, ?_, ?_, ?_⟩
  · rw [h.optLength_srt hb]
    change (⟨dp.gen, 8 + 4 * back.addrs.length⟩ : OptPtr) = ⟨dp.gen, 4 + (4 * back.addrs.length + 2 + 2)⟩
    congr 1
    omega
  · rw [hat.rrep_length hr.few, h.optsLen]
    change 8 + 4 * back.addrs.length + (4 * route.addrs.length + 5 + 2) + 1 = _
    omega
  · rw [h.srtOptSrt hb mem, DsrSrt.path, routeSrt_n, ← h.src_eq, ← h.dst_eq]
    change dp.src :: (back.addrs.take back.addrs.length ++ [dp.dst]) = _
    rw [List.take_length]
  · rw [hat.rrep_srt hr.few mem, DsrSrt.path, h.dst_eq]
    change back.dst :: (route.addrs.take (4 * route.addrs.length / 4) ++ [route.dst]) = _
    rw [Nat.mul_div_cancel_left _ (by decide), List.take_length]

theorem RrepWire.decoded (h : RrepWire me back route sleft skb) (hb : RouteOk back) (hr : RouteOk route)
    (mem mem' : ℕ → UInt8) (promisc : Bool) :
    ∃ p q, RrepDecoded me back.dst route.dst back.addrs route.addrs mem' (dsrPktRecv mem promisc skb) p q := by
  obtain ⟨hdr, pad, hpkt⟩ := h.pkt mem promisc
  exact hpkt.decoded hb hr mem'

end Decoded

def notReply : Event → Prop
  | .send .rrepSend _ => False
  | _ => True

def Unreplied (s₀ s : DsrNode) : Prop := LcSound s.lc ∧ Adds s₀ notReply s

theorem unreplied_closed (s₀ : DsrNode) : NodeClosed (Unreplied s₀) (fun _ _ => True)
    (fun _ site _ => site ≠ .rrepSend) fun _ => True where
  held _ _ h := h
  lc _ op _ hunit hop h := ⟨op.exec_sound h.1 hunit hop, h.2⟩
  neighTbl _ _ h := h
  gratRrepTbl _ _ h := h
  gratTimer _ _ h := h
  ackTimer _ _ h := h
  carry _ _ _ _ _ := trivial
  retime _ _ _ _ _ _ := trivial
  entries _ _ _ _ := trivial
  maintBuf _ _ h _ := h
  ackReqSend _ _ _ _ _ _ _ := nofun
  rerrSend _ _ _ _ _ _ _ _ _ _ _ _ _ _ := nofun
  salvage _ _ _ _ _ _ _ _ _ _ _ _ := nofun
  emitXmit _ _ _ h _ := ⟨h.1, h.2.emit trivial⟩
  emitMaint _ _ h := ⟨h.1, h.2.emit trivial⟩
  emitAckReq _ _ _ h := ⟨h.1, h.2.emit trivial⟩
  newEntry _ _ _ _ _ _ _ _ _ _ _ _ _ _ := trivial
  emitSend _ _ site _ _ _ hp _ h _ := ⟨h.1, h.2.emit (by
    cases site with
    | rrepSend => exact absurd rfl hp
    | _ => trivial)⟩
  rreqTbl _ _ h := h
  rreqBrk _ _ h := h
  rreqSeqno _ _ h := h
  sendBufTimer _ _ h := h
  waiting _ _ _ _ := trivial
  sendBuf _ _ h _ := h
  emitIcmp _ _ h := ⟨h.1, h.2.emit trivial⟩
  emitDiscovery _ _ _ h := ⟨h.1, h.2.emit trivial⟩
  emitSendBuf _ _ h := ⟨h.1, h.2.emit trivial⟩
  rreqSend _ _ _ _ _ _ _ := nofun
  srtAdd _ _ _ _ _ _ _ hsite _ _ _ _ _ := by rcases hsite with rfl | rfl <;> exact nofun

theorem LcRoute.of_sameGraph {lc lc' : LcGraph} {src dst : InAddr} {srt : DsrSrt} {c : ℕ}
    (h : LcRoute lc src dst srt c) (hg : SameGraph lc lc') : LcRoute lc' src dst srt c :=
  ⟨h.src_eq, h.dst_eq, h.laddrs, h.length_le, by rw [hg.hasLink]; exact h.walk, h.nodup⟩

theorem dsrRtcFind_route {src dst : InAddr} {s s' : DsrNode} {srt : DsrSrt} (hlc : LcSound s.lc)
    (h : dsrRtcFind src dst s = .ok (some srt) s') : ∃ c, LcRoute s'.lc src dst srt c := by
  rcases dsrRtcFind_ok h with ⟨hnone, -⟩ | ⟨hne, f, lc, hf, hsrt, rfl⟩
  · cases hnone
  · obtain ⟨f', lc', hf', hg, hres⟩ := lcSrtFind_sound hlc hne (srtFlags s.kmem)
    rw [hf, Option.some.injEq, Prod.mk.injEq] at hf'
    obtain ⟨rfl, rfl⟩ := hf'
    obtain ⟨c, hroute⟩ := hres.route hsrt.symm
    exact ⟨c, hroute.of_sameGraph hg⟩

inductive ReplyRoute (lc : LcGraph) (me target : InAddr) (flags : ℕ) (srt : DsrSrt) : DsrSrt → Prop
  | target : target = me → ReplyRoute lc me target flags srt srt
  | cached {rc : DsrSrt} {c : ℕ} : target ≠ me → srt.src ≠ me → me ∉ srt.addrs.take srt.n → LcRoute lc me target rc c →
      (dsrSrtConcatenate flags srt rc).path.Nodup →
      ReplyRoute lc me target flags srt (dsrSrtConcatenate flags srt rc)

structure Replied (s : DsrNode) (dp : DsrPkt) (p : OptPtr) (route : DsrSrt) (s₂ s' : DsrNode) : Prop where
  before : Unreplied s s₂
  legal : ReplyRoute s₂.lc s.ifaddr (dp.addrField p 4) (srtFlags s.kmem)
    (rreqOptSrt s.kmem s.ifaddr dp p) route
  later : Later s s₂
  send : dsrRrepSend xmit (dsrSrtNewRev (srtFlags s.kmem) (rreqOptSrt s.kmem s.ifaddr dp p)) route s₂ = .ok () s'

theorem dsrRreqOptRecv_reply {dp : DsrPkt} {p : OptPtr} {s s' : DsrNode} {r : DsrPkt × List DsrPktAction}
    (hlc : LcSound s.lc) (h : dsrRreqOptRecv dp p s = .ok r s') :
    Unreplied s s' ∨ (r.2 = [.none] ∧ ∃ route s₂, Replied s dp p route s₂ s') := by
  have hcl := unreplied_closed s
  have hs : Since (Unreplied s) s s := ⟨⟨hlc, Adds.refl s _⟩, Later.refl s⟩
  change (if dp.promiscRecv then _ else _ : DsrM _) s = _ at h
  split at h
  · cases h
    exact Or.inl hs.1
  change (if dp.numRreqOpts + 1 > 1 then _ else _ : DsrM _) s = _ at h
  split at h
  · cases h
    exact Or.inl hs.1
  obtain ⟨me, s₁, hme, h⟩ := bind_ok h
  cases hme
  obtain ⟨mem, s₁, hmem, h⟩ := bind_ok h
  cases hmem
  obtain ⟨dup, s₁, hdup, h⟩ := bind_ok h
  have hs := (hcl.rreqs.dsrRreqDuplicate s _ _ _).run hs hdup
  split at h
  · cases h
    exact Or.inl hs.1
  obtain ⟨_, s₂, hadd, h⟩ := bind_ok h
  have hs := (hcl.rreqs.rreqTblAddId s _ _ _).run hs hadd
  change (if dp.optLength p < 6 then _ else _ : DsrM _) s₂ = _ at h
  split at h
  · cases h
    exact Or.inl hs.1
  obtain ⟨_, s₃, hcache, h⟩ := bind_ok h
  have hs := ((hcl.quiet s).dsrRtcAdd _).run hs hcache
  obtain ⟨_, s₄, hneigh, h⟩ := bind_ok h
  have hs := ((hcl.quiet s).neighTblAdd _ _).run hs hneigh
  obtain ⟨_, s₅, hverdict, h⟩ := bind_ok h
  have hs := (hcl.sendBufSetVerdict s _ _).run hs hverdict
  change (if dp.addrField p 4 = s.ifaddr then _ else _ : DsrM _) s₅ = _ at h
  split at h
  · next htarget =>
    obtain ⟨_, s₆, hsend, h⟩ := bind_ok h
    cases h
    exact Or.inr ⟨rfl, _, s₅, hs.1, .target htarget, hs.2, hsend⟩
  next htarget =>
  change (if dp.src = s.ifaddr then _ else _ : DsrM _) s₅ = _ at h
  split at h
  · cases h
    exact Or.inl hs.1
  next hsrc =>
  change (if s.ifaddr ∈ _ then _ else _ : DsrM _) s₅ = _ at h
  split at h
  · cases h
    exact Or.inl hs.1
  next hlist =>
  obtain ⟨rc, s₆, hfind, h⟩ := bind_ok h
  have hs₆ := ((hcl.quiet s).dsrRtcFind _ _).run hs hfind
  cases rc with
  | none =>
    cases h
    exact Or.inl hs₆.1
  | some rc =>
    change (if dsrSrtCheckDuplicate _ = true then _ else _ : DsrM _) s₆ = _ at h
    split at h
    · cases h
      exact Or.inl hs₆.1
    next hdup =>
    obtain ⟨_, s₇, hsend, h⟩ := bind_ok h
    cases h
    obtain ⟨c, hroute⟩ := dsrRtcFind_route hs.1.1 hfind
    exact Or.inr ⟨rfl, _, s₆, hs₆.1,
      .cached htarget hsrc hlist hroute ((dsrSrtCheckDuplicate_false _).mp (Bool.eq_false_iff.mpr hdup)), hs₆.2, hsend⟩

theorem rrepSend_sent {back route : DsrSrt} {s s' : DsrNode} (h : dsrRrepSend xmit back route s = .ok () s') :
    s'.lc = s.lc ∧ ∃ es, s'.out = s.out ++ es ∧ ∀ f, .send .rrepSend f ∈ es →
      ∃ dp, rrepPkt s.kmem s.ifaddr back route = some dp ∧ f.nxtHop = dp.nxtHop ∧ f.skb = dsrSkbCreate dp := by
  change xmitPkt xmit .rrepSend (rrepPkt s.kmem s.ifaddr back route) s = _ at h
  cases hp : rrepPkt s.kmem s.ifaddr back route with
  | none =>
    rw [hp] at h
    cases h
    exact ⟨rfl, [], (List.append_nil _).symm, fun _ hf => absurd hf List.not_mem_nil⟩
  | some dp =>
    rw [hp] at h
    obtain ⟨due, evs, rfl, hevs⟩ := xmit_plain (rrepPkt_requestAck hp) h
    refine ⟨rfl, _, rfl, fun f hf => ⟨dp, rfl, ?_⟩⟩
    rcases List.mem_cons.mp hf with hf | hf
    · cases hf
    · rcases hevs with rfl | ⟨hw, rfl⟩
      · exact absurd hf List.not_mem_nil
      · cases List.mem_singleton.mp hf
        exact ⟨rfl, rfl⟩

theorem Replied.sent {s s₂ s' : DsrNode} {dp : DsrPkt} {p : OptPtr} {route : DsrSrt} {f : Frame}
    (h : Replied s dp p route s₂ s') (hf : .send .rrepSend f ∈ newEvents s s') : s'.lc = s₂.lc ∧
    ∃ pkt, rrepPkt s.kmem s.ifaddr (dsrSrtNewRev (srtFlags s.kmem) (rreqOptSrt s.kmem s.ifaddr dp p))
      route = some pkt ∧ f.nxtHop = pkt.nxtHop ∧ f.skb = dsrSkbCreate pkt := by
  obtain ⟨hlc, es, hes, hsent⟩ := rrepSend_sent h.send
  obtain ⟨b, hb, hE⟩ := h.before.2
  refine ⟨hlc, ?_⟩
  rw [newEvents, hes, hb, List.append_assoc, List.drop_left] at hf
  rcases List.mem_append.mp hf with hf | hf
  · exact (hE _ hf).elim
  · rw [h.later.kmem, h.later.ifaddr] at hsent
    exact hsent f hf

structure ReplySound (c : RreqCopy) (target me : InAddr) (lc : LcGraph) (tail : List InAddr) : Prop where
  direct : me = target → tail = []
  cached : me ≠ target → ∃ rest cost, tail = me :: rest ∧ Walk lc.hasLink me (rest ++ [target]) target cost
  distinct : c.src ≠ target → (c.src :: (c.via ++ tail ++ [target])).Nodup

section Reply

variable {c : RreqCopy} {target me : InAddr} {lc : LcGraph} {flags : ℕ} {route : DsrSrt}

theorem ReplyRoute.sound
    (h : ReplyRoute lc me target flags (⟨c.src, me, flags, 4 * c.via.length, c.via⟩ : DsrSrt) route)
    (hs : RreqSound c target) : ∃ tail, ReplySound c target me lc tail ∧ route.src = c.src ∧
      route.dst = target ∧ route.addrs = c.via ++ tail ∧ route.laddrs = 4 * route.addrs.length := by
  cases h with
  | target htarget =>
    refine ⟨[], ⟨fun _ => rfl, fun hne => absurd htarget.symm hne, fun hne => ?_⟩, rfl, htarget.symm,
      (List.append_nil _).symm, rfl⟩
    rw [List.append_nil, ← List.cons_append]
    refine hs.distinct.append (List.nodup_singleton _) fun a ha ht => ?_
    rw [List.mem_singleton] at ht
    subst ht
    rcases List.mem_cons.mp ha with ha | ha
    · exact hne ha.symm
    · exact hs.target ha
  | @cached rc cost htarget hsrc hlist hroute hnodup =>
    rw [dsrSrtConcatenate_exact rfl hroute.laddrs]
    rw [dsrSrtConcatenate_exact rfl hroute.laddrs] at hnodup
    refine ⟨rc.src :: rc.addrs, ⟨fun he => absurd he.symm htarget, fun _ => ⟨rc.addrs, cost, ?_, hroute.walk⟩,
      fun _ => ?_⟩, rfl, hroute.dst_eq, rfl, rfl⟩
    · rw [hroute.src_eq]
    · rw [DsrSrt.path, take_of_laddrs rfl, hroute.dst_eq] at hnodup
      exact hnodup

end Reply

theorem not_reply_of_unreplied {s s' : DsrNode} {f : Frame} (h : Unreplied s s') :
    .send .rrepSend f ∉ newEvents s s' := fun hf => h.2.drop _ hf

theorem RreqRan.replied {src target : InAddr} {as : List InAddr} {skb : Skb} {hdr id : List UInt8}
    {dp : DsrPkt} {s s' : DsrNode} {f : Frame} (h : RreqRan src target as dp s s')
    (hp : RreqPkt src target as skb hdr id dp) (hlc : LcSound s.lc) (hf : .send .rrepSend f ∈ newEvents s s') :
    ∃ route s₂, Replied s dp (dp.ptr dsrOptHdrLen) route s₂ s' := by
  cases h with
  | ignored hs =>
    rw [hs, newEvents, List.drop_length] at hf
    exact absurd hf List.not_mem_nil
  | handled hone =>
    rcases dsrRreqOptRecv_reply hlc hone with hun | ⟨-, hrep⟩
    · exact absurd hf (not_reply_of_unreplied hun)
    · exact hrep
  | @forwarded mem dp₁ s₁ hc _ _ _ hone hxmit =>
    rcases dsrRreqOptRecv_reply hlc hone with hun | ⟨hact, -⟩
    · obtain ⟨due, evs, rfl, hevs⟩ := xmit_plain (rreqForward_requestAck hp hc _ _) hxmit
      refine absurd hf ?_
      obtain ⟨b, hb, hE⟩ := hun.2
      rw [newEvents]
      dsimp only
      rw [hb, List.append_assoc, List.drop_left]
      intro hf
      rcases List.mem_append.mp hf with hf | hf
      · exact hE _ hf
      · rcases List.mem_cons.mp hf with hf | hf
        · cases hf
        · rcases hevs with rfl | ⟨hw, rfl⟩
          · exact absurd hf List.not_mem_nil
          · cases List.mem_singleton.mp hf
    · cases hact

theorem lcSound_recvClosed : RecvClosed (fun s => LcSound s.lc) (fun _ _ => True) (fun _ _ _ => True)
    (fun _ => True) fun _ => True where
  held _ _ h := h
  lc _ op _ hunit hop h := op.exec_sound h hunit hop
  neighTbl _ _ h := h
  gratRrepTbl _ _ h := h
  gratTimer _ _ h := h
  ackTimer _ _ h := h
  carry _ _ _ _ _ := trivial
  retime _ _ _ _ _ _ := trivial
  entries _ _ _ _ := trivial
  maintBuf _ _ h _ := h
  ackReqSend _ _ _ _ _ _ _ := trivial
  rerrSend _ _ _ _ _ _ _ _ _ _ _ _ _ _ := trivial
  salvage _ _ _ _ _ _ _ _ _ _ _ _ := trivial
  emitXmit _ _ _ h _ := h
  emitMaint _ _ h := h
  emitAckReq _ _ _ h := h
  newEntry _ _ _ _ _ _ _ _ _ _ _ _ _ _ := trivial
  emitSend _ _ _ _ _ _ _ _ h _ := h
  rreqTbl _ _ h := h
  rreqBrk _ _ h := h
  rreqSeqno _ _ h := h
  sendBufTimer _ _ h := h
  waiting _ _ _ _ := trivial
  sendBuf _ _ h _ := h
  emitDeliver _ _ h := h
  emitIcmp _ _ h := h
  emitDiscovery _ _ _ h := h
  emitSendBuf _ _ h := h
  rreqSend _ _ _ _ _ _ _ := trivial
  srtAdd _ _ _ _ _ _ _ _ _ _ _ _ _ := trivial
  rrepSend _ _ _ _ _ _ := trivial
  ackSend _ _ _ _ _ _ := trivial
  forward _ _ _ _ := trivial
  forwardRreq _ _ _ _ := trivial
  notes _ _ _ _ _ := trivial
  setDaddr _ _ _ := trivial
  setSleft _ _ _ _ _ := trivial
  rreqAppend _ _ _ _ _ _ _ := trivial

theorem NodeReach.lcSound {ok : DsrNode → Input → Prop} {s : DsrNode} (h : NodeReach ok s) : LcSound s.lc := by
  refine lcSound_recvClosed.reach ⟨fun _ _ _ _ _ _ _ => lcInit_sound, fun _ _ _ _ _ _ h => h⟩ (fun _ i _ => ?_) h
  cases i with
  | recv promisc skb => exact fun _ _ => trivial
  | _ => trivial

structure ReplyOffers (s : DsrNode) (c : RreqCopy) (target : InAddr) (tail : List InAddr) (f : Frame) :
    Prop where
  sent : ∃ route pkt, route.src = c.src ∧ route.dst = target ∧ route.addrs = c.via ++ tail ∧
    route.laddrs = 4 * route.addrs.length ∧ f.nxtHop = pkt.nxtHop ∧ f.skb = dsrSkbCreate pkt ∧
    rrepPkt s.kmem s.ifaddr ⟨s.ifaddr, c.src, srtFlags s.kmem, 4 * c.via.length, c.via.reverse⟩ route =
      some pkt
  decoded : (c.via ++ tail).length ≤ 62 → ∀ mem mem' prom, ∃ p q, RrepDecoded s.ifaddr c.src target
    c.via.reverse (c.via ++ tail) mem' (dsrPktRecv mem prom f.skb) p q

theorem RreqSound.reply {c : RreqCopy} {target : InAddr} {promisc : Bool} {hw : HwAddr} {ttl : ℕ}
    {s s' : DsrNode} {f : Frame} (h : RreqSound c target)
    (hfits : RreqFits s c.via (dsrPktRecv s.kmem promisc (arrive c.skb hw ttl)))
    (hlc : LcSound s.lc) (hrun : (Input.recv promisc (arrive c.skb hw ttl)).handle s = .ok () s')
    (hf : .send .rrepSend f ∈ newEvents s s') : ∃ tail, ReplySound c target s.ifaddr s'.lc tail ∧
      ReplyOffers s c target tail f := by
  obtain ⟨hdr, id, hp, hran⟩ := (h.wire.arrive hw ttl).ran hfits hrun
  obtain ⟨route, s₂, hrep⟩ := hran.replied hp hlc hf
  obtain ⟨hsame, pkt, hpkt, hnxt, hskb⟩ := hrep.sent hf
  obtain ⟨post, hat⟩ := hp.opt
  have hsrt := rreqOptSrt_image hat hp.image hfits.le s.kmem s.ifaddr
  rw [hp.src_eq] at hsrt
  have hlegal := hrep.legal
  rw [hsrt, hat.rreq_target hp.image, ← hsame] at hlegal
  obtain ⟨tail, hsound, hsrc, hdst, haddrs, hladdrs⟩ := hlegal.sound h
  rw [hsrt, dsrSrtNewRev_exact _ rfl] at hpkt
  refine ⟨tail, hsound, ⟨route, pkt, hsrc, hdst, haddrs, hladdrs, hnxt, hskb, hpkt⟩, fun hfew mem mem' prom => ?_⟩
  have hback : RouteOk (⟨s.ifaddr, c.src, srtFlags s.kmem, 4 * c.via.length, c.via.reverse⟩ : DsrSrt) :=
    ⟨by rw [List.length_reverse], by rw [List.length_reverse]; exact hfits.le⟩
  have hroute : RouteOk route := ⟨hladdrs, by rw [haddrs]; exact hfew⟩
  have hdec := (rrepPkt_wire hpkt hback hroute).decoded hback hroute mem mem' prom
  rw [hskb]
  rw [hdst, haddrs] at hdec
  exact hdec

theorem reply_sound {air : List RreqCopy} {c : RreqCopy} (h : Request air) (hc : c ∈ air)
    (hfew : c.via.length ≤ 62) : ∃ target, RreqSound c target ∧
      ∀ {ok promisc hw ttl s s' f}, NodeReach ok s →
        RreqFits s c.via (dsrPktRecv s.kmem promisc (arrive c.skb hw ttl)) →
        (Input.recv promisc (arrive c.skb hw ttl)).handle s = .ok () s' →
        .send .rrepSend f ∈ newEvents s s' →
        ∃ tail, ReplySound c target s.ifaddr s'.lc tail ∧ ReplyOffers s c target tail f := by
  obtain ⟨target, hs⟩ := request_sound h hc hfew
  exact ⟨target, hs, fun hreach hfits hrun hf => hs.reply hfits hreach.lcSound hrun hf⟩

def answerNode : DsrNode := dsrNodeInit (ringHost 9) confvalsDef true 8 ⟨100, 0⟩ (fun _ => 0) 0

def relayedSkb : Option Skb := relayed.bind fun s' => (rebroadcasts ringNode s').head?

def answered : Option DsrNode :=
  relayedSkb.bind fun skb => okState ((Input.recv false (arrive skb 2 64)).handle answerNode)

def answer : Option Frame := answered.bind fun s' => (sends .rrepSend answerNode s').head?

theorem reply_sound_answer : ∃ air c s s' f, Request air ∧ c ∈ air ∧ c.via = [ringHost 2] ∧
    (Input.recv false (arrive c.skb 2 64)).handle s = .ok () s' ∧ .send .rrepSend f ∈ newEvents s s' ∧
    ∃ target, RreqSound c target ∧
      ∃ tail, ReplySound c target s.ifaddr s'.lc tail ∧ ReplyOffers s c target tail f := by
  obtain ⟨f, hf⟩ : ∃ f, answer = some f := Option.isSome_iff_exists.mp (by decide +kernel)
  obtain ⟨s', hs', hhead⟩ := Option.bind_eq_some_iff.mp hf
  obtain ⟨skb, hskb, hrun⟩ := Option.bind_eq_some_iff.mp hs'
  obtain ⟨s₁, hs₁, hreb⟩ := Option.bind_eq_some_iff.mp hskb
  obtain ⟨f₀, hf₀, hrelay⟩ := Option.bind_eq_some_iff.mp hs₁
  obtain ⟨s₀, hs₀, hask⟩ := Option.bind_eq_some_iff.mp hf₀
  have h₁ := Request.start.origin (okState_eq_some hs₀) (mem_sends (List.mem_of_mem_head? hask))
  have h₂ := h₁.recv 1 64 (List.mem_append_right _ (List.mem_singleton_self _)) (okState_eq_some hrelay)
  have hc : (⟨askNode.ifaddr, [ringNode.ifaddr], skb⟩ : RreqCopy) ∈
      ([] ++ [⟨askNode.ifaddr, [], f₀.skb⟩] ++ (rebroadcasts ringNode s₁).map fun skb =>
        (⟨askNode.ifaddr, [] ++ [ringNode.ifaddr], skb⟩ : RreqCopy)) :=
    List.mem_append_right _ (List.mem_map.mpr ⟨skb, List.mem_of_mem_head? hreb, rfl⟩)
  have hf := mem_sends (List.mem_of_mem_head? hhead)
  obtain ⟨target, hs, hreply⟩ := reply_sound h₂ hc (show 1 ≤ 62 by decide)
  have hreach := @NodeReach.init (fun _ _ => True) (ringHost 9) confvalsDef true 8 ⟨100, 0⟩ (fun _ => 0) 0
  exact ⟨_, _, _, _, f, h₂, hc, rfl, okState_eq_some hrun, hf, target, hs,
    hreply hreach (Or.inl (show 1 ≤ 61 by decide)) (okState_eq_some hrun) hf⟩

end DsrUu
