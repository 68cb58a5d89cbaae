import DsrUu.Node.Journey

namespace DsrUu

open Bytes Effect

structure Carries (prot : UInt8) (pay : List UInt8) (dp : DsrPkt) : Prop where
  nextHdr : dp.byteAt 0 = prot
  payload : dp.payload = pay
  payloadLen : dp.payloadLen = pay.length

structure Unharmed (prot : UInt8) (pay : List UInt8) (skb : Skb) : Prop where
  nextHdr : skb.data.getD 0 0 = prot
  data : ∃ opts, skb.data = opts ++ pay ∧ opts.length = dsrOptsLenOf skb

section Carries

variable {prot : UInt8} {pay : List UInt8} {as : List InAddr} {salv sleft j : ℕ}
  {hdr rest : List UInt8} {dp : DsrPkt} {skb : Skb}

theorem readAt_whole (xs : List UInt8) : readAt xs 0 xs.length = xs := by
  simpa using readAt_append_left xs []

theorem SrtBuf.byteAt_zero (h : SrtBuf as salv sleft hdr rest dp) : dp.byteAt 0 = hdr.getD 0 0 := by
  obtain ⟨junk, hat⟩ := h.srtAt
  apply hat.byteAt_pre
  rw [h.hdr_length]
  exact Nat.succ_pos 3

theorem SrtBuf.optsLen_pos (h : SrtBuf as salv sleft hdr rest dp) : 0 < dp.optsLen := by
  rw [h.optsLen]
  unfold dsrOptHdrLen
  omega

theorem Carries.congr {dp' : DsrPkt} (h : Carries prot pay dp) (hs : SameHdr dp dp')
    (hb : dp'.byteAt 0 = dp.byteAt 0) : Carries prot pay dp' :=
  ⟨hb.trans h.nextHdr, hs.payload.trans h.payload, hs.payloadLen.trans h.payloadLen⟩

theorem Carries.write (h : Carries prot pay dp) {off : ℕ} (hoff : 0 < off) (xs : List UInt8) :
    Carries prot pay (dp.write off xs) :=
  h.congr (write_same dp off xs) (byteAt_write_lt dp xs hoff)

theorem Carries.read_payload (h : Carries prot pay dp) :
    (if dp.payloadLen ≠ 0 then readAt dp.payload 0 dp.payloadLen.toNat else []) = pay := by
  rw [h.payloadLen, h.payload, Int.toNat_natCast, readAt_whole]
  cases pay with
  | nil => rfl
  | cons x xs => exact if_pos (Int.natCast_ne_zero.mpr (Nat.succ_ne_zero _))

theorem Carries.created (h : Carries prot pay dp) (hb : SrtBuf as salv sleft hdr rest dp) :
    Unharmed prot pay (dsrSkbCreate dp) := by
  have hpos := hb.optsLen_pos
  obtain ⟨junk, hdh⟩ := hb.dh
  have hlen : (dp.bytesAt 0 dp.optsLen).length = dp.optsLen := by
    rw [bytesAt_dh hdh, length_readAt]
  constructor
  · have hget : (dsrSkbCreate dp).data.getD 0 0 = (dp.bytesAt 0 dp.optsLen).getD 0 0 :=
      getD_append_left (by rw [hlen]; exact hpos) 0
    rw [hget, bytesAt_dh hdh, ← h.nextHdr, byteAt_dh hdh]
    simp [readAt, List.getElem?_range hpos]
  · refine ⟨dp.bytesAt 0 dp.optsLen, ?_, hlen.trans hb.dsrOptsLenOf.symm⟩
    rw [dsrSkbCreate, h.read_payload]

theorem Carries.of_optHdr {b : OptBuf} {nh : ℕ} (hb : dp.dh = some b) (hlen : 0 < b.raw.length)
    (hnh : UInt8.ofNat nh = prot) (hp : dp.payload = pay) (hpl : dp.payloadLen = pay.length)
    (len : ℕ) : Carries prot pay (dp.write 0 (optHdrBytes len nh)) := by
  have hpos : 0 < (optHdrBytes len nh).length := by
    rw [length_optHdrBytes]
    exact Nat.succ_pos 3
  have hw : (dp.write 0 (optHdrBytes len nh)).byteAt (0 + 0) = (optHdrBytes len nh).getD 0 0 :=
    byteAt_write_head hb hpos (by rwa [Nat.add_zero])
  have hsame := write_same dp 0 (optHdrBytes len nh)
  exact ⟨hw.trans hnh, hsame.payload.trans hp, hsame.payloadLen.trans hpl⟩

theorem expand_payload {dp' : DsrPkt} {mem : ℕ → UInt8} {len off : ℕ}
    (h : dsrPktAllocOptsExpand mem dp len = some (dp', off)) :
    dp'.payload = dp.payload ∧ dp'.payloadLen = dp.payloadLen := by
  unfold dsrPktAllocOptsExpand at h
  split at h
  · cases h
  · split at h
    · cases h
      exact ⟨rfl, rfl⟩
    · cases h
      exact ⟨(write_same _ _ _).payload, (write_same _ _ _).payloadLen⟩

theorem Carries.ackReqAppend (h : Carries prot pay dp) (hb : SrtBuf as salv sleft hdr [] dp)
    (hnone : dp.ackReqOpt = none) (mem : ℕ → UInt8) (id : ℕ) :
    Carries prot pay (dsrAckReqOptAdd mem dp id) := by
  obtain ⟨junk, hdh⟩ := hb.dh
  have hhdr := hb.hdr_length
  have hlen := optsLen_dh hdh
  have himg := length_srtOptImage salv sleft as
  unfold DsrUu.dsrAckReqOptAdd
  rw [hnone]
  dsimp only
  rw [if_neg hb.optsLen_pos.ne']
  split
  · exact h
  · next dp₁ off he =>
    obtain ⟨hp, hpl⟩ := expand_payload he
    obtain ⟨rfl, ⟨junk', hdh₁, hj⟩, -⟩ := expand_raw hdh
      (show _ = (hdr ++ srtOptImage salv sleft as) ++ junk by
        rw [List.nil_append, List.append_assoc])
      (by rw [List.length_append, hhdr, himg]; rfl) he
    obtain ⟨dp₂, hdp₂⟩ : ∃ dp₂, dp₂ = dsrBuildIp dp₁ dp₁.src dp₁.dst
      ((if dp.nh = .null then 0 else dp.iph.totLen) + dsrAckReqHdrLen) ipprotoDsr
      (if dp.nh = .null then ipDefTtl else dp.iph.ttl) := ⟨_, rfl⟩
    rw [← hdp₂]
    have hdh₂ : dp₂.dh = some { raw := (hdr ++ srtOptImage salv sleft as) ++ junk'
                                tail := dsrOptHdrLen + (4 * as.length + 4) +
                                  ([] : List UInt8).length + dsrAckReqHdrLen } := by
      rw [hdp₂]
      exact hdh₁
    have hzero : UInt8.ofNat dp₂.nextHdr = prot := by
      rw [DsrPkt.nextHdr, UInt8.ofNat_toNat, ← h.nextHdr, hb.byteAt_zero, byteAt_dh hdh₂,
        List.append_assoc]
      exact getD_append_left (by rw [hhdr]; exact Nat.succ_pos 3) 0
    have hroom : 0 < (hdr ++ srtOptImage salv sleft as ++ junk').length := by
      simp only [List.length_append, hhdr]
      unfold dsrOptHdrLen
      omega
    have hp₂ : dp₂.payload = pay := by
      rw [hdp₂, ← h.payload]
      exact hp
    have hpl₂ : dp₂.payloadLen = pay.length := by
      rw [hdp₂, ← h.payloadLen]
      exact hpl
    have h₃ := Carries.of_optHdr hdh₂ hroom hzero hp₂ hpl₂ (dsrOptHdrLen + dp₂.pLen + dsrAckReqHdrLen)
    exact h₃.write (hlen ▸ hb.optsLen_pos) _

theorem Carries.addAck (h : Carries prot pay dp) (hb : SrtBuf as salv sleft hdr rest dp)
    (hack : AckPtr as rest dp) (mem : ℕ → UInt8) (id : ℕ) : Carries prot pay (dsrAckReqOptAdd mem dp id) := by
  by_cases hr : rest = []
  · subst hr
    cases hp : dp.ackReqOpt with
    | none => exact h.ackReqAppend hb hp mem id
    | some p =>
      rw [DsrUu.dsrAckReqOptAdd, hp]
      dsimp only
      rw [DsrPkt.writeField, if_neg (by rw [hack.none rfl p hp]; exact Bool.false_ne_true)]
      exact h
  · rw [DsrUu.dsrAckReqOptAdd, hack.some hr]
    dsimp only
    unfold DsrPkt.writeField
    split
    · exact h.write (by unfold DsrPkt.ptr dsrOptHdrLen; dsimp only; omega) _
    · exact h

theorem FrameOf.intact {src dst : InAddr} {f : Frame} (hf : FrameOf dp f) (h : Carries prot pay dp)
    (hb : SrtBuf as salv sleft hdr rest dp) (has : as.length ≤ 63) (hh : HdrOk src dst dp)
    (hsrc : dp.src = src) (hdst : dp.dst = dst) (hack : AckPtr as rest dp) : Unharmed prot pay f.skb := by
  obtain ⟨dp', hadd, -, hs⟩ := hf
  rw [hs]
  cases hadd with
  | same => exact h.created hb
  | add mem id =>
    obtain ⟨hdr', rest', hb', -⟩ := hb.addAck has hh hsrc hdst hack mem id
    exact (h.addAck hb hack mem id).created hb'

theorem Unharmed.arrive (h : Unharmed prot pay skb) (hw : HwAddr) (ttl : ℕ) :
    Unharmed prot pay (arrive skb hw ttl) :=
  ⟨h.nextHdr, h.data⟩

theorem Unharmed.alloc (h : Unharmed prot pay skb) (hp : skb.iph.protocol = ipprotoDsr)
    (htot : skb.iph.totLen = 4 * skb.iph.ihl + dsrOptsLenOf skb + pay.length) (mem : ℕ → UInt8) :
    Carries prot pay (dsrPktAlloc mem skb) := by
  have ha := dsrPktAlloc_dsr mem hp
  obtain ⟨opts, hdata, hopts⟩ := h.data
  have hlen : (dsrPktAlloc mem skb).payloadLen = pay.length := by
    rw [ha.payloadLen, htot]
    omega
  have hpos : 0 < dsrOptsLenOf skb := by
    unfold dsrOptsLenOf dsrOptHdrLen
    omega
  refine ⟨?_, ?_, hlen⟩
  · rw [byteAt_dh ha.dh, ← h.nextHdr]
    dsimp only
    rw [getD_append_left (by rw [length_readAt]; exact hpos)]
    simp [readAt, List.getElem?_range hpos]
  · rw [ha.payload, hlen, Int.toNat_natCast, hdata, ← hopts]
    simpa using readAt_append_mid opts pay []

theorem Carries.received {s s₁ : DsrNode} {r : DsrPkt × List DsrPktAction} (h : Carries prot pay dp)
    (hb : SrtBuf as salv (as.length - j) hdr rest dp) (hp : Parsed as rest dp) (has : as.length ≤ 63)
    (hj : j ≤ as.length) (hprom : dp.promiscRecv = false) (hs : s.held = [])
    (hme : s.ifaddr = (as ++ [dp.dst]).getD j default) (hrun : dsrOptRecv dp s = .ok r s₁) :
    Carries prot pay r.1 := by
  obtain ⟨-, hproc, -⟩ := wp_ok (dsrOptRecv_srt hb hp has hj hprom hs hme) hrun
  exact h.congr hproc.same (hproc.buf.byteAt_zero.trans hb.byteAt_zero.symm)

theorem dsrPktAlloc_local (mem : ℕ → UInt8) (hp : skb.iph.protocol ≠ ipprotoDsr)
    (hhdr : 4 * skb.iph.ihl ≤ skb.iph.totLen) :
    (dsrPktAlloc mem skb).payload = readAt skb.data 0 (skb.iph.totLen - 4 * skb.iph.ihl) ∧
      (dsrPktAlloc mem skb).payloadLen = ((skb.iph.totLen - 4 * skb.iph.ihl : ℕ) : Int) := by
  have hsub : ((skb.iph.totLen : Int) - 4 * skb.iph.ihl - (0 : ℕ)) =
      ((skb.iph.totLen - 4 * skb.iph.ihl : ℕ) : Int) := by
    omega
  unfold dsrPktAlloc
  simp only [hp, decide_false, Bool.false_eq_true, if_false]
  rw [hsub, Int.toNat_natCast]
  exact ⟨rfl, rfl⟩

theorem dsrSrtAdd_carries {mem mem' : ℕ → UInt8} {srt : DsrSrt} (hp : skb.iph.protocol ≠ ipprotoDsr)
    (hhdr : 4 * skb.iph.ihl ≤ skb.iph.totLen)
    (h : dsrSrtAdd mem { dsrPktAlloc mem' skb with srt := some srt } = some dp) :
    Carries (UInt8.ofNat skb.iph.protocol)
      (readAt skb.data 0 (skb.iph.totLen - 4 * skb.iph.ihl)) dp := by
  have ha := dsrPktAlloc_head mem' skb
  obtain ⟨hpay, hpl⟩ := dsrPktAlloc_local mem' hp hhdr
  obtain ⟨dp₁, h₁, h⟩ := Option.bind_eq_some_iff.mp h
  obtain ⟨dp₂, h₂, rfl⟩ := Option.map_eq_some_iff.mp h
  unfold dsrOptHdrAdd at h₁
  unfold dsrSrtOptAdd at h₂
  split at h₁
  · cases h₁
  split at h₂
  · cases h₂
  rw [Option.some.injEq] at h₁ h₂
  obtain ⟨x, hx⟩ : ∃ x, x = dsrBuildIp (dsrPktAllocOpts mem
    { { dsrPktAlloc mem' skb with srt := some srt } with nxtHop := dsrSrtNextHop srt srt.n }
    (dsrOptHdrLen + dsrSrtOptLen srt)) (dsrPktAlloc mem' skb).src (dsrPktAlloc mem' skb).dst
    ((dsrPktAlloc mem' skb).iph.totLen + (dsrOptHdrLen + dsrSrtOptLen srt)) ipprotoDsr
    (dsrPktAlloc mem' skb).iph.ttl := ⟨_, rfl⟩
  have hdh : x.dh = some { raw := fill mem (dsrOptHdrLen + dsrSrtOptLen srt + defaultTailroom)
                           tail := dsrOptHdrLen + dsrSrtOptLen srt } := by
    rw [hx]
    rfl
  have hroom : 0 < (fill mem (dsrOptHdrLen + dsrSrtOptLen srt + defaultTailroom)).length := by
    rw [length_fill]
    unfold dsrOptHdrLen
    omega
  have hdp₁ : dp₁ = x.write 0 (optHdrBytes (dsrOptHdrLen + dsrSrtOptLen srt)
      (dsrPktAlloc mem' skb).iph.protocol) := by
    rw [hx]
    exact h₁.symm
  have hc : Carries (UInt8.ofNat skb.iph.protocol)
      (readAt skb.data 0 (skb.iph.totLen - 4 * skb.iph.ihl)) dp₁ := by
    rw [hdp₁]
    apply Carries.of_optHdr hdh hroom (congrArg (fun h : IpHdr => UInt8.ofNat h.protocol) ha.iph)
    · rw [hx]
      exact hpay
    · rw [hx, length_readAt]
      exact hpl
  rw [← h₂]
  have hoff : 0 < dsrOptHdrLen := Nat.succ_pos 3
  have hc₂ := hc.write hoff (srtOptBytes dp₁.salvage srt)
  exact ⟨hc₂.nextHdr, hc₂.payload, hc₂.payloadLen⟩

end Carries

structure Sendable (srt : DsrSrt) (skb : Skb) : Prop where
  fits : RouteFits srt skb
  loc : LocalSkb skb
  protocol : skb.iph.protocol ≠ ipprotoDsr
  room : skb.iph.totLen + 4 * srt.addrs.length + 12 < 65536

section Journeys

variable {skb : Skb} {srt : DsrSrt} {visited : List InAddr} {f : Frame} {prot : UInt8}
  {pay : List UInt8}

theorem OnRoute.totLen (h : OnRoute skb srt visited f) (hc : Sendable srt skb) :
    f.skb.iph.totLen =
      4 * f.skb.iph.ihl + dsrOptsLenOf f.skb + (skb.iph.totLen - 4 * skb.iph.ihl) := by
  obtain ⟨hdr, rest, hbuf, -⟩ := h.wire.alloc hc.fits.length fun _ => 0
  have hopts := hbuf.optsLen
  rw [optsLen_dh (dsrPktAlloc_dsr (fun _ => 0) h.wire.protocol).dh] at hopts
  have hack := hbuf.ack.length_le
  have hihl := h.pay.ihl
  have htot := h.pay.tot
  have hlt := h.pay.lt
  have hroom := hc.room
  have hhdr := hc.loc.hdr
  dsimp only at hopts
  unfold dsrOptHdrLen at hopts
  omega

theorem OnRoute.received (h : OnRoute skb srt visited f) (hc : Sendable srt skb)
    (hi : Unharmed prot pay f.skb) (hlen : pay.length = skb.iph.totLen - 4 * skb.iph.ihl) {s : DsrNode}
    (hme : s.ifaddr = f.nxtHop) (hs : s.held = []) (hw : HwAddr) (ttl : ℕ) : ∃ dp' acts s₁,
      Arrival skb.iph.saddr skb.iph.daddr srt.addrs 0 visited.length s
        (dsrPktAlloc s.kmem (arrive f.skb hw ttl)) dp' acts s₁ ∧ Carries prot pay dp' := by
  have hwire := h.wire.arrive hw ttl
  have hhere := hme.trans h.nxtHop
  obtain ⟨dp', acts, s₁, harr⟩ := hwire.arrival hc.fits.length h.le hs hhere
  obtain ⟨hdr, rest, hb, hp⟩ := hwire.alloc hc.fits.length s.kmem
  have hcar : Carries prot pay (dsrPktAlloc s.kmem (arrive f.skb hw ttl)) := by
    apply (hi.arrive hw ttl).alloc hwire.protocol
    rw [hlen]
    exact h.totLen hc
  refine ⟨dp', acts, s₁, harr, ?_⟩
  have hprom := (dsrPktAlloc_dsr s.kmem hwire.protocol).promisc
  apply hcar.received hb hp hc.fits.length h.le hprom hs _ harr.recv
  rw [harr.dst_eq]
  exact hhere

theorem alloc_ttl (mem : ℕ → UInt8) {src dst : InAddr} {as : List InAddr} {salv sleft : ℕ}
    (h : SrtWire src dst as salv sleft skb) : (dsrPktAlloc mem skb).iph.ttl = skb.iph.ttl := by
  have ha := dsrPktAlloc_dsr mem h.protocol
  rw [DsrPkt.iph, ha.nh, ha.skb_eq]

theorem FrameOf.sent_intact {dp : DsrPkt} {mem mem' : ℕ → UInt8} (hframe : FrameOf dp f)
    (hc : Sendable srt skb) (hadd : dsrSrtAdd mem { dsrPktAlloc mem' skb with srt := some srt } = some dp) :
    Unharmed (UInt8.ofNat skb.iph.protocol)
      (readAt skb.data 0 (skb.iph.totLen - 4 * skb.iph.ihl)) f.skb := by
  have hb := dsrSrtAdd_built hc.fits hadd
  obtain ⟨hdr, hbuf⟩ := hb.buf
  have hcar := dsrSrtAdd_carries hc.protocol hc.loc.hdr hadd
  exact hframe.intact hcar hbuf hc.fits.length hb.hdrOk hb.src hb.dst hb.ackPtr

theorem OnRoute.hop_intact (h : OnRoute skb srt visited f) (hc : Sendable srt skb)
    (hi : Unharmed prot pay f.skb) (hlen : pay.length = skb.iph.totLen - 4 * skb.iph.ihl) {s s' : DsrNode}
    {f' : Frame} (hw : HwAddr) {ttl : ℕ} (hme : s.ifaddr = f.nxtHop) (hs : s.held = []) (ht : 1 ≤ ttl)
    (hrun : dsrRecv (dsrPktAlloc s.kmem (arrive f.skb hw ttl)) s = .ok () s')
    (hf : .send .forward f' ∈ newEvents s s') : Unharmed prot pay f'.skb := by
  have hlt : visited.length < srt.addrs.length := by
    have hle := (h.hop hc.fits hc.loc hw hme hs ht hrun hf).le
    rw [List.length_append, List.length_singleton] at hle
    exact hle
  obtain ⟨dp', acts, s₁, harr, hcar⟩ := h.received hc hi hlen hme hs hw ttl
  obtain ⟨hdr, rest, hproc, -⟩ := harr.proc
  have hwire := h.wire.arrive hw ttl
  have hprom := (dsrPktAlloc_dsr s.kmem hwire.protocol).promisc
  have httl : 1 ≤ (dsrPktAlloc s.kmem (arrive f.skb hw ttl)).iph.ttl := by
    rw [alloc_ttl _ hwire]
    exact ht
  rw [harr.recv_forward hprom httl hlt] at hrun
  have hframe := (xmit_forward_events harr.aside hrun).2.2 f' hf
  exact hframe.intact hcar hproc.buf hc.fits.length harr.hdrOk (hproc.same.src.trans harr.src_eq)
    (hproc.same.dst.trans harr.dst_eq) hproc.ackPtr

theorem Journey.intact (hc : Sendable srt skb) (h : Journey skb srt visited f) :
    Unharmed (UInt8.ofNat skb.iph.protocol)
      (readAt skb.data 0 (skb.iph.totLen - 4 * skb.iph.ihl)) f.skb := by
  induction h with
  | sent hadd hsite hrun hf =>
    have hframe := xmit_sent_frame (by rcases hsite with rfl | rfl <;> exact nofun) hrun hf
    exact hframe.sent_intact hc hadd
  | hop hw ttl hj hme hs ht hrun hf ih =>
    exact (hj.onRoute hc.fits hc.loc).hop_intact hc ih (length_readAt _ _ _) hw hme hs ht hrun hf

attribute [ext] IpHdr

theorem Carries.delivered {dp : DsrPkt} {wire : Skb} (h : Carries prot pay dp) (hskb : dp.skb = some wire)
    (hnh : dp.nh = .skb) (hlt : 4 * wire.iph.ihl + pay.length < 65536) :
    dsrSkbCreate (dsrOptRemove dp) =
      { hSource := 0
        iph := { wire.iph with totLen := 4 * wire.iph.ihl + pay.length, protocol := prot.toNat }
        data := pay } := by
  have hip : dp.iph = wire.iph := by rw [DsrPkt.iph, hnh, hskb]
  have hiph : (dsrOptRemove dp).iph =
      { wire.iph with
        totLen := toUint32 (4 * dp.iph.ihl + dp.payloadLen) % 65536
        protocol := dp.nextHdr } :=
    iph_dsrBuildIp_skb hskb _ _ _ _ _
  have hlen : toUint32 (4 * wire.iph.ihl + (pay.length : ℕ)) % 65536 =
      4 * wire.iph.ihl + pay.length := by
    unfold toUint32
    omega
  have hdata : (if (dsrOptRemove dp).payloadLen ≠ 0 then
      readAt (dsrOptRemove dp).payload 0 (dsrOptRemove dp).payloadLen.toNat else []) = pay :=
    h.read_payload
  rw [dsrSkbCreate, hiph, hdata, hip, h.payloadLen, hlen, DsrPkt.nextHdr, h.nextHdr]
  rfl

theorem OnRoute.delivers (hon : OnRoute skb srt visited f) (hc : Sendable srt skb)
    (hprot : skb.iph.protocol < 256) (hdata : 4 * skb.iph.ihl + skb.data.length = skb.iph.totLen)
    (hpos : skb.data ≠ []) (hi : Unharmed (UInt8.ofNat skb.iph.protocol) skb.data f.skb)
    (hlast : visited.length = srt.addrs.length) {s : DsrNode} (hme : s.ifaddr = f.nxtHop)
    (hs : s.held = []) (hw : HwAddr) (ttl : ℕ) : ∃ s' d,
      dsrRecv (dsrPktAlloc s.kmem (arrive f.skb hw ttl)) s = .ok () s' ∧
      (newEvents s s').filter isDeliver = [.deliver d] ∧
      dsrSkbCreate d = { hSource := 0, iph := { skb.iph with ttl := ttl }, data := skb.data } := by
  have hlen : skb.iph.totLen - 4 * skb.iph.ihl = skb.data.length := by omega
  obtain ⟨dp', acts, s₁, harr, hcar⟩ := hon.received hc hi hlen.symm hme hs hw ttl
  obtain ⟨hdr, rest, hproc, -⟩ := harr.proc
  have hwire := hon.wire.arrive hw ttl
  have ha := dsrPktAlloc_dsr s.kmem hwire.protocol
  have hdst : s.ifaddr = skb.iph.daddr := by
    rw [hme, hon.nxtHop, hlast]
    simp
  have hne : (dsrPktAlloc s.kmem (arrive f.skb hw ttl)).payloadLen ≠ 0 := by
    rw [← hproc.same.payloadLen, hcar.payloadLen]
    exact Int.natCast_ne_zero.mpr fun hz => hpos (List.length_eq_zero_iff.mp hz)
  have hrecv := harr.recv_last ha.promisc hdst hlast
  obtain ⟨junk, hdh⟩ := hproc.buf.dh
  rw [if_pos hne, dsrDevDeliver, hdh, Option.isSome_some, if_pos rfl] at hrecv
  obtain ⟨b, hb, hE⟩ := harr.aside.newEvents
  refine ⟨{ s₁ with out := s₁.out ++ [.deliver (dsrOptRemove dp')] }, dsrOptRemove dp', hrecv,
    ?_, ?_⟩
  · have hnone : b.filter isDeliver = [] := by
      apply List.filter_eq_nil_iff.mpr
      intro e he
      rw [ackEvent_not_deliver e (hE e he)]
      exact Bool.false_ne_true
    rw [newEvents, hb, List.append_assoc, List.drop_left, List.filter_append, hnone]
    rfl
  · have hskb : dp'.skb = some (arrive f.skb hw ttl) := hproc.same.skb_eq.trans ha.skb_eq
    have hroom := hc.room
    have hihl : (arrive f.skb hw ttl).iph.ihl = skb.iph.ihl := hon.pay.ihl
    rw [hcar.delivered hskb (hproc.same.nh.trans ha.nh) (by rw [hihl]; omega)]
    congr 1
    refine IpHdr.ext hihl ?_ rfl ?_ hon.wire.saddr hon.wire.daddr
    · change 4 * (arrive f.skb hw ttl).iph.ihl + _ = _
      rw [hihl]
      exact hdata
    · exact UInt8.toNat_ofNat_of_lt' hprot

theorem journey_delivers (hc : Sendable srt skb) (hprot : skb.iph.protocol < 256)
    (hdata : 4 * skb.iph.ihl + skb.data.length = skb.iph.totLen) (hpos : skb.data ≠ [])
    (h : Journey skb srt visited f) (hlast : visited.length = srt.addrs.length) {s : DsrNode}
    (hme : s.ifaddr = f.nxtHop) (hs : s.held = []) (hw : HwAddr) (ttl : ℕ) : ∃ s' d,
      dsrRecv (dsrPktAlloc s.kmem (arrive f.skb hw ttl)) s = .ok () s' ∧
      (newEvents s s').filter isDeliver = [.deliver d] ∧
      dsrSkbCreate d = { hSource := 0, iph := { skb.iph with ttl := ttl }, data := skb.data } := by
  have hlen : skb.iph.totLen - 4 * skb.iph.ihl = skb.data.length := by omega
  have hi := h.intact hc
  rw [hlen, readAt_whole] at hi
  exact (h.onRoute hc.fits hc.loc).delivers hc hprot hdata hpos hi hlast hme hs hw ttl

end Journeys


def followLast (f : Frame) : List Frame :=
  sentBy .forward (dsrRecv (dsrPktAlloc (fun _ => 0) (arrive f.skb 1 63))) (followNode 3)

theorem followLast_journey {f f' : Frame} (hj : Journey followSkb followRoute [detourHost 2] f)
    (hme : detourHost 3 = f.nxtHop) (hf : f' ∈ followLast f) :
    Journey followSkb followRoute [detourHost 2, detourHost 3] f' := by
  unfold followLast at hf
  obtain ⟨s', hrun, he⟩ := mem_sentBy hf
  exact .hop (s := followNode 3) 1 63 hj hme rfl (by decide) hrun he

theorem followLast_any :
    (followSent.any fun f => decide (detourHost 2 = f.nxtHop) && (followHop f).any fun f₂ =>
      decide (detourHost 3 = f₂.nxtHop) && (followLast f₂).any fun f₃ =>
        decide (detourHost 4 = f₃.nxtHop)) = true := by
  decide +kernel

theorem journey_delivers_two : ∃ f s' d,
    Journey followSkb followRoute [detourHost 2, detourHost 3] f ∧
    dsrRecv (dsrPktAlloc (fun _ => 0) (arrive f.skb 1 62)) (followNode 4) = .ok () s' ∧
    (newEvents (followNode 4) s').filter isDeliver = [.deliver d] ∧
    dsrSkbCreate d =
      { hSource := 0, iph := { followSkb.iph with ttl := 62 }, data := followSkb.data } := by
  obtain ⟨f, hf, hc⟩ := List.any_eq_true.mp followLast_any
  obtain ⟨hme, hc⟩ := Bool.and_eq_true_iff.mp hc
  obtain ⟨f₂, hf₂, hc⟩ := List.any_eq_true.mp hc
  obtain ⟨hme₂, hc⟩ := Bool.and_eq_true_iff.mp hc
  obtain ⟨f₃, hf₃, hme₃⟩ := List.any_eq_true.mp hc
  have hj := followHop_journey (followSent_journey hf) (of_decide_eq_true hme) hf₂
  have hj₃ := followLast_journey hj (of_decide_eq_true hme₂) hf₃
  obtain ⟨s', d, hrun, hdel, hd⟩ := journey_delivers (s := followNode 4)
    ⟨⟨rfl, rfl, rfl, by decide⟩, ⟨by decide, by decide, by decide⟩, by decide, by decide⟩
    (by decide) rfl (List.cons_ne_nil _ _) hj₃ rfl (of_decide_eq_true hme₃) rfl 1 62
  exact ⟨f₃, s', d, hj₃, hrun, hdel, hd⟩

end DsrUu
