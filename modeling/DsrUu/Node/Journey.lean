import DsrUu.Node.Arrival

namespace DsrUu

open Bytes Effect

structure PayIs (w : ℕ) (pay : Int) (dp : DsrPkt) : Prop where
  ihl : dp.iph.ihl = w
  tot : ((dp.iph.totLen : Int) - 4 * w - dp.optsLen - pay) % 65536 = 0
  skb : ∃ skb, dp.skb = some skb ∧ skb.iph.ihl = w
  nh : dp.nh ≠ .null
  lt : dp.iph.totLen < 65536

structure WirePay (w : ℕ) (pay : Int) (skb : Skb) : Prop where
  ihl : skb.iph.ihl = w
  tot : ((skb.iph.totLen : Int) - 4 * w - dsrOptsLenOf skb - pay) % 65536 = 0
  lt : skb.iph.totLen < 65536

section PayIs

variable {w : ℕ} {pay : Int} {dp : DsrPkt}

theorem PayIs.congr {dp' : DsrPkt} (h : PayIs w pay dp) (hs : SameHdr dp dp')
    (ho : dp'.optsLen = dp.optsLen) : PayIs w pay dp' :=
  ⟨by rw [hs.iph, h.ihl], by rw [hs.iph, ho, h.tot], by rw [hs.skb_eq]; exact h.skb,
    by rw [hs.nh]; exact h.nh, by rw [hs.iph]; exact h.lt⟩

theorem PayIs.write (h : PayIs w pay dp) (off : ℕ) (xs : List UInt8) :
    PayIs w pay (dp.write off xs) :=
  h.congr (write_same dp off xs) (optsLen_write dp off xs)

theorem PayIs.dsrBuildIp {dp' : DsrPkt} {tot len : ℕ} (h : PayIs w pay dp) (hs : dp'.skb = dp.skb)
    (ho : dp'.optsLen = dp.optsLen + len) (ht : tot = dp.iph.totLen + len) (src dst : InAddr)
    (ttl : ℕ) : PayIs w pay (dsrBuildIp dp' src dst tot ipprotoDsr ttl) := by
  obtain ⟨skb, hskb, hihl⟩ := h.skb
  have hs' : dp'.skb = some skb := hs.trans hskb
  have hip := iph_dsrBuildIp_skb hs' src dst tot ipprotoDsr ttl
  have htot := h.tot
  refine ⟨by rw [hip]; exact hihl, ?_, ⟨skb, hs', hihl⟩, nofun, ?_⟩
  swap
  · rw [hip]
    exact Nat.mod_lt _ (by decide)
  rw [hip]
  change (((tot % 65536 : ℕ) : Int) - 4 * w - dp'.optsLen - pay) % 65536 = 0
  rw [ho, ht]
  omega

theorem PayIs.dsrAckReqOptAdd (h : PayIs w pay dp) (mem : ℕ → UInt8) (id : ℕ) :
    PayIs w pay (dsrAckReqOptAdd mem dp id) := by
  unfold DsrUu.dsrAckReqOptAdd
  split
  · exact h.congr (writeField_same _ _ _ _) (optsLen_writeField _ _ _ _)
  · rw [if_neg h.nh]
    dsimp only
    split
    · next hz =>
      refine PayIs.write (PayIs.write (h.dsrBuildIp ?_ ?_ rfl _ _ _) _ _) _ _
      · rfl
      · rw [hz, Nat.zero_add]
        rfl
    · split
      · exact h
      · next dp₁ off he =>
        refine PayIs.write (PayIs.write (h.dsrBuildIp ?_ ?_ rfl _ _ _) _ _) _ _
        · unfold dsrPktAllocOptsExpand at he
          split at he
          · cases he
          · split at he
            · cases he
              rfl
            · cases he
              exact (write_same _ _ _).skb_eq
        · unfold dsrPktAllocOptsExpand at he
          split at he
          · cases he
          · next b hb =>
            split at he
            · cases he
              rw [optsLen_dh hb]
              rfl
            · cases he
              rw [optsLen_write, optsLen_dh hb]
              rfl

theorem AckReqAdded.payIs {dp' : DsrPkt} (h : AckReqAdded dp dp') (hp : PayIs w pay dp) :
    PayIs w pay dp' := by
  cases h with
  | same => exact hp
  | add mem id => exact hp.dsrAckReqOptAdd mem id

end PayIs

theorem SrtBuf.dsrOptsLenOf {as : List InAddr} {salv sleft : ℕ} {hdr rest : List UInt8} {dp : DsrPkt}
    (h : SrtBuf as salv sleft hdr rest dp) : dsrOptsLenOf (dsrSkbCreate dp) = dp.optsLen := by
  have hhdr := h.hdr_length
  have hpl := h.pLen_eq
  have hlen := h.optsLen
  obtain ⟨junk, hdh⟩ := h.dh
  have hget : ∀ i, i < 4 → (dsrSkbCreate dp).data.getD i 0 = dp.byteAt i := by
    intro i hi
    have hb : i < (dp.bytesAt 0 dp.optsLen).length := by
      rw [bytesAt_dh hdh, length_readAt, hlen]
      unfold dsrOptHdrLen
      omega
    rw [dsrSkbCreate, getD_append_left hb, bytesAt_dh hdh, byteAt_dh hdh]
    rw [bytesAt_dh hdh, length_readAt] at hb
    simp only [readAt, Nat.zero_add, List.getD_eq_getElem?_getD, List.getElem?_map,
      List.getElem?_range hb, Option.map_some, Option.getD_some]
  rw [DsrUu.dsrOptsLenOf, hget 2 (by omega), hget 3 (by omega)]
  change dp.pLen + dsrOptHdrLen = _
  omega

theorem PayIs.wire {w : ℕ} {pay : Int} {as : List InAddr} {salv sleft : ℕ} {hdr rest : List UInt8}
    {dp : DsrPkt} (h : PayIs w pay dp) (hb : SrtBuf as salv sleft hdr rest dp) : WirePay w pay (dsrSkbCreate dp) := by
  refine ⟨h.ihl, ?_, h.lt⟩
  rw [hb.dsrOptsLenOf]
  exact h.tot

structure RouteFits (srt : DsrSrt) (skb : Skb) : Prop where
  src : srt.src = skb.iph.saddr
  dst : srt.dst = skb.iph.daddr
  laddrs : srt.laddrs = 4 * srt.addrs.length
  length : srt.addrs.length ≤ 63

structure Built (srt : DsrSrt) (skb : Skb) (dp : DsrPkt) : Prop where
  buf : ∃ hdr, SrtBuf srt.addrs 0 srt.addrs.length hdr [] dp
  hdrOk : HdrOk skb.iph.saddr skb.iph.daddr dp
  src : dp.src = skb.iph.saddr
  dst : dp.dst = skb.iph.daddr
  nxtHop : dp.nxtHop = (srt.addrs ++ [skb.iph.daddr]).getD 0 default
  ackPtr : AckPtr srt.addrs [] dp
  payIs : PayIs skb.iph.ihl ((skb.iph.totLen : Int) - 4 * skb.iph.ihl) dp

structure AllocHead (skb : Skb) (dp : DsrPkt) : Prop where
  src : dp.src = skb.iph.saddr
  dst : dp.dst = skb.iph.daddr
  nh : dp.nh = .skb
  skb_eq : dp.skb = some skb
  salvage : dp.salvage = 0
  ackReq : ∀ p, dp.ackReqOpt = some p → p.gen = dp.gen

theorem dsrPktAlloc_head (mem : ℕ → UInt8) (skb : Skb) : AllocHead skb (dsrPktAlloc mem skb) := by
  by_cases hp : skb.iph.protocol = ipprotoDsr
  · have ha := dsrPktAlloc_dsr mem hp
    refine ⟨ha.src, ha.dst, ha.nh, ha.skb_eq, ?_, fun p h => (ha.parse.ackReq p h).gen_eq⟩
    unfold dsrPktAlloc
    simp only [decide_eq_true hp, if_true]
    exact (congrArg DsrPkt.salvage (dsrOptParse_spec _).2).trans (write_salvage _ _ _)
  · unfold dsrPktAlloc
    simp only [hp, decide_false, Bool.false_eq_true, if_false]
    exact ⟨rfl, rfl, rfl, rfl, rfl, nofun⟩

theorem AllocHead.iph {skb : Skb} {dp : DsrPkt} (h : AllocHead skb dp) : dp.iph = skb.iph := by
  rw [DsrPkt.iph, h.nh, h.skb_eq]

theorem RouteFits.nextHop {srt : DsrSrt} {skb : Skb} (h : RouteFits srt skb) :
    dsrSrtNextHop srt srt.n = (srt.addrs ++ [skb.iph.daddr]).getD 0 default := by
  have hn : srt.n = srt.addrs.length := n_of_laddrs h.laddrs
  unfold dsrSrtNextHop
  rw [hn, sub_self, h.dst]
  cases hc : srt.addrs with
  | nil => simp
  | cons a as =>
    rw [if_neg (by rw [List.length_cons]; omega)]
    change srt.addrAt (0 : ℕ) = _
    rw [addrAt_natCast, hc]
    rfl

theorem dsrSrtAdd_built {mem mem' : ℕ → UInt8} {skb : Skb} {srt : DsrSrt} {dp : DsrPkt}
    (hfit : RouteFits srt skb)
    (h : dsrSrtAdd mem { dsrPktAlloc mem' skb with srt := some srt } = some dp) :
    Built srt skb dp := by
  have ha := dsrPktAlloc_head mem' skb
  have hw := srtOptBytes_of_wf hfit.laddrs 0
  have himg := length_srtOptImage 0 srt.addrs.length srt.addrs
  have hfl : ∀ n, (fill mem n).length = n := length_fill mem
  obtain ⟨dp₁, h₁, h⟩ := Option.bind_eq_some_iff.mp h
  obtain ⟨dp₂, h₂, rfl⟩ := Option.map_eq_some_iff.mp h
  unfold dsrOptHdrAdd at h₁
  unfold dsrSrtOptAdd at h₂
  split at h₁
  · cases h₁
  split at h₂
  · cases h₂
  rw [Option.some.injEq] at h₁ h₂
  obtain ⟨x, hx⟩ : ∃ x, x = dsrBuildIp (dsrPktAllocOpts mem
    { { dsrPktAlloc mem' skb with srt := some srt } with nxtHop := dsrSrtNextHop srt srt.n }
    (dsrOptHdrLen + dsrSrtOptLen srt)) (dsrPktAlloc mem' skb).src (dsrPktAlloc mem' skb).dst
    ((dsrPktAlloc mem' skb).iph.totLen + (dsrOptHdrLen + dsrSrtOptLen srt)) ipprotoDsr
    (dsrPktAlloc mem' skb).iph.ttl := ⟨_, rfl⟩
  have hdh : x.dh = some { raw := fill mem (dsrOptHdrLen + dsrSrtOptLen srt + defaultTailroom)
                           tail := dsrOptHdrLen + dsrSrtOptLen srt } := by
    rw [hx]
    rfl
  have hskb : x.skb = some skb := by
    rw [hx]
    exact ha.skb_eq
  have hh : HdrOk skb.iph.saddr skb.iph.daddr x := by
    rw [hx, ha.src, ha.dst]
    refine HdrOk.dsrBuildIp _ _ fun skb' hs => ?_
    rw [show skb' = skb from Option.some_inj.mp (hs.symm.trans ha.skb_eq)]
    exact ⟨rfl, rfl⟩
  have hsalv : dp₁.salvage = 0 := by
    rw [← h₁, write_salvage]
    exact ha.salvage
  have hlen : dsrSrtOptLen srt = 4 * srt.addrs.length + 4 := by
    rw [dsrSrtOptLen, hfit.laddrs]
    exact Nat.add_comm _ _
  rw [hsalv, hw] at h₂
  obtain ⟨hdr, hhdr, hl4, hbe⟩ : ∃ hdr, dp₁ = x.write 0 hdr ∧ hdr.length = dsrOptHdrLen ∧
      be16 (hdr.getD 2 0) (hdr.getD 3 0) = 4 * srt.addrs.length + 4 := by
    refine ⟨_, by rw [hx]; exact h₁.symm, rfl, ?_⟩
    have hfit' := hfit.length
    rw [be16_optHdrBytes (by omega), hlen]
    exact Nat.add_sub_cancel_left _ _
  have hsame : SameHdr x dp₂ := by
    rw [← h₂, hhdr]
    exact (write_same x _ _).trans (write_same _ _ _)
  have hopts : dp₂.optsLen = x.optsLen := by rw [← h₂, hhdr, optsLen_write, optsLen_write]
  have hbuf : SrtBuf srt.addrs 0 srt.addrs.length hdr [] dp₂ := by
    refine ⟨⟨(fill mem (dsrOptHdrLen + dsrSrtOptLen srt + defaultTailroom)).drop
      (hdr.length + (srtOptImage 0 srt.addrs.length srt.addrs).length), ?_⟩, hl4, hbe, Or.inl rfl⟩
    rw [← h₂, hhdr, write_dh hdh, write_dh rfl, ← hl4]
    dsimp only
    rw [writeAt_two (by rw [hfl, himg, hl4, hlen]; omega), hlen]
    rfl
  have hh₂ : HdrOk skb.iph.saddr skb.iph.daddr dp₂ := by
    rw [← h₂, hhdr]
    exact (hh.write _ _).write _ _
  have hgen : dp₂.gen = (dsrPktAlloc mem' skb).gen + 1 := by
    rw [← h₂, hhdr, write_gen, write_gen, hx]
    rfl
  have hackr : dp₂.ackReqOpt = (dsrPktAlloc mem' skb).ackReqOpt := by
    rw [← h₂, hhdr, write_ackReqOpt, write_ackReqOpt, hx]
    rfl
  have hnxt : dp₂.nxtHop = dsrSrtNextHop srt srt.n := by
    rw [← h₂, hhdr, write_nxtHop, write_nxtHop, hx]
    rfl
  have hsrc : dp₂.src = skb.iph.saddr := by
    rw [hsame.src, hx]
    exact ha.src
  have hdst : dp₂.dst = skb.iph.daddr := by
    rw [hsame.dst, hx]
    exact ha.dst
  have hpay : PayIs skb.iph.ihl ((skb.iph.totLen : Int) - 4 * skb.iph.ihl) x := by
    have hip : x.iph = { skb.iph with
        totLen := (skb.iph.totLen + (dsrOptHdrLen + dsrSrtOptLen srt)) % 65536
        protocol := ipprotoDsr } := by
      rw [hx, ha.iph]
      exact iph_dsrBuildIp_skb ha.skb_eq _ _ _ _ _
    have ho : x.optsLen = dsrOptHdrLen + dsrSrtOptLen srt := by rw [optsLen_dh hdh]
    refine ⟨by rw [hip], ?_, ⟨skb, hskb, rfl⟩, by rw [hx]; exact nhPtr_ipData_ne, ?_⟩
    · rw [hip, ho]
      dsimp only
      omega
    · rw [hip]
      exact Nat.mod_lt _ (by decide)
  have hpay₂ := hpay.congr hsame hopts
  refine ⟨⟨hdr, hbuf.dh, hbuf.hdr_length, hbuf.pLen, hbuf.ack⟩,
    ⟨hh₂.protocol, hh₂.saddr, hh₂.daddr, hh₂.skb⟩, hsrc, hdst, ?_, ⟨fun _ p hp => ?_, fun hr => absurd rfl hr⟩,
    ⟨hpay₂.ihl, hpay₂.tot, hpay₂.skb, hpay₂.nh, hpay₂.lt⟩⟩
  · rw [← hfit.nextHop]
    exact hnxt
  · have hp' := ha.ackReq p (hackr.symm.trans hp)
    have hne : p.gen ≠ dp₂.gen := by omega
    change (dp₂.dh.isSome && decide (p.gen = dp₂.gen)) = false
    rw [decide_eq_false hne, Bool.and_false]

theorem WirePay.arrive {w : ℕ} {pay : Int} {skb : Skb} (h : WirePay w pay skb) (hw : HwAddr)
    (ttl : ℕ) : WirePay w pay (arrive skb hw ttl) :=
  ⟨h.ihl, h.tot, h.lt⟩

theorem WirePay.alloc {w : ℕ} {pay : Int} {skb : Skb} (h : WirePay w pay skb)
    (hp : skb.iph.protocol = ipprotoDsr) (mem : ℕ → UInt8) : PayIs w pay (dsrPktAlloc mem skb) := by
  have ha := dsrPktAlloc_dsr mem hp
  have hip : (dsrPktAlloc mem skb).iph = skb.iph := by rw [DsrPkt.iph, ha.nh, ha.skb_eq]
  refine ⟨by rw [hip, h.ihl], ?_, ⟨skb, ha.skb_eq, h.ihl⟩, by rw [ha.nh]; exact nhPtr_skb_ne, by rw [hip]; exact h.lt⟩
  rw [hip, optsLen_dh ha.dh]
  exact h.tot

theorem PayIs.payloadLen {w : ℕ} {pay : Int} {mem : ℕ → UInt8} {skb : Skb} (h : WirePay w pay skb)
    (hp : skb.iph.protocol = ipprotoDsr) (hw : w < 16) (hlen : dsrOptsLenOf skb ≤ 264)
    (hpay : 0 ≤ pay ∧ pay < 65536) : (dsrPktAlloc mem skb).payloadLen ≠ 0 ↔ pay ≠ 0 := by
  have ht := h.tot
  have hlt := h.lt
  rw [(dsrPktAlloc_dsr mem hp).payloadLen, h.ihl]
  omega

inductive Journey (skb : Skb) (srt : DsrSrt) : List InAddr → Frame → Prop
  | sent {mem mem' : ℕ → UInt8} {dp : DsrPkt} {s s' : DsrNode} {site : XmitSite} {f : Frame} :
      dsrSrtAdd mem { dsrPktAlloc mem' skb with srt := some srt } = some dp →
      (site = .startXmit ∨ site = .sendBuf) → xmit site dp s = .ok () s' →
      .send site f ∈ newEvents s s' → Journey skb srt [] f
  | hop {visited : List InAddr} {f f' : Frame} {s s' : DsrNode} (hw : HwAddr) (ttl : ℕ) :
      Journey skb srt visited f → s.ifaddr = f.nxtHop → s.held = [] → 1 ≤ ttl →
      dsrRecv (dsrPktAlloc s.kmem (arrive f.skb hw ttl)) s = .ok () s' →
      .send .forward f' ∈ newEvents s s' → Journey skb srt (visited ++ [s.ifaddr]) f'

structure Visit (src : InAddr) (as : List InAddr) (dst : InAddr) (pay : Int) (j : ℕ) (s : DsrNode)
    (dp dp' : DsrPkt) (p : OptPtr) (s₁ : DsrNode) : Prop where
  srtOpt : dp.srtOpt = some p
  sleft : srtOptSleft dp p = as.length - j
  addrs : (srtOptSrt s.kmem dp p).addrs = as
  recv : ∃ acts, dsrOptRecv dp s = .ok (dp', acts) s₁
  prvHop : dp'.prvHop = (src :: as).getD j default
  addrs_kept : (srtOptSrt s.kmem dp' p).addrs = as
  forward : j < as.length → dp'.nxtHop = (as ++ [dst]).getD (j + 1) default ∧
    srtOptSleft dp' p = as.length - (j + 1) ∧ dsrRecv dp s = xmit .forward dp' s₁ ∧
    ∀ s', dsrRecv dp s = .ok () s' →
      (newEvents s s').countP isForward = 1 ∧ (newEvents s s').countP isDeliver = 0
  deliver : j = as.length → ∃ s', dsrRecv dp s = .ok () s' ∧
    (∀ e ∈ newEvents s s', ackEvent e ∨ isDeliver e = true) ∧
    (newEvents s s').countP isForward = 0 ∧
    (newEvents s s').countP isDeliver = if pay ≠ 0 then 1 else 0

theorem maintEvent_quiet {site : XmitSite} {dp : DsrPkt} {e : Event} (h : maintEvent site dp e) :
    isForward e = false ∧ isDeliver e = false := by
  unfold maintEvent at h
  split at h
  · next site' _ _ =>
    cases site' <;> first | exact ⟨rfl, rfl⟩ | exact h.elim
  · exact ⟨rfl, rfl⟩
  · exact ⟨rfl, rfl⟩
  · exact ⟨rfl, rfl⟩
  · exact h.elim

theorem xmit_forward_events {s s₁ s' : DsrNode} {dp : DsrPkt} (ha : Aside ackEvent s s₁)
    (h : xmit .forward dp s₁ = .ok () s') : (newEvents s s').countP isForward = 1 ∧
      (newEvents s s').countP isDeliver = 0 ∧
      ∀ f, .send .forward f ∈ newEvents s s' → FrameOf dp f := by
  obtain ⟨b, hb, hE⟩ := ha.newEvents
  obtain ⟨due, c, hc, hC⟩ : ∃ due c, s'.out = s₁.out ++ .xmit .forward dp due :: c ∧
      ∀ e ∈ c, maintEvent .forward dp e :=
    xmit_once (show ¬ XmitSite.forward.maint from nofun) h
  have hnew : newEvents s s' = b ++ .xmit .forward dp due :: c := by
    rw [newEvents, hc, hb, List.append_assoc, List.drop_left]
  have hz : c.countP isForward = 0 ∧ c.countP isDeliver = 0 :=
    ⟨List.countP_eq_zero.mpr fun e he => by rw [(maintEvent_quiet (hC e he)).1]; exact Bool.false_ne_true,
      List.countP_eq_zero.mpr fun e he => by rw [(maintEvent_quiet (hC e he)).2]; exact Bool.false_ne_true⟩
  refine ⟨?_, ?_, fun f hf => ?_⟩
  · rw [hnew, List.countP_append, countP_ackEvent hE ackEvent_not_forward, List.countP_cons_of_pos rfl, hz.1]
  · rw [hnew, List.countP_append, countP_ackEvent hE ackEvent_not_deliver,
      List.countP_cons_of_neg Bool.false_ne_true, hz.2]
  · rw [hnew] at hf
    rcases List.mem_append.mp hf with hf | hf
    · exact absurd (hE _ hf) (fun hc => hc)
    · rcases List.mem_cons.mp hf with hf | hf
      · cases hf
      · rcases hC _ hf with hm | hm
        · exact hm.elim
        · exact hm.2

theorem SrtBuf.sleft_addrs {as : List InAddr} {salv sleft : ℕ} {hdr rest : List UInt8} {dp : DsrPkt}
    (h : SrtBuf as salv sleft hdr rest dp) (has : as.length ≤ 63) (hs : sleft ≤ 63)
    (mem : ℕ → UInt8) : srtOptSleft dp (dp.ptr dsrOptHdrLen) = sleft ∧
      (DsrUu.srtOptSrt mem dp (dp.ptr dsrOptHdrLen)).addrs = as := by
  obtain ⟨junk, hat⟩ := h.srtAt
  refine ⟨?_, by rw [h.srtOptSrt has mem, routeSrt]⟩
  rw [hat.srtOptSleft]
  omega

section Follow

variable {src dst : InAddr} {as : List InAddr} {salv w j : ℕ} {pay : Int} {skb : Skb} {s : DsrNode}

theorem SrtWire.dsrOptsLenOf_le (h : SrtWire src dst as salv j skb) (has : as.length ≤ 63) :
    dsrOptsLenOf skb ≤ 264 := by
  obtain ⟨hdr, rest, hbuf, _⟩ := h.alloc has fun _ => 0
  have ha := dsrPktAlloc_dsr (fun _ => 0) h.protocol
  have hl := hbuf.optsLen
  have hr := hbuf.ack.length_le
  rw [optsLen_dh ha.dh] at hl
  dsimp only at hl
  unfold dsrOptHdrLen at hl
  omega

theorem SrtWire.visit (h : SrtWire src dst as salv (as.length - j) skb) (hp : WirePay w pay skb)
    (hw : w < 16) (hpay : 0 ≤ pay ∧ pay < 65536) (has : as.length ≤ 63) (hj : j ≤ as.length)
    (hs : s.held = []) (hme : s.ifaddr = (as ++ [dst]).getD j default) (ht : 1 ≤ skb.iph.ttl) :
    ∃ dp' p s₁ hdr rest, Visit src as dst pay j s (dsrPktAlloc s.kmem skb) dp' p s₁ ∧
      Aside ackEvent s s₁ ∧ SrtBuf as salv (as.length - j - 1) hdr rest dp' ∧ AckPtr as rest dp' ∧
      HdrOk src dst dp' ∧ PayIs w pay dp' ∧ dp'.src = src ∧ dp'.dst = dst := by
  have ha := dsrPktAlloc_dsr s.kmem h.protocol
  obtain ⟨hdr₀, rest₀, hbuf₀, hpar⟩ := h.alloc has s.kmem
  obtain ⟨dp', acts, s₁, harr⟩ := h.arrival has hj hs hme
  obtain ⟨hdr, rest, hproc, hacts⟩ := harr.proc
  obtain ⟨p, hpe⟩ : ∃ p, p = (dsrPktAlloc s.kmem skb).ptr dsrOptHdrLen := ⟨_, rfl⟩
  have hpe' : p = dp'.ptr dsrOptHdrLen := by rw [hpe, DsrPkt.ptr, DsrPkt.ptr, hproc.gen]
  obtain ⟨hsl, had⟩ := hbuf₀.sleft_addrs has (by omega) s.kmem
  obtain ⟨hsl', had'⟩ := hproc.buf.sleft_addrs has (by omega) s.kmem
  rw [← hpe] at hsl had
  rw [← hpe'] at hsl' had'
  have hiph : (dsrPktAlloc s.kmem skb).iph = skb.iph := by rw [DsrPkt.iph, ha.nh, ha.skb_eq]
  refine ⟨dp', p, s₁, hdr, rest, ⟨hpar.srtOpt.trans (congrArg some hpe.symm), hsl, had, ⟨acts, harr.recv⟩,
    ?_, had', fun hlt => ⟨?_, ?_, ?_, fun s' hrun => ?_⟩, fun heq => ?_⟩, harr.aside, hproc.buf, hproc.ackPtr,
    harr.hdrOk, (hp.alloc h.protocol s.kmem).congr hproc.same harr.optsLen, hproc.same.src.trans harr.src_eq,
    hproc.same.dst.trans harr.dst_eq⟩
  · rw [hproc.prvHop, harr.src_eq]
  · rw [hproc.nxtHop hlt, harr.dst_eq]
  · exact hsl'
  · exact harr.recv_forward ha.promisc (by rw [hiph]; exact ht) hlt
  · rw [harr.recv_forward ha.promisc (by rw [hiph]; exact ht) hlt] at hrun
    exact ⟨(xmit_forward_events harr.aside hrun).1, (xmit_forward_events harr.aside hrun).2.1⟩
  · have hme' : s.ifaddr = dst := by
      rw [hme, heq]
      simp
    have hrecv := harr.recv_last ha.promisc hme' heq
    have hiff : (dsrPktAlloc s.kmem _).payloadLen ≠ 0 ↔ _ := PayIs.payloadLen hp h.protocol hw (h.dsrOptsLenOf_le has) hpay
    obtain ⟨b, hb, hE⟩ := harr.aside.newEvents
    by_cases hz : pay = 0
    · rw [if_neg fun hc => hiff.mp hc hz] at hrecv
      have hnew : newEvents s s₁ = b := by rw [newEvents, hb, List.drop_left]
      refine ⟨s₁, hrecv, ?_, ?_, ?_⟩
      · rw [hnew]
        exact fun e he => Or.inl (hE e he)
      · rw [hnew, countP_ackEvent hE ackEvent_not_forward]
      · rw [hnew, countP_ackEvent hE ackEvent_not_deliver, if_neg (not_not.mpr hz)]
    · rw [if_pos (hiff.mpr hz)] at hrecv
      obtain ⟨d, hd⟩ : ∃ d, d = if dp'.dh.isSome then dsrOptRemove dp' else dp' := ⟨_, rfl⟩
      have hnew : newEvents s { s₁ with out := s₁.out ++ [.deliver d] } = b ++ [.deliver d] := by
        rw [newEvents, hb, List.append_assoc, List.drop_left]
      refine ⟨{ s₁ with out := s₁.out ++ [.deliver d] }, by rw [hrecv, hd]; rfl, ?_, ?_, ?_⟩
      · rw [hnew]
        exact forall_mem_snoc (fun e he => Or.inl (hE e he)) (Or.inr rfl)
      · rw [hnew, List.countP_append, countP_ackEvent hE ackEvent_not_forward]
        rfl
      · rw [hnew, List.countP_append, countP_ackEvent hE ackEvent_not_deliver, if_pos hz]
        rfl

end Follow

theorem xmit_sent_frame {site : XmitSite} {dp : DsrPkt} {s s' : DsrNode} {f : Frame}
    (hsite : ¬ site.maint) (h : xmit site dp s = .ok () s') (hf : .send site f ∈ newEvents s s') :
    FrameOf dp f := by
  obtain ⟨due, c, hc, hC⟩ := xmit_once hsite h
  rw [newEvents, hc, List.drop_left] at hf
  rcases List.mem_cons.mp hf with hf | hf
  · cases hf
  · rcases hC _ hf with hm | hm
    · exact absurd hm hsite
    · exact hm.2

theorem FrameOf.wirePay {src dst : InAddr} {as : List InAddr} {salv sleft w : ℕ} {pay : Int}
    {hdr rest : List UInt8} {dp : DsrPkt} {f : Frame} (hf : FrameOf dp f)
    (hb : SrtBuf as salv sleft hdr rest dp) (has : as.length ≤ 63) (hh : HdrOk src dst dp)
    (hsrc : dp.src = src) (hdst : dp.dst = dst) (hack : AckPtr as rest dp) (hp : PayIs w pay dp) :
    WirePay w pay f.skb := by
  obtain ⟨dp', hadd, _, hs⟩ := hf
  rw [hs]
  cases hadd with
  | same => exact hp.wire hb
  | add mem id =>
    obtain ⟨hdr', rest', hb', _⟩ := hb.addAck has hh hsrc hdst hack mem id
    exact (hp.dsrAckReqOptAdd mem id).wire hb'

structure LocalSkb (skb : Skb) : Prop where
  ihl : skb.iph.ihl < 16
  totLen : skb.iph.totLen < 65536
  hdr : 4 * skb.iph.ihl ≤ skb.iph.totLen

structure OnRoute (skb : Skb) (srt : DsrSrt) (visited : List InAddr) (f : Frame) : Prop where
  le : visited.length ≤ srt.addrs.length
  order : visited = srt.addrs.take visited.length
  nxtHop : f.nxtHop = (srt.addrs ++ [skb.iph.daddr]).getD visited.length default
  wire : SrtWire skb.iph.saddr skb.iph.daddr srt.addrs 0 (srt.addrs.length - visited.length) f.skb
  pay : WirePay skb.iph.ihl ((skb.iph.totLen : Int) - 4 * skb.iph.ihl) f.skb

section Run

variable {skb : Skb} {srt : DsrSrt} {visited : List InAddr} {f : Frame}

theorem OnRoute.visit (h : OnRoute skb srt visited f) (hfit : RouteFits srt skb)
    (hloc : LocalSkb skb) {s : DsrNode} (hme : s.ifaddr = f.nxtHop) (hs : s.held = []) (hw : HwAddr)
    {ttl : ℕ} (ht : 1 ≤ ttl) : ∃ dp' p s₁ hdr rest,
      Visit skb.iph.saddr srt.addrs skb.iph.daddr ((skb.iph.totLen : Int) - 4 * skb.iph.ihl)
        visited.length s (dsrPktAlloc s.kmem (arrive f.skb hw ttl)) dp' p s₁ ∧
      Aside ackEvent s s₁ ∧
      SrtBuf srt.addrs 0 (srt.addrs.length - visited.length - 1) hdr rest dp' ∧
      AckPtr srt.addrs rest dp' ∧ HdrOk skb.iph.saddr skb.iph.daddr dp' ∧
      PayIs skb.iph.ihl ((skb.iph.totLen : Int) - 4 * skb.iph.ihl) dp' ∧
      dp'.src = skb.iph.saddr ∧ dp'.dst = skb.iph.daddr := by
  have hhdr := hloc.hdr
  have htot := hloc.totLen
  exact (h.wire.arrive hw ttl).visit (h.pay.arrive hw ttl) hloc.ihl (by omega) hfit.length h.le hs
    (hme.trans h.nxtHop) ht

theorem FrameOf.onRoute {dp : DsrPkt} (hframe : FrameOf dp f) (hfit : RouteFits srt skb)
    (hb : Built srt skb dp) : OnRoute skb srt [] f := by
  obtain ⟨hdr, hbuf⟩ := hb.buf
  obtain ⟨hn, hwire⟩ := hframe.wire hbuf hfit.length hb.hdrOk hb.src hb.dst hb.ackPtr
  exact ⟨Nat.zero_le _, rfl, hn.trans hb.nxtHop, hwire,
    hframe.wirePay hbuf hfit.length hb.hdrOk hb.src hb.dst hb.ackPtr hb.payIs⟩

theorem OnRoute.hop (h : OnRoute skb srt visited f) (hfit : RouteFits srt skb) (hloc : LocalSkb skb)
    {s s' : DsrNode} {f' : Frame} (hw : HwAddr) {ttl : ℕ} (hme : s.ifaddr = f.nxtHop)
    (hs : s.held = []) (ht : 1 ≤ ttl)
    (hrun : dsrRecv (dsrPktAlloc s.kmem (arrive f.skb hw ttl)) s = .ok () s')
    (hf : .send .forward f' ∈ newEvents s s') : OnRoute skb srt (visited ++ [s.ifaddr]) f' := by
  obtain ⟨dp', p, s₁, hdr, rest, hv, ha, hbuf, hack, hh, hp, hsrc, hdst⟩ := h.visit hfit hloc hme hs hw ht
  have hlt : visited.length < srt.addrs.length := by
    refine Nat.lt_of_le_of_ne h.le fun heq => ?_
    obtain ⟨t, ht, hE, _, _⟩ := hv.deliver heq
    rw [hrun] at ht
    cases ht
    rcases hE _ hf with hc | hc
    · exact hc
    · cases hc
  obtain ⟨hnxt, _, hfwd, _⟩ := hv.forward hlt
  rw [hfwd] at hrun
  have hframe := (xmit_forward_events ha hrun).2.2 f' hf
  obtain ⟨hn, hwire⟩ := hframe.wire hbuf hfit.length hh hsrc hdst hack
  have hlen : (visited ++ [s.ifaddr]).length = visited.length + 1 := List.length_append
  have hget : s.ifaddr = srt.addrs.getD visited.length default := by
    rw [hme, h.nxtHop, List.getD_eq_getElem?_getD, List.getD_eq_getElem?_getD,
      List.getElem?_append_left hlt]
  refine ⟨by omega, ?_, ?_, ?_, ?_⟩
  · rw [hlen, List.take_add_one, ← h.order, hget, List.getD_eq_getElem?_getD,
      List.getElem?_eq_getElem hlt]
    rfl
  · rw [hn, hnxt, hlen]
  · rw [hlen, ← Nat.sub_sub]
    exact hwire
  · exact hframe.wirePay hbuf hfit.length hh hsrc hdst hack hp

theorem Journey.onRoute (hfit : RouteFits srt skb) (hloc : LocalSkb skb)
    (h : Journey skb srt visited f) : OnRoute skb srt visited f := by
  induction h with
  | sent hadd hsite hrun hf =>
    have hframe := xmit_sent_frame (by rcases hsite with rfl | rfl <;> exact nofun) hrun hf
    exact hframe.onRoute hfit (dsrSrtAdd_built hfit hadd)
  | hop hw ttl _ hme hs ht hrun hf ih => exact ih.hop hfit hloc hw hme hs ht hrun hf

theorem journey_follows (hfit : RouteFits srt skb) (hloc : LocalSkb skb)
    (h : Journey skb srt visited f) : visited.length ≤ srt.addrs.length ∧
      visited = srt.addrs.take visited.length ∧
      f.nxtHop = (srt.addrs ++ [skb.iph.daddr]).getD visited.length default ∧
      ∀ (s : DsrNode) (hw : HwAddr) (ttl : ℕ), s.ifaddr = f.nxtHop → s.held = [] → 1 ≤ ttl →
        ∃ dp' p s₁, Visit skb.iph.saddr srt.addrs skb.iph.daddr
          ((skb.iph.totLen : Int) - 4 * skb.iph.ihl) visited.length s
          (dsrPktAlloc s.kmem (arrive f.skb hw ttl)) dp' p s₁ := by
  have hon := h.onRoute hfit hloc
  refine ⟨hon.le, hon.order, hon.nxtHop, fun s hw ttl hme hs ht => ?_⟩
  obtain ⟨dp', p, s₁, _, _, hv, _⟩ := hon.visit hfit hloc hme hs hw ht
  exact ⟨dp', p, s₁, hv⟩

end Run

def sentBy (site : XmitSite) (m : DsrM Unit) (s : DsrNode) : List Frame :=
  match m s with
  | .ok _ s' => (newEvents s s').filterMap fun
    | .send site' f => if site' = site then some f else none
    | _ => none
  | .error _ _ => []

theorem mem_sentBy {site : XmitSite} {m : DsrM Unit} {s : DsrNode} {f : Frame}
    (h : f ∈ sentBy site m s) : ∃ s', m s = .ok () s' ∧ .send site f ∈ newEvents s s' := by
  unfold sentBy at h
  split at h
  · next s' hm =>
    obtain ⟨e, he, hf⟩ := List.mem_filterMap.mp h
    split at hf
    · split at hf
      · next hsite =>
        cases hf
        exact ⟨s', hm, hsite ▸ he⟩
      · cases hf
    · cases hf
  · exact absurd h List.not_mem_nil

def followSkb : Skb :=
  { hSource := 0
    iph := { ihl := 5, totLen := 21, ttl := 64, protocol := 17, saddr := detourHost 1
             daddr := detourHost 4 }
    data := [255] }

def followRoute : DsrSrt :=
  { src := detourHost 1, dst := detourHost 4, flags := 0, laddrs := 8
    addrs := [detourHost 2, detourHost 3] }

def followNode (i : UInt8) : DsrNode :=
  { dsrNodeInit (detourHost i) confvalsDef true 8 ⟨100, 0⟩ (fun _ => 0) 0 with slaveDev := true }

def followSent : List Frame :=
  match dsrSrtAdd (fun _ => 0) { dsrPktAlloc (fun _ => 0) followSkb with srt := some followRoute } with
  | some dp => sentBy .startXmit (xmit .startXmit dp) (followNode 1)
  | none => []

def followHop (f : Frame) : List Frame :=
  sentBy .forward (dsrRecv (dsrPktAlloc (fun _ => 0) (arrive f.skb 1 64))) (followNode 2)

theorem followHop_journey {f f' : Frame} (hsent : Journey followSkb followRoute [] f)
    (hme : detourHost 2 = f.nxtHop) (hf : f' ∈ followHop f) :
    Journey followSkb followRoute [detourHost 2] f' := by
  unfold followHop at hf
  obtain ⟨s', hrun, he⟩ := mem_sentBy hf
  exact .hop (s := followNode 2) 1 64 hsent hme rfl (by decide) hrun he

theorem followSent_journey {f : Frame} (hf : f ∈ followSent) :
    Journey followSkb followRoute [] f := by
  unfold followSent at hf
  split at hf
  · next dp hadd =>
    obtain ⟨s', hrun, he⟩ := mem_sentBy hf
    exact .sent hadd (Or.inl rfl) hrun he
  · exact absurd hf List.not_mem_nil

theorem followSent_any :
    (followSent.any fun f => (followHop f).length = 1 ∧ detourHost 2 = f.nxtHop) = true := by
  decide +kernel

theorem journey_follows_two : ∃ f, Journey followSkb followRoute [detourHost 2] f ∧
    f.nxtHop = detourHost 3 := by
  obtain ⟨f, hf, hc⟩ := List.any_eq_true.mp followSent_any
  obtain ⟨hl, hme⟩ := of_decide_eq_true hc
  obtain ⟨f', hf'⟩ := List.length_eq_one_iff.mp hl
  have hhop := followHop_journey (followSent_journey hf) hme (hf' ▸ List.mem_singleton_self _)
  obtain ⟨_, _, hn, _⟩ := journey_follows ⟨rfl, rfl, rfl, by decide⟩ ⟨by decide, by decide, by decide⟩ hhop
  exact ⟨f', hhop, hn⟩

end DsrUu
