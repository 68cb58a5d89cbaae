import DsrUu.Node.Flood
import DsrUu.Node.Journey
import DsrUu.Node.Light
import DsrUu.Node.RreqForward

namespace DsrUu

open Bytes Effect

def rreqOptImage (id : List UInt8) (target : InAddr) (as : List InAddr) : List UInt8 :=
  UInt8.ofNat OptType.rreq.code :: UInt8.ofNat (6 + 4 * as.length) :: id ++ target.bytes ++ encodeAddrs as

structure RreqImage (target : InAddr) (as : List InAddr) (hdr id : List UInt8) : Prop where
  hdr_length : hdr.length = dsrOptHdrLen
  id_length : id.length = 2
  pLen : be16 (hdr.getD 2 0) (hdr.getD 3 0) = 8 + 4 * as.length

structure RreqWire (src target : InAddr) (as : List InAddr) (skb : Skb) : Prop where
  protocol : skb.iph.protocol = ipprotoDsr
  saddr : skb.iph.saddr = src
  daddr : skb.iph.daddr = dsrBroadcast
  ihl : skb.iph.ihl = 5
  totLen : skb.iph.totLen = 20 + skb.data.length
  data : ∃ hdr id, RreqImage target as hdr id ∧ skb.data = hdr ++ rreqOptImage id target as

section Wire

variable {src target me : InAddr} {as : List InAddr} {skb : Skb} {hdr id post : List UInt8} {dp : DsrPkt}
  {p : OptPtr}

theorem length_rreqOptImage (h : RreqImage target as hdr id) :
    (rreqOptImage id target as).length = 8 + 4 * as.length := by
  simp +arith [rreqOptImage, length_bytes, length_encodeAddrs, h.id_length]

theorem OptAt.rreq_type (h : OptAt dp p hdr (rreqOptImage id target as) post) :
    optTypeOf (dp.fieldAt p 0) = .rreq := by
  rw [h.fieldAt (by simp [rreqOptImage])]
  rfl

theorem OptAt.rreq_length (h : OptAt dp p hdr (rreqOptImage id target as) post) (has : as.length ≤ 62) :
    dp.optLength p = 6 + 4 * as.length := by
  rw [DsrPkt.optLength, h.fieldAt (by simp [rreqOptImage])]
  simp only [rreqOptImage, List.cons_append, List.getD_cons_succ, List.getD_cons_zero, UInt8.toNat_ofNat']
  omega

theorem OptAt.rreq_target (h : OptAt dp p hdr (rreqOptImage id target as) post)
    (hi : RreqImage target as hdr id) : dp.addrField p 4 = target := by
  have hlen := length_rreqOptImage hi
  obtain ⟨i0, i1, rfl⟩ := List.length_eq_two.mp hi.id_length
  rw [DsrPkt.addrField, h.fieldAt (by omega), h.fieldAt (by omega), h.fieldAt (by omega), h.fieldAt (by omega)]
  rfl

theorem OptAt.rreq_addrs (h : OptAt dp p hdr (rreqOptImage id target as) post)
    (hi : RreqImage target as hdr id) : dp.fieldsAt p 8 (4 * as.length) = encodeAddrs as := by
  have hlen := length_rreqOptImage hi
  obtain ⟨i0, i1, rfl⟩ := List.length_eq_two.mp hi.id_length
  rw [h.fieldsAt (by omega), ← length_encodeAddrs]
  exact List.take_length

theorem rreqOptSrt_image (h : OptAt dp p hdr (rreqOptImage id target as) post)
    (hi : RreqImage target as hdr id) (has : as.length ≤ 62) (mem : ℕ → UInt8) (me : InAddr) :
    rreqOptSrt mem me dp p = { src := dp.src, dst := me, flags := srtFlags mem, laddrs := 4 * as.length,
                               addrs := as } := by
  have hlen : dp.optLength p - 6 = 4 * as.length := by rw [h.rreq_length has]; omega
  rw [rreqOptSrt, hlen, h.rreq_addrs hi, dsrSrtNew, ← length_encodeAddrs, List.take_length,
    decodeAddrs_encodeAddrs]

end Wire

structure RreqPkt (src target : InAddr) (as : List InAddr) (skb : Skb) (hdr id : List UInt8)
    (dp : DsrPkt) : Prop where
  image : RreqImage target as hdr id
  opt : ∃ post, OptAt dp (dp.ptr dsrOptHdrLen) hdr (rreqOptImage id target as) post
  kept : AreaKept (12 + 4 * as.length) dp (dp.ptr dsrOptHdrLen)
  bytes : dp.bytesAt 0 (12 + 4 * as.length) = hdr ++ rreqOptImage id target as
  src_eq : dp.src = src
  dst_eq : dp.dst = dsrBroadcast
  iph : dp.iph = skb.iph
  skb_eq : dp.skb = some skb
  numRreq : dp.numRreqOpts = 0
  payloadLen : dp.payloadLen = 0
  requestAck : dp.requestAck = false

theorem RreqWire.pkt {src target : InAddr} {as : List InAddr} {skb : Skb} (h : RreqWire src target as skb)
    (mem : ℕ → UInt8) (promisc : Bool) :
    ∃ hdr id, RreqPkt src target as skb hdr id (dsrPktRecv mem promisc skb) := by
  obtain ⟨hdr, id, hi, hdata⟩ := h.data
  have ha := dsrPktAlloc_dsr mem h.protocol
  have hkept := dsrPktRecv_areaKept h.protocol mem promisc
  have himg := length_rreqOptImage hi
  have hhdr : hdr.length = 4 := hi.hdr_length
  have hlen : skb.data.length = 12 + 4 * as.length := by
    rw [hdata, List.length_append, himg, hhdr]
    omega
  have hopts : dsrOptsLenOf skb = 12 + 4 * as.length := by
    rw [dsrOptsLenOf, hdata, getD_append_left (by omega), getD_append_left (by omega), hi.pLen, dsrOptHdrLen]
    omega
  have hread : readAt skb.data 0 (dsrOptsLenOf skb) = hdr ++ rreqOptImage id target as := by
    rw [hopts, ← hlen, hdata]
    simpa using readAt_append_left (hdr ++ rreqOptImage id target as) []
  have hdh := dsrPktRecv_dh h.protocol mem promisc
  rw [hread, hopts] at hdh
  have hpay : (dsrPktAlloc mem skb).payloadLen = 0 := by
    rw [ha.payloadLen, h.totLen, h.ihl, hopts, hlen]
    omega
  have hl : (dsrPktRecv mem promisc skb).optsLen = 12 + 4 * as.length := optsLen_dh hdh
  rw [hl] at hkept
  refine ⟨hdr, id, hi, ⟨_, ⟨_, hdh, List.append_assoc _ _ _⟩, rfl, hhdr.symm⟩, hkept, ?_,
    ha.src.trans h.saddr, ha.dst.trans h.daddr, ?_, ha.skb_eq, ha.numRreq, hpay, ?_⟩
  · have hsize : 12 + 4 * as.length = (hdr ++ rreqOptImage id target as).length := by
      rw [← hlen, hdata]
    rw [bytesAt_dh hdh, hsize]
    exact readAt_append_left _ _
  · change (dsrPktAlloc mem skb).iph = skb.iph
    rw [DsrPkt.iph, ha.nh, ha.skb_eq]
  · exact ha.requestAck.trans (by rw [hpay]; rfl)

def notRebroadcast : Event → Prop
  | .send .forwardRreq _ => False
  | _ => True

theorem notRebroadcast_closed (s₀ : DsrNode) : ReplyClosed (Adds s₀ notRebroadcast) (fun _ _ => True)
    (fun _ site _ => site ≠ .forwardRreq) (fun _ => True) fun _ => True where
  held _ _ h := h
  lc _ _ _ _ _ h := h
  neighTbl _ _ h := h
  gratRrepTbl _ _ h := h
  gratTimer _ _ h := h
  ackTimer _ _ h := h
  carry _ _ _ _ _ := trivial
  retime _ _ _ _ _ _ := trivial
  entries _ _ _ _ := trivial
  maintBuf _ _ h _ := h
  ackReqSend _ _ _ _ _ _ _ := nofun
  rerrSend _ _ _ _ _ _ _ _ _ _ _ _ _ _ := nofun
  salvage _ _ _ _ _ _ _ _ _ _ _ _ := nofun
  emitXmit _ _ _ h _ := h.emit trivial
  emitMaint _ _ h := h.emit trivial
  emitAckReq _ _ _ h := h.emit trivial
  newEntry _ _ _ _ _ _ _ _ _ _ _ _ _ _ := trivial
  emitSend _ _ site _ _ _ hp _ h _ := h.emit (by
    cases site with
    | forwardRreq => exact absurd rfl hp
    | _ => trivial)
  rreqTbl _ _ h := h
  rreqBrk _ _ h := h
  rreqSeqno _ _ h := h
  sendBufTimer _ _ h := h
  waiting _ _ _ _ := trivial
  sendBuf _ _ h _ := h
  emitIcmp _ _ h := h.emit trivial
  emitDiscovery _ _ _ h := h.emit trivial
  emitSendBuf _ _ h := h.emit trivial
  rreqSend _ _ _ _ _ _ _ := nofun
  srtAdd _ _ _ _ _ _ _ hsite _ _ _ _ _ := by rcases hsite with rfl | rfl <;> exact nofun
  rrepSend _ _ _ _ _ _ := nofun
  notes _ _ _ _ _ := trivial
  setDaddr _ _ _ := trivial
  setSleft _ _ _ _ _ := trivial
  rreqAppend _ _ _ _ _ _ _ := trivial


structure SameOpts (dp q : DsrPkt) : Prop where
  dh : q.dh = dp.dh
  gen : q.gen = dp.gen
  promisc : q.promiscRecv = dp.promiscRecv

inductive RreqOut (me : InAddr) (dp : DsrPkt) (p : OptPtr) : DsrPkt × List DsrPktAction → Prop
  | idle {q : DsrPkt} {a : DsrPktAction} : (a = .drop ∨ a = .error ∨ a = .none) → SameOpts dp q →
      RreqOut me dp p (q, [a])
  | forward {mem : ℕ → UInt8} {dp₁ : DsrPkt} : dp₁.core = dp.core → dp₁.numRreqOpts = 1 →
      dp.addrField p 4 ≠ me → dp.src ≠ me →
      me ∉ (rreqOptSrt mem me dp p).addrs.take (rreqOptSrt mem me dp p).n →
      RreqOut me dp p (rreqForward mem me dp₁ p, [.forwardRreq])

theorem sameOpts_setDaddr {dp q : DsrPkt} (h : SameOpts dp q) (a : InAddr) : SameOpts dp (q.setDaddr a) := by
  unfold DsrPkt.setDaddr
  split <;> exact ⟨h.dh, h.gen, h.promisc⟩

theorem dsrRreqOptRecv_out {dp : DsrPkt} {p : OptPtr} {s s' : DsrNode} {r : DsrPkt × List DsrPktAction}
    (hnum : dp.numRreqOpts = 0) (h : dsrRreqOptRecv dp p s = .ok r s') : RreqOut s.ifaddr dp p r := by
  have hself : SameOpts dp { dp with numRreqOpts := dp.numRreqOpts + 1, rreqOpt := some p } := ⟨rfl, rfl, rfl⟩
  have hreply : ∀ q a, SameOpts dp q → RreqOut s.ifaddr dp p (q.setDaddr a, [.none]) := fun q a hq =>
    .idle (Or.inr (Or.inr rfl)) (sameOpts_setDaddr hq a)
  change (if dp.promiscRecv then _ else _ : DsrM _) s = _ at h
  by_cases hp : dp.promiscRecv = true
  · rw [if_pos hp] at h
    cases h
    exact .idle (Or.inl rfl) ⟨rfl, rfl, rfl⟩
  rw [if_neg hp] at h
  change (if dp.numRreqOpts + 1 > 1 then _ else _ : DsrM _) s = _ at h
  rw [if_neg (by omega)] at h
  obtain ⟨me, s₁, hme, h⟩ := bind_ok h
  cases hme
  obtain ⟨mem, s₂, hmem, h⟩ := bind_ok h
  cases hmem
  refine Returns.bind (fun dup => ?_) _ _ _ h
  refine Returns.ite (fun _ => Returns.pure (.idle (Or.inl rfl) hself)) fun _ => Returns.bind fun _ => ?_
  refine Returns.ite (fun _ => Returns.pure (.idle (Or.inr (Or.inl rfl)) hself)) fun _ => ?_
  refine Returns.bind fun _ => Returns.bind fun _ => Returns.bind fun _ => ?_
  refine Returns.ite (fun _ => Returns.bind fun _ => Returns.pure (hreply _ _ ⟨rfl, rfl, rfl⟩)) fun htarget => ?_
  refine Returns.ite (fun _ => Returns.pure (.idle (Or.inl rfl) ⟨rfl, rfl, rfl⟩)) fun hsrc => ?_
  refine Returns.ite (fun _ => Returns.pure (.idle (Or.inl rfl) ⟨rfl, rfl, rfl⟩)) fun hlist => ?_
  refine Returns.bind fun rc => ?_
  cases rc with
  | none => exact Returns.pure (.forward rfl (congrArg (· + 1) hnum) htarget hsrc hlist)
  | some rc =>
    refine Returns.ite (fun _ => Returns.pure ?_) fun _ => Returns.bind fun _ => Returns.pure ?_
    · exact .forward rfl (congrArg (· + 1) hnum) htarget hsrc hlist
    · exact hreply _ _ ⟨rfl, rfl, rfl⟩

theorem expand_sameHdr {mem : ℕ → UInt8} {dp : DsrPkt} {len : ℕ} {r : DsrPkt × ℕ}
    (h : dsrPktAllocOptsExpand mem dp len = some r) : SameHdr dp r.1 := by
  unfold dsrPktAllocOptsExpand at h
  split at h
  · cases h
  · split at h
    · cases h
      exact ⟨rfl, rfl, rfl, rfl, rfl, rfl, rfl, rfl⟩
    · cases h
      have hopts : ∀ n, SameHdr dp (dsrPktAllocOpts mem dp n) := fun _ => ⟨rfl, rfl, rfl, rfl, rfl, rfl, rfl, rfl⟩
      exact (hopts _).trans (write_same _ _ _)

theorem rreqForward_same (mem : ℕ → UInt8) (me : InAddr) (dp : DsrPkt) (p : OptPtr) :
    ∃ dp₂, SameHdr dp dp₂ ∧ rreqForward mem me dp p =
      dsrBuildIp dp₂ dp₂.src dp₂.dst (dp₂.iph.totLen + 4) ipprotoDsr dp₂.iph.ttl := by
  have hexp : SameHdr dp (((dsrPktAllocOptsExpand mem dp 4).map Prod.fst).getD dp) := by
    cases h : dsrPktAllocOptsExpand mem dp 4 with
    | none => exact SameHdr.refl dp
    | some r => exact expand_sameHdr h
  unfold rreqForward
  dsimp only
  refine ⟨_, ?_, rfl⟩
  refine ((SameHdr.trans ?_ (writeField_same _ _ _ _)).trans (writeField_same _ _ _ _)).trans
    (write_same _ _ _)
  split
  · exact hexp
  · exact hexp.trans (writeField_same _ _ _ _)

section Append

variable {src target me : InAddr} {as : List InAddr} {skb : Skb} {hdr id : List UInt8} {dp dp₁ : DsrPkt}
  {p : OptPtr}

theorem rreqArea_image (hi : RreqImage target as hdr id) (has : as.length ≤ 61) (hoff : p.off = 4)
    (hbytes : dp.bytesAt 0 dp.optsLen = hdr ++ rreqOptImage id target as)
    (hlen : dp.optLength p = 6 + 4 * as.length) (hp : dp.pLen = 8 + 4 * as.length) :
    ∃ hdr', RreqImage target (as ++ [me]) hdr' id ∧
      rreqArea me dp p = hdr' ++ rreqOptImage id target (as ++ [me]) := by
  obtain ⟨h0, h1, h2, h3, rfl⟩ := List.length_eq_four.mp (show hdr.length = 4 from hi.hdr_length)
  have himg := length_rreqOptImage hi
  have hend : optEnd dp p = ([h0, h1, h2, h3] ++ rreqOptImage id target as).length := by
    rw [optEnd, hoff, hlen, List.length_append, himg]
    simp +arith
  refine ⟨[h0, h1] ++ toBe16 (12 + 4 * as.length), ⟨rfl, hi.id_length, ?_⟩, ?_⟩
  · rw [List.length_append, List.length_singleton]
    exact (be16_toBe16 (12 + 4 * as.length) (by omega)).trans (by omega)
  · obtain ⟨tail, htail⟩ : ∃ tail, tail = id ++ target.bytes ++ encodeAddrs (as ++ [me]) := ⟨_, rfl⟩
    have hgrown : [h0, h1, h2, h3] ++ rreqOptImage id target as ++ me.bytes =
        [h0, h1, h2, h3, UInt8.ofNat OptType.rreq.code] ++ (UInt8.ofNat (6 + 4 * as.length) :: tail) := by
      simp [htail, rreqOptImage, encodeAddrs]
    have hlenByte : writeAt ([h0, h1, h2, h3, UInt8.ofNat OptType.rreq.code] ++
        (UInt8.ofNat (6 + 4 * as.length) :: tail)) 5 [UInt8.ofNat (6 + 4 * as.length + 4)] =
        [h0, h1] ++ (h2 :: h3 :: UInt8.ofNat OptType.rreq.code ::
          UInt8.ofNat (6 + 4 * as.length + 4) :: tail) :=
      writeAt_append _ (Nat.succ_le_succ (Nat.zero_le _))
    have hpLen : writeAt ([h0, h1] ++ (h2 :: h3 :: UInt8.ofNat OptType.rreq.code ::
        UInt8.ofNat (6 + 4 * as.length + 4) :: tail)) 2 (toBe16 (8 + 4 * as.length + 4)) =
        [h0, h1] ++ toBe16 (8 + 4 * as.length + 4) ++ (UInt8.ofNat OptType.rreq.code ::
          UInt8.ofNat (6 + 4 * as.length + 4) :: tail) :=
      writeAt_append _ (Nat.succ_le_succ (Nat.succ_le_succ (Nat.zero_le _)))
    have hsum : 8 + 4 * as.length + 4 = 12 + 4 * as.length := by omega
    have hcount : 6 + 4 * as.length + 4 = 6 + 4 * (as ++ [me]).length := by
      rw [List.length_append, List.length_singleton]
      omega
    rw [rreqArea, hbytes, hend, List.take_length, List.drop_length, List.append_nil, hgrown, hoff, hlen, hp,
      hlenByte, hpLen, hsum, hcount, rreqOptImage, htail]
    rfl

theorem core_sameHdr {dp dp₁ : DsrPkt} (h : dp₁.core = dp.core) : SameHdr dp dp₁ := by
  refine ⟨?_, ?_, ?_, ?_, ?_, ?_, ?_, ?_⟩
  · exact congrArg (fun q => q.src) h
  · exact congrArg (fun q => q.dst) h
  · exact congrArg (fun q => q.nh) h
  · exact congrArg (fun q => q.ipData) h
  · exact congrArg (fun q => q.skb) h
  · exact congrArg (fun q => q.payload) h
  · exact congrArg (fun q => q.payloadLen) h
  · exact congrArg (fun q => q.requestAck) h

theorem RreqPkt.optLength (h : RreqPkt src target as skb hdr id dp) (has : as.length ≤ 62) :
    dp.optLength (dp.ptr dsrOptHdrLen) = 6 + 4 * as.length := by
  obtain ⟨post, hat⟩ := h.opt
  exact hat.rreq_length has

theorem RreqPkt.optEnd (h : RreqPkt src target as skb hdr id dp) (has : as.length ≤ 62) :
    optEnd dp (dp.ptr dsrOptHdrLen) = 12 + 4 * as.length := by
  change 4 + (dp.optLength (dp.ptr dsrOptHdrLen) + 2) = _
  rw [h.optLength has]
  omega

theorem RreqPkt.rreqAt (h : RreqPkt src target as skb hdr id dp) (has : as.length ≤ 61)
    (hc : dp₁.core = dp.core) : RreqAt dp₁ (dp.ptr dsrOptHdrLen) as.length :=
  (h.kept.rreqAt (Nat.le_refl _) (h.optLength (by omega)) has (Nat.le_of_eq (h.optEnd (by omega)))).congr
    (core_dh hc) (congrArg (fun q => q.gen) hc)

theorem rreqForward_bytes (h : RreqPkt src target as skb hdr id dp) (has : as.length ≤ 61)
    (hc : dp₁.core = dp.core) (mem : ℕ → UInt8) (me : InAddr) :
    ∃ hdr', RreqImage target (as ++ [me]) hdr' id ∧
      (rreqForward mem me dp₁ (dp.ptr dsrOptHdrLen)).bytesAt 0
          (rreqForward mem me dp₁ (dp.ptr dsrOptHdrLen)).optsLen =
        hdr' ++ rreqOptImage id target (as ++ [me]) := by
  have hreq := h.rreqAt has hc
  have hopts : dp₁.optsLen = 12 + 4 * as.length := (optsLen_congr_dh (core_dh hc)).trans h.kept.optsLen
  have hend : DsrUu.optEnd dp₁ (dp.ptr dsrOptHdrLen) = 12 + 4 * as.length := by
    rw [DsrUu.optEnd, hreq.length]
    change 4 + (6 + 4 * as.length + 2) = _
    omega
  have hbytes : dp₁.bytesAt 0 dp₁.optsLen = hdr ++ rreqOptImage id target as := by
    rw [hopts, ← h.bytes, DsrPkt.bytesAt, DsrPkt.bytesAt, core_dh hc]
  have hp : dp₁.pLen = 8 + 4 * as.length := by
    have hlen := hreq.pLen
    rw [hopts, dsrOptHdrLen] at hlen
    omega
  rw [(rreqForward_area_iff hreq mem me).mpr fun j hj => absurd hj (by omega)]
  exact rreqArea_image h.image has rfl hbytes hreq.length hp

theorem rreqForward_wire (h : RreqPkt src target as skb hdr id dp) (hw : RreqWire src target as skb)
    (has : as.length ≤ 61) (hc : dp₁.core = dp.core) (mem : ℕ → UInt8) (me : InAddr) :
    RreqWire src target (as ++ [me]) (dsrSkbCreate (rreqForward mem me dp₁ (dp.ptr dsrOptHdrLen))) := by
  obtain ⟨hdr', hi, hbytes⟩ := rreqForward_bytes h has hc mem me
  obtain ⟨dp₂, hsame, hfwd⟩ := rreqForward_same mem me dp₁ (dp.ptr dsrOptHdrLen)
  have hsame := (core_sameHdr hc).trans hsame
  have hiph := iph_dsrBuildIp_skb (hsame.skb_eq.trans h.skb_eq) dp₂.src dp₂.dst (dp₂.iph.totLen + 4)
    ipprotoDsr dp₂.iph.ttl
  have hpay : (rreqForward mem me dp₁ (dp.ptr dsrOptHdrLen)).payloadLen = 0 := by
    rw [hfwd]
    exact hsame.payloadLen.trans h.payloadLen
  have hdata : (dsrSkbCreate (rreqForward mem me dp₁ (dp.ptr dsrOptHdrLen))).data =
      hdr' ++ rreqOptImage id target (as ++ [me]) := by
    rw [dsrSkbCreate, hpay, hbytes, if_neg (fun hc => hc rfl), List.append_nil]
  have hlen : skb.data.length = 12 + 4 * as.length := by
    obtain ⟨hdr₀, id₀, hi₀, hd₀⟩ := hw.data
    rw [hd₀, List.length_append, length_rreqOptImage hi₀, show hdr₀.length = 4 from hi₀.hdr_length]
    omega
  have hlen' : (hdr' ++ rreqOptImage id target (as ++ [me])).length = 16 + 4 * as.length := by
    rw [List.length_append, length_rreqOptImage hi, show hdr'.length = 4 from hi.hdr_length,
      List.length_append, List.length_singleton]
    omega
  have htot : dp₂.iph.totLen = 32 + 4 * as.length := by
    rw [hsame.iph, h.iph, hw.totLen, hlen]
    omega
  rw [← hfwd] at hiph
  refine ⟨congrArg IpHdr.protocol hiph, (congrArg IpHdr.saddr hiph).trans hw.saddr,
    (congrArg IpHdr.daddr hiph).trans hw.daddr, (congrArg IpHdr.ihl hiph).trans hw.ihl, ?_,
    ⟨hdr', id, hi, hdata⟩⟩
  rw [hdata, hlen']
  refine (congrArg IpHdr.totLen hiph).trans ?_
  rw [htot]
  change (32 + 4 * as.length + 4) % 65536 = _
  omega

end Append

section Recv

variable {src target : InAddr} {as : List InAddr} {skb : Skb} {hdr id : List UInt8} {dp : DsrPkt} {s s₁ : DsrNode}

def RreqFits (s : DsrNode) (as : List InAddr) (dp : DsrPkt) : Prop :=
  as.length ≤ 61 ∨ (as.length = 62 ∧ ∀ r s₁, dsrRreqOptRecv dp (dp.ptr dsrOptHdrLen) s = .ok r s₁ →
    .forwardRreq ∉ r.2)

theorem RreqFits.le (h : RreqFits s as dp) : as.length ≤ 62 := by
  rcases h with h | ⟨h, -⟩ <;> omega

theorem RreqFits.forwards {q : DsrPkt} (h : RreqFits s as dp)
    (hone : dsrRreqOptRecv dp (dp.ptr dsrOptHdrLen) s = .ok (q, [.forwardRreq]) s₁) : as.length ≤ 61 :=
  h.resolve_right fun hc => hc.2 _ _ hone (List.mem_singleton_self _)

inductive RreqRecv (me src target : InAddr) (as : List InAddr) (dp : DsrPkt) :
    DsrPkt × List DsrPktAction → Prop
  | quiet {q : DsrPkt} {acts : List DsrPktAction} : (∀ a ∈ acts, a = .drop ∨ a = .error ∨ a = .none) →
      RreqRecv me src target as dp (q, acts)
  | forward {mem : ℕ → UInt8} {dp₁ : DsrPkt} : dp₁.core = dp.core → me ≠ target → me ≠ src → me ∉ as →
      RreqRecv me src target as dp (rreqForward mem me dp₁ (dp.ptr dsrOptHdrLen), [.forwardRreq])

theorem RreqOut.recv {r : DsrPkt × List DsrPktAction} (h : RreqPkt src target as skb hdr id dp)
    (has : as.length ≤ 62) (ho : RreqOut s.ifaddr dp (dp.ptr dsrOptHdrLen) r) :
    RreqRecv s.ifaddr src target as dp r := by
  obtain ⟨post, hat⟩ := h.opt
  cases ho with
  | idle ha _ => exact .quiet fun b hb => by rwa [List.mem_singleton.mp hb]
  | @forward mem dp₁ hc _ htarget hsrc hlist =>
    rw [rreqOptSrt_image hat h.image has mem s.ifaddr] at hlist
    rw [hat.rreq_target h.image] at htarget
    rw [h.src_eq] at hsrc
    refine .forward hc (Ne.symm htarget) (Ne.symm hsrc) fun hm => hlist ?_
    change s.ifaddr ∈ as.take (4 * as.length / 4)
    rw [Nat.mul_div_cancel_left _ (by decide), List.take_length]
    exact hm

theorem dsrOptRecvOne_rreq {r : DsrPkt × List DsrPktAction} (h : RreqPkt src target as skb hdr id dp)
    (hr : dsrOptRecvOne dp (dp.ptr dsrOptHdrLen) s = .ok r s₁) :
    (r = (dp, []) ∧ s₁ = s ∧ dp.promiscRecv = true) ∨
      dsrRreqOptRecv dp (dp.ptr dsrOptHdrLen) s = .ok r s₁ := by
  obtain ⟨post, hat⟩ := h.opt
  unfold dsrOptRecvOne at hr
  rw [hat.rreq_type] at hr
  dsimp only at hr
  by_cases hp : dp.promiscRecv = true
  · rw [if_pos hp] at hr
    cases hr
    exact Or.inl ⟨rfl, rfl, hp⟩
  · rw [if_neg hp] at hr
    exact Or.inr hr

theorem RreqPkt.dsrOptRecv {r : DsrPkt × List DsrPktAction} (h : RreqPkt src target as skb hdr id dp)
    (has : RreqFits s as dp) (hr : dsrOptRecv dp s = .ok r s₁) :
    dsrOptRecvOne dp (dp.ptr dsrOptHdrLen) s = .ok r s₁ := by
  obtain ⟨post, hat⟩ := h.opt
  have hopts := h.kept.optsLen
  have hlen := h.optLength has.le
  have hfew := has.le
  unfold DsrUu.dsrOptRecv at hr
  obtain ⟨me, s₂, hme, hr⟩ := bind_ok hr
  cases hme
  rw [if_neg (fun hc => hc.2 h.payloadLen), hopts,
    show 12 + 4 * as.length = (11 + 4 * as.length) + 1 by omega,
    dsrOptRecvLoop_opt (by rw [dsrOptHdrLen]; omega) (by rw [hat.rreq_type]; decide)] at hr
  obtain ⟨r', s₃, hone, hr⟩ := bind_ok hr
  have hl : 6 + 4 * as.length ≤ r'.1.optLength (dp.ptr dsrOptHdrLen) := by
    rcases dsrOptRecvOne_rreq h hone with ⟨rfl, -, -⟩ | hrreq
    · exact Nat.le_of_eq hlen.symm
    · have hout := dsrRreqOptRecv_out h.numRreq hrreq
      have hfew : .forwardRreq ∈ r'.2 → as.length ≤ 61 := fun hf =>
        has.resolve_right fun hfull => hfull.2 r' _ hrreq hf
      cases hout with
      | idle _ hsame => exact Nat.le_of_eq ((optLength_congr_dh hsame.dh hsame.gen _).trans hlen).symm
      | forward hc =>
        have hat := h.rreqAt (hfew (List.mem_singleton_self _)) hc
        rw [rreqForward_optLength_eq hat, hat.length]
        omega
  have hhdr : dsrOptHdrLen = 4 := rfl
  rw [dsrOptRecvLoop_done _ _ (by omega)] at hr
  cases hr
  exact hone

theorem rebroadcasts_nil {s s' : DsrNode} (h : Adds s notRebroadcast s') : rebroadcasts s s' = [] := by
  refine List.filterMap_eq_nil_iff.mpr fun e he => ?_
  have hne := h.drop e he
  split
  · exact hne.elim
  · rfl

theorem rebroadcasts_skip {s s₁ s' : DsrNode} {es : List Event} (h : Adds s notRebroadcast s₁)
    (hout : s'.out = s₁.out ++ es) : rebroadcasts s s' = rebroadcasts s₁ s' := by
  obtain ⟨b, hb, hE⟩ := h
  have hnil : rebroadcasts s s₁ = [] := rebroadcasts_nil ⟨b, hb, hE⟩
  rw [rebroadcasts, hb, List.drop_left] at hnil
  rw [rebroadcasts, rebroadcasts, hout, List.drop_left, hb, List.append_assoc, List.drop_left,
    List.filterMap_append, hnil, List.nil_append]

theorem dsrRreqOptRecv_quiet {r : DsrPkt × List DsrPktAction}
    (hr : dsrRreqOptRecv dp (dp.ptr dsrOptHdrLen) s = .ok r s₁) : Adds s notRebroadcast s₁ :=
  (wp_ok ((notRebroadcast_closed s).dsrRreqOptRecv s (Nat.le_refl _) trivial s
    ⟨Adds.refl s _, Later.refl s⟩) hr).1.1

theorem xmit_plain {site : XmitSite} {q : DsrPkt} {s' : DsrNode} (hack : q.requestAck = false)
    (h : xmit site q s = .ok () s') : ∃ due evs, s' = { s with out := s.out ++ .xmit site q due :: evs } ∧
      (evs = [] ∨ ∃ hw, evs = [.send site ⟨hw, q.nxtHop, dsrSkbCreate q⟩]) := by
  rw [xmit_eq] at h
  obtain ⟨t, s₁, hget, h⟩ := bind_ok h
  cases hget
  obtain ⟨_, s₁, hemit, h⟩ := bind_ok h
  cases hemit
  rw [if_neg (by rw [hack]; exact Bool.false_ne_true)] at h
  obtain ⟨q', s₁, hpure, h⟩ := bind_ok h
  cases hpure
  cases buildQueue_emits s.locking _ _ _ _ h with
  | kept => exact ⟨ackDue s q, [], rfl, Or.inl rfl⟩
  | sent hw =>
    refine ⟨ackDue s q, _, ?_, Or.inr ⟨hw, rfl⟩⟩
    dsimp only
    rw [List.append_assoc, List.singleton_append]

theorem xmit_forwardRreq {q : DsrPkt} {s' : DsrNode} (hack : q.requestAck = false)
    (h : xmit .forwardRreq q s = .ok () s') : (∃ es, s'.out = s.out ++ es) ∧
      (rebroadcasts s s' = [] ∨ rebroadcasts s s' = [dsrSkbCreate q]) := by
  obtain ⟨due, evs, rfl, hevs⟩ := xmit_plain hack h
  refine ⟨⟨_, rfl⟩, ?_⟩
  rw [rebroadcasts, List.drop_left]
  rcases hevs with rfl | ⟨hw, rfl⟩
  · exact Or.inl rfl
  · exact Or.inr rfl

theorem dispatch_quiet {q : DsrPkt} {acts order : List DsrPktAction}
    (h : ∀ a ∈ acts, a = .drop ∨ a = .error ∨ a = .none) : dispatch q acts order = pure () := by
  induction order with
  | nil => rfl
  | cons a order ih =>
    by_cases ha : a ∈ acts
    · rcases h a ha with rfl | rfl | rfl
      · exact if_pos ha
      · exact if_pos ha
      · exact (if_pos ha).trans ih
    · exact (if_neg ha).trans ih

theorem dispatch_forwardRreq (q : DsrPkt) :
    dispatch q [.forwardRreq] dispatchOrder = xmit .forwardRreq q := by
  simp [dispatchOrder, dispatch]

inductive RreqRan (src target : InAddr) (as : List InAddr) (dp : DsrPkt) (s s' : DsrNode) : Prop
  | ignored : s' = s → RreqRan src target as dp s s'
  | handled {r : DsrPkt × List DsrPktAction} : dsrRreqOptRecv dp (dp.ptr dsrOptHdrLen) s = .ok r s' →
      RreqRan src target as dp s s'
  | forwarded {mem : ℕ → UInt8} {dp₁ : DsrPkt} {s₁ : DsrNode} : dp₁.core = dp.core → s.ifaddr ≠ target →
      s.ifaddr ≠ src → s.ifaddr ∉ as →
      dsrRreqOptRecv dp (dp.ptr dsrOptHdrLen) s =
        .ok (rreqForward mem s.ifaddr dp₁ (dp.ptr dsrOptHdrLen), [.forwardRreq]) s₁ →
      xmit .forwardRreq (rreqForward mem s.ifaddr dp₁ (dp.ptr dsrOptHdrLen)) s₁ = .ok () s' →
      RreqRan src target as dp s s'

theorem RreqPkt.ran {s' : DsrNode} (h : RreqPkt src target as skb hdr id dp) (has : RreqFits s as dp)
    (hrun : dsrRecv dp s = .ok () s') : RreqRan src target as dp s s' := by
  obtain ⟨me, s₀, hme, hrun⟩ := bind_ok hrun
  cases hme
  by_cases hown : (dp.promiscRecv && decide (s.ifaddr = dp.src)) = true
  · rw [if_pos hown] at hrun
    cases hrun
    exact .ignored rfl
  rw [if_neg hown] at hrun
  obtain ⟨r, s₁, hopt, hrun⟩ := bind_ok hrun
  change (if r.1.promiscRecv = true then pure () else dispatch r.1 r.2 dispatchOrder : DsrM Unit) s₁ = _ at hrun
  rcases dsrOptRecvOne_rreq h (h.dsrOptRecv has hopt) with ⟨hr, hs, hprom⟩ | hone
  · rw [if_pos (by rw [hr]; exact hprom)] at hrun
    cases hrun
    exact .ignored hs
  by_cases hprom : r.1.promiscRecv = true
  · rw [if_pos hprom] at hrun
    cases hrun
    exact .handled hone
  rw [if_neg hprom] at hrun
  have hout := (dsrRreqOptRecv_out h.numRreq hone).recv h has.le
  cases hout with
  | quiet hacts =>
    rw [dispatch_quiet hacts] at hrun
    cases hrun
    exact .handled hone
  | forward hc htarget hsrc hlist =>
    rw [dispatch_forwardRreq] at hrun
    exact .forwarded hc htarget hsrc hlist hone hrun

theorem recv_handle {skb : Skb} {promisc : Bool} {s : DsrNode}
    (h : skb.iph.totLen ≤ skb.data.length + 4 * skb.iph.ihl) :
    (Input.recv promisc skb).handle s = dsrRecv (dsrPktRecv s.kmem promisc skb) s := by
  change (do
    let mem ← kmalloc
    let dp := dsrPktRecv mem promisc skb
    if skb.data.length + 4 * skb.iph.ihl < skb.iph.totLen then pure () else dsrRecv dp : DsrM Unit) s = _
  rw [bind_of_ok (show (kmalloc : DsrM _) s = .ok s.kmem s from rfl), if_neg (Nat.not_lt.mpr h)]

theorem RreqWire.ran {promisc : Bool} {s' : DsrNode} (hw : RreqWire src target as skb)
    (has : RreqFits s as (dsrPktRecv s.kmem promisc skb)) (hrun : (Input.recv promisc skb).handle s = .ok () s') :
    ∃ hdr id, RreqPkt src target as skb hdr id (dsrPktRecv s.kmem promisc skb) ∧
      RreqRan src target as (dsrPktRecv s.kmem promisc skb) s s' := by
  obtain ⟨hdr, id, hp⟩ := hw.pkt s.kmem promisc
  rw [recv_handle (by rw [hw.totLen, hw.ihl]; omega)] at hrun
  exact ⟨hdr, id, hp, hp.ran has hrun⟩

theorem rreqForward_requestAck {mem : ℕ → UInt8} {dp₁ : DsrPkt} (h : RreqPkt src target as skb hdr id dp)
    (hc : dp₁.core = dp.core) (me : InAddr) (p : OptPtr) : (rreqForward mem me dp₁ p).requestAck = false := by
  obtain ⟨dp₂, hsame, hfwd⟩ := rreqForward_same mem me dp₁ p
  rw [hfwd]
  exact ((core_sameHdr hc).trans hsame).requestAck.trans h.requestAck

theorem RreqWire.recv {promisc : Bool} {s' : DsrNode} (hw : RreqWire src target as skb)
    (has : RreqFits s as (dsrPktRecv s.kmem promisc skb)) (hrun : (Input.recv promisc skb).handle s = .ok () s') :
    rebroadcasts s s' = [] ∨ (s.ifaddr ≠ target ∧ s.ifaddr ≠ src ∧ s.ifaddr ∉ as ∧
      ∃ skb', rebroadcasts s s' = [skb'] ∧ RreqWire src target (as ++ [s.ifaddr]) skb') := by
  obtain ⟨hdr, id, hp, hran⟩ := hw.ran has hrun
  cases hran with
  | ignored hs => exact Or.inl (rebroadcasts_nil (hs ▸ Adds.refl s _))
  | handled hone => exact Or.inl (rebroadcasts_nil (dsrRreqOptRecv_quiet hone))
  | @forwarded mem dp₁ s₁ hc htarget hsrc hlist hone hxmit =>
    obtain ⟨⟨es, hes⟩, hsent⟩ := xmit_forwardRreq (rreqForward_requestAck hp hc _ _) hxmit
    rw [rebroadcasts_skip (dsrRreqOptRecv_quiet hone) hes]
    rcases hsent with hnone | hsent
    · exact Or.inl hnone
    · exact Or.inr ⟨htarget, hsrc, hlist, _, hsent, rreqForward_wire hp hw (has.forwards hone) hc mem s.ifaddr⟩

end Recv

section Origin

variable {me : InAddr}

def RreqBuilt (me : InAddr) (dp : DsrPkt) : Prop :=
  ∃ mem target ttl seqno, rreqPkt mem me target ttl seqno = some dp

def rreqEvent (me : InAddr) : Event → Prop
  | .send .rreqSend f => ∃ dp, RreqBuilt me dp ∧ f.skb = dsrSkbCreate dp
  | _ => True

theorem rreqSend_recvClosed (s₀ : DsrNode) : RecvClosed (fun s => s.ifaddr = me ∧ Adds s₀ (rreqEvent me) s)
    (fun _ _ => True) (fun _ site dp => site = .rreqSend → RreqBuilt me dp) (fun _ => True) fun _ => True where
  held _ _ h := h
  lc _ _ _ _ _ h := h
  neighTbl _ _ h := h
  gratRrepTbl _ _ h := h
  gratTimer _ _ h := h
  ackTimer _ _ h := h
  carry _ _ _ _ _ := trivial
  retime _ _ _ _ _ _ := trivial
  entries _ _ _ _ := trivial
  maintBuf _ _ h _ := h
  ackReqSend _ _ _ _ _ _ _ := nofun
  rerrSend _ _ _ _ _ _ _ _ _ _ _ _ _ _ := nofun
  salvage _ _ _ _ _ _ _ _ _ _ _ _ := nofun
  emitXmit _ _ _ h _ := ⟨h.1, h.2.emit trivial⟩
  emitMaint _ _ h := ⟨h.1, h.2.emit trivial⟩
  emitAckReq _ _ _ h := ⟨h.1, h.2.emit trivial⟩
  newEntry _ _ _ _ _ _ _ _ _ _ _ _ _ _ := trivial
  emitSend _ _ site dp dp' _ hp _ h hsent := ⟨h.1, h.2.emit (by
    cases site with
    | rreqSend =>
      obtain ⟨b, _, hcase⟩ := hsent.block
      obtain ⟨mem, target, ttl, seqno, hdp⟩ := hp rfl
      rcases hcase with ⟨rfl, _⟩ | ⟨hack, _⟩
      · exact ⟨dp', ⟨mem, target, ttl, seqno, hdp⟩, rfl⟩
      · rw [rreqPkt_requestAck hdp] at hack
        cases hack
    | _ => trivial)⟩
  rreqTbl _ _ h := h
  rreqBrk _ _ h := h
  rreqSeqno _ _ h := h
  sendBufTimer _ _ h := h
  waiting _ _ _ _ := trivial
  sendBuf _ _ h _ := h
  emitDeliver _ _ h := ⟨h.1, h.2.emit trivial⟩
  emitIcmp _ _ h := ⟨h.1, h.2.emit trivial⟩
  emitDiscovery _ _ _ h := ⟨h.1, h.2.emit trivial⟩
  emitSendBuf _ _ h := ⟨h.1, h.2.emit trivial⟩
  rreqSend s target ttl seqno dp h hdp := fun _ => ⟨s.kmem, target, ttl, seqno, h.1 ▸ hdp⟩
  srtAdd _ _ _ _ _ _ _ hsite _ _ _ _ _ := by rcases hsite with rfl | rfl <;> exact nofun
  rrepSend _ _ _ _ _ _ := nofun
  ackSend _ _ _ _ _ _ := nofun
  forward _ _ _ _ := nofun
  forwardRreq _ _ _ _ := nofun
  notes _ _ _ _ _ := trivial
  setDaddr _ _ _ := trivial
  setSleft _ _ _ _ _ := trivial
  rreqAppend _ _ _ _ _ _ _ := trivial

theorem rreqSent {s s' : DsrNode} {i : Input} {f : Frame} (h : i.handle s = .ok () s')
    (hf : .send .rreqSend f ∈ newEvents s s') : ∃ dp, RreqBuilt s.ifaddr dp ∧ f.skb = dsrSkbCreate dp := by
  have hadm : Admits (fun _ => True) (fun _ => True) s i := by
    cases i with
    | recv promisc skb => exact fun _ _ => trivial
    | _ => trivial
  exact (wp_ok ((rreqSend_recvClosed s).handle ⟨rfl, Adds.refl s _⟩ i hadm) h).1.2.drop _ hf

structure RreqHead (me : InAddr) (x : DsrPkt) : Prop where
  iph : x.iph = { ihl := 5, totLen := 32, ttl := x.iph.ttl, protocol := ipprotoDsr, saddr := me
                  daddr := dsrBroadcast }
  payloadLen : x.payloadLen = 0
  dh : ∃ raw, x.dh = some { raw := raw, tail := 12 } ∧ 12 ≤ raw.length

theorem RreqHead.wire {x : DsrPkt} (h : RreqHead me x) (target : InAddr) (protocol seqno : ℕ) :
    RreqWire me target [] (dsrSkbCreate ((x.write 0 (optHdrBytes 12 protocol)).write dsrOptHdrLen
      (rreqOptBytes target seqno))) := by
  obtain ⟨raw, hdh, hraw⟩ := h.dh
  obtain ⟨hdr, hhdr⟩ : ∃ hdr, hdr = optHdrBytes 12 protocol := ⟨_, rfl⟩
  have hi : RreqImage target [] hdr (toBe16 (seqno % 65536)) := by
    rw [hhdr]
    exact ⟨rfl, rfl, be16_toBe16 8 (by decide)⟩
  have hlen : hdr.length = 4 := hi.hdr_length
  have himg : rreqOptBytes target seqno = rreqOptImage (toBe16 (seqno % 65536)) target [] := by
    rw [rreqOptImage, encodeAddrs, List.flatMap_nil, List.append_nil]
    rfl
  have hopt : (rreqOptBytes target seqno).length = 8 := by rw [himg, length_rreqOptImage hi]; rfl
  have htwo := @writeAt_two raw hdr (rreqOptBytes target seqno) (by omega)
  rw [hlen] at htwo
  rw [← hhdr]
  have hsame := (write_same x 0 hdr).trans (write_same _ dsrOptHdrLen (rreqOptBytes target seqno))
  have hdh' : ((x.write 0 hdr).write dsrOptHdrLen (rreqOptBytes target seqno)).dh =
      some { raw := hdr ++ (rreqOptBytes target seqno ++ raw.drop (4 + (rreqOptBytes target seqno).length))
             tail := 12 } := by
    rw [write_dh hdh, write_dh rfl, dsrOptHdrLen, htwo]
  obtain ⟨dp, hdp⟩ : ∃ dp, dp = (x.write 0 hdr).write dsrOptHdrLen (rreqOptBytes target seqno) := ⟨_, rfl⟩
  rw [← hdp] at hdh' hsame ⊢
  have hdata : (dsrSkbCreate dp).data = hdr ++ rreqOptImage (toBe16 (seqno % 65536)) target [] := by
    have hsize : 12 = (hdr ++ rreqOptBytes target seqno).length := by rw [List.length_append, hlen, hopt]
    rw [dsrSkbCreate, hsame.payloadLen, h.payloadLen, if_neg (fun hc => hc rfl), List.append_nil,
      bytesAt_dh hdh', optsLen_dh hdh', ← List.append_assoc, ← himg]
    dsimp only
    rw [hsize]
    exact readAt_append_left _ _
  have hiph : (dsrSkbCreate dp).iph = x.iph := hsame.iph
  refine ⟨?_, ?_, ?_, ?_, ?_, ⟨hdr, _, hi, hdata⟩⟩
  · rw [hiph, h.iph]
  · rw [hiph, h.iph]
  · rw [hiph, h.iph]
  · rw [hiph, h.iph]
  · rw [hiph, h.iph, hdata, List.length_append, hlen, length_rreqOptImage hi]
    rfl

theorem rreqPkt_wire {mem : ℕ → UInt8} {target : InAddr} {ttl seqno : ℕ} {dp : DsrPkt}
    (h : rreqPkt mem me target ttl seqno = some dp) : RreqWire me target [] (dsrSkbCreate dp) := by
  unfold rreqPkt at h
  obtain ⟨dp₁, h₁, h⟩ := Option.bind_eq_some_iff.mp h
  obtain ⟨dp₂, h₂, rfl⟩ := Option.map_eq_some_iff.mp h
  unfold dsrOptHdrAdd at h₁
  unfold dsrRreqOptAdd at h₂
  split at h₁
  · cases h₁
  split at h₂
  · cases h₂
  rw [Option.some.injEq] at h₁ h₂
  have hhead : RreqHead me (dsrBuildIp (dsrPktAllocOpts mem { dst := dsrBroadcast, nxtHop := dsrBroadcast, src := me }
      (dsrOptHdrLen + dsrRreqHdrLen)) me dsrBroadcast (ipHdrLen + (dsrOptHdrLen + dsrRreqHdrLen)) ipprotoDsr ttl) := by
    refine ⟨rfl, rfl, ⟨_, rfl, ?_⟩⟩
    rw [length_fill]
    exact Nat.le_add_right _ _
  have hw := hhead.wire target dsrNoNextHdrType seqno
  have hs : dsrSkbCreate { dp₂ with rreqOpt := some (dp₂.ptr dsrOptHdrLen), xmitJitter := true } =
    dsrSkbCreate dp₂ := rfl
  rw [hs, ← h₂, ← h₁]
  exact hw

end Origin

structure RreqCopy where
  src : InAddr
  via : List InAddr
  skb : Skb

inductive Request : List RreqCopy → Prop
  | start : Request []
  | origin {air : List RreqCopy} {s s' : DsrNode} {i : Input} {f : Frame} : Request air →
      i.handle s = .ok () s' → .send .rreqSend f ∈ newEvents s s' →
      Request (air ++ [⟨s.ifaddr, [], f.skb⟩])
  | recv {air : List RreqCopy} {c : RreqCopy} {s s' : DsrNode} {promisc : Bool} (hw : HwAddr) (ttl : ℕ) :
      Request air → c ∈ air → (Input.recv promisc (arrive c.skb hw ttl)).handle s = .ok () s' →
      Request (air ++ (rebroadcasts s s').map fun skb => ⟨c.src, c.via ++ [s.ifaddr], skb⟩)

structure RreqSound (c : RreqCopy) (target : InAddr) : Prop where
  wire : RreqWire c.src target c.via c.skb
  distinct : (c.src :: c.via).Nodup
  target : target ∉ c.via

theorem RreqWire.arrive {src target : InAddr} {as : List InAddr} {skb : Skb}
    (h : RreqWire src target as skb) (hw : HwAddr) (ttl : ℕ) : RreqWire src target as (arrive skb hw ttl) :=
  ⟨h.protocol, h.saddr, h.daddr, h.ihl, h.totLen, h.data⟩

theorem RreqSound.recv {c : RreqCopy} {target : InAddr} {promisc : Bool} {hw : HwAddr} {ttl : ℕ}
    {s s' : DsrNode} {skb : Skb} (h : RreqSound c target)
    (hfew : RreqFits s c.via (dsrPktRecv s.kmem promisc (arrive c.skb hw ttl)))
    (hrun : (Input.recv promisc (arrive c.skb hw ttl)).handle s = .ok () s')
    (hskb : skb ∈ rebroadcasts s s') : RreqSound ⟨c.src, c.via ++ [s.ifaddr], skb⟩ target := by
  rcases (h.wire.arrive hw ttl).recv hfew hrun with hnil | ⟨htarget, hsrc, hvia, skb', hone, hwire⟩
  · rw [hnil] at hskb
    exact absurd hskb List.not_mem_nil
  · rw [hone, List.mem_singleton] at hskb
    subst hskb
    refine ⟨hwire, ?_, ?_⟩
    · change ((c.src :: c.via) ++ [s.ifaddr]).Nodup
      refine h.distinct.append (List.nodup_singleton _) fun a ha hs => ?_
      rw [List.mem_singleton] at hs
      subst hs
      rcases List.mem_cons.mp ha with ha | ha
      · exact hsrc ha
      · exact hvia ha
    · intro hm
      rcases List.mem_append.mp hm with hm | hm
      · exact h.target hm
      · exact htarget (List.mem_singleton.mp hm).symm

theorem RreqSound.origin {s s' : DsrNode} {i : Input} {f : Frame} (hrun : i.handle s = .ok () s')
    (hf : .send .rreqSend f ∈ newEvents s s') : ∃ target, RreqSound ⟨s.ifaddr, [], f.skb⟩ target := by
  obtain ⟨dp, ⟨mem, target, ttl, seqno, hdp⟩, hskb⟩ := rreqSent hrun hf
  exact ⟨target, hskb ▸ rreqPkt_wire hdp, List.nodup_singleton _, List.not_mem_nil⟩

theorem request_sound {air : List RreqCopy} {c : RreqCopy} (h : Request air) (hc : c ∈ air)
    (hfew : c.via.length ≤ 62) : ∃ target, RreqSound c target := by
  induction h generalizing c with
  | start => exact absurd hc List.not_mem_nil
  | origin _ hrun hf ih =>
    rcases List.mem_append.mp hc with hc | hc
    · exact ih hc hfew
    · rw [List.mem_singleton] at hc
      subst hc
      exact RreqSound.origin hrun hf
  | recv hw ttl _ hair hrun ih =>
    rcases List.mem_append.mp hc with hc | hc
    · exact ih hc hfew
    · obtain ⟨skb, hskb, rfl⟩ := List.mem_map.mp hc
      simp only [List.length_append, List.length_singleton] at hfew
      obtain ⟨target, hs⟩ := ih hair (by omega)
      exact ⟨target, hs.recv (Or.inl (by omega)) hrun hskb⟩

def sends (site : XmitSite) (s s' : DsrNode) : List Frame :=
  (newEvents s s').filterMap fun
    | .send site' f => if site' = site then some f else none
    | _ => none

theorem mem_sends {site : XmitSite} {s s' : DsrNode} {f : Frame} (h : f ∈ sends site s s') :
    .send site f ∈ newEvents s s' := by
  obtain ⟨e, he, hm⟩ := List.mem_filterMap.mp h
  split at hm
  · split at hm
    · next hsite =>
      cases hm
      exact hsite ▸ he
    · cases hm
  · cases hm

def okState (r : EStateM.Result Stop DsrNode Unit) : Option DsrNode :=
  match r with
  | .ok _ s => some s
  | .error _ _ => none

theorem okState_eq_some {r : EStateM.Result Stop DsrNode Unit} {s : DsrNode} (h : okState r = some s) :
    r = .ok () s := by
  cases r with
  | ok _ s' =>
    cases h
    rfl
  | error _ _ => cases h

def askNode : DsrNode := dsrNodeInit (ringHost 1) confvalsDef true 8 ⟨100, 0⟩ (fun _ => 0) 0

def askSkb : Skb :=
  { hSource := 0
    iph := { ihl := 5, totLen := 20, ttl := 64, protocol := 17, saddr := ringHost 1, daddr := ringHost 9 }
    data := [] }

def asked : Option DsrNode := okState ((Input.startXmit askSkb).handle askNode)

def askedFrame : Option Frame := asked.bind fun s' => (sends .rreqSend askNode s').head?

def relayed : Option DsrNode :=
  askedFrame.bind fun f => okState ((Input.recv false (arrive f.skb 1 64)).handle ringNode)

theorem request_sound_relay : ∃ air c, Request air ∧ c ∈ air ∧ c.src = ringHost 1 ∧ c.via = [ringHost 2] ∧
    ∃ target, RreqSound c target := by
  obtain ⟨f, hf⟩ : ∃ f, askedFrame = some f := Option.isSome_iff_exists.mp (by decide +kernel)
  obtain ⟨s₁, hs₁⟩ : ∃ s₁, relayed = some s₁ := Option.isSome_iff_exists.mp (by decide +kernel)
  have hlen : (relayed.map fun s' => (rebroadcasts ringNode s').length) = some 1 := by decide +kernel
  obtain ⟨s₀, hs₀, hhead⟩ := Option.bind_eq_some_iff.mp hf
  obtain ⟨f', hf', hrun⟩ := Option.bind_eq_some_iff.mp hs₁
  cases hf.symm.trans hf'
  rw [hs₁] at hlen
  obtain ⟨skb, hskb⟩ := List.length_eq_one_iff.mp (Option.some_inj.mp hlen)
  have h₁ := Request.start.origin (okState_eq_some hs₀) (mem_sends (List.mem_of_mem_head? hhead))
  have h₂ := h₁.recv 1 64 (List.mem_append_right _ (List.mem_singleton_self _)) (okState_eq_some hrun)
  have hc : (⟨ringHost 1, [ringHost 2], skb⟩ : RreqCopy) ∈
      ([] ++ [⟨askNode.ifaddr, [], f.skb⟩] ++ (rebroadcasts ringNode s₁).map fun skb =>
        (⟨askNode.ifaddr, [] ++ [ringNode.ifaddr], skb⟩ : RreqCopy)) := by
    rw [hskb]
    exact List.mem_append_right _ (List.mem_singleton_self _)
  exact ⟨_, _, h₂, hc, rfl, rfl, request_sound h₂ hc (show 1 ≤ 62 by decide)⟩

end DsrUu
