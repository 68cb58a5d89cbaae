import DsrUu.Pkt.Length
import DsrUu.Sim.Agent

namespace DsrUu

open Bytes

structure NsOpts (n : ℕ) (dp : DsrPkt) : Prop where
  tail : dp.optsLen = n
  ge : dsrOptHdrLen ≤ n
  buf : ∃ b, dp.dh = some b ∧ b.tail ≤ b.raw.length
  pLen : nsPLen dp = (n - dsrOptHdrLen) % 65536
  srt : ∀ q, dp.srtOpt = some q → dsrOptHdrLen ≤ q.off
  ackReq : ∀ q, dp.ackReqOpt = some q → dsrOptHdrLen ≤ q.off

section Write

variable {dp : DsrPkt} {n : ℕ}

theorem nsPLen_write {off : ℕ} (h : dsrOptHdrLen ≤ off) (xs : List UInt8) :
    nsPLen (dp.write off xs) = nsPLen dp := by
  unfold dsrOptHdrLen at h
  rw [nsPLen, nsPLen, byteAt_write_before _ (by omega), byteAt_write_before _ (by omega)]

theorem NsOpts.write (h : NsOpts n dp) {off : ℕ} (ho : dsrOptHdrLen ≤ off) (xs : List UInt8) :
    NsOpts n (dp.write off xs) := by
  obtain ⟨b, hb, hlen⟩ := h.buf
  have hw := write_dh hb off xs
  refine ⟨(optsLen_write dp off xs).trans h.tail, h.ge, ⟨_, by rw [hw], ?_⟩, (nsPLen_write ho xs).trans h.pLen, ?_, ?_⟩
  · rw [length_writeAt]
    exact hlen
  · rw [hw]
    exact h.srt
  · rw [hw]
    exact h.ackReq

theorem NsOpts.writeField (h : NsOpts n dp) {q : OptPtr} (hq : dsrOptHdrLen ≤ q.off) (i : ℕ) (xs : List UInt8) :
    NsOpts n (dp.writeField q i xs) := by
  unfold DsrPkt.writeField
  split
  · exact h.write (by omega) xs
  · exact h

theorem le16_ofNat {n : ℕ} (h : n < 65536) : le16 (UInt8.ofNat n) (UInt8.ofNat (n / 256)) = n := by
  rw [le16, UInt8.toNat_ofNat', UInt8.toNat_ofNat']
  omega

theorem nsPLen_hdr {b : OptBuf} (hb : dp.dh = some b) (hlen : dsrOptHdrLen ≤ b.raw.length) (len prot : ℕ) :
    nsPLen (dp.write 0 (nsOptHdrBytes len prot)) = (len - dsrOptHdrLen) % 65536 := by
  have hget : ∀ i, i < 4 → (dp.write 0 (nsOptHdrBytes len prot)).byteAt i = (nsOptHdrBytes len prot).getD i 0 := by
    intro i hi
    rw [write_dh hb]
    have hw : (writeAt b.raw 0 (nsOptHdrBytes len prot)).getD (0 + i) 0 = (nsOptHdrBytes len prot).getD i 0 :=
      getD_writeAt_inside hi hlen 0
    rwa [Nat.zero_add] at hw
  rw [nsPLen, hget 2 (by omega), hget 3 (by omega)]
  exact le16_ofNat (Nat.mod_lt _ (by decide))

theorem NsOpts.of_hdr {b : OptBuf} (hb : dp.dh = some b) (hlen : b.tail ≤ b.raw.length)
    (hge : dsrOptHdrLen ≤ b.tail) {len : ℕ} (hm : (len - dsrOptHdrLen) % 65536 = (b.tail - dsrOptHdrLen) % 65536)
    (hsrt : ∀ q, dp.srtOpt = some q → dsrOptHdrLen ≤ q.off)
    (hack : ∀ q, dp.ackReqOpt = some q → dsrOptHdrLen ≤ q.off) (prot : ℕ) :
    NsOpts b.tail (dp.write 0 (nsOptHdrBytes len prot)) := by
  have hp := nsPLen_hdr hb (Nat.le_trans hge hlen) len prot
  have hw := write_dh hb 0 (nsOptHdrBytes len prot)
  refine ⟨(optsLen_write dp 0 _).trans (optsLen_dh hb), hge, ⟨_, by rw [hw], ?_⟩, hp.trans hm, ?_, ?_⟩
  · rw [length_writeAt]
    exact hlen
  · rw [hw]
    exact hsrt
  · rw [hw]
    exact hack

theorem NsOpts.expand {dp' : DsrPkt} {mem : ℕ → UInt8} {k off : ℕ} (h : NsOpts n dp)
    (he : dsrPktAllocOptsExpand mem dp k = some (dp', off)) : off = n ∧ dp'.payloadLen = dp.payloadLen ∧
      nsPLen dp' = nsPLen dp ∧ (∃ b, dp'.dh = some b ∧ b.tail = n + k ∧ b.tail ≤ b.raw.length) ∧
      dp'.srtOpt = dp.srtOpt ∧ dp'.ackReqOpt = dp.ackReqOpt := by
  obtain ⟨b, hb, hlen⟩ := h.buf
  have hn := h.tail
  have hge := h.ge
  rw [optsLen_dh hb] at hn
  unfold dsrPktAllocOptsExpand at he
  rw [hb] at he
  dsimp only at he
  split at he
  · next hroom =>
    cases he
    have htr : dp.tailroom = b.raw.length - b.tail := by rw [DsrPkt.tailroom, hb]
    refine ⟨hn, rfl, ?_, ⟨_, rfl, by rw [← hn], ?_⟩, rfl, rfl⟩
    · rw [nsPLen, nsPLen, byteAt_dh hb, byteAt_dh hb]
      rfl
    · show b.tail + k ≤ b.raw.length
      omega
  · cases he
    obtain ⟨raw, hraw⟩ : ∃ raw, raw = fill mem (b.tail + k + defaultTailroom) := ⟨_, rfl⟩
    have hrl : raw.length = b.tail + k + defaultTailroom := by rw [hraw, length_fill]
    have hbyte : ∀ i, i < b.tail → (writeAt raw 0 (b.raw.take b.tail)).getD i 0 = b.raw.getD i 0 := by
      intro i hi
      have hw : (writeAt raw 0 (b.raw.take b.tail)).getD (0 + i) 0 = (b.raw.take b.tail).getD i 0 :=
        getD_writeAt_inside (by rw [List.length_take]; omega) (by rw [List.length_take]; omega) 0
      rw [Nat.zero_add] at hw
      rw [hw, List.getD_eq_getElem?_getD, List.getElem?_take_of_lt hi, ← List.getD_eq_getElem?_getD]
    unfold dsrOptHdrLen at hge
    have hdh : ((dsrPktAllocOpts mem dp (b.tail + k)).write 0 (b.raw.take b.tail)).dh =
        some { raw := writeAt raw 0 (b.raw.take b.tail), tail := b.tail + k } := by rw [hraw]; rfl
    refine ⟨hn, rfl, ?_, ⟨_, hdh, by rw [← hn], ?_⟩, rfl, rfl⟩
    · rw [nsPLen, nsPLen, byteAt_dh hdh, byteAt_dh hdh, byteAt_dh hb, byteAt_dh hb]
      dsimp only
      rw [hbyte 2 (by omega), hbyte 3 (by omega)]
    · show b.tail + k ≤ (writeAt raw 0 (b.raw.take b.tail)).length
      rw [length_writeAt, hrl]
      omega

theorem NsOpts.with_srtOpt (h : NsOpts n dp) {q : OptPtr} (hq : dsrOptHdrLen ≤ q.off) :
    NsOpts n { dp with srtOpt := some q } := by
  refine ⟨h.tail, h.ge, h.buf, h.pLen, ?_, h.ackReq⟩
  intro r hr
  cases hr
  exact hq

end Write

section Steps

variable {env : NsEnv} {d : NsPkt} {n : ℕ}

theorem nsPktAlloc_data (mem : ℕ → UInt8) {p : NsPacket} (h : p.cmh.ptype ≠ env.ptDsr) :
    (nsPktAlloc env mem p).dp.payloadLen = p.cmh.size - ipHdrLen ∧ (nsPktAlloc env mem p).dp.srtOpt = none ∧
      (nsPktAlloc env mem p).dp.ackReqOpt = none := by
  have hd : decide (p.cmh.ptype = env.ptDsr) = false := decide_eq_false h
  unfold nsPktAlloc
  simp only [hd]
  refine ⟨?_, rfl, rfl⟩
  simp

theorem nsPktAlloc_dsr (mem : ℕ → UInt8) {p : NsPacket} (h : p.cmh.ptype = env.ptDsr) :
    NsOpts (nsOptsLenOf p.dsruu) (nsPktAlloc env mem p).dp ∧
      (nsPktAlloc env mem p).dp.payloadLen = p.cmh.size - nsOptsLenOf p.dsruu - ipHdrLen := by
  have hd : decide (p.cmh.ptype = env.ptDsr) = true := decide_eq_true h
  unfold nsPktAlloc
  simp only [hd, if_true]
  obtain ⟨len, hlen⟩ : ∃ len, len = nsOptsLenOf p.dsruu := ⟨_, rfl⟩
  have h4 : dsrOptHdrLen ≤ len := by
    rw [hlen, nsOptsLenOf]
    exact Nat.le_add_left _ _
  rw [← hlen]
  generalize hdp : (dsrPktAllocOpts mem { src := env.nodeaddr p.iph.saddr, dst := env.nodeaddr p.iph.daddr }
    len).write 0 (readAt p.dsruu 0 len) = dp
  obtain ⟨hok, hs⟩ := dsrOptParse_spec dp
  have hdh : dp.dh = some { raw := readAt p.dsruu 0 len ++ (fill mem (len + defaultTailroom)).drop len
                            tail := len } := by
    rw [← hdp, dsrPktAllocOpts, write_dh rfl]
    dsimp only
    rw [writeAt_zero (by simp), length_readAt]
  have hdh' := (strip_dh hs).trans hdh
  have hbyte : ∀ i, i < 4 → (dsrOptParse dp).byteAt i = p.dsruu.getD i 0 := by
    intro i hi
    unfold dsrOptHdrLen at h4
    rw [byteAt_dh hdh']
    dsimp only
    rw [getD_append_left (by rw [length_readAt]; omega), getD_readAt (by omega), Nat.zero_add]
  refine ⟨⟨optsLen_dh hdh', h4, ⟨_, hdh', ?_⟩, ?_, fun q hq => (hok.srt q hq).off_le,
    fun q hq => (hok.ackReq q hq).off_le⟩, ?_⟩
  · simp only [List.length_append, length_readAt]
    omega
  · change le16 ((dsrOptParse dp).byteAt 2) ((dsrOptParse dp).byteAt 3) = _
    rw [hbyte 2 (by omega), hbyte 3 (by omega), hlen, nsOptsLenOf, Nat.add_sub_cancel]
    have hlo := (p.dsruu.getD 2 0).toNat_lt
    have hhi := (p.dsruu.getD 3 0).toNat_lt
    unfold le16
    omega
  · trivial

theorem nsSrtAdd_spec {mem : ℕ → UInt8} {srt : DsrSrt} {d' : NsPkt} (hs : d.dp.srt = some srt)
    (hsrt : d.dp.srtOpt = none) (hack : d.dp.ackReqOpt = none) (h : nsSrtAdd env mem d = some d') :
    NsOpts (8 + srt.laddrs) d'.dp ∧ d'.dp.payloadLen = d.dp.payloadLen := by
  unfold nsSrtAdd at h
  rw [hs] at h
  dsimp only at h
  obtain ⟨len, hlen⟩ : ∃ len, len = dsrOptHdrLen + dsrSrtOptLen srt := ⟨_, rfl⟩
  have hsum : len = 8 + srt.laddrs := by
    rw [hlen]
    unfold dsrOptHdrLen dsrSrtOptLen dsrSrtHdrLen
    omega
  rw [← hlen] at h
  obtain ⟨dp₁, h₁, h⟩ := Option.bind_eq_some_iff.mp h
  obtain ⟨dp₂, h₂, rfl⟩ := Option.map_eq_some_iff.mp h
  unfold nsOptHdrAdd at h₁
  unfold dsrSrtOptAdd at h₂
  split at h₁ <;> cases h₁
  split at h₂ <;> cases h₂
  have hge : dsrOptHdrLen ≤ len := Nat.le_of_not_lt ‹¬ len < dsrOptHdrLen›
  have hlen' : len ≤ (fill mem (len + defaultTailroom)).length := by
    rw [length_fill]
    omega
  obtain ⟨dp₀, hdp₀⟩ : ∃ dp₀, dp₀ = dsrPktAllocOpts mem { d.dp with nxtHop := dsrSrtNextHop srt srt.n } len :=
    ⟨_, rfl⟩
  have hdh : dp₀.dh = some { raw := fill mem (len + defaultTailroom), tail := len } := by rw [hdp₀]; rfl
  have hs₀ : ∀ q, dp₀.srtOpt = some q → dsrOptHdrLen ≤ q.off := by
    intro q hq
    rw [hdp₀] at hq
    cases hsrt.symm.trans hq
  have ha₀ : ∀ q, dp₀.ackReqOpt = some q → dsrOptHdrLen ≤ q.off := by
    intro q hq
    rw [hdp₀] at hq
    cases hack.symm.trans hq
  have hopts := (NsOpts.of_hdr hdh hlen' hge (Eq.refl ((len - dsrOptHdrLen) % 65536)) hs₀ ha₀
    ((d.p.map fun p => p.cmh.ptype).getD env.ptNtype)).write (Nat.le_refl dsrOptHdrLen)
      (srtOptBytes d.dp.salvage srt)
  rw [← hsum]
  refine ⟨?_, ?_⟩
  · have hw := hopts.with_srtOpt (q := dp₀.ptr dsrOptHdrLen) (Nat.le_refl _)
    rw [hdp₀] at hw
    exact hw
  · exact ((write_same _ _ _).trans (write_same _ _ _)).payloadLen

inductive NsOptRecv (mem : ℕ → UInt8) (dp : DsrPkt) : DsrPkt → Prop
  | plain : NsOptRecv mem dp dp
  | note {q} : dp.srtOpt = some q → NsOptRecv mem dp (nsSrtNote mem dp q)
  | forward {q} : dp.srtOpt = some q → NsOptRecv mem dp (nsSrtForward mem dp q)

theorem NsOptRecv.opts {mem : ℕ → UInt8} {dp dp' : DsrPkt} (h : NsOptRecv mem dp dp') (ho : NsOpts n dp) :
    NsOpts n dp' ∧ dp'.payloadLen = dp.payloadLen := by
  have hnote : ∀ q, dp.srtOpt = some q → NsOpts n (nsSrtNote mem dp q) := by
    intro q hq
    have hn := ho.with_srtOpt (ho.srt q hq)
    exact ⟨hn.tail, hn.ge, hn.buf, hn.pLen, hn.srt, hn.ackReq⟩
  cases h with
  | plain => exact ⟨ho, rfl⟩
  | note hq => exact ⟨hnote _ hq, rfl⟩
  | forward hq =>
    exact ⟨(hnote _ hq).writeField (ho.srt _ hq) 2 _, (srtOptSetSleft_same (nsSrtNote mem dp _) _ _).payloadLen⟩

theorem nsAckReqOptAdd_spec (mem : ℕ → UInt8) (id : ℕ) (h : NsOpts n d.dp) :
    ∃ k, k ≤ 4 ∧ NsOpts (n + k) (nsAckReqOptAdd env mem d id).dp ∧
      (nsAckReqOptAdd env mem d id).dp.payloadLen = d.dp.payloadLen := by
  unfold nsAckReqOptAdd
  split
  · next q hq =>
    exact ⟨0, Nat.zero_le _, h.writeField (h.ackReq q hq) 0 _, (writeField_same _ _ _ _).payloadLen⟩
  · next hq =>
    have hz : d.dp.optsLen ≠ 0 := by
      have hn := h.tail
      have hge := h.ge
      unfold dsrOptHdrLen at hge
      omega
    dsimp only
    rw [if_neg hz]
    cases he : dsrPktAllocOptsExpand mem d.dp dsrAckReqHdrLen with
    | none => exact ⟨0, Nat.zero_le _, h, rfl⟩
    | some r =>
      obtain ⟨dp, off⟩ := r
      obtain ⟨hoff, hpay, hpl, ⟨b, hb, htail, hlen⟩, hs, ha⟩ := h.expand he
      have hge := h.ge
      have hm : (dsrOptHdrLen + nsPLen dp + dsrAckReqHdrLen - dsrOptHdrLen) % 65536 =
          (b.tail - dsrOptHdrLen) % 65536 := by
        rw [hpl, h.pLen, htail]
        omega
      have hopts := (NsOpts.of_hdr hb hlen (by omega) hm (fun q hq' => h.srt q (hs ▸ hq'))
        (fun q hq' => h.ackReq q (ha ▸ hq')) dp.nextHdr).write (hoff ▸ hge) (nsAckReqOptBytes id)
      rw [htail] at hopts
      exact ⟨4, Nat.le_refl _, hopts, ((write_same _ _ _).trans (write_same _ _ _)).payloadLen.trans hpay⟩

theorem nsMaintBufAdd_spec (mem : ℕ → UInt8) (req : Option ℕ) (h : NsOpts n d.dp) :
    ∃ k, k ≤ 4 ∧ NsOpts (n + k) (nsMaintBufAdd env mem req d).dp ∧
      (nsMaintBufAdd env mem req d).dp.payloadLen = d.dp.payloadLen := by
  unfold nsMaintBufAdd
  split
  · cases req with
    | none => exact ⟨0, Nat.zero_le _, h, rfl⟩
    | some id => exact nsAckReqOptAdd_spec mem id h
  · exact ⟨0, Nat.zero_le _, h, rfl⟩

theorem nsPacketCreate_spec {neigh : InAddr → Option ℕ} {me : InAddr} {p : NsPacket} (h : NsOpts n d.dp)
    (hp : nsPacketCreate env neigh me d = some p) : p.cmh.size = ipHdrLen + n + d.dp.payloadLen ∧
      p.cmh.ptype = env.ptDsr ∧ nsOptsLenOf p.dsruu = (n - dsrOptHdrLen) % 65536 + dsrOptHdrLen := by
  unfold nsPacketCreate at hp
  obtain ⟨mac, -, rfl⟩ := Option.map_eq_some_iff.mp hp
  obtain ⟨b, hb, hlen⟩ := h.buf
  have hge := h.ge
  unfold dsrOptHdrLen at hge
  have hbyte : ∀ i, i < 4 → (d.dp.bytesAt 0 d.dp.optsLen ++ (d.p.getD default).dsruu.drop d.dp.optsLen).getD i 0 =
      d.dp.byteAt i := by
    intro i hi
    rw [bytesAt_dh hb, byteAt_dh hb, h.tail, getD_append_left (by rw [length_readAt]; omega), getD_readAt (by omega),
      Nat.zero_add]
  refine ⟨by rw [← h.tail], rfl, ?_⟩
  rw [nsOptsLenOf, hbyte 2 (by omega), hbyte 3 (by omega), ← h.pLen]
  rfl

theorem nsXmit_spec {mem : ℕ → UInt8} {neigh : InAddr → Option ℕ} {me : InAddr} {req : Option ℕ} {p : NsPacket}
    (h : NsOpts n d.dp) (hp : nsXmit env mem neigh me req d = some p) : ∃ k, k ≤ 4 ∧
      p.cmh.size = ipHdrLen + (n + k : ℕ) + d.dp.payloadLen ∧ p.cmh.ptype = env.ptDsr ∧
      nsOptsLenOf p.dsruu = (n + k - dsrOptHdrLen) % 65536 + dsrOptHdrLen := by
  obtain ⟨hc, -⟩ := Option.filter_eq_some_iff.mp hp
  obtain ⟨k, hk, hopts, hpay⟩ := nsMaintBufAdd_spec mem req h
  have hspec := nsPacketCreate_spec hopts hc
  rw [hpay] at hspec
  exact ⟨k, hk, hspec⟩

theorem nsDeliver_spec {junk : Int} {r p : NsPacket} (h : NsOpts n d.dp) (hd : d.p = some p)
    (hr : nsDeliver junk d = some r) : r.cmh.size = p.cmh.size - ipHdrLen + n := by
  obtain ⟨b, hb, -⟩ := h.buf
  have hge := h.ge
  unfold dsrOptHdrLen at hge
  have hsome : d.dp.dh.isSome = true := by rw [hb]; rfl
  unfold nsDeliver at hr
  rw [if_pos hsome, if_pos hsome, h.tail] at hr
  dsimp only at hr
  rw [if_pos (by omega)] at hr
  obtain ⟨p', hp', rfl⟩ := Option.map_eq_some_iff.mp hr
  unfold nsOptRemove nsBuildIp at hp'
  rw [hd] at hp'
  cases hp'
  dsimp only
  omega

end Steps

section Journey

variable {env : NsEnv} {s : Int} {srt : DsrSrt} {hops : List NsPacket} {p : NsPacket}

inductive NsJourney (env : NsEnv) (s : Int) (srt : DsrSrt) : List NsPacket → NsPacket → Prop
  | sent {p d d' q me mem neigh req} : p.cmh.size = s → nsRecv env mem me p = .startXmit d →
      nsSrtAdd env mem { d with dp := { d.dp with srt := some srt } } = some d' →
      nsXmit env mem neigh me req d' = some q → NsJourney env s srt [q] q
  | hop {hops p d dp q me mem neigh req} : NsJourney env s srt hops p → nsRecv env mem me p = .dsrRecv d →
      NsOptRecv mem d.dp dp → 1 ≤ d.iph.ttl → nsXmit env mem neigh me req { d with dp := dp } = some q →
      NsJourney env s srt (hops ++ [q]) q

structure NsConserved (s : Int) (hops : List NsPacket) (delivered : NsPacket) : Prop where
  hops : ∀ q ∈ hops, q.cmh.size = s + ipHdrLen + nsOptsLenOf q.dsruu
  delivered : delivered.cmh.size = s

structure NsSized (env : NsEnv) (s : Int) (srt : DsrSrt) (hops : List NsPacket) (p : NsPacket) : Prop where
  ptype : p.cmh.ptype = env.ptDsr
  ge : s + ipHdrLen + 8 ≤ p.cmh.size
  exact : srt.laddrs + 4 * hops.length ≤ 65531 → (∀ q ∈ hops, q.cmh.size = s + ipHdrLen + nsOptsLenOf q.dsruu) ∧
    p ∈ hops ∧ nsOptsLenOf p.dsruu ≤ 8 + srt.laddrs + 4 * hops.length

theorem nsRecv_start {mem : ℕ → UInt8} {me : InAddr} {d : NsPkt} (h : nsRecv env mem me p = .startXmit d) :
    d.dp.payloadLen = p.cmh.size ∧ d.dp.srtOpt = none ∧ d.dp.ackReqOpt = none := by
  unfold nsRecv at h
  dsimp only at h
  split at h
  · split at h <;> cases h
  · next hp =>
    split at h
    · cases h
      obtain ⟨hpay, hs, ha⟩ := nsPktAlloc_data mem hp
      refine ⟨?_, hs, ha⟩
      dsimp only
      rw [hpay]
      omega
    · cases h

theorem nsRecv_dsr {mem : ℕ → UInt8} {me : InAddr} {d : NsPkt} (h : nsRecv env mem me p = .dsrRecv d) :
    NsOpts (nsOptsLenOf p.dsruu) d.dp ∧ d.dp.payloadLen = p.cmh.size - nsOptsLenOf p.dsruu - ipHdrLen ∧
      d.p = some p := by
  unfold nsRecv at h
  dsimp only at h
  split at h
  · next hp =>
    split at h
    · cases h
      obtain ⟨ho, hpay⟩ := nsPktAlloc_dsr mem hp
      exact ⟨ho, hpay, rfl⟩
    · cases h
  · split at h <;> cases h

theorem NsJourney.sized (h : NsJourney env s srt hops p) : NsSized env s srt hops p := by
  induction h with
  | @sent p d d' q me mem neigh req hs hr ha hx =>
    obtain ⟨hpay, hsrt, hack⟩ := nsRecv_start hr
    obtain ⟨hopts, hpay'⟩ := nsSrtAdd_spec (d := { d with dp := { d.dp with srt := some srt } }) rfl hsrt hack ha
    obtain ⟨k, hk, hsize, hty, hlen⟩ := nsXmit_spec hopts hx
    rw [hpay', hpay, hs] at hsize
    unfold dsrOptHdrLen at hlen
    refine ⟨hty, by omega, fun hfit => ?_⟩
    rw [List.length_singleton] at hfit ⊢
    refine ⟨fun r hr => ?_, List.mem_singleton_self q, by omega⟩
    rw [List.mem_singleton.mp hr]
    omega
  | @hop hops p d dp q me mem neigh req _ hr ho _ hx ih =>
    obtain ⟨hopts, hpay, -⟩ := nsRecv_dsr hr
    obtain ⟨hopts', hpay'⟩ := ho.opts hopts
    obtain ⟨k, hk, hsize, hty, hlen⟩ := nsXmit_spec (d := { d with dp := dp }) hopts' hx
    have hge := ih.ge
    have hn := hopts.ge
    dsimp only at hsize
    rw [hpay', hpay] at hsize
    unfold dsrOptHdrLen at hlen hn
    refine ⟨hty, by omega, fun hfit => ?_⟩
    rw [List.length_append, List.length_singleton] at hfit ⊢
    obtain ⟨hall, hmem, hle⟩ := ih.exact (by omega)
    have hlast := hall p hmem
    refine ⟨fun r hr => ?_, by simp, by omega⟩
    rcases List.mem_append.mp hr with hr | hr
    · exact hall r hr
    · rw [List.mem_singleton.mp hr]
      omega

theorem ns_size_never_conserved {mem : ℕ → UInt8} {me : InAddr} {d : NsPkt} {dp : DsrPkt} {junk : Int}
    {r : NsPacket} (h : NsJourney env s srt hops p) (hr : nsRecv env mem me p = .dsrRecv d)
    (ho : NsOptRecv mem d.dp dp) (hd : nsDeliver junk { d with dp := dp } = some r) :
    ¬ NsConserved s hops r ∧ (srt.laddrs + 4 * hops.length ≤ 65531 →
      (∀ q ∈ hops, q.cmh.size = s + ipHdrLen + nsOptsLenOf q.dsruu) ∧
        r.cmh.size = s + 2 * nsOptsLenOf p.dsruu) := by
  have hsz := h.sized
  have hge := hsz.ge
  obtain ⟨hopts, -, hp⟩ := nsRecv_dsr hr
  have hsize := nsDeliver_spec (d := { d with dp := dp }) (ho.opts hopts).1 hp hd
  refine ⟨fun hc => ?_, fun hfit => ?_⟩
  · have hdel := hc.delivered
    omega
  · obtain ⟨hall, hmem, -⟩ := hsz.exact hfit
    have hlast := hall p hmem
    exact ⟨hall, by omega⟩

end Journey

def simEnv : NsEnv :=
  { nodeaddr := id, ptDsr := 48, ptPing := 44, ptNtype := 60, dataPacket := fun n => n = 2
    useNetworkLayerAck := true }

def simHost (i : UInt8) : InAddr := ⟨0, 0, 0, i⟩

def simPacket (ptype : ℕ) (size : Int) (mac : ℕ) (me : InAddr) (dsruu : List UInt8) : NsPacket :=
  { cmh := { ptype := ptype, size := size, addrNone := false, down := true, iface := -2, error := 0, prevHop := me
             nextHop := simHost 2 }
    iph := { saddr := simHost 1, daddr := simHost 2, ttl := 32 }
    macDst := mac
    dsruu := dsruu }

def simLocal : NsPacket := simPacket 2 100 0 (simHost 9) []

def simWire : NsPacket := simPacket 48 132 2 (simHost 1) [2, 0, 8, 0, 96, 2, 0, 0, 160, 2, 7, 0]

def simHanded : NsPacket := simPacket 2 124 2 (simHost 1) [2, 0, 8, 0, 96, 2, 0, 0, 160, 2, 7, 0]

def simRoute : DsrSrt := { src := simHost 1, dst := simHost 2, flags := 0, laddrs := 0, addrs := [] }

def simSource : NsPkt :=
  let d := nsPktAlloc simEnv (fun _ => 0) simLocal
  { d with dp := { d.dp with payloadLen := d.dp.payloadLen + ipHdrLen } }

theorem simWire_journey : NsJourney simEnv 100 simRoute [simWire] simWire := by
  have hsent : (nsSrtAdd simEnv (fun _ => 0) { simSource with dp := { simSource.dp with srt := some simRoute } }).bind
      (nsXmit simEnv (fun _ => 0) (fun _ => some 2) (simHost 1) (some 7)) = some simWire := by decide +kernel
  obtain ⟨d', ha, hx⟩ := Option.bind_eq_some_iff.mp hsent
  have hstart : nsRecv simEnv (fun _ => 0) (simHost 1) simLocal = .startXmit simSource := rfl
  exact .sent rfl hstart ha hx

def simArrived : NsPkt := nsPktAlloc simEnv (fun _ => 0) simWire

theorem simHanded_delivered : nsRecv simEnv (fun _ => 0) (simHost 2) simWire = .dsrRecv simArrived ∧
    nsDeliver 0 { simArrived with dp := simArrived.dp } = some simHanded := by
  refine ⟨?_, by decide +kernel⟩
  have hty : simWire.cmh.ptype = simEnv.ptDsr := rfl
  have hsrc : (nsPktAlloc simEnv (fun _ => 0) simWire).dp.src ≠ simHost 2 := by decide +kernel
  simp only [nsRecv, hty, if_true, simArrived]
  exact if_pos hsrc

theorem ns_size_never_conserved_direct : ¬ NsConserved 100 [simWire] simHanded ∧ simHanded.cmh.size = 100 + 2 * 12 := by
  obtain ⟨hr, hd⟩ := simHanded_delivered
  obtain ⟨hnot, hexact⟩ := ns_size_never_conserved simWire_journey hr .plain hd
  exact ⟨hnot, (hexact (by decide)).2⟩

theorem ns_size_doubled : ∃ hops p r d, NsJourney simEnv 100 simRoute hops p ∧
    nsRecv simEnv (fun _ => 0) (simHost 2) p = .dsrRecv d ∧ nsDeliver 0 d = some r ∧ ¬ NsConserved 100 hops r := by
  obtain ⟨hr, hd⟩ := simHanded_delivered
  refine ⟨[simWire], simWire, simHanded, simArrived, simWire_journey, hr, hd, fun hc => ?_⟩
  exact absurd hc.delivered (by decide)

end DsrUu
