import DsrUu.Node.RecvClosed
import DsrUu.Pkt.Length

namespace DsrUu

open Bytes Effect

def skbOptsLen (skb : Skb) : ℕ := if skb.iph.protocol = ipprotoDsr then dsrOptsLenOf skb else 0

structure SkbOk (skb : Skb) : Prop where
  totLen : skb.iph.totLen < 65536
  covers : 4 * skb.iph.ihl + skbOptsLen skb ≤ skb.iph.totLen

structure AllocLen (skb : Skb) (dp : DsrPkt) : Prop where
  nh : dp.nh = .skb
  skb_eq : dp.skb = some skb
  payloadLen : dp.payloadLen = (skb.iph.totLen : Int) - 4 * skb.iph.ihl - skbOptsLen skb
  ackReq : ∀ p, dp.ackReqOpt = some p → dsrOptHdrLen ≤ p.off
  optsLen : dp.optsLen = skbOptsLen skb

theorem dsrPktAlloc_len (mem : ℕ → UInt8) (skb : Skb) : AllocLen skb (dsrPktAlloc mem skb) := by
  by_cases h : skb.iph.protocol = ipprotoDsr
  · have ha := dsrPktAlloc_dsr mem h
    have hlen : skbOptsLen skb = dsrOptsLenOf skb := if_pos h
    refine ⟨ha.nh, ha.skb_eq, ?_, fun p hp => (ha.parse.ackReq p hp).off_le, ?_⟩
    · rw [hlen]
      exact ha.payloadLen
    · rw [hlen, optsLen_dh ha.dh]
  · have hlen : skbOptsLen skb = 0 := if_neg h
    unfold dsrPktAlloc
    simp only [h, decide_false, Bool.false_eq_true, if_false]
    exact ⟨rfl, rfl, by rw [hlen], nofun, by rw [hlen]; rfl⟩

theorem AllocLen.iph {skb : Skb} {dp : DsrPkt} (h : AllocLen skb dp) : dp.iph = skb.iph := by
  rw [DsrPkt.iph, h.nh, h.skb_eq]

theorem AllocLen.payload {skb : Skb} {dp : DsrPkt} (h : AllocLen skb dp) (hs : SkbOk skb) :
    0 ≤ dp.payloadLen := by
  have hc := hs.covers
  rw [h.payloadLen]
  omega

inductive Edited (dp₀ : DsrPkt) : DsrPkt → Prop
  | refl : Edited dp₀ dp₀
  | note {dp dp' : DsrPkt} : Edited dp₀ dp → dp'.core = dp.core →
      (∀ p, dp'.ackReqOpt = some p → dp.ackReqOpt = some p ∨ dsrOptHdrLen ≤ p.off) → Edited dp₀ dp'
  | setDaddr {dp : DsrPkt} (a : InAddr) : Edited dp₀ dp → Edited dp₀ (dp.setDaddr a)
  | setSleft {dp : DsrPkt} {p : OptPtr} (sleft : ℕ) : dsrOptHdrLen ≤ p.off → Edited dp₀ dp →
      Edited dp₀ (srtOptSetSleft dp p sleft)
  | rreqAppend {dp : DsrPkt} {p : OptPtr} (mem : ℕ → UInt8) (me : InAddr) : dsrOptHdrLen ≤ p.off →
      Edited dp₀ dp → Edited dp₀ (rreqForward mem me dp p)

structure Tracked (dp : DsrPkt) : Prop extends Sized dp where
  skbOk : ∀ skb, dp.skb = some skb → SkbOk skb

theorem Tracked.write {dp : DsrPkt} (h : Tracked dp) (off : ℕ) (xs : List UInt8) :
    Tracked (dp.write off xs) :=
  ⟨h.toSized.write off xs, by rw [(write_same dp off xs).skb_eq]; exact h.skbOk⟩

theorem Tracked.writeField {dp : DsrPkt} (h : Tracked dp) (p : OptPtr) (i : ℕ) (xs : List UInt8) :
    Tracked (dp.writeField p i xs) :=
  ⟨h.toSized.writeField p i xs, by rw [(writeField_same dp p i xs).skb_eq]; exact h.skbOk⟩

theorem Tracked.dsrBuildIp {dp : DsrPkt} (h : Tracked dp) (src dst : InAddr) (tot prot ttl : ℕ) :
    Tracked (dsrBuildIp dp src dst tot prot ttl) :=
  ⟨h.toSized.dsrBuildIp src dst tot prot ttl, h.skbOk⟩

theorem iph_ipData {dp : DsrPkt} (h : ∀ skb, dp.nh = .skb → dp.skb = some skb → False) :
    dp.iph = dp.ipData := by
  unfold DsrPkt.iph
  split
  · next hnh hskb => exact absurd hskb fun hs => h _ hnh hs
  · rfl

theorem Tracked.setDaddr {dp : DsrPkt} (h : Tracked dp) (a : InAddr) :
    Tracked (dp.setDaddr a) ∧ SameLen dp (dp.setDaddr a) := by
  have hihl := h.ihl
  have htot := h.totLen
  unfold DsrPkt.setDaddr
  split
  · next skb hnh hskb =>
    have hiph : dp.iph = skb.iph := by rw [DsrPkt.iph, hnh, hskb]
    have hiph' : ({ dp with skb := some { skb with iph := { skb.iph with daddr := a } } } :
        DsrPkt).iph = { skb.iph with daddr := a } := by
      rw [DsrPkt.iph, hnh]
    rw [hiph] at htot
    refine ⟨⟨⟨h.dh, h.nh, by rw [hiph'], by rw [hiph']; exact htot, h.payload, h.ackReq⟩, ?_⟩,
      ⟨rfl, rfl, by rw [hiph', hiph], by rw [hiph', hiph], rfl⟩⟩
    rintro skb' ⟨⟩
    have hok := h.skbOk skb hskb
    exact ⟨hok.totLen, hok.covers⟩
  · next hne =>
    have hiph : dp.iph = dp.ipData := iph_ipData fun skb hnh hskb => hne skb hnh hskb
    have hiph' : ({ dp with ipData := { dp.ipData with daddr := a } } : DsrPkt).iph =
        { dp.ipData with daddr := a } := iph_ipData fun skb hnh hskb => hne skb hnh hskb
    rw [hiph] at hihl htot
    exact ⟨⟨⟨h.dh, h.nh, by rw [hiph']; exact hihl, by rw [hiph']; exact htot, h.payload, h.ackReq⟩,
      h.skbOk⟩, ⟨rfl, rfl, by rw [hiph', hiph], by rw [hiph', hiph], rfl⟩⟩

section Core

variable {dp dp' : DsrPkt} (h : dp'.core = dp.core)

include h

theorem core_dh : dp'.dh = dp.dh := by
  have he := congrArg DsrPkt.dh h
  exact he

theorem core_nh : dp'.nh = dp.nh := by
  have he := congrArg DsrPkt.nh h
  exact he

theorem core_skb : dp'.skb = dp.skb := by
  have he := congrArg DsrPkt.skb h
  exact he

theorem core_ipData : dp'.ipData = dp.ipData := by
  have he := congrArg DsrPkt.ipData h
  exact he

theorem core_payloadLen : dp'.payloadLen = dp.payloadLen := by
  have he := congrArg DsrPkt.payloadLen h
  exact he

end Core

theorem Tracked.note {dp dp' : DsrPkt} (h : Tracked dp) (hc : dp'.core = dp.core)
    (hp : ∀ p, dp'.ackReqOpt = some p → dp.ackReqOpt = some p ∨ dsrOptHdrLen ≤ p.off) :
    Tracked dp' ∧ SameLen dp dp' := by
  have hdh : dp'.dh = dp.dh := core_dh hc
  have hnh : dp'.nh = dp.nh := core_nh hc
  have hskb : dp'.skb = dp.skb := core_skb hc
  have hiph : dp'.iph = dp.iph := by
    rw [DsrPkt.iph, DsrPkt.iph, hnh, hskb, core_ipData hc]
  have hpay : dp'.payloadLen = dp.payloadLen := core_payloadLen hc
  have hpl : dp'.pLen = dp.pLen := by
    unfold DsrPkt.pLen DsrPkt.byteAt
    rw [hdh]
  have hol : dp'.optsLen = dp.optsLen := by
    unfold DsrPkt.optsLen
    rw [hdh]
  refine ⟨⟨⟨by rw [hdh]; exact h.dh, by rw [hnh]; exact h.nh, by rw [hiph, hskb]; exact h.ihl,
    by rw [hiph]; exact h.totLen, by rw [hpay]; exact h.payload, fun p hap => ?_⟩,
    by rw [hskb]; exact h.skbOk⟩, ⟨hpl, hol, by rw [hiph], by rw [hiph], hpay⟩⟩
  rcases hp p hap with hold | hge
  · exact h.ackReq p hold
  · exact hge

theorem Expanded.tracked {dp dp' : DsrPkt} {len : ℕ} (h : Expanded dp len dp') (ht : Tracked dp) :
    Tracked dp' :=
  ⟨h.sized, by rw [h.same.skb_eq]; exact ht.skbOk⟩

structure Grown (dp : DsrPkt) (len : ℕ) (dp' : DsrPkt) : Prop where
  pLen : dp'.pLen = (dp.pLen + len) % 65536
  optsLen : dp'.optsLen = dp.optsLen + len
  ihl : dp'.iph.ihl = dp.iph.ihl
  totLen : dp'.iph.totLen = (dp.iph.totLen + len) % 65536
  payloadLen : dp'.payloadLen = dp.payloadLen

theorem Grown.ipLen {dp dp' : DsrPkt} {len : ℕ} (h : Grown dp len dp') :
    dp'.ipLen = dp.ipLen + len := by
  rw [DsrPkt.ipLen, DsrPkt.ipLen, h.ihl, h.optsLen, h.payloadLen]
  omega

theorem Grown.lenMod {dp dp' : DsrPkt} {len : ℕ} (h : Grown dp len dp') (hs : Sized dp)
    (hm : LenMod dp) : LenMod dp' := by
  have hge := hs.optsLen_ge
  have h₁ := hm.pLen
  have h₂ := hm.totLen
  refine ⟨?_, ?_⟩
  · rw [h.pLen, h.optsLen, h₁]
    omega
  · rw [h.totLen, h.ipLen]
    omega

theorem Grown.lenOk {dp dp' : DsrPkt} {len : ℕ} (h : Grown dp len dp') (hs : Sized dp)
    (hl : LenOk dp') : LenOk dp := by
  have hge := hs.optsLen_ge
  have hnn := hs.ipLen_nonneg
  have htot := hs.totLen
  have hlt := pLen_lt dp
  have h₁ := hl.pLen
  have h₂ := hl.totLen
  unfold dsrOptHdrLen at hge h₁
  rw [h.pLen, h.optsLen] at h₁
  rw [h.totLen, h.ipLen] at h₂
  refine ⟨?_, ?_⟩
  · unfold dsrOptHdrLen
    omega
  · omega

theorem SameLen.trans {a b c : DsrPkt} (h₁ : SameLen a b) (h₂ : SameLen b c) : SameLen a c :=
  ⟨h₂.pLen.trans h₁.pLen, h₂.optsLen.trans h₁.optsLen, h₂.ihl.trans h₁.ihl,
    h₂.totLen.trans h₁.totLen, h₂.payloadLen.trans h₁.payloadLen⟩

theorem Tracked.setPLen {dp : DsrPkt} (h : Tracked dp) (n : ℕ) :
    Tracked (dp.write 2 (toBe16 (n % 65536))) ∧ (dp.write 2 (toBe16 (n % 65536))).pLen = n % 65536 := by
  obtain ⟨b, hb, hge, hle⟩ := h.dh
  exact ⟨h.write _ _, pLen_write_be16 hb (Nat.le_trans hge hle) n⟩

theorem Tracked.rreqForward {dp : DsrPkt} (h : Tracked dp) (mem : ℕ → UInt8) (me : InAddr)
    {p : OptPtr} (hp : dsrOptHdrLen ≤ p.off) :
    Tracked (rreqForward mem me dp p) ∧ Grown dp 4 (rreqForward mem me dp p) := by
  obtain ⟨dp₁, he, hx⟩ := dsrPktAllocOptsExpand_spec h.toSized mem 4
  have ht₁ := hx.tracked h
  have hp₁ := hx.pLen h.toSized
  have hi₁ := hx.same.iph
  obtain ⟨dp₂, hdp₂⟩ : ∃ dp₂, dp₂ = if dsrLastOpt dp₁ p then dp₁
    else dp₁.writeField p (dp₁.optLength p + 6) (dp₁.fieldsAt p (dp₁.optLength p + 2) 4) := ⟨_, rfl⟩
  have h₂ : Tracked dp₂ ∧ SameLen dp₁ dp₂ := by
    rw [hdp₂]
    split
    · exact ⟨ht₁, ⟨rfl, rfl, rfl, rfl, rfl⟩⟩
    · exact ⟨ht₁.writeField _ _ _, writeField_sameLen _ _ hp⟩
  obtain ⟨dp₃, hdp₃⟩ : ∃ dp₃, dp₃ = dp₂.writeField p (8 + 4 * ((dp.optLength p - 6) / 4)) me.bytes :=
    ⟨_, rfl⟩
  obtain ⟨dp₄, hdp₄⟩ : ∃ dp₄, dp₄ = dp₃.writeField p 1 [UInt8.ofNat (dp₃.optLength p + 4)] := ⟨_, rfl⟩
  have h₄ : Tracked dp₄ ∧ SameLen dp₂ dp₄ := by
    rw [hdp₄, hdp₃]
    exact ⟨(h₂.1.writeField _ _ _).writeField _ _ _,
      (writeField_sameLen _ _ hp).trans (writeField_sameLen _ _ hp)⟩
  have hsame := h₂.2.trans h₄.2
  obtain ⟨dp₅, hdp₅⟩ : ∃ dp₅, dp₅ = dp₄.write 2 (toBe16 ((dp₄.pLen + 4) % 65536)) := ⟨_, rfl⟩
  have hw := write_same dp₄ 2 (toBe16 ((dp₄.pLen + 4) % 65536))
  have h₅ := h₄.1.setPLen (dp₄.pLen + 4)
  rw [← hdp₅] at hw h₅
  have heq : DsrUu.rreqForward mem me dp p =
      DsrUu.dsrBuildIp dp₅ dp₅.src dp₅.dst (dp₅.iph.totLen + 4) ipprotoDsr dp₅.iph.ttl := by
    rw [hdp₅, hdp₄, hdp₃, hdp₂, DsrUu.rreqForward, he]
    rfl
  rw [heq]
  refine ⟨h₅.1.dsrBuildIp _ _ _ _ _, ?_, ?_, ?_, ?_, ?_⟩
  · change dp₅.pLen = _
    rw [h₅.2, hsame.pLen, hp₁]
  · change dp₅.optsLen = _
    rw [hdp₅, optsLen_write, hsame.optsLen, hx.optsLen]
  · rw [h₅.1.ihl_dsrBuildIp, hw.iph, hsame.ihl, hi₁]
  · change (dp₅.iph.totLen + 4) % 65536 = _
    rw [hw.iph, hsame.totLen, hi₁]
  · change dp₅.payloadLen = _
    rw [hw.payloadLen, hsame.payloadLen, hx.same.payloadLen]

theorem Tracked.dsrAckReqOptAdd {dp : DsrPkt} (h : Tracked dp) (mem : ℕ → UInt8) (id : ℕ) :
    Tracked (dsrAckReqOptAdd mem dp id) ∧ (SameLen dp (dsrAckReqOptAdd mem dp id) ∨
      Grown dp dsrAckReqHdrLen (dsrAckReqOptAdd mem dp id)) := by
  unfold DsrUu.dsrAckReqOptAdd
  cases hp : dp.ackReqOpt with
  | some p =>
    exact ⟨h.writeField _ _ _, Or.inl (writeField_sameLen _ _ (h.ackReq p hp))⟩
  | none =>
    have hge := h.optsLen_ge
    have hne : dp.optsLen ≠ 0 := by
      unfold dsrOptHdrLen at hge
      omega
    obtain ⟨dp₁, he, hx⟩ := dsrPktAllocOptsExpand_spec h.toSized mem dsrAckReqHdrLen
    have ht₁ := hx.tracked h
    dsimp only
    rw [if_neg hne, he, if_neg h.nh, if_neg h.nh]
    dsimp only
    obtain ⟨dp₂, hdp₂⟩ : ∃ dp₂, dp₂ = DsrUu.dsrBuildIp dp₁ dp₁.src dp₁.dst
      (dp.iph.totLen + dsrAckReqHdrLen) ipprotoDsr dp.iph.ttl := ⟨_, rfl⟩
    have ht₂ : Tracked dp₂ := by
      rw [hdp₂]
      exact ht₁.dsrBuildIp _ _ _ _ _
    have hp₂ : dp₂.pLen = dp.pLen := by
      rw [hdp₂]
      exact hx.pLen h.toSized
    rw [← hdp₂]
    obtain ⟨b, hb, hbge, hble⟩ := ht₂.dh
    have hl := pLen_write_hdr hb (Nat.le_trans hbge hble)
      (dsrOptHdrLen + dp₂.pLen + dsrAckReqHdrLen) dp₂.nextHdr
    obtain ⟨dp₃, hdp₃⟩ : ∃ dp₃, dp₃ = dp₂.write 0
      (optHdrBytes (dsrOptHdrLen + dp₂.pLen + dsrAckReqHdrLen) dp₂.nextHdr) := ⟨_, rfl⟩
    have hw := write_same dp₂ 0 (optHdrBytes (dsrOptHdrLen + dp₂.pLen + dsrAckReqHdrLen) dp₂.nextHdr)
    have ho := optsLen_write dp₂ 0 (optHdrBytes (dsrOptHdrLen + dp₂.pLen + dsrAckReqHdrLen) dp₂.nextHdr)
    rw [← hdp₃] at hl hw ho
    rw [← hdp₃]
    have ht₃ : Tracked dp₃ := by
      rw [hdp₃]
      exact ht₂.write _ _
    have hs : SameLen dp₃ _ := write_sameLen (ackReqOptBytes id) hge
    refine ⟨ht₃.write _ _, Or.inr ⟨?_, ?_, ?_, ?_, ?_⟩⟩
    · rw [hs.pLen, hl, hp₂]
      congr 1
      omega
    · rw [hs.optsLen, ho, hdp₂]
      exact hx.optsLen
    · rw [hs.ihl, hw.iph, hdp₂, ht₁.ihl_dsrBuildIp, hx.same.iph]
    · rw [hs.totLen, hw.iph, hdp₂]
      rfl
    · rw [hs.payloadLen, hw.payloadLen, hdp₂]
      exact hx.same.payloadLen

structure Balanced (dp : DsrPkt) : Prop extends Tracked dp where
  lenMod : LenMod dp

theorem Balanced.write {dp : DsrPkt} (h : Balanced dp) {off : ℕ} (hoff : dsrOptHdrLen ≤ off)
    (xs : List UInt8) : Balanced (dp.write off xs) :=
  ⟨h.toTracked.write off xs, (write_sameLen xs hoff).lenMod h.lenMod⟩

theorem Balanced.frame {dp dp' : DsrPkt} (h : Balanced dp) (hdh : dp'.dh = dp.dh)
    (hnh : dp'.nh = dp.nh) (hip : dp'.ipData = dp.ipData) (hskb : dp'.skb = dp.skb)
    (hpay : dp'.payloadLen = dp.payloadLen) (hack : dp'.ackReqOpt = dp.ackReqOpt) :
    Balanced dp' := by
  have hiph : dp'.iph = dp.iph := by rw [DsrPkt.iph, DsrPkt.iph, hnh, hskb, hip]
  have hpl : dp'.pLen = dp.pLen := by
    unfold DsrPkt.pLen DsrPkt.byteAt
    rw [hdh]
  have hol : dp'.optsLen = dp.optsLen := by
    unfold DsrPkt.optsLen
    rw [hdh]
  have hlen : SameLen dp dp' := ⟨hpl, hol, by rw [hiph], by rw [hiph], hpay⟩
  exact ⟨⟨⟨by rw [hdh]; exact h.dh, by rw [hnh]; exact h.nh, by rw [hiph, hskb]; exact h.ihl,
    by rw [hiph]; exact h.totLen, by rw [hpay]; exact h.payload, by rw [hack]; exact h.ackReq⟩,
    by rw [hskb]; exact h.skbOk⟩, hlen.lenMod h.lenMod⟩

theorem Balanced.writeOpts (os : List (List UInt8)) : ∀ {dp : DsrPkt} {off : ℕ}, Balanced dp →
    dsrOptHdrLen ≤ off → Balanced (writeOpts dp off os) := by
  induction os with
  | nil => exact fun h _ => h
  | cons o os ih =>
    intro dp off h hoff
    exact ih (h.write hoff o) (Nat.le_trans hoff (Nat.le_add_right _ _))

structure Headed (len tot w : ℕ) (pay : Int) (dp : DsrPkt) : Prop extends Tracked dp where
  pLen_eq : dp.pLen = (len - dsrOptHdrLen) % 65536
  optsLen_eq : dp.optsLen = len
  totLen_eq : dp.iph.totLen = tot % 65536
  ihl_eq : dp.iph.ihl = w
  payloadLen_eq : dp.payloadLen = pay

theorem Headed.ipLen {len tot w : ℕ} {pay : Int} {dp : DsrPkt}
    (h : Headed len tot w pay dp) : dp.ipLen = 4 * w + len + pay := by
  rw [DsrPkt.ipLen, h.ihl_eq, h.optsLen_eq, h.payloadLen_eq]

theorem Headed.lenMod {len tot w : ℕ} {pay : Int} {dp : DsrPkt}
    (h : Headed len tot w pay dp)
    (htot : ((tot % 65536 : ℕ) : Int) = (4 * w + len + pay) % 65536) : LenMod dp :=
  ⟨by rw [h.pLen_eq, h.optsLen_eq], by rw [h.totLen_eq, h.ipLen, htot]⟩

theorem dsrOptHdrAdd_headed {mem : ℕ → UInt8} {dp dp' : DsrPkt} {src dst : InAddr}
    {len tot prot ttl nprot : ℕ} (w : ℕ)
    (h : dsrOptHdrAdd (dsrBuildIp (dsrPktAllocOpts mem dp len) src dst tot prot ttl) len nprot =
      some dp') (hpay : 0 ≤ dp.payloadLen)
    (hack : ∀ p, dp.ackReqOpt = some p → dsrOptHdrLen ≤ p.off)
    (hskb : ∀ skb, dp.skb = some skb → SkbOk skb)
    (hihl : w = match dp.skb with
      | some skb => skb.iph.ihl
      | none => 5) : Headed len tot w dp.payloadLen dp' := by
  unfold dsrOptHdrAdd at h
  split at h
  · cases h
  next hlen =>
  cases h
  have hlen := Nat.le_of_not_lt hlen
  obtain ⟨dp₁, hdp₁⟩ : ∃ dp₁, dp₁ = dsrBuildIp (dsrPktAllocOpts mem dp len) src dst tot prot ttl :=
    ⟨_, rfl⟩
  have hdh : dp₁.dh = some { raw := fill mem (len + defaultTailroom), tail := len } := by
    rw [hdp₁]
    rfl
  have hskb₁ : dp₁.skb = dp.skb := by
    rw [hdp₁]
    rfl
  have hihl₁ : dp₁.iph.ihl = match dp₁.skb with
      | some skb => skb.iph.ihl
      | none => 5 := by
    rw [hdp₁, iph_dsrBuildIp]
    unfold dsrBuildIp
    dsimp only
    cases (dsrPktAllocOpts mem dp len).skb <;> rfl
  have hfit : 4 ≤ (fill mem (len + defaultTailroom)).length := by
    rw [length_fill]
    unfold dsrOptHdrLen at hlen
    omega
  have ht : Tracked dp₁ := by
    refine ⟨⟨⟨_, hdh, hlen, by simp⟩, ?_, hihl₁, ?_, ?_, ?_⟩, ?_⟩
    · rw [hdp₁]
      exact nofun
    · rw [hdp₁]
      exact Nat.mod_lt _ (by decide)
    · rw [hdp₁]
      exact hpay
    · rw [hdp₁]
      exact hack
    · rw [hskb₁]
      exact hskb
  have hw := write_same dp₁ 0 (optHdrBytes len nprot)
  rw [← hdp₁]
  refine ⟨ht.write _ _, pLen_write_hdr hdh hfit len nprot, ?_, ?_, ?_, ?_⟩
  · rw [optsLen_write, optsLen_dh hdh]
  · rw [hw.iph, hdp₁]
    rfl
  · rw [hw.iph, hihl₁, hskb₁, hihl]
  · rw [hw.payloadLen, hdp₁]
    rfl

section Built

variable {mem : ℕ → UInt8} {me : InAddr} {dp dp' : DsrPkt}

theorem balanced_fresh {src dst : InAddr} {len prot ttl : ℕ} (hskb : dp.skb = none)
    (hpay : dp.payloadLen = 0) (hack : dp.ackReqOpt = none)
    (h : dsrOptHdrAdd (dsrBuildIp (dsrPktAllocOpts mem dp len) src dst (ipHdrLen + len) ipprotoDsr ttl)
      len prot = some dp') : Balanced dp' := by
  have hh := dsrOptHdrAdd_headed 5 h (by rw [hpay]) (by rw [hack]; exact nofun)
    (by rw [hskb]; exact nofun) (by rw [hskb])
  refine ⟨hh.toTracked, hh.lenMod ?_⟩
  rw [hpay]
  unfold ipHdrLen
  omega

theorem Balanced.dsrSrtOptAdd (hb : Balanced dp) {off len salv : ℕ} {srt : DsrSrt}
    (hoff : dsrOptHdrLen ≤ off) (h : dsrSrtOptAdd dp off len salv srt = some dp') : Balanced dp' := by
  unfold DsrUu.dsrSrtOptAdd at h
  split at h
  · cases h
  · cases h
    exact hb.write hoff _

theorem Balanced.dsrRrepOptAdd (hb : Balanced dp) {off len : ℕ} {srt : DsrSrt}
    (hoff : dsrOptHdrLen ≤ off) (h : dsrRrepOptAdd dp off len srt = some dp') : Balanced dp' := by
  unfold DsrUu.dsrRrepOptAdd at h
  split at h
  · cases h
  · cases h
    have hoff' : dsrOptHdrLen ≤ off + dsrRrepHdrLen := Nat.le_trans hoff (Nat.le_add_right _ _)
    exact ((hb.write hoff _).write hoff' _).write (Nat.le_trans hoff' (Nat.le_add_right _ _)) _

theorem Balanced.dsrRerrOptAdd (hb : Balanced dp) {off len errType salv : ℕ}
    {errSrc errDst unreach : InAddr} (hoff : dsrOptHdrLen ≤ off)
    (h : dsrRerrOptAdd dp off len errType errSrc errDst unreach salv = some dp') : Balanced dp' := by
  unfold DsrUu.dsrRerrOptAdd at h
  split at h
  · cases h
  · cases h
    exact hb.write hoff _

theorem rreqPkt_balanced {target : InAddr} {ttl seqno : ℕ}
    (h : rreqPkt mem me target ttl seqno = some dp) : Balanced dp := by
  unfold rreqPkt at h
  obtain ⟨dp₁, h₁, h⟩ := Option.bind_eq_some_iff.mp h
  obtain ⟨dp₂, h₂, rfl⟩ := Option.map_eq_some_iff.mp h
  have hb : Balanced dp₁ := balanced_fresh rfl rfl rfl h₁
  refine (?_ : Balanced dp₂).frame rfl rfl rfl rfl rfl rfl
  unfold dsrRreqOptAdd at h₂
  split at h₂
  · cases h₂
  · cases h₂
    exact hb.write (Nat.le_refl _) _

theorem ackPkt_balanced {dst : InAddr} {id : ℕ} (h : ackPkt mem me dst id = some dp) :
    Balanced dp := by
  unfold ackPkt at h
  obtain ⟨dp₁, h₁, h⟩ := Option.bind_eq_some_iff.mp h
  obtain ⟨dp₂, h₂, rfl⟩ := Option.map_eq_some_iff.mp h
  have hb : Balanced dp₁ := balanced_fresh rfl rfl rfl h₁
  refine (?_ : Balanced dp₂).frame rfl rfl rfl rfl rfl rfl
  unfold dsrAckOptAdd at h₂
  split at h₂
  · cases h₂
  · cases h₂
    exact hb.write (Nat.le_refl _) _

theorem ackReqPkt_balanced {neigh : InAddr} {id : ℕ} (h : ackReqPkt mem me neigh id = some dp) :
    Balanced dp := by
  unfold ackReqPkt at h
  obtain ⟨dp₁, h₁, h₂⟩ := Option.bind_eq_some_iff.mp h
  have hb : Balanced dp₁ := balanced_fresh rfl rfl rfl h₁
  unfold dsrAckReqOptCreate at h₂
  split at h₂
  · cases h₂
  · cases h₂
    exact hb.write (Nat.le_refl _) _

theorem rrepPkt_balanced {srt srtToMe : DsrSrt} (h : rrepPkt mem me srt srtToMe = some dp) :
    Balanced dp := by
  unfold rrepPkt at h
  obtain ⟨dp₁, h₁, h⟩ := Option.bind_eq_some_iff.mp h
  obtain ⟨dp₂, h₂, h⟩ := Option.bind_eq_some_iff.mp h
  obtain ⟨dp₃, h₃, rfl⟩ := Option.map_eq_some_iff.mp h
  have hb : Balanced dp₁ := balanced_fresh rfl rfl rfl h₁
  refine (?_ : Balanced dp₃).frame rfl rfl rfl rfl rfl rfl
  exact (hb.dsrSrtOptAdd (Nat.le_refl _) h₂).dsrRrepOptAdd (Nat.le_add_right _ _) h₃

theorem rerrPkt_balanced {dst unreach : InAddr} {maxSalvage salv : ℕ} {srt : DsrSrt}
    {trigg : DsrPkt} (h : rerrPkt mem me dst unreach maxSalvage srt trigg salv = some dp) :
    Balanced dp := by
  unfold rerrPkt at h
  obtain ⟨dp₁, h₁, h⟩ := Option.bind_eq_some_iff.mp h
  obtain ⟨dp₂, h₂, h⟩ := Option.bind_eq_some_iff.mp h
  obtain ⟨dp₃, h₃, rfl⟩ := Option.map_eq_some_iff.mp h
  have hswap : ∀ (dp : DsrPkt) (src dst : InAddr) (tot prot ttl len : ℕ),
      dsrPktAllocOpts mem (dsrBuildIp dp src dst tot prot ttl) len =
        dsrBuildIp (dsrPktAllocOpts mem dp len) src dst tot prot ttl := fun _ _ _ _ _ _ _ => rfl
  rw [hswap] at h₁
  have hb : Balanced dp₁ := balanced_fresh rfl rfl rfl h₁
  have hoff : dsrOptHdrLen ≤ dsrOptHdrLen + dsrSrtOptLen srt := Nat.le_add_right _ _
  have hb₃ := (hb.dsrSrtOptAdd (Nat.le_refl _) h₂).dsrRerrOptAdd hoff h₃
  refine Balanced.writeOpts _ (hb₃.frame rfl rfl rfl rfl rfl rfl) ?_
  exact Nat.le_trans hoff (Nat.le_trans (Nat.le_add_right _ dsrRerrHdrLen) (Nat.le_add_right _ _))

end Built

structure LenIff (c : Prop) (dp : DsrPkt) : Prop extends Tracked dp where
  lenMod : c → LenMod dp
  of_lenOk : LenOk dp → c

theorem LenIff.iff {c : Prop} {dp : DsrPkt} (h : LenIff c dp) : LenOk dp ↔ Fits dp ∧ c :=
  ⟨fun hl => ⟨hl.fits h.toSized, h.of_lenOk hl⟩, fun hf => (h.lenMod hf.2).lenOk h.toSized hf.1⟩

theorem Balanced.lenIff {dp : DsrPkt} (h : Balanced dp) : LenIff True dp :=
  ⟨h.toTracked, fun _ => h.lenMod, fun _ => trivial⟩

theorem LenIff.dsrAckReqOptAdd {c : Prop} {dp : DsrPkt} (h : LenIff c dp) (mem : ℕ → UInt8)
    (id : ℕ) : LenIff c (dsrAckReqOptAdd mem dp id) := by
  obtain ⟨ht, hlen⟩ := h.toTracked.dsrAckReqOptAdd mem id
  rcases hlen with hs | hg
  · exact ⟨ht, fun hc => hs.lenMod (h.lenMod hc), fun hl => h.of_lenOk (hs.lenOk hl)⟩
  · exact ⟨ht, fun hc => hg.lenMod h.toSized (h.lenMod hc), fun hl => h.of_lenOk (hg.lenOk h.toSized hl)⟩

theorem dsrSrtAdd_lenIff {mem mem' : ℕ → UInt8} {skb : Skb} {srt : DsrSrt} {dp : DsrPkt}
    (hok : SkbOk skb) (h : dsrSrtAdd mem' { dsrPktAlloc mem skb with srt := some srt } = some dp) :
    LenIff (skb.iph.protocol ≠ ipprotoDsr) dp := by
  have ha := dsrPktAlloc_len mem skb
  have htot := hok.totLen
  have hcov := hok.covers
  have hpay := ha.payloadLen
  obtain ⟨dp₁, h₁, h⟩ := Option.bind_eq_some_iff.mp h
  obtain ⟨dp₂, h₂, rfl⟩ := Option.map_eq_some_iff.mp h
  have hh := dsrOptHdrAdd_headed skb.iph.ihl h₁ (ha.payload hok) ha.ackReq
    (fun skb' hs => by
      rw [show skb' = skb from Option.some_inj.mp (hs.symm.trans ha.skb_eq)]
      exact hok)
    (by
      change _ = match (dsrPktAlloc mem skb).skb with
        | some skb => skb.iph.ihl
        | none => 5
      rw [ha.skb_eq])
  have hw : ∃ xs, dp₂ = dp₁.write dsrOptHdrLen xs := by
    unfold dsrSrtOptAdd at h₂
    split at h₂
    · cases h₂
    · cases h₂
      exact ⟨_, rfl⟩
  obtain ⟨xs, rfl⟩ := hw
  have hs : SameLen dp₁ _ := write_sameLen xs (Nat.le_refl dsrOptHdrLen)
  obtain ⟨ht, hn⟩ := (hh.toTracked.write dsrOptHdrLen xs).note
    (show ({ dp₁.write dsrOptHdrLen xs with
      srtOpt := some ((dp₁.write dsrOptHdrLen xs).ptr dsrOptHdrLen) } : DsrPkt).core = _ from rfl)
    fun _ => Or.inl
  have hiph : (dsrPktAllocOpts mem' { { dsrPktAlloc mem skb with srt := some srt } with
    nxtHop := dsrSrtNextHop srt srt.n } (dsrOptHdrLen + dsrSrtOptLen srt)).iph = skb.iph := ha.iph
  refine ⟨ht, fun hproto => (hs.trans hn).lenMod (hh.lenMod ?_), fun hl hproto => ?_⟩
  · have hopts : skbOptsLen skb = 0 := if_neg hproto
    rw [hiph]
    dsimp only
    rw [hpay, hopts]
    omega
  · have hopts : skbOptsLen skb = dsrOptsLenOf skb := if_pos hproto
    have hge : 4 ≤ dsrOptsLenOf skb := Nat.le_add_left _ _
    have heq := ((hs.trans hn).lenOk hl).totLen
    rw [hh.totLen_eq, hh.ipLen, hiph] at heq
    dsimp only at heq
    rw [hpay] at heq
    omega

theorem dsrPktAlloc_lenOk (mem : ℕ → UInt8) {skb : Skb} (h : skb.iph.protocol = ipprotoDsr) :
    LenOk (dsrPktAlloc mem skb) := by
  have hl := dsrPktAlloc_len mem skb
  refine ⟨(dsrPktAlloc_dsr mem h).pLen, ?_⟩
  rw [DsrPkt.ipLen, hl.iph, hl.optsLen, hl.payloadLen]
  omega

theorem dsrPktAlloc_tracked (mem : ℕ → UInt8) {skb : Skb} (h : skb.iph.protocol = ipprotoDsr)
    (hok : SkbOk skb) : Tracked (dsrPktAlloc mem skb) := by
  have ha := dsrPktAlloc_dsr mem h
  have hl := dsrPktAlloc_len mem skb
  have hge : 4 ≤ dsrOptsLenOf skb := Nat.le_add_left _ _
  refine ⟨⟨⟨_, ha.dh, hge, by simp⟩, ?_, ?_, ?_, hl.payload hok, hl.ackReq⟩, ?_⟩
  · rw [ha.nh]
    exact nofun
  · rw [hl.iph, hl.skb_eq]
  · rw [hl.iph]
    exact hok.totLen
  · intro skb' hs
    rw [show skb' = skb from Option.some_inj.mp (hs.symm.trans hl.skb_eq)]
    exact hok

theorem LenOk.lenMod {dp : DsrPkt} (h : LenOk dp) (hs : Sized dp) : LenMod dp := by
  have hlt := pLen_lt dp
  have htot := hs.totLen
  refine ⟨?_, ?_⟩
  · rw [← h.pLen, Nat.add_sub_cancel, Nat.mod_eq_of_lt hlt]
  · rw [← h.totLen]
    omega

structure Resized (dp : DsrPkt) (len : ℕ) (dp' : DsrPkt) : Prop extends Tracked dp' where
  optsLen_eq : dp'.optsLen = len
  iph_eq : dp'.iph = dp.iph
  payloadLen_eq : dp'.payloadLen = dp.payloadLen

theorem Resized.write {dp dp' : DsrPkt} {len : ℕ} (h : Resized dp len dp') (off : ℕ)
    (xs : List UInt8) : Resized dp len (dp'.write off xs) := by
  have hw := write_same dp' off xs
  exact ⟨h.toTracked.write off xs, by rw [optsLen_write, h.optsLen_eq], by rw [hw.iph, h.iph_eq],
    by rw [hw.payloadLen, h.payloadLen_eq]⟩

theorem Resized.lenOk {dp dp' : DsrPkt} {len : ℕ} (h : Resized dp len dp') (ho : LenOk dp)
    (hl : LenOk dp') : len = dp.optsLen := by
  have h₁ := hl.totLen
  have h₂ := ho.totLen
  rw [DsrPkt.ipLen, h.iph_eq, h.optsLen_eq, h.payloadLen_eq] at h₁
  rw [DsrPkt.ipLen] at h₂
  omega

theorem salvageRealloc_resized (mem : ℕ → UInt8) {dp : DsrPkt} (h : Tracked dp) {p : OptPtr}
    {oldLen : ℕ} (salv : ℕ) (srt : DsrSrt) (hp : dsrOptHdrLen ≤ p.off)
    (hend : p.off + oldLen ≤ dp.optsLen) :
    Resized dp (dp.optsLen - oldLen + dsrSrtOptLen srt) (salvageRealloc mem dp p oldLen salv srt) := by
  obtain ⟨n, hn⟩ : ∃ n, n = dp.optsLen - oldLen + dsrSrtOptLen srt := ⟨_, rfl⟩
  have hbase : Resized dp n (dsrPktAllocOpts mem dp n) := by
    refine ⟨⟨⟨⟨_, rfl, ?_, by simp⟩, h.nh, h.ihl, h.totLen, h.payload, h.ackReq⟩, h.skbOk⟩, rfl, rfl, rfl⟩
    dsimp only
    omega
  unfold salvageRealloc
  dsimp only
  rw [← hn]
  have hr := (((hbase.write 0 (dp.bytesAt 0 p.off)).write p.off (srtOptBytes (salv + 1) srt)).write
    (p.off + dsrSrtOptLen srt) (dp.bytesAt (p.off + oldLen) (dp.optsLen - (p.off + oldLen)))).write 2
    (toBe16 ((n - dsrOptHdrLen) % 65536))
  obtain ⟨dp', hdp'⟩ : ∃ dp', dp' = (((dsrPktAllocOpts mem dp n).write 0 (dp.bytesAt 0 p.off)).write
    p.off (srtOptBytes (salv + 1) srt)).write (p.off + dsrSrtOptLen srt) (dp.bytesAt (p.off + oldLen)
      (dp.optsLen - (p.off + oldLen))) := ⟨_, rfl⟩
  rw [← hdp'] at hr ⊢
  have ht := (hr.toTracked.note (show ({ dp'.write 2 (toBe16 ((n - dsrOptHdrLen) % 65536)) with
    srtOpt := some ((dp'.write 2 (toBe16 ((n - dsrOptHdrLen) % 65536))).ptr p.off) } : DsrPkt).core = _
    from rfl) fun _ => Or.inl).1
  exact ⟨ht, hr.optsLen_eq, hr.iph_eq, hr.payloadLen_eq⟩

def SameRouteLen (mem : ℕ → UInt8) (me : InAddr) (alt : DsrSrt) (dp : DsrPkt) : Prop :=
  ∃ p srt sleft, dp.srtOpt = some p ∧
    salvageSrt mem me alt (oldSrt mem dp p) dp.nxtHop = some (srt, sleft) ∧
    dp.optLength p + 2 = dsrSrtOptLen srt

theorem salvagePkt_eq {mem : ℕ → UInt8} {me : InAddr} {alt : DsrSrt} {dp dp' : DsrPkt}
    (h : salvagePkt mem me alt dp = some dp') : ∃ p srt sleft, dp.srtOpt = some p ∧
      salvageSrt mem me alt (oldSrt mem dp p) dp.nxtHop = some (srt, sleft) ∧
      ∃ dp₁ dp₂ q nxtHop, dp₁ = salvageRewrite mem dp p srt ∧ q = dp₁.ptr p.off ∧
        dp₂ = srtOptSetSleft dp₁ q sleft ∧ dp' = { dp₂ with nxtHop := nxtHop, srt := some srt } := by
  cases hp : dp.srtOpt with
  | none =>
    unfold salvagePkt at h
    rw [hp] at h
    cases h
  | some p =>
    cases hsal : salvageSrt mem me alt (oldSrt mem dp p) dp.nxtHop with
    | none =>
      unfold salvagePkt at h
      simp only [hp, hsal] at h
      cases h
    | some r =>
      obtain ⟨srt, sleft⟩ := r
      obtain ⟨_, dp₁, dp₂, q, h₁, hq, h₂, h₃⟩ := salvagePkt_some hp hsal h
      exact ⟨p, srt, sleft, rfl, hsal, dp₁, dp₂, q, _, h₁, hq, h₂, h₃⟩

theorem salvageRewrite_lenIff (mem : ℕ → UInt8) {dp : DsrPkt} (ht : Tracked dp) (ho : LenOk dp)
    {p : OptPtr} (srt : DsrSrt) (hp : dsrOptHdrLen ≤ p.off)
    (hend : dp.optLength p + 2 ≠ dsrSrtOptLen srt → p.off + (dp.optLength p + 2) ≤ dp.optsLen) :
    LenIff (dp.optLength p + 2 = dsrSrtOptLen srt) (salvageRewrite mem dp p srt) := by
  unfold salvageRewrite
  dsimp only
  split
  · next heq =>
    obtain ⟨ht', hn⟩ := (ht.writeField p 0 (srtOptBytes (srtOptSalv dp p + 1) srt)).note
      (show ({ dp.writeField p 0 (srtOptBytes (srtOptSalv dp p + 1) srt) with
        srtOpt := some p } : DsrPkt).core = _ from rfl) fun _ => Or.inl
    have hs : SameLen dp _ := writeField_sameLen 0 (srtOptBytes (srtOptSalv dp p + 1) srt) hp
    exact ⟨ht', fun _ => (hs.trans hn).lenMod (ho.lenMod ht.toSized), fun _ => heq⟩
  · next hne =>
    have hr := salvageRealloc_resized mem ht (srtOptSalv dp p) srt hp (hend hne)
    refine ⟨hr.toTracked, fun heq => absurd heq hne, fun hl => ?_⟩
    have heq := hr.lenOk ho hl
    have hle := hend hne
    omega

theorem salvageRewrite_gen (mem : ℕ → UInt8) {dp : DsrPkt} {p : OptPtr} {srt : DsrSrt}
    (h : dp.optLength p + 2 ≠ dsrSrtOptLen srt) : (salvageRewrite mem dp p srt).gen = dp.gen + 1 := by
  unfold salvageRewrite salvageRealloc
  dsimp only
  rw [if_neg h]
  dsimp only
  rw [write_gen, write_gen, write_gen, write_gen]
  rfl

theorem salvagePkt_lenIff {mem mem' : ℕ → UInt8} {me h : InAddr} {alt : DsrSrt} {skb : Skb}
    {m dp : DsrPkt} (hok : SkbOk skb) (hm : m = { dsrPktAlloc mem skb with nxtHop := h })
    (hs : salvagePkt mem' me alt m = some dp) (hov : salvageOverrun m dp = false) :
    LenIff (SameRouteLen mem' me alt m) dp := by
  obtain ⟨p, srt, sleft, hp, hsal, dp₁, dp₂, q, a, h₁, hq, h₂, rfl⟩ := salvagePkt_eq hs
  have hproto : skb.iph.protocol = ipprotoDsr := by
    rw [hm] at hp
    exact dsrPktAlloc_srtOpt hp
  have ha : AllocOk mem skb m := by
    rw [hm]
    exact (dsrPktAlloc_dsr mem hproto).with_nxtHop h
  have hptr := ha.parse.srt p hp
  obtain ⟨htm, hsame⟩ := (dsrPktAlloc_tracked mem hproto hok).note
    (show ({ dsrPktAlloc mem skb with nxtHop := h } : DsrPkt).core = _ from rfl) fun _ => Or.inl
  have hom : LenOk m := by
    have ho := dsrPktAlloc_lenOk mem hproto
    rw [hm]
    exact ⟨by rw [hsame.pLen, hsame.optsLen, ho.pLen], by rw [hsame.totLen, hsame.ipLen, ho.totLen]⟩
  rw [← hm] at htm
  have hend : m.optLength p + 2 ≠ dsrSrtOptLen srt → p.off + (m.optLength p + 2) ≤ m.optsLen := by
    intro hne
    have hgen : dp₂.gen ≠ m.gen := by
      rw [h₂, srtOptSetSleft, writeField_gen, h₁, salvageRewrite_gen mem' hne]
      omega
    unfold salvageOverrun at hov
    simp only [hp] at hov
    simpa [hgen] using hov
  have hiff := salvageRewrite_lenIff mem' htm hom srt hptr.off_le hend
  rw [← h₁] at hiff
  have hs₂ : SameLen dp₁ dp₂ := by
    rw [h₂]
    exact writeField_sameLen _ _ (by rw [hq]; exact hptr.off_le)
  have ht₂ : Tracked dp₂ := by
    rw [h₂]
    exact hiff.toTracked.writeField _ _ _
  obtain ⟨ht, hn⟩ := ht₂.note
    (show ({ dp₂ with nxtHop := a, srt := some srt } : DsrPkt).core = _ from rfl) fun _ => Or.inl
  have hsn := hs₂.trans hn
  refine ⟨ht, fun hc => hsn.lenMod (hiff.lenMod ?_), fun hl => ?_⟩
  · obtain ⟨p', srt', sleft', hp', hsal', hlen⟩ := hc
    rw [hp, Option.some_inj] at hp'
    subst hp'
    rw [hsal, Option.some_inj, Prod.mk.injEq] at hsal'
    rw [hlen, hsal'.1]
  · exact ⟨p, srt, sleft, hp, hsal, hiff.of_lenOk (hsn.lenOk hl)⟩

end DsrUu
