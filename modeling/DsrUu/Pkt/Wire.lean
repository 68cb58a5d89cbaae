import DsrUu.Pkt.Length

namespace DsrUu

open Bytes

theorem optParseLoop_done {fuel dsrLen l off : ℕ} (dp : DsrPkt) (h : ¬ (l < dsrLen ∧ dsrLen - l > 2)) :
    optParseLoop fuel dsrLen l off dp = dp := by
  cases fuel with
  | zero => rfl
  | succ fuel => rw [optParseLoop, if_neg h]

theorem optParseLoop_opt {fuel dsrLen l off size : ℕ} {dp : DsrPkt} (hl : l < dsrLen ∧ dsrLen - l > 2)
    (ht : optTypeOf (dp.byteAt off) ≠ .pad1) (hs : (dp.byteAt (off + 1)).toNat + 2 = size) :
    optParseLoop (fuel + 1) dsrLen l off dp =
      optParseLoop fuel dsrLen (l + size) (off + size) (optParseStep dp off) := by
  rw [optParseLoop, if_pos hl, if_neg ht, hs]

theorem optParseStep_srt {dp : DsrPkt} {off : ℕ} (ht : optTypeOf (dp.byteAt off) = .srt)
    (hn : dp.srtOpt = none) : optParseStep dp off = { dp with srtOpt := some (dp.ptr off) } := by
  unfold optParseStep
  simp only [ht, hn, if_true]

theorem optParseStep_ackReq {dp : DsrPkt} {off : ℕ} (ht : optTypeOf (dp.byteAt off) = .ackReq)
    (hn : dp.ackReqOpt = none) : optParseStep dp off = { dp with ackReqOpt := some (dp.ptr off) } := by
  unfold optParseStep
  simp only [ht, hn, if_true]

def AckTail (rest : List UInt8) : Prop := rest = [] ∨ ∃ id, rest = ackReqOptBytes id

structure SrtWire (src dst : InAddr) (as : List InAddr) (salv sleft : ℕ) (skb : Skb) : Prop where
  protocol : skb.iph.protocol = ipprotoDsr
  saddr : skb.iph.saddr = src
  daddr : skb.iph.daddr = dst
  data : ∃ hdr rest payload, skb.data = hdr ++ (srtOptImage salv sleft as ++ (rest ++ payload)) ∧
    hdr.length = dsrOptHdrLen ∧ AckTail rest ∧
    be16 (hdr.getD 2 0) (hdr.getD 3 0) = (srtOptImage salv sleft as).length + rest.length

structure SrtBuf (as : List InAddr) (salv sleft : ℕ) (hdr rest : List UInt8) (dp : DsrPkt) : Prop where
  dh : ∃ junk, dp.dh = some { raw := hdr ++ (srtOptImage salv sleft as ++ (rest ++ junk))
                              tail := dsrOptHdrLen + (4 * as.length + 4) + rest.length }
  hdr_length : hdr.length = dsrOptHdrLen
  pLen : be16 (hdr.getD 2 0) (hdr.getD 3 0) = 4 * as.length + 4 + rest.length
  ack : AckTail rest

namespace SrtBuf

variable {as : List InAddr} {salv sleft : ℕ} {hdr rest : List UInt8} {dp : DsrPkt}

theorem srtAt (h : SrtBuf as salv sleft hdr rest dp) :
    ∃ junk, OptAt dp (dp.ptr dsrOptHdrLen) hdr (srtOptImage salv sleft as) (rest ++ junk) := by
  obtain ⟨junk, hdh⟩ := h.dh
  exact ⟨junk, ⟨_, hdh, rfl⟩, rfl, h.hdr_length.symm⟩

theorem restAt (h : SrtBuf as salv sleft hdr rest dp) : ∃ junk,
    OptAt dp (dp.ptr (dsrOptHdrLen + (4 * as.length + 4))) (hdr ++ srtOptImage salv sleft as) rest
      junk := by
  obtain ⟨junk, hdh⟩ := h.dh
  refine ⟨junk, ⟨_, hdh, by rw [List.append_assoc]⟩, rfl, ?_⟩
  rw [List.length_append, h.hdr_length, length_srtOptImage]
  rfl

theorem optsLen (h : SrtBuf as salv sleft hdr rest dp) :
    dp.optsLen = dsrOptHdrLen + (4 * as.length + 4) + rest.length := by
  obtain ⟨junk, hdh⟩ := h.dh
  exact optsLen_dh hdh

end SrtBuf

theorem AckTail.length_le {rest : List UInt8} (h : AckTail rest) : rest.length ≤ 4 := by
  rcases h with rfl | ⟨id, rfl⟩
  · exact Nat.zero_le _
  · exact Nat.le_refl _

structure Parsed (as : List InAddr) (rest : List UInt8) (dp : DsrPkt) : Prop where
  srtOpt : dp.srtOpt = some (dp.ptr dsrOptHdrLen)
  ackNone : rest = [] → dp.ackReqOpt = none
  ackSome : rest ≠ [] → dp.ackReqOpt = some (dp.ptr (dsrOptHdrLen + (4 * as.length + 4)))
  rrep : dp.rrepOpt = []
  rerr : dp.rerrOpt = []
  ack : dp.ackOpt = []

theorem dsrOptParse_srt {as : List InAddr} {salv sleft : ℕ} {hdr rest : List UInt8} {dp : DsrPkt}
    (h : SrtBuf as salv sleft hdr rest dp) (has : as.length ≤ 63) :
    Parsed as rest (dsrOptParse dp) := by
  obtain ⟨junk, hdh⟩ := h.dh
  unfold dsrOptParse
  obtain ⟨dp₀, hdp₀⟩ : ∃ dp₀ : DsrPkt, dp₀ = { dp with rrepOpt := [], rerrOpt := [], ackOpt := []
                                                       numRreqOpts := 0, srtOpt := none
                                                       ackReqOpt := none } := ⟨_, rfl⟩
  have hb₀ : SrtBuf as salv sleft hdr rest dp₀ := by
    rw [hdp₀]
    exact ⟨h.dh, h.hdr_length, h.pLen, h.ack⟩
  have hlen := hb₀.optsLen
  have hack := h.ack.length_le
  dsimp only
  rw [← hdp₀]
  obtain ⟨junk₁, hat⟩ := hb₀.srtAt
  have himg := length_srtOptImage salv sleft as
  have hbyte : ∀ i, dp₀.byteAt (dsrOptHdrLen + i) = dp₀.fieldAt (dp₀.ptr dsrOptHdrLen) i := by
    intro i
    rw [fieldAt_live hat.live]
    rfl
  have ht : optTypeOf (dp₀.byteAt dsrOptHdrLen) = .srt := by
    have h0 := hbyte 0
    rw [Nat.add_zero] at h0
    rw [h0, hat.fieldAt (by omega)]
    rfl
  have hsz : (dp₀.byteAt (dsrOptHdrLen + 1)).toNat + 2 = 4 * as.length + 4 := by
    rw [hbyte 1]
    rw [srtOptImage_raw] at hat
    have hl := hat.optLength_srt has
    rw [DsrPkt.optLength] at hl
    omega
  obtain ⟨fuel, hfuel⟩ : ∃ fuel, dp₀.optsLen = fuel + 3 :=
    ⟨dp₀.optsLen - 3, by unfold dsrOptHdrLen at hlen; omega⟩
  have hne : optTypeOf (dp₀.byteAt dsrOptHdrLen) ≠ .pad1 := by
    rw [ht]
    decide
  have hgt : dsrOptHdrLen < dp₀.optsLen ∧ dp₀.optsLen - dsrOptHdrLen > 2 := by omega
  have hstep := optParseStep_srt ht (show dp₀.srtOpt = none by rw [hdp₀])
  obtain ⟨dp₁, hdp₁⟩ : ∃ dp₁ : DsrPkt, dp₁ = { dp₀ with srtOpt := some (dp₀.ptr dsrOptHdrLen) } :=
    ⟨_, rfl⟩
  rw [← hdp₁] at hstep
  generalize dp₀.optsLen = len at hlen hfuel hgt ⊢
  nth_rewrite 1 [hfuel]
  rw [optParseLoop_opt hgt hne hsz, hstep]
  rcases h.ack with rfl | ⟨id, rfl⟩
  · rw [optParseLoop_done _ (by simp only [List.length_nil] at hlen; omega), hdp₁, hdp₀]
    exact ⟨rfl, fun _ => rfl, fun hc => absurd rfl hc, rfl, rfl, rfl⟩
  · have hb₁ : SrtBuf as salv sleft hdr (ackReqOptBytes id) dp₁ := by
      rw [hdp₁]
      exact ⟨hb₀.dh, h.hdr_length, h.pLen, h.ack⟩
    obtain ⟨junk₂, hrest⟩ := hb₁.restAt
    have hrl : (ackReqOptBytes id).length = 4 := rfl
    have hbyte₂ : ∀ i, dp₁.byteAt (dsrOptHdrLen + (4 * as.length + 4) + i) =
        dp₁.fieldAt (dp₁.ptr (dsrOptHdrLen + (4 * as.length + 4))) i := by
      intro i
      rw [fieldAt_live hrest.live]
      rfl
    have ht₂ : optTypeOf (dp₁.byteAt (dsrOptHdrLen + (4 * as.length + 4))) = .ackReq := by
      have h0 := hbyte₂ 0
      rw [Nat.add_zero] at h0
      rw [h0, hrest.fieldAt (by omega)]
      rfl
    have hsz₂ : (dp₁.byteAt (dsrOptHdrLen + (4 * as.length + 4) + 1)).toNat + 2 = 4 := by
      rw [hbyte₂ 1, hrest.fieldAt (by omega)]
      rfl
    rw [optParseLoop_opt (by omega) (by rw [ht₂]; decide) hsz₂,
      optParseStep_ackReq ht₂ (by rw [hdp₁, hdp₀]), optParseLoop_done _ (by omega), hdp₁, hdp₀]
    exact ⟨rfl, fun hc => absurd (congrArg List.length hc) (by rw [hrl]; decide), fun _ => rfl,
      rfl, rfl, rfl⟩

theorem SrtWire.alloc {src dst : InAddr} {as : List InAddr} {salv sleft : ℕ} {skb : Skb}
    (h : SrtWire src dst as salv sleft skb) (has : as.length ≤ 63) (mem : ℕ → UInt8) :
    ∃ hdr rest, SrtBuf as salv sleft hdr rest (dsrPktAlloc mem skb) ∧
      Parsed as rest (dsrPktAlloc mem skb) := by
  have ha := dsrPktAlloc_dsr mem h.protocol
  obtain ⟨hdr, rest, payload, hdata, hhdr, hack, hlen⟩ := h.data
  have himg := length_srtOptImage salv sleft as
  rw [himg] at hlen
  have hopts : dsrOptsLenOf skb = dsrOptHdrLen + (4 * as.length + 4) + rest.length := by
    have hget : ∀ i, i < 4 → skb.data.getD i 0 = hdr.getD i 0 := by
      intro i hi
      rw [hdata]
      exact getD_append_left (by rw [hhdr]; exact hi) 0
    rw [dsrOptsLenOf, hget 2 (by omega), hget 3 (by omega), hlen]
    omega
  have hread : readAt skb.data 0 (dsrOptsLenOf skb) = hdr ++ (srtOptImage salv sleft as ++ rest) := by
    have hl : dsrOptsLenOf skb = (hdr ++ (srtOptImage salv sleft as ++ rest)).length := by
      rw [hopts, List.length_append, List.length_append, hhdr, himg]
      omega
    rw [hl, hdata, show hdr ++ (srtOptImage salv sleft as ++ (rest ++ payload)) =
      hdr ++ (srtOptImage salv sleft as ++ rest) ++ payload by simp only [List.append_assoc]]
    exact readAt_append_left _ _
  have hdh := ha.dh
  rw [hread, hopts] at hdh
  have hbuf : ∀ dp : DsrPkt, dp.dh = (dsrPktAlloc mem skb).dh → SrtBuf as salv sleft hdr rest dp := by
    intro dp hd
    refine ⟨⟨(fill mem (dsrOptHdrLen + (4 * as.length + 4) + rest.length + defaultTailroom)).drop
      (dsrOptHdrLen + (4 * as.length + 4) + rest.length), ?_⟩, hhdr, hlen, hack⟩
    rw [hd, hdh]
    simp only [List.append_assoc]
  obtain ⟨dp₀, hdh₀, hgen, _, hso, _, har, hrr, hre, hac⟩ := dsrPktAlloc_parse mem h.protocol
  have hp := dsrOptParse_srt (hbuf dp₀ hdh₀) has
  have hg : (dsrOptParse dp₀).gen = (dsrPktAlloc mem skb).gen := by
    rw [strip_gen (dsrOptParse_spec dp₀).2, hgen, ha.gen]
  have hptr : ∀ off, (dsrOptParse dp₀).ptr off = (dsrPktAlloc mem skb).ptr off := by
    intro off
    rw [DsrPkt.ptr, DsrPkt.ptr, hg]
  refine ⟨hdr, rest, hbuf _ rfl, ?_, ?_, ?_, ?_, ?_, ?_⟩
  · rw [hso, hp.srtOpt, hptr]
  · exact fun hr => har.trans (hp.ackNone hr)
  · intro hr
    rw [har, hp.ackSome hr, hptr]
  · exact hrr.trans hp.rrep
  · exact hre.trans hp.rerr
  · exact hac.trans hp.ack

structure HdrOk (src dst : InAddr) (dp : DsrPkt) : Prop where
  protocol : dp.iph.protocol = ipprotoDsr
  saddr : dp.iph.saddr = src
  daddr : dp.iph.daddr = dst
  skb : ∀ skb, dp.skb = some skb → skb.iph.saddr = src ∧ skb.iph.daddr = dst

theorem SrtBuf.wire {src dst : InAddr} {as : List InAddr} {salv sleft : ℕ} {hdr rest : List UInt8}
    {dp : DsrPkt} (h : SrtBuf as salv sleft hdr rest dp) (hh : HdrOk src dst dp) :
    SrtWire src dst as salv sleft (dsrSkbCreate dp) := by
  obtain ⟨junk, hdh⟩ := h.dh
  have himg := length_srtOptImage salv sleft as
  have hhdr := h.hdr_length
  have hbytes : dp.bytesAt 0 dp.optsLen = hdr ++ (srtOptImage salv sleft as ++ rest) := by
    have hl : dp.optsLen = (hdr ++ (srtOptImage salv sleft as ++ rest)).length := by
      rw [h.optsLen, List.length_append, List.length_append, hhdr, himg]
      omega
    rw [hl, bytesAt_dh hdh]
    dsimp only
    rw [show hdr ++ (srtOptImage salv sleft as ++ (rest ++ junk)) =
      hdr ++ (srtOptImage salv sleft as ++ rest) ++ junk by simp only [List.append_assoc]]
    exact readAt_append_left _ _
  refine ⟨hh.protocol, hh.saddr, hh.daddr, hdr, rest,
    if dp.payloadLen ≠ 0 then readAt dp.payload 0 dp.payloadLen.toNat else [], ?_, hhdr, h.ack, ?_⟩
  · rw [dsrSkbCreate, hbytes]
    simp only [List.append_assoc]
  · rw [himg]
    exact h.pLen

theorem HdrOk.write {src dst : InAddr} {dp : DsrPkt} (h : HdrOk src dst dp) (off : ℕ)
    (xs : List UInt8) : HdrOk src dst (dp.write off xs) := by
  have hw := write_same dp off xs
  exact ⟨by rw [hw.iph, h.protocol], by rw [hw.iph, h.saddr], by rw [hw.iph, h.daddr],
    by rw [hw.skb_eq]; exact h.skb⟩

theorem HdrOk.writeField {src dst : InAddr} {dp : DsrPkt} (h : HdrOk src dst dp) (p : OptPtr)
    (i : ℕ) (xs : List UInt8) : HdrOk src dst (dp.writeField p i xs) := by
  unfold DsrPkt.writeField
  split
  · exact h.write _ _
  · exact h

theorem HdrOk.dsrBuildIp {src dst : InAddr} {dp : DsrPkt} (tot ttl : ℕ)
    (hskb : ∀ skb, dp.skb = some skb → skb.iph.saddr = src ∧ skb.iph.daddr = dst) :
    HdrOk src dst (dsrBuildIp dp src dst tot ipprotoDsr ttl) := by
  cases hs : dp.skb with
  | none =>
    have hip : (DsrUu.dsrBuildIp dp src dst tot ipprotoDsr ttl).iph =
        { ihl := 5, totLen := tot % 65536, ttl := (if ttl = 0 then ipDefTtl else ttl) % 256
          protocol := ipprotoDsr, saddr := src, daddr := dst } := by
      rw [iph_dsrBuildIp, DsrUu.dsrBuildIp, hs]
    exact ⟨by rw [hip], by rw [hip], by rw [hip], hskb⟩
  | some skb =>
    have hip := iph_dsrBuildIp_skb hs src dst tot ipprotoDsr ttl
    obtain ⟨h₁, h₂⟩ := hskb skb hs
    exact ⟨by rw [hip], by rw [hip, ← h₁], by rw [hip, ← h₂], hskb⟩

namespace SrtBuf

variable {as : List InAddr} {salv sleft : ℕ} {hdr rest : List UInt8} {dp : DsrPkt}

theorem pLen_eq (h : SrtBuf as salv sleft hdr rest dp) : dp.pLen = 4 * as.length + 4 + rest.length := by
  obtain ⟨junk, hat⟩ := h.srtAt
  have hhdr := h.hdr_length
  unfold dsrOptHdrLen at hhdr
  rw [DsrPkt.pLen, hat.byteAt_pre (by omega), hat.byteAt_pre (by omega), h.pLen]

theorem of_optAt {dp' : DsrPkt} {p : OptPtr} {sleft' : ℕ} {junk : List UInt8}
    (h : SrtBuf as salv sleft hdr rest dp)
    (hat : OptAt dp' p hdr (srtOptImage salv sleft' as) (rest ++ junk))
    (hl : dp'.optsLen = dp.optsLen) : SrtBuf as salv sleft' hdr rest dp' := by
  obtain ⟨b, hb, hr⟩ := hat.dh
  refine ⟨⟨junk, ?_⟩, h.hdr_length, h.pLen, h.ack⟩
  rw [hb, ← hr, ← h.optsLen, ← hl, optsLen_dh hb]

theorem setSleft (h : SrtBuf as salv sleft hdr rest dp) (sleft' : ℕ) :
    SrtBuf as salv sleft' hdr rest (srtOptSetSleft dp (dp.ptr dsrOptHdrLen) sleft') := by
  obtain ⟨junk, hat⟩ := h.srtAt
  exact h.of_optAt (hat.srtOptSetSleft sleft') (optsLen_writeField _ _ _ _)

theorem overwriteAck (h : SrtBuf as salv sleft hdr rest dp) (hr : rest ≠ []) (id : ℕ) :
    SrtBuf as salv sleft hdr (ackReqOptBytes id)
      (dp.writeField (dp.ptr (dsrOptHdrLen + (4 * as.length + 4))) 0 (ackReqOptBytes id)) := by
  obtain ⟨junk, hat⟩ := h.restAt
  have hl : (ackReqOptBytes id).length = rest.length := by
    rcases h.ack with rfl | ⟨id', rfl⟩
    · exact absurd rfl hr
    · rfl
  have hw := hat.writeField (show 0 + (ackReqOptBytes id).length ≤ rest.length by omega)
  rw [writeAt_full hl] at hw
  obtain ⟨b, hb, hraw⟩ := hw.dh
  have ho := optsLen_writeField dp (dp.ptr (dsrOptHdrLen + (4 * as.length + 4))) 0 (ackReqOptBytes id)
  rw [optsLen_dh hb, h.optsLen] at ho
  refine ⟨⟨junk, ?_⟩, h.hdr_length, ?_, Or.inr ⟨id, rfl⟩⟩
  · rw [hb, hl, ← ho, ← List.append_assoc, ← hraw]
  · rw [hl, h.pLen]

end SrtBuf

theorem expand_raw {dp dp' : DsrPkt} {b : OptBuf} {mem : ℕ → UInt8} {len off : ℕ} {opts junk : List UInt8}
    (hb : dp.dh = some b) (hraw : b.raw = opts ++ junk) (hl : opts.length = b.tail)
    (h : dsrPktAllocOptsExpand mem dp len = some (dp', off)) : off = b.tail ∧
      (∃ junk', dp'.dh = some { raw := opts ++ junk', tail := b.tail + len } ∧ len ≤ junk'.length) ∧
      dp'.iph = dp.iph ∧ dp'.skb = dp.skb ∧ dp'.src = dp.src ∧ dp'.dst = dp.dst := by
  unfold dsrPktAllocOptsExpand at h
  rw [hb] at h
  dsimp only at h
  split at h
  · next hroom =>
    cases h
    have htr : dp.tailroom = b.raw.length - b.tail := by rw [DsrPkt.tailroom, hb]
    rw [htr, hraw, List.length_append] at hroom
    exact ⟨rfl, ⟨junk, by rw [hraw], by omega⟩, rfl, rfl, rfl, rfl⟩
  · cases h
    have hs := write_same (dsrPktAllocOpts mem dp (b.tail + len)) 0 (b.raw.take b.tail)
    have htake : b.raw.take b.tail = opts := by
      rw [hraw, ← hl, List.take_left]
    refine ⟨rfl, ⟨(fill mem (b.tail + len + defaultTailroom)).drop opts.length, ?_, ?_⟩, hs.iph,
      hs.skb_eq, hs.src, hs.dst⟩
    · rw [write_dh rfl, htake]
      dsimp only
      rw [writeAt_zero (by rw [length_fill]; omega)]
    · rw [List.length_drop, length_fill]
      omega

structure AckPtr (as : List InAddr) (rest : List UInt8) (dp : DsrPkt) : Prop where
  none : rest = [] → ∀ p, dp.ackReqOpt = some p → dp.live p = false
  some : rest ≠ [] → dp.ackReqOpt = some (dp.ptr (dsrOptHdrLen + (4 * as.length + 4)))

theorem be16_optHdrBytes {len prot : ℕ} (h : len - dsrOptHdrLen < 65536) :
    be16 ((optHdrBytes len prot).getD 2 0) ((optHdrBytes len prot).getD 3 0) = len - dsrOptHdrLen := by
  have hm : (len - dsrOptHdrLen) % 65536 = len - dsrOptHdrLen := Nat.mod_eq_of_lt h
  rw [optHdrBytes, hm]
  exact be16_toBe16 _ h

theorem SrtBuf.appendAck {src dst : InAddr} {as : List InAddr} {salv sleft : ℕ}
    {hdr : List UInt8} {dp : DsrPkt} (h : SrtBuf as salv sleft hdr [] dp) (has : as.length ≤ 63)
    (hh : HdrOk src dst dp) (hsrc : dp.src = src) (hdst : dp.dst = dst)
    (hack : dp.ackReqOpt = none) (mem : ℕ → UInt8) (id : ℕ) : ∃ hdr',
    SrtBuf as salv sleft hdr' (ackReqOptBytes id) (dsrAckReqOptAdd mem dp id) ∧
      HdrOk src dst (dsrAckReqOptAdd mem dp id) := by
  obtain ⟨junk, hdh⟩ := h.dh
  have hhdr := h.hdr_length
  have himg := length_srtOptImage salv sleft as
  have hlen := h.optsLen
  have hpl := h.pLen_eq
  rw [List.length_nil, Nat.add_zero] at hlen hpl
  have hol : (hdr ++ srtOptImage salv sleft as).length = dp.optsLen := by
    rw [List.length_append, hhdr, himg, hlen]
  unfold DsrUu.dsrAckReqOptAdd
  rw [hack]
  dsimp only
  rw [if_neg (by rw [hlen]; unfold dsrOptHdrLen; omega)]
  cases he : dsrPktAllocOptsExpand mem dp dsrAckReqHdrLen with
  | none =>
    unfold dsrPktAllocOptsExpand at he
    rw [hdh] at he
    dsimp only at he
    split at he <;> cases he
  | some r =>
    obtain ⟨dp₁, off⟩ := r
    have hb := optsLen_dh hdh
    obtain ⟨rfl, ⟨junk', hdh₁, hj⟩, hiph, hskb, hs₁, hd₁⟩ := expand_raw hdh
      (show _ = (hdr ++ srtOptImage salv sleft as) ++ junk by
        rw [List.nil_append, List.append_assoc]) (by rw [hol, hb]) he
    dsimp only
    obtain ⟨dp₂, hdp₂⟩ : ∃ dp₂, dp₂ = dsrBuildIp dp₁ dp₁.src dp₁.dst
      ((if dp.nh = .null then 0 else dp.iph.totLen) + dsrAckReqHdrLen) ipprotoDsr
      (if dp.nh = .null then ipDefTtl else dp.iph.ttl) := ⟨_, rfl⟩
    rw [← hdp₂]
    have hdh₂ : dp₂.dh = dp₁.dh := by rw [hdp₂]; rfl
    have hpl₂ : dp₂.pLen = 4 * as.length + 4 := by
      have hget : ∀ i, i < 4 → dp₂.byteAt i = dp.byteAt i := by
        intro i hi
        rw [byteAt_dh (hdh₂.trans hdh₁), byteAt_dh hdh]
        dsimp only
        rw [List.append_assoc, getD_append_left (by rw [hhdr]; exact hi),
          getD_append_left (by rw [hhdr]; exact hi)]
      rw [DsrPkt.pLen, hget 2 (by omega), hget 3 (by omega)]
      exact hpl
    have hh₂ : HdrOk src dst dp₂ := by
      rw [hdp₂, hs₁, hd₁, hsrc, hdst]
      exact HdrOk.dsrBuildIp _ _ (by rw [hskb]; exact hh.skb)
    refine ⟨optHdrBytes (dsrOptHdrLen + dp₂.pLen + dsrAckReqHdrLen) dp₂.nextHdr, ?_,
      (hh₂.write _ _).write _ _⟩
    refine ⟨⟨junk'.drop 4, ?_⟩, rfl, ?_, Or.inr ⟨id, rfl⟩⟩
    · rw [write_dh (hdh₂.trans hdh₁), write_dh rfl]
      dsimp only
      have h1 : writeAt (hdr ++ srtOptImage salv sleft as ++ junk') 0
          (optHdrBytes (dsrOptHdrLen + dp₂.pLen + dsrAckReqHdrLen) dp₂.nextHdr) =
          optHdrBytes (dsrOptHdrLen + dp₂.pLen + dsrAckReqHdrLen) dp₂.nextHdr ++
            srtOptImage salv sleft as ++ junk' := by
        unfold dsrOptHdrLen at hhdr
        rw [writeAt_zero (by rw [length_optHdrBytes]; simp only [List.length_append]; omega),
          length_optHdrBytes, List.append_assoc, ← hhdr, List.drop_left, List.append_assoc]
      have hoff : dsrOptHdrLen + (4 * as.length + 4) + ([] : List UInt8).length =
          (optHdrBytes (dsrOptHdrLen + dp₂.pLen + dsrAckReqHdrLen) dp₂.nextHdr ++
            srtOptImage salv sleft as).length := by
        rw [List.length_append, length_optHdrBytes, himg]
        rfl
      rw [h1, hoff, writeAt_append _ (show (ackReqOptBytes id).length ≤ junk'.length from hj), ← hoff]
      simp only [List.append_assoc]
      rfl
    · rw [be16_optHdrBytes (by rw [hpl₂]; unfold dsrOptHdrLen dsrAckReqHdrLen; omega), hpl₂]
      unfold dsrOptHdrLen dsrAckReqHdrLen
      have hl : (ackReqOptBytes id).length = 4 := rfl
      omega

theorem SrtBuf.addAck {src dst : InAddr} {as : List InAddr} {salv sleft : ℕ}
    {hdr rest : List UInt8} {dp : DsrPkt} (h : SrtBuf as salv sleft hdr rest dp)
    (has : as.length ≤ 63) (hh : HdrOk src dst dp) (hsrc : dp.src = src) (hdst : dp.dst = dst)
    (hack : AckPtr as rest dp) (mem : ℕ → UInt8) (id : ℕ) : ∃ hdr' rest',
    SrtBuf as salv sleft hdr' rest' (dsrAckReqOptAdd mem dp id) ∧
      HdrOk src dst (dsrAckReqOptAdd mem dp id) := by
  by_cases hr : rest = []
  · subst hr
    cases hp : dp.ackReqOpt with
    | none =>
      obtain ⟨hdr', hb⟩ := h.appendAck has hh hsrc hdst hp mem id
      exact ⟨hdr', _, hb⟩
    | some p =>
      have heq : dsrAckReqOptAdd mem dp id = dp := by
        rw [DsrUu.dsrAckReqOptAdd, hp]
        dsimp only
        rw [DsrPkt.writeField, if_neg (by rw [hack.none rfl p hp]; exact Bool.false_ne_true)]
      rw [heq]
      exact ⟨hdr, [], h, hh⟩
  · have heq : dsrAckReqOptAdd mem dp id =
        dp.writeField (dp.ptr (dsrOptHdrLen + (4 * as.length + 4))) 0 (ackReqOptBytes id) := by
      rw [DsrUu.dsrAckReqOptAdd, hack.some hr]
    rw [heq]
    exact ⟨hdr, _, h.overwriteAck hr id, hh.writeField _ _ _⟩

end DsrUu
