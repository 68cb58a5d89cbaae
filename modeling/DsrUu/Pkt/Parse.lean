import DsrUu.Pkt.Lemmas

namespace DsrUu

open Bytes

def DsrPkt.strip (dp : DsrPkt) : DsrPkt :=
  { dp with numRreqOpts := 0, srtOpt := none, rreqOpt := none, rrepOpt := [], rerrOpt := []
            ackOpt := [], ackReqOpt := none }

theorem optParseStep_strip (dp : DsrPkt) (off : ℕ) : (optParseStep dp off).strip = dp.strip := by
  unfold optParseStep
  dsimp only
  split
  all_goals first | rfl | (split <;> rfl)

theorem strip_dh {dp dp' : DsrPkt} (h : dp'.strip = dp.strip) : dp'.dh = dp.dh := by
  have hd := congrArg DsrPkt.dh h
  exact hd

theorem strip_gen {dp dp' : DsrPkt} (h : dp'.strip = dp.strip) : dp'.gen = dp.gen := by
  have hg := congrArg DsrPkt.gen h
  exact hg

theorem strip_byteAt {dp dp' : DsrPkt} (h : dp'.strip = dp.strip) (off : ℕ) :
    dp'.byteAt off = dp.byteAt off := by
  unfold DsrPkt.byteAt
  rw [strip_dh h]

structure PtrOk (gen : ℕ) (byte : ℕ → UInt8) (t : OptType) (p : OptPtr) : Prop where
  gen_eq : p.gen = gen
  off_le : dsrOptHdrLen ≤ p.off
  type_eq : optTypeOf (byte p.off) = t

structure ParseOk (dp : DsrPkt) : Prop where
  srt : ∀ p, dp.srtOpt = some p → PtrOk dp.gen dp.byteAt .srt p
  ackReq : ∀ p, dp.ackReqOpt = some p → PtrOk dp.gen dp.byteAt .ackReq p
  rrep : ∀ p ∈ dp.rrepOpt, PtrOk dp.gen dp.byteAt .rrep p
  rerr : ∀ p ∈ dp.rerrOpt, PtrOk dp.gen dp.byteAt .rerr p
  ack : ∀ p ∈ dp.ackOpt, PtrOk dp.gen dp.byteAt .ack p

theorem forall_mem_snoc {α : Type} {P : α → Prop} {xs : List α} {x : α} (h : ∀ y ∈ xs, P y)
    (hx : P x) : ∀ y ∈ xs ++ [x], P y := by
  intro y hy
  rcases List.mem_append.mp hy with hy | hy
  · exact h y hy
  · rw [List.mem_singleton.mp hy]
    exact hx

theorem optParseStep_ok {dp : DsrPkt} (h : ParseOk dp) {off : ℕ} (hoff : dsrOptHdrLen ≤ off) :
    ParseOk (optParseStep dp off) := by
  have hself : ∀ t, optTypeOf (dp.byteAt off) = t → PtrOk dp.gen dp.byteAt t (dp.ptr off) :=
    fun t ht => ⟨rfl, hoff, ht⟩
  unfold optParseStep
  dsimp only
  split
  · split
    · exact ⟨h.srt, h.ackReq, h.rrep, h.rerr, h.ack⟩
    · exact h
  · next ht =>
    split
    · exact ⟨h.srt, h.ackReq, forall_mem_snoc h.rrep (hself _ ht), h.rerr, h.ack⟩
    · exact h
  · next ht =>
    split
    · exact ⟨h.srt, h.ackReq, h.rrep, forall_mem_snoc h.rerr (hself _ ht), h.ack⟩
    · exact h
  · next ht =>
    split
    · exact ⟨h.srt, h.ackReq, h.rrep, h.rerr, forall_mem_snoc h.ack (hself _ ht)⟩
    · exact h
  · next ht =>
    split
    · refine ⟨fun p hp => ?_, h.ackReq, h.rrep, h.rerr, h.ack⟩
      cases hp
      exact hself _ ht
    · exact h
  · next ht =>
    split
    · refine ⟨h.srt, fun p hp => ?_, h.rrep, h.rerr, h.ack⟩
      cases hp
      exact hself _ ht
    · exact h
  · exact h

theorem optParseLoop_spec (fuel : ℕ) : ∀ (dsrLen l off : ℕ) (dp : DsrPkt), ParseOk dp →
    dsrOptHdrLen ≤ off → ParseOk (optParseLoop fuel dsrLen l off dp) ∧
      (optParseLoop fuel dsrLen l off dp).strip = dp.strip := by
  induction fuel with
  | zero =>
    intro dsrLen l off dp h _
    exact ⟨h, rfl⟩
  | succ fuel ih =>
    intro dsrLen l off dp h hoff
    unfold optParseLoop
    split
    · split
      · exact ih dsrLen (l + 1) (off + 2) dp h (by omega)
      · obtain ⟨h₁, h₂⟩ := ih dsrLen (l + ((dp.byteAt (off + 1)).toNat + 2))
          (off + ((dp.byteAt (off + 1)).toNat + 2)) _ (optParseStep_ok h hoff) (by omega)
        exact ⟨h₁, h₂.trans (optParseStep_strip dp off)⟩
    · exact ⟨h, rfl⟩

theorem dsrOptParse_spec (dp : DsrPkt) :
    ParseOk (dsrOptParse dp) ∧ (dsrOptParse dp).strip = dp.strip := by
  unfold dsrOptParse
  dsimp only
  refine optParseLoop_spec _ _ _ _ _ ⟨?_, ?_, ?_, ?_, ?_⟩ (Nat.le_refl _) <;> simp

def dsrOptsLenOf (skb : Skb) : ℕ := be16 (skb.data.getD 2 0) (skb.data.getD 3 0) + dsrOptHdrLen

structure AllocOk (mem : ℕ → UInt8) (skb : Skb) (dp : DsrPkt) : Prop where
  parse : ParseOk dp
  dh : dp.dh = some { raw := readAt skb.data 0 (dsrOptsLenOf skb) ++
                        (fill mem (dsrOptsLenOf skb + defaultTailroom)).drop (dsrOptsLenOf skb)
                      tail := dsrOptsLenOf skb }
  gen : dp.gen = 1
  src : dp.src = skb.iph.saddr
  dst : dp.dst = skb.iph.daddr
  nh : dp.nh = .skb
  skb_eq : dp.skb = some skb
  hSource : dp.hSource = skb.hSource
  promisc : dp.promiscRecv = false
  srt : dp.srt = none
  numRreq : dp.numRreqOpts = 0
  payloadLen : dp.payloadLen = (skb.iph.totLen : Int) - 4 * skb.iph.ihl - dsrOptsLenOf skb
  requestAck : dp.requestAck = decide (dp.payloadLen ≠ 0)
  payload : dp.payload = readAt skb.data (dsrOptsLenOf skb) dp.payloadLen.toNat

theorem optParseStep_numRreq (dp : DsrPkt) (off : ℕ) :
    (optParseStep dp off).numRreqOpts = dp.numRreqOpts := by
  unfold optParseStep
  dsimp only
  split
  all_goals first | rfl | (split <;> rfl)

theorem optParseLoop_numRreq (fuel : ℕ) : ∀ (dsrLen l off : ℕ) (dp : DsrPkt),
    (optParseLoop fuel dsrLen l off dp).numRreqOpts = dp.numRreqOpts := by
  induction fuel with
  | zero => exact fun _ _ _ _ => rfl
  | succ fuel ih =>
    intro dsrLen l off dp
    unfold optParseLoop
    split
    · split
      · exact ih dsrLen (l + 1) (off + 2) dp
      · exact (ih _ _ _ _).trans (optParseStep_numRreq dp off)
    · rfl

theorem dsrPktAlloc_dsr (mem : ℕ → UInt8) {skb : Skb} (h : skb.iph.protocol = ipprotoDsr) :
    AllocOk mem skb (dsrPktAlloc mem skb) := by
  have hp : decide (skb.iph.protocol = ipprotoDsr) = true := decide_eq_true h
  unfold dsrPktAlloc
  simp only [hp, if_true]
  generalize hdp : (dsrPktAllocOpts mem
    { skb := some skb, hSource := skb.hSource, nh := .skb, src := skb.iph.saddr
      dst := skb.iph.daddr } (be16 (skb.data.getD 2 0) (skb.data.getD 3 0) + dsrOptHdrLen)).write 0
      (readAt skb.data 0 (be16 (skb.data.getD 2 0) (skb.data.getD 3 0) + dsrOptHdrLen)) = dp
  obtain ⟨hok, hs⟩ := dsrOptParse_spec dp
  have hnum : (dsrOptParse dp).numRreqOpts = 0 := optParseLoop_numRreq _ _ _ _ _
  have hdh : dp.dh = some { raw := readAt skb.data 0 (dsrOptsLenOf skb) ++
      (fill mem (dsrOptsLenOf skb + defaultTailroom)).drop (dsrOptsLenOf skb)
                            tail := dsrOptsLenOf skb } := by
    rw [← hdp, dsrPktAllocOpts, write_dh rfl]
    dsimp only
    rw [writeAt_zero (by simp), length_readAt]
    rfl
  refine ⟨⟨hok.srt, hok.ackReq, hok.rrep, hok.rerr, hok.ack⟩, ?_, ?_, ?_, ?_, ?_, ?_, ?_, ?_, ?_, hnum,
    rfl, rfl, rfl⟩
  · exact (strip_dh hs).trans hdh
  · have he := strip_gen hs
    rw [← hdp] at he ⊢
    exact he
  · have he := congrArg DsrPkt.src hs
    rw [← hdp] at he ⊢
    exact he
  · have he := congrArg DsrPkt.dst hs
    rw [← hdp] at he ⊢
    exact he
  · have he := congrArg DsrPkt.nh hs
    rw [← hdp] at he ⊢
    exact he
  · have he := congrArg DsrPkt.skb hs
    rw [← hdp] at he ⊢
    exact he
  · have he := congrArg DsrPkt.hSource hs
    rw [← hdp] at he ⊢
    exact he
  · have he := congrArg DsrPkt.promiscRecv hs
    rw [← hdp] at he ⊢
    exact he
  · have he := congrArg DsrPkt.srt hs
    rw [← hdp] at he ⊢
    exact he

theorem dsrPktAlloc_parse (mem : ℕ → UInt8) {skb : Skb} (h : skb.iph.protocol = ipprotoDsr) :
    ∃ dp₀ : DsrPkt, dp₀.dh = (dsrPktAlloc mem skb).dh ∧ dp₀.gen = 1 ∧ dp₀.rreqOpt = none ∧
      (dsrPktAlloc mem skb).srtOpt = (dsrOptParse dp₀).srtOpt ∧
      (dsrPktAlloc mem skb).rreqOpt = (dsrOptParse dp₀).rreqOpt ∧
      (dsrPktAlloc mem skb).ackReqOpt = (dsrOptParse dp₀).ackReqOpt ∧
      (dsrPktAlloc mem skb).rrepOpt = (dsrOptParse dp₀).rrepOpt ∧
      (dsrPktAlloc mem skb).rerrOpt = (dsrOptParse dp₀).rerrOpt ∧
      (dsrPktAlloc mem skb).ackOpt = (dsrOptParse dp₀).ackOpt := by
  have ha := dsrPktAlloc_dsr mem h
  refine ⟨(dsrPktAllocOpts mem { skb := some skb, hSource := skb.hSource, nh := .skb
                                 src := skb.iph.saddr, dst := skb.iph.daddr }
    (dsrOptsLenOf skb)).write 0 (readAt skb.data 0 (dsrOptsLenOf skb)), ?_, ?_⟩
  · rw [ha.dh, dsrPktAllocOpts, write_dh rfl]
    dsimp only
    rw [writeAt_zero (by simp), length_readAt]
  · unfold dsrPktAlloc
    simp only [decide_eq_true h, if_true]
    exact ⟨rfl, rfl, rfl, rfl, rfl, rfl, rfl, rfl⟩

end DsrUu
