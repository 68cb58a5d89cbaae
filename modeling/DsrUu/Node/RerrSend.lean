import DsrUu.Node.Send
import DsrUu.Pkt.Lemmas
import Mathlib.Data.List.TakeWhile

namespace DsrUu

open Bytes

structure Filled (dp : DsrPkt) (bs : List UInt8) (size tail : ℕ) : Prop where
  dh : ∃ t, dp.dh = some { raw := bs ++ t, tail := tail } ∧ (bs ++ t).length = size

theorem Filled.write {dp : DsrPkt} {bs : List UInt8} {size tail : ℕ} (h : Filled dp bs size tail)
    (off : ℕ) (xs : List UInt8) (hoff : off = bs.length) (hfit : (bs ++ xs).length ≤ size) :
    Filled (dp.write off xs) (bs ++ xs) size tail := by
  obtain ⟨t, hdh, hlen⟩ := h.dh
  simp only [List.length_append] at hlen hfit
  refine ⟨t.drop xs.length, ?_, ?_⟩
  · rw [write_dh hdh, hoff, writeAt_append bs (by omega)]
  · simp only [List.length_append, List.length_drop]
    omega

theorem Filled.writeOpts {size tail : ℕ} (os : List (List UInt8)) : ∀ {dp : DsrPkt}
    {bs : List UInt8} {off : ℕ}, Filled dp bs size tail → off = bs.length →
    (bs ++ os.flatten).length ≤ size → Filled (writeOpts dp off os) (bs ++ os.flatten) size tail := by
  induction os with
  | nil =>
    intro dp bs off h _ _
    simpa [DsrUu.writeOpts] using h
  | cons o os ih =>
    intro dp bs off h hoff hfit
    simp only [List.flatten_cons, List.length_append] at hfit
    have hw := h.write off o hoff (by simp; omega)
    have hlen := hfit
    rw [← List.length_append] at hlen
    simpa [DsrUu.writeOpts] using ih hw (by simp [hoff]) (by simp only [List.length_append]; omega)

theorem Filled.area {dp : DsrPkt} {bs : List UInt8} {size : ℕ} (h : Filled dp bs size bs.length) :
    dp.bytesAt 0 dp.optsLen = bs := by
  obtain ⟨t, hdh, _⟩ := h.dh
  rw [optsLen_dh hdh, bytesAt_dh hdh]
  exact readAt_append_left bs t

def rerrOpts (dp : DsrPkt) : List (List UInt8) :=
  dp.rerrOpt.map fun p => dp.fieldsAt p 0 (dp.optLength p + 2)

def rerrSendLen (maxSalvage : ℕ) (srt : DsrSrt) (trigg : DsrPkt) : ℕ :=
  dsrOptHdrLen + dsrSrtOptLen srt + (dsrRerrHdrLen + 4) + dsrAckHdrLen * trigg.ackOpt.length +
    ((oldRerrOpts maxSalvage trigg).map List.length).sum

def rerrSendLens (maxSalvage : ℕ) (srt : DsrSrt) (trigg : DsrPkt) : List Int :=
  (dsrOptHdrLen :: dsrSrtOptLen srt :: (dsrRerrHdrLen + 4) ::
    (oldRerrOpts maxSalvage trigg ++ oldAckOpts trigg).map List.length).scanl
      (fun (len : Int) (n : ℕ) => len - n) (rerrSendLen maxSalvage srt trigg)

structure RerrExact (me dst unreach : InAddr) (maxSalvage : ℕ) (srt : DsrSrt) (trigg : DsrPkt)
    (salv : ℕ) (rerrs : List (List UInt8)) (dp : DsrPkt) : Prop where
  optsLen : dp.optsLen = rerrSendLen maxSalvage srt trigg
  nonneg : ∀ len ∈ rerrSendLens maxSalvage srt trigg, 0 ≤ len
  exhausted : (rerrSendLens maxSalvage srt trigg).getLast? = some 0
  area : dp.bytesAt 0 dp.optsLen =
    optHdrBytes dp.optsLen dsrNoNextHdrType ++ srtOptBytes 0 srt ++
      rerrOptBytes nodeUnreachable me dst unreach salv ++ (rerrs ++ oldAckOpts trigg).flatten

section Lens

variable (ns : List ℕ)

theorem getLast?_lens : ∀ len : Int,
    (ns.scanl (fun (len : Int) (n : ℕ) => len - n) len).getLast? = some (len - ns.sum) := by
  induction ns with
  | nil => simp
  | cons n ns ih =>
    intro len
    have h := ih (len - n)
    rw [List.scanl_cons, List.getLast?_cons, h]
    simp
    omega

theorem le_lens : ∀ {len l : Int},
    l ∈ ns.scanl (fun (len : Int) (n : ℕ) => len - n) len → len - ns.sum ≤ l := by
  induction ns with
  | nil => simp
  | cons n ns ih =>
    intro len l hl
    simp only [List.scanl_cons, List.mem_cons] at hl
    rcases hl with rfl | hl
    · simp only [List.sum_cons]
      omega
    · have h := ih hl
      simp only [List.sum_cons]
      omega

end Lens

section Exact

variable (mem : ℕ → UInt8) (me dst unreach : InAddr) (maxSalvage : ℕ) (srt : DsrSrt) (trigg : DsrPkt)
  (salv : ℕ)

theorem oldAckOpts_lengths : (oldAckOpts trigg).map List.length =
    trigg.ackOpt.map fun p => trigg.optLength p + 2 := by
  simp [oldAckOpts]

theorem rerrSendLens_last : (rerrSendLens maxSalvage srt trigg).getLast? = some
    ((dsrAckHdrLen * trigg.ackOpt.length : ℕ) -
      ((trigg.ackOpt.map fun p => trigg.optLength p + 2).sum : ℕ) : Int) := by
  rw [rerrSendLens, getLast?_lens, rerrSendLen, ← oldAckOpts_lengths]
  simp
  omega

def rerrHead : List UInt8 :=
  optHdrBytes (rerrSendLen maxSalvage srt trigg) dsrNoNextHdrType ++ srtOptBytes 0 srt ++
    rerrOptBytes nodeUnreachable me dst unreach salv

theorem length_rerrHead : (rerrHead me dst unreach maxSalvage srt trigg salv).length =
    dsrOptHdrLen + dsrSrtOptLen srt + (dsrRerrHdrLen + 4) := by
  simp [rerrHead, length_optHdrBytes, length_srtOptBytes, rerrOptBytes, InAddr.bytes, dsrOptHdrLen,
    dsrRerrHdrLen]
  omega

theorem rerrPkt_filled : ∃ dp, rerrPkt mem me dst unreach maxSalvage srt trigg salv =
      some (writeOpts dp (dsrOptHdrLen + dsrSrtOptLen srt + dsrRerrHdrLen + 4)
        (oldRerrOpts maxSalvage trigg ++ oldAckOpts trigg)) ∧
    Filled dp (rerrHead me dst unreach maxSalvage srt trigg salv)
      (rerrSendLen maxSalvage srt trigg + defaultTailroom) (rerrSendLen maxSalvage srt trigg) := by
  obtain ⟨len, hlen⟩ : ∃ len, len = rerrSendLen maxSalvage srt trigg := ⟨_, rfl⟩
  have hge : dsrOptHdrLen + dsrSrtOptLen srt + (dsrRerrHdrLen + 4) ≤ len := by
    rw [hlen, rerrSendLen]
    omega
  obtain ⟨dp₀, hsrc, hdst, hbuilt⟩ : ∃ dp₀ : DsrPkt, dp₀.src = me ∧ dp₀.dst = dst ∧
      dp₀ = dsrPktAllocOpts mem (dsrBuildIp { srt := some srt, src := me, dst := dst
                                              nxtHop := dsrSrtNextHop srt srt.n }
        me dst (ipHdrLen + len) ipprotoDsr ipDefTtl) len := ⟨_, rfl, rfl, rfl⟩
  have h₀ : Filled dp₀ [] (len + defaultTailroom) len := by
    rw [hbuilt]
    exact ⟨_, rfl, by simp⟩
  have hhdr := h₀.write 0 (optHdrBytes len dsrNoNextHdrType) rfl (by
    simp only [List.nil_append, length_optHdrBytes]
    simp only [dsrOptHdrLen] at hge
    omega)
  have hsrt := hhdr.write dsrOptHdrLen (srtOptBytes 0 srt) rfl (by
    simp only [List.nil_append, List.length_append, length_optHdrBytes, length_srtOptBytes]
    simp only [dsrOptHdrLen] at hge
    omega)
  have hrerr := hsrt.write (dsrOptHdrLen + dsrSrtOptLen srt)
    (rerrOptBytes nodeUnreachable me dst unreach salv) (by
      simp [length_optHdrBytes, length_srtOptBytes, dsrOptHdrLen]) (by
    rw [List.nil_append]
    have hl := length_rerrHead me dst unreach maxSalvage srt trigg salv
    rw [rerrHead, ← hlen] at hl
    omega)
  obtain ⟨dp₁, hdp₁⟩ : ∃ dp₁, dp₁ = dp₀.write 0 (optHdrBytes len dsrNoNextHdrType) := ⟨_, rfl⟩
  obtain ⟨dp₂, hdp₂⟩ : ∃ dp₂, dp₂ = dp₁.write dsrOptHdrLen (srtOptBytes 0 srt) := ⟨_, rfl⟩
  rw [← hdp₁, ← hdp₂] at hrerr
  have hsrc₂ : dp₂.src = me := by rw [hdp₂, (write_same _ _ _).src, hdp₁, (write_same _ _ _).src, hsrc]
  have hdst₂ : dp₂.dst = dst := by rw [hdp₂, (write_same _ _ _).dst, hdp₁, (write_same _ _ _).dst, hdst]
  obtain ⟨dp₃, hdp₃⟩ : ∃ dp₃, dp₃ = dp₂.write (dsrOptHdrLen + dsrSrtOptLen srt)
    (rerrOptBytes nodeUnreachable me dst unreach salv) := ⟨_, rfl⟩
  refine ⟨{ dp₃ with srtOpt := some (dp₃.ptr dsrOptHdrLen) }, ?_, ?_⟩
  · have hdef : rerrPkt mem me dst unreach maxSalvage srt trigg salv =
        (dsrOptHdrAdd dp₀ len dsrNoNextHdrType).bind fun dp =>
          (dsrSrtOptAdd dp dsrOptHdrLen (len - dsrOptHdrLen) 0 srt).bind fun dp =>
            (dsrRerrOptAdd dp (dsrOptHdrLen + dsrSrtOptLen srt)
              (len - (dsrOptHdrLen + dsrSrtOptLen srt)) nodeUnreachable dp.src dp.dst unreach
              salv).map fun dp =>
                writeOpts { dp with srtOpt := some (dp.ptr dsrOptHdrLen) }
                  (dsrOptHdrLen + dsrSrtOptLen srt + dsrRerrHdrLen + 4)
                  (oldRerrOpts maxSalvage trigg ++ oldAckOpts trigg) := by
      rw [hbuilt, hlen]
      rfl
    rw [hdef, dsrOptHdrAdd, if_neg (by omega), Option.bind_some, ← hdp₁, dsrSrtOptAdd,
      if_neg (by omega), Option.bind_some, ← hdp₂, dsrRerrOptAdd, if_neg (by omega), hsrc₂, hdst₂,
      ← hdp₃, Option.map_some]
  · rw [← hdp₃] at hrerr
    obtain ⟨t, hdh, hsize⟩ := hrerr.dh
    rw [← hlen]
    exact ⟨t, by simpa [rerrHead, ← hlen] using hdh, by simpa [rerrHead, ← hlen] using hsize⟩

def AcksFit (trigg : DsrPkt) : Prop :=
  (trigg.ackOpt.map fun p => trigg.optLength p + 2).sum = dsrAckHdrLen * trigg.ackOpt.length

theorem rerrSendLens_exhausted_iff :
    (rerrSendLens maxSalvage srt trigg).getLast? = some 0 ↔ AcksFit trigg := by
  rw [rerrSendLens_last, Option.some_inj, AcksFit]
  omega

theorem rerrOpts_carried : rerrOpts trigg = oldRerrOpts maxSalvage trigg ++
    (trigg.rerrOpt.dropWhile fun p => rerrOptSalv trigg p ≤ maxSalvage).map fun p =>
      trigg.fieldsAt p 0 (trigg.optLength p + 2) := by
  rw [rerrOpts, oldRerrOpts, ← List.map_append, List.takeWhile_append_dropWhile]

theorem rerrOpts_carried_iff :
    (rerrOpts trigg).flatten.length = (oldRerrOpts maxSalvage trigg).flatten.length ↔
      ∀ p ∈ trigg.rerrOpt, rerrOptSalv trigg p ≤ maxSalvage := by
  rw [rerrOpts_carried maxSalvage, List.flatten_append, List.length_append, Nat.add_eq_left,
    List.length_eq_zero_iff]
  have hnil := List.dropWhile_eq_nil_iff (p := fun p => rerrOptSalv trigg p ≤ maxSalvage)
    (l := trigg.rerrOpt)
  simp only [decide_eq_true_eq] at hnil
  rw [← hnil]
  constructor
  · intro h
    cases hd : trigg.rerrOpt.dropWhile fun p => rerrOptSalv trigg p ≤ maxSalvage with
    | nil => rfl
    | cons p ps =>
      have hlen := congrArg List.length h
      simp [hd] at hlen
  · intro h
    rw [h]
    rfl

theorem rerrOpts_all (h : ∀ p ∈ trigg.rerrOpt, rerrOptSalv trigg p ≤ maxSalvage) :
    rerrOpts trigg = oldRerrOpts maxSalvage trigg := by
  rw [oldRerrOpts, List.takeWhile_eq_self_iff.mpr (by simpa using h), rerrOpts]

theorem optsLen_writeOpts (os : List (List UInt8)) : ∀ (dp : DsrPkt) (off : ℕ),
    (writeOpts dp off os).optsLen = dp.optsLen := by
  induction os with
  | nil => exact fun _ _ => rfl
  | cons o os ih =>
    intro dp off
    rw [writeOpts, ih, optsLen_write]

theorem rerrPkt_exact_iff : ∃ dp, rerrPkt mem me dst unreach maxSalvage srt trigg salv = some dp ∧
    (RerrExact me dst unreach maxSalvage srt trigg salv (oldRerrOpts maxSalvage trigg) dp ↔
      AcksFit trigg) ∧
    (RerrExact me dst unreach maxSalvage srt trigg salv (rerrOpts trigg) dp ↔
      AcksFit trigg ∧ ∀ p ∈ trigg.rerrOpt, rerrOptSalv trigg p ≤ maxSalvage) := by
  obtain ⟨dp, hsome, hdp⟩ := rerrPkt_filled mem me dst unreach maxSalvage srt trigg salv
  have hopts := optsLen_writeOpts (oldRerrOpts maxSalvage trigg ++ oldAckOpts trigg) dp
    (dsrOptHdrLen + dsrSrtOptLen srt + dsrRerrHdrLen + 4)
  obtain ⟨t, hdh, hsize⟩ := hdp.dh
  rw [optsLen_dh hdh] at hopts
  have hcarried : RerrExact me dst unreach maxSalvage srt trigg salv (oldRerrOpts maxSalvage trigg)
      (writeOpts dp (dsrOptHdrLen + dsrSrtOptLen srt + dsrRerrHdrLen + 4)
        (oldRerrOpts maxSalvage trigg ++ oldAckOpts trigg)) ↔ AcksFit trigg := by
    refine ⟨fun h => (rerrSendLens_exhausted_iff ..).mp h.exhausted, fun h => ?_⟩
    have hlast := (rerrSendLens_exhausted_iff maxSalvage srt trigg).mpr h
    have hfull : (rerrHead me dst unreach maxSalvage srt trigg salv ++
        (oldRerrOpts maxSalvage trigg ++ oldAckOpts trigg).flatten).length =
          rerrSendLen maxSalvage srt trigg := by
      rw [AcksFit, ← oldAckOpts_lengths] at h
      simp only [List.length_append, List.flatten_append, List.length_flatten, length_rerrHead, h,
        rerrSendLen]
      omega
    refine ⟨hopts, fun len hlen => ?_, hlast, ?_⟩
    · rw [rerrSendLens, getLast?_lens, Option.some_inj] at hlast
      have hle := le_lens _ hlen
      omega
    · have hw := hdp.writeOpts (oldRerrOpts maxSalvage trigg ++ oldAckOpts trigg)
        (length_rerrHead ..).symm (by rw [hfull]; exact Nat.le_add_right _ _)
      rw [← hfull] at hw
      refine hw.area.trans ?_
      rw [hopts, rerrHead]
  refine ⟨_, hsome, hcarried, ⟨fun h => ?_, fun h => ?_⟩⟩
  · have hfit := (rerrSendLens_exhausted_iff maxSalvage srt trigg).mp h.exhausted
    refine ⟨hfit, (rerrOpts_carried_iff maxSalvage trigg).mp ?_⟩
    have hlen := congrArg List.length (h.area.symm.trans (hcarried.mpr hfit).area)
    simpa using hlen
  · have hc := hcarried.mpr h.1
    rw [rerrOpts_all maxSalvage trigg h.2]
    exact hc

end Exact

def shortAckSkb : Skb :=
  { hSource := 1
    iph := { ihl := 5, totLen := 38, ttl := 64, protocol := ipprotoDsr
             saddr := ⟨10, 0, 0, 1⟩, daddr := ⟨10, 0, 0, 4⟩ }
    data := [0, 0, 0, 14, 96, 6, 0, 4, 10, 0, 0, 2, 32, 4, 0, 7, 10, 0] }

def shortAckTrigg : DsrPkt := dsrPktAlloc (fun _ => 0) shortAckSkb

def shortAckSrt : DsrSrt :=
  { src := ⟨10, 0, 0, 2⟩, dst := ⟨10, 0, 0, 1⟩, flags := 0, laddrs := 0, addrs := [] }

theorem rerrPkt_not_exact : shortAckTrigg.ackOpt.length = 1 ∧
    ¬ ∃ dp, rerrPkt (fun _ => 0) ⟨10, 0, 0, 2⟩ ⟨10, 0, 0, 1⟩ ⟨10, 0, 0, 4⟩ 15 shortAckSrt
        shortAckTrigg 0 = some dp ∧
      RerrExact ⟨10, 0, 0, 2⟩ ⟨10, 0, 0, 1⟩ ⟨10, 0, 0, 4⟩ 15 shortAckSrt shortAckTrigg 0
        (oldRerrOpts 15 shortAckTrigg) dp := by
  refine ⟨by decide +kernel, fun h => ?_⟩
  obtain ⟨dp, -, hexact⟩ := h
  have hlast : (rerrSendLens 15 shortAckSrt shortAckTrigg).getLast? ≠ some 0 := by decide +kernel
  exact hlast hexact.exhausted

end DsrUu
