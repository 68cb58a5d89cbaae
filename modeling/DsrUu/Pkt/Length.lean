import DsrUu.Pkt.Parse

namespace DsrUu

open Bytes

def DsrPkt.ipLen (dp : DsrPkt) : Int := 4 * dp.iph.ihl + dp.optsLen + dp.payloadLen

structure LenOk (dp : DsrPkt) : Prop where
  pLen : dp.pLen + dsrOptHdrLen = dp.optsLen
  totLen : (dp.iph.totLen : Int) = dp.ipLen

structure Fits (dp : DsrPkt) : Prop where
  opts : dp.optsLen < 65536 + dsrOptHdrLen
  packet : dp.ipLen < 65536

structure LenMod (dp : DsrPkt) : Prop where
  pLen : dp.pLen = (dp.optsLen - dsrOptHdrLen) % 65536
  totLen : (dp.iph.totLen : Int) = dp.ipLen % 65536

structure Sized (dp : DsrPkt) : Prop where
  dh : ∃ b, dp.dh = some b ∧ dsrOptHdrLen ≤ b.tail ∧ b.tail ≤ b.raw.length
  nh : dp.nh ≠ .null
  ihl : dp.iph.ihl = match dp.skb with
    | some skb => skb.iph.ihl
    | none => 5
  totLen : dp.iph.totLen < 65536
  payload : 0 ≤ dp.payloadLen
  ackReq : ∀ p, dp.ackReqOpt = some p → dsrOptHdrLen ≤ p.off

theorem pLen_lt (dp : DsrPkt) : dp.pLen < 65536 := by
  have h2 := (dp.byteAt 2).toNat_lt
  have h3 := (dp.byteAt 3).toNat_lt
  unfold DsrPkt.pLen be16
  omega

theorem Sized.optsLen_ge {dp : DsrPkt} (h : Sized dp) : dsrOptHdrLen ≤ dp.optsLen := by
  obtain ⟨b, hb, hle, _⟩ := h.dh
  rw [optsLen_dh hb]
  exact hle

theorem Sized.ipLen_nonneg {dp : DsrPkt} (h : Sized dp) : 0 ≤ dp.ipLen := by
  have hp := h.payload
  unfold DsrPkt.ipLen
  omega

theorem LenOk.fits {dp : DsrPkt} (h : LenOk dp) (hs : Sized dp) : Fits dp := by
  have hp := pLen_lt dp
  have ht := hs.totLen
  have h₁ := h.pLen
  have h₂ := h.totLen
  unfold dsrOptHdrLen at h₁
  refine ⟨?_, ?_⟩
  · unfold dsrOptHdrLen
    omega
  · omega

theorem LenMod.lenOk {dp : DsrPkt} (h : LenMod dp) (hs : Sized dp) (hf : Fits dp) : LenOk dp := by
  have hge := hs.optsLen_ge
  have hnn := hs.ipLen_nonneg
  have h₁ := hf.opts
  have h₂ := hf.packet
  unfold dsrOptHdrLen at hge h₁
  refine ⟨?_, ?_⟩
  · rw [h.pLen]
    unfold dsrOptHdrLen
    omega
  · rw [h.totLen]
    omega

theorem pLen_congr {dp dp' : DsrPkt} (h₂ : dp'.byteAt 2 = dp.byteAt 2)
    (h₃ : dp'.byteAt 3 = dp.byteAt 3) : dp'.pLen = dp.pLen := by
  rw [DsrPkt.pLen, DsrPkt.pLen, h₂, h₃]

theorem byteAt_write_before {dp : DsrPkt} {off i : ℕ} (xs : List UInt8) (h : i < off) :
    (dp.write off xs).byteAt i = dp.byteAt i := by
  cases hb : dp.dh with
  | none => rw [DsrPkt.write, hb]
  | some b =>
    rw [write_dh hb, byteAt_dh hb, byteAt_dh rfl]
    exact getD_writeAt_before h 0

theorem pLen_write {dp : DsrPkt} {off : ℕ} (xs : List UInt8) (h : dsrOptHdrLen ≤ off) :
    (dp.write off xs).pLen = dp.pLen := by
  unfold dsrOptHdrLen at h
  exact pLen_congr (byteAt_write_before xs (by omega)) (byteAt_write_before xs (by omega))

theorem pLen_writeField {dp : DsrPkt} {p : OptPtr} (i : ℕ) (xs : List UInt8)
    (h : dsrOptHdrLen ≤ p.off) : (dp.writeField p i xs).pLen = dp.pLen := by
  unfold DsrPkt.writeField
  split
  · exact pLen_write xs (Nat.le_trans h (Nat.le_add_right _ _))
  · rfl

theorem pLen_write_be16 {dp : DsrPkt} {b : OptBuf} (hb : dp.dh = some b) (hl : 4 ≤ b.raw.length)
    (n : ℕ) : (dp.write 2 (toBe16 (n % 65536))).pLen = n % 65536 := by
  have hn : n % 65536 < 65536 := Nat.mod_lt _ (by decide)
  rw [write_dh hb, DsrPkt.pLen, byteAt_dh rfl, byteAt_dh rfl]
  dsimp only
  rw [getD_writeAt_inside (i := 0) (by simp) (by simpa using hl),
    getD_writeAt_inside (i := 1) (by simp) (by simpa using hl), be16_toBe16 _ hn]

theorem pLen_write_hdr {dp : DsrPkt} {b : OptBuf} (hb : dp.dh = some b) (hl : 4 ≤ b.raw.length)
    (len prot : ℕ) : (dp.write 0 (optHdrBytes len prot)).pLen = (len - dsrOptHdrLen) % 65536 := by
  have hn : (len - dsrOptHdrLen) % 65536 < 65536 := Nat.mod_lt _ (by decide)
  rw [write_dh hb, DsrPkt.pLen, byteAt_dh rfl, byteAt_dh rfl]
  dsimp only
  have hget : ∀ i, i < 4 → (writeAt b.raw 0 (optHdrBytes len prot)).getD i 0 =
      (optHdrBytes len prot).getD i 0 := by
    intro i hi
    have hin : (writeAt b.raw 0 (optHdrBytes len prot)).getD (0 + i) 0 =
        (optHdrBytes len prot).getD i 0 :=
      getD_writeAt_inside (by simpa [length_optHdrBytes] using hi)
        (by simpa [length_optHdrBytes] using hl) 0
    rwa [Nat.zero_add] at hin
  rw [hget 2 (by omega), hget 3 (by omega)]
  exact be16_toBe16 _ hn

structure SameLen (dp dp' : DsrPkt) : Prop where
  pLen : dp'.pLen = dp.pLen
  optsLen : dp'.optsLen = dp.optsLen
  ihl : dp'.iph.ihl = dp.iph.ihl
  totLen : dp'.iph.totLen = dp.iph.totLen
  payloadLen : dp'.payloadLen = dp.payloadLen

theorem SameLen.ipLen {dp dp' : DsrPkt} (h : SameLen dp dp') : dp'.ipLen = dp.ipLen := by
  rw [DsrPkt.ipLen, DsrPkt.ipLen, h.ihl, h.optsLen, h.payloadLen]

theorem SameLen.lenMod {dp dp' : DsrPkt} (h : SameLen dp dp') (hm : LenMod dp) : LenMod dp' :=
  ⟨by rw [h.pLen, h.optsLen, hm.pLen], by rw [h.totLen, h.ipLen, hm.totLen]⟩

theorem SameLen.lenOk {dp dp' : DsrPkt} (h : SameLen dp dp') (hl : LenOk dp') : LenOk dp :=
  ⟨by rw [← h.pLen, ← h.optsLen, hl.pLen], by rw [← h.totLen, ← h.ipLen, hl.totLen]⟩

theorem write_ackReqOpt (dp : DsrPkt) (off : ℕ) (xs : List UInt8) :
    (dp.write off xs).ackReqOpt = dp.ackReqOpt := by
  unfold DsrPkt.write
  split <;> rfl

theorem Sized.write {dp : DsrPkt} (h : Sized dp) (off : ℕ) (xs : List UInt8) :
    Sized (dp.write off xs) := by
  obtain ⟨b, hb, hge, hle⟩ := h.dh
  have hs := write_same dp off xs
  refine ⟨⟨{ b with raw := writeAt b.raw off xs }, by rw [write_dh hb], hge, by simpa using hle⟩, ?_, ?_, ?_, ?_, ?_⟩
  · rw [hs.nh]
    exact h.nh
  · rw [hs.iph, hs.skb_eq]
    exact h.ihl
  · rw [hs.iph]
    exact h.totLen
  · rw [hs.payloadLen]
    exact h.payload
  · rw [write_ackReqOpt]
    exact h.ackReq

theorem Sized.writeField {dp : DsrPkt} (h : Sized dp) (p : OptPtr) (i : ℕ) (xs : List UInt8) :
    Sized (dp.writeField p i xs) := by
  unfold DsrPkt.writeField
  split
  · exact h.write _ _
  · exact h

theorem write_sameLen {dp : DsrPkt} {off : ℕ} (xs : List UInt8) (h : dsrOptHdrLen ≤ off) :
    SameLen dp (dp.write off xs) := by
  have hs := write_same dp off xs
  exact ⟨pLen_write xs h, optsLen_write dp off xs, by rw [hs.iph], by rw [hs.iph], hs.payloadLen⟩

theorem writeField_sameLen {dp : DsrPkt} {p : OptPtr} (i : ℕ) (xs : List UInt8)
    (h : dsrOptHdrLen ≤ p.off) : SameLen dp (dp.writeField p i xs) := by
  have hs := writeField_same dp p i xs
  exact ⟨pLen_writeField i xs h, optsLen_writeField dp p i xs, by rw [hs.iph], by rw [hs.iph],
    hs.payloadLen⟩

theorem iph_dsrBuildIp (dp : DsrPkt) (src dst : InAddr) (totLen prot ttl : ℕ) :
    (dsrBuildIp dp src dst totLen prot ttl).iph =
      (dsrBuildIp dp src dst totLen prot ttl).ipData := rfl

theorem iph_dsrBuildIp_skb {dp : DsrPkt} {skb : Skb} (h : dp.skb = some skb) (src dst : InAddr)
    (totLen prot ttl : ℕ) : (dsrBuildIp dp src dst totLen prot ttl).iph =
      { skb.iph with totLen := totLen % 65536, protocol := prot } := by
  rw [iph_dsrBuildIp, dsrBuildIp, h]

theorem Sized.ihl_dsrBuildIp {dp : DsrPkt} (h : Sized dp) (src dst : InAddr) (totLen prot ttl : ℕ) :
    (dsrBuildIp dp src dst totLen prot ttl).iph.ihl = dp.iph.ihl := by
  rw [h.ihl, iph_dsrBuildIp, dsrBuildIp]
  cases dp.skb <;> rfl

theorem Sized.dsrBuildIp {dp : DsrPkt} (h : Sized dp) (src dst : InAddr) (totLen prot ttl : ℕ) :
    Sized (dsrBuildIp dp src dst totLen prot ttl) := by
  refine ⟨h.dh, nofun, ?_, Nat.mod_lt _ (by decide), h.payload, h.ackReq⟩
  rw [h.ihl_dsrBuildIp]
  exact h.ihl

structure Expanded (dp : DsrPkt) (len : ℕ) (dp' : DsrPkt) : Prop where
  sized : Sized dp'
  optsLen : dp'.optsLen = dp.optsLen + len
  byteAt : ∀ i, i < dp.optsLen → dp'.byteAt i = dp.byteAt i
  same : SameHdr dp dp'

theorem dsrPktAllocOptsExpand_spec {dp : DsrPkt} (h : Sized dp) (mem : ℕ → UInt8) (len : ℕ) :
    ∃ dp', dsrPktAllocOptsExpand mem dp len = some (dp', dp.optsLen) ∧ Expanded dp len dp' := by
  obtain ⟨b, hb, hge, hle⟩ := h.dh
  have hopts := optsLen_dh hb
  rw [hopts]
  unfold dsrPktAllocOptsExpand
  rw [hb]
  dsimp only
  split
  · next hroom =>
    have htr : dp.tailroom = b.raw.length - b.tail := by rw [DsrPkt.tailroom, hb]
    rw [htr] at hroom
    refine ⟨_, rfl, ⟨⟨_, rfl, by dsimp only; omega, by dsimp only; omega⟩, h.nh, h.ihl,
      h.totLen, h.payload, h.ackReq⟩, ?_, ?_, ⟨rfl, rfl, rfl, rfl, rfl, rfl, rfl, rfl⟩⟩
    · rw [hopts]
      rfl
    · intro i _
      rw [byteAt_dh hb]
      rfl
  · have hs := write_same (dsrPktAllocOpts mem dp (b.tail + len)) 0 (b.raw.take b.tail)
    have hlen : (b.raw.take b.tail).length = b.tail := by
      rw [List.length_take]
      omega
    have hsz : Sized (dsrPktAllocOpts mem dp (b.tail + len)) := by
      refine ⟨⟨_, rfl, ?_, by simp⟩, h.nh, h.ihl, h.totLen, h.payload, h.ackReq⟩
      dsimp only
      omega
    refine ⟨_, rfl, hsz.write _ _, ?_, ?_, ?_⟩
    · rw [optsLen_write, hopts]
      rfl
    · intro i hi
      rw [hopts] at hi
      rw [write_dh rfl, byteAt_dh rfl, byteAt_dh hb]
      dsimp only
      rw [writeAt_zero (by simp; omega), getD_append_left (by omega), List.getD_eq_getElem?_getD,
        List.getElem?_take, if_pos hi, List.getD_eq_getElem?_getD]
    · exact ⟨hs.src, hs.dst, hs.nh, hs.ipData, hs.skb_eq, hs.payload, hs.payloadLen, hs.requestAck⟩

theorem Expanded.pLen {dp dp' : DsrPkt} {len : ℕ} (h : Expanded dp len dp') (hs : Sized dp) :
    dp'.pLen = dp.pLen := by
  have hge := hs.optsLen_ge
  unfold dsrOptHdrLen at hge
  exact pLen_congr (h.byteAt 2 (by omega)) (h.byteAt 3 (by omega))

end DsrUu
