import DsrUu.Maint.Succeed
import DsrUu.Node.Length

namespace DsrUu

open Bytes Graph

theorem writeField_raw {dp : DsrPkt} {b : OptBuf} {p : OptPtr} (hb : dp.dh = some b) (hl : dp.live p = true)
    (i : ℕ) (xs : List UInt8) :
    (dp.writeField p i xs).dh = some { b with raw := writeAt b.raw (p.off + i) xs } := by
  rw [writeField_live hl, write_dh hb]

theorem srtOptSleft_set {dp : DsrPkt} {b : OptBuf} {p : OptPtr} (hb : dp.dh = some b)
    (hl : dp.live p = true) (hin : p.off + 4 ≤ b.raw.length) (sleft : ℕ) :
    srtOptSleft (srtOptSetSleft dp p sleft) p = sleft % 64 := by
  unfold srtOptSleft srtOptSetSleft
  dsimp only
  have hw : srtOptWord dp p % 1024 + 1024 * (sleft % 64) < 65536 := by omega
  have hdiv : (srtOptWord dp p % 1024 + 1024 * (sleft % 64)) / 1024 = sleft % 64 := by omega
  generalize srtOptWord dp p % 1024 + 1024 * (sleft % 64) = w at hw hdiv
  have hlen : p.off + 2 + [UInt8.ofNat w, UInt8.ofNat (w / 256)].length ≤ b.raw.length := hin
  have hdh := writeField_raw hb hl 2 [UInt8.ofNat w, UInt8.ofNat (w / 256)]
  have hlive : (dp.writeField p 2 [UInt8.ofNat w, UInt8.ofNat (w / 256)]).live p = true := by
    rw [live_writeField, hl]
  have hget : ∀ i, i < 2 → _ := fun i hi => getD_writeAt_inside (show i < [_, _].length from hi) hlen 0
  have h2 := hget 0 Nat.two_pos
  have h3 := hget 1 Nat.one_lt_two
  rw [srtOptWord, fieldAt_live hlive, fieldAt_live hlive, byteAt_dh hdh, byteAt_dh hdh]
  dsimp only
  rw [show p.off + 3 = p.off + 2 + 1 from rfl, h3, show p.off + 2 = p.off + 2 + 0 from rfl, h2]
  simp only [List.getD_cons_zero, List.getD_cons_succ, UInt8.toNat_ofNat']
  omega

structure OptRoom (dp : DsrPkt) (p : OptPtr) : Prop where
  srtOpt : dp.srtOpt = some p
  live : dp.live p = true
  end_le : p.off + (dp.optLength p + 2) ≤ dp.optsLen
  room : ∃ b, dp.dh = some b ∧ b.raw.length = b.tail + defaultTailroom

structure Rewritable (dp : DsrPkt) (p : OptPtr) (dp' : DsrPkt) : Prop extends SameHdr dp dp' where
  room : ∃ b, dp'.dh = some b ∧ p.off + 4 ≤ b.raw.length

theorem Rewritable.write {dp dp' : DsrPkt} {p : OptPtr} (h : Rewritable dp p dp') (off : ℕ)
    (xs : List UInt8) : Rewritable dp p (dp'.write off xs) := by
  obtain ⟨b, hb, hr⟩ := h.room
  refine ⟨h.toSameHdr.trans (write_same dp' off xs), { b with raw := writeAt b.raw off xs }, ?_, ?_⟩
  · rw [write_dh hb]
  · simpa using hr

theorem Rewritable.setSrtOpt {dp dp' : DsrPkt} {p : OptPtr} (h : Rewritable dp p dp')
    (o : Option OptPtr) : Rewritable dp p { dp' with srtOpt := o } :=
  ⟨⟨h.src, h.dst, h.nh, h.ipData, h.skb_eq, h.payload, h.payloadLen, h.requestAck⟩, h.room⟩

theorem salvageRewrite_room (mem : ℕ → UInt8) {dp : DsrPkt} {p : OptPtr} (h : OptRoom dp p) (srt : DsrSrt) :
    Rewritable dp p (salvageRewrite mem dp p srt) := by
  obtain ⟨b, hb, hr⟩ := h.room
  have hend := h.end_le
  have htail : dp.optsLen = b.tail := optsLen_dh hb
  have hroom : p.off + 4 ≤ b.raw.length := by
    rw [hr, defaultTailroom]
    omega
  unfold salvageRewrite salvageRealloc
  dsimp only
  split
  · have hself : Rewritable dp p dp := ⟨SameHdr.refl dp, b, hb, hroom⟩
    rw [writeField_live h.live]
    exact (hself.write _ _).setSrtOpt _
  · refine Rewritable.setSrtOpt (((Rewritable.write ?_ _ _).write _ _).write _ _ |>.write _ _) _
    refine ⟨⟨rfl, rfl, rfl, rfl, rfl, rfl, rfl, rfl⟩, _, rfl, ?_⟩
    simp only [length_fill, dsrSrtOptLen, dsrSrtHdrLen]
    omega

theorem salvageSrt_hop {mem : ℕ → UInt8} {me h : InAddr} {alt old srt : DsrSrt} {sleft : ℕ}
    (hsrc : alt.src = me) (halt : alt.laddrs = 4 * alt.addrs.length)
    (hs : salvageSrt mem me alt old h = some (srt, sleft)) : sleft = alt.addrs.length ∧
      dsrSrtNextHop srt (alt.addrs.length : ℕ) = (alt.addrs ++ [alt.dst]).headD default := by
  have hn : alt.n = alt.addrs.length := n_of_laddrs halt
  unfold salvageSrt at hs
  split at hs
  · cases hs
    refine ⟨by rw [halt, Nat.mul_div_cancel_left _ (by decide)], ?_⟩
    cases has : alt.addrs with
    | nil => rfl
    | cons a as =>
      rw [dsrSrtNextHop, if_neg (by simp only [List.length_cons]; omega), hn, has, Int.sub_self,
        DsrSrt.addrAt, if_pos (Int.le_refl 0), has]
      rfl
  · obtain ⟨toMe, hto, he⟩ := Option.map_eq_some_iff.mp hs
    cases he
    have hmine : toMe.laddrs = 4 * toMe.addrs.length := by
      unfold dsrSrtNewSplit at hto
      split at hto
      · cases hto
      · split at hto
        · cases hto
        · next i hi =>
          cases hto
          have hlt := (List.findIdx?_eq_some_iff_findIdx_eq.mp hi).1
          rw [List.length_take] at hlt
          simp only [List.length_take]
          omega
    rw [dsrSrtConcatenate_exact hmine halt]
    dsimp only
    rw [hsrc, List.length_append, List.length_cons]
    refine ⟨by omega, ?_⟩
    cases has : alt.addrs with
    | nil => rfl
    | cons a as =>
      rw [dsrSrtNextHop, if_neg (by simp only [List.length_cons]; omega)]
      have hi : ((4 * (toMe.addrs.length + ((a :: as).length + 1)) / 4 : ℕ) : Int) -
          ((a :: as).length : ℕ) = ((toMe.addrs.length + 1 : ℕ) : Int) := by
        rw [Nat.mul_div_cancel_left _ (by decide)]
        push_cast
        omega
      rw [DsrSrt.n]
      dsimp only
      rw [hi, addrAt_natCast]
      dsimp only
      simp

section Hop

variable {mem : ℕ → UInt8} {me : InAddr} {alt : DsrSrt} {dp dp' : DsrPkt} {p : OptPtr}

theorem salvagePkt_hop (hroom : OptRoom dp p) (hsrc : alt.src = me)
    (halt : alt.laddrs = 4 * alt.addrs.length) (h : salvagePkt mem me alt dp = some dp') :
    SameHdr dp dp' ∧ ∃ srt, salvageSrt mem me alt (oldSrt mem dp p) dp.nxtHop =
      some (srt, alt.addrs.length) ∧ dp'.nxtHop = dsrSrtNextHop srt (alt.addrs.length % 64 : ℕ) := by
  obtain ⟨p', srt, sleft, hp, hsal, -⟩ := salvagePkt_eq h
  rw [hroom.srtOpt, Option.some_inj] at hp
  subst hp
  obtain ⟨rfl, -⟩ := salvageSrt_hop hsrc halt hsal
  obtain ⟨-, dp₁, dp₂, q, h₁, hq, h₂, rfl⟩ := salvagePkt_some hroom.srtOpt hsal h
  have hrw := salvageRewrite_room mem hroom srt
  rw [← h₁] at hrw
  obtain ⟨b, hb, hin⟩ := hrw.room
  have hs := hrw.toSameHdr.trans (srtOptSetSleft_same dp₁ q alt.addrs.length)
  rw [← h₂] at hs
  refine ⟨⟨hs.src, hs.dst, hs.nh, hs.ipData, hs.skb_eq, hs.payload, hs.payloadLen, hs.requestAck⟩,
    srt, hsal, ?_⟩
  have hlive : dp₁.live q = true := by
    rw [hq]
    exact live_ptr hb p.off
  have hleft : srtOptSleft dp₂ q = alt.addrs.length % 64 := by
    rw [h₂]
    exact srtOptSleft_set hb hlive (by rw [hq]; exact hin) _
  dsimp only
  rw [hleft]

theorem salvagePkt_nextHop (hroom : OptRoom dp p) (hsrc : alt.src = me)
    (halt : alt.laddrs = 4 * alt.addrs.length) (hle : alt.addrs.length ≤ 63)
    (h : salvagePkt mem me alt dp = some dp') :
    SameHdr dp dp' ∧ dp'.nxtHop = (alt.addrs ++ [alt.dst]).headD default := by
  obtain ⟨hs, srt, hsal, hhop⟩ := salvagePkt_hop hroom hsrc halt h
  refine ⟨hs, ?_⟩
  rw [hhop, Nat.mod_eq_of_lt (by omega)]
  exact (salvageSrt_hop hsrc halt hsal).2

theorem OptRoom.overrun (h : OptRoom dp p) (dp' : DsrPkt) : salvageOverrun dp dp' = false := by
  have hend := h.end_le
  unfold salvageOverrun
  simp only [h.srtOpt, Bool.and_eq_false_iff, decide_eq_false_iff_not]
  exact .inr (by omega)

end Hop

def SrtOptInside (skb : Skb) : Prop :=
  ∀ mem p, (dsrPktAlloc mem skb).srtOpt = some p →
    p.off + ((dsrPktAlloc mem skb).optLength p + 2) ≤ (dsrPktAlloc mem skb).optsLen

theorem SrtOptInside.room {skb : Skb} (h : SrtOptInside skb) {mem : ℕ → UInt8} {a : InAddr}
    {p : OptPtr} (hp : (dsrPktAlloc mem skb).srtOpt = some p) :
    OptRoom { dsrPktAlloc mem skb with nxtHop := a } p := by
  have ha := dsrPktAlloc_dsr mem (dsrPktAlloc_srtOpt hp)
  refine ⟨hp, ?_, h mem p hp, _, ha.dh, ?_⟩
  · exact (@live_iff (dsrPktAlloc mem skb) _ ha.dh p).mpr (ha.parse.srt p hp).gen_eq
  · simp only [List.length_append, length_readAt, List.length_drop, length_fill]
    omega

end DsrUu
