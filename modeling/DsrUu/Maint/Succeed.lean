import DsrUu.LinkCache.Delete
import DsrUu.LinkCache.Reach
import DsrUu.Maint.Salvage

namespace DsrUu

open Graph Effect

def salvageReads (mem : ℕ → UInt8) (me : InAddr) (old : DsrSrt) (nxtHop : InAddr) : List ℕ :=
  0 :: if old.addrs.headD (junkAddr mem) = nxtHop then []
    else List.range (min ((old.addrs.take old.n).findIdx (· = me) + 1) old.n)

structure SalvageSucceeds (xmit : XmitSite → DsrPkt → DsrM Unit) (dp : DsrPkt) (p : OptPtr)
    (s : DsrNode) : Prop where
  transmits : ∃ dp' lc, SameHdr dp dp' ∧
    maintBufSalvage xmit dp s = (do xmit .salvage dp'; pure 0) { s with lc := lc }
  reads : ∀ i ∈ salvageReads s.kmem s.ifaddr (oldSrt s.kmem dp p) dp.nxtHop,
    i < (srtOptAddrs dp p).length

theorem SalvageRoute.path {src dst me : InAddr} {preP : List InAddr} {alt srt : DsrSrt}
    (h : SalvageRoute src dst me preP alt srt) : srt.path = preP ++ me :: (alt.addrs ++ [dst]) := by
  rw [path_of_laddrs h.laddrs, h.src_eq, h.dst_eq, ← List.cons_append, h.addrs, List.append_assoc,
    List.cons_append]

section Call

variable {xmit : XmitSite → DsrPkt → DsrM Unit} {dp : DsrPkt} {s : DsrNode} {f : SrtFind} {lc : LcGraph}
  {alt : DsrSrt}

theorem maintBufSalvage_aborts (hne : s.ifaddr ≠ dp.dst) (hfree : s.locking = true → Lock.lc ∉ s.held)
    (hf : lcSrtFind (srtFlags s.kmem) s.ifaddr dp.dst s.lc = some (f, lc)) (halt : f.srt = some alt)
    (hp : salvagePkt s.kmem s.ifaddr alt dp = none) :
    maintBufSalvage xmit dp s = .ok (-1) { s with lc := lc } := by
  show (dsrRtcFind s.ifaddr dp.dst >>= _) s = _
  rw [bind_of_ok (dsrRtcFind_runs hne hfree hf), halt]
  dsimp only
  rw [hp]
  rfl

theorem maintBufSalvage_transmits (hne : s.ifaddr ≠ dp.dst)
    (hfree : s.locking = true → Lock.lc ∉ s.held)
    (hf : lcSrtFind (srtFlags s.kmem) s.ifaddr dp.dst s.lc = some (f, lc)) (halt : f.srt = some alt)
    {dp' : DsrPkt} (hp : salvagePkt s.kmem s.ifaddr alt dp = some dp')
    (hover : salvageOverrun dp dp' = false) :
    maintBufSalvage xmit dp s = (do xmit .salvage dp'; pure 0) { s with lc := lc } := by
  show (dsrRtcFind s.ifaddr dp.dst >>= _) s = _
  rw [bind_of_ok (dsrRtcFind_runs hne hfree hf), halt]
  dsimp only
  rw [hp]
  dsimp only
  rw [hover]
  rfl

end Call

theorem SrtOptOk.overrun {dp dp' : DsrPkt} {p : OptPtr} (h : SrtOptOk dp p) : salvageOverrun dp dp' = false := by
  have hend := h.end_le
  unfold salvageOverrun
  rw [h.srtOpt]
  simp only [Bool.and_eq_false_iff, decide_eq_false_iff_not]
  exact .inr (by omega)

section Rewritten

variable {mem : ℕ → UInt8} {me : InAddr} {alt srt : DsrSrt} {dp : DsrPkt} {p : OptPtr} {sleft : ℕ}

theorem salvagePkt_dup (hopt : dp.srtOpt = some p)
    (hsal : salvageSrt mem me alt (oldSrt mem dp p) dp.nxtHop = some (srt, sleft))
    (hdup : ¬ srt.path.Nodup) : salvagePkt mem me alt dp = none := by
  rw [← dsrSrtCheckDuplicate_false, Bool.not_eq_false] at hdup
  unfold salvagePkt
  simp only [hopt, hsal, hdup, if_true]

theorem salvagePkt_nodup {w0 w1 : UInt8} {as : List InAddr} {pre rest junk : List UInt8}
    (hcopy : SrtCopy dp p w0 w1 as pre rest junk) (hp : dp.pLen = (dp.optsLen - 4) % 65536)
    (hsrt : srt.laddrs = 4 * srt.addrs.length)
    (hsal : salvageSrt mem me alt (oldSrt mem dp p) dp.nxtHop = some (srt, sleft))
    (hdup : srt.path.Nodup) : ∃ dp', salvagePkt mem me alt dp = some dp' ∧ SameHdr dp dp' := by
  rw [← dsrSrtCheckDuplicate_false] at hdup
  have hrw := (salvageRewrite_spec mem hcopy hp hsrt).same
  have hs := hrw.trans (srtOptSetSleft_same (salvageRewrite mem dp p srt)
    ((salvageRewrite mem dp p srt).ptr p.off) sleft)
  unfold salvagePkt
  simp only [hcopy.srtOpt, hsal, hdup]
  rw [if_neg Bool.false_ne_true]
  exact ⟨_, rfl, hs.src, hs.dst, hs.nh, hs.ipData, hs.skb_eq, hs.payload, hs.payloadLen, hs.requestAck⟩

end Rewritten

theorem salvageSrt_elsewhere (mem : ℕ → UInt8) (old alt : DsrSrt) {me h : InAddr} {preP suf : List InAddr}
    (hold : old.laddrs = 4 * old.addrs.length) (hne : old.addrs ≠ [])
    (hpath : old.src :: (old.addrs ++ [old.dst]) = preP ++ me :: h :: suf) (hmem : me ∉ preP)
    (hhead : old.addrs.head? ≠ some h) (hsrc : alt.src = me) (hdst : alt.dst = old.dst)
    (halt : alt.laddrs = 4 * alt.addrs.length) :
    ∃ srt, salvageSrt mem me alt old h = some (srt, alt.addrs.length) ∧
      SalvageRoute old.src old.dst me preP alt srt := by
  obtain ⟨a, as, has⟩ := List.exists_cons_of_ne_nil hne
  have hah : old.addrs.headD (junkAddr mem) ≠ h := by
    rw [has, List.head?_cons] at hhead
    rw [has, List.headD_cons]
    exact fun ha => hhead (by rw [ha])
  cases preP with
  | nil =>
    rw [has] at hpath hhead
    simp only [List.nil_append, List.cons_append, List.cons.injEq] at hpath
    exact absurd (by rw [List.head?_cons, hpath.2.1]) hhead
  | cons x pre =>
    rw [List.cons_append, List.cons.injEq] at hpath
    obtain ⟨rfl, hpath⟩ := hpath
    exact salvageSrt_split mem old alt hold hpath (List.not_mem_of_not_mem_cons hmem) hah hsrc hdst halt

theorem salvageReads_lt {mem : ℕ → UInt8} {me : InAddr} {old : DsrSrt} {nxtHop : InAddr}
    (hold : old.laddrs = 4 * old.addrs.length) (hne : old.addrs ≠ []) :
    ∀ i ∈ salvageReads mem me old nxtHop, i < old.addrs.length := by
  have hpos : 0 < old.addrs.length := List.length_pos_of_ne_nil hne
  have hn : old.n = old.addrs.length := by
    rw [DsrSrt.n, hold]
    omega
  intro i hi
  rcases List.mem_cons.mp hi with rfl | hi
  · exact hpos
  · split at hi
    · cases hi
    · have hlt := List.mem_range.mp hi
      omega

theorem salvage_succeeds_iff {xmit : XmitSite → DsrPkt → DsrM Unit} {ops : List LcOp} {s : DsrNode}
    (hrun : lcRun ops lcInit = some s.lc) (hunit : ∀ op ∈ ops, op.unit)
    (hfree : s.locking = true → Lock.lc ∉ s.held) {mem : ℕ → UInt8} {skb : Skb} {h : InAddr}
    {dp : DsrPkt} (hdp : dp = { dsrPktAlloc mem skb with nxtHop := h }) {p : OptPtr} (hok : SrtOptOk dp p)
    {preP suf : List InAddr} (hpath : srtOptPath dp p = preP ++ s.ifaddr :: h :: suf)
    {q : List InAddr} {c : ℕ} (hroute : Walk s.lc.listed s.ifaddr (q ++ [dp.dst]) dp.dst c)
    (hnd : (preP ++ s.ifaddr :: (q ++ [dp.dst])).Nodup) :
    SalvageSucceeds xmit dp p s ↔ srtOptAddrs dp p ≠ [] ∧ ((srtOptAddrs dp p).head? = some h ∨
      ∀ f lc alt, lcSrtFind (srtFlags s.kmem) s.ifaddr dp.dst s.lc = some (f, lc) → f.srt = some alt →
        (preP ++ s.ifaddr :: (alt.addrs ++ [dp.dst])).Nodup) := by
  have halloc : AllocOk mem skb dp := by
    have hs := hok.srtOpt
    rw [hdp] at hs ⊢
    exact (dsrPktAlloc_dsr mem (dsrPktAlloc_srtOpt hs)).with_nxtHop h
  have hh : dp.nxtHop = h := by rw [hdp]
  obtain ⟨-, hndq, hdisj⟩ := List.nodup_append.mp hnd
  have hne : s.ifaddr ≠ dp.dst := fun he => (List.nodup_cons.mp hndq).1 (by simp [he])
  have hmem : s.ifaddr ∉ preP := fun hm => hdisj _ hm _ List.mem_cons_self rfl
  obtain ⟨w0, w1, pre, rest, junk, hcopy⟩ := halloc.srtCopy hok
  have hold := oldSrt_eq s.kmem hcopy
  have haddrs : (oldSrt s.kmem dp p).addrs = srtOptAddrs dp p := by rw [hold]
  have hladdrs : (oldSrt s.kmem dp p).laddrs = 4 * (oldSrt s.kmem dp p).addrs.length := by rw [hold]
  have hopath : (oldSrt s.kmem dp p).src :: ((oldSrt s.kmem dp p).addrs ++ [(oldSrt s.kmem dp p).dst]) =
      preP ++ s.ifaddr :: h :: suf := by
    rw [hold]
    exact hpath
  obtain ⟨f, lc, alt, k, hf, halt, hlr⟩ := lcSrtFind_listed
    (lcRun_sound ops lcInit s.lc lcInit_sound hunit hrun) hne hroute (srtFlags s.kmem)
  have hsplit : srtOptAddrs dp p ≠ [] → (srtOptAddrs dp p).head? ≠ some h →
      ∃ srt, salvageSrt s.kmem s.ifaddr alt (oldSrt s.kmem dp p) dp.nxtHop =
        some (srt, alt.addrs.length) ∧ SalvageRoute dp.src dp.dst s.ifaddr preP alt srt := by
    intro hcons hhead
    rw [← haddrs] at hcons hhead
    have hsal := salvageSrt_elsewhere s.kmem (oldSrt s.kmem dp p) alt hladdrs hcons hopath hmem hhead
      hlr.src_eq (by rw [hold]; exact hlr.dst_eq) hlr.laddrs
    rw [hh]
    rwa [hold] at hsal ⊢
  constructor
  · rintro ⟨⟨dp', lc', -, htx⟩, hreads⟩
    have hcons : srtOptAddrs dp p ≠ [] := fun hnil => by
      have hlt := hreads 0 List.mem_cons_self
      rw [hnil] at hlt
      exact Nat.not_lt_zero _ hlt
    refine ⟨hcons, Classical.or_iff_not_imp_left.mpr fun hhead => ?_⟩
    intro f' lc'' alt' hf' halt'
    rw [hf] at hf'
    cases hf'
    rw [halt] at halt'
    cases halt'
    by_contra hdup
    obtain ⟨srt, hsal, hsr⟩ := hsplit hcons hhead
    rw [← hsr.path] at hdup
    rw [maintBufSalvage_aborts hne hfree hf halt (salvagePkt_dup hok.srtOpt hsal hdup)] at htx
    obtain ⟨_, _, _, hret⟩ := bind_ok htx.symm
    cases hret
  · rintro ⟨hcons, hcase⟩
    have hfinish : ∀ srt sleft, srt.laddrs = 4 * srt.addrs.length → salvageSrt s.kmem s.ifaddr alt
        (oldSrt s.kmem dp p) dp.nxtHop = some (srt, sleft) → srt.path.Nodup →
        SalvageSucceeds xmit dp p s := by
      intro srt sleft hsrt hsal hdup
      obtain ⟨dp', hpkt, hsame⟩ := salvagePkt_nodup hcopy halloc.pLen_mod hsrt hsal hdup
      refine ⟨⟨dp', lc, hsame, maintBufSalvage_transmits hne hfree hf halt hpkt hok.overrun⟩, ?_⟩
      rw [← haddrs] at hcons ⊢
      exact salvageReads_lt hladdrs hcons
    by_cases hhead : (srtOptAddrs dp p).head? = some h
    · refine hfinish alt (alt.laddrs / 4) hlr.laddrs ?_ ?_
      · have hd : (oldSrt s.kmem dp p).addrs.headD (junkAddr s.kmem) = dp.nxtHop := by
          rw [haddrs, hh, List.headD_eq_head?_getD, hhead]
          rfl
        rw [salvageSrt, if_pos hd]
      · rw [hlr.path_eq]
        exact hlr.nodup
    · obtain ⟨srt, hsal, hsr⟩ := hsplit hcons hhead
      refine hfinish srt _ hsr.laddrs hsal ?_
      rw [hsr.path]
      exact (hcase.resolve_left hhead) f lc alt hf halt

def listedB (lc : LcGraph) (a b : InAddr) : Bool :=
  lc.links.head.any fun l => l.src ∈ lc.nodes.head && l.dst ∈ lc.nodes.head && lc.addr l.src = a &&
    lc.addr l.dst = b && l.cost = 1

theorem listed_of_any {lc : LcGraph} {a b : InAddr} (h : listedB lc a b = true) : lc.listed a b 1 := by
  obtain ⟨l, hl, hb⟩ := List.any_eq_true.mp h
  simp only [Bool.and_eq_true, decide_eq_true_eq] at hb
  exact ⟨l, hl, hb.1.1.1.1, hb.1.1.1.2, hb.1.1.2, hb.1.2, hb.2⟩

theorem walk_two {lc : LcGraph} {a b c : InAddr} (hab : listedB lc a b = true)
    (hbc : listedB lc b c = true) : Walk lc.listed a ([b] ++ [c]) c (0 + 1 + 1) :=
  (Walk.nil.snoc (listed_of_any hab)).snoc (listed_of_any hbc)

theorem salvage_succeeds_detour : SalvageSucceeds xmitLog detourPkt ⟨1, 4⟩ detourNode := by
  have hrun : lcRun (detourOps ++ [.linkDel (detourHost 2) (detourHost 3)]) lcInit = some detourNode.lc := rfl
  have hok : SrtOptOk detourPkt ⟨1, 4⟩ := ⟨by decide +kernel, by decide +kernel, by decide +kernel⟩
  have hpath : srtOptPath detourPkt ⟨1, 4⟩ =
      [detourHost 1] ++ detourNode.ifaddr :: detourHost 3 :: [detourHost 4] := by decide +kernel
  have hroute : Walk detourNode.lc.listed detourNode.ifaddr ([detourHost 5] ++ [detourPkt.dst])
      detourPkt.dst (0 + 1 + 1) := walk_two (by decide +kernel) (by decide +kernel)
  have hdp : detourPkt = { dsrPktAlloc (fun _ => 0) detourSkb with nxtHop := detourHost 3 } := rfl
  refine (salvage_succeeds_iff hrun (by simp [detourOps, LcOp.unit]) (fun _ => List.not_mem_nil) hdp hok
    hpath hroute (by decide +kernel)).mpr ⟨by decide +kernel, .inr ?_⟩
  intro f lc alt hf halt
  have hfound : (lcSrtFind (srtFlags detourNode.kmem) detourNode.ifaddr detourPkt.dst detourNode.lc).bind
      (fun r => r.1.srt.map DsrSrt.addrs) = some [detourHost 5] := by decide +kernel
  rw [hf, Option.bind_some, halt, Option.map_some, Option.some_inj] at hfound
  rw [hfound]
  decide +kernel

def directOps : List LcOp :=
  [.linkAdd ⟨0, 0⟩ (detourHost 1) (detourHost 4) 0 0 1, .linkAdd ⟨0, 0⟩ (detourHost 1) (detourHost 2) 0 0 1,
    .linkAdd ⟨0, 0⟩ (detourHost 2) (detourHost 4) 0 0 1, .linkDel (detourHost 1) (detourHost 4)]

def directSkb : Skb :=
  { hSource := 0
    iph := { ihl := 5, totLen := 29, ttl := 64, protocol := ipprotoDsr, saddr := detourHost 1
             daddr := detourHost 4 }
    data := [17, 0, 0, 4, 96, 2, 0, 0, 255] }

def directPkt : DsrPkt := { dsrPktAlloc (fun _ => 0) directSkb with nxtHop := detourHost 4 }

def directNode : DsrNode :=
  { dsrNodeInit (detourHost 1) confvalsDef true 8 ⟨0, 0⟩ (fun _ => 0) 0 with
    lc := (lcRun directOps lcInit).getD lcInit }

theorem salvage_direct_fails : ∃ s p preP suf q c, lcRun directOps lcInit = some s.lc ∧
    (∀ op ∈ directOps, op.unit) ∧ (s.locking = true → Lock.lc ∉ s.held) ∧ SrtOptOk directPkt p ∧
    srtOptPath directPkt p = preP ++ s.ifaddr :: detourHost 4 :: suf ∧
    Walk s.lc.listed s.ifaddr (q ++ [directPkt.dst]) directPkt.dst c ∧
    (preP ++ s.ifaddr :: (q ++ [directPkt.dst])).Nodup ∧ ¬ SalvageSucceeds xmitLog directPkt p s ∧
    ∃ s', maintBufSalvage xmitLog directPkt s = .ok (-1) s' := by
  have hroute : Walk directNode.lc.listed directNode.ifaddr ([detourHost 2] ++ [directPkt.dst])
      directPkt.dst (0 + 1 + 1) := walk_two (by decide +kernel) (by decide +kernel)
  have haborts : ∃ s', maintBufSalvage xmitLog directPkt directNode = .ok (-1) s' :=
    okVal_eq_some (by decide +kernel)
  refine ⟨directNode, ⟨1, 4⟩, [], [], [detourHost 2], _, rfl, by simp [directOps, LcOp.unit],
    fun _ => List.not_mem_nil, ⟨by decide +kernel, by decide +kernel, by decide +kernel⟩,
    by decide +kernel, hroute, by decide +kernel, fun hs => ?_, haborts⟩
  obtain ⟨s', hs'⟩ := haborts
  obtain ⟨dp', lc, -, htx⟩ := hs.transmits
  rw [hs'] at htx
  obtain ⟨_, _, _, hret⟩ := bind_ok htx.symm
  cases hret

end DsrUu
