import DsrUu.Maint.Rewrite
import DsrUu.Node.Lemmas
import DsrUu.Srt.Lemmas

namespace DsrUu

open Bytes Graph Effect

def srtOptAddrs (dp : DsrPkt) (p : OptPtr) : List InAddr :=
  decodeAddrs (dp.fieldsAt p 4 (dp.optLength p - 2))

def srtOptPath (dp : DsrPkt) (p : OptPtr) : List InAddr :=
  dp.src :: (srtOptAddrs dp p ++ [dp.dst])

def optsBefore (dp : DsrPkt) (p : OptPtr) : List UInt8 :=
  dp.bytesAt dsrOptHdrLen (p.off - dsrOptHdrLen)

def optsAfter (dp : DsrPkt) (p : OptPtr) : List UInt8 :=
  dp.bytesAt (p.off + (dp.optLength p + 2)) (dp.optsLen - (p.off + (dp.optLength p + 2)))

structure SrtOptOk (dp : DsrPkt) (p : OptPtr) : Prop where
  srtOpt : dp.srtOpt = some p
  length : dp.optLength p = 4 * (srtOptAddrs dp p).length + 2
  end_le : p.off + (dp.optLength p + 2) ≤ dp.optsLen

theorem OptAt.oldSrt {dp : DsrPkt} {p : OptPtr} {w0 w1 : UInt8} {as : List InAddr}
    {pre post : List UInt8} (h : OptAt dp p pre (srtOptRaw w0 w1 as) post) (has : as.length ≤ 63)
    (mem : ℕ → UInt8) : oldSrt mem dp p = { src := dp.src, dst := dp.dst, flags := srtFlags mem
                                            laddrs := 4 * as.length, addrs := as } := by
  have hlen : dp.optLength p = 4 * as.length + 2 := h.optLength_srt has
  have hu : toUint32 ((dp.optLength p : Int) - 2) = 4 * as.length := by
    rw [hlen]
    unfold toUint32
    omega
  have hb : dp.fieldsAt p 4 (dp.optLength p - 2) = encodeAddrs as := by
    rw [hlen, Nat.add_sub_cancel]
    exact h.srtOptAddrs
  rw [DsrUu.oldSrt, hu, hb, dsrSrtNew, ← length_encodeAddrs, List.take_length, decodeAddrs_encodeAddrs]

theorem oldSrt_eq (mem : ℕ → UInt8) {dp : DsrPkt} {p : OptPtr} {w0 w1 : UInt8} {as : List InAddr}
    {pre rest junk : List UInt8} (h : SrtCopy dp p w0 w1 as pre rest junk) :
    oldSrt mem dp p = { src := dp.src, dst := dp.dst, flags := srtFlags mem
                        laddrs := 4 * as.length, addrs := as } :=
  h.opt.oldSrt h.addrs_le mem

structure SalvageRoute (src dst me : InAddr) (preP : List InAddr) (alt srt : DsrSrt) : Prop where
  src_eq : srt.src = src
  dst_eq : srt.dst = dst
  laddrs : srt.laddrs = 4 * srt.addrs.length
  addrs : src :: srt.addrs = preP ++ me :: alt.addrs

theorem salvageSrt_split (mem : ℕ → UInt8) (old alt : DsrSrt) {me h : InAddr} {pre suf : List InAddr}
    (hold : old.laddrs = 4 * old.addrs.length)
    (hpath : old.addrs ++ [old.dst] = pre ++ me :: h :: suf) (hmem : me ∉ pre)
    (hah : old.addrs.headD (junkAddr mem) ≠ h) (hsrc : alt.src = me) (hdst : alt.dst = old.dst)
    (halt : alt.laddrs = 4 * alt.addrs.length) :
    ∃ srt, salvageSrt mem me alt old h = some (srt, alt.addrs.length) ∧
      SalvageRoute old.src old.dst me (old.src :: pre) alt srt := by
  have hsuf : ∃ post, old.addrs = pre ++ me :: post := by
    refine ⟨(h :: suf).dropLast, ?_⟩
    have hd := congrArg List.dropLast hpath
    rw [List.dropLast_concat, List.dropLast_append_of_ne_nil (by simp)] at hd
    exact hd
  obtain ⟨post, hpost⟩ := hsuf
  have hcat : dsrSrtConcatenate (srtFlags mem)
      { src := old.src, dst := me, flags := srtFlags mem, laddrs := 4 * pre.length, addrs := pre }
      alt = { src := old.src, dst := alt.dst, flags := srtFlags mem
              laddrs := 4 * (pre ++ alt.src :: alt.addrs).length
              addrs := pre ++ alt.src :: alt.addrs } :=
    dsrSrtConcatenate_exact rfl halt
  unfold salvageSrt
  rw [if_neg hah, dsrSrtNewSplit_at hold hpost hmem, Option.map_some, hcat]
  dsimp only
  have hleft : 4 * (pre ++ alt.src :: alt.addrs).length / 4 - 4 * pre.length / 4 - 1 =
      alt.addrs.length := by
    rw [List.length_append, List.length_cons]
    omega
  rw [hleft]
  refine ⟨_, rfl, rfl, hdst, rfl, ?_⟩
  rw [hsrc]
  rfl

theorem salvageSrt_spec (mem : ℕ → UInt8) (old alt : DsrSrt) {me h : InAddr}
    {preP suf : List InAddr} (hold : old.laddrs = 4 * old.addrs.length) (hne : old.addrs ≠ [])
    (hpath : old.src :: (old.addrs ++ [old.dst]) = preP ++ me :: h :: suf)
    (hnd : (old.src :: (old.addrs ++ [old.dst])).Nodup) (hsrc : alt.src = me)
    (hdst : alt.dst = old.dst) (halt : alt.laddrs = 4 * alt.addrs.length) :
    ∃ srt, salvageSrt mem me alt old h = some (srt, alt.addrs.length) ∧
      SalvageRoute old.src old.dst me preP alt srt := by
  obtain ⟨a, as, has⟩ := List.exists_cons_of_ne_nil hne
  have hhead : old.addrs.headD (junkAddr mem) = a := by rw [has, List.headD_cons]
  cases preP with
  | nil =>
    simp only [has, List.nil_append, List.cons_append, List.cons.injEq] at hpath
    obtain ⟨hme, hh, _⟩ := hpath
    refine ⟨alt, ?_, hsrc.trans hme.symm, hdst, halt, ?_⟩
    · rw [salvageSrt, hhead, if_pos hh, halt, Nat.mul_div_cancel_left _ (by decide)]
    · rw [List.nil_append, hme]
  | cons x pre =>
    rw [List.cons_append, List.cons.injEq] at hpath
    obtain ⟨rfl, hpath⟩ := hpath
    have hnd' : (pre ++ me :: h :: suf).Nodup := by
      rw [← hpath]
      exact (List.nodup_cons.mp hnd).2
    have hmem : me ∉ pre := by
      intro hm
      exact (List.nodup_append.mp hnd').2.2 me hm me (by simp) rfl
    have hah : a ≠ h := by
      rintro rfl
      cases pre with
      | nil =>
        rw [has, List.nil_append, List.cons_append, List.cons.injEq] at hpath
        rw [List.nil_append, ← hpath.1, List.nodup_cons] at hnd'
        exact hnd'.1 (by simp)
      | cons y pre =>
        rw [has, List.cons_append, List.cons_append, List.cons.injEq] at hpath
        rw [List.cons_append, ← hpath.1, List.nodup_cons] at hnd'
        exact hnd'.1 (by simp)
    exact salvageSrt_split mem old alt hold hpath hmem (hhead ▸ hah) hsrc hdst halt

theorem SalvageRoute.length {src dst me : InAddr} {preP : List InAddr} {alt srt : DsrSrt}
    (h : SalvageRoute src dst me preP alt srt) :
    srt.addrs.length = preP.length + alt.addrs.length := by
  have hl := congrArg List.length h.addrs
  simp only [List.length_cons, List.length_append] at hl
  omega

theorem SalvageRoute.nextHop {src dst me : InAddr} {preP : List InAddr} {alt srt : DsrSrt}
    (h : SalvageRoute src dst me preP alt srt) :
    dsrSrtNextHop srt (alt.addrs.length : ℕ) = (alt.addrs ++ [dst]).headD default := by
  unfold dsrSrtNextHop
  cases halt : alt.addrs with
  | nil => simp [h.dst_eq]
  | cons a as =>
    have hl := h.length
    rw [halt] at hl
    have hi : ((srt.n : Int) - ((a :: as).length : ℕ)) = (preP.length : ℕ) := by
      rw [n_of_laddrs h.laddrs, hl]
      omega
    have hget := congrArg (fun l => l.getD (preP.length + 1) default) h.addrs
    simp only [List.getD_cons_succ, halt] at hget
    rw [if_neg (by simp), hi, addrAt_natCast, hget]
    simp

theorem AllocOk.with_nxtHop {mem : ℕ → UInt8} {skb : Skb} {dp : DsrPkt} (h : AllocOk mem skb dp)
    (a : InAddr) : AllocOk mem skb { dp with nxtHop := a } :=
  ⟨⟨h.parse.srt, h.parse.ackReq, h.parse.rrep, h.parse.rerr, h.parse.ack⟩, h.dh, h.gen, h.src,
    h.dst, h.nh, h.skb_eq, h.hSource, h.promisc, h.srt, h.numRreq, h.payloadLen, h.requestAck,
    h.payload⟩

theorem encodeAddrs_decodeAddrs (bs : List UInt8) (h : bs.length = 4 * (decodeAddrs bs).length) :
    encodeAddrs (decodeAddrs bs) = bs := by
  induction bs using decodeAddrs.induct with
  | case1 b0 b1 b2 b3 rest ih =>
    simp only [decodeAddrs, List.length_cons] at h ⊢
    rw [encodeAddrs, List.flatMap_cons, ← encodeAddrs, ih (by omega)]
    rfl
  | case2 bs hbs =>
    have hd : decodeAddrs bs = [] := by
      unfold decodeAddrs
      split
      · next b0 b1 b2 b3 rest => exact absurd rfl (hbs b0 b1 b2 b3 rest)
      · rfl
    rw [hd, List.length_nil, Nat.mul_zero, List.length_eq_zero_iff] at h
    rw [hd, h]
    rfl

theorem optTypeOf_srt {b : UInt8} (h : optTypeOf b = .srt) : b = UInt8.ofNat OptType.srt.code := by
  have hb : b.toNat = 96 := by
    unfold optTypeOf at h
    split at h <;> first | assumption | cases h
  rw [← UInt8.toNat_inj, hb]
  rfl

theorem AllocOk.pLen {mem : ℕ → UInt8} {skb : Skb} {dp : DsrPkt} (h : AllocOk mem skb dp) :
    dp.pLen + dsrOptHdrLen = dp.optsLen := by
  have hlen : 4 ≤ dsrOptsLenOf skb := Nat.le_add_left _ _
  have hbyte : ∀ i, i < 4 → dp.byteAt i = skb.data.getD i 0 := by
    intro i hi
    rw [byteAt_dh h.dh]
    dsimp only
    rw [getD_append_left (by rw [length_readAt]; omega), readAt, List.getD_eq_getElem?_getD,
      List.getElem?_map, List.getElem?_range (by omega)]
    simp
  rw [DsrPkt.pLen, hbyte 2 (by omega), hbyte 3 (by omega), optsLen_dh h.dh]
  rfl

theorem AllocOk.pLen_mod {mem : ℕ → UInt8} {skb : Skb} {dp : DsrPkt} (h : AllocOk mem skb dp) :
    dp.pLen = (dp.optsLen - 4) % 65536 := by
  have hp := h.pLen
  have hlt : dp.pLen < 65536 := by
    have h2 := (dp.byteAt 2).toNat_lt
    have h3 := (dp.byteAt 3).toNat_lt
    unfold DsrPkt.pLen be16
    omega
  unfold dsrOptHdrLen at hp
  omega

theorem AllocOk.srtCopy {mem : ℕ → UInt8} {skb : Skb} {dp : DsrPkt} (h : AllocOk mem skb dp)
    {p : OptPtr} (hok : SrtOptOk dp p) : ∃ w0 w1 pre rest junk,
      SrtCopy dp p w0 w1 (srtOptAddrs dp p) pre rest junk := by
  have hp := h.parse.srt p hok.srtOpt
  have hlen := hok.length
  have hend := hok.end_le
  have hoff := hp.off_le
  have htail : dp.optsLen = dsrOptsLenOf skb := optsLen_dh h.dh
  have hlive : dp.live p = true := (live_iff h.dh p).mpr hp.gen_eq
  have hbyte : dp.optLength p < 256 := (dp.fieldAt p 1).toNat_lt
  obtain ⟨raw, hraw⟩ : ∃ raw, raw = readAt skb.data 0 (dsrOptsLenOf skb) ++
      (fill mem (dsrOptsLenOf skb + defaultTailroom)).drop (dsrOptsLenOf skb) := ⟨_, rfl⟩
  have hdh : dp.dh = some { raw := raw, tail := dsrOptsLenOf skb } := by rw [hraw, h.dh]
  have hrl : dp.optsLen ≤ raw.length := by
    rw [hraw, htail]
    simp
  have hfield : ∀ i, dp.fieldAt p i = raw.getD (p.off + i) 0 := by
    intro i
    rw [fieldAt_live hlive, byteAt_dh hdh]
  have haddrs : readAt raw (p.off + 4) (dp.optLength p - 2) = encodeAddrs (srtOptAddrs dp p) := by
    have hf : dp.fieldsAt p 4 (dp.optLength p - 2) = readAt raw (p.off + 4) (dp.optLength p - 2) := by
      rw [fieldsAt_live hlive, bytesAt_dh hdh]
    have hs : (dp.fieldsAt p 4 (dp.optLength p - 2)).length =
        4 * (decodeAddrs (dp.fieldsAt p 4 (dp.optLength p - 2))).length := by
      rw [hf, length_readAt, ← hf, ← srtOptAddrs]
      omega
    rw [srtOptAddrs, encodeAddrs_decodeAddrs _ hs, hf]
  have hsplit : raw = raw.take p.off ++ (srtOptRaw (dp.fieldAt p 2) (dp.fieldAt p 3)
      (srtOptAddrs dp p) ++ ((raw.drop (p.off + (dp.optLength p + 2))).take
        (dp.optsLen - (p.off + (dp.optLength p + 2))) ++ raw.drop dp.optsLen)) := by
    have hopt : readAt raw p.off (dp.optLength p + 2) =
        srtOptRaw (dp.fieldAt p 2) (dp.fieldAt p 3) (srtOptAddrs dp p) := by
      have h0 : raw.getD p.off 0 = UInt8.ofNat OptType.srt.code := by
        rw [← byteAt_dh hdh]
        exact optTypeOf_srt hp.type_eq
      have h1 : raw.getD (p.off + 1) 0 = UInt8.ofNat (4 * (srtOptAddrs dp p).length + 2) := by
        rw [← hfield 1, ← hlen, DsrPkt.optLength, UInt8.ofNat_toNat]
      have hsz : dp.optLength p + 2 = dp.optLength p - 2 + 1 + 1 + 1 + 1 := by omega
      rw [hsz, readAt_succ, readAt_succ, readAt_succ, readAt_succ, h0, h1, ← hfield 2, ← hfield 3,
        haddrs]
      rfl
    have hrest : raw.drop (p.off + (dp.optLength p + 2)) =
        (raw.drop (p.off + (dp.optLength p + 2))).take
          (dp.optsLen - (p.off + (dp.optLength p + 2))) ++ raw.drop dp.optsLen := by
      conv_lhs => rw [← List.take_append_drop (dp.optsLen - (p.off + (dp.optLength p + 2)))
        (raw.drop (p.off + (dp.optLength p + 2)))]
      rw [List.drop_drop, Nat.add_sub_cancel' hend]
    rw [← hopt, ← hrest, ← drop_eq_readAt _ _ _ (by omega), List.take_append_drop]
  refine ⟨dp.fieldAt p 2, dp.fieldAt p 3, raw.take p.off, (raw.drop (p.off + (dp.optLength p + 2))).take
        (dp.optsLen - (p.off + (dp.optLength p + 2))), raw.drop dp.optsLen,
        ⟨⟨_, hdh, hsplit⟩, hp.gen_eq, ?_⟩, hok.srtOpt, ?_, ?_, ?_⟩
  · rw [List.length_take]
    omega
  · rw [List.length_take, List.length_take, List.length_drop]
    omega
  · rw [List.length_take]
    unfold dsrOptHdrLen at hoff
    omega
  · omega

structure Salvaged (dp : DsrPkt) (p : OptPtr) (me h : InAddr) (preP : List InAddr) (alt : DsrSrt)
    (dp' : DsrPkt) (q : OptPtr) : Prop where
  srtOpt : dp'.srtOpt = some q
  src : dp'.src = dp.src
  dst : dp'.dst = dp.dst
  iph : dp'.iph = dp.iph
  path : srtOptPath dp' q = preP ++ me :: (alt.addrs ++ [dp.dst])
  nodup : (srtOptPath dp' q).Nodup
  sleft : srtOptSleft dp' q = alt.addrs.length
  nxtHop : (alt.addrs ++ [dp.dst]).head? = some dp'.nxtHop
  nxtHop_ne : dp'.nxtHop ≠ h
  salv : srtOptSalv dp' q = srtOptSalv dp p + 1
  pLen : dp'.pLen = (dp'.optsLen - dsrOptHdrLen) % 65536
  before : optsBefore dp' q = optsBefore dp p
  after : optsAfter dp' q = optsAfter dp p

theorem salvageRewrite_spec (mem : ℕ → UInt8) {dp : DsrPkt} {p : OptPtr} {w0 w1 : UInt8}
    {as : List InAddr} {pre rest junk : List UInt8} (h : SrtCopy dp p w0 w1 as pre rest junk)
    (hp : dp.pLen = (dp.optsLen - 4) % 65536) {srt : DsrSrt}
    (hsrt : srt.laddrs = 4 * srt.addrs.length) :
    SrtRewritten dp pre rest (srtOptSalv dp p + 1) srt.addrs.length srt.addrs
      (salvageRewrite mem dp p srt) := by
  by_cases hlen : srt.addrs.length = as.length
  · exact salvageRewrite_same h hp hsrt hlen
  · exact salvageRewrite_realloc h hsrt hlen

theorem optsBefore_opt {dp : DsrPkt} {p : OptPtr} {pre opt post : List UInt8}
    (h : OptAt dp p pre opt post) : optsBefore dp p = pre.drop 4 := by
  obtain ⟨b, hb, hr⟩ := h.dh
  rw [optsBefore, bytesAt_dh hb, hr, h.off, dsrOptHdrLen]
  by_cases hle : 4 ≤ pre.length
  · rw [readAt_eq _ _ _ (by rw [List.length_append]; omega), List.drop_append_of_le_length hle,
      List.take_left' (by simp)]
  · rw [Nat.sub_eq_zero_of_le (by omega), List.drop_eq_nil_of_le (by omega)]
    rfl

theorem optsAfter_opt {dp : DsrPkt} {p : OptPtr} {pre opt rest junk : List UInt8}
    (h : OptAt dp p pre opt (rest ++ junk)) (hl : dp.optLength p + 2 = opt.length)
    (ht : dp.optsLen = pre.length + opt.length + rest.length) : optsAfter dp p = rest := by
  have hn : dp.optsLen - (p.off + opt.length) = rest.length := by
    rw [ht, h.off]
    omega
  rw [optsAfter, hl, hn, h.bytesAt_post]

theorem SrtCopy.opts {dp : DsrPkt} {p : OptPtr} {w0 w1 : UInt8} {as : List InAddr}
    {pre rest junk : List UInt8} (h : SrtCopy dp p w0 w1 as pre rest junk) :
    optsBefore dp p = pre.drop 4 ∧ optsAfter dp p = rest := by
  refine ⟨optsBefore_opt h.opt, optsAfter_opt h.opt ?_ ?_⟩
  · rw [h.opt.optLength_srt h.addrs_le, length_srtOptRaw]
  · rw [h.tail, length_srtOptRaw]

theorem srtOptAddrs_of_image {dp : DsrPkt} {p : OptPtr} {pre post : List UInt8}
    {salv sleft : ℕ} {as : List InAddr} (h : OptAt dp p pre (srtOptImage salv sleft as) post)
    (has : as.length ≤ 63) : dp.optLength p = 4 * as.length + 2 ∧ srtOptAddrs dp p = as := by
  rw [srtOptImage_raw] at h
  have hlen := h.optLength_srt has
  refine ⟨hlen, ?_⟩
  rw [DsrUu.srtOptAddrs, hlen, Nat.add_sub_cancel, h.srtOptAddrs, decodeAddrs_encodeAddrs]

theorem salvagePkt_some {mem : ℕ → UInt8} {me : InAddr} {alt srt : DsrSrt} {dp dp' : DsrPkt}
    {p : OptPtr} {sleft : ℕ} (hopt : dp.srtOpt = some p)
    (hsal : salvageSrt mem me alt (oldSrt mem dp p) dp.nxtHop = some (srt, sleft))
    (h : salvagePkt mem me alt dp = some dp') :
    dsrSrtCheckDuplicate srt = false ∧ ∃ dp₁ dp₂ q, dp₁ = salvageRewrite mem dp p srt ∧
      q = dp₁.ptr p.off ∧ dp₂ = srtOptSetSleft dp₁ q sleft ∧
      dp' = { dp₂ with nxtHop := dsrSrtNextHop srt (srtOptSleft dp₂ q), srt := some srt } := by
  unfold salvagePkt at h
  simp only [hopt, hsal] at h
  split at h
  · cases h
  · next hdup =>
    cases h
    exact ⟨by simpa using hdup, _, _, _, rfl, rfl, rfl, rfl⟩

theorem salvagePkt_salvaged {mem : ℕ → UInt8} {me : InAddr} {alt srt : DsrSrt} {dp dp' : DsrPkt}
    {p : OptPtr} {w0 w1 : UInt8} {as preP : List InAddr} {pre rest junk : List UInt8}
    (hcopy : SrtCopy dp p w0 w1 as pre rest junk) (hp : dp.pLen = (dp.optsLen - 4) % 65536)
    (hsal : salvageSrt mem me alt (oldSrt mem dp p) dp.nxtHop = some (srt, alt.addrs.length))
    (hroute : SalvageRoute dp.src dp.dst me preP alt srt) (hsalv : srtOptSalv dp p < 15)
    (hhop : ∀ a q, alt.addrs ++ [dp.dst] = a :: q → a ≠ dp.nxtHop)
    (h : salvagePkt mem me alt dp = some dp') (hle : preP.length + alt.addrs.length ≤ 63) :
    ∃ q, Salvaged dp p me dp.nxtHop preP alt dp' q := by
  obtain ⟨hdup, dp₁, dp₂, q, h₁, hq, h₂, rfl⟩ := salvagePkt_some hcopy.srtOpt hsal h
  have hlen := hroute.length
  have hrw := salvageRewrite_spec mem hcopy hp hroute.laddrs
  rw [← h₁] at hrw
  obtain ⟨pre', junk', hopt₁, hpl, hpd⟩ := hrw.opt
  rw [hcopy.opt.off] at hq
  rw [← hq] at hopt₁
  have hopt₂ := hopt₁.srtOptSetSleft alt.addrs.length
  rw [← h₂] at hopt₂
  have hsleft : srtOptSleft dp₂ q = alt.addrs.length := by
    rw [hopt₂.srtOptSleft]
    omega
  rw [hsleft, hroute.nextHop]
  obtain ⟨dp'', hdp⟩ : ∃ dp'', dp'' = { dp₂ with nxtHop := (alt.addrs ++ [dp.dst]).headD default
                                                 srt := some srt } := ⟨_, rfl⟩
  rw [← hdp]
  have hopt : OptAt dp'' q pre' (srtOptImage (srtOptSalv dp p + 1) alt.addrs.length srt.addrs)
      (rest ++ junk') := by
    rw [hdp]
    exact ⟨hopt₂.dh, hopt₂.gen, hopt₂.off⟩
  obtain ⟨hol, haddrs⟩ := srtOptAddrs_of_image hopt (by omega)
  have hsame : SameHdr dp dp'' := by
    have hs := hrw.same.trans (srtOptSetSleft_same dp₁ q alt.addrs.length)
    rw [hdp, h₂]
    exact ⟨hs.src, hs.dst, hs.nh, hs.ipData, hs.skb_eq, hs.payload, hs.payloadLen, hs.requestAck⟩
  have htail : dp''.optsLen = dp₁.optsLen := by
    have ht : dp₂.optsLen = dp₁.optsLen := by
      rw [h₂]
      exact optsLen_writeField _ _ _ _
    rw [hdp]
    exact ht
  have hpLen : dp''.pLen = dp₁.pLen := by
    have hge := hcopy.pre_le
    rw [DsrPkt.pLen, DsrPkt.pLen, hopt.byteAt_pre (by omega), hopt.byteAt_pre (by omega),
      hopt₁.byteAt_pre (by omega), hopt₁.byteAt_pre (by omega)]
  have hpath : srtOptPath dp'' q = preP ++ me :: (alt.addrs ++ [dp.dst]) := by
    rw [srtOptPath, haddrs, hsame.src, hsame.dst, ← List.cons_append, hroute.addrs, List.append_assoc,
      List.cons_append]
  have hnd : (srtOptPath dp'' q).Nodup := by
    have hp' := (dsrSrtCheckDuplicate_false srt).mp hdup
    rwa [path_of_laddrs hroute.laddrs, hroute.src_eq, hroute.dst_eq, ← List.cons_append,
      hroute.addrs, List.append_assoc, List.cons_append, ← hpath] at hp'
  have hhead : (alt.addrs ++ [dp.dst]).head? = some dp''.nxtHop := by
    rw [hdp]
    cases alt.addrs <;> rfl
  refine ⟨q, ?_, hsame.src, hsame.dst, hsame.iph, hpath, hnd, ?_, hhead, ?_, ?_, ?_, ?_, ?_⟩
  · rw [hdp, h₂]
    exact (srtOptSetSleft_srtOpt dp₁ q _).trans (hq ▸ hrw.srtOpt)
  · rw [hopt.srtOptSleft]
    omega
  · obtain ⟨a, t, hat⟩ := List.exists_cons_of_ne_nil (l := alt.addrs ++ [dp.dst]) (by simp)
    rw [hat, List.head?_cons, Option.some_inj] at hhead
    exact hhead ▸ hhop a t hat
  · rw [hopt.srtOptSalv]
    omega
  · rw [hpLen, htail]
    exact hrw.pLen
  · rw [optsBefore_opt hopt, hcopy.opts.1, hpd]
  · rw [optsAfter_opt hopt, hcopy.opts.2]
    · rw [hol, length_srtOptImage]
    · rw [length_srtOptImage, hpl, htail, hrw.tail]

theorem maintEntryCreate_ok {dp : DsrPkt} {id rto : ℕ} {s s' : DsrNode} {m : MaintEntry}
    (h : maintEntryCreate dp id rto s = .ok m s') : s' = s ∧ m.nxtHop = dp.nxtHop ∧
      m.ackReqSent = false ∧ ∃ skb, dp.skb = some skb ∧ m.dp = { dsrPktAlloc s.kmem skb with nxtHop := dp.nxtHop } := by
  unfold maintEntryCreate kmalloc gettime at h
  obtain ⟨mem, s₁, hk, h⟩ := bind_ok h
  cases hk
  obtain ⟨now, s₂, hg, h⟩ := bind_ok h
  cases hg
  obtain ⟨skb, s₃, hs, h⟩ := bind_ok h
  unfold ofOption at hs
  cases hskb : dp.skb with
  | none =>
    rw [hskb] at hs
    cases hs
  | some skb' =>
    rw [hskb] at hs
    cases hs
    cases h
    exact ⟨rfl, rfl, rfl, skb, rfl, rfl⟩

theorem maintEntryCreate_of_skb {dp : DsrPkt} {skb : Skb} (h : dp.skb = some skb) (id rto : ℕ)
    (s : DsrNode) : ∃ m, maintEntryCreate dp id rto s = .ok m s ∧ m.nxtHop = dp.nxtHop ∧
      m.dp = { dsrPktAlloc s.kmem skb with nxtHop := dp.nxtHop } := by
  unfold maintEntryCreate
  rw [h]
  exact ⟨_, rfl, rfl, rfl⟩

theorem dsrPktAlloc_srtOpt {mem : ℕ → UInt8} {skb : Skb} {p : OptPtr}
    (h : (dsrPktAlloc mem skb).srtOpt = some p) : skb.iph.protocol = ipprotoDsr := by
  by_contra hne
  unfold dsrPktAlloc at h
  simp [hne] at h

theorem maintBufSalvage_cases {xmit : XmitSite → DsrPkt → DsrM Unit} {dp : DsrPkt}
    {s s' : DsrNode} {r : Int} (h : maintBufSalvage xmit dp s = .ok r s') :
    (r = -1 ∧ s'.out = s.out) ∨ (r = 0 ∧ s.ifaddr ≠ dp.dst ∧ ∃ f lc alt dp',
      lcSrtFind (srtFlags s.kmem) s.ifaddr dp.dst s.lc = some (f, lc) ∧ f.srt = some alt ∧
      salvagePkt s.kmem s.ifaddr alt dp = some dp' ∧
      xmit .salvage dp' { s with lc := lc } = .ok () s') := by
  unfold maintBufSalvage kmalloc myAddr at h
  obtain ⟨mem, s₁, hk, h⟩ := bind_ok h
  cases hk
  obtain ⟨me, s₂, hme, h⟩ := bind_ok h
  cases hme
  obtain ⟨srt, s₃, hf, h⟩ := bind_ok h
  rcases dsrRtcFind_ok hf with ⟨rfl, rfl⟩ | ⟨hne, f, lc, hlc, rfl, rfl⟩
  · cases h
    exact Or.inl ⟨rfl, rfl⟩
  · cases halt : f.srt with
    | none =>
      rw [halt] at h
      cases h
      exact Or.inl ⟨rfl, rfl⟩
    | some alt =>
      simp only [halt] at h
      cases hp : salvagePkt s.kmem s.ifaddr alt dp with
      | none =>
        rw [hp] at h
        cases h
        exact Or.inl ⟨rfl, rfl⟩
      | some dp' =>
        simp only [hp] at h
        split at h
        · cases h
        obtain ⟨_, s₄, hx, h⟩ := bind_ok h
        cases h
        exact Or.inr ⟨rfl, hne, f, lc, alt, dp', hlc, halt, hp, hx⟩

theorem maintBufSalvage_correct {xmit : XmitSite → DsrPkt → DsrM Unit} {ops : List LcOp}
    {lc lc₁ : LcGraph} (hrun : lcRun ops lcInit = some lc) (hroom : lcRunRoom ops lcInit)
    (hunit : ∀ op ∈ ops, op.unit) {dp : DsrPkt} {id rto : ℕ} {s₀ s₁ s s' : DsrNode}
    {m : MaintEntry} (hm : maintEntryCreate dp id rto s₀ = .ok m s₁)
    (hdel : lcLinkDel s.ifaddr m.nxtHop lc = some lc₁) {qs : List (ℕ × InAddr × InAddr)}
    (hsearch : lcRun (qs.map lcSearch) lc₁ = some s.lc) {p : OptPtr} (hok : SrtOptOk m.dp p)
    (hne : srtOptAddrs m.dp p ≠ []) (hnd : (srtOptPath m.dp p).Nodup) {preP suf : List InAddr}
    (hpath : srtOptPath m.dp p = preP ++ s.ifaddr :: m.nxtHop :: suf)
    (hsalv : srtOptSalv m.dp p < 15) {r : Int} (h : maintBufSalvage xmit m.dp s = .ok r s') :
    (r = -1 ∧ s'.out = s.out) ∨ (r = 0 ∧ ∃ f lc' alt c dp',
      lcSrtFind (srtFlags s.kmem) s.ifaddr m.dp.dst s.lc = some (f, lc') ∧ f.srt = some alt ∧
      LcRoute s.lc s.ifaddr m.dp.dst alt c ∧ salvagePkt s.kmem s.ifaddr alt m.dp = some dp' ∧
      xmit .salvage dp' { s with lc := lc' } = .ok () s' ∧
      (preP.length + alt.addrs.length ≤ 63 →
        ∃ q, Salvaged m.dp p s.ifaddr m.nxtHop preP alt dp' q)) := by
  obtain ⟨_, hnh, _, skb, _, hdp⟩ := maintEntryCreate_ok hm
  have hproto : skb.iph.protocol = ipprotoDsr := by
    have hs := hok.srtOpt
    rw [hdp] at hs
    exact dsrPktAlloc_srtOpt hs
  have halloc : AllocOk s₀.kmem skb m.dp := by
    rw [hdp]
    exact (dsrPktAlloc_dsr s₀.kmem hproto).with_nxtHop _
  have hhop : m.dp.nxtHop = m.nxtHop := by rw [hdp, hnh]
  obtain ⟨w0, w1, pre, rest, junk, hcopy⟩ := halloc.srtCopy hok
  have hinv := lcRun_inv ops lcInit lc lcInit_inv hroom hrun
  obtain ⟨hsound, hlinks⟩ :=
    lcRun_search qs (lcLinkDel_sound (lcRun_sound ops lcInit lc lcInit_sound hunit hrun) hdel) hsearch
  rcases maintBufSalvage_cases h with hr | ⟨hr, hsd, f, lc', alt, dp', hf, hsrt, hpkt, hx⟩
  · exact Or.inl hr
  obtain ⟨f', lc'', hf', _, hres⟩ := lcSrtFind_sound hsound hsd (srtFlags s.kmem)
  rw [hf] at hf'
  cases hf'
  obtain ⟨c, hroute⟩ := hres.route hsrt
  refine Or.inr ⟨hr, f, lc', alt, c, dp', hf, hsrt, hroute, hpkt, hx, fun hle => ?_⟩
  have hold := oldSrt_eq s.kmem hcopy
  obtain ⟨srt, hsal, hsr⟩ := salvageSrt_spec s.kmem (oldSrt s.kmem m.dp p) alt
    (by rw [hold]) (by rw [hold]; exact hne) (by rw [hold]; exact hpath) (by rw [hold]; exact hnd)
    hroute.src_eq (by rw [hold]; exact hroute.dst_eq) hroute.laddrs
  rw [← hhop] at hsal ⊢
  rw [hold] at hsr
  refine salvagePkt_salvaged hcopy halloc.pLen_mod hsal hsr hsalv ?_ hpkt hle
  rintro a q haq rfl
  obtain ⟨k, hk⟩ := hroute.walk.head_edge _ q haq
  rw [hlinks] at hk
  exact lcLinkDel_no_link hinv hdel k (hhop ▸ hk)

def detourHost (i : UInt8) : InAddr := ⟨10, 0, 0, i⟩

def detourOps : List LcOp :=
  [.linkAdd ⟨0, 0⟩ (detourHost 2) (detourHost 3) 0 0 1,
    .linkAdd ⟨0, 0⟩ (detourHost 3) (detourHost 4) 0 0 1,
    .linkAdd ⟨0, 0⟩ (detourHost 2) (detourHost 5) 0 0 1,
    .linkAdd ⟨0, 0⟩ (detourHost 5) (detourHost 4) 0 0 1]

def detourSkb : Skb :=
  { hSource := 0
    iph := { ihl := 5, totLen := 37, ttl := 64, protocol := ipprotoDsr, saddr := detourHost 1
             daddr := detourHost 4 }
    data := [17, 0, 0, 12, 96, 10, 0, 8, 10, 0, 0, 2, 10, 0, 0, 3, 255] }

def detourPkt : DsrPkt := { dsrPktAlloc (fun _ => 0) detourSkb with nxtHop := detourHost 3 }

def detourLc : LcGraph :=
  ((lcRun detourOps lcInit).bind (lcLinkDel (detourHost 2) (detourHost 3))).getD lcInit

def detourNode : DsrNode :=
  { dsrNodeInit (detourHost 2) confvalsDef true 8 ⟨0, 0⟩ (fun _ => 0) 0 with lc := detourLc }

def xmitLog (site : XmitSite) (dp : DsrPkt) : DsrM Unit := emit (.xmit site dp false)

theorem detourOps_room : lcRunRoom detourOps lcInit := by
  refine ⟨⟨Or.inr ?_, Or.inr ?_, Or.inr ?_⟩, fun lc₁ h₁ => ?_⟩
  · decide
  · decide
  · decide
  cases h₁
  refine ⟨⟨Or.inr ?_, Or.inr ?_, Or.inr ?_⟩, fun lc₂ h₂ => ?_⟩
  · decide
  · decide
  · decide
  cases h₂
  refine ⟨⟨Or.inr ?_, Or.inr ?_, Or.inr ?_⟩, fun lc₃ h₃ => ?_⟩
  · decide
  · decide
  · decide
  cases h₃
  refine ⟨⟨Or.inr ?_, Or.inr ?_, Or.inr ?_⟩, fun lc₄ h₄ => trivial⟩
  · decide
  · decide
  · decide

def detourSearched : LcGraph :=
  (lcRun ([(0, detourHost 2, detourHost 1)].map lcSearch) detourLc).getD lcInit

theorem maintBufSalvage_correct_detour :
    ∃ alt dp' q s', maintBufSalvage xmitLog detourPkt { detourNode with lc := detourSearched } = .ok 0 s' ∧
      Salvaged detourPkt ⟨1, 4⟩ (detourHost 2) (detourHost 3) [detourHost 1] alt dp' q := by
  obtain ⟨s, hs⟩ : ∃ s : DsrNode, s = { detourNode with lc := detourSearched } := ⟨_, rfl⟩
  obtain ⟨lc, hrun⟩ : ∃ lc, lcRun detourOps lcInit = some lc := ⟨_, rfl⟩
  have hdel : lcLinkDel s.ifaddr (detourHost 3) lc = some detourLc := by
    subst hs
    cases hrun
    rfl
  have hsearch : lcRun ([(0, detourHost 2, detourHost 1)].map lcSearch) detourLc = some s.lc := by
    have hsome : (lcRun ([(0, detourHost 2, detourHost 1)].map lcSearch) detourLc).isSome = true := by
      decide +kernel
    obtain ⟨lc', hlc'⟩ := Option.isSome_iff_exists.mp hsome
    rw [hs, detourSearched, hlc', Option.getD_some]
  have hproto : detourSkb.iph.protocol = ipprotoDsr := rfl
  have hskb : detourPkt.skb = some detourSkb :=
    ((dsrPktAlloc_dsr (fun _ => 0) hproto).with_nxtHop (detourHost 3)).skb_eq
  obtain ⟨m, hm, hnh, hmd⟩ := maintEntryCreate_of_skb hskb 7 100 detourNode
  change m.dp = detourPkt at hmd
  change m.nxtHop = detourHost 3 at hnh
  obtain ⟨s', hs'⟩ : ∃ s', maintBufSalvage xmitLog detourPkt s = .ok 0 s' := by
    subst hs
    exact okVal_eq_some (by decide +kernel)
  rw [← hmd] at hs'
  rw [← hnh] at hdel
  have hme : s.ifaddr = detourHost 2 := by rw [hs]; rfl
  have hpath : srtOptPath detourPkt ⟨1, 4⟩ =
      [detourHost 1] ++ detourHost 2 :: detourHost 3 :: [detourHost 4] := by decide +kernel
  have hok : SrtOptOk detourPkt ⟨1, 4⟩ :=
    ⟨by decide +kernel, by decide +kernel, by decide +kernel⟩
  rw [← hmd] at hok
  rw [← hmd, ← hnh, ← hme] at hpath
  have hcorrect := maintBufSalvage_correct hrun detourOps_room (by simp [detourOps, LcOp.unit]) hm
    hdel hsearch hok (by rw [hmd]; decide +kernel) (by rw [hmd]; decide +kernel) hpath
    (by rw [hmd]; decide +kernel) hs'
  rcases hcorrect with ⟨hr, _⟩ | ⟨_, f, lc', alt, c, dp', _, _, hroute, _, _, hsal⟩
  · exact absurd hr (by decide)
  · have hlt := hroute.length_lt
    have hlinks : s.lc.links.head.length = 3 := by
      subst hs
      decide +kernel
    obtain ⟨q, hq⟩ := hsal (by rw [List.length_singleton]; omega)
    rw [hmd, hnh, hme] at hq
    rw [hmd, hs] at hs'
    exact ⟨alt, dp', q, s', hs', hq⟩

end DsrUu
