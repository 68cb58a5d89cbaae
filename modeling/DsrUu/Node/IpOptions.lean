import DsrUu.Node.Delivered

namespace DsrUu

open Bytes Effect

structure IpRest where
  version : ℕ
  tos : ℕ
  id : ℕ
  fragOff : ℕ
  opts : List UInt8
deriving DecidableEq, Repr

structure NetPkt where
  dp : DsrPkt
  skbRest : IpRest
  dataRest : IpRest

def ipDataZero : IpRest := ⟨0, 0, 0, 0, List.replicate 40 0⟩

def IpRest.copy (ipLen : ℕ) (src dst : IpRest) : IpRest :=
  { src with opts := src.opts.take (ipLen - ipHdrLen) ++ dst.opts.drop (ipLen - ipHdrLen) }

def netBuildIp (ipLen : ℕ) (p : NetPkt) : IpRest :=
  match p.dp.skb with
  | some _ => p.skbRest.copy ipLen p.dataRest
  | none => { p.dataRest with version := 4, tos := 0, id := 0, fragOff := 0 }

def netPktAlloc (mem : ℕ → UInt8) (skb : Skb) (rest : IpRest) : NetPkt :=
  ⟨dsrPktAlloc mem skb, rest, ipDataZero⟩

def netSrtAdd (mem : ℕ → UInt8) (srt : DsrSrt) (p : NetPkt) : Option NetPkt :=
  (dsrSrtAdd mem { p.dp with srt := some srt }).map fun dp =>
    { p with dp := dp, dataRest := netBuildIp (4 * p.dp.iph.ihl) p }

def netAckReqOptAdd (mem : ℕ → UInt8) (p : NetPkt) (id : ℕ) : NetPkt :=
  match p.dp.ackReqOpt with
  | some _ => { p with dp := dsrAckReqOptAdd mem p.dp id }
  | none =>
      if p.dp.optsLen = 0 ∨ (dsrPktAllocOptsExpand mem p.dp dsrAckReqHdrLen).isSome then
        { p with dp := dsrAckReqOptAdd mem p.dp id, dataRest := netBuildIp ipHdrLen p }
      else { p with dp := dsrAckReqOptAdd mem p.dp id }

def netOptRemove (p : NetPkt) : NetPkt :=
  { p with dp := dsrOptRemove p.dp, dataRest := netBuildIp (4 * p.dp.iph.ihl) p }

def NetPkt.rest (p : NetPkt) : IpRest :=
  match p.dp.nh, p.dp.skb with
  | .skb, some _ => p.skbRest
  | _, _ => p.dataRest

def netSkbCreate (p : NetPkt) : Skb × IpRest :=
  (dsrSkbCreate p.dp, { p.rest with opts := p.rest.opts.take (4 * p.dp.iph.ihl - ipHdrLen) })

def recordsRoute (opts : List UInt8) (rr : Option ℕ) : Prop :=
  ∃ i, rr = some i ∧ opts.getD (i + 2) 0 < 32

instance (opts : List UInt8) (rr : Option ℕ) : Decidable (recordsRoute opts rr) :=
  match rr with
  | none => isFalse nofun
  | some i => decidable_of_iff (opts.getD (i + 2) 0 < 32)
      ⟨fun h => ⟨i, rfl, h⟩, fun ⟨_, hi, h⟩ => Option.some.inj hi ▸ h⟩

def unrecordRoute (opts : List UInt8) : Option ℕ → List UInt8
  | none => opts
  | some i =>
      if opts.getD (i + 2) 0 < 32 then
        (opts.set (i + 2) (opts.getD (i + 2) 0 - 4)).set (i + 1) (opts.getD (i + 1) 0 - 4)
      else opts

def netDevDeliver (rr : List UInt8 → Option ℕ) (p : NetPkt) : Skb × IpRest :=
  let p :=
    match p.dp.skb with
    | some skb =>
        if 5 < skb.iph.ihl then
          { p with skbRest := { p.skbRest with opts := unrecordRoute p.skbRest.opts (rr p.skbRest.opts) } }
        else p
    | none => p
  netSkbCreate (if p.dp.dh.isSome then netOptRemove p else p)

inductive AckReqUse
  | alone | overwrite | insert
deriving DecidableEq, Repr

inductive NetAdd (p : NetPkt) : AckReqUse → NetPkt → Prop
  | alone : NetAdd p .alone p
  | overwrite (mem : ℕ → UInt8) (id : ℕ) :
      p.dp.ackReqOpt ≠ none → NetAdd p .overwrite (netAckReqOptAdd mem p id)
  | insert (mem : ℕ → UInt8) (id : ℕ) :
      p.dp.ackReqOpt = none → NetAdd p .insert (netAckReqOptAdd mem p id)

inductive NetJourney (skb : Skb) (rest : IpRest) (srt : DsrSrt) :
    List InAddr → List AckReqUse → Frame → IpRest → Prop
  | sent {mem mem' : ℕ → UInt8} {p q : NetPkt} {s s' : DsrNode} {site : XmitSite} {use : AckReqUse}
      {f : Frame} :
      netSrtAdd mem srt (netPktAlloc mem' skb rest) = some p →
      (site = .startXmit ∨ site = .sendBuf) → xmit site p.dp s = .ok () s' →
      .send site f ∈ newEvents s s' → NetAdd p use q → f.skb = (netSkbCreate q).1 →
      NetJourney skb rest srt [] [] f (netSkbCreate q).2
  | hop {visited : List InAddr} {uses : List AckReqUse} {f f' : Frame} {r : IpRest} {s s₁ s' : DsrNode}
      {dp' : DsrPkt} {acts : List DsrPktAction} {use : AckReqUse} {q : NetPkt} (hw : HwAddr) (ttl : ℕ) :
      NetJourney skb rest srt visited uses f r → s.ifaddr = f.nxtHop → s.held = [] → 1 ≤ ttl →
      dsrOptRecv (dsrPktAlloc s.kmem (arrive f.skb hw ttl)) s = .ok (dp', acts) s₁ →
      dsrRecv (dsrPktAlloc s.kmem (arrive f.skb hw ttl)) s = .ok () s' →
      .send .forward f' ∈ newEvents s s' → NetAdd ⟨dp', r, ipDataZero⟩ use q →
      f'.skb = (netSkbCreate q).1 →
      NetJourney skb rest srt (visited ++ [s.ifaddr]) (uses ++ [use]) f' (netSkbCreate q).2

theorem expand_isSome (mem : ℕ → UInt8) {dp : DsrPkt} {b : OptBuf} (hb : dp.dh = some b) (len : ℕ) :
    (dsrPktAllocOptsExpand mem dp len).isSome = true := by
  unfold dsrPktAllocOptsExpand
  rw [hb]
  dsimp only
  split <;> rfl

theorem expand_skb {mem : ℕ → UInt8} {dp dp' : DsrPkt} {len off : ℕ}
    (h : dsrPktAllocOptsExpand mem dp len = some (dp', off)) : dp'.skb = dp.skb := by
  unfold dsrPktAllocOptsExpand at h
  split at h
  · cases h
  · split at h
    · cases h
      rfl
    · cases h
      exact (write_same _ _ _).skb_eq

theorem dsrAckReqOptAdd_inserts (mem : ℕ → UInt8) {dp : DsrPkt} {b : OptBuf} (hnone : dp.ackReqOpt = none)
    (hb : dp.dh = some b) (id : ℕ) : (dsrAckReqOptAdd mem dp id).nh = .ipData ∧
      (dsrAckReqOptAdd mem dp id).skb = dp.skb := by
  unfold dsrAckReqOptAdd
  rw [hnone]
  dsimp only
  split
  · exact ⟨((write_same _ _ _).trans (write_same _ _ _)).nh, ((write_same _ _ _).trans (write_same _ _ _)).skb_eq⟩
  · split
    · next he =>
      have hsome := expand_isSome mem hb dsrAckReqHdrLen
      rw [he] at hsome
      cases hsome
    · next dp₁ off he =>
      have hskb : dp₁.skb = dp.skb := expand_skb he
      exact ⟨((write_same _ _ _).trans (write_same _ _ _)).nh,
        ((write_same _ _ _).trans (write_same _ _ _)).skb_eq.trans hskb⟩

theorem dsrAckReqOptAdd_overwrites (mem : ℕ → UInt8) {dp : DsrPkt} (hsome : dp.ackReqOpt ≠ none) (id : ℕ) :
    SameHdr dp (dsrAckReqOptAdd mem dp id) := by
  obtain ⟨p, hp⟩ := Option.ne_none_iff_exists'.mp hsome
  unfold dsrAckReqOptAdd
  rw [hp]
  exact writeField_same _ _ _ _

namespace NetAdd

variable {p q : NetPkt} {use : AckReqUse}

theorem added (h : NetAdd p use q) : AckReqAdded p.dp q.dp := by
  cases h with
  | alone => exact .same
  | overwrite mem id hsome =>
    obtain ⟨a, ha⟩ := Option.ne_none_iff_exists'.mp hsome
    rw [netAckReqOptAdd, ha]
    exact .add mem id
  | insert mem id hnone =>
    rw [netAckReqOptAdd, hnone]
    dsimp only
    split <;> exact .add mem id

theorem of_added {dp' : DsrPkt} (h : AckReqAdded p.dp dp') : ∃ use q, NetAdd p use q ∧ q.dp = dp' := by
  cases h with
  | same => exact ⟨.alone, p, .alone, rfl⟩
  | add mem id =>
    cases hp : p.dp.ackReqOpt with
    | none =>
      refine ⟨.insert, _, .insert mem id hp, ?_⟩
      rw [netAckReqOptAdd, hp]
      dsimp only
      split <;> rfl
    | some a =>
      refine ⟨.overwrite, _, .overwrite mem id (by rw [hp]; exact Option.some_ne_none a), ?_⟩
      rw [netAckReqOptAdd, hp]

theorem rest (h : NetAdd p use q) {skb : Skb} (hskb : p.dp.skb = some skb) {b : OptBuf} (hb : p.dp.dh = some b) :
    q.rest = if use = .insert then { p.skbRest with opts := p.dataRest.opts } else p.rest := by
  cases h with
  | alone => rfl
  | overwrite mem id hsome =>
    obtain ⟨a, ha⟩ := Option.ne_none_iff_exists'.mp hsome
    have hsame := dsrAckReqOptAdd_overwrites mem hsome id
    rw [if_neg (by decide), netAckReqOptAdd, ha]
    unfold NetPkt.rest
    dsimp only
    rw [hsame.nh, hsame.skb_eq]
  | insert mem id hnone =>
    obtain ⟨hnh, -⟩ := dsrAckReqOptAdd_inserts mem hnone hb id
    rw [if_pos rfl, netAckReqOptAdd, hnone]
    dsimp only
    rw [if_pos (Or.inr (expand_isSome mem hb _)), NetPkt.rest]
    dsimp only
    rw [hnh, netBuildIp, hskb]
    rfl

end NetAdd

theorem dsrSrtAdd_nh {mem : ℕ → UInt8} {dp dp' : DsrPkt} (h : dsrSrtAdd mem dp = some dp') :
    dp'.nh = .ipData ∧ dp'.skb = dp.skb := by
  unfold dsrSrtAdd at h
  split at h
  · cases h
  · obtain ⟨dp₁, h₁, h⟩ := Option.bind_eq_some_iff.mp h
    obtain ⟨dp₂, h₂, rfl⟩ := Option.map_eq_some_iff.mp h
    unfold dsrOptHdrAdd at h₁
    unfold dsrSrtOptAdd at h₂
    split at h₁
    · cases h₁
    split at h₂
    · cases h₂
    cases h₁
    cases h₂
    exact ⟨((write_same _ _ _).trans (write_same _ _ _)).nh, ((write_same _ _ _).trans (write_same _ _ _)).skb_eq⟩

def crossed (rest : IpRest) (uses : List AckReqUse) : IpRest :=
  if .insert ∈ uses then { rest with opts := List.replicate rest.opts.length 0 } else rest

section Crossing

variable {skb : Skb} {rest r : IpRest} {srt : DsrSrt} {visited : List InAddr} {uses : List AckReqUse} {f : Frame}

theorem netSrtAdd_rest {mem mem' : ℕ → UInt8} {p q : NetPkt} {use : AckReqUse} (hfit : RouteFits srt skb)
    (hrest : rest.opts.length + ipHdrLen = 4 * skb.iph.ihl)
    (h : netSrtAdd mem srt (netPktAlloc mem' skb rest) = some p) (hq : NetAdd p use q) :
    (netSkbCreate q).2 = rest := by
  obtain ⟨dp, hadd, rfl⟩ := Option.map_eq_some_iff.mp h
  have hb := dsrSrtAdd_built hfit hadd
  have ha := dsrPktAlloc_head mem' skb
  obtain ⟨hnh, hskb⟩ := dsrSrtAdd_nh hadd
  obtain ⟨hdr, hbuf⟩ := hb.buf
  obtain ⟨junk, hdh⟩ := hbuf.dh
  have hihl : q.dp.iph.ihl = skb.iph.ihl := (hq.added.payIs hb.payIs).ihl
  have hdata : netBuildIp (4 * (netPktAlloc mem' skb rest).dp.iph.ihl) (netPktAlloc mem' skb rest) =
      { rest with opts := rest.opts ++ ipDataZero.opts.drop rest.opts.length } := by
    have hlen : 4 * skb.iph.ihl - ipHdrLen = rest.opts.length := by omega
    unfold netBuildIp netPktAlloc
    dsimp only
    rw [ha.skb_eq, ha.iph]
    dsimp only
    rw [IpRest.copy, hlen, List.take_length]
  have hqrest : q.rest = { rest with opts := rest.opts ++ ipDataZero.opts.drop rest.opts.length } := by
    rw [hq.rest (hskb.trans ha.skb_eq) hdh]
    split
    · dsimp only
      rw [hdata]
      rfl
    · rw [NetPkt.rest]
      dsimp only
      rw [hnh, hdata]
  have htake : 4 * q.dp.iph.ihl - ipHdrLen = rest.opts.length := by omega
  rw [netSkbCreate, hqrest, htake]
  dsimp only
  rw [List.take_left]

theorem relayed_rest {dp' : DsrPkt} {q : NetPkt} {use : AckReqUse} {wire : Skb} {b : OptBuf}
    (hr : r.opts.length + ipHdrLen = 4 * wire.iph.ihl) (hw : wire.iph.ihl < 16) (hnh : dp'.nh = .skb)
    (hskb : dp'.skb = some wire) (hdh : dp'.dh = some b) (hq : NetAdd ⟨dp', r, ipDataZero⟩ use q) (hihl : q.dp.iph.ihl = wire.iph.ihl) :
    (netSkbCreate q).2 = crossed r [use] := by
  have hself : NetPkt.rest ⟨dp', r, ipDataZero⟩ = r := by
    rw [NetPkt.rest]
    dsimp only
    rw [hnh, hskb]
  have hlen : 4 * q.dp.iph.ihl - ipHdrLen = r.opts.length := by omega
  rw [netSkbCreate, hq.rest hskb hdh, hlen, hself]
  unfold crossed
  by_cases huse : use = .insert
  · rw [if_pos huse, if_pos (List.mem_singleton.mpr huse.symm)]
    dsimp only [ipDataZero]
    rw [List.take_replicate]
    unfold ipHdrLen at hr
    rw [Nat.min_eq_left (by omega)]
  · rw [if_neg huse, if_neg fun hm => huse (List.mem_singleton.mp hm).symm, List.take_length]

theorem crossed_append (rest : IpRest) (uses : List AckReqUse) (use : AckReqUse) :
    crossed (crossed rest uses) [use] = crossed rest (uses ++ [use]) := by
  unfold crossed
  by_cases hm : AckReqUse.insert ∈ uses
  · rw [if_pos hm, if_pos (List.mem_append_left _ hm)]
    split
    · dsimp only
      rw [List.length_replicate]
    · rfl
  · rw [if_neg hm]
    simp only [List.mem_append, hm, false_or]

theorem length_crossed (rest : IpRest) (uses : List AckReqUse) :
    (crossed rest uses).opts.length = rest.opts.length := by
  unfold crossed
  split
  · exact List.length_replicate
  · rfl

theorem NetJourney.journey (h : NetJourney skb rest srt visited uses f r) : Journey skb srt visited f := by
  induction h with
  | sent hadd hsite hrun hf _ _ =>
    obtain ⟨dp, hdp, rfl⟩ := Option.map_eq_some_iff.mp hadd
    exact .sent hdp hsite hrun hf
  | hop hw ttl _ hme hs ht _ hrun hf _ _ ih => exact .hop hw ttl ih hme hs ht hrun hf

structure Arrived (skb wire : Skb) (dp : DsrPkt) : Prop where
  nh : dp.nh = .skb
  skb_eq : dp.skb = some wire
  dh : ∃ b, dp.dh = some b
  payIs : PayIs skb.iph.ihl ((skb.iph.totLen : Int) - 4 * skb.iph.ihl) dp

theorem OnRoute.arrived (h : OnRoute skb srt visited f) (hfit : RouteFits srt skb) {s s₁ : DsrNode}
    {dp' : DsrPkt} {acts : List DsrPktAction} (hme : s.ifaddr = f.nxtHop) (hs : s.held = []) (hw : HwAddr) (ttl : ℕ)
    (hrun : dsrOptRecv (dsrPktAlloc s.kmem (arrive f.skb hw ttl)) s = .ok (dp', acts) s₁) :
    Arrived skb (arrive f.skb hw ttl) dp' := by
  have hwire := h.wire.arrive hw ttl
  have ha := dsrPktAlloc_dsr s.kmem hwire.protocol
  obtain ⟨dp₁, acts₁, s₂, harr⟩ := hwire.arrival hfit.length h.le hs (hme.trans h.nxtHop)
  have hrecv := harr.recv
  rw [hrun] at hrecv
  cases hrecv
  obtain ⟨hdr, rest, hproc, -⟩ := harr.proc
  obtain ⟨junk, hdh⟩ := hproc.buf.dh
  have hpay := ((h.pay.arrive hw ttl).alloc hwire.protocol s.kmem).congr hproc.same harr.optsLen
  exact ⟨hproc.same.nh.trans ha.nh, hproc.same.skb_eq.trans ha.skb_eq, ⟨_, hdh⟩, hpay⟩

theorem NetJourney.rest_eq (hfit : RouteFits srt skb) (hloc : LocalSkb skb)
    (hrest : rest.opts.length + ipHdrLen = 4 * skb.iph.ihl) (h : NetJourney skb rest srt visited uses f r) :
    r = crossed rest uses := by
  induction h with
  | sent hadd _ _ _ hq _ => exact netSrtAdd_rest hfit hrest hadd hq
  | @hop visited uses f f' r s s₁ s' dp' acts use q hw ttl hj hme hs ht hrecv _ _ hq _ ih =>
    have hon := hj.journey.onRoute hfit hloc
    have harr := hon.arrived hfit hme hs hw ttl hrecv
    obtain ⟨b, hb⟩ := harr.dh
    have hihl : (arrive f.skb hw ttl).iph.ihl = skb.iph.ihl := hon.pay.ihl
    have hlen : r.opts.length + ipHdrLen = 4 * (arrive f.skb hw ttl).iph.ihl := by
      rw [ih, length_crossed, hihl]
      exact hrest
    have hq' : q.dp.iph.ihl = (arrive f.skb hw ttl).iph.ihl := (hq.added.payIs harr.payIs).ihl.trans hihl.symm
    rw [relayed_rest hlen (by rw [hihl]; exact hloc.ihl) harr.nh harr.skb_eq hb hq hq', ih, crossed_append]

def FindsRecordRoute (rr : List UInt8 → Option ℕ) : Prop :=
  ∀ opts i, rr opts = some i → opts.getD i 0 = 7 ∧ i + 2 < opts.length

theorem sub_four_ne (x : UInt8) : x - 4 ≠ x := by
  intro h
  have hn := congrArg UInt8.toNat h
  rw [UInt8.toNat_sub] at hn
  have hlt := x.toNat_lt
  have hfour : (4 : UInt8).toNat = 4 := rfl
  omega

theorem unrecordRoute_iff {opts : List UInt8} {rr : Option ℕ} (h : ∀ i, rr = some i → i + 2 < opts.length) :
    unrecordRoute opts rr = opts ↔ ¬ recordsRoute opts rr := by
  cases rr with
  | none => exact ⟨fun _ ⟨_, hi, _⟩ => (Option.some_ne_none _ hi.symm).elim, fun _ => rfl⟩
  | some i =>
    have hlt := h i rfl
    unfold unrecordRoute
    dsimp only
    split
    · next hoff =>
      refine ⟨fun heq => ?_, fun hno => absurd ⟨i, rfl, hoff⟩ hno⟩
      have hget := congrArg (fun l => l.getD (i + 2) 0) heq
      have hne : ¬ i + 1 = i + 2 := by omega
      simp only [List.getD_eq_getElem?_getD, List.getElem?_set, List.length_set, if_neg hne, if_pos hlt,
        if_true, Option.getD_some] at hget
      exact absurd hget (sub_four_ne _)
    · next hoff => exact ⟨fun _ ⟨j, hj, hlow⟩ => hoff (Option.some.inj hj ▸ hlow), fun _ => rfl⟩

theorem netOptRemove_rest {wire : Skb} {dp : DsrPkt} (h : Arrived skb wire dp) (hw : wire.iph.ihl = skb.iph.ihl)
    (hr : r.opts.length + ipHdrLen = 4 * skb.iph.ihl) :
    netSkbCreate (netOptRemove ⟨dp, r, ipDataZero⟩) = (dsrSkbCreate (dsrOptRemove dp), r) := by
  have hihl : (dsrOptRemove dp).iph.ihl = skb.iph.ihl := by
    have hiph : (dsrOptRemove dp).iph = { wire.iph with
        totLen := toUint32 (4 * dp.iph.ihl + dp.payloadLen) % 65536, protocol := dp.nextHdr } :=
      iph_dsrBuildIp_skb h.skb_eq _ _ _ _ _
    rw [hiph]
    exact hw
  have hlen : 4 * skb.iph.ihl - ipHdrLen = r.opts.length := by omega
  have hdata : (netOptRemove ⟨dp, r, ipDataZero⟩).rest =
      { r with opts := r.opts ++ ipDataZero.opts.drop r.opts.length } := by
    have hnh : (dsrOptRemove dp).nh = .ipData := rfl
    rw [NetPkt.rest, netOptRemove]
    dsimp only
    rw [hnh, netBuildIp, h.payIs.ihl]
    dsimp only
    rw [h.skb_eq]
    dsimp only
    rw [IpRest.copy, hlen, List.take_length]
  rw [netSkbCreate, hdata]
  dsimp only [netOptRemove]
  rw [hihl, hlen, List.take_left]

theorem netDevDeliver_eq {rr : List UInt8 → Option ℕ} {wire : Skb} {dp : DsrPkt}
    (h : Arrived skb wire dp) (hw : wire.iph.ihl = skb.iph.ihl) (hrr : FindsRecordRoute rr)
    (hr : r.opts.length + ipHdrLen = 4 * skb.iph.ihl) :
    netDevDeliver rr ⟨dp, r, ipDataZero⟩ =
      (dsrSkbCreate (dsrOptRemove dp), { r with opts := unrecordRoute r.opts (rr r.opts) }) := by
  obtain ⟨b, hb⟩ := h.dh
  have hlen : ∀ xs : List UInt8, ∀ o, (unrecordRoute xs o).length = xs.length := by
    intro xs o
    unfold unrecordRoute
    split
    · rfl
    · split
      · rw [List.length_set, List.length_set]
      · rfl
  unfold netDevDeliver
  dsimp only
  rw [h.skb_eq]
  dsimp only
  split
  · next hlong =>
    dsimp only
    rw [hb, Option.isSome_some, if_pos rfl, netOptRemove_rest h hw]
    dsimp only
    rw [hlen]
    exact hr
  · next hshort =>
    have hnil : r.opts = [] := by
      rw [hw] at hshort
      unfold ipHdrLen at hr
      exact List.length_eq_zero_iff.mp (by omega)
    have hnone : rr r.opts = none := by
      cases ho : rr r.opts with
      | none => rfl
      | some i =>
        have hlt := (hrr _ _ ho).2
        rw [hnil] at hlt
        exact absurd hlt (Nat.not_lt_zero _)
    rw [hb, Option.isSome_some, if_pos rfl, netOptRemove_rest h hw hr, hnone]
    rfl

theorem replicate_zero_iff (xs : List UInt8) : List.replicate xs.length 0 = xs ↔ ∀ b ∈ xs, b = 0 := by
  rw [eq_comm, List.eq_replicate_iff]
  exact ⟨fun h => h.2, fun h => ⟨rfl, h⟩⟩

theorem crossed_intact_iff {rr : List UInt8 → Option ℕ} (hrr : FindsRecordRoute rr) :
    { crossed rest uses with
      opts := unrecordRoute (crossed rest uses).opts (rr (crossed rest uses).opts) } = rest ↔
      (∀ b ∈ rest.opts, b = 0) ∨ .insert ∉ uses ∧ ¬ recordsRoute rest.opts (rr rest.opts) := by
  have hzero : ∀ xs : List UInt8, (∀ b ∈ xs, b = 0) → rr xs = none := by
    intro xs hxs
    cases ho : rr xs with
    | none => rfl
    | some i =>
      obtain ⟨hseven, hlt⟩ := hrr _ _ ho
      have hi : i < xs.length := by omega
      rw [List.getD_eq_getElem?_getD, List.getElem?_eq_getElem hi, Option.getD_some, hxs _ (List.getElem_mem hi)]
        at hseven
      exact absurd hseven (by decide)
  have hopts : ∀ o : List UInt8, { rest with opts := o } = rest ↔ o = rest.opts :=
    fun o => ⟨fun h => congrArg IpRest.opts h, fun h => by rw [h]⟩
  unfold crossed
  by_cases huse : AckReqUse.insert ∈ uses
  · rw [if_pos huse]
    dsimp only
    rw [hzero _ fun b hb => List.eq_of_mem_replicate hb]
    have heq := (hopts (List.replicate rest.opts.length 0)).trans (replicate_zero_iff _)
    exact heq.trans ⟨Or.inl, fun h => h.resolve_right fun hno => hno.1 huse⟩
  · rw [if_neg huse, hopts, unrecordRoute_iff fun i hi => (hrr _ _ hi).2]
    refine ⟨fun h => Or.inr ⟨huse, h⟩, fun h => ?_⟩
    rcases h with hz | h
    · rw [hzero _ hz]
      exact fun ⟨_, hi, _⟩ => Option.some_ne_none _ hi.symm
    · exact h.2

theorem Journey.net (hfit : RouteFits srt skb) (hloc : LocalSkb skb) (h : Journey skb srt visited f)
    (rest : IpRest) : ∃ uses r, NetJourney skb rest srt visited uses f r := by
  induction h with
  | @sent mem mem' dp s s' site f hadd hsite hrun hf =>
    obtain ⟨dp', hack, -, hskb⟩ := xmit_sent_frame (by rcases hsite with rfl | rfl <;> exact nofun) hrun hf
    have hnet : netSrtAdd mem srt (netPktAlloc mem' skb rest) = some
        ⟨dp, rest, netBuildIp (4 * (dsrPktAlloc mem' skb).iph.ihl) (netPktAlloc mem' skb rest)⟩ :=
      Option.map_eq_some_iff.mpr ⟨dp, hadd, rfl⟩
    obtain ⟨use, q, hq, rfl⟩ := NetAdd.of_added (p := ⟨dp, rest, _⟩) hack
    exact ⟨_, _, .sent hnet hsite hrun hf hq hskb⟩
  | @hop visited f f' s s' hw ttl hj hme hs ht hrun hf ih =>
    obtain ⟨uses, r, hnet⟩ := ih
    have hon := hj.onRoute hfit hloc
    have hlt : visited.length < srt.addrs.length := by
      have hle := (hon.hop hfit hloc hw hme hs ht hrun hf).le
      rw [List.length_append, List.length_singleton] at hle
      exact hle
    have hwire := hon.wire.arrive hw ttl
    obtain ⟨dp', acts, s₁, harr⟩ := hwire.arrival hfit.length hon.le hs (hme.trans hon.nxtHop)
    have hfwd := harr.recv_forward (dsrPktAlloc_dsr s.kmem hwire.protocol).promisc
      (by rw [alloc_ttl _ hwire]; exact ht) hlt
    have hsent := hrun
    rw [hfwd] at hsent
    obtain ⟨dp₂, hack, -, hskb⟩ := (xmit_forward_events harr.aside hsent).2.2 f' hf
    obtain ⟨use, q, hq, rfl⟩ := NetAdd.of_added (p := ⟨dp', r, ipDataZero⟩) hack
    exact ⟨_, _, .hop hw ttl hnet hme hs ht harr.recv hrun hf hq hskb⟩

structure NetDelivers (rr : List UInt8 → Option ℕ) (wire : Skb) (r : IpRest) (s : DsrNode)
    (out : Skb × IpRest) : Prop where
  recv : ∃ dp' acts s₁ s', dsrOptRecv (dsrPktAlloc s.kmem wire) s = .ok (dp', acts) s₁ ∧
    dsrRecv (dsrPktAlloc s.kmem wire) s = .ok () s' ∧
    (newEvents s s').filter isDeliver = [.deliver (dsrOptRemove dp')] ∧
    netDevDeliver rr ⟨dp', r, ipDataZero⟩ = out

theorem NetJourney.delivered {rr : List UInt8 → Option ℕ} (h : NetJourney skb rest srt visited uses f r)
    (hrr : FindsRecordRoute rr) (hc : Sendable srt skb) (hprot : skb.iph.protocol < 256)
    (hdata : 4 * skb.iph.ihl + skb.data.length = skb.iph.totLen) (hpos : skb.data ≠ [])
    (hrest : rest.opts.length + ipHdrLen = 4 * skb.iph.ihl) (hlast : visited.length = srt.addrs.length)
    {s : DsrNode} (hme : s.ifaddr = f.nxtHop) (hs : s.held = []) (hw : HwAddr) (ttl : ℕ) : ∃ out,
      NetDelivers rr (arrive f.skb hw ttl) r s out ∧
      out.1 = { hSource := 0, iph := { skb.iph with ttl := ttl }, data := skb.data } ∧
      out.2 = { crossed rest uses with
        opts := unrecordRoute (crossed rest uses).opts (rr (crossed rest uses).opts) } := by
  obtain ⟨s', d, hrun, hdel, hd⟩ := journey_delivers hc hprot hdata hpos h.journey hlast hme hs hw ttl
  have hon := h.journey.onRoute hc.fits hc.loc
  have hwire := hon.wire.arrive hw ttl
  obtain ⟨dp', acts, s₁, harr⟩ := hwire.arrival hc.fits.length hon.le hs (hme.trans hon.nxtHop)
  have harrived := hon.arrived hc.fits hme hs hw ttl harr.recv
  have hihl : (arrive f.skb hw ttl).iph.ihl = skb.iph.ihl := hon.pay.ihl
  have heq := h.rest_eq hc.fits hc.loc hrest
  have hr : r.opts.length + ipHdrLen = 4 * skb.iph.ihl := by
    rw [heq, length_crossed]
    exact hrest
  obtain rfl : d = dsrOptRemove dp' := by
    have hdst : s.ifaddr = skb.iph.daddr := by
      rw [hme, hon.nxtHop, hlast]
      simp
    have hrecv := harr.recv_last (dsrPktAlloc_dsr s.kmem hwire.protocol).promisc hdst hlast
    rw [hrun] at hrecv
    split at hrecv
    · obtain ⟨b, hb⟩ := harrived.dh
      rw [dsrDevDeliver, hb, Option.isSome_some, if_pos rfl] at hrecv
      cases hrecv
      have hmem : Event.deliver (dsrOptRemove dp') ∈ (newEvents s
          { s₁ with out := s₁.out ++ [.deliver (dsrOptRemove dp')] }).filter isDeliver := by
        obtain ⟨es, hes, -⟩ := harr.aside.newEvents
        rw [newEvents, hes, List.append_assoc, List.drop_left, List.filter_append]
        exact List.mem_append_right _ (List.mem_singleton_self _)
      rw [hdel] at hmem
      injection List.mem_singleton.mp hmem with hmem
      exact hmem.symm
    · cases hrecv
      obtain ⟨es, hes, hack⟩ := harr.aside.newEvents
      have hmem : Event.deliver d ∈ (newEvents s s').filter isDeliver := by
        rw [hdel]
        exact List.mem_singleton_self _
      rw [newEvents, hes, List.drop_left] at hmem
      obtain ⟨hin, hd⟩ := List.mem_filter.mp hmem
      rw [ackEvent_not_deliver _ (hack _ hin)] at hd
      cases hd
  refine ⟨_, ⟨dp', acts, s₁, s', harr.recv, hrun, hdel, rfl⟩, ?_, ?_⟩
  · rw [netDevDeliver_eq harrived hihl hrr hr]
    exact hd
  · rw [netDevDeliver_eq harrived hihl hrr hr, heq]

end Crossing

def netAdd (use : AckReqUse) (p : NetPkt) : Option NetPkt :=
  match use with
  | .alone => some p
  | .overwrite => if p.dp.ackReqOpt ≠ none then some (netAckReqOptAdd (fun _ => 0) p 7) else none
  | .insert => if p.dp.ackReqOpt = none then some (netAckReqOptAdd (fun _ => 0) p 7) else none

theorem netAdd_add {use : AckReqUse} {p q : NetPkt} (h : netAdd use p = some q) : NetAdd p use q := by
  cases use with
  | alone =>
    cases h
    exact .alone
  | overwrite =>
    obtain ⟨hp, hq⟩ := Option.ite_none_right_eq_some.mp h
    cases hq
    exact .overwrite _ _ hp
  | insert =>
    obtain ⟨hp, hq⟩ := Option.ite_none_right_eq_some.mp h
    cases hq
    exact .insert _ _ hp

def crossSkb : Skb :=
  { hSource := 0
    iph := { ihl := 6, totLen := 25, ttl := 64, protocol := 17, saddr := detourHost 1
             daddr := detourHost 4 }
    data := [255] }

def crossRest : IpRest := ⟨4, 0, 7, 0, [1, 1, 1, 0]⟩

def crossRoute : DsrSrt :=
  { src := detourHost 1, dst := detourHost 4, flags := 0, laddrs := 4, addrs := [detourHost 2] }

def crossNode (i : UInt8) (known : List Neighbor) : DsrNode :=
  { followNode i with neighTbl := { head := known, len := known.length, maxLen := neighTblMaxLen } }

def crossSent (s : DsrNode) (use : AckReqUse) : List (Frame × IpRest) :=
  match netSrtAdd (fun _ => 0) crossRoute (netPktAlloc (fun _ => 0) crossSkb crossRest) with
  | none => []
  | some p =>
      match netAdd use p with
      | none => []
      | some q => ((sentBy .startXmit (xmit .startXmit p.dp) s).filter fun f => f.skb = (netSkbCreate q).1).map
          fun f => (f, (netSkbCreate q).2)

def crossHop (s : DsrNode) (use : AckReqUse) (x : Frame × IpRest) : List (Frame × IpRest) :=
  match dsrOptRecv (dsrPktAlloc s.kmem (arrive x.1.skb 1 64)) s with
  | .error _ _ => []
  | .ok r _ =>
      match netAdd use ⟨r.1, x.2, ipDataZero⟩ with
      | none => []
      | some q => ((sentBy .forward (dsrRecv (dsrPktAlloc s.kmem (arrive x.1.skb 1 64))) s).filter fun f =>
          f.skb = (netSkbCreate q).1).map fun f => (f, (netSkbCreate q).2)

theorem crossSent_journey {s : DsrNode} {use : AckReqUse} {x : Frame × IpRest} (h : x ∈ crossSent s use) :
    NetJourney crossSkb crossRest crossRoute [] [] x.1 x.2 := by
  unfold crossSent at h
  split at h
  · exact absurd h List.not_mem_nil
  · next p hp =>
    split at h
    · exact absurd h List.not_mem_nil
    · next q hq =>
      obtain ⟨f, hf, rfl⟩ := List.mem_map.mp h
      obtain ⟨hf, hskb⟩ := List.mem_filter.mp hf
      obtain ⟨s', hrun, hsent⟩ := mem_sentBy hf
      exact .sent hp (Or.inl rfl) hrun hsent (netAdd_add hq) (of_decide_eq_true hskb)

theorem crossHop_journey {s : DsrNode} {use : AckReqUse} {x y : Frame × IpRest} {visited : List InAddr}
    {uses : List AckReqUse} (hj : NetJourney crossSkb crossRest crossRoute visited uses x.1 x.2)
    (hme : s.ifaddr = x.1.nxtHop) (hs : s.held = []) (h : y ∈ crossHop s use x) :
    NetJourney crossSkb crossRest crossRoute (visited ++ [s.ifaddr]) (uses ++ [use]) y.1 y.2 := by
  unfold crossHop at h
  split at h
  · exact absurd h List.not_mem_nil
  · next r s₁ hrecv =>
    split at h
    · exact absurd h List.not_mem_nil
    · next q hq =>
      obtain ⟨f, hf, rfl⟩ := List.mem_map.mp h
      obtain ⟨hf, hskb⟩ := List.mem_filter.mp hf
      obtain ⟨s', hrun, hsent⟩ := mem_sentBy hf
      exact .hop 1 64 hj hme hs (by decide) hrecv hrun hsent (netAdd_add hq) (of_decide_eq_true hskb)

def crossLast (known : List Neighbor) (use use' : AckReqUse) : List (Frame × IpRest) :=
  (crossSent (crossNode 1 known) use).flatMap fun x =>
    if detourHost 2 = x.1.nxtHop then
      (crossHop (crossNode 2 [neighTblCreate (detourHost 4) 1 7]) use' x).filter fun y => detourHost 4 = y.1.nxtHop
    else []

theorem crossLast_journey {known : List Neighbor} {use use' : AckReqUse} {y : Frame × IpRest}
    (h : y ∈ crossLast known use use') :
    NetJourney crossSkb crossRest crossRoute [detourHost 2] [use'] y.1 y.2 ∧ detourHost 4 = y.1.nxtHop := by
  obtain ⟨x, hx, hy⟩ := List.mem_flatMap.mp h
  split at hy
  · next hme =>
    obtain ⟨hy, hlast⟩ := List.mem_filter.mp hy
    exact ⟨crossHop_journey (s := crossNode 2 _) (crossSent_journey hx) hme rfl hy, of_decide_eq_true hlast⟩
  · exact absurd hy List.not_mem_nil

def recordRouteFrom (opts : List UInt8) : ℕ → ℕ → Option ℕ
  | 0, _ => none
  | fuel + 1, i =>
      if opts.getD i 0 = 0 then none
      else if opts.getD i 0 = 1 then recordRouteFrom opts fuel (i + 1)
      else if opts.getD i 0 = 7 ∧ i + 2 < opts.length then some i
      else recordRouteFrom opts fuel (i + max 2 (opts.getD (i + 1) 0).toNat)

def recordRoute (opts : List UInt8) : Option ℕ := recordRouteFrom opts opts.length 0

theorem recordRouteFrom_finds (opts : List UInt8) (fuel : ℕ) : ∀ {i j : ℕ},
    recordRouteFrom opts fuel i = some j → opts.getD j 0 = 7 ∧ j + 2 < opts.length := by
  induction fuel with
  | zero =>
    intro i j h
    cases h
  | succ fuel ih =>
    intro i j h
    unfold recordRouteFrom at h
    split at h
    · cases h
    · split at h
      · exact ih h
      · split at h
        · next hrr =>
          cases h
          exact hrr
        · exact ih h

theorem recordRoute_finds : FindsRecordRoute recordRoute := fun opts _ h => recordRouteFrom_finds opts _ h

theorem crossSendable : Sendable crossRoute crossSkb :=
  ⟨⟨rfl, rfl, rfl, by decide⟩, ⟨by decide, by decide, by decide⟩, by decide, by decide⟩

end DsrUu
