import DsrUu.Node.Delivered
import DsrUu.Node.HdrLen
import DsrUu.Node.RrepReply

namespace DsrUu

open Bytes Effect

structure OwnSkb (skb : Skb) : Prop where
  loc : LocalSkb skb
  protocol : skb.iph.protocol ≠ ipprotoDsr
  byte : skb.iph.protocol < 256
  complete : 4 * skb.iph.ihl + skb.data.length = skb.iph.totLen
  apart : skb.iph.saddr ≠ skb.iph.daddr

structure OwnRoute (skb : Skb) (srt : DsrSrt) : Prop where
  src : srt.src = skb.iph.saddr
  dst : srt.dst = skb.iph.daddr
  laddrs : srt.laddrs = 4 * srt.addrs.length
  nodup : (skb.iph.saddr :: (srt.addrs ++ [skb.iph.daddr])).Nodup

structure Originated (given : Skb → Prop) (skb : Skb) (srt : DsrSrt) (dp : DsrPkt) : Prop where
  given : given skb
  own : OwnSkb skb
  route : OwnRoute skb srt
  added : ∃ mem mem', dsrSrtAdd mem { dsrPktAlloc mem' skb with srt := some srt } = some dp

inductive Relayed (f₀ : Frame) : List InAddr → Frame → Prop
  | start : Relayed f₀ [] f₀
  | hop {visited : List InAddr} {f f' : Frame} {s s' : DsrNode} (hw : HwAddr) (ttl : ℕ) :
      Relayed f₀ visited f → s.ifaddr = f.nxtHop → s.held = [] → 1 ≤ ttl →
      dsrRecv (dsrPktAlloc s.kmem (arrive f.skb hw ttl)) s = .ok () s' →
      .send .forward f' ∈ newEvents s s' → Relayed f₀ (visited ++ [s.ifaddr]) f'

section Origin

variable {given : Skb → Prop}

def OwnPkt (given : Skb → Prop) (site : XmitSite) (dp : DsrPkt) : Prop :=
  site = .startXmit ∨ site = .sendBuf → ∃ skb srt, Originated given skb srt dp

def OwnEvent (given : Skb → Prop) : Event → Prop
  | .send site f => site = .startXmit ∨ site = .sendBuf →
      ∃ skb srt dp, Originated given skb srt dp ∧ FrameOf dp f
  | _ => True

def OwnWaiting (given : Skb → Prop) (dp : DsrPkt) : Prop :=
  ∃ mem skb, given skb ∧ OwnSkb skb ∧ dp = dsrPktAlloc mem skb

structure OwnInv (given : Skb → Prop) (s : DsrNode) : Prop where
  lc : LcSound s.lc
  sendBuf : ∀ e ∈ s.sendBuf.head, OwnWaiting given e.dp
  out : ∀ e ∈ s.out, OwnEvent given e

theorem OwnInv.emit {s : DsrNode} (h : OwnInv given s) {e : Event} (he : OwnEvent given e) :
    OwnInv given { s with out := s.out ++ [e] } :=
  ⟨h.lc, h.sendBuf, forall_mem_snoc h.out he⟩

theorem OwnPkt.other {site : XmitSite} {dp : DsrPkt} (hx : site ≠ .startXmit)
    (hb : site ≠ .sendBuf) : OwnPkt given site dp :=
  fun h => (h.elim hx hb).elim

theorem OwnWaiting.originated {dp dp' : DsrPkt} {mem : ℕ → UInt8} {lc lc' : LcGraph} {flags : ℕ}
    {f : SrtFind} {srt : DsrSrt} (h : OwnWaiting given dp) (hlc : LcSound lc)
    (hfind : lcSrtFind flags dp.src dp.dst lc = some (f, lc')) (hsrt : f.srt = some srt)
    (hadd : dsrSrtAdd mem { dp with srt := some srt } = some dp') :
    ∃ skb srt, Originated given skb srt dp' := by
  obtain ⟨mem', skb, hgiven, hown, rfl⟩ := h
  have ha := dsrPktAlloc_head mem' skb
  rw [ha.src, ha.dst] at hfind
  obtain ⟨f', lc₁, hfind', -, hres⟩ := lcSrtFind_sound hlc hown.apart flags
  rw [hfind, Option.some.injEq, Prod.mk.injEq] at hfind'
  obtain ⟨rfl, -⟩ := hfind'
  obtain ⟨c, hroute⟩ := hres.route hsrt
  have hroute' : OwnRoute skb srt :=
    ⟨hroute.src_eq, hroute.dst_eq, hroute.laddrs, hroute.nodup⟩
  exact ⟨skb, srt, hgiven, hown, hroute', mem, mem', hadd⟩

theorem own_recvClosed : RecvClosed (OwnInv given) (fun _ _ => True)
    (fun _ site dp => OwnPkt given site dp) (OwnWaiting given) fun _ => True where
  held _ _ h := ⟨h.lc, h.sendBuf, h.out⟩
  lc _ op _ hunit hop h := ⟨op.exec_sound h.lc hunit hop, h.sendBuf, h.out⟩
  neighTbl _ _ h := ⟨h.lc, h.sendBuf, h.out⟩
  gratRrepTbl _ _ h := ⟨h.lc, h.sendBuf, h.out⟩
  gratTimer _ _ h := ⟨h.lc, h.sendBuf, h.out⟩
  ackTimer _ _ h := ⟨h.lc, h.sendBuf, h.out⟩
  carry _ _ _ _ _ := trivial
  retime _ _ _ _ _ _ := trivial
  entries _ _ _ _ := trivial
  maintBuf _ _ h _ := ⟨h.lc, h.sendBuf, h.out⟩
  ackReqSend _ _ _ _ _ _ _ := .other nofun nofun
  rerrSend _ _ _ _ _ _ _ _ _ _ _ _ _ _ := .other nofun nofun
  salvage _ _ _ _ _ _ _ _ _ _ _ _ := .other nofun nofun
  emitXmit _ _ _ h _ := h.emit trivial
  emitMaint _ _ h := h.emit trivial
  emitAckReq _ _ _ h := h.emit trivial
  newEntry _ _ _ _ _ _ _ _ _ _ _ _ _ _ := trivial
  emitSend _ _ _ dp dp' _ hp _ h hsent := h.emit fun hsite => by
    obtain ⟨skb, srt, ho⟩ := hp hsite
    exact ⟨skb, srt, dp, ho, dp', hsent.added, rfl, rfl⟩
  rreqTbl _ _ h := ⟨h.lc, h.sendBuf, h.out⟩
  rreqBrk _ _ h := ⟨h.lc, h.sendBuf, h.out⟩
  rreqSeqno _ _ h := ⟨h.lc, h.sendBuf, h.out⟩
  sendBufTimer _ _ h := ⟨h.lc, h.sendBuf, h.out⟩
  waiting _ h := h.sendBuf
  sendBuf _ _ h ht := ⟨h.lc, ht, h.out⟩
  emitDeliver _ _ h := h.emit trivial
  emitIcmp _ _ h := h.emit trivial
  emitDiscovery _ _ _ h := h.emit trivial
  emitSendBuf _ _ h := h.emit trivial
  rreqSend _ _ _ _ _ _ _ := .other nofun nofun
  srtAdd _ _ _ _ _ _ _ _ h hH hfind hsrt hadd := fun _ => hH.originated h.lc hfind hsrt hadd
  rrepSend _ _ _ _ _ _ := .other nofun nofun
  ackSend _ _ _ _ _ _ := .other nofun nofun
  forward _ _ _ _ := .other nofun nofun
  forwardRreq _ _ _ _ := .other nofun nofun
  notes _ _ _ _ _ := trivial
  setDaddr _ _ _ := trivial
  setSleft _ _ _ _ _ := trivial
  rreqAppend _ _ _ _ _ _ _ := trivial

theorem own_environmental : Environmental (OwnInv given) where
  init _ _ _ _ _ _ _ :=
    ⟨lcInit_sound, fun _ he => absurd he List.not_mem_nil, fun _ he => absurd he List.not_mem_nil⟩
  env _ _ _ _ _ _ h := ⟨h.lc, h.sendBuf, h.out⟩

def ownInput (given : Skb → Prop) (_ : DsrNode) : Input → Prop
  | .startXmit skb => given skb ∧ OwnSkb skb
  | _ => True

theorem own_admits (s : DsrNode) (i : Input) (h : ownInput given s i) :
    Admits (OwnWaiting given) (fun _ => True) s i := by
  cases i with
  | startXmit skb => exact ⟨s.kmem, skb, h.1, h.2, rfl⟩
  | recv promisc skb => exact fun _ _ => trivial
  | _ => trivial

theorem NodeReach.own {s : DsrNode} (h : NodeReach (ownInput given) s) : OwnInv given s :=
  own_recvClosed.reach own_environmental own_admits h

end Origin

section Relays

variable {given : Skb → Prop} {skb : Skb} {srt : DsrSrt} {visited : List InAddr} {f₀ f : Frame}
  {dp : DsrPkt}

theorem Originated.sendable (h : Originated given skb srt dp) (hlen : srt.addrs.length ≤ 63)
    (hroom : skb.iph.totLen + 4 * srt.addrs.length + 12 < 65536) : Sendable srt skb :=
  ⟨⟨h.route.src, h.route.dst, h.route.laddrs, hlen⟩, h.own.loc, h.own.protocol, hroom⟩

theorem AckReqAdded.opts {n : ℕ} {dp' : DsrPkt} (h : AckReqAdded dp dp') (hn : OptsOf n dp)
    (hle : dsrOptHdrLen ≤ n) : ∃ k, OptsOf (n + k) dp' := by
  cases h with
  | same => exact ⟨0, hn⟩
  | add mem id => exact ⟨_, hn.ackReqOptAdd hle mem id⟩

theorem Originated.addrs_le (h : Originated given skb srt dp) (hf : FrameOf dp f₀) :
    4 * srt.addrs.length ≤ f₀.skb.data.length := by
  obtain ⟨mem, mem', hadd⟩ := h.added
  obtain ⟨dp', hack, -, hskb⟩ := hf
  obtain ⟨k, hopts⟩ := hack.opts (dsrSrtAdd_opts rfl hadd) (Nat.le_add_right _ _)
  obtain ⟨raw, hdh⟩ := hopts.dh
  rw [hskb, dsrSkbCreate, List.length_append, bytesAt_dh hdh, length_readAt, hopts.optsLen, dsrSrtOptLen,
    h.route.laddrs]
  omega

theorem OwnSkb.payload (h : OwnSkb skb) :
    readAt skb.data 0 (skb.iph.totLen - 4 * skb.iph.ihl) = skb.data := by
  have hlen : skb.iph.totLen - 4 * skb.iph.ihl = skb.data.length := by
    have hc := h.complete
    omega
  rw [hlen, readAt_whole]

theorem Relayed.onRoute (h : Relayed f₀ visited f) (hc : Sendable srt skb) (hown : OwnSkb skb)
    (hon : OnRoute skb srt [] f₀) (hi : Unharmed (UInt8.ofNat skb.iph.protocol) skb.data f₀.skb) :
    OnRoute skb srt visited f ∧ Unharmed (UInt8.ofNat skb.iph.protocol) skb.data f.skb := by
  have hlen : skb.data.length = skb.iph.totLen - 4 * skb.iph.ihl := by
    have hcomp := hown.complete
    omega
  induction h with
  | start => exact ⟨hon, hi⟩
  | hop hw ttl _ hme hs ht hrun hf ih =>
    obtain ⟨hon', hi'⟩ := ih
    have hnext := hon'.hop hc.fits hc.loc hw hme hs ht hrun hf
    exact ⟨hnext, hon'.hop_intact hc hi' hlen hw hme hs ht hrun hf⟩

theorem own_frames_delivered {s₀ : DsrNode} (h : NodeReach (ownInput given) s₀) {site : XmitSite}
    (hsite : site = .startXmit ∨ site = .sendBuf) (hf : .send site f₀ ∈ s₀.out) : ∃ skb srt dp,
      Originated given skb srt dp ∧ FrameOf dp f₀ ∧
      (srt.addrs.length ≤ 63 → skb.iph.totLen + 4 * srt.addrs.length + 12 < 65536 →
        ∀ visited f, Relayed f₀ visited f → visited = srt.addrs.take visited.length ∧
          f.nxtHop = (srt.addrs ++ [skb.iph.daddr]).getD visited.length default ∧
          (visited.length = srt.addrs.length → skb.data ≠ [] →
            ∀ (s : DsrNode) (hw : HwAddr) (ttl : ℕ), s.ifaddr = f.nxtHop → s.held = [] →
              ∃ s' d, dsrRecv (dsrPktAlloc s.kmem (arrive f.skb hw ttl)) s = .ok () s' ∧
                (newEvents s s').filter isDeliver = [.deliver d] ∧
                dsrSkbCreate d =
                  { hSource := 0, iph := { skb.iph with ttl := ttl }, data := skb.data })) := by
  obtain ⟨skb, srt, dp, ho, hframe⟩ := h.own.out _ hf hsite
  refine ⟨skb, srt, dp, ho, hframe, fun hlen hroom visited f hrel => ?_⟩
  have hc := ho.sendable hlen hroom
  obtain ⟨mem, mem', hadd⟩ := ho.added
  have hi := hframe.sent_intact hc hadd
  rw [ho.own.payload] at hi
  have hstart := hframe.onRoute hc.fits (dsrSrtAdd_built hc.fits hadd)
  obtain ⟨hon, hi'⟩ := hrel.onRoute hc ho.own hstart hi
  refine ⟨hon.order, hon.nxtHop, fun hlast hpos s hw ttl hme hs => ?_⟩
  exact hon.delivers hc ho.own.byte ho.own.complete hpos hi' hlast hme hs hw ttl

instance (skb : Skb) : Decidable (OwnSkb skb) :=
  decidable_of_iff
    ((skb.iph.ihl < 16 ∧ skb.iph.totLen < 65536 ∧ 4 * skb.iph.ihl ≤ skb.iph.totLen) ∧
      skb.iph.protocol ≠ ipprotoDsr ∧ skb.iph.protocol < 256 ∧
      4 * skb.iph.ihl + skb.data.length = skb.iph.totLen ∧ skb.iph.saddr ≠ skb.iph.daddr)
    ⟨fun ⟨⟨h₁, h₂, h₃⟩, h₄, h₅, h₆, h₇⟩ => ⟨⟨h₁, h₂, h₃⟩, h₄, h₅, h₆, h₇⟩,
      fun h => ⟨⟨h.loc.ihl, h.loc.totLen, h.loc.hdr⟩, h.protocol, h.byte, h.complete, h.apart⟩⟩

instance [DecidablePred given] (s : DsrNode) : ∀ i, Decidable (ownInput given s i)
  | .startXmit skb => inferInstanceAs (Decidable (given skb ∧ OwnSkb skb))
  | .recv _ _ | .ackTimer | .sendBufTimer | .rreqTimer _ | .gratTimer | .flushLinkCache | .setVerdict _ _ =>
      instDecidableTrue

def releasedSkb : Skb :=
  { hSource := 0
    iph := { ihl := 5, totLen := 21, ttl := 64, protocol := 17, saddr := detourHost 2
             daddr := detourHost 4 }
    data := [7] }

def releasedInputs : List (Timeval × Input) :=
  [(⟨100, 0⟩, .startXmit releasedSkb), (⟨100, 5⟩, .recv false detourReply)]

def releasedHop (i : UInt8) (ttl : ℕ) (f : Frame) : List Frame :=
  if detourHost i = f.nxtHop then
    sentBy .forward (dsrRecv (dsrPktAlloc (fun _ => 0) (arrive f.skb 1 ttl))) (followNode i)
  else []

theorem releasedHop_relayed {i : UInt8} {ttl : ℕ} {f' : Frame} (h : Relayed f₀ visited f) (ht : 1 ≤ ttl)
    (hf : f' ∈ releasedHop i ttl f) : Relayed f₀ (visited ++ [detourHost i]) f' := by
  unfold releasedHop at hf
  split at hf
  · next hme =>
    obtain ⟨s', hrun, hsent⟩ := mem_sentBy hf
    exact .hop (s := followNode i) 1 ttl h hme rfl ht hrun hsent
  · exact absurd hf List.not_mem_nil

def released : Event → Bool
  | .send .sendBuf f => decide (f.skb.data.length ≤ 63) &&
      ((releasedHop 5 64 f).flatMap (releasedHop 6 63)).any fun f' => decide (detourHost 4 = f'.nxtHop)
  | _ => false

theorem OwnRoute.arrived (h : OwnRoute skb srt) (hvia : visited = srt.addrs.take visited.length)
    (hnext : skb.iph.daddr = (srt.addrs ++ [skb.iph.daddr]).getD visited.length default) :
    visited.length = srt.addrs.length := by
  have hle : visited.length ≤ srt.addrs.length := by
    have hlen := congrArg List.length hvia
    rw [List.length_take] at hlen
    omega
  rcases Nat.eq_or_lt_of_le hle with heq | hlt
  · exact heq
  · rw [List.getD_eq_getElem?_getD, List.getElem?_append_left hlt, List.getElem?_eq_getElem hlt,
      Option.getD_some] at hnext
    have happ := (List.nodup_cons.mp h.nodup).2
    have hmem : skb.iph.daddr ∈ srt.addrs := hnext ▸ List.getElem_mem hlt
    exact absurd rfl ((List.nodup_append.mp happ).2.2 _ hmem _ (List.mem_singleton_self _))

theorem own_frames_delivered_released : ∃ s₀ f₀ f s' d, NodeReach (ownInput (· = releasedSkb)) s₀ ∧
    .send .sendBuf f₀ ∈ s₀.out ∧ Relayed f₀ [detourHost 5, detourHost 6] f ∧
    dsrRecv (dsrPktAlloc (fun _ => 0) (arrive f.skb 1 62)) (followNode 4) = .ok () s' ∧
    (newEvents (followNode 4) s').filter isDeliver = [.deliver d] ∧
    dsrSkbCreate d =
      { hSource := 0, iph := { releasedSkb.iph with ttl := 62 }, data := releasedSkb.data } := by
  have hrun : (drive (ownInput (· = releasedSkb)) { detourStart with slaveDev := true }
      releasedInputs).any (fun s => s.out.any released) = true := by
    decide +kernel
  obtain ⟨s, hs, hb⟩ := (Option.any_eq_true _ _).mp hrun
  obtain ⟨e, he, hr⟩ := List.any_eq_true.mp hb
  have hreach : NodeReach (ownInput (· = releasedSkb)) s :=
    .drive _ (.env _ true _ _ _ (.init _ _ _ _ _ _ _)) hs
  unfold released at hr
  split at hr
  · next f₀ =>
    obtain ⟨hshort, hr⟩ := Bool.and_eq_true_iff.mp hr
    have hshort : f₀.skb.data.length ≤ 63 := of_decide_eq_true hshort
    obtain ⟨f, hf, hlast⟩ := List.any_eq_true.mp hr
    obtain ⟨f₁, hf₁, hf⟩ := List.mem_flatMap.mp hf
    have hrel : Relayed f₀ [detourHost 5, detourHost 6] f :=
      releasedHop_relayed (releasedHop_relayed .start (by decide) hf₁) (by decide) hf
    obtain ⟨skb, srt, dp, ho, hframe, hdel⟩ := own_frames_delivered hreach (Or.inr rfl) he
    obtain rfl : skb = releasedSkb := ho.given
    have hle := ho.addrs_le hframe
    have hfew : srt.addrs.length ≤ 63 := by omega
    have hroom : releasedSkb.iph.totLen + 4 * srt.addrs.length + 12 < 65536 := by
      change 21 + _ + 12 < _
      omega
    obtain ⟨hvia, hnext, hdeliver⟩ := hdel hfew hroom _ _ hrel
    have hend := ho.route.arrived hvia ((of_decide_eq_true hlast).trans hnext)
    obtain ⟨s', d, hlastrun, hd, hskb⟩ := hdeliver hend (List.cons_ne_nil _ _) (followNode 4) 1 62
      (of_decide_eq_true hlast) rfl
    exact ⟨s, f₀, f, s', d, hreach, he, hrel, hlastrun, hd, hskb⟩
  · cases hr

end Relays

end DsrUu
