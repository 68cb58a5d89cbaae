import DsrUu.Node.Reject
import DsrUu.Node.RrepReply

namespace DsrUu

open Bytes Effect

def notRelayed : Event → Prop
  | .send .forward _ => False
  | _ => True

theorem notRelayed_optClosed (s₀ : DsrNode) : OptClosed (Adds s₀ notRelayed) (fun _ _ => True)
    (fun _ site _ => OwnSite site) (fun _ => True) fun _ => True where
  held _ _ h := h
  lc _ _ _ _ _ h := h
  neighTbl _ _ h := h
  gratRrepTbl _ _ h := h
  gratTimer _ _ h := h
  ackTimer _ _ h := h
  carry _ _ _ _ _ := trivial
  retime _ _ _ _ _ _ := trivial
  entries _ _ _ _ := trivial
  maintBuf _ _ h _ := h
  ackReqSend _ _ _ _ _ _ _ := ⟨nofun, nofun⟩
  rerrSend _ _ _ _ _ _ _ _ _ _ _ _ _ _ := ⟨nofun, nofun⟩
  salvage _ _ _ _ _ _ _ _ _ _ _ _ := ⟨nofun, nofun⟩
  emitXmit _ _ _ h _ := h.emit trivial
  emitMaint _ _ h := h.emit trivial
  emitAckReq _ _ _ h := h.emit trivial
  newEntry _ _ _ _ _ _ _ _ _ _ _ _ _ _ := trivial
  emitSend _ _ site _ _ _ hp _ h _ := h.emit (by
    cases site with
    | forward => exact absurd rfl hp.1
    | _ => trivial)
  rreqTbl _ _ h := h
  rreqBrk _ _ h := h
  rreqSeqno _ _ h := h
  sendBufTimer _ _ h := h
  waiting _ _ _ _ := trivial
  sendBuf _ _ h _ := h
  emitIcmp _ _ h := h.emit trivial
  emitDiscovery _ _ _ h := h.emit trivial
  emitSendBuf _ _ h := h.emit trivial
  rreqSend _ _ _ _ _ _ _ := ⟨nofun, nofun⟩
  srtAdd _ _ _ _ _ _ _ hsite _ _ _ _ _ := by
    rcases hsite with rfl | rfl <;> exact ⟨nofun, nofun⟩
  rrepSend _ _ _ _ _ _ := ⟨nofun, nofun⟩
  ackSend _ _ _ _ _ _ := ⟨nofun, nofun⟩
  notes _ _ _ _ _ := trivial
  setDaddr _ _ _ := trivial
  setSleft _ _ _ _ _ := trivial
  rreqAppend _ _ _ _ _ _ _ := trivial

section Dispatch

variable {dp : DsrPkt} {s s₁ s' : DsrNode} {f : Frame}

theorem not_relayed (h : Adds s notRelayed s') : .send .forward f ∉ newEvents s s' := fun hf => h.drop _ hf

theorem dispatchLast_relays {acts : List DsrPktAction} (h : Adds s notRelayed s₁) (hack : dp.requestAck = false)
    (hrun : dispatchLast dp acts s₁ = .ok () s') (hf : .send .forward f ∈ newEvents s s') :
    f.skb = dsrSkbCreate dp ∧ f.nxtHop = dp.nxtHop := by
  have hxmit : ∀ {site : XmitSite}, xmit site dp s₁ = .ok () s' →
      f.skb = dsrSkbCreate dp ∧ f.nxtHop = dp.nxtHop := by
    intro site hx
    obtain ⟨due, evs, rfl, hevs⟩ := xmit_plain hack hx
    obtain ⟨b, hb, hE⟩ := h
    rw [newEvents] at hf
    dsimp only at hf
    rw [hb, List.append_assoc, List.drop_left] at hf
    rcases List.mem_append.mp hf with hf | hf
    · exact (hE _ hf).elim
    rcases List.mem_cons.mp hf with hf | hf
    · cases hf
    rcases hevs with rfl | ⟨hw, rfl⟩
    · exact absurd hf List.not_mem_nil
    · cases List.mem_singleton.mp hf
      exact ⟨rfl, rfl⟩
  have hquiet : s' = s₁ → f.skb = dsrSkbCreate dp ∧ f.nxtHop = dp.nxtHop := by
    rintro rfl
    exact absurd hf (not_relayed h)
  unfold dispatchLast at hrun
  split at hrun
  · split at hrun
    · cases hrun
      exact hquiet rfl
    · exact hxmit hrun
  · split at hrun
    · exact hxmit hrun
    · split at hrun
      · cases hrun
        exact hquiet rfl
      · split at hrun
        · cases hrun
          exact absurd hf (not_relayed (h.emit trivial))
        · cases hrun
          exact hquiet rfl

theorem dsrRecv_relays (hrun : dsrRecv dp s = .ok () s') (hf : .send .forward f ∈ newEvents s s') :
    ∃ r s₁, dsrOptRecv dp s = .ok r s₁ ∧
      (r.1.requestAck = false → f.skb = dsrSkbCreate r.1 ∧ f.nxtHop = r.1.nxtHop) := by
  obtain ⟨me, s₀, hme, hrun⟩ := bind_ok hrun
  cases hme
  by_cases hown : (dp.promiscRecv && decide (s.ifaddr = dp.src)) = true
  · rw [if_pos hown] at hrun
    cases hrun
    exact absurd hf (not_relayed (Adds.refl s _))
  rw [if_neg hown] at hrun
  obtain ⟨r, s₁, hopt, hrun⟩ := bind_ok hrun
  have hcl := notRelayed_optClosed s
  have hs₁ := wp_ok (hcl.dsrOptRecv s trivial s ⟨Adds.refl s _, Later.refl s⟩) hopt
  refine ⟨r, s₁, hopt, fun hack => ?_⟩
  change (if r.1.promiscRecv = true then pure () else dispatch r.1 r.2 dispatchOrder : DsrM Unit) s₁ = _ at hrun
  by_cases hprom : r.1.promiscRecv = true
  · rw [if_pos hprom] at hrun
    cases hrun
    exact absurd hf (not_relayed hs₁.1.1)
  rw [if_neg hprom, dispatch_order] at hrun
  obtain ⟨_, s₂, hbuf, hlast⟩ := bind_ok hrun
  refine dispatchLast_relays ?_ hack hlast hf
  split at hbuf
  · exact ((hcl.sendBuffered s₁ r.1 r.1.rrepOpt).run ⟨hs₁.1.1, Later.refl s₁⟩ hbuf).1
  · cases hbuf
    exact hs₁.1.1

end Dispatch

inductive SrtOut (mem : ℕ → UInt8) (dp : DsrPkt) (p : OptPtr) : DsrPkt × List DsrPktAction → Prop
  | kept (acts : List DsrPktAction) :
      SrtOut mem dp p (srtOptNote dp p (srtOptSrt mem dp p) (srtOptSleft dp p), acts)
  | moved : 0 < srtOptSleft dp p →
      SrtOut mem dp p (srtOptSetSleft (srtOptNote dp p (srtOptSrt mem dp p) (srtOptSleft dp p)) p
        (srtOptSleft dp p - 1), [.forward])

theorem dsrSrtOptRecv_out {dp : DsrPkt} {p : OptPtr} {s s' : DsrNode} {r : DsrPkt × List DsrPktAction}
    (h : dsrSrtOptRecv dp p s = .ok r s') : SrtOut s.kmem dp p r := by
  obtain ⟨me, s₁, hme, h⟩ := bind_ok h
  cases hme
  obtain ⟨mem, s₁, hmem, h⟩ := bind_ok h
  cases hmem
  refine Returns.bind (R := SrtOut s.kmem dp p) (fun _ => ?_) _ _ _ h
  refine Returns.bind fun _ => Returns.bind fun ok => ?_
  refine Returns.ite (fun _ => Returns.pure (.kept _)) fun _ => ?_
  refine Returns.ite (fun _ => Returns.pure (.kept _)) fun hz => ?_
  exact Returns.ite (fun _ => Returns.pure (.kept _)) fun _ => Returns.pure (.moved (Nat.pos_of_ne_zero hz))

theorem dsrRrepOptRecv_out (dp : DsrPkt) (p : OptPtr) :
    Returns (fun r => r.1.core = dp.core ∧ r.1.nxtHop = dp.nxtHop) (dsrRrepOptRecv dp p) := by
  refine Returns.ite (fun _ => Returns.pure ⟨rfl, rfl⟩) fun _ => ?_
  dsimp only
  refine Returns.ite (fun _ => Returns.pure ⟨rfl, rfl⟩) fun _ => ?_
  refine Returns.bind fun mem => Returns.bind fun me => Returns.bind fun _ => Returns.bind fun _ => ?_
  exact Returns.ite (fun _ => Returns.pure ⟨rfl, rfl⟩) fun _ => Returns.pure ⟨rfl, rfl⟩

theorem routeSrt_hop (mem : ℕ → UInt8) (dp : DsrPkt) (as : List InAddr) {sleft : ℕ} (h : sleft ≤ as.length) :
    dsrSrtNextHop (routeSrt mem dp as) ((sleft : Int) - 1) ∈ as ++ [dp.dst] := by
  cases sleft with
  | zero =>
    rw [dsrSrtNextHop, if_pos (by omega)]
    exact List.mem_append_right _ (List.mem_singleton_self _)
  | succ k =>
    have hcast : ((k + 1 : ℕ) : Int) - 1 = ((as.length - (as.length - k) : ℕ) : Int) := by omega
    have hlt : as.length - k < (as ++ [dp.dst]).length := by
      rw [List.length_append, List.length_singleton]
      omega
    rw [hcast, routeSrt_next mem dp as (Nat.sub_le _ _), List.getD_eq_getElem?_getD,
      List.getElem?_eq_getElem hlt]
    exact List.getElem_mem hlt

section Relay

variable {me : InAddr} {back route : DsrSrt} {sleft : ℕ} {hdr : List UInt8} {pad : UInt8} {dp : DsrPkt}

theorem RrepPkt.note {dp' : DsrPkt} (h : RrepPkt me back route sleft hdr pad dp) (hc : dp'.core = dp.core) :
    RrepPkt me back route sleft hdr pad dp' := by
  have hs := core_sameHdr hc
  exact ⟨h.hdr_length, h.pLen, by rw [core_dh hc]; exact h.dh, hs.src.trans h.src_eq, hs.dst.trans h.dst_eq,
    hs.iph ▸ h.iph, hs.payloadLen.trans h.payloadLen, hs.requestAck.trans h.requestAck⟩

theorem RrepPkt.setSleft (h : RrepPkt me back route sleft hdr pad dp) (sleft' : ℕ) :
    RrepPkt me back route sleft' hdr pad (srtOptSetSleft dp (dp.ptr dsrOptHdrLen) sleft') := by
  obtain ⟨junk, hat⟩ := h.srtAt
  obtain ⟨b, hb, hraw⟩ := (hat.srtOptSetSleft sleft').dh
  have hs := srtOptSetSleft_same dp (dp.ptr dsrOptHdrLen) sleft'
  have hl : b.tail = 16 + 4 * back.addrs.length + 4 * route.addrs.length := by
    rw [← h.optsLen, ← optsLen_writeField, ← optsLen_dh hb]
    rfl
  exact ⟨h.hdr_length, h.pLen, ⟨junk, by rw [hb, ← hraw, ← hl]⟩, hs.src.trans h.src_eq, hs.dst.trans h.dst_eq,
    hs.iph ▸ h.iph, hs.payloadLen.trans h.payloadLen, hs.requestAck.trans h.requestAck⟩

theorem RrepPkt.srtOptSleft (h : RrepPkt me back route sleft hdr pad dp) (hs : sleft ≤ 62) :
    srtOptSleft dp (dp.ptr dsrOptHdrLen) = sleft := by
  obtain ⟨junk, hat⟩ := h.srtAt
  rw [hat.srtOptSleft]
  omega

structure Turned (me : InAddr) (back route : DsrSrt) (hdr : List UInt8) (pad : UInt8) (dp dp' : DsrPkt) : Prop where
  pkt : ∃ sleft, sleft ≤ back.addrs.length ∧ RrepPkt me back route sleft hdr pad dp'
  nxtHop : dp'.nxtHop ∈ back.addrs ++ [back.dst]
  gen : dp'.gen = dp.gen

theorem RrepPkt.dsrSrtOptRecv (h : RrepPkt me back route sleft hdr pad dp) (hb : RouteOk back)
    (hle : sleft ≤ back.addrs.length) {s s' : DsrNode} {r : DsrPkt × List DsrPktAction}
    (hrun : dsrSrtOptRecv dp (dp.ptr dsrOptHdrLen) s = .ok r s') : Turned me back route hdr pad dp r.1 := by
  have hfew := hb.few
  have hsl := h.srtOptSleft (by omega)
  obtain ⟨note, hnote⟩ : ∃ note, note = srtOptNote dp (dp.ptr dsrOptHdrLen)
    (DsrUu.srtOptSrt s.kmem dp (dp.ptr dsrOptHdrLen)) (DsrUu.srtOptSleft dp (dp.ptr dsrOptHdrLen)) := ⟨_, rfl⟩
  have hpkt : RrepPkt me back route sleft hdr pad note := hnote ▸ h.note rfl
  have hgen : note.gen = dp.gen := by rw [hnote]; rfl
  have hhop : note.nxtHop ∈ back.addrs ++ [back.dst] := by
    have hhop := routeSrt_hop s.kmem dp back.addrs hle
    rw [hnote, ← h.dst_eq]
    rwa [← h.srtOptSrt hb s.kmem, ← hsl] at hhop
  cases dsrSrtOptRecv_out hrun with
  | kept acts => exact hnote ▸ ⟨⟨sleft, hle, hpkt⟩, hhop, hgen⟩
  | moved hpos =>
    have hset := hpkt.setSleft (sleft - 1)
    rw [DsrPkt.ptr, hgen] at hset
    rw [← hnote, hsl]
    exact ⟨⟨sleft - 1, by omega, hset⟩, by rw [srtOptSetSleft, writeField_nxtHop]; exact hhop,
      by rw [srtOptSetSleft, writeField_gen]; exact hgen⟩

theorem RrepPkt.dsrOptRecv (h : RrepPkt me back route sleft hdr pad dp) (hb : RouteOk back) (hr : RouteOk route)
    (hle : sleft ≤ back.addrs.length) {s s' : DsrNode} {r : DsrPkt × List DsrPktAction}
    (hrun : dsrOptRecv dp s = .ok r s') : Turned me back route hdr pad dp r.1 := by
  obtain ⟨_, s₀, hme, hrun⟩ := bind_ok hrun
  cases hme
  rw [if_neg (fun hc => hc.2 h.payloadLen), h.optsLen,
    show 16 + 4 * back.addrs.length + 4 * route.addrs.length =
      (14 + 4 * back.addrs.length + 4 * route.addrs.length) + 1 + 1 by omega,
    dsrOptRecvLoop_opt (by rw [dsrOptHdrLen]; omega) (by rw [h.srt_type]; decide)] at hrun
  obtain ⟨r₁, s₁, hsrt, hrun⟩ := bind_ok hrun
  unfold dsrOptRecvOne at hsrt
  rw [h.srt_type] at hsrt
  have hturn := h.dsrSrtOptRecv hb hle hsrt
  obtain ⟨sleft₁, hle₁, hpkt₁⟩ := hturn.pkt
  obtain ⟨junk, hat⟩ := hpkt₁.rrepAt
  have hp : r₁.1.ptr dsrOptHdrLen = dp.ptr dsrOptHdrLen := by rw [DsrPkt.ptr, DsrPkt.ptr, hturn.gen]
  have hq : (⟨(dp.ptr dsrOptHdrLen).gen, (dp.ptr dsrOptHdrLen).off + (4 * back.addrs.length + 2 + 2)⟩ : OptPtr) =
      r₁.1.ptr (8 + 4 * back.addrs.length) := by
    rw [DsrPkt.ptr, DsrPkt.ptr, hturn.gen]
    change (⟨dp.gen, 4 + (4 * back.addrs.length + 2 + 2)⟩ : OptPtr) = ⟨dp.gen, 8 + 4 * back.addrs.length⟩
    congr 1
    omega
  rw [← hp, hpkt₁.optLength_srt hb, hp, hq,
    dsrOptRecvLoop_opt (by rw [dsrOptHdrLen]; omega) (by rw [hat.rrep_type]; decide)] at hrun
  obtain ⟨r₂, s₂, hrrep, hrun⟩ := bind_ok hrun
  have hkept : r₂.1.core = r₁.1.core ∧ r₂.1.nxtHop = r₁.1.nxtHop := by
    unfold dsrOptRecvOne at hrrep
    rw [hat.rrep_type] at hrrep
    exact Returns.ite (fun _ => Returns.pure ⟨rfl, rfl⟩) (fun _ => dsrRrepOptRecv_out _ _) _ _ _ hrrep
  have hpkt₂ := hpkt₁.note hkept.1
  have hgen₂ : r₂.1.gen = dp.gen := (congrArg DsrPkt.gen hkept.1 :).trans hturn.gen
  obtain ⟨junk₂, hat₂⟩ := hpkt₂.rrepAt
  have hq₂ : r₁.1.ptr (8 + 4 * back.addrs.length) = r₂.1.ptr (8 + 4 * back.addrs.length) := by
    rw [DsrPkt.ptr, DsrPkt.ptr, hturn.gen, hgen₂]
  rw [hq₂, hat₂.rrep_length hr.few, dsrOptRecvLoop_done _ _ (by rw [dsrOptHdrLen]; omega)] at hrun
  cases hrun
  exact ⟨⟨sleft₁, hle₁, hpkt₂⟩, hkept.2 ▸ hturn.nxtHop, hgen₂⟩

theorem RrepPkt.relay (h : RrepPkt me back route sleft hdr pad dp) (hb : RouteOk back) (hr : RouteOk route)
    (hle : sleft ≤ back.addrs.length) {s s' : DsrNode} {f : Frame} (hrun : dsrRecv dp s = .ok () s')
    (hf : .send .forward f ∈ newEvents s s') : f.nxtHop ∈ back.addrs ++ [back.dst] ∧
      ∃ sleft', sleft' ≤ back.addrs.length ∧ RrepWire me back route sleft' f.skb := by
  obtain ⟨r, s₁, hopt, hframe⟩ := dsrRecv_relays hrun hf
  have hturn := h.dsrOptRecv hb hr hle hopt
  obtain ⟨sleft', hle', hpkt⟩ := hturn.pkt
  obtain ⟨hskb, hnxt⟩ := hframe hpkt.requestAck
  exact ⟨hnxt ▸ hturn.nxtHop, sleft', hle', hskb ▸ hpkt.wire⟩

theorem RrepWire.arrive {skb : Skb} (h : RrepWire me back route sleft skb) (hw : HwAddr) (ttl : ℕ) :
    RrepWire me back route sleft (arrive skb hw ttl) :=
  ⟨⟨h.iph.protocol, h.iph.saddr, h.iph.daddr, h.iph.ihl, h.iph.totLen⟩, h.data⟩

theorem RrepWire.relay {skb : Skb} (h : RrepWire me back route sleft skb) (hb : RouteOk back) (hr : RouteOk route)
    (hle : sleft ≤ back.addrs.length) {s s' : DsrNode} {f : Frame} {promisc : Bool}
    (hrun : (Input.recv promisc skb).handle s = .ok () s') (hf : .send .forward f ∈ newEvents s s') :
    f.nxtHop ∈ back.addrs ++ [back.dst] ∧
      ∃ sleft', sleft' ≤ back.addrs.length ∧ RrepWire me back route sleft' f.skb := by
  obtain ⟨hdr, pad, hpkt⟩ := h.pkt s.kmem promisc
  rw [recv_handle (by rw [h.iph.totLen, h.iph.ihl]; omega)] at hrun
  exact hpkt.relay hb hr hle hrun hf

theorem rrepPkt_nxtHop {mem : ℕ → UInt8} (h : rrepPkt mem me back route = some dp) (hb : RouteOk back) :
    dp.nxtHop ∈ back.addrs ++ [back.dst] := by
  have hn : dp.nxtHop = if back.laddrs = 0 then back.dst else back.addrAt 0 := by
    unfold rrepPkt at h
    obtain ⟨dp₁, h₁, h⟩ := Option.bind_eq_some_iff.mp h
    obtain ⟨dp₂, h₂, h⟩ := Option.bind_eq_some_iff.mp h
    obtain ⟨dp₃, h₃, rfl⟩ := Option.map_eq_some_iff.mp h
    unfold dsrOptHdrAdd at h₁
    unfold dsrSrtOptAdd at h₂
    unfold dsrRrepOptAdd at h₃
    split at h₁
    · cases h₁
    split at h₂
    · cases h₂
    split at h₃
    · cases h₃
    cases h₁
    cases h₂
    cases h₃
    dsimp only
    rw [dsrRrepAddSrt]
    simp only [write_nxtHop]
    rfl
  rw [hn]
  cases hc : back.addrs with
  | nil =>
    rw [if_pos (by rw [hb.laddrs, hc]; rfl)]
    exact List.mem_singleton_self _
  | cons a as =>
    rw [if_neg (by rw [hb.laddrs, hc, List.length_cons]; omega)]
    have hget := addrAt_natCast back 0
    rw [hc] at hget
    exact List.mem_append_left _ (hget ▸ List.mem_cons_self)

end Relay

structure RrepCopy where
  request : RreqCopy
  replier : InAddr
  cache : LcGraph
  nxtHop : InAddr
  skb : Skb

structure Net where
  nodes : InAddr → DsrNode
  rreqs : List RreqCopy
  rreps : List RrepCopy
  heard : List (RreqCopy × InAddr)

namespace Net

def put (N : Net) (a : InAddr) (s : DsrNode) : Net := { N with nodes := Function.update N.nodes a s }

def ran (N : Net) (a : InAddr) (s' : DsrNode) : Net :=
  { N.put a s' with rreqs := N.rreqs ++ (sends .rreqSend (N.nodes a) s').map fun f => ⟨a, [], f.skb⟩ }

def ranRreq (N : Net) (a : InAddr) (c : RreqCopy) (s' : DsrNode) : Net :=
  { N.ran a s' with
    rreqs := (N.ran a s').rreqs ++ (rebroadcasts (N.nodes a) s').map fun skb => ⟨c.src, c.via ++ [a], skb⟩
    rreps := N.rreps ++ (sends .rrepSend (N.nodes a) s').map fun f => ⟨c, a, s'.lc, f.nxtHop, f.skb⟩
    heard := N.heard ++ [(c, a)] }

def ranRrep (N : Net) (a : InAddr) (r : RrepCopy) (s' : DsrNode) : Net :=
  { N.ran a s' with
    rreps := N.rreps ++ (sends .forward (N.nodes a) s').map fun f => { r with nxtHop := f.nxtHop, skb := f.skb } }

theorem ran_nodes (N : Net) (a : InAddr) (s' : DsrNode) : (N.ran a s').nodes = Function.update N.nodes a s' := rfl

theorem ranRreq_nodes (N : Net) (a : InAddr) (c : RreqCopy) (s' : DsrNode) :
    (N.ranRreq a c s').nodes = Function.update N.nodes a s' := rfl

end Net

inductive NetRun : Net → Prop
  | init {nodes : InAddr → DsrNode} : (∀ a, ∃ confvals locking budget now kmem rreqSeqno,
      nodes a = dsrNodeInit a confvals locking budget now kmem rreqSeqno) → NetRun ⟨nodes, [], [], []⟩
  | env {N : Net} (a : InAddr) (confvals : ConfVal → ℕ) (slaveDev : Bool) (budget : ℕ) (now : Timeval)
      (kmem : ℕ → UInt8) : NetRun N →
      NetRun (N.put a { N.nodes a with confvals := confvals, slaveDev := slaveDev, budget := budget
                                       now := now, kmem := kmem })
  | input {N : Net} {s' : DsrNode} (a : InAddr) (i : Input) : NetRun N → i.ready (N.nodes a) →
      i.handle (N.nodes a) = .ok () s' → NetRun (N.ran a s')
  | rreq {N : Net} {c : RreqCopy} {promisc : Bool} {s' : DsrNode} (a : InAddr) (hw : HwAddr) (ttl : ℕ) :
      NetRun N → c ∈ N.rreqs →
      RreqFits (N.nodes a) c.via (dsrPktRecv (N.nodes a).kmem promisc (arrive c.skb hw ttl)) →
      (Input.recv promisc (arrive c.skb hw ttl)).handle (N.nodes a) = .ok () s' → NetRun (N.ranRreq a c s')
  | rrep {N : Net} {r : RrepCopy} {promisc : Bool} {s' : DsrNode} (a : InAddr) (hw : HwAddr) (ttl : ℕ) :
      NetRun N → r ∈ N.rreps →
      (Input.recv promisc (arrive r.skb hw ttl)).handle (N.nodes a) = .ok () s' → NetRun (N.ranRrep a r s')

theorem handle_ifaddr {s s' : DsrNode} {i : Input} (h : i.handle s = .ok () s') : s'.ifaddr = s.ifaddr := by
  have hadm : Admits (fun _ => True) (fun _ => True) s i := by
    cases i with
    | recv promisc skb => exact fun _ _ => trivial
    | _ => trivial
  exact (wp_ok ((rreqSend_recvClosed s).handle ⟨rfl, Adds.refl s _⟩ i hadm) h).1.1

structure Booted (a : InAddr) (s : DsrNode) : Prop where
  ifaddr : s.ifaddr = a
  reach : NodeReach (fun _ _ => True) s

theorem Booted.step {a : InAddr} {s s' : DsrNode} {i : Input} (h : Booted a s) (hi : i.ready s)
    (hrun : i.handle s = .ok () s') : Booted a s' :=
  ⟨(handle_ifaddr hrun).trans h.ifaddr, h.reach.step i hi trivial hrun⟩

theorem booted_update {nodes : InAddr → DsrNode} {a : InAddr} {s : DsrNode} (h : ∀ b, Booted b (nodes b))
    (hs : Booted a s) (b : InAddr) : Booted b (Function.update nodes a s b) := by
  by_cases hb : b = a
  · subst hb
    rwa [Function.update_self]
  · rw [Function.update_of_ne hb]
    exact h b

theorem NetRun.booted {N : Net} (h : NetRun N) : ∀ a, Booted a (N.nodes a) := by
  induction h with
  | init hinit =>
    intro a
    obtain ⟨confvals, locking, budget, now, kmem, rreqSeqno, hn⟩ := hinit a
    dsimp only
    rw [hn]
    exact ⟨rfl, .init a confvals locking budget now kmem rreqSeqno⟩
  | env a confvals slaveDev budget now kmem _ ih =>
    exact booted_update ih ⟨(ih a).ifaddr, .env confvals slaveDev budget now kmem (ih a).reach⟩
  | input a i _ hready hrun ih => exact booted_update ih ((ih a).step hready hrun)
  | rreq a hw ttl _ _ _ hrun ih => exact booted_update ih ((ih a).step (i := .recv _ _) trivial hrun)
  | rrep a hw ttl _ _ hrun ih => exact booted_update ih ((ih a).step (i := .recv _ _) trivial hrun)

structure RreqTraced (heard : List (RreqCopy × InAddr)) (c : RreqCopy) (target : InAddr) : Prop where
  sound : RreqSound c target
  heard : ∀ pre a post, c.via = pre ++ a :: post →
    ∃ c₀, (c₀, a) ∈ heard ∧ c₀.src = c.src ∧ c₀.via = pre ∧ RreqSound c₀ target

structure RrepFlight (r : RrepCopy) (target : InAddr) (tail : List InAddr) : Prop where
  nxtHop : r.nxtHop ∈ r.request.via.reverse ++ [r.request.src]
  decoded : ∀ mem mem' promisc hw ttl, ∃ p q, RrepDecoded r.replier r.request.src target
    r.request.via.reverse (r.request.via ++ tail) mem' (dsrPktRecv mem promisc (arrive r.skb hw ttl)) p q

structure RrepTraced (heard : List (RreqCopy × InAddr)) (r : RrepCopy) (target : InAddr)
    (tail : List InAddr) : Prop where
  request : RreqTraced heard r.request target
  heard : (r.request, r.replier) ∈ heard
  offered : ReplySound r.request target r.replier r.cache tail
  flight : (r.request.via ++ tail).length ≤ 62 → RrepFlight r target tail

structure RrepOnAir (r : RrepCopy) (target : InAddr) (tail : List InAddr) (back route : DsrSrt)
    (sleft : ℕ) : Prop where
  back_ok : RouteOk back
  back_dst : back.dst = r.request.src
  back_addrs : back.addrs = r.request.via.reverse
  route_ok : RouteOk route
  route_dst : route.dst = target
  route_addrs : route.addrs = r.request.via ++ tail
  left : sleft ≤ back.addrs.length
  nxtHop : r.nxtHop ∈ back.addrs ++ [back.dst]
  wire : RrepWire r.replier back route sleft r.skb

theorem RrepOnAir.flight {r : RrepCopy} {target : InAddr} {tail : List InAddr} {back route : DsrSrt} {sleft : ℕ}
    (h : RrepOnAir r target tail back route sleft) : RrepFlight r target tail := by
  refine ⟨?_, fun mem mem' promisc hw ttl => ?_⟩
  · rw [← h.back_addrs, ← h.back_dst]
    exact h.nxtHop
  · have hdec := (h.wire.arrive hw ttl).decoded h.back_ok h.route_ok mem mem' promisc
    rwa [h.back_dst, h.route_dst, h.back_addrs, h.route_addrs] at hdec

theorem RrepOnAir.relay {r : RrepCopy} {target : InAddr} {tail : List InAddr} {back route : DsrSrt} {sleft : ℕ}
    {promisc : Bool} {hw : HwAddr} {ttl : ℕ} {s s' : DsrNode} {f : Frame}
    (h : RrepOnAir r target tail back route sleft)
    (hrun : (Input.recv promisc (arrive r.skb hw ttl)).handle s = .ok () s')
    (hf : f ∈ sends .forward s s') : ∃ sleft',
    RrepOnAir { r with nxtHop := f.nxtHop, skb := f.skb } target tail back route sleft' := by
  obtain ⟨hhop, sleft', hle, hwire⟩ := (h.wire.arrive hw ttl).relay h.back_ok h.route_ok h.left hrun (mem_sends hf)
  exact ⟨sleft', h.back_ok, h.back_dst, h.back_addrs, h.route_ok, h.route_dst, h.route_addrs, hle, hhop, hwire⟩

theorem ReplyOffers.onAir {s : DsrNode} {c : RreqCopy} {target : InAddr} {tail : List InAddr} {f : Frame}
    {lc : LcGraph} (h : ReplyOffers s c target tail f) (hfew : (c.via ++ tail).length ≤ 62) : ∃ back route sleft,
    RrepOnAir ⟨c, s.ifaddr, lc, f.nxtHop, f.skb⟩ target tail back route sleft := by
  obtain ⟨route, pkt, hsrc, hdst, haddrs, hladdrs, hnxt, hskb, hpkt⟩ := h.sent
  have hvia : c.via.length ≤ 62 := by
    rw [List.length_append] at hfew
    omega
  have hback : RouteOk (⟨s.ifaddr, c.src, srtFlags s.kmem, 4 * c.via.length, c.via.reverse⟩ : DsrSrt) :=
    ⟨by rw [List.length_reverse], by rw [List.length_reverse]; exact hvia⟩
  have hroute : RouteOk route := ⟨hladdrs, by rw [haddrs]; exact hfew⟩
  exact ⟨_, route, _, hback, rfl, rfl, hroute, hdst, haddrs, Nat.le_refl _, hnxt ▸ rrepPkt_nxtHop hpkt hback,
    hskb ▸ rrepPkt_wire hpkt hback hroute⟩

section Step

variable {heard heard' : List (RreqCopy × InAddr)} {c : RreqCopy} {target : InAddr} {s s' : DsrNode}

theorem RreqTraced.mono (h : RreqTraced heard c target) (hsub : heard ⊆ heard') : RreqTraced heard' c target :=
  ⟨h.sound, fun pre a post hvia =>
    let ⟨c₀, hc₀, hrest⟩ := h.heard pre a post hvia
    ⟨c₀, hsub hc₀, hrest⟩⟩

theorem RreqTraced.origin {i : Input} {f : Frame} (hrun : i.handle s = .ok () s') (hf : f ∈ sends .rreqSend s s') :
    ∃ target, RreqTraced heard ⟨s.ifaddr, [], f.skb⟩ target := by
  obtain ⟨target, hs⟩ := RreqSound.origin hrun (mem_sends hf)
  refine ⟨target, hs, fun pre a post hvia => absurd hvia.symm ?_⟩
  exact List.append_ne_nil_of_right_ne_nil _ (List.cons_ne_nil _ _)

theorem RreqTraced.recv {promisc : Bool} {hw : HwAddr} {ttl : ℕ} {skb : Skb} (h : RreqTraced heard c target)
    (hfits : RreqFits s c.via (dsrPktRecv s.kmem promisc (arrive c.skb hw ttl)))
    (hrun : (Input.recv promisc (arrive c.skb hw ttl)).handle s = .ok () s') (hskb : skb ∈ rebroadcasts s s') :
    RreqTraced (heard ++ [(c, s.ifaddr)]) ⟨c.src, c.via ++ [s.ifaddr], skb⟩ target := by
  refine ⟨h.sound.recv hfits hrun hskb, fun pre a post hvia => ?_⟩
  rcases post.eq_nil_or_concat with rfl | ⟨post', b, rfl⟩
  · obtain ⟨hpre, ha⟩ := List.append_inj' hvia rfl
    rw [List.singleton_inj] at ha
    exact ⟨c, ha ▸ List.mem_append_right _ (List.mem_singleton_self _), rfl, hpre, h.sound⟩
  · rw [List.concat_eq_append, ← List.cons_append, ← List.append_assoc] at hvia
    obtain ⟨hpre, -⟩ := List.append_inj' hvia rfl
    obtain ⟨c₀, hc₀, hrest⟩ := h.heard pre a post' hpre
    exact ⟨c₀, List.mem_append_left _ hc₀, hrest⟩

structure RrepKept (heard : List (RreqCopy × InAddr)) (r : RrepCopy) (target : InAddr)
    (tail : List InAddr) : Prop where
  request : RreqTraced heard r.request target
  heard : (r.request, r.replier) ∈ heard
  offered : ReplySound r.request target r.replier r.cache tail
  onAir : (r.request.via ++ tail).length ≤ 62 → ∃ back route sleft, RrepOnAir r target tail back route sleft

theorem RrepKept.mono {r : RrepCopy} {tail : List InAddr} (h : RrepKept heard r target tail) (hsub : heard ⊆ heard') :
    RrepKept heard' r target tail :=
  ⟨h.request.mono hsub, hsub h.heard, h.offered, h.onAir⟩

theorem RrepKept.traced {r : RrepCopy} {tail : List InAddr} (h : RrepKept heard r target tail) :
    RrepTraced heard r target tail :=
  ⟨h.request, h.heard, h.offered, fun hfew =>
    let ⟨_, _, _, hair⟩ := h.onAir hfew
    hair.flight⟩

theorem RrepKept.replied {promisc : Bool} {hw : HwAddr} {ttl : ℕ} {f : Frame} (h : RreqTraced heard c target)
    (hlc : LcSound s.lc) (hfits : RreqFits s c.via (dsrPktRecv s.kmem promisc (arrive c.skb hw ttl)))
    (hrun : (Input.recv promisc (arrive c.skb hw ttl)).handle s = .ok () s') (hf : f ∈ sends .rrepSend s s') :
    ∃ tail, RrepKept (heard ++ [(c, s.ifaddr)]) ⟨c, s.ifaddr, s'.lc, f.nxtHop, f.skb⟩ target tail := by
  obtain ⟨tail, hsound, hoffers⟩ := h.sound.reply hfits hlc hrun (mem_sends hf)
  exact ⟨tail, h.mono (List.subset_append_left _ _), List.mem_append_right _ (List.mem_singleton_self _), hsound,
    hoffers.onAir⟩

theorem RrepKept.relayed {r : RrepCopy} {tail : List InAddr} {promisc : Bool} {hw : HwAddr} {ttl : ℕ} {f : Frame}
    (h : RrepKept heard r target tail) (hrun : (Input.recv promisc (arrive r.skb hw ttl)).handle s = .ok () s')
    (hf : f ∈ sends .forward s s') : RrepKept heard { r with nxtHop := f.nxtHop, skb := f.skb } target tail := by
  refine ⟨h.request, h.heard, h.offered, fun hfew => ?_⟩
  obtain ⟨back, route, sleft, hair⟩ := h.onAir hfew
  exact ⟨back, route, hair.relay hrun hf⟩

end Step

structure NetSound (N : Net) : Prop where
  rreqs : ∀ c ∈ N.rreqs, ∃ target, RreqTraced N.heard c target
  rreps : ∀ r ∈ N.rreps, ∃ target tail, RrepKept N.heard r target tail

theorem NetSound.ran {N : Net} {a : InAddr} {s' : DsrNode} {i : Input} (h : NetSound N)
    (ha : (N.nodes a).ifaddr = a) (hrun : i.handle (N.nodes a) = .ok () s') : NetSound (N.ran a s') := by
  refine ⟨fun c hc => ?_, h.rreps⟩
  rcases List.mem_append.mp hc with hc | hc
  · exact h.rreqs c hc
  · obtain ⟨f, hf, rfl⟩ := List.mem_map.mp hc
    have ho : ∃ target, RreqTraced N.heard ⟨(N.nodes a).ifaddr, [], f.skb⟩ target :=
      RreqTraced.origin hrun hf
    rwa [ha] at ho

theorem NetSound.ranRreq {N : Net} {a : InAddr} {c : RreqCopy} {s' : DsrNode} {promisc : Bool} {hw : HwAddr} {ttl : ℕ}
    (h : NetSound N) (hs : Booted a (N.nodes a)) (hc : c ∈ N.rreqs)
    (hfits : RreqFits (N.nodes a) c.via (dsrPktRecv (N.nodes a).kmem promisc (arrive c.skb hw ttl)))
    (hrun : (Input.recv promisc (arrive c.skb hw ttl)).handle (N.nodes a) = .ok () s') :
    NetSound (N.ranRreq a c s') := by
  have hsub : N.heard ⊆ N.heard ++ [(c, a)] := List.subset_append_left _ _
  obtain ⟨target, htr⟩ := h.rreqs c hc
  refine ⟨fun c' hc' => ?_, fun r hr => ?_⟩
  · rcases List.mem_append.mp hc' with hc' | hc'
    · obtain ⟨t, ht⟩ := (h.ran hs.ifaddr hrun).rreqs c' hc'
      exact ⟨t, ht.mono hsub⟩
    · obtain ⟨skb, hskb, rfl⟩ := List.mem_map.mp hc'
      have hr := htr.recv hfits hrun hskb
      rw [hs.ifaddr] at hr
      exact ⟨target, hr⟩
  · rcases List.mem_append.mp hr with hr | hr
    · obtain ⟨t, tail, ht⟩ := h.rreps r hr
      exact ⟨t, tail, ht.mono hsub⟩
    · obtain ⟨f, hf, rfl⟩ := List.mem_map.mp hr
      obtain ⟨tail, hk⟩ := RrepKept.replied htr hs.reach.lcSound hfits hrun hf
      rw [hs.ifaddr] at hk
      exact ⟨target, tail, hk⟩

theorem NetSound.ranRrep {N : Net} {a : InAddr} {r : RrepCopy} {s' : DsrNode} {promisc : Bool} {hw : HwAddr} {ttl : ℕ}
    (h : NetSound N) (ha : (N.nodes a).ifaddr = a) (hr : r ∈ N.rreps)
    (hrun : (Input.recv promisc (arrive r.skb hw ttl)).handle (N.nodes a) = .ok () s') :
    NetSound (N.ranRrep a r s') := by
  refine ⟨(h.ran ha hrun).rreqs, fun r' hr' => ?_⟩
  rcases List.mem_append.mp hr' with hr' | hr'
  · exact h.rreps r' hr'
  · obtain ⟨f, hf, rfl⟩ := List.mem_map.mp hr'
    obtain ⟨target, tail, hk⟩ := h.rreps r hr
    exact ⟨target, tail, hk.relayed hrun hf⟩

theorem NetRun.sound {N : Net} (h : NetRun N) : NetSound N := by
  induction h with
  | init _ => exact ⟨fun _ hc => absurd hc List.not_mem_nil, fun _ hr => absurd hr List.not_mem_nil⟩
  | env a confvals slaveDev budget now kmem _ ih => exact ⟨ih.rreqs, ih.rreps⟩
  | input a i hN _ hrun ih => exact ih.ran (hN.booted a).ifaddr hrun
  | rreq a hw ttl hN hc hfits hrun ih => exact ih.ranRreq (hN.booted a) hc hfits hrun
  | rrep a hw ttl hN hr hrun ih => exact ih.ranRrep (hN.booted a).ifaddr hr hrun

def newNode (a : InAddr) : DsrNode := dsrNodeInit a confvalsDef true 8 ⟨100, 0⟩ (fun _ => 0) 0

theorem NetRun.hears {N : Net} {a : InAddr} {c : RreqCopy} {s s' : DsrNode} {hw : HwAddr} {ttl : ℕ} (h : NetRun N)
    (hs : N.nodes a = s) (hc : c ∈ N.rreqs) (hfew : c.via.length ≤ 61)
    (hrun : (Input.recv false (arrive c.skb hw ttl)).handle s = .ok () s') : NetRun (N.ranRreq a c s') := by
  subst hs
  exact .rreq a hw ttl h hc (Or.inl hfew) hrun

def returned : Option DsrNode :=
  relayed.bind fun s => answer.bind fun f => okState ((Input.recv false (arrive f.skb 9 64)).handle s)

def returnedFrame : Option Frame :=
  relayed.bind fun s => returned.bind fun s' => (sends .forward s s').head?

end DsrUu
