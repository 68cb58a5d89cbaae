import DsrUu.Node.Run

namespace DsrUu

open Effect

structure TtlOk (t : ℕ) (dp : DsrPkt) : Prop where
  iph : dp.iph.ttl = t
  skb : ∃ skb, dp.skb = some skb ∧ skb.iph.ttl = t

def ttlEvent (t : ℕ) : Event → Prop
  | .xmit .forwardRreq dp _ => TtlOk t dp
  | .send .forwardRreq f => f.skb.iph.ttl = t
  | _ => True

theorem TtlOk.write {t : ℕ} {dp : DsrPkt} (h : TtlOk t dp) (off : ℕ) (xs : List UInt8) :
    TtlOk t (dp.write off xs) := by
  have hw := write_same dp off xs
  exact ⟨by rw [hw.iph, h.iph], by rw [hw.skb_eq]; exact h.skb⟩

theorem TtlOk.writeField {t : ℕ} {dp : DsrPkt} (h : TtlOk t dp) (p : OptPtr) (i : ℕ)
    (xs : List UInt8) : TtlOk t (dp.writeField p i xs) := by
  have hw := writeField_same dp p i xs
  exact ⟨by rw [hw.iph, h.iph], by rw [hw.skb_eq]; exact h.skb⟩

theorem TtlOk.dsrBuildIp {t : ℕ} {dp : DsrPkt} (h : TtlOk t dp) (src dst : InAddr)
    (tot prot ttl : ℕ) : TtlOk t (dsrBuildIp dp src dst tot prot ttl) := by
  obtain ⟨skb, hs, ht⟩ := h.skb
  refine ⟨?_, skb, hs, ht⟩
  change (DsrUu.dsrBuildIp dp src dst tot prot ttl).ipData.ttl = t
  unfold DsrUu.dsrBuildIp
  rw [hs]
  exact ht

theorem TtlOk.expand {t : ℕ} {dp dp' : DsrPkt} {off : ℕ} (h : TtlOk t dp) {mem : ℕ → UInt8} {len : ℕ}
    (he : dsrPktAllocOptsExpand mem dp len = some (dp', off)) : TtlOk t dp' := by
  unfold dsrPktAllocOptsExpand at he
  split at he
  · cases he
  · split at he
    · cases he
      exact ⟨h.iph, h.skb⟩
    · cases he
      have hb : ∀ n, TtlOk t (dsrPktAllocOpts mem dp n) := fun _ => ⟨h.iph, h.skb⟩
      exact (hb _).write _ _

theorem TtlOk.rreqForward {t : ℕ} {dp : DsrPkt} (h : TtlOk t dp) (mem : ℕ → UInt8) (me : InAddr)
    (p : OptPtr) : TtlOk t (rreqForward mem me dp p) := by
  have h₁ : TtlOk t (((dsrPktAllocOptsExpand mem dp 4).map Prod.fst).getD dp) := by
    cases he : dsrPktAllocOptsExpand mem dp 4 with
    | none => exact h
    | some r => exact h.expand he
  unfold DsrUu.rreqForward
  dsimp only
  refine TtlOk.dsrBuildIp (TtlOk.write ((TtlOk.writeField ?_ _ _ _).writeField _ _ _) _ _) _ _ _ _ _
  split
  · exact h₁
  · exact h₁.writeField _ _ _

theorem TtlOk.dsrAckReqOptAdd {t : ℕ} {dp : DsrPkt} (h : TtlOk t dp) (mem : ℕ → UInt8) (id : ℕ) :
    TtlOk t (dsrAckReqOptAdd mem dp id) := by
  unfold DsrUu.dsrAckReqOptAdd
  split
  · exact h.writeField _ _ _
  · dsimp only
    split
    · have hb : TtlOk t (dsrPktAllocOpts mem dp (dsrOptHdrLen + dsrAckReqHdrLen)) := ⟨h.iph, h.skb⟩
      exact ((hb.dsrBuildIp _ _ _ _ _).write _ _).write _ _
    · split
      · exact h
      · next he => exact (((h.expand he).dsrBuildIp _ _ _ _ _).write _ _).write _ _

theorem TtlOk.setDaddr {t : ℕ} {dp : DsrPkt} (h : TtlOk t dp) (a : InAddr) :
    TtlOk t (dp.setDaddr a) := by
  obtain ⟨skb, hs, ht⟩ := h.skb
  have hi := h.iph
  unfold DsrPkt.setDaddr
  split
  · next skb' hnh hskb =>
    rw [hs] at hskb
    cases hskb
    refine ⟨?_, _, rfl, ht⟩
    rw [DsrPkt.iph, hnh]
    exact ht
  · next hne =>
    refine ⟨?_, skb, hs, ht⟩
    unfold DsrPkt.iph at hi ⊢
    split at hi
    · next skb' hnh hskb => exact absurd hskb (hne _ hnh)
    · exact hi

theorem TtlOk.note {t : ℕ} {dp dp' : DsrPkt} (h : TtlOk t dp) (hc : dp'.core = dp.core) :
    TtlOk t dp' := by
  have hi := congrArg DsrPkt.iph hc
  have hs := congrArg DsrPkt.skb hc
  exact ⟨(congrArg IpHdr.ttl hi).trans h.iph, hs ▸ h.skb⟩

theorem ttl_recvClosed (s₀ : DsrNode) (t : ℕ) : RecvClosed (Adds s₀ (ttlEvent t)) (fun _ _ => True)
    (fun _ site dp => site = .forwardRreq → TtlOk t dp) (fun _ => True) (TtlOk t) where
  held _ _ h := h
  lc _ _ _ _ _ h := h
  neighTbl _ _ h := h
  gratRrepTbl _ _ h := h
  gratTimer _ _ h := h
  ackTimer _ _ h := h
  carry _ _ _ _ _ := trivial
  retime _ _ _ _ _ _ := trivial
  entries _ _ _ _ := trivial
  maintBuf _ _ h _ := h
  ackReqSend _ _ _ _ _ _ _ := nofun
  rerrSend _ _ _ _ _ _ _ _ _ _ _ _ _ _ := nofun
  salvage _ _ _ _ _ _ _ _ _ _ _ _ := nofun
  emitXmit _ site dp h hp := h.emit (by
    cases site with
    | forwardRreq => exact hp rfl
    | _ => trivial)
  emitMaint _ _ h := h.emit trivial
  emitAckReq _ _ _ h := h.emit trivial
  newEntry _ _ _ _ _ _ _ _ _ _ _ _ _ _ := trivial
  emitSend _ _ site dp dp' _ hp _ h hsent := h.emit (by
    cases site with
    | forwardRreq =>
      have hdp := hp rfl
      obtain ⟨b, _, hcase⟩ := hsent.block
      rcases hcase with ⟨rfl, _⟩ | ⟨_, _, id, _, rfl⟩
      · exact hdp.iph
      · exact (hdp.dsrAckReqOptAdd _ _).iph
    | _ => trivial)
  rreqTbl _ _ h := h
  rreqBrk _ _ h := h
  rreqSeqno _ _ h := h
  sendBufTimer _ _ h := h
  waiting _ _ _ _ := trivial
  sendBuf _ _ h _ := h
  emitDeliver _ _ h := h.emit trivial
  emitIcmp _ _ h := h.emit trivial
  emitDiscovery _ _ _ h := h.emit trivial
  emitSendBuf _ _ h := h.emit trivial
  rreqSend _ _ _ _ _ _ _ := nofun
  srtAdd _ _ _ _ _ _ _ hsite _ _ _ _ _ := by
    rcases hsite with rfl | rfl <;> exact nofun
  rrepSend _ _ _ _ _ _ := nofun
  ackSend _ _ _ _ _ _ := nofun
  forward _ _ _ _ := nofun
  forwardRreq _ _ _ hQ := fun _ => hQ
  notes _ _ hc _ hQ := hQ.note hc
  setDaddr _ a hQ := hQ.setDaddr a
  setSleft _ p _ _ hQ := hQ.writeField p _ _
  rreqAppend mem me _ p _ _ hQ := hQ.rreqForward mem me p

theorem recv_ttl {s s' : DsrNode} {promisc : Bool} {skb : Skb}
    (h : (Input.recv promisc skb).handle s = .ok () s') : Adds s (ttlEvent skb.iph.ttl) s' := by
  refine (wp_ok ((ttl_recvClosed s skb.iph.ttl).handle (Adds.refl s _) (.recv promisc skb) ?_) h).1
  intro hproto _
  have ha := dsrPktAlloc_dsr s.kmem hproto
  refine ⟨?_, skb, ha.skb_eq, rfl⟩
  change (dsrPktAlloc s.kmem skb).iph.ttl = _
  rw [DsrPkt.iph, ha.nh, ha.skb_eq]

def rebroadcasts (s s' : DsrNode) : List Skb :=
  (s'.out.drop s.out.length).filterMap fun
    | .send .forwardRreq f => some f.skb
    | _ => none

theorem rebroadcasts_ttl {s s' : DsrNode} {promisc : Bool} {skb skb' : Skb}
    (h : (Input.recv promisc skb).handle s = .ok () s') (hf : skb' ∈ rebroadcasts s s') :
    skb'.iph.ttl = skb.iph.ttl := by
  obtain ⟨e, he, hm⟩ := List.mem_filterMap.mp hf
  have hE := (recv_ttl h).drop e he
  split at hm
  · cases hm
    exact hE
  · cases hm

structure Hop where
  received : Skb
  sent : Skb
deriving DecidableEq

inductive Flood (target : InAddr) (t : ℕ) : List Skb → List Hop → Prop
  | origin {mem : ℕ → UInt8} {me : InAddr} {seqno : ℕ} {dp : DsrPkt} :
      rreqPkt mem me target t seqno = some dp → Flood target t [dsrSkbCreate dp] []
  | recv {air : List Skb} {hops : List Hop} {s s' : DsrNode} {skb : Skb} (hw : HwAddr) :
      Flood target t air hops → skb ∈ air → NodeReach (fun _ _ => True) s →
      (Input.recv false { skb with hSource := hw }).handle s = .ok () s' →
      Flood target t (air ++ rebroadcasts s s') (hops ++ (rebroadcasts s s').map (Hop.mk skb))

def rreqListLen (skb : Skb) : ℕ := ((skb.data.getD 5 0).toNat - 6) / 4

def InRing (t : ℕ) (hop : Hop) : Prop :=
  hop.sent.iph.ttl < hop.received.iph.ttl ∧ rreqListLen hop.received < t - 1

theorem rreqPkt_ttl {mem : ℕ → UInt8} {me target : InAddr} {t seqno : ℕ} {dp : DsrPkt}
    (h : rreqPkt mem me target t seqno = some dp) :
    dp.iph.ttl = (if t = 0 then ipDefTtl else t) % 256 := by
  unfold rreqPkt at h
  obtain ⟨dp₁, h₁, h⟩ := Option.bind_eq_some_iff.mp h
  obtain ⟨dp₂, h₂, rfl⟩ := Option.map_eq_some_iff.mp h
  unfold dsrOptHdrAdd at h₁
  unfold dsrRreqOptAdd at h₂
  split at h₁
  · cases h₁
  split at h₂
  · cases h₂
  cases h₁
  cases h₂
  rfl

theorem Flood.ttl {target : InAddr} {t : ℕ} {air : List Skb} {hops : List Hop}
    (h : Flood target t air hops) :
    (∀ skb ∈ air, skb.iph.ttl = (if t = 0 then ipDefTtl else t) % 256) ∧
      ∀ hop ∈ hops, hop.sent.iph.ttl = hop.received.iph.ttl := by
  induction h with
  | origin h =>
    refine ⟨fun skb hs => ?_, fun _ hh => absurd hh List.not_mem_nil⟩
    rw [List.mem_singleton.mp hs]
    exact rreqPkt_ttl h
  | recv hw _ hmem _ hrun ih =>
    have hsame : ∀ skb' ∈ rebroadcasts _ _, _ := fun skb' hf => rebroadcasts_ttl hrun hf
    refine ⟨fun skb hs => ?_, fun hop hh => ?_⟩
    · rcases List.mem_append.mp hs with hs | hs
      · exact ih.1 skb hs
      · have ht := ih.1 _ hmem
        exact (hsame skb hs).trans ht
    · rcases List.mem_append.mp hh with hh | hh
      · exact ih.2 hop hh
      · obtain ⟨skb', hf, rfl⟩ := List.mem_map.mp hh
        exact hsame skb' hf

theorem flood_inRing_iff {target : InAddr} {t : ℕ} {air : List Skb} {hops : List Hop}
    (h : Flood target t air hops) : (∀ hop ∈ hops, InRing t hop) ↔ hops = [] := by
  constructor
  · intro hring
    rw [List.eq_nil_iff_forall_not_mem]
    intro hop hh
    have hlt := (hring hop hh).1
    rw [h.ttl.2 hop hh] at hlt
    exact Nat.lt_irrefl _ hlt
  · rintro rfl hop hh
    exact absurd hh List.not_mem_nil

def ringHost (i : UInt8) : InAddr := ⟨10, 0, 0, i⟩

def ringNode : DsrNode := dsrNodeInit (ringHost 2) confvalsDef true 8 ⟨100, 0⟩ (fun _ => 0) 0

def ringRequest : Skb :=
  ((rreqPkt (fun _ => 0) (ringHost 1) (ringHost 9) 1 7).map dsrSkbCreate).getD
    (dsrSkbCreate {})

def ringRebroadcasts : List Skb :=
  match (Input.recv false { ringRequest with hSource := 1 }).handle ringNode with
  | .ok _ s' => rebroadcasts ringNode s'
  | .error _ _ => []

theorem ring_flood : ∃ air hop, Flood (ringHost 9) 1 air [hop] := by
  obtain ⟨dp, hdp⟩ : ∃ dp, rreqPkt (fun _ => 0) (ringHost 1) (ringHost 9) 1 7 = some dp :=
    Option.isSome_iff_exists.mp (by decide +kernel)
  have hreq : dsrSkbCreate dp = ringRequest := by rw [ringRequest, hdp]; rfl
  have hlen : ringRebroadcasts.length = 1 := by decide +kernel
  obtain ⟨skb, hskb⟩ := List.length_eq_one_iff.mp hlen
  unfold ringRebroadcasts at hskb
  split at hskb
  · next s' hrun =>
    have h := (Flood.origin hdp).recv 1 (List.mem_singleton_self _)
      (NodeReach.init (ringHost 2) confvalsDef true 8 ⟨100, 0⟩ (fun _ => 0) 0) (hreq ▸ hrun)
    have hr : rebroadcasts (dsrNodeInit (ringHost 2) confvalsDef true 8 ⟨100, 0⟩ (fun _ => 0) 0) s' =
      [skb] := hskb
    rw [hr] at h
    exact ⟨_, _, h⟩
  · cases hskb

theorem flood_not_inRing : ¬ ∀ target t air hops, Flood target t air hops →
    ∀ hop ∈ hops, InRing t hop := by
  intro h
  obtain ⟨air, hop, hf⟩ := ring_flood
  have hlt := (h _ _ _ _ hf hop (List.mem_singleton_self _)).2
  exact absurd hlt (Nat.not_lt_zero _)

theorem flood_inRing_iff_ring : ∃ air hop, Flood (ringHost 9) 1 air [hop] ∧
    ((∀ h ∈ [hop], InRing 1 h) ↔ [hop] = []) := by
  obtain ⟨air, hop, hf⟩ := ring_flood
  exact ⟨air, hop, hf, flood_inRing_iff hf⟩

end DsrUu
