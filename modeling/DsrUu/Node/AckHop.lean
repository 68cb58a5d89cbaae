import DsrUu.Maint.Once
import DsrUu.Node.Counted
import DsrUu.Node.OptCodec
import DsrUu.Node.Reject
import DsrUu.Node.Shortening

namespace DsrUu

open Bytes Effect

def ackSent : Event → Option DsrPkt
  | .xmit .ackSend dp _ => some dp
  | _ => none

def acksSent (es : List Event) : List DsrPkt := es.filterMap ackSent

theorem ack_replyClosed (s₀ : DsrNode) : ReplyClosed (Adds s₀ fun e => ackSent e = none)
    (fun _ _ => True) (fun _ site _ => site ≠ .ackSend) (fun _ => True) fun _ => True where
  held _ _ h := h
  lc _ _ _ _ _ h := h
  neighTbl _ _ h := h
  gratRrepTbl _ _ h := h
  gratTimer _ _ h := h
  ackTimer _ _ h := h
  carry _ _ _ _ _ := trivial
  retime _ _ _ _ _ _ := trivial
  entries _ _ _ _ := trivial
  maintBuf _ _ h _ := h
  ackReqSend _ _ _ _ _ _ _ := nofun
  rerrSend _ _ _ _ _ _ _ _ _ _ _ _ _ _ := nofun
  salvage _ _ _ _ _ _ _ _ _ _ _ _ := nofun
  emitXmit _ site _ h hp := h.emit (by cases site <;> first | rfl | exact absurd rfl hp)
  emitMaint _ _ h := h.emit rfl
  emitAckReq _ _ _ h := h.emit rfl
  newEntry _ _ _ _ _ _ _ _ _ _ _ _ _ _ := trivial
  emitSend _ _ _ _ _ _ _ _ h _ := h.emit rfl
  rreqTbl _ _ h := h
  rreqBrk _ _ h := h
  rreqSeqno _ _ h := h
  sendBufTimer _ _ h := h
  waiting _ _ _ _ := trivial
  sendBuf _ _ h _ := h
  emitIcmp _ _ h := h.emit rfl
  emitDiscovery _ _ _ h := h.emit rfl
  emitSendBuf _ _ h := h.emit rfl
  rreqSend _ _ _ _ _ _ _ := nofun
  srtAdd _ _ _ _ _ _ _ hsite _ _ _ _ _ := by rcases hsite with rfl | rfl <;> exact nofun
  rrepSend _ _ _ _ _ _ := nofun
  notes _ _ _ _ _ := trivial
  setDaddr _ _ _ := trivial
  setSleft _ _ _ _ _ := trivial
  rreqAppend _ _ _ _ _ _ _ := trivial

theorem acksSent_of_silent {es : List Event} (h : ∀ e ∈ es, ackSent e = none) : acksSent es = [] :=
  List.filterMap_eq_nil_iff.mpr h

theorem ackSent_of_maint {dp : DsrPkt} {e : Event} (h : maintEvent .ackSend dp e) : ackSent e = none := by
  cases e with
  | xmit site dp' due =>
    cases site with
    | ackSend => cases h
    | _ => rfl
  | _ => rfl

def ackHop (dp : DsrPkt) : InAddr := if dp.srtOpt = none then dp.src else dp.prvHop

def acksDue (kmem : ℕ → UInt8) (me : InAddr) (d : Dispatch) : List DsrPkt :=
  if d.type = .ackReq ∧ d.before.promiscRecv = false then
    (ackPkt kmem me (ackHop d.before) (d.before.be16Field d.p 2)).toList
  else []

section Sent

variable {dp dp₁ : DsrPkt} {p : OptPtr} {s s₁ s' : DsrNode} {act : List DsrPktAction}

structure AcksSent (s : DsrNode) (ps : List DsrPkt) (s' : DsrNode) : Prop where
  out : ∃ b, s'.out = s.out ++ b ∧ acksSent b = ps
  kmem : s'.kmem = s.kmem
  ifaddr : s'.ifaddr = s.ifaddr

theorem AcksSent.refl (s : DsrNode) : AcksSent s [] s :=
  ⟨⟨[], (List.append_nil _).symm, rfl⟩, rfl, rfl⟩

theorem AcksSent.trans {ps qs : List DsrPkt} (h₁ : AcksSent s ps s₁) (h₂ : AcksSent s₁ qs s') :
    AcksSent s (ps ++ qs) s' := by
  obtain ⟨b, hb, hps⟩ := h₁.out
  obtain ⟨c, hc, hqs⟩ := h₂.out
  refine ⟨⟨b ++ c, by rw [hc, hb, List.append_assoc], ?_⟩, h₂.kmem.trans h₁.kmem,
    h₂.ifaddr.trans h₁.ifaddr⟩
  rw [acksSent, List.filterMap_append, ← hps, ← hqs]
  rfl

theorem AcksSent.newEvents {ps : List DsrPkt} (h : AcksSent s ps s') :
    acksSent (newEvents s s') = ps := by
  obtain ⟨b, hb, hps⟩ := h.out
  rw [DsrUu.newEvents, hb, List.drop_left]
  exact hps

theorem dsrAckSend_sent {dst : InAddr} {id : ℕ} (h : dsrAckSend xmit dst id s = .ok () s') :
    AcksSent s (ackPkt s.kmem s.ifaddr dst id).toList s' := by
  have hlater : Later s s' :=
    (Keeps.run (any_recvClosed.dsrAckSend s dst id) ⟨trivial, Later.refl s⟩ h).2
  change xmitPkt xmit .ackSend (ackPkt s.kmem s.ifaddr dst id) s = _ at h
  refine ⟨?_, hlater.kmem, hlater.ifaddr⟩
  cases hp : ackPkt s.kmem s.ifaddr dst id with
  | none =>
    rw [hp] at h
    cases h
    exact ⟨[], (List.append_nil _).symm, rfl⟩
  | some dp =>
    rw [hp] at h
    have hsite : ¬ XmitSite.maint .ackSend := not_false
    obtain ⟨due, c, hout, hc⟩ := xmit_once hsite h
    refine ⟨_, hout, ?_⟩
    have hnil := acksSent_of_silent fun e he => ackSent_of_maint (hc e he)
    rw [acksSent, List.filterMap_cons]
    exact congrArg (dp :: ·) hnil

theorem dsrAckReqOptRecv_sent (h : dsrAckReqOptRecv dp p s = .ok (dp₁, act) s') (hpr : dp.promiscRecv = false) :
    AcksSent s (ackPkt s.kmem s.ifaddr (ackHop dp) (dp.be16Field p 2)).toList s' := by
  unfold dsrAckReqOptRecv at h
  rw [if_neg (by rw [hpr]; exact Bool.false_ne_true)] at h
  obtain ⟨_, s₂, hsend, h⟩ := bind_ok h
  cases h
  have hsent := dsrAckSend_sent hsend
  by_cases hsrt : dp.srtOpt = none
  · rw [if_pos hsrt] at hsent
    rw [ackHop, if_pos hsrt]
    exact hsent
  · rw [if_neg hsrt] at hsent
    rw [ackHop, if_neg hsrt]
    exact hsent

theorem dsrOptRecvOne_sent (hp : dsrOptHdrLen ≤ p.off) (l : ℕ)
    (h : dsrOptRecvOne dp p s = .ok (dp₁, act) s') :
    AcksSent s (acksDue s.kmem s.ifaddr ⟨l, p, dp, s, act⟩) s' := by
  by_cases ht : optTypeOf (dp.fieldAt p 0) = .ackReq
  · rw [dsrOptRecvOne, ht] at h
    cases hpr : dp.promiscRecv with
    | true =>
      have hno : ¬ (Dispatch.type ⟨l, p, dp, s, act⟩ = .ackReq ∧ dp.promiscRecv = false) := by
        rw [hpr]
        exact fun hd => absurd hd.2 (by decide)
      rw [acksDue, if_neg hno]
      dsimp only at h
      rw [dsrAckReqOptRecv, if_pos hpr] at h
      cases h
      exact .refl s
    | false =>
      rw [acksDue, if_pos ⟨ht, hpr⟩]
      exact dsrAckReqOptRecv_sent h hpr
  · rw [acksDue, if_neg fun hd => ht hd.1]
    obtain ⟨⟨b, hb, hE⟩, hl⟩ := Keeps.run ((ack_replyClosed s).dsrOptRecvOne_other s hp ht trivial).keeps
      ⟨Adds.refl s _, Later.refl s⟩ h
    exact ⟨⟨b, hb, acksSent_of_silent hE⟩, hl.kmem, hl.ifaddr⟩

theorem Walked.sent {dsrLen l : ℕ} {dp' : DsrPkt} {tr : List Dispatch}
    (h : Walked dsrLen l p dp s tr dp' s') : dsrOptHdrLen ≤ p.off →
    AcksSent s (tr.flatMap (acksDue s.kmem s.ifaddr)) s' := by
  induction h with
  | done _ => exact fun _ => .refl _
  | @pad1 l p dp s tr dp' s' _ ht _ ih =>
    intro hp
    have hno : acksDue s.kmem s.ifaddr ⟨l, p, dp, s, []⟩ = [] := by
      rw [acksDue, Dispatch.type, ht]
      rfl
    rw [List.flatMap_cons, hno, List.nil_append]
    exact ih (Nat.le_trans hp (Nat.le_add_right _ _))
  | @opt l p dp s dp₁ act s₁ tr dp' s' _ _ hone _ ih =>
    intro hp
    have hsent := dsrOptRecvOne_sent hp l hone
    have hrest := ih (Nat.le_trans hp (Nat.le_add_right _ _))
    rw [hsent.kmem, hsent.ifaddr] at hrest
    exact hsent.trans hrest

end Sent

def srtHop (mem : ℕ → UInt8) (dp : DsrPkt) (p : OptPtr) : InAddr :=
  dsrSrtPrevHop (srtOptSrt mem dp p) ((srtOptSleft dp p : Int) - 1)

def rreqHop (mem : ℕ → UInt8) (me : InAddr) (dp : DsrPkt) (p : OptPtr) : InAddr :=
  let rev := dsrSrtNewRev (srtFlags mem) (rreqOptSrt mem me dp p)
  if rev.laddrs > 0 then rev.addrs.headD (junkAddr mem) else rev.dst

def rreqKnown (s : DsrNode) (initiator target : InAddr) (id : ℕ) : Bool :=
  (s.rreqTbl.find fun e => e.nodeAddr = initiator &&
    e.rreqIdTbl.head.any fun i => i.trgAddr = target && i.id = id).isSome

structure TakesUp (d : Dispatch) : Prop where
  taken : rreqTaken d.before d.p
  first : d.before.numRreqOpts = 0
  fresh : rreqKnown d.node d.before.src (d.before.addrField d.p 4) (d.before.be16Field d.p 2) = false
  long : 6 ≤ d.before.optLength d.p

instance (d : Dispatch) : Decidable (TakesUp d) :=
  decidable_of_iff (rreqTaken d.before d.p ∧ d.before.numRreqOpts = 0 ∧
    rreqKnown d.node d.before.src (d.before.addrField d.p 4) (d.before.be16Field d.p 2) = false ∧
    6 ≤ d.before.optLength d.p)
    ⟨fun h => ⟨h.1, h.2.1, h.2.2.1, h.2.2.2⟩, fun h => ⟨h.taken, h.first, h.fresh, h.long⟩⟩

def hopStep (h : InAddr) (d : Dispatch) : InAddr :=
  if d.type = .srt then srtHop d.node.kmem d.before d.p
  else if TakesUp d then rreqHop d.node.kmem d.node.ifaddr d.before d.p
  else h

structure HopStep (d : Dispatch) (dp₁ : DsrPkt) : Prop where
  srtOpt : dp₁.srtOpt = if d.type = .srt then some d.p else d.before.srtOpt
  prvHop : d.type ≠ .ackReq → dp₁.prvHop = hopStep d.before.prvHop d

structure HopKept (dp : DsrPkt) (r : DsrPkt × List DsrPktAction) : Prop where
  srtOpt : r.1.srtOpt = dp.srtOpt
  prvHop : r.1.prvHop = dp.prvHop

section Step

variable {dp : DsrPkt} {p : OptPtr}

theorem HopKept.hopStep {d : Dispatch} {dp₁ : DsrPkt} {act : List DsrPktAction}
    (h : HopKept d.before (dp₁, act)) (hs : d.type ≠ .srt) (hr : ¬ TakesUp d) : HopStep d dp₁ :=
  ⟨by rw [if_neg hs]; exact h.srtOpt, fun _ => by rw [DsrUu.hopStep, if_neg hs, if_neg hr]; exact h.prvHop⟩

theorem dsrRrepOptRecv_hop (dp : DsrPkt) (p : OptPtr) : Returns (HopKept dp) (dsrRrepOptRecv dp p) := by
  refine Returns.ite (fun _ => Returns.pure ⟨rfl, rfl⟩) fun _ => ?_
  dsimp only
  refine Returns.ite (fun _ => Returns.pure ⟨rfl, rfl⟩) fun _ => ?_
  refine Returns.bind fun mem => Returns.bind fun me => Returns.bind fun _ => Returns.bind fun _ => ?_
  exact Returns.ite (fun _ => Returns.pure ⟨rfl, rfl⟩) fun _ => Returns.pure ⟨rfl, rfl⟩

theorem dsrRerrOptRecv_hop (dp : DsrPkt) (p : OptPtr) : Returns (HopKept dp) (dsrRerrOptRecv dp p) :=
  Returns.ite (fun _ => Returns.bind fun _ => Returns.bind fun _ => Returns.pure ⟨rfl, rfl⟩)
    fun _ => Returns.pure ⟨rfl, rfl⟩

theorem dsrAckReqOptRecv_srtOpt (dp : DsrPkt) (p : OptPtr) :
    Returns (fun r : DsrPkt × List DsrPktAction => r.1.srtOpt = dp.srtOpt) (dsrAckReqOptRecv dp p) := by
  refine Returns.ite (fun _ => Returns.pure rfl) fun _ => ?_
  dsimp only
  refine Returns.bind fun _ => Returns.pure ?_
  split <;> rfl

theorem dsrSrtOptRecv_hop {s s' : DsrNode} {r : DsrPkt × List DsrPktAction}
    (h : dsrSrtOptRecv dp p s = .ok r s') : r.1.srtOpt = some p ∧ r.1.prvHop = srtHop s.kmem dp p := by
  obtain ⟨me, s₁, hme, h⟩ := bind_ok h
  cases hme
  obtain ⟨mem, s₁, hmem, h⟩ := bind_ok h
  cases hmem
  have hset : ∀ (dp₁ : DsrPkt) k, (srtOptSetSleft dp₁ p k).notes = dp₁.notes :=
    fun dp₁ k => writeField_notes dp₁ p 2 _
  refine Returns.bind (R := fun r : DsrPkt × List DsrPktAction =>
    r.1.srtOpt = some p ∧ r.1.prvHop = srtHop s.kmem dp p) (fun _ => ?_) _ _ _ h
  refine Returns.bind fun _ => Returns.bind fun ok => ?_
  refine Returns.ite (fun _ => Returns.pure ⟨rfl, rfl⟩) fun _ => ?_
  refine Returns.ite (fun _ => Returns.pure ⟨rfl, rfl⟩) fun _ => ?_
  refine Returns.ite (fun _ => Returns.pure ⟨rfl, rfl⟩) fun _ => Returns.pure ?_
  exact ⟨(congrArg DsrPkt.srtOpt (hset _ _) :), (congrArg DsrPkt.prvHop (hset _ _) :)⟩

theorem dsrRreqDuplicate_ok {s s' : DsrNode} {initiator target : InAddr} {id : ℕ} {dup : Bool}
    (h : dsrRreqDuplicate initiator target id s = .ok dup s') : dup = rreqKnown s initiator target id := by
  obtain ⟨s₁, hm, -, -⟩ := locked_ok h
  obtain ⟨t, s₂, hg, hm⟩ := bind_ok hm
  cases hg
  cases hm
  rw [acquire]
  split <;> rfl

theorem dsrRreqOptRecv_hop {l : ℕ} {act : List DsrPktAction} {s s' : DsrNode}
    {r : DsrPkt × List DsrPktAction} (ht : optTypeOf (dp.fieldAt p 0) = .rreq) (hpr : dp.promiscRecv = false)
    (h : dsrRreqOptRecv dp p s = .ok r s') : HopStep ⟨l, p, dp, s, act⟩ r.1 := by
  have hsrt : Dispatch.type ⟨l, p, dp, s, act⟩ ≠ .srt := fun hs => nomatch ht.symm.trans hs
  have hkept : ∀ dp₁ : DsrPkt, HopKept dp (dp₁, act) → ¬ TakesUp ⟨l, p, dp, s, act⟩ →
      HopStep ⟨l, p, dp, s, act⟩ dp₁ := fun dp₁ hk hn => hk.hopStep hsrt hn
  change (if dp.promiscRecv then _ else _ : DsrM _) s = _ at h
  rw [if_neg (by rw [hpr]; exact Bool.false_ne_true)] at h
  change (if dp.numRreqOpts + 1 > 1 then _ else _ : DsrM _) s = _ at h
  by_cases hn : dp.numRreqOpts + 1 > 1
  · rw [if_pos hn] at h
    cases h
    refine hkept _ ⟨rfl, rfl⟩ fun hu => ?_
    have hfirst : dp.numRreqOpts = 0 := hu.first
    omega
  · rw [if_neg hn] at h
    obtain ⟨me, s₁, hme, h⟩ := bind_ok h
    cases hme
    obtain ⟨mem, s₁, hmem, h⟩ := bind_ok h
    cases hmem
    obtain ⟨dup, s₁, hdup, h⟩ := bind_ok h
    have hknown := dsrRreqDuplicate_ok hdup
    by_cases hd : dup = true
    · rw [if_pos hd] at h
      cases h
      refine hkept _ ⟨rfl, rfl⟩ fun hu => ?_
      have hfresh : rreqKnown s dp.src (dp.addrField p 4) (dp.be16Field p 2) = false := hu.fresh
      rw [hknown] at hd
      exact Bool.false_ne_true (hfresh.symm.trans hd)
    · rw [if_neg hd] at h
      obtain ⟨_, s₂, -, h⟩ := bind_ok h
      have htaken : ∀ dp₁ : DsrPkt, dp₁.srtOpt = dp.srtOpt → dp₁.prvHop = rreqHop s.kmem s.ifaddr dp p →
          6 ≤ dp.optLength p → HopStep ⟨l, p, dp, s, act⟩ dp₁ := by
        intro dp₁ hs hv hlong
        have hup : TakesUp ⟨l, p, dp, s, act⟩ := by
          refine ⟨⟨ht, hpr⟩, by dsimp only; omega, ?_, hlong⟩
          rw [← Bool.not_eq_true]
          exact fun hk => hd (hknown.trans hk)
        refine ⟨by rw [if_neg hsrt]; exact hs, fun _ => ?_⟩
        rw [hopStep, if_neg hsrt, if_pos hup]
        exact hv
      refine Returns.ite (R := fun r : DsrPkt × List DsrPktAction => HopStep ⟨l, p, dp, s, act⟩ r.1)
        (fun hshort => Returns.pure (hkept _ ⟨rfl, rfl⟩ fun hu => ?_)) (fun hlong => ?_) _ _ _ h
      · exact absurd hu.long (Nat.not_le_of_lt hshort)
      have hsix : 6 ≤ dp.optLength p := Nat.le_of_not_lt hlong
      have hday : ∀ (dp₁ : DsrPkt) a, (dp₁.setDaddr a).notes = dp₁.notes := setDaddr_notes
      have hfwd : ∀ dp₁ : DsrPkt, (rreqForward s.kmem s.ifaddr dp₁ p).notes = dp₁.notes :=
        fun dp₁ => rreqForward_notes s.kmem s.ifaddr dp₁ p
      have hforward : ∀ dp₁ : DsrPkt, dp₁.srtOpt = dp.srtOpt →
          dp₁.prvHop = rreqHop s.kmem s.ifaddr dp p →
          HopStep ⟨l, p, dp, s, act⟩ (rreqForward s.kmem s.ifaddr dp₁ p) := fun dp₁ hs hv =>
        htaken _ ((congrArg DsrPkt.srtOpt (hfwd dp₁) :).trans hs)
          ((congrArg DsrPkt.prvHop (hfwd dp₁) :).trans hv) hsix
      refine Returns.bind fun _ => Returns.bind fun _ => Returns.bind fun _ => ?_
      refine Returns.ite (fun _ => Returns.bind fun _ => Returns.pure (htaken _ ?_ ?_ hsix)) fun _ => ?_
      · exact (congrArg DsrPkt.srtOpt (hday _ _) :)
      · exact (congrArg DsrPkt.prvHop (hday _ _) :)
      refine Returns.ite (fun _ => Returns.pure (htaken _ rfl rfl hsix)) fun _ => ?_
      refine Returns.ite (fun _ => Returns.pure (htaken _ rfl rfl hsix)) fun _ => Returns.bind fun rc => ?_
      cases rc with
      | none => exact Returns.pure (hforward _ rfl rfl)
      | some rc =>
        refine Returns.ite (fun _ => Returns.pure (hforward _ rfl rfl)) fun _ => ?_
        refine Returns.bind fun _ => Returns.pure (htaken _ ?_ ?_ hsix)
        · exact (congrArg DsrPkt.srtOpt (hday _ _) :)
        · exact (congrArg DsrPkt.prvHop (hday _ _) :)

theorem dsrOptRecvOne_hop {l : ℕ} {act : List DsrPktAction} {dp₁ : DsrPkt} {s s₁ : DsrNode}
    (hpr : dp.promiscRecv = false) (h : dsrOptRecvOne dp p s = .ok (dp₁, act) s₁) :
    HopStep ⟨l, p, dp, s, act⟩ dp₁ := by
  have hoff : ¬ dp.promiscRecv = true := by
    rw [hpr]
    exact Bool.false_ne_true
  have hkept : ∀ {t : OptType}, optTypeOf (dp.fieldAt p 0) = t → t ≠ .srt → t ≠ .rreq →
      HopKept dp (dp₁, act) → HopStep ⟨l, p, dp, s, act⟩ dp₁ := by
    intro t ht hs hr hk
    exact hk.hopStep (fun hd => hs (ht.symm.trans hd)) fun hu => hr (ht.symm.trans hu.taken.1)
  rw [dsrOptRecvOne] at h
  cases ht : optTypeOf (dp.fieldAt p 0) with
  | rreq =>
    rw [ht] at h
    dsimp only at h
    rw [if_neg hoff] at h
    exact dsrRreqOptRecv_hop ht hpr h
  | rrep =>
    rw [ht] at h
    dsimp only at h
    rw [if_neg hoff] at h
    exact hkept ht nofun nofun (dsrRrepOptRecv_hop dp p _ _ _ h)
  | rerr =>
    rw [ht] at h
    exact hkept ht nofun nofun (Returns.ite (R := HopKept dp) (fun _ => Returns.pure ⟨rfl, rfl⟩)
      (fun _ => dsrRerrOptRecv_hop dp p) _ _ _ h)
  | ack =>
    rw [ht] at h
    exact hkept ht nofun nofun (Returns.ite (R := HopKept dp) (fun _ => Returns.pure ⟨rfl, rfl⟩)
      (fun _ => Returns.bind fun _ => Returns.pure ⟨rfl, rfl⟩) _ _ _ h)
  | srt =>
    rw [ht] at h
    obtain ⟨hsrt, hprv⟩ := dsrSrtOptRecv_hop h
    have hd : Dispatch.type ⟨l, p, dp, s, act⟩ = .srt := ht
    refine ⟨by rw [if_pos hd]; exact hsrt, fun _ => ?_⟩
    rw [hopStep, if_pos hd]
    exact hprv
  | ackReq =>
    rw [ht] at h
    have hd : Dispatch.type ⟨l, p, dp, s, act⟩ = .ackReq := ht
    have hne : ¬ Dispatch.type ⟨l, p, dp, s, act⟩ = .srt := fun hs => nomatch hd.symm.trans hs
    refine ⟨?_, fun hack => absurd hd hack⟩
    rw [if_neg hne]
    exact dsrAckReqOptRecv_srtOpt dp p _ _ _ h
  | _ =>
    rw [ht] at h
    cases h
    exact hkept ht nofun nofun ⟨rfl, rfl⟩

end Step

def hopAfter (h : InAddr) (tr : List Dispatch) : InAddr := tr.foldl hopStep h

theorem hopAfter_cons (h : InAddr) (d : Dispatch) (tr : List Dispatch) :
    hopAfter h (d :: tr) = hopAfter (hopStep h d) tr := rfl

theorem hopAfter_none {tr : List Dispatch} (hs : ∀ d ∈ tr, d.type ≠ .srt) (hr : ∀ d ∈ tr, ¬ TakesUp d)
    (h : InAddr) : hopAfter h tr = h := by
  induction tr with
  | nil => rfl
  | cons d tr ih =>
    rw [hopAfter_cons, hopStep, if_neg (hs d List.mem_cons_self), if_neg (hr d List.mem_cons_self)]
    exact ih (fun e he => hs e (List.mem_cons_of_mem _ he)) fun e he => hr e (List.mem_cons_of_mem _ he)

theorem hopAfter_one {pre post : List Dispatch} {d : Dispatch} (hd : d.type = .srt)
    (hs : ∀ e ∈ post, e.type ≠ .srt) (hr : ∀ e ∈ post, ¬ TakesUp e) (h : InAddr) :
    hopAfter h (pre ++ d :: post) = srtHop d.node.kmem d.before d.p := by
  rw [hopAfter, List.foldl_append]
  change hopAfter _ (d :: post) = _
  rw [hopAfter_cons, hopStep, if_pos hd, hopAfter_none hs hr]

theorem not_takesUp {d : Dispatch} (h : d.type ≠ .rreq) : ¬ TakesUp d := fun hu => h hu.taken.1

theorem Calm.before {pre post : List Dispatch} {d : Dispatch} (h : Calm (pre ++ d :: post)) :
    ∀ e ∈ pre, ¬ TakesUp e := by
  induction pre with
  | nil => exact fun _ he => absurd he List.not_mem_nil
  | cons e pre ih =>
    refine List.forall_mem_cons.mpr ⟨fun hu => ?_, ih h.2⟩
    have hnil := h.1 hu.taken hu.first hu.long
    exact List.append_ne_nil_of_right_ne_nil pre (List.cons_ne_nil d post) hnil

structure HopBefore (dp : DsrPkt) (pre : List Dispatch) (d : Dispatch) : Prop where
  srtOpt : d.before.srtOpt = none ↔ dp.srtOpt = none ∧ ∀ e ∈ pre, e.type ≠ .srt
  prvHop : d.before.prvHop = hopAfter dp.prvHop pre

theorem HopBefore.head {dp : DsrPkt} {d : Dispatch} (h : d.before = dp) : HopBefore dp [] d := by
  subst h
  exact ⟨⟨fun h => ⟨h, fun _ he => absurd he List.not_mem_nil⟩, fun h => h.1⟩, rfl⟩

theorem HopBefore.cons {dp dp₁ : DsrPkt} {p : OptPtr} {l : ℕ} {s : DsrNode} {act : List DsrPktAction}
    {pre : List Dispatch} {d : Dispatch} (hs : HopStep ⟨l, p, dp, s, act⟩ dp₁)
    (hack : Dispatch.type ⟨l, p, dp, s, act⟩ ≠ .ackReq) (h : HopBefore dp₁ pre d) :
    HopBefore dp (⟨l, p, dp, s, act⟩ :: pre) d := by
  have hsrt := hs.srtOpt
  refine ⟨?_, ?_⟩
  · rw [h.srtOpt, hsrt, List.forall_mem_cons]
    by_cases ht : Dispatch.type ⟨l, p, dp, s, act⟩ = .srt
    · rw [if_pos ht]
      exact ⟨fun h => absurd h.1 (Option.some_ne_none p), fun h => absurd ht h.2.1⟩
    · rw [if_neg ht]
      exact ⟨fun h => ⟨h.1, ht, h.2⟩, fun h => ⟨h.1, h.2.2⟩⟩
  · rw [h.prvHop, hs.prvHop hack]
    rfl

theorem Walked.hopBefore {dsrLen l : ℕ} {p : OptPtr} {dp dp' : DsrPkt} {s s' : DsrNode}
    {tr : List Dispatch} (h : Walked dsrLen l p dp s tr dp' s') : dp.promiscRecv = false →
    ∀ {pre post : List Dispatch} {d : Dispatch}, tr = pre ++ d :: post → (∀ e ∈ pre, e.type ≠ .ackReq) →
    HopBefore dp pre d := by
  induction h with
  | done _ =>
    intro _ pre post d htr
    exact absurd htr (List.append_ne_nil_of_right_ne_nil pre (List.cons_ne_nil d post)).symm
  | @pad1 l p dp s tr dp' s' _ ht _ ih =>
    intro hpr pre post d htr hpre
    cases pre with
    | nil =>
      obtain ⟨rfl, -⟩ := List.cons.inj htr
      exact .head rfl
    | cons e pre =>
      obtain ⟨rfl, htail⟩ := List.cons.inj htr
      have hb := ih hpr htail fun e he => hpre e (List.mem_cons_of_mem _ he)
      have hpad : Dispatch.type ⟨l, p, dp, s, []⟩ = .pad1 := ht
      have hkept : HopKept dp (dp, []) := ⟨rfl, rfl⟩
      have hstep : HopStep ⟨l, p, dp, s, []⟩ dp := HopKept.hopStep hkept
        (fun hs => nomatch hpad.symm.trans hs) (not_takesUp fun hr => nomatch hpad.symm.trans hr)
      exact .cons hstep (hpre _ List.mem_cons_self) hb
  | @opt l p dp s dp₁ act s₁ tr dp' s' _ _ hone _ ih =>
    intro hpr pre post d htr hpre
    cases pre with
    | nil =>
      obtain ⟨rfl, -⟩ := List.cons.inj htr
      exact .head rfl
    | cons e pre =>
      obtain ⟨rfl, htail⟩ := List.cons.inj htr
      have hpr₁ : dp₁.promiscRecv = false := (congrArg Prod.fst (dsrOptRecvOne_ends hone)).trans hpr
      have hb := ih hpr₁ htail fun e he => hpre e (List.mem_cons_of_mem _ he)
      exact .cons (dsrOptRecvOne_hop hpr hone) (hpre _ List.mem_cons_self) hb

theorem dsrPktAlloc_prvHop (mem : ℕ → UInt8) (skb : Skb) : (dsrPktAlloc mem skb).prvHop = default := by
  unfold dsrPktAlloc
  dsimp only
  split
  · exact (congrArg DsrPkt.prvHop (dsrOptParse_spec _).2 :)
  · rfl

theorem slotStarts_append (xs ys : List Slot) : ∀ o,
    slotStarts o (xs ++ ys) = slotStarts o xs ++ slotStarts (slotEnd o xs) ys := by
  induction xs with
  | nil => exact fun _ => rfl
  | cons x xs ih =>
    intro o
    rw [List.cons_append, slotStarts, slotStarts, slotEnd, ih, List.cons_append]

theorem optStarts_split (pre post : List DsrOpt) (o : DsrOpt) : ∃ rest,
    optStarts (pre ++ o :: post) = slotStarts dsrOptHdrLen (optSlots pre) ++
      ⟨dsrOptHdrLen + (optBytes pre).length, dsrOptHdrLen + (optBytes pre).length⟩ :: rest := by
  refine ⟨slotStarts (dsrOptHdrLen + (optBytes pre).length + o.slot.size) (optSlots post), ?_⟩
  rw [← slotEnd_optSlots pre dsrOptHdrLen, optStarts, optSlots, List.map_append, slotStarts_append,
    List.map_cons, slotStarts]
  rfl

theorem optBytes_split (pre post : List DsrOpt) (o : DsrOpt) :
    optBytes (pre ++ o :: post) = optBytes pre ++ (o.bytes ++ optBytes post) := by
  simp [optBytes]

structure Meets (dp : DsrPkt) (o : DsrOpt) (d : Dispatch) : Prop where
  intact : Intact dp.byteAt false dp.optsLen d
  type : d.type = o.type
  bytes : ∀ j, j < o.bytes.length → d.before.fieldAt d.p j = o.bytes.getD j 0
  inside : d.p.off + o.bytes.length ≤ dp.optsLen

section Meets

variable {mem : ℕ → UInt8} {skb : Skb} {s s' : DsrNode} {tr : List Dispatch} {dp' : DsrPkt}

theorem OptDatagram.calm {os : List DsrOpt} (h : OptDatagram os skb) (hp : Plain os) (hr : RreqLast os)
    (htr : RecvTrace (dsrPktRecv mem false skb) s tr dp' s') :
    (∀ d ∈ tr, Intact (dsrPktRecv mem false skb).byteAt false (dsrPktRecv mem false skb).optsLen d) ∧
      Calm tr := by
  have ha := h.area mem false
  have hwalk := (parseWalk_eq_iff ha).mpr hp
  have hsafe : RreqSafe (dsrPktRecv mem false skb).byteAt (dsrPktRecv mem false skb)
      (parseWalk (dsrPktRecv mem false skb)) := by
    rw [hwalk]
    exact Or.inr (Or.inr (rreqEnds_of_last os ha.laid hp.noPad1 hr))
  obtain ⟨-, hd, hcalm⟩ := htr.intact (dsrPktRecv_live h.protocol mem false) (Nat.le_refl _)
    (dsrPktRecv_tailroom h.protocol mem false) (fun _ _ => rfl) (Nat.le_add_left _ _) hsafe
  exact ⟨hd, hcalm rfl⟩

theorem OptDatagram.meets {pre post : List DsrOpt} {o : DsrOpt} (h : OptDatagram (pre ++ o :: post) skb)
    (hp : Plain (pre ++ o :: post)) (hr : RreqLast (pre ++ o :: post))
    (htr : RecvTrace (dsrPktRecv mem false skb) s tr dp' s') : ∃ tpre d tpost,
      tr = tpre ++ d :: tpost ∧ tpre.map Dispatch.type = pre.map DsrOpt.type ∧
      tpost.map Dispatch.type = post.map DsrOpt.type ∧ Meets (dsrPktRecv mem false skb) o d := by
  have ha := h.area mem false
  obtain ⟨hcur, htype⟩ := h.trace hp (Or.inr hr) htr
  obtain ⟨hintact, -⟩ := h.calm hp hr htr
  obtain ⟨rest, hstarts⟩ := optStarts_split pre post o
  rw [hstarts] at hcur
  obtain ⟨tpre, tl, rfl, hpre, htl⟩ := List.map_eq_append_iff.mp hcur
  obtain ⟨d, tpost, rfl, hd, -⟩ := List.map_eq_cons_iff.mp htl
  have hlen : tpre.length = pre.length := by
    rw [← List.length_map (f := Dispatch.cursor), hpre, length_slotStarts, optSlots, List.length_map]
  rw [List.map_append, List.map_append] at htype
  obtain ⟨htpre, htail⟩ := List.append_inj htype (by rw [List.length_map, List.length_map, hlen])
  rw [List.map_cons, List.map_cons] at htail
  obtain ⟨hdtype, htpost⟩ := List.cons.inj htail
  have hoff : d.p.off = dsrOptHdrLen + (optBytes pre).length := congrArg Cursor.off hd
  have hin := hintact d (List.mem_append_right _ List.mem_cons_self)
  have hopts := ha.optsLen
  rw [optBytes_split, List.length_append, List.length_append] at hopts
  refine ⟨tpre, d, tpost, rfl, htpre, htpost, hin, hdtype, fun j hj => ?_, by omega⟩
  have hbyte := ha.bytes ((optBytes pre).length + j) (by
    rw [optBytes_split, List.length_append, List.length_append]
    omega)
  rw [hin.fieldAt, hoff, Nat.add_assoc, hbyte, optBytes_split, getD_append_right, getD_append_left hj]

end Meets

theorem OptAt.of_bytes {dp : DsrPkt} {p : OptPtr} {b : OptBuf} {opt : List UInt8} (hb : dp.dh = some b)
    (hlive : dp.live p = true) (hroom : p.off + opt.length ≤ b.raw.length)
    (h : ∀ j, j < opt.length → dp.fieldAt p j = opt.getD j 0) :
    OptAt dp p (b.raw.take p.off) opt (b.raw.drop (p.off + opt.length)) := by
  have hopt : (b.raw.drop p.off).take opt.length = opt := by
    refine List.ext_getElem (by simp; omega) fun j hj hj' => ?_
    have hbyte := h j hj'
    rw [fieldAt_live hlive, byteAt_dh hb, List.getD_eq_getElem?_getD, List.getD_eq_getElem?_getD,
      List.getElem?_eq_getElem (by omega), List.getElem?_eq_getElem hj'] at hbyte
    rw [List.getElem_take, List.getElem_drop]
    exact hbyte
  refine ⟨⟨b, hb, ?_⟩, (live_iff hb p).mp hlive, ?_⟩
  · have hsplit := List.take_append_drop opt.length (b.raw.drop p.off)
    rw [hopt, List.drop_drop] at hsplit
    rw [hsplit, List.take_append_drop]
  · rw [List.length_take, Nat.min_eq_left (by omega)]

def srtSleft (w0 w1 : UInt8) : ℕ := (w0.toNat + 256 * w1.toNat) / 1024

inductive PrevHop (src : InAddr) (os : List DsrOpt) : InAddr → Prop
  | source : (∀ o ∈ os, o.type ≠ .srt) → PrevHop src os src
  | srt {pre o post w0 w1 front rest} : os = pre ++ o :: post → (∀ x ∈ pre ++ post, x.type ≠ .srt) →
      o.bytes = srtOptRaw w0 w1 (front ++ rest) → rest.length = srtSleft w0 w1 →
      PrevHop src os ((src :: front).getLast (List.cons_ne_nil _ _))

section Hop

variable {dp : DsrPkt} {o : DsrOpt} {d : Dispatch}

theorem srt_type {w0 w1 : UInt8} {as : List InAddr} (h : o.bytes = srtOptRaw w0 w1 as) :
    o.type = .srt ∧ as.length ≤ 63 := by
  cases o with
  | pad1 =>
    have hlen := congrArg List.length h
    rw [length_srtOptRaw] at hlen
    cases hlen
  | tlv o =>
    have hlen := congrArg List.length h
    rw [length_srtOptRaw] at hlen
    have hshort := o.short
    simp only [DsrOpt.bytes, List.length_cons] at hlen
    refine ⟨?_, by omega⟩
    obtain ⟨ht, -⟩ := List.cons.inj h
    rw [DsrOpt.type, ht]
    decide

theorem Meets.optAt (h : Meets dp o d) : ∃ pre post, OptAt d.before d.p pre o.bytes post := by
  have hlive := h.intact.live
  cases hb : d.before.dh with
  | none =>
    rw [DsrPkt.live, hb] at hlive
    cases hlive
  | some b =>
    have hroom := h.intact.room
    have hlen := h.intact.optsLen
    rw [DsrPkt.tailroom, hb] at hroom
    rw [optsLen_dh hb] at hlen
    dsimp only at hroom
    have hin := h.inside
    exact ⟨_, _, .of_bytes hb hlive (by omega) h.bytes⟩

theorem Meets.srtHop {w0 w1 : UInt8} {front rest : List InAddr} (h : Meets dp o d) (mem : ℕ → UInt8)
    (ho : o.bytes = srtOptRaw w0 w1 (front ++ rest)) (hrest : rest.length = srtSleft w0 w1) :
    srtHop mem d.before d.p = (d.before.src :: front).getLast (List.cons_ne_nil _ _) := by
  obtain ⟨pre, post, hat⟩ := h.optAt
  rw [ho] at hat
  have hsrt := hat.srtOptSrt_raw (srt_type ho).2 mem
  have hsleft : srtOptSleft d.before d.p = rest.length := by
    rw [srtOptSleft, hat.srtOptWord_raw, hrest, srtSleft]
  have hn : (routeSrt mem d.before (front ++ rest)).n = (front ++ rest).length := by
    rw [DsrSrt.n, routeSrt]
    dsimp only
    omega
  have hlen : (front ++ rest).length = front.length + rest.length := List.length_append
  rw [DsrUu.srtHop, hsrt, hsleft, prevHop_front hn (by rw [hn]; omega), hn, hlen, Nat.add_sub_cancel]
  simp [routeSrt]

end Hop

theorem ackPkt_dst_id {mem : ℕ → UInt8} {me dst : InAddr} {id : ℕ} {dp : DsrPkt}
    (h : ackPkt mem me dst id = some dp) :
    dp.dst = dst ∧ be16 (dp.byteAt (dsrOptHdrLen + 2)) (dp.byteAt (dsrOptHdrLen + 3)) = id % 65536 := by
  unfold ackPkt at h
  obtain ⟨dp₁, h₁, h⟩ := Option.bind_eq_some_iff.mp h
  obtain ⟨dp₂, h₂, rfl⟩ := Option.map_eq_some_iff.mp h
  obtain ⟨b, hb, hlen, hdst⟩ : ∃ b, dp₁.dh = some b ∧ b.raw.length = dsrOptHdrLen + dsrAckHdrLen + defaultTailroom ∧
      dp₁.dst = dst := by
    unfold dsrOptHdrAdd at h₁
    split at h₁
    · cases h₁
    · cases h₁
      exact ⟨_, congrArg DsrPkt.dh (write_dh ((dsrBuildIp_dh _ _ _ _ _ _).trans rfl) 0 _), by simp, rfl⟩
  unfold dsrAckOptAdd at h₂
  split at h₂
  · cases h₂
  · cases h₂
    have hbyte : ∀ i, i < 12 → (dp₁.write dsrOptHdrLen (ackOptBytes dp₁.src dp₁.dst id)).byteAt (dsrOptHdrLen + i) =
        (ackOptBytes dp₁.src dp₁.dst id).getD i 0 := fun i hi =>
      byteAt_write_head hb hi (by rw [hlen, dsrOptHdrLen, dsrAckHdrLen]; omega)
    refine ⟨?_, ?_⟩
    · rw [write_dh hb]
      exact hdst
    · have hid := be16_toBe16 (id % 65536) (Nat.mod_lt _ (by decide))
      rw [← hid]
      exact congrArg₂ be16 (hbyte 2 (by decide)) (hbyte 3 (by decide))
theorem ackPkt_some (mem : ℕ → UInt8) (me dst : InAddr) (id : ℕ) :
    ∃ dp, ackPkt mem me dst id = some dp ∧ dp.dst = dst ∧ dp.nxtHop = dst := by
  exact ⟨_, rfl, rfl, rfl⟩

theorem ackPkt_inj {mem : ℕ → UInt8} {me hop hop' : InAddr} {id id' : ℕ} (hid : id < 65536) (hid' : id' < 65536)
    (h : ackPkt mem me hop id = ackPkt mem me hop' id') : hop = hop' ∧ id = id' := by
  obtain ⟨dp, hdp, -⟩ := ackPkt_some mem me hop id
  obtain ⟨hdst, hb⟩ := ackPkt_dst_id hdp
  obtain ⟨hdst', hb'⟩ := ackPkt_dst_id (h.symm.trans hdp)
  rw [hb, Nat.mod_eq_of_lt hid, Nat.mod_eq_of_lt hid'] at hb'
  exact ⟨hdst.symm.trans hdst', hb'⟩

def ackReqId (o : DsrOpt) : ℕ := be16 (o.bytes.getD 2 0) (o.bytes.getD 3 0)

def AckAnswered (s : DsrNode) (hop : InAddr) (id : ℕ) (s' : DsrNode) : Prop :=
  ∃ ack, ackPkt s.kmem s.ifaddr hop id = some ack ∧ acksSent (newEvents s s') = [ack]

theorem be16_lt (hi lo : UInt8) : be16 hi lo < 65536 := by
  have hhi := hi.toNat_lt
  have hlo := lo.toNat_lt
  unfold be16
  omega

theorem flatMap_eq_singleton {α β : Type} {f : α → List β} {y : β} {xs : List α}
    (h : ∀ x ∈ xs, (f x).length = 1) : xs.flatMap f = [y] ↔ ∃ x, xs = [x] ∧ f x = [y] := by
  constructor
  · intro hflat
    match xs with
    | [] => exact absurd hflat.symm (List.cons_ne_nil y [])
    | [x] =>
      rw [List.flatMap_singleton] at hflat
      exact ⟨x, rfl, hflat⟩
    | x :: z :: xs =>
      have hlen := congrArg List.length hflat
      have hx := h x List.mem_cons_self
      have hz := h z (List.mem_cons_of_mem _ List.mem_cons_self)
      rw [List.flatMap_cons, List.flatMap_cons, List.length_append, List.length_append, hx, hz,
        List.length_singleton] at hlen
      omega
  · rintro ⟨x, rfl, hx⟩
    rw [List.flatMap_singleton, hx]

section Due

variable {kmem : ℕ → UInt8} {me : InAddr} {tr : List Dispatch}

theorem acksDue_one (kmem : ℕ → UInt8) (me : InAddr) {d : Dispatch} (ht : d.type = .ackReq)
    (hpr : d.before.promiscRecv = false) :
    ∃ ack, ackPkt kmem me (ackHop d.before) (d.before.be16Field d.p 2) = some ack ∧
      acksDue kmem me d = [ack] := by
  obtain ⟨ack, hack, -⟩ := ackPkt_some kmem me (ackHop d.before) (d.before.be16Field d.p 2)
  refine ⟨ack, hack, ?_⟩
  rw [acksDue, if_pos ⟨ht, hpr⟩, hack]
  rfl

theorem acksDue_requests : tr.flatMap (acksDue kmem me) = (dispatchesOf .ackReq tr).flatMap (acksDue kmem me) := by
  induction tr with
  | nil => rfl
  | cons d tr ih =>
    rw [List.flatMap_cons, ih, dispatchesOf, dispatchesOf, List.filter_cons]
    split
    · rfl
    · next ht =>
      rw [acksDue, if_neg fun hd => ht (decide_eq_true hd.1)]
      rfl

theorem ackAnswered_iff {s s' : DsrNode} {hop : InAddr} {id : ℕ} (hid : id < 65536)
    (hsent : acksSent (newEvents s s') = tr.flatMap (acksDue s.kmem s.ifaddr))
    (hpr : ∀ d ∈ tr, d.before.promiscRecv = false) : AckAnswered s hop id s' ↔
      ∃ d, dispatchesOf .ackReq tr = [d] ∧ d.before.be16Field d.p 2 = id ∧ ackHop d.before = hop := by
  have hin : ∀ d ∈ dispatchesOf .ackReq tr, d.type = .ackReq ∧ d.before.promiscRecv = false := by
    intro d hd
    obtain ⟨hmem, ht⟩ := List.mem_filter.mp hd
    exact ⟨of_decide_eq_true ht, hpr d hmem⟩
  have hlen : ∀ d ∈ dispatchesOf .ackReq tr, (acksDue s.kmem s.ifaddr d).length = 1 := by
    intro d hd
    obtain ⟨ack, -, hone⟩ := acksDue_one s.kmem s.ifaddr (hin d hd).1 (hin d hd).2
    rw [hone, List.length_singleton]
  rw [acksDue_requests] at hsent
  constructor
  · rintro ⟨ack, hack, hone⟩
    obtain ⟨d, hd, hdue⟩ := (flatMap_eq_singleton hlen).mp (hsent.symm.trans hone)
    obtain ⟨ht, hprd⟩ := hin d (by rw [hd]; exact List.mem_singleton_self d)
    obtain ⟨ack', hack', hdue'⟩ := acksDue_one s.kmem s.ifaddr ht hprd
    obtain rfl : ack' = ack := List.head_eq_of_cons_eq (hdue'.symm.trans hdue)
    obtain ⟨hhop, hnum⟩ := ackPkt_inj (be16_lt _ _) hid (hack'.trans hack.symm)
    exact ⟨d, hd, hnum, hhop⟩
  · rintro ⟨d, hd, rfl, rfl⟩
    obtain ⟨ht, hprd⟩ := hin d (by rw [hd]; exact List.mem_singleton_self d)
    obtain ⟨ack, hack, hdue⟩ := acksDue_one s.kmem s.ifaddr ht hprd
    exact ⟨ack, hack, hsent.trans ((flatMap_eq_singleton hlen).mpr ⟨d, hd, hdue⟩)⟩

end Due

def hopNoted (dp : DsrPkt) (pre : List Dispatch) : InAddr :=
  if (∀ c ∈ parseWalk dp, optTypeOf (dp.byteAt c.off) ≠ .srt) ∧ ∀ e ∈ pre, e.type ≠ .srt then dp.src
  else hopAfter default pre

structure AckReqMet (dp : DsrPkt) (ms : List Met) (tr : List Dispatch) (hop : InAddr) (id : ℕ) : Prop where
  one : ∃ m, metsOf .ackReq ms = [m] ∧ m.pkt.be16Field m.ptr 2 = id
  noted : hopNoted dp (tr.takeWhile fun d => d.type ≠ .ackReq) = hop

theorem Recorded.srtOpt_none {cs : List Cursor} {dp : DsrPkt} (h : Recorded cs dp) :
    dp.srtOpt = none ↔ ∀ c ∈ cs, optTypeOf (dp.byteAt c.off) ≠ .srt := by
  rw [h.srt, ← ofType_nil]
  generalize ofType _ _ _ = cs
  cases cs with
  | nil => exact ⟨fun _ => rfl, fun _ => rfl⟩
  | cons c cs => exact ⟨fun h => (nomatch h), fun h => (nomatch h)⟩

theorem Reads.be16 {m : Met} {d : Dispatch} (h : Reads m d) :
    m.pkt.be16Field m.ptr 2 = d.before.be16Field d.p 2 := by
  rw [h.ptr, DsrPkt.be16Field, DsrPkt.be16Field, h.agrees.fieldAt, h.agrees.fieldAt]

theorem takeWhile_before {pre post : List Dispatch} {d : Dispatch} (ht : d.type = .ackReq)
    (hpre : ∀ e ∈ pre, e.type ≠ .ackReq) :
    ((pre ++ d :: post).takeWhile fun d => d.type ≠ .ackReq) = pre := by
  rw [List.takeWhile_append_of_pos fun e he => decide_eq_true (hpre e he), List.takeWhile_cons,
    if_neg (by rw [decide_eq_true_eq]; exact fun hn => hn ht), List.append_nil]

theorem RecvTrace.ackHop {mem : ℕ → UInt8} {skb : Skb} (h : skb.iph.protocol = ipprotoDsr) {s s' : DsrNode}
    {dp' : DsrPkt} {pre post : List Dispatch} {d : Dispatch}
    (htr : RecvTrace (dsrPktRecv mem false skb) s (pre ++ d :: post) dp' s')
    (hpre : ∀ e ∈ pre, e.type ≠ .ackReq) : ackHop d.before = hopNoted (dsrPktRecv mem false skb) pre := by
  have hb := Walked.hopBefore htr rfl rfl hpre
  have hnone := (dsrPktRecv_recorded h mem false).srtOpt_none
  have hprv : (dsrPktRecv mem false skb).prvHop = default := dsrPktAlloc_prvHop mem skb
  have hsrc : d.before.src = (dsrPktRecv mem false skb).src :=
    congrArg (·.2.1) (Walked.ends htr d (List.mem_append_right _ List.mem_cons_self))
  rw [DsrUu.ackHop, hopNoted, hb.prvHop, hprv, hsrc]
  exact if_congr (hb.srtOpt.trans (and_congr_left' hnone)) rfl rfl

theorem ackAnswered_met {mem : ℕ → UInt8} {skb : Skb} (h : skb.iph.protocol = ipprotoDsr) {s s' : DsrNode}
    {dp' : DsrPkt} {tr : List Dispatch} {ms : List Met} {hop : InAddr} {id : ℕ} (hid : id < 65536)
    (htr : RecvTrace (dsrPktRecv mem false skb) s tr dp' s') (hreads : List.Forall₂ Reads ms tr)
    (hsent : acksSent (newEvents s s') = tr.flatMap (acksDue s.kmem s.ifaddr)) :
    AckAnswered s hop id s' ↔ AckReqMet (dsrPktRecv mem false skb) ms tr hop id := by
  rw [ackAnswered_iff hid hsent htr.overheard]
  have hof := reads_ofType hreads .ackReq
  have hhop : ∀ {d}, dispatchesOf .ackReq tr = [d] → ackHop d.before =
      hopNoted (dsrPktRecv mem false skb) (tr.takeWhile fun d => d.type ≠ .ackReq) := by
    intro d hd
    obtain ⟨pre, post, rfl, hpre, ht, -⟩ := List.filter_eq_cons_iff.mp hd
    have hno : ∀ e ∈ pre, e.type ≠ .ackReq := fun e he ht => hpre e he (decide_eq_true ht)
    rw [takeWhile_before (of_decide_eq_true ht) hno]
    exact htr.ackHop h hno
  constructor
  · rintro ⟨d, hd, hnum, rfl⟩
    rw [hd] at hof
    obtain ⟨m, ms', hmd, hnil, hms⟩ := List.forall₂_cons_right_iff.mp hof
    rw [List.forall₂_nil_right_iff.mp hnil] at hms
    exact ⟨⟨m, hms, hmd.be16.trans hnum⟩, (hhop hd).symm⟩
  · rintro ⟨⟨m, hm, hnum⟩, rfl⟩
    rw [hm] at hof
    obtain ⟨d, tr', hmd, hnil, hd⟩ := List.forall₂_cons_left_iff.mp hof
    rw [List.forall₂_nil_left_iff.mp hnil] at hd
    exact ⟨d, hd, hmd.be16.symm.trans hnum, hhop hd⟩

theorem forall_type {tr : List Dispatch} {os : List DsrOpt} {t : OptType}
    (h : tr.map Dispatch.type = os.map DsrOpt.type) :
    (∀ d ∈ tr, d.type ≠ t) ↔ ∀ o ∈ os, o.type ≠ t := by
  have htr := List.forall_mem_map (f := Dispatch.type) (l := tr) (P := (· ≠ t))
  have hos := List.forall_mem_map (f := DsrOpt.type) (l := os) (P := (· ≠ t))
  rw [← htr, ← hos, h]

section Received

variable {mem : ℕ → UInt8} {skb : Skb}

theorem OptDatagram.srt_unparsed (mem : ℕ → UInt8) {os : List DsrOpt} (h : OptDatagram os skb) (hp : Plain os) :
    (∀ c ∈ parseWalk (dsrPktRecv mem false skb), optTypeOf ((dsrPktRecv mem false skb).byteAt c.off) ≠ .srt) ↔
      ∀ o ∈ os, o.type ≠ .srt := by
  have ha := h.area mem false
  rw [← ofType_nil, (parseWalk_eq_iff ha).mpr hp, ← mem_of_numOf, ← length_ofType_starts ha.laid,
    List.length_eq_zero_iff]

theorem before_of_length {α : Type} {xs ys xs' ys' : List α} {x y : α}
    (h : xs ++ x :: ys = xs' ++ y :: ys') (hlt : xs.length < xs'.length) :
    ∃ mid, xs' = xs ++ x :: mid ∧ ys = mid ++ y :: ys' := by
  rcases List.append_eq_append_iff.mp h with ⟨as, has, hx⟩ | ⟨cs, hcs, -⟩
  · cases as with
    | nil => simp [has] at hlt
    | cons z mid =>
      rw [List.cons_append] at hx
      obtain ⟨rfl, hys⟩ := List.cons.inj hx
      exact ⟨mid, has, hys⟩
  · rw [hcs, List.length_append] at hlt
    omega

variable {pre post : List DsrOpt} {a : DsrOpt} {s s' : DsrNode} {tpre tpost : List Dispatch} {d : Dispatch}
  {dp' : DsrPkt} (h : OptDatagram (pre ++ a :: post) skb) (hp : Plain (pre ++ a :: post))
  (hr : RreqLast (pre ++ a :: post)) (hone : ∀ o ∈ pre ++ post, o.type ≠ .ackReq)
  (htr : RecvTrace (dsrPktRecv mem false skb) s (tpre ++ d :: tpost) dp' s')
  (hpre : tpre.map Dispatch.type = pre.map DsrOpt.type)

include h hp hr hone htr hpre

theorem OptDatagram.noted_before {o : DsrOpt} {pre' mid : List DsrOpt} {w0 w1 : UInt8}
    {front rest : List InAddr} (hsplit : pre = pre' ++ o :: mid) (hmid : ∀ x ∈ mid, x.type ≠ .srt)
    (ho : o.bytes = srtOptRaw w0 w1 (front ++ rest)) (hrest : rest.length = srtSleft w0 w1) :
    ackHop d.before = (skb.iph.saddr :: front).getLast (List.cons_ne_nil _ _) := by
  have hnoted := htr.ackHop h.protocol ((forall_type hpre).mpr fun o ho => hone o (List.mem_append_left _ ho))
  have hcalm := (h.calm hp hr htr).2.before
  subst hsplit
  have hos : (pre' ++ o :: mid) ++ a :: post = pre' ++ o :: (mid ++ a :: post) := by simp
  rw [hos] at h hp hr
  obtain ⟨t₁, e, t₃, htrace, ht₁, -, hmeet⟩ := h.meets hp hr htr
  have hlen₁ := congrArg List.length ht₁
  have hlen := congrArg List.length hpre
  simp only [List.length_map, List.length_append, List.length_cons] at hlen₁ hlen
  obtain ⟨t₂, rfl, -⟩ := before_of_length htrace.symm (by omega)
  rw [List.map_append, List.map_append, List.map_cons, List.map_cons] at hpre
  obtain ⟨-, htail⟩ := List.append_inj hpre (by simp [hlen₁])
  have ht₂ : ∀ x ∈ t₂, x.type ≠ .srt := (forall_type (List.cons.inj htail).2).mpr hmid
  have hup : ∀ x ∈ t₂, ¬ TakesUp x := fun x hx =>
    hcalm x (List.mem_append_right _ (List.mem_cons_of_mem _ hx))
  have htype : e.type = .srt := hmeet.type.trans (srt_type ho).1
  have hsrc : e.before.src = skb.iph.saddr := by
    have hends := Walked.ends htr e (List.mem_append_left _ (List.mem_append_right _ List.mem_cons_self))
    exact (congrArg (·.2.1) hends :).trans (dsrPktAlloc_dsr mem h.protocol).src
  have hnone : ¬ ∀ x ∈ t₁ ++ e :: t₂, x.type ≠ .srt := fun hn =>
    hn e (List.mem_append_right _ List.mem_cons_self) htype
  rw [hnoted, hopNoted, if_neg fun hn => hnone hn.2, hopAfter_one htype ht₂ hup,
    hmeet.srtHop e.node.kmem ho hrest]
  simp only [hsrc]

theorem PrevHop.noted {hop : InAddr} (hack : a.type = .ackReq)
    (hhop : PrevHop skb.iph.saddr (pre ++ a :: post) hop) :
    ackHop d.before = if ∀ o ∈ post, o.type ≠ .srt then hop else default := by
  have hnoted := htr.ackHop h.protocol ((forall_type hpre).mpr fun o ho => hone o (List.mem_append_left _ ho))
  have hparsed := h.srt_unparsed mem hp
  cases hhop with
  | source hno =>
    have htpre : ∀ e ∈ tpre, e.type ≠ .srt :=
      (forall_type hpre).mpr fun o ho => hno o (List.mem_append_left _ ho)
    have hsrc : (dsrPktRecv mem false skb).src = skb.iph.saddr := (dsrPktAlloc_dsr mem h.protocol).src
    rw [hnoted, hopNoted, if_pos ⟨hparsed.mpr hno, htpre⟩, hsrc, if_pos fun o ho =>
      hno o (List.mem_append_right _ (List.mem_cons_of_mem _ ho))]
  | @srt pre' o post' w0 w1 front rest hos hno ho hrest =>
    have htype := (srt_type ho).1
    have hne : a ≠ o := by
      rintro rfl
      rw [hack] at htype
      cases htype
    rcases List.append_eq_append_iff.mp hos with ⟨as, has, htl⟩ | ⟨cs, hcs, htl⟩
    · cases as with
      | nil => exact absurd (List.cons.inj htl).1 hne
      | cons z as =>
        obtain ⟨rfl, hpost⟩ := List.cons.inj htl
        have hin : o ∈ post := by simp [hpost]
        have htpre : ∀ e ∈ tpre, e.type ≠ .srt :=
          (forall_type hpre).mpr fun x hx => hno x (by simp [has, hx])
        have hseen := fun hn => hparsed.mp hn o (by simp [hin]) htype
        rw [hnoted, hopNoted, if_neg fun hn => hseen hn.1, hopAfter_none htpre (h.calm hp hr htr).2.before,
          if_neg fun hpost => hpost o hin htype]
    · cases cs with
      | nil => exact absurd (List.cons.inj htl).1.symm hne
      | cons z mid =>
        obtain ⟨rfl, hpost⟩ := List.cons.inj htl
        rw [h.noted_before hp hr hone htr hpre hcs (fun x hx => hno x (by simp [hpost, hx])) ho hrest,
          if_pos fun x hx => hno x (by simp [hpost, hx])]

end Received

theorem relaySrt_bytes : relaySrtOpt.bytes = srtOptRaw 0 4 ([] ++ [⟨10, 0, 0, 1⟩]) := by decide

theorem relaySrt_prevHop {pre post : List DsrOpt} (hno : ∀ x ∈ pre ++ post, x.type ≠ .srt) :
    PrevHop ⟨10, 0, 0, 2⟩ (pre ++ relaySrtOpt :: post) ⟨10, 0, 0, 2⟩ :=
  .srt rfl hno relaySrt_bytes rfl

def ackDsts (os : List DsrOpt) : DsrM (List InAddr) := do
  let _ ← dsrOptRecv (relayPkt os)
  let s ← get
  pure ((acksSent (newEvents optNode s)).map DsrPkt.dst)

end DsrUu
