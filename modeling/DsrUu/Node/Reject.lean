import DsrUu.Node.Arrival
import DsrUu.Node.Flood
import DsrUu.Node.Grammar

namespace DsrUu

open Effect

def actsOf : OptType → List (List DsrPktAction)
  | .rreq => [[], [.drop], [.error], [.none], [.forwardRreq]]
  | .rrep => [[], [.error], [.sendBuffered], [.forward]]
  | .ack => [[], [.error], [.none]]
  | .srt => [[.drop], [.srtRemove], [.sendIcmp], [.forward]]
  | .ackReq => [[.error], [.none]]
  | _ => [[]]

def Acts (t : OptType) (r : DsrPkt × List DsrPktAction) : Prop := r.2 ∈ actsOf t

section Acts

variable {t : OptType} {act : List DsrPktAction}

theorem Acts.pure {dp : DsrPkt} (h : act ∈ actsOf t) :
    Returns (Acts t) (pure (dp, act) : DsrM (DsrPkt × List DsrPktAction)) := Returns.pure h

variable (dp : DsrPkt) (p : OptPtr)

theorem dsrRrepOptRecv_acts : Returns (Acts .rrep) (dsrRrepOptRecv dp p) := by
  refine Returns.ite (fun _ => Acts.pure (by decide)) fun _ => ?_
  dsimp only
  refine Returns.ite (fun _ => Acts.pure (by decide)) fun _ => ?_
  refine Returns.bind fun mem => Returns.bind fun me => Returns.bind fun _ => Returns.bind fun _ => ?_
  exact Returns.ite (fun _ => Acts.pure (by decide)) fun _ => Acts.pure (by decide)

theorem dsrRerrOptRecv_acts : Returns (Acts .rerr) (dsrRerrOptRecv dp p) :=
  Returns.ite (fun _ => Returns.bind fun _ => Returns.bind fun _ => Acts.pure (by decide))
    fun _ => Acts.pure (by decide)

theorem dsrAckOptRecv_acts : Returns (fun act => act ∈ actsOf .ack) (dsrAckOptRecv dp p) := by
  refine Returns.bind fun me => Returns.ite (fun _ => Returns.pure (by decide)) fun _ => ?_
  exact Returns.bind fun _ => Returns.pure (by decide)

theorem dsrAckReqOptRecv_acts : Returns (Acts .ackReq) (dsrAckReqOptRecv dp p) := by
  refine Returns.ite (fun _ => Acts.pure (by decide)) fun _ => ?_
  exact Returns.bind fun _ => Acts.pure (by decide)

theorem dsrSrtOptRecv_acts : Returns (Acts .srt) (dsrSrtOptRecv dp p) := by
  refine Returns.bind fun me => Returns.bind fun mem => ?_
  refine Returns.bind fun _ => Returns.bind fun _ => Returns.bind fun ok => ?_
  refine Returns.ite (fun _ => Acts.pure (by decide)) fun _ => ?_
  refine Returns.ite (fun _ => Acts.pure (by decide)) fun _ => ?_
  exact Returns.ite (fun _ => Acts.pure (by decide)) fun _ => Acts.pure (by decide)

theorem dsrRreqOptRecv_acts : Returns (Acts .rreq) (dsrRreqOptRecv dp p) := by
  refine Returns.ite (fun _ => Acts.pure (by decide)) fun _ => ?_
  dsimp only
  refine Returns.ite (fun _ => Acts.pure (by decide)) fun _ => ?_
  refine Returns.bind fun me => Returns.bind fun mem => Returns.bind fun dup => ?_
  refine Returns.ite (fun _ => Acts.pure (by decide)) fun _ => Returns.bind fun _ => ?_
  refine Returns.ite (fun _ => Acts.pure (by decide)) fun _ => ?_
  refine Returns.bind fun _ => Returns.bind fun _ => Returns.bind fun _ => ?_
  refine Returns.ite (fun _ => Returns.bind fun _ => Acts.pure (by decide)) fun _ => ?_
  refine Returns.ite (fun _ => Acts.pure (by decide)) fun _ => ?_
  refine Returns.ite (fun _ => Acts.pure (by decide)) fun _ => Returns.bind fun rc => ?_
  cases rc with
  | none => exact Acts.pure (by decide)
  | some rc =>
    refine Returns.ite (fun _ => Acts.pure (by decide)) fun _ => ?_
    exact Returns.bind fun _ => Acts.pure (by decide)

theorem dsrOptRecvOne_acts :
    Returns (Acts (optTypeOf (dp.fieldAt p 0))) (dsrOptRecvOne dp p) := by
  unfold dsrOptRecvOne
  cases optTypeOf (dp.fieldAt p 0) with
  | rreq => exact Returns.ite (fun _ => Acts.pure (by decide)) fun _ => dsrRreqOptRecv_acts dp p
  | rrep => exact Returns.ite (fun _ => Acts.pure (by decide)) fun _ => dsrRrepOptRecv_acts dp p
  | rerr => exact Returns.ite (fun _ => Acts.pure (by decide)) fun _ => dsrRerrOptRecv_acts dp p
  | ack =>
    refine Returns.ite (fun _ => Acts.pure (by decide)) fun _ => ?_
    exact Returns.bind_returns (dsrAckOptRecv_acts _ p) fun act ha => Acts.pure ha
  | srt => exact dsrSrtOptRecv_acts dp p
  | ackReq => exact dsrAckReqOptRecv_acts dp p
  | _ => exact Acts.pure (List.mem_singleton.mpr rfl)

end Acts

theorem Walked.acts {dsrLen l : ℕ} {p : OptPtr} {dp dp' : DsrPkt} {s s' : DsrNode}
    {tr : List Dispatch} (h : Walked dsrLen l p dp s tr dp' s') : ∀ d ∈ tr, d.act ∈ actsOf d.type := by
  induction h with
  | done _ => exact fun _ hd => absurd hd List.not_mem_nil
  | @pad1 l p dp s tr dp' s' _ hp _ ih =>
    intro d hd
    rcases List.mem_cons.mp hd with rfl | hd
    · rw [Dispatch.type, hp]
      exact List.mem_singleton.mpr rfl
    · exact ih d hd
  | opt _ _ hone _ ih =>
    intro d hd
    rcases List.mem_cons.mp hd with rfl | hd
    · exact dsrOptRecvOne_acts _ _ _ _ _ hone
    · exact ih d hd

theorem deliver_not_acts {t : OptType} {act : List DsrPktAction} (h : act ∈ actsOf t) :
    .deliver ∉ act := by
  have hall : ∀ t, ∀ act ∈ actsOf t, DsrPktAction.deliver ∉ act := by
    intro t
    cases t <;> decide
  exact hall t act h

def letsThrough : Event → Bool
  | .xmit .forward _ _ | .xmit .forwardRreq _ _ | .deliver _ => true
  | _ => false

def LetThrough (s s' : DsrNode) : Prop := ∃ e ∈ newEvents s s', letsThrough e = true

def OwnSite (site : XmitSite) : Prop := site ≠ .forward ∧ site ≠ .forwardRreq

structure ReceivedPkt (t : ℕ) (dp : DsrPkt) : Prop where
  promisc : dp.promiscRecv = false
  ttl : TtlOk t dp

theorem OwnSite.xmit {site : XmitSite} (h : OwnSite site) (dp : DsrPkt) (due : Bool) :
    letsThrough (.xmit site dp due) = false := by
  cases site with
  | forward => exact absurd rfl h.1
  | forwardRreq => exact absurd rfl h.2
  | _ => rfl

theorem promisc_of_notes {dp dp' : DsrPkt} (h : dp'.notes = dp.notes) : dp'.promiscRecv = dp.promiscRecv :=
  (congrArg DsrPkt.promiscRecv h :)

theorem opt_optClosed (s₀ : DsrNode) (t : ℕ) : OptClosed (Adds s₀ fun e => letsThrough e = false)
    (fun _ _ => True) (fun _ site _ => OwnSite site) (fun _ => True) (ReceivedPkt t) where
  held _ _ h := h
  lc _ _ _ _ _ h := h
  neighTbl _ _ h := h
  gratRrepTbl _ _ h := h
  gratTimer _ _ h := h
  ackTimer _ _ h := h
  carry _ _ _ _ _ := trivial
  retime _ _ _ _ _ _ := trivial
  entries _ _ _ _ := trivial
  maintBuf _ _ h _ := h
  ackReqSend _ _ _ _ _ _ _ := ⟨nofun, nofun⟩
  rerrSend _ _ _ _ _ _ _ _ _ _ _ _ _ _ := ⟨nofun, nofun⟩
  salvage _ _ _ _ _ _ _ _ _ _ _ _ := ⟨nofun, nofun⟩
  emitXmit _ _ dp h hp := h.emit (hp.xmit dp _)
  emitMaint _ _ h := h.emit rfl
  emitAckReq _ _ _ h := h.emit rfl
  newEntry _ _ _ _ _ _ _ _ _ _ _ _ _ _ := trivial
  emitSend _ _ _ _ _ _ _ _ h _ := h.emit rfl
  rreqTbl _ _ h := h
  rreqBrk _ _ h := h
  rreqSeqno _ _ h := h
  sendBufTimer _ _ h := h
  waiting _ _ _ _ := trivial
  sendBuf _ _ h _ := h
  emitIcmp _ _ h := h.emit rfl
  emitDiscovery _ _ _ h := h.emit rfl
  emitSendBuf _ _ h := h.emit rfl
  rreqSend _ _ _ _ _ _ _ := ⟨nofun, nofun⟩
  srtAdd _ _ _ _ _ _ _ hsite _ _ _ _ _ := by
    rcases hsite with rfl | rfl <;> exact ⟨nofun, nofun⟩
  rrepSend _ _ _ _ _ _ := ⟨nofun, nofun⟩
  ackSend _ _ _ _ _ _ := ⟨nofun, nofun⟩
  notes dp dp' hc _ hQ :=
    ⟨(congrArg DsrPkt.promiscRecv hc :).trans hQ.promisc, hQ.ttl.note hc⟩
  setDaddr dp a hQ := ⟨(promisc_of_notes (setDaddr_notes dp a)).trans hQ.promisc, hQ.ttl.setDaddr a⟩
  setSleft dp p _ _ hQ := by
    exact ⟨(promisc_of_notes (writeField_notes dp p _ _)).trans hQ.promisc, hQ.ttl.writeField p _ _⟩
  rreqAppend mem me dp p _ _ hQ :=
    ⟨(promisc_of_notes (rreqForward_notes mem me dp p)).trans hQ.promisc, hQ.ttl.rreqForward mem me p⟩

def dispatchLast (dp : DsrPkt) (action : List DsrPktAction) : DsrM Unit :=
  if .forward ∈ action then if dp.iph.ttl < 1 then pure () else xmit .forward dp
  else if .forwardRreq ∈ action then xmit .forwardRreq dp
  else if .drop ∈ action ∨ .error ∈ action then pure ()
  else if .deliver ∈ action then dsrDevDeliver dp else pure ()

theorem dispatch_order (dp : DsrPkt) (action : List DsrPktAction) :
    dispatch dp action dispatchOrder =
      ((if .sendBuffered ∈ action then sendBuffered dp dp.rrepOpt else pure ()) >>= fun _ =>
        dispatchLast dp action) := by
  have hlast : dispatch dp action [.sendAck, .forward, .forwardRreq, .drop, .error, .deliver] =
      dispatchLast dp action := by
    unfold dispatchLast
    simp only [dispatch, ite_self]
    by_cases hd : .drop ∈ action <;> by_cases he : .error ∈ action <;> simp [hd, he]
  rw [dispatchOrder]
  simp only [dispatch, ite_self]
  simp only [dispatch, ite_self] at hlast
  rw [hlast]
  split <;> rfl

inductive Passes (action : List DsrPktAction) (ttl : ℕ) : Prop
  | forward : .forward ∈ action → 1 ≤ ttl → Passes action ttl
  | forwardRreq : .forward ∉ action → .forwardRreq ∈ action → Passes action ttl
  | deliver : .forward ∉ action → .forwardRreq ∉ action → .drop ∉ action → .error ∉ action →
      .deliver ∈ action → Passes action ttl

theorem xmit_event {site : XmitSite} {dp : DsrPkt} {s s' : DsrNode} (h : xmit site dp s = .ok () s') :
    ∃ due b, s'.out = s.out ++ .xmit site dp due :: b := by
  have hwp := @MaintClosed.xmit_begins _ _ _ any_recvClosed.toMaintClosed s site dp trivial trivial
  obtain ⟨-, b, hb⟩ := wp_ok hwp h
  exact ⟨_, b, hb⟩

theorem dispatchLast_passes {dp : DsrPkt} {action : List DsrPktAction} {s s' : DsrNode}
    (h : dispatchLast dp action s = .ok () s') :
    ∃ b, s'.out = s.out ++ b ∧ ((∃ e ∈ b, letsThrough e = true) ↔ Passes action dp.iph.ttl) := by
  have hquiet : ¬ Passes action dp.iph.ttl → s' = s →
      ∃ b, s'.out = s.out ++ b ∧ ((∃ e ∈ b, letsThrough e = true) ↔ Passes action dp.iph.ttl) := by
    rintro hn rfl
    exact ⟨[], (List.append_nil _).symm, fun ⟨e, he, _⟩ => absurd he List.not_mem_nil, fun hp => absurd hp hn⟩
  unfold dispatchLast at h
  split at h
  · next hf =>
    split at h
    · next ht =>
      cases h
      refine hquiet (fun hp => ?_) rfl
      cases hp with
      | forward _ hp => omega
      | forwardRreq hn _ => exact hn hf
      | deliver hn _ _ _ _ => exact hn hf
    · next ht =>
      obtain ⟨due, b, hb⟩ := xmit_event h
      exact ⟨_, hb, fun _ => .forward hf (by omega), fun _ => ⟨_, List.mem_cons_self, rfl⟩⟩
  · next hf =>
    split at h
    · next hr =>
      obtain ⟨due, b, hb⟩ := xmit_event h
      exact ⟨_, hb, fun _ => .forwardRreq hf hr, fun _ => ⟨_, List.mem_cons_self, rfl⟩⟩
    · next hr =>
      split at h
      · next hde =>
        cases h
        refine hquiet (fun hp => ?_) rfl
        cases hp with
        | forward hp _ => exact hf hp
        | forwardRreq _ hp => exact hr hp
        | deliver _ _ hd he _ => exact hde.elim hd he
      · next hde =>
        obtain ⟨hd, he⟩ := not_or.mp hde
        split at h
        · next hdel =>
          cases h
          exact ⟨_, rfl, fun _ => .deliver hf hr hd he hdel, fun _ => ⟨_, List.mem_cons_self, rfl⟩⟩
        · next hdel =>
          cases h
          refine hquiet (fun hp => ?_) rfl
          cases hp with
          | forward hp _ => exact hf hp
          | forwardRreq _ hp => exact hr hp
          | deliver _ _ _ _ hp => exact hdel hp

theorem letThrough_iff {s s₁ s' : DsrNode} {b : List Event} (h : Adds s (fun e => letsThrough e = false) s₁)
    (hb : s'.out = s₁.out ++ b) : LetThrough s s' ↔ ∃ e ∈ b, letsThrough e = true := by
  obtain ⟨b₁, hb₁, hE⟩ := h
  unfold LetThrough newEvents
  rw [hb, hb₁, List.append_assoc, List.drop_left]
  constructor
  · rintro ⟨e, he, ht⟩
    rcases List.mem_append.mp he with he | he
    · rw [hE e he] at ht
      cases ht
    · exact ⟨e, he, ht⟩
  · rintro ⟨e, he, ht⟩
    exact ⟨e, List.mem_append_right _ he, ht⟩

def Asks (a : DsrPktAction) (tr : List Dispatch) : Prop := ∃ d ∈ tr, a ∈ d.act

def recvActions (forMe : Prop) [Decidable forMe] (tr : List Dispatch) : List DsrPktAction :=
  (if forMe then [.deliver] else []) ++ tr.flatMap Dispatch.act

theorem mem_recvActions {forMe : Prop} [Decidable forMe] {tr : List Dispatch} {a : DsrPktAction}
    (ha : a ≠ .deliver) : a ∈ recvActions forMe tr ↔ Asks a tr := by
  unfold recvActions Asks
  rw [List.mem_append, List.mem_flatMap]
  refine or_iff_right fun h => ?_
  split at h
  · exact ha (List.mem_singleton.mp h)
  · cases h

theorem deliver_mem_recvActions {forMe : Prop} [Decidable forMe] {tr : List Dispatch}
    (hacts : ∀ d ∈ tr, d.act ∈ actsOf d.type) : .deliver ∈ recvActions forMe tr ↔ forMe := by
  unfold recvActions
  rw [List.mem_append, List.mem_flatMap]
  constructor
  · rintro (h | ⟨d, hd, hm⟩)
    · split at h
      · assumption
      · cases h
    · exact absurd hm (deliver_not_acts (hacts d hd))
  · intro h
    rw [if_pos h]
    exact Or.inl (List.mem_singleton.mpr rfl)

theorem RecvTrace.optRecv {dp dp' : DsrPkt} {s s₁ : DsrNode} {tr : List Dispatch}
    (h : RecvTrace dp s tr dp' s₁) : dsrOptRecv dp s =
      .ok (dp', recvActions (dp.dst = s.ifaddr ∧ dp.payloadLen ≠ 0) tr) s₁ := by
  unfold dsrOptRecv myAddr
  rw [bind_of_ok (show (do let s ← get; pure s.ifaddr : DsrM InAddr) s = .ok s.ifaddr s from rfl)]
  exact Walked.loop h (Nat.le_add_left _ _)

theorem received_passes {skb : Skb} {s s₁ s' : DsrNode} {tr : List Dispatch} {dp' : DsrPkt}
    (hproto : skb.iph.protocol = ipprotoDsr) (htr : RecvTrace (dsrPktRecv s.kmem false skb) s tr dp' s₁)
    (h : dsrRecv (dsrPktRecv s.kmem false skb) s = .ok () s') :
    LetThrough s s' ↔ Passes (recvActions ((dsrPktRecv s.kmem false skb).dst = s.ifaddr ∧
      (dsrPktRecv s.kmem false skb).payloadLen ≠ 0) tr) skb.iph.ttl := by
  have hpkt : ReceivedPkt skb.iph.ttl (dsrPktRecv s.kmem false skb) := by
    have ha := dsrPktAlloc_dsr s.kmem hproto
    refine ⟨rfl, ?_, skb, ha.skb_eq, rfl⟩
    change (dsrPktAlloc s.kmem skb).iph.ttl = _
    rw [DsrPkt.iph, ha.nh, ha.skb_eq]
  have hrun := htr.optRecv
  have hopt := (opt_optClosed s skb.iph.ttl).dsrOptRecv s hpkt
  obtain ⟨⟨hadds, -⟩, hpkt'⟩ := wp_ok (hopt s ⟨Adds.refl s _, Later.refl s⟩) hrun
  rw [dsrRecv_of_optRecv hrun rfl hpkt'.promisc, dispatch_order] at h
  obtain ⟨_, s₂, hbuf, hlast⟩ := bind_ok h
  have hadds₂ : Adds s (fun e => letsThrough e = false) s₂ := by
    split at hbuf
    · have hk := (opt_optClosed s skb.iph.ttl).sendBuffered s₁ dp' dp'.rrepOpt
      exact (wp_ok (hk s₁ ⟨hadds, Later.refl s₁⟩) hbuf).1
    · cases hbuf
      exact hadds
  obtain ⟨b, hb, hiff⟩ := dispatchLast_passes hlast
  rw [letThrough_iff hadds₂ hb, hiff, hpkt'.ttl.iph]

def Rejects (tr : List Dispatch) : Prop := Asks .drop tr ∨ Asks .error tr ∨ Asks .sendIcmp tr

def StaysOut (tr : List Dispatch) (ttl : ℕ) (forMe : Prop) : Prop :=
  (Asks .forward tr ∧ ttl = 0) ∨
    (¬ Asks .forward tr ∧ ¬ Asks .forwardRreq tr ∧ (Asks .drop tr ∨ Asks .error tr ∨ ¬ forMe))

theorem not_passes_iff {forMe : Prop} [Decidable forMe] {tr : List Dispatch} {ttl : ℕ}
    (hacts : ∀ d ∈ tr, d.act ∈ actsOf d.type) :
    ¬ Passes (recvActions forMe tr) ttl ↔ StaysOut tr ttl forMe := by
  have hf : .forward ∈ recvActions forMe tr ↔ Asks .forward tr := mem_recvActions nofun
  have hr : .forwardRreq ∈ recvActions forMe tr ↔ Asks .forwardRreq tr := mem_recvActions nofun
  have hd : .drop ∈ recvActions forMe tr ↔ Asks .drop tr := mem_recvActions nofun
  have he : .error ∈ recvActions forMe tr ↔ Asks .error tr := mem_recvActions nofun
  have hm : .deliver ∈ recvActions forMe tr ↔ forMe := deliver_mem_recvActions hacts
  constructor
  · intro hn
    by_cases hf' : Asks .forward tr
    · refine Or.inl ⟨hf', ?_⟩
      by_contra ht
      exact hn (.forward (hf.mpr hf') (by omega))
    · have hr' : ¬ Asks .forwardRreq tr := fun h => hn (.forwardRreq (mt hf.mp hf') (hr.mpr h))
      refine Or.inr ⟨hf', hr', ?_⟩
      by_contra hc
      obtain ⟨hd', hc⟩ := not_or.mp hc
      obtain ⟨he', hm'⟩ := not_or.mp hc
      exact hn (.deliver (mt hf.mp hf') (mt hr.mp hr') (mt hd.mp hd') (mt he.mp he')
        (hm.mpr (not_not.mp hm')))
  · rintro (⟨hf', ht⟩ | ⟨hf', hr', hc⟩) hp
    · cases hp with
      | forward _ hp => omega
      | forwardRreq hn _ => exact hn (hf.mpr hf')
      | deliver hn _ _ _ _ => exact hn (hf.mpr hf')
    · cases hp with
      | forward hp _ => exact hf' (hf.mp hp)
      | forwardRreq _ hp => exact hr' (hr.mp hp)
      | deliver _ _ hdn hen hp =>
        rcases hc with hd' | he' | hm'
        · exact hdn (hd.mpr hd')
        · exact hen (he.mpr he')
        · exact hm' (hm.mp hp)

theorem RecvTrace.nil_of_plain {mem : ℕ → UInt8} {promisc : Bool} {skb : Skb} {s s₁ : DsrNode}
    {tr : List Dispatch} {dp' : DsrPkt} (hproto : skb.iph.protocol ≠ ipprotoDsr)
    (htr : RecvTrace (dsrPktRecv mem promisc skb) s tr dp' s₁) : tr = [] := by
  have hdh : (dsrPktRecv mem promisc skb).dh = none := dsrPktAlloc_dh_none hproto
  have hlen : (dsrPktRecv mem promisc skb).optsLen = 0 := by rw [DsrPkt.optsLen, hdh]
  unfold RecvTrace at htr
  rw [hlen] at htr
  cases htr with
  | done _ => rfl
  | pad1 hg _ _ => exact absurd hg.1 (Nat.not_lt_zero _)
  | opt hg _ _ _ => exact absurd hg.1 (Nat.not_lt_zero _)

theorem rejected_stops_iff {skb : Skb} {s s₁ s' : DsrNode} {tr : List Dispatch} {dp' : DsrPkt}
    (htr : RecvTrace (dsrPktRecv s.kmem false skb) s tr dp' s₁)
    (h : dsrRecv (dsrPktRecv s.kmem false skb) s = .ok () s') (hrej : Rejects tr) :
    ¬ LetThrough s s' ↔ StaysOut tr skb.iph.ttl
      ((dsrPktRecv s.kmem false skb).dst = s.ifaddr ∧ (dsrPktRecv s.kmem false skb).payloadLen ≠ 0) := by
  by_cases hproto : skb.iph.protocol = ipprotoDsr
  · rw [received_passes hproto htr h]
    exact not_passes_iff htr.acts
  · obtain rfl := htr.nil_of_plain hproto
    rcases hrej with ⟨d, hd, -⟩ | ⟨d, hd, -⟩ | ⟨d, hd, -⟩ <;> cases hd

theorem ack_not_pad1 : optTypeOf 32 ≠ .pad1 := by decide

theorem srt_not_pad1 : optTypeOf 96 ≠ .pad1 := by decide

theorem strangerAck_short : [0, 1, 10, 0, 0, 2, 10, 0, 0, (9 : UInt8)].length ≤ 255 := by decide

theorem relaySrt_short : [0, 4, 10, 0, 0, (1 : UInt8)].length ≤ 255 := by decide

def strangerAckOpt : DsrOpt :=
  .tlv { type := 32, body := [0, 1, 10, 0, 0, 2, 10, 0, 0, 9], notPad1 := ack_not_pad1, short := strangerAck_short }

def relaySrtOpt : DsrOpt :=
  .tlv { type := 96, body := [0, 4, 10, 0, 0, 1], notPad1 := srt_not_pad1, short := relaySrt_short }

def relaySkb (os : List DsrOpt) : Skb :=
  { optSkb os with iph := { (optSkb os).iph with daddr := ⟨10, 0, 0, 3⟩ } }

def relayPkt (os : List DsrOpt) : DsrPkt := dsrPktRecv optNode.kmem false (relaySkb os)

theorem relay_trace (os : List DsrOpt) (acts : List DsrPktAction)
    (hopt : (okVal (dsrOptRecv (relayPkt os) optNode)).map Prod.snd = some acts)
    (hrun : (okVal (dsrRecv (relayPkt os) optNode)).isSome = true) :
    ∃ tr dp' s₁ s', RecvTrace (relayPkt os) optNode tr dp' s₁ ∧ dsrRecv (relayPkt os) optNode = .ok () s' ∧
      (∀ a, a ≠ .deliver → (Asks a tr ↔ a ∈ acts)) ∧ (LetThrough optNode s' ↔ Passes acts 64) := by
  obtain ⟨r, hr, rfl⟩ := Option.map_eq_some_iff.mp hopt
  obtain ⟨s₁, hr⟩ := okVal_eq_some hr
  obtain ⟨_, hu⟩ := Option.isSome_iff_exists.mp hrun
  obtain ⟨s', hs'⟩ := okVal_eq_some hu
  obtain ⟨tr, htr, hacts⟩ := dsrOptRecv_trace hr
  refine ⟨tr, r.1, s₁, s', htr, hs', fun a ha => ?_, ?_⟩
  · rw [hacts]
    exact (mem_recvActions ha).symm
  · rw [hacts]
    exact received_passes rfl htr hs'

theorem rejected_stops_ack : ∃ tr dp' s₁ s', RecvTrace (relayPkt [strangerAckOpt]) optNode tr dp' s₁ ∧
    dsrRecv (relayPkt [strangerAckOpt]) optNode = .ok () s' ∧ Rejects tr ∧ ¬ LetThrough optNode s' := by
  obtain ⟨tr, dp', s₁, s', htr, hrun, hask, -⟩ := relay_trace [strangerAckOpt] [.error]
    (by decide +kernel) (by decide +kernel)
  have herr : Asks .error tr := (hask .error (by decide)).mpr (by decide)
  have hfwd : ¬ Asks .forward tr := mt (hask .forward (by decide)).mp (by decide)
  have hrreq : ¬ Asks .forwardRreq tr := mt (hask .forwardRreq (by decide)).mp (by decide)
  have hrej : Rejects tr := Or.inr (Or.inl herr)
  refine ⟨tr, dp', s₁, s', htr, hrun, hrej, ?_⟩
  exact (rejected_stops_iff htr hrun hrej).mpr (Or.inr ⟨hfwd, hrreq, Or.inr (Or.inl herr)⟩)

theorem rejected_forwarded : ∃ tr dp' s₁ s',
    RecvTrace (relayPkt [strangerAckOpt, relaySrtOpt]) optNode tr dp' s₁ ∧
    dsrRecv (relayPkt [strangerAckOpt, relaySrtOpt]) optNode = .ok () s' ∧ Rejects tr ∧
    LetThrough optNode s' := by
  obtain ⟨tr, dp', s₁, s', htr, hrun, hask, hpass⟩ := relay_trace [strangerAckOpt, relaySrtOpt]
    [.error, .forward] (by decide +kernel) (by decide +kernel)
  have herr : Asks .error tr := (hask .error (by decide)).mpr (by decide)
  exact ⟨tr, dp', s₁, s', htr, hrun, Or.inr (Or.inl herr), hpass.mpr (.forward (by decide) (by decide))⟩

end DsrUu
