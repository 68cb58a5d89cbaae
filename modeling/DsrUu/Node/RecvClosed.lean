import DsrUu.Node.Closed

namespace DsrUu

open Effect

def DsrPkt.core (dp : DsrPkt) : DsrPkt :=
  { dp with nxtHop := default, prvHop := default, salvage := 0, numRreqOpts := 0, srtOpt := none
            rreqOpt := none, rrepOpt := [], rerrOpt := [], ackOpt := [], ackReqOpt := none
            srt := none }

structure ReplyClosed (I : DsrNode → Prop) (G : DsrNode → MaintEntry → Prop)
    (P : DsrNode → XmitSite → DsrPkt → Prop) (H Q : DsrPkt → Prop) : Prop
    extends NodeClosed I G P H where
  rrepSend : ∀ s srt srtToMe dp, I s → rrepPkt s.kmem s.ifaddr srt srtToMe = some dp →
    P s .rrepSend dp
  notes : ∀ dp dp' : DsrPkt, dp'.core = dp.core →
    (∀ p, dp'.ackReqOpt = some p → dp.ackReqOpt = some p ∨ dsrOptHdrLen ≤ p.off) → Q dp → Q dp'
  setDaddr : ∀ dp a, Q dp → Q (dp.setDaddr a)
  setSleft : ∀ dp (p : OptPtr) sleft, dsrOptHdrLen ≤ p.off → Q dp → Q (srtOptSetSleft dp p sleft)
  rreqAppend : ∀ mem me dp (p : OptPtr), dsrOptHdrLen ≤ p.off → 6 ≤ dp.optLength p → Q dp →
    Q (rreqForward mem me dp p)

structure OptClosed (I : DsrNode → Prop) (G : DsrNode → MaintEntry → Prop)
    (P : DsrNode → XmitSite → DsrPkt → Prop) (H Q : DsrPkt → Prop) : Prop
    extends ReplyClosed I G P H Q where
  ackSend : ∀ s dst id dp, I s → ackPkt s.kmem s.ifaddr dst id = some dp → P s .ackSend dp

structure RecvClosed (I : DsrNode → Prop) (G : DsrNode → MaintEntry → Prop)
    (P : DsrNode → XmitSite → DsrPkt → Prop) (H Q : DsrPkt → Prop) : Prop
    extends OptClosed I G P H Q where
  emitDeliver : ∀ s dp, I s → I { s with out := s.out ++ [.deliver dp] }
  forward : ∀ s dp, I s → Q dp → P s .forward dp
  forwardRreq : ∀ s dp, I s → Q dp → P s .forwardRreq dp

theorem dsrPktAlloc_dh_none {mem : ℕ → UInt8} {skb : Skb} (h : skb.iph.protocol ≠ ipprotoDsr) :
    (dsrPktAlloc mem skb).dh = none := by
  unfold dsrPktAlloc
  simp [h]

def Admits (H Q : DsrPkt → Prop) (s : DsrNode) : Input → Prop
  | .startXmit skb => H (dsrPktAlloc s.kmem skb)
  | .recv promisc skb => skb.iph.protocol = ipprotoDsr →
      skb.iph.totLen ≤ skb.data.length + 4 * skb.iph.ihl →
      Q { dsrPktAlloc s.kmem skb with promiscRecv := promisc }
  | _ => True

namespace ReplyClosed

variable {I : DsrNode → Prop} {G : DsrNode → MaintEntry → Prop}
  {P : DsrNode → XmitSite → DsrPkt → Prop} {H Q : DsrPkt → Prop} (h : ReplyClosed I G P H Q)

include h

theorem dsrRrepSend (s₀ : DsrNode) (srt srtToMe : DsrSrt) :
    Keeps (Since I s₀) (dsrRrepSend xmit srt srtToMe) := by
  intro s hs
  change wp (xmitPkt xmit .rrepSend (rrepPkt s.kmem s.ifaddr srt srtToMe)) s _ _
  cases hp : rrepPkt s.kmem s.ifaddr srt srtToMe with
  | none => exact hs
  | some dp => exact h.xmit_transmits.since hs (h.rrepSend s srt srtToMe dp hs.1 hp)

theorem dsrRrepOptRecv (s₀ : DsrNode) {dp : DsrPkt} (p : OptPtr) (hdp : Q dp) :
    Yields (Since I s₀) (fun r => Q r.1) (dsrRrepOptRecv dp p) := by
  refine Yields.ite (fun _ => Yields.pure hdp) fun _ => ?_
  have hdp' : Q { dp with rrepOpt := dp.rrepOpt ++ [p] } := h.notes dp _ rfl (fun _ => Or.inl) hdp
  dsimp only
  refine Yields.ite (fun _ => Yields.pure hdp') fun _ => ?_
  refine Yields.bind kmalloc_keeps fun mem => Yields.bind myAddr_keeps fun me => ?_
  refine Yields.bind ((h.quiet s₀).dsrRtcAdd _) fun _ => ?_
  refine Yields.bind (h.rreqs.rreqTblRouteDiscoveryCancel s₀ _) fun _ => ?_
  exact Yields.ite (fun _ => Yields.pure hdp') fun _ => Yields.pure hdp'

theorem dsrRerrOptRecv (s₀ : DsrNode) {dp : DsrPkt} (p : OptPtr) (hdp : Q dp) :
    Yields (Since I s₀) (fun r => Q r.1) (dsrRerrOptRecv dp p) := by
  have hdp' : Q { dp with rerrOpt := dp.rerrOpt ++ [p] } := h.notes dp _ rfl (fun _ => Or.inl) hdp
  refine Yields.ite (fun _ => ?_) fun _ => Yields.pure hdp'
  refine Yields.bind (h.maintBufDelAll_runs _ s₀) fun _ => ?_
  exact Yields.bind ((h.quiet s₀).rtcLinkDel _ _) fun _ => Yields.pure hdp'

theorem dsrAckOptRecv (s₀ : DsrNode) (dp : DsrPkt) (p : OptPtr) :
    Keeps (Since I s₀) (dsrAckOptRecv dp p) := by
  refine Keeps.bind myAddr_keeps fun me => Keeps.ite (fun _ => Keeps.pure _) fun _ => ?_
  exact Keeps.bind (h.maintBufDelAllId_runs _ _ s₀) fun _ => Keeps.pure _

theorem srtOptCache (s₀ : DsrNode) (me : InAddr) (mem : ℕ → UInt8) (dp : DsrPkt) (srt : DsrSrt) :
    Keeps (Since I s₀) (srtOptCache me mem dp srt) := by
  have hq := h.quiet s₀
  have hrest : Keeps (Since I s₀) (srtOptCacheSplit me mem dp srt) := by
    refine Keeps.ite (fun _ => hq.dsrRtcAdd _) fun _ => ?_
    split
    · exact Keeps.pure ()
    · exact hq.dsrRtcAdd _
  refine Keeps.ite (fun _ => Keeps.bind (Keeps.pure ()) fun _ => hrest) fun _ => ?_
  exact Keeps.bind (hq.rtcLinkAdd _ _) fun _ => hrest

theorem automaticRouteShortening (s₀ : DsrNode) (me next : InAddr) (sleft : ℕ) (dp : DsrPkt)
    (srt : DsrSrt) : Keeps (Since I s₀) (automaticRouteShortening me next sleft dp srt) := by
  have hq := h.quiet s₀
  refine Keeps.bind (confVal_keeps _) fun enabled => Keeps.ite (fun _ => ?_) fun _ => Keeps.pure _
  refine Keeps.bind (hq.gratRrepTblFind _ _) fun found => Keeps.ite (fun _ => Keeps.pure _) fun _ => ?_
  refine Keeps.bind kmalloc_keeps fun mem => ?_
  dsimp only
  split
  · exact Keeps.pure _
  · refine Keeps.bind (hq.gratRrepTblAdd _ _) fun _ => ?_
    exact Keeps.bind (h.dsrRrepSend s₀ _ _) fun _ => Keeps.pure _

theorem dsrSrtOptRecv (s₀ : DsrNode) {dp : DsrPkt} {p : OptPtr} (hp : dsrOptHdrLen ≤ p.off)
    (hdp : Q dp) : Yields (Since I s₀) (fun r => Q r.1) (dsrSrtOptRecv dp p) := by
  refine Yields.bind myAddr_keeps fun me => Yields.bind kmalloc_keeps fun mem => ?_
  dsimp only
  have hQ : Q (srtOptNote dp p (srtOptSrt mem dp p) (srtOptSleft dp p)) := h.notes dp _ rfl (fun _ => Or.inl) hdp
  refine Yields.bind ((h.quiet s₀).neighTblAdd _ _) fun _ => ?_
  refine Yields.bind (h.srtOptCache s₀ _ _ _ _) fun _ => ?_
  refine Yields.bind (h.automaticRouteShortening s₀ _ _ _ _ _) fun ok => ?_
  refine Yields.ite (fun _ => Yields.pure hQ) fun _ => ?_
  refine Yields.ite (fun _ => Yields.pure hQ) fun _ => ?_
  exact Yields.ite (fun _ => Yields.pure hQ) fun _ => Yields.pure (h.setSleft _ _ _ hp hQ)

theorem dsrRreqOptRecv (s₀ : DsrNode) {dp : DsrPkt} {p : OptPtr} (hp : dsrOptHdrLen ≤ p.off)
    (hdp : Q dp) : Yields (Since I s₀) (fun r => Q r.1) (dsrRreqOptRecv dp p) := by
  refine Yields.ite (fun _ => Yields.pure hdp) fun _ => ?_
  dsimp only
  refine Yields.ite (fun _ => Yields.pure (h.notes dp _ rfl (fun _ => Or.inl) hdp)) fun _ => ?_
  refine Yields.bind myAddr_keeps fun me => Yields.bind kmalloc_keeps fun mem => ?_
  refine Yields.bind (h.rreqs.dsrRreqDuplicate s₀ _ _ _) fun dup => ?_
  refine Yields.ite (fun _ => Yields.pure (h.notes dp _ rfl (fun _ => Or.inl) hdp)) fun _ => ?_
  refine Yields.bind (h.rreqs.rreqTblAddId s₀ _ _ _) fun _ => ?_
  refine Yields.ite (fun _ => Yields.pure (h.notes dp _ rfl (fun _ => Or.inl) hdp)) fun hlen => ?_
  refine Yields.bind ((h.quiet s₀).dsrRtcAdd _) fun _ => ?_
  refine Yields.bind ((h.quiet s₀).neighTblAdd _ _) fun _ => ?_
  refine Yields.bind (h.sendBufSetVerdict s₀ _ _) fun _ => ?_
  refine Yields.ite (fun _ => ?_) fun _ => ?_
  · refine Yields.bind (h.dsrRrepSend s₀ _ _) fun _ => Yields.pure ?_
    exact h.setDaddr _ _ (h.notes dp _ rfl (fun _ => Or.inl) hdp)
  refine Yields.ite (fun _ => Yields.pure (h.notes dp _ rfl (fun _ => Or.inl) hdp)) fun _ => ?_
  refine Yields.ite (fun _ => Yields.pure (h.notes dp _ rfl (fun _ => Or.inl) hdp)) fun _ => ?_
  refine Yields.bind ((h.quiet s₀).dsrRtcFind _ _) fun rc => ?_
  have hfwd : ∀ dp' : DsrPkt, dp'.core = dp.core → dp'.ackReqOpt = dp.ackReqOpt →
      dp'.optLength p = dp.optLength p → Q (rreqForward mem me dp' p) := by
    intro dp' hcore hack hl
    refine h.rreqAppend mem me dp' p hp (by rw [hl]; exact Nat.le_of_not_lt hlen) ?_
    exact h.notes dp dp' hcore (fun q hq => Or.inl (hack ▸ hq)) hdp
  cases rc with
  | none => exact Yields.pure (hfwd _ rfl rfl rfl)
  | some rc =>
    refine Yields.ite (fun _ => Yields.pure (hfwd _ rfl rfl rfl)) fun _ => ?_
    refine Yields.bind (h.dsrRrepSend s₀ _ _) fun _ => Yields.pure ?_
    exact h.setDaddr _ _ (h.notes dp _ rfl (fun _ => Or.inl) hdp)

theorem dsrOptRecvOne_other (s₀ : DsrNode) {dp : DsrPkt} {p : OptPtr} (hp : dsrOptHdrLen ≤ p.off)
    (ht : optTypeOf (dp.fieldAt p 0) ≠ .ackReq) (hdp : Q dp) :
    Yields (Since I s₀) (fun r => Q r.1) (dsrOptRecvOne dp p) := by
  unfold dsrOptRecvOne
  split
  · exact Yields.ite (fun _ => Yields.pure hdp) fun _ => h.dsrRreqOptRecv s₀ hp hdp
  · exact Yields.ite (fun _ => Yields.pure hdp) fun _ => h.dsrRrepOptRecv s₀ p hdp
  · exact Yields.ite (fun _ => Yields.pure hdp) fun _ => h.dsrRerrOptRecv s₀ p hdp
  · refine Yields.ite (fun _ => Yields.pure hdp) fun _ => ?_
    exact Yields.bind (h.dsrAckOptRecv s₀ _ p) fun _ => Yields.pure (h.notes dp _ rfl (fun _ => Or.inl) hdp)
  · exact h.dsrSrtOptRecv s₀ hp hdp
  · next hack => exact absurd hack ht
  · exact Yields.pure hdp

end ReplyClosed

namespace OptClosed

variable {I : DsrNode → Prop} {G : DsrNode → MaintEntry → Prop}
  {P : DsrNode → XmitSite → DsrPkt → Prop} {H Q : DsrPkt → Prop} (h : OptClosed I G P H Q)

include h

theorem dsrAckSend (s₀ : DsrNode) (dst : InAddr) (id : ℕ) :
    Keeps (Since I s₀) (dsrAckSend xmit dst id) := by
  intro s hs
  change wp (xmitPkt xmit .ackSend (ackPkt s.kmem s.ifaddr dst id)) s _ _
  cases hp : ackPkt s.kmem s.ifaddr dst id with
  | none => exact hs
  | some dp => exact h.xmit_transmits.since hs (h.ackSend s dst id dp hs.1 hp)

theorem dsrAckReqOptRecv (s₀ : DsrNode) {dp : DsrPkt} {p : OptPtr} (hp : dsrOptHdrLen ≤ p.off)
    (hdp : Q dp) : Yields (Since I s₀) (fun r => Q r.1) (dsrAckReqOptRecv dp p) := by
  refine Yields.ite (fun _ => Yields.pure hdp) fun _ => ?_
  dsimp only
  have hptr : ∀ q, some p = some q → dp.ackReqOpt = some q ∨ dsrOptHdrLen ≤ q.off := by
    rintro q ⟨⟩
    exact Or.inr hp
  refine Yields.bind (h.dsrAckSend s₀ _ _) fun _ => Yields.pure ?_
  split
  · exact h.notes dp _ rfl hptr hdp
  · exact h.notes dp _ rfl hptr hdp

theorem dsrOptRecvOne (s₀ : DsrNode) {dp : DsrPkt} {p : OptPtr} (hp : dsrOptHdrLen ≤ p.off)
    (hdp : Q dp) : Yields (Since I s₀) (fun r => Q r.1) (dsrOptRecvOne dp p) := by
  by_cases ht : optTypeOf (dp.fieldAt p 0) = .ackReq
  · unfold DsrUu.dsrOptRecvOne
    rw [ht]
    exact h.dsrAckReqOptRecv s₀ hp hdp
  · exact h.dsrOptRecvOne_other s₀ hp ht hdp

theorem dsrOptRecvLoop (s₀ : DsrNode) (fuel : ℕ) : ∀ (dsrLen l : ℕ) (p : OptPtr) (dp : DsrPkt)
    (action : List DsrPktAction), dsrOptHdrLen ≤ p.off → Q dp →
    Yields (Since I s₀) (fun r => Q r.1) (dsrOptRecvLoop fuel dsrLen l p dp action) := by
  induction fuel with
  | zero => exact fun _ _ _ _ _ _ hdp => Yields.pure hdp
  | succ fuel ih =>
    intro dsrLen l p dp action hp hdp
    refine Yields.ite (fun _ => ?_) fun _ => Yields.pure hdp
    refine Yields.ite (fun _ => ?_) fun _ => ?_
    · exact ih _ _ _ _ _ (Nat.le_trans hp (Nat.le_add_right _ _)) hdp
    · refine Yields.bind_yields (h.dsrOptRecvOne s₀ hp hdp) fun r hr => ?_
      exact ih _ _ _ _ _ (Nat.le_trans hp (Nat.le_add_right _ _)) hr

theorem dsrOptRecv (s₀ : DsrNode) {dp : DsrPkt} (hdp : Q dp) :
    Yields (Since I s₀) (fun r => Q r.1) (dsrOptRecv dp) :=
  Yields.bind myAddr_keeps fun _ =>
    h.dsrOptRecvLoop s₀ _ _ _ _ dp _ (Nat.le_refl dsrOptHdrLen) hdp

theorem sendBuffered (s₀ : DsrNode) (dp : DsrPkt) (ps : List OptPtr) :
    Keeps (Since I s₀) (sendBuffered dp ps) := by
  induction ps with
  | nil => exact Keeps.pure ()
  | cons p ps ih => exact Keeps.bind (h.sendBufSetVerdict s₀ _ _) fun _ => ih

end OptClosed

namespace RecvClosed

variable {I : DsrNode → Prop} {G : DsrNode → MaintEntry → Prop}
  {P : DsrNode → XmitSite → DsrPkt → Prop} {H Q : DsrPkt → Prop} (h : RecvClosed I G P H Q)

include h

theorem dispatch (s₀ : DsrNode) {dp : DsrPkt} (hdp : Q dp) (action : List DsrPktAction)
    (as : List DsrPktAction) : Keeps (Since I s₀) (dispatch dp action as) := by
  induction as with
  | nil => exact Keeps.pure ()
  | cons a rest ih =>
    refine Keeps.ite (fun _ => ?_) fun _ => ih
    cases a with
    | drop => exact Keeps.pure ()
    | error => exact Keeps.pure ()
    | forward =>
      refine Keeps.ite (fun _ => Keeps.pure ()) fun _ s hs => ?_
      exact h.xmit_transmits.since hs (h.forward s dp hs.1 hdp)
    | forwardRreq => exact fun s hs => h.xmit_transmits.since hs (h.forwardRreq s dp hs.1 hdp)
    | sendBuffered => exact Keeps.bind (h.sendBuffered s₀ dp _) fun _ => ih
    | deliver => exact fun s hs => MaintClosed.emit_since hs (h.emitDeliver s _ hs.1)
    | none => exact ih
    | srtRemove => exact ih
    | sendIcmp => exact ih
    | sendRrep => exact ih
    | sendAck => exact ih

theorem dsrRecv (s₀ : DsrNode) {dp : DsrPkt} (hdp : Q dp) : Keeps (Since I s₀) (dsrRecv dp) := by
  refine Keeps.bind myAddr_keeps fun me => Keeps.ite (fun _ => Keeps.pure ()) fun _ => ?_
  refine Yields.keeps_bind (h.dsrOptRecv s₀ hdp) fun r hr => ?_
  exact Keeps.ite (fun _ => Keeps.pure ()) fun _ => h.dispatch s₀ hr _ _

theorem dispatch_deliver (s₀ : DsrNode) (dp : DsrPkt) {action : List DsrPktAction}
    (ha : ∀ a ∈ action, a = .deliver) (as : List DsrPktAction) :
    Keeps (Since I s₀) (DsrUu.dispatch dp action as) := by
  induction as with
  | nil => exact Keeps.pure ()
  | cons a rest ih =>
    refine Keeps.ite (fun hm => ?_) fun _ => ih
    obtain rfl := ha a hm
    exact fun s hs => MaintClosed.emit_since hs (h.emitDeliver s _ hs.1)

theorem dsrRecv_noOpts (s₀ : DsrNode) {dp : DsrPkt} (hdp : dp.dh = none) :
    Keeps (Since I s₀) (DsrUu.dsrRecv dp) := by
  have hlen : dp.optsLen = 0 := by rw [DsrPkt.optsLen, hdp]
  refine Keeps.bind myAddr_keeps fun me => Keeps.ite (fun _ => Keeps.pure ()) fun _ => ?_
  have hopt : Yields (Since I s₀) (fun r => ∀ a ∈ r.2, a = DsrPktAction.deliver)
      (DsrUu.dsrOptRecv dp) := by
    refine Yields.bind myAddr_keeps fun me => ?_
    rw [hlen]
    refine Yields.pure fun a ha => ?_
    split at ha
    · exact List.mem_singleton.mp ha
    · cases ha
  refine Yields.keeps_bind hopt fun r hr => ?_
  exact Keeps.ite (fun _ => Keeps.pure ()) fun _ => h.dispatch_deliver s₀ _ hr _

theorem dsrIpRecv {s : DsrNode} (hs : I s) {skb : Skb} (promisc : Bool)
    (hskb : skb.iph.protocol = ipprotoDsr → skb.iph.totLen ≤ skb.data.length + 4 * skb.iph.ihl →
      Q { dsrPktAlloc s.kmem skb with promiscRecv := promisc }) :
    wp (dsrIpRecv promisc skb) s (fun _ s' => Since I s s') fun _ => True := by
  simp only [DsrUu.dsrIpRecv, kmalloc, wp_bind, wp_get, wp_pure]
  rw [wp_ite]
  refine ⟨fun _ => ⟨hs, Later.refl s⟩, fun hlen => ?_⟩
  by_cases hproto : skb.iph.protocol = ipprotoDsr
  · exact h.dsrRecv s (hskb hproto (Nat.le_of_not_lt hlen)) s ⟨hs, Later.refl s⟩
  · have hdh : (dsrPktAlloc s.kmem skb).dh = none := dsrPktAlloc_dh_none hproto
    exact h.dsrRecv_noOpts s (show
      ({ dsrPktAlloc s.kmem skb with promiscRecv := promisc } : DsrPkt).dh = none from hdh) s
      ⟨hs, Later.refl s⟩

theorem handle {s : DsrNode} (hs : I s) (i : Input) (hi : Admits H Q s i) :
    wp i.handle s (fun _ s' => Since I s s') fun _ => True := by
  have hself : Since I s s := ⟨hs, Later.refl s⟩
  cases i with
  | startXmit skb => exact h.dsrDevStartXmit hs hi
  | recv promisc skb => exact h.dsrIpRecv hs promisc hi
  | ackTimer => exact h.maintBufTimeout_runs.since hs
  | sendBufTimer => exact h.sendBufTimeout s s hself
  | rreqTimer ref => exact h.rreqs.rreqTblTimeout s ref s hself
  | gratTimer => exact (h.quiet s).gratRrepTblTimeout s hself
  | flushLinkCache => exact (h.quiet s).lcFlushLocked s hself
  | setVerdict verdict dst => exact h.sendBufSetVerdict s verdict dst s hself

end RecvClosed

theorem any_recvClosed : RecvClosed (fun _ => True) (fun _ _ => True) (fun _ _ _ => True)
    (fun _ => True) fun _ => True := by
  constructor
  case toOptClosed =>
    constructor
    case toReplyClosed =>
      constructor
      case toNodeClosed =>
        constructor
        case toMaintClosed =>
          constructor
          case toQuiet => constructor <;> intros <;> trivial
          all_goals intros; trivial
        all_goals intros; trivial
      all_goals intros; trivial
    all_goals intros; trivial
  all_goals intros; trivial

theorem dsrOptRecvOne_later {dp : DsrPkt} {p : OptPtr} {s s' : DsrNode}
    {r : DsrPkt × List DsrPktAction} (hp : dsrOptHdrLen ≤ p.off)
    (h : dsrOptRecvOne dp p s = .ok r s') : Later s s' :=
  (Keeps.run (any_recvClosed.dsrOptRecvOne s hp trivial).keeps ⟨trivial, Later.refl s⟩ h).2

end DsrUu
