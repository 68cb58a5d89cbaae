import DsrUu.Maint.Salvage
import DsrUu.Node.Quiet

namespace DsrUu

open Effect

structure Later (s s' : DsrNode) : Prop where
  out : s.out <+: s'.out
  ifaddr : s'.ifaddr = s.ifaddr
  confvals : s'.confvals = s.confvals
  slaveDev : s'.slaveDev = s.slaveDev
  locking : s'.locking = s.locking
  budget : s'.budget = s.budget
  now : s'.now = s.now
  kmem : s'.kmem = s.kmem

namespace Later

theorem refl (s : DsrNode) : Later s s :=
  ⟨List.prefix_rfl, rfl, rfl, rfl, rfl, rfl, rfl, rfl⟩

theorem trans {a b c : DsrNode} (h₁ : Later a b) (h₂ : Later b c) : Later a c :=
  ⟨h₁.out.trans h₂.out, h₂.ifaddr.trans h₁.ifaddr, h₂.confvals.trans h₁.confvals,
    h₂.slaveDev.trans h₁.slaveDev, h₂.locking.trans h₁.locking, h₂.budget.trans h₁.budget,
    h₂.now.trans h₁.now, h₂.kmem.trans h₁.kmem⟩

theorem emit (s : DsrNode) (e : Event) : Later s { s with out := s.out ++ [e] } :=
  ⟨List.prefix_append _ _, rfl, rfl, rfl, rfl, rfl, rfl, rfl⟩

theorem maintBuf (s : DsrNode) (t : Tbl MaintEntry) : Later s { s with maintBuf := t } :=
  ⟨List.prefix_rfl, rfl, rfl, rfl, rfl, rfl, rfl, rfl⟩

theorem quiet (s₀ : DsrNode) : Quiet (Later s₀) where
  held _ _ h := ⟨h.out, h.ifaddr, h.confvals, h.slaveDev, h.locking, h.budget, h.now, h.kmem⟩
  lc _ _ _ _ _ h := ⟨h.out, h.ifaddr, h.confvals, h.slaveDev, h.locking, h.budget, h.now, h.kmem⟩
  neighTbl _ _ h := ⟨h.out, h.ifaddr, h.confvals, h.slaveDev, h.locking, h.budget, h.now, h.kmem⟩
  gratRrepTbl _ _ h := ⟨h.out, h.ifaddr, h.confvals, h.slaveDev, h.locking, h.budget, h.now, h.kmem⟩
  gratTimer _ _ h := ⟨h.out, h.ifaddr, h.confvals, h.slaveDev, h.locking, h.budget, h.now, h.kmem⟩
  ackTimer _ _ h := ⟨h.out, h.ifaddr, h.confvals, h.slaveDev, h.locking, h.budget, h.now, h.kmem⟩

end Later

theorem Quiet.and {I J : DsrNode → Prop} (hI : Quiet I) (hJ : Quiet J) :
    Quiet fun s => I s ∧ J s where
  held s h hs := ⟨hI.held s h hs.1, hJ.held s h hs.2⟩
  lc s op lc hu he hs := ⟨hI.lc s op lc hu he hs.1, hJ.lc s op lc hu he hs.2⟩
  neighTbl s t hs := ⟨hI.neighTbl s t hs.1, hJ.neighTbl s t hs.2⟩
  gratRrepTbl s t hs := ⟨hI.gratRrepTbl s t hs.1, hJ.gratRrepTbl s t hs.2⟩
  gratTimer s t hs := ⟨hI.gratTimer s t hs.1, hJ.gratTimer s t hs.2⟩
  ackTimer s t hs := ⟨hI.ackTimer s t hs.1, hJ.ackTimer s t hs.2⟩

def Since (I : DsrNode → Prop) (s₀ : DsrNode) : DsrNode → Prop := fun s => I s ∧ Later s₀ s

def Runs {α : Type} (I : DsrNode → Prop) (m : DsrM α) : Prop := ∀ s₀, Keeps (Since I s₀) m

theorem Quiet.since {I : DsrNode → Prop} (h : Quiet I) (s₀ : DsrNode) : Quiet (Since I s₀) :=
  h.and (Later.quiet s₀)

theorem Runs.since {α : Type} {I : DsrNode → Prop} {m : DsrM α} (h : Runs I m) {s : DsrNode}
    (hs : I s) : wp m s (fun _ s' => Since I s s') fun _ => True :=
  h s s ⟨hs, Later.refl s⟩

theorem Runs.of_since {α : Type} {I : DsrNode → Prop} {m : DsrM α}
    (h : ∀ s, I s → wp m s (fun _ s' => Since I s s') fun _ => True) : Runs I m :=
  fun _ s hs => wp_imp (h s hs.1) fun _ _ h' => ⟨h'.1, hs.2.trans h'.2⟩

def Transmits (x : XmitSite → DsrPkt → DsrM Unit) (I : DsrNode → Prop)
    (P : DsrNode → XmitSite → DsrPkt → Prop) : Prop :=
  ∀ s site dp, I s → P s site dp → wp (x site dp) s (fun _ s' => Since I s s') fun _ => True

theorem Transmits.since {x : XmitSite → DsrPkt → DsrM Unit} {I : DsrNode → Prop}
    {P : DsrNode → XmitSite → DsrPkt → Prop} (h : Transmits x I P) {s₀ s : DsrNode}
    {site : XmitSite} {dp : DsrPkt} (hs : Since I s₀ s) (hp : P s site dp) :
    wp (x site dp) s (fun _ s' => Since I s₀ s') fun _ => True :=
  wp_imp (h s site dp hs.1 hp) fun _ _ h' => ⟨h'.1, hs.2.trans h'.2⟩

structure Sent (s₀ s : DsrNode) (site : XmitSite) (dp dp' : DsrPkt) : Prop where
  block : ∃ b, s.out = s₀.out ++ .xmit site dp (ackDue s₀ dp) :: b ∧
    ((dp' = dp ∧ (dp.requestAck = true → ackDue s₀ dp = false)) ∨
      (dp.requestAck = true ∧ ackDue s₀ dp = true ∧
        ∃ id, .ackReq dp.nxtHop id ∈ b ∧ dp' = dsrAckReqOptAdd s.kmem dp id))

theorem Sent.same {s₀ s : DsrNode} {site : XmitSite} {dp : DsrPkt}
    (h : Later { s₀ with out := s₀.out ++ [.xmit site dp (ackDue s₀ dp)] } s)
    (hd : dp.requestAck = true → ackDue s₀ dp = false) : Sent s₀ s site dp dp := by
  obtain ⟨b, hb⟩ := h.out
  refine ⟨b, ?_, Or.inl ⟨rfl, hd⟩⟩
  rw [← hb, List.append_assoc, List.singleton_append]

theorem Sent.ack {s₀ s₁ s₂ : DsrNode} {site : XmitSite} {dp : DsrPkt} {id : ℕ}
    (h : Later { s₀ with out := s₀.out ++ [.xmit site dp (ackDue s₀ dp)] } s₁)
    (h' : Later { s₁ with out := s₁.out ++ [.ackReq dp.nxtHop id] } s₂)
    (hack : dp.requestAck = true) (hd : ackDue s₀ dp = true) :
    Sent s₀ s₂ site dp (dsrAckReqOptAdd s₀.kmem dp id) := by
  obtain ⟨b, hb⟩ := h.out
  obtain ⟨c, hc⟩ := h'.out
  refine ⟨b ++ .ackReq dp.nxtHop id :: c, ?_, Or.inr ⟨hack, hd, id, by simp, ?_⟩⟩
  · rw [← hc, ← hb]
    simp
  · rw [h'.kmem, h.kmem]

inductive AckReqAdded (dp : DsrPkt) : DsrPkt → Prop
  | same : AckReqAdded dp dp
  | add (mem : ℕ → UInt8) (id : ℕ) : AckReqAdded dp (dsrAckReqOptAdd mem dp id)

theorem Sent.added {s₀ s : DsrNode} {site : XmitSite} {dp dp' : DsrPkt}
    (h : Sent s₀ s site dp dp') : AckReqAdded dp dp' := by
  obtain ⟨b, _, hcase⟩ := h.block
  rcases hcase with ⟨rfl, _⟩ | ⟨_, _, id, _, rfl⟩
  · exact .same
  · exact .add _ id

structure MaintClosed (I : DsrNode → Prop) (G : DsrNode → MaintEntry → Prop)
    (P : DsrNode → XmitSite → DsrPkt → Prop) : Prop extends Quiet I where
  carry : ∀ s s' m, G s m → Later s s' → G s' m
  retime : ∀ s m rexmt txTime expires, G s m →
    G s { m with rexmt := rexmt, txTime := txTime, expires := expires }
  entries : ∀ s, I s → ∀ m ∈ s.maintBuf.head, G s m
  maintBuf : ∀ s t, I s → (∀ m ∈ t.head, G s m) → I { s with maintBuf := t }
  ackReqSend : ∀ s m dp, I s → G s m → m.ackReqSent = true →
    ackReqPkt s.kmem s.ifaddr m.nxtHop m.id = some dp → P s .ackReqSend dp
  rerrSend : ∀ s m dst f lc srt maxSalvage salv dp, I s → G s m →
    lcSrtFind (srtFlags s.kmem) s.ifaddr dst s.lc = some (f, lc) → f.srt = some srt →
    rerrPkt s.kmem s.ifaddr dst m.nxtHop maxSalvage srt m.dp salv = some dp →
    P { s with lc := lc } .rerrSend dp
  salvage : ∀ s m f lc alt dp, I s → G s m →
    lcSrtFind (srtFlags s.kmem) s.ifaddr m.dp.dst s.lc = some (f, lc) → f.srt = some alt →
    salvagePkt s.kmem s.ifaddr alt m.dp = some dp → salvageOverrun m.dp dp = false →
    P { s with lc := lc } .salvage dp
  emitXmit : ∀ s site dp, I s → P s site dp →
    I { s with out := s.out ++ [.xmit site dp (ackDue s dp)] }
  emitMaint : ∀ s e, I s → I { s with out := s.out ++ [.maint s.now e] }
  emitAckReq : ∀ s nxtHop id, I s → I { s with out := s.out ++ [.ackReq nxtHop id] }
  newEntry : ∀ s₀ s site dp skb m, P s₀ site dp → Later s₀ s → I s → dp.skb = some skb →
    dp.requestAck = true → m.nxtHop = dp.nxtHop →
    m.dp = { dsrPktAlloc s.kmem skb with nxtHop := dp.nxtHop } →
    (m.ackReqSent = true → .ackReq m.nxtHop m.id ∈ s.out) → G s m
  emitSend : ∀ s₀ s site dp dp' hwDest, P s₀ site dp → Later s₀ s → I s → Sent s₀ s site dp dp' →
    I { s with out := s.out ++ [.send site { hwDest := hwDest, nxtHop := dp'.nxtHop
                                             skb := dsrSkbCreate dp' }] }

namespace MaintClosed

variable {I : DsrNode → Prop} {G : DsrNode → MaintEntry → Prop}
  {P : DsrNode → XmitSite → DsrPkt → Prop} (h : MaintClosed I G P)

include h in
theorem emitMaint_since {s₀ : DsrNode} (e : MaintEvent) : Keeps (Since I s₀) (DsrUu.emitMaint e) :=
  fun s hs => ⟨h.emitMaint s e hs.1, hs.2.trans (Later.emit s _)⟩

section Senders

variable {x : XmitSite → DsrPkt → DsrM Unit} (hx : Transmits x I P)

include h hx

theorem dsrAckReqSend_since {s₀ : DsrNode} {m : MaintEntry} (hm : G s₀ m)
    (hsent : m.ackReqSent = true) : Keeps (Since I s₀) (dsrAckReqSend x m.nxtHop m.id) := by
  intro s hs
  change wp (xmitPkt x .ackReqSend (ackReqPkt s.kmem s.ifaddr m.nxtHop m.id)) s _ _
  cases hp : ackReqPkt s.kmem s.ifaddr m.nxtHop m.id with
  | none => exact hs
  | some dp => exact hx.since hs (h.ackReqSend s m dp hs.1 (h.carry s₀ s m hm hs.2) hsent hp)

theorem dsrRerrSend_since {s₀ : DsrNode} {m : MaintEntry} (hm : G s₀ m) :
    Keeps (Since I s₀) (dsrRerrSend x m.dp m.nxtHop) := by
  intro s hs
  simp only [dsrRerrSend, kmalloc, myAddr, confVal, wp_bind, wp_get, wp_pure]
  rw [wp_ite]
  refine ⟨fun _ => hs, fun _ => ?_⟩
  cases m.dp.srtOpt with
  | none => exact hs
  | some p =>
    dsimp only
    rw [wp_bind]
    refine (h.toQuiet.since s₀).dsrRtcFind_wp hs (fun s' hs' => hs') ?_
    intro f lc srt hf hsrt hs'
    dsimp only
    unfold xmitPkt
    split
    · exact hs'
    · next dp hp => exact hx.since hs' (h.rerrSend s m _ f lc srt _ _ dp hs.1 (h.carry s₀ s m hm hs.2) hf hsrt hp)

theorem maintBufSalvage_since {s₀ : DsrNode} {m : MaintEntry} (hm : G s₀ m) :
    Keeps (Since I s₀) (maintBufSalvage x m.dp) := by
  intro s hs
  simp only [maintBufSalvage, kmalloc, myAddr, wp_bind, wp_get, wp_pure]
  refine (h.toQuiet.since s₀).dsrRtcFind_wp hs (fun s' hs' => hs') ?_
  intro f lc alt hf halt hs'
  dsimp only
  split
  · exact hs'
  · next dp hp =>
    rw [wp_ite]
    refine ⟨fun _ => trivial, fun hov => ?_⟩
    rw [wp_bind]
    exact hx.since hs' (h.salvage s m f lc alt dp hs.1 (h.carry s₀ s m hm hs.2) hf halt hp
      (Bool.eq_false_iff.mpr hov))

theorem salvageLoop_runs (nxtHop : InAddr) (fuel : ℕ) : Runs I (salvageLoop x nxtHop fuel) := by
  induction fuel with
  | zero => exact fun s₀ => Keeps.throw Stop.hang
  | succ fuel ih =>
    refine Runs.of_since fun s hs => ?_
    unfold salvageLoop
    rw [wp_bind, wp_get]
    cases hf : s.maintBuf.findDetach fun m => m.nxtHop = nxtHop with
    | none => exact ⟨hs, Later.refl s⟩
    | some q =>
      obtain ⟨m, t⟩ := q
      obtain ⟨hm, ht⟩ := Tbl.findDetach_mem hf
      have hG : G s m := h.entries s hs m hm
      have hs₁ : Since I s { s with maintBuf := t } :=
        ⟨h.maintBuf s t hs fun m' hm' => h.entries s hs m' (ht m' hm'), Later.maintBuf s t⟩
      refine (Keeps.bind (h.maintBufSalvage_since hx hG) fun _ => ih s) _ hs₁

theorem maintBufGiveUp_since {s₀ : DsrNode} {m : MaintEntry} (hm : G s₀ m) :
    Keeps (Since I s₀) (maintBufGiveUp x m) := by
  refine Keeps.get_bind fun s hs => ?_
  rw [wp_ite]
  refine ⟨fun _ => ?_, fun _ => hs⟩
  refine (Keeps.bind (h.emitMaint_since _) fun _ => ?_) s hs
  refine Keeps.bind ((h.toQuiet.since s₀).rtcLinkDel _ _) fun _ => ?_
  refine Keeps.bind (h.dsrRerrSend_since hx hm) fun _ => ?_
  exact Keeps.bind (h.maintBufSalvage_since hx hm) fun _ => h.salvageLoop_runs hx _ _ s₀

theorem maintBufRexmt_since {s₀ : DsrNode} {m : MaintEntry} (hm : G s₀ m) :
    Keeps (Since I s₀) (maintBufRexmt x m) := by
  have hput : ∀ now expires, Keeps (Since I s₀) (do
      let s ← get
      setMaintBuf ((s.maintBuf.add { m with txTime := now, expires := expires } fun p =>
        timevalDiff p.expires expires > 0).getD s.maintBuf) : DsrM Unit) := by
    refine fun now expires => Keeps.get_bind fun s hs => ?_
    refine ⟨h.maintBuf s _ hs.1 fun m' hm' => ?_, (hs.2.trans (Later.maintBuf s _))⟩
    rcases Tbl.mem_add_getD hm' with rfl | hm'
    · exact h.retime s m m.rexmt now expires (h.carry s₀ s m hm hs.2)
    · exact h.entries s hs.1 m' hm'
  refine Keeps.bind gettime_keeps fun now => ?_
  dsimp only
  refine Keeps.ite (fun hsent => ?_) fun _ => hput now _
  refine Keeps.bind (h.emitMaint_since _) fun _ => ?_
  exact Keeps.bind (h.dsrAckReqSend_since hx hm hsent) fun _ => hput now _

theorem maintBufTimeoutUnlocked_runs {setTimeout : DsrM Unit} (hst : Runs I setTimeout) :
    Runs I (maintBufTimeoutUnlocked x setTimeout) := by
  refine Runs.of_since fun s hs => ?_
  unfold maintBufTimeoutUnlocked
  rw [wp_bind, wp_get, wp_ite]
  refine ⟨fun _ => ⟨hs, Later.refl s⟩, fun _ => ?_⟩
  cases hd : s.maintBuf.detachFirst with
  | none => exact ⟨hs, Later.refl s⟩
  | some q =>
    obtain ⟨m, t⟩ := q
    obtain ⟨hm, ht⟩ := Tbl.detachFirst_mem hd
    have hG : G s { m with rexmt := incUint32 m.rexmt } :=
      h.retime s m _ m.txTime m.expires (h.entries s hs m hm)
    have hs₁ : Since I s { s with maintBuf := t } :=
      ⟨h.maintBuf s t hs fun m' hm' => h.entries s hs m' (ht m' hm'), Later.maintBuf s t⟩
    dsimp only
    rw [wp_bind, wp_setMaintBuf]
    refine (Keeps.bind (confVal_keeps .maxMaintRexmt) fun maxRexmt => ?_) _ hs₁
    refine Keeps.ite (fun _ => ?_) fun _ => ?_
    · exact Keeps.bind (h.maintBufGiveUp_since hx hG) fun _ => hst s
    · exact Keeps.bind (h.maintBufRexmt_since hx hG) fun _ => hst s

end Senders

theorem emit_since {s₀ s : DsrNode} {e : Event} (hs : Since I s₀ s)
    (he : I { s with out := s.out ++ [e] }) : Since I s₀ { s with out := s.out ++ [e] } :=
  ⟨he, hs.2.trans (Later.emit s e)⟩

section Knot

include h

variable {setTimeout : DsrM Unit} (hst : Runs I setTimeout)

include hst

theorem maintBufEnqueue_since {s₀ : DsrNode} {m : MaintEntry} (hm : G s₀ m) :
    Keeps (Since I s₀) (maintBufEnqueue setTimeout m) := by
  refine (h.toQuiet.since s₀).locked (Keeps.get_bind fun s hs => ?_)
  cases ha : s.maintBuf.addTail m with
  | none => exact hs
  | some t =>
    obtain ⟨_, rfl⟩ := Tbl.addTail_eq_some ha
    have hs₁ := h.emitMaint_since (.buffered m s.maintBuf.head) s hs
    refine hst s₀ _ ⟨h.maintBuf _ _ hs₁.1 fun m' hm' => ?_, hs₁.2.trans (Later.maintBuf _ _)⟩
    rcases List.mem_append.mp hm' with hm' | hm'
    · exact h.entries _ hs₁.1 m' hm'
    · rw [List.mem_singleton.mp hm']
      exact h.carry s₀ _ m hm hs₁.2

theorem maintBufAdd_sent {s : DsrNode} {site : XmitSite} {dp : DsrPkt} (hs : I s)
    (hp : P s site dp) (hack : dp.requestAck = true) :
    wp (maintBufAdd setTimeout dp) { s with out := s.out ++ [.xmit site dp (ackDue s dp)] }
      (fun dp' s' => Since I s s' ∧ Sent s s' site dp dp') fun _ => True := by
  obtain ⟨s₁, hs₁⟩ : ∃ s₁ : DsrNode, s₁ = { s with out := s.out ++ [.xmit site dp (ackDue s dp)] } :=
    ⟨_, rfl⟩
  have hI₁ : Since I s s₁ := by
    rw [hs₁]
    exact ⟨h.emitXmit s site dp hs hp, Later.emit s _⟩
  have hself : Since I s₁ s₁ := ⟨hI₁.1, Later.refl s₁⟩
  have hq := h.toQuiet.since s₁
  have hout : ∀ {s' : DsrNode} {dp' : DsrPkt}, Since I s₁ s' → Sent s s' site dp dp' →
      Since I s s' ∧ Sent s s' site dp dp' := fun h' hsent => ⟨⟨h'.1, hI₁.2.trans h'.2⟩, hsent⟩
  have hneigh : s₁.neighTbl = s.neighTbl := by rw [hs₁]
  have hnow : s₁.now = s.now := by rw [hs₁]
  have hconf : s₁.confvals = s.confvals := by rw [hs₁]
  have hkmem : s₁.kmem = s.kmem := by rw [hs₁]
  rw [← hs₁]
  simp only [maintBufAdd, kmalloc, gettime, wp_bind, wp_get, wp_pure]
  refine wp_of_ok fun info s₂ hquery => ?_
  obtain ⟨rfl, rto, rfl⟩ := neighTblQuery_ok hquery
  cases hf : s₂.neighTbl.find fun n => n.addr = dp.nxtHop with
  | none =>
    refine hout hself (Sent.same (hs₁ ▸ Later.refl s₂) fun _ => ?_)
    rw [ackDue, ← hneigh, hf]
  | some n =>
    simp only [Option.map_some]
    rw [wp_bind]
    refine wp_of_ok fun m s₃ hm => ?_
    obtain ⟨rfl, hnh, hsent, skb, hskb, hdp⟩ := maintEntryCreate_ok hm
    have hdue : ackDue s dp = decide (toUint64 (timevalDiff s₃.now n.lastAckReq) >
        usecsOf .maintHoldoffTime (s₃.confvals .maintHoldoffTime)) := by
      rw [ackDue, ← hneigh, hf, hnow, hconf]
    rw [if_pos hack]
    simp only [confValToUsecs, confVal, wp_bind, wp_get, wp_pure]
    rw [wp_ite]
    refine ⟨fun hlt => ?_, fun hge => ?_⟩
    · simp only [wp_bind, wp_emit]
      refine wp_imp (hq.neighTblSetAckReqTime m.nxtHop s₃ hself) fun _ s₄ hs₄ => ?_
      refine wp_imp (hq.neighTblIdInc m.nxtHop s₄ hs₄) fun _ s₅ hs₅ => ?_
      obtain ⟨s₆, hs₆⟩ : ∃ s₆ : DsrNode,
        s₆ = { s₅ with out := s₅.out ++ [.ackReq m.nxtHop m.id] } := ⟨_, rfl⟩
      have hI₆ : Since I s₃ s₆ := by
        rw [hs₆]
        exact emit_since hs₅ (h.emitAckReq s₅ _ _ hs₅.1)
      have hG : G s₆ { m with ackReqSent := true } := by
        refine h.newEntry s s₆ site dp skb _ hp (hI₁.2.trans hI₆.2) hI₆.1 hskb hack hnh ?_ fun _ => ?_
        · rw [hI₆.2.kmem]
          exact hdp
        · rw [hs₆]
          exact List.mem_append_right _ (List.mem_singleton_self _)
      rw [← hs₆]
      refine wp_imp (h.maintBufEnqueue_since hst hG s₆ ⟨hI₆.1, Later.refl s₆⟩) fun _ s₇ hs₇ => ?_
      refine hout ⟨hs₇.1, hI₆.2.trans hs₇.2⟩ ?_
      rw [hkmem]
      refine Sent.ack (hs₁ ▸ hs₅.2) ?_ hack (by rw [hdue]; exact decide_eq_true hlt)
      rw [← hnh, ← hs₆]
      exact hs₇.2
    · have hG : G s₃ m := by
        refine h.newEntry s s₃ site dp skb m hp hI₁.2 hI₁.1 hskb hack hnh hdp fun hc => ?_
        rw [hsent] at hc
        cases hc
      rw [wp_bind]
      refine wp_imp (h.maintBufEnqueue_since hst hG s₃ hself) fun _ s₄ hs₄ => ?_
      refine hout hs₄ (Sent.same (hs₁ ▸ hs₄.2) fun _ => ?_)
      rw [hdue]
      exact decide_eq_false hge

theorem xmitVia_begins {queue : XmitSite → DsrPkt → DsrM Unit} (hq : Emits queue) {s : DsrNode}
    {site : XmitSite} {dp : DsrPkt} (hs : I s) (hp : P s site dp) :
    wp (xmitVia setTimeout queue site dp) s (fun _ s' => Since I s s' ∧
      ∃ b, s'.out = s.out ++ .xmit site dp (ackDue s dp) :: b) fun _ => True := by
  have hsend : ∀ dp' s', Since I s s' → Sent s s' site dp dp' →
      wp (queue site dp') s' (fun _ s' => Since I s s' ∧
          ∃ b, s'.out = s.out ++ .xmit site dp (ackDue s dp) :: b) fun _ => True := by
    intro dp' s' hs' hsent
    obtain ⟨b, hb, _⟩ := hsent.block
    refine wp_of_ok fun _ s'' hrun => ?_
    cases hq site dp' s' s'' hrun with
    | kept => exact ⟨hs', b, hb⟩
    | sent hw =>
      refine ⟨emit_since hs' (h.emitSend s s' site dp dp' hw hp hs'.2 hs'.1 hsent),
        b ++ [.send site { hwDest := hw, nxtHop := dp'.nxtHop, skb := dsrSkbCreate dp' }], ?_⟩
      dsimp only
      rw [hb, List.append_assoc, List.cons_append]
  have hI₁ := h.emitXmit s site dp hs hp
  unfold xmitVia
  rw [wp_bind, wp_get, wp_bind, wp_emit]
  cases hack : dp.requestAck with
  | true =>
    rw [if_pos rfl, wp_bind]
    exact wp_imp (h.maintBufAdd_sent hst hs hp hack) fun dp' s' hs' => hsend dp' s' hs'.1 hs'.2
  | false =>
    rw [if_neg (by decide), wp_bind, wp_pure]
    refine hsend dp _ ⟨hI₁, Later.emit s _⟩ (Sent.same (Later.refl _) fun hc => ?_)
    rw [hack] at hc
    cases hc

theorem buildXmit_transmits : Transmits (buildXmit setTimeout) I P := by
  intro s site dp hs hp
  rw [wp_congr (buildXmit_eq setTimeout site dp s)]
  exact wp_imp (h.xmitVia_begins hst (buildQueue_emits _) hs hp) fun _ _ h' => h'.1

end Knot

include h

theorem maintBufSetTimeoutUnlocked_runs (fuel : ℕ) : Runs I (maintBufSetTimeoutUnlocked fuel) := by
  induction fuel with
  | zero => exact fun s₀ => Keeps.throw Stop.hang
  | succ fuel ih =>
    refine fun s₀ => Keeps.get_bind fun s hs => ?_
    cases hf : s.maintBuf.find MaintEntry.ackReqSent with
    | none => exact hs
    | some m =>
      have hs₁ : ∀ expires, Since I s₀
          { s with maintBuf := s.maintBuf.findDo MaintEntry.ackReqSent fun m =>
                     { m with expires := expires } } := by
        intro expires
        refine ⟨h.maintBuf s _ hs.1 ?_, hs.2.trans (Later.maintBuf s _)⟩
        refine Tbl.updateFirst_forall (h.entries s hs.1) fun m' hm' => ?_
        exact h.retime s m' m'.rexmt m'.txTime expires (h.entries s hs.1 m' hm')
      dsimp only
      rw [wp_bind, wp_setMaintBuf, wp_ite]
      refine ⟨fun _ => ?_, fun _ => ?_⟩
      · exact h.maintBufTimeoutUnlocked_runs (h.buildXmit_transmits ih) ih s₀ _ (hs₁ _)
      · exact (h.toQuiet.since s₀).setAckTimer _ _ (hs₁ _)

theorem xmit_begins {s : DsrNode} {site : XmitSite} {dp : DsrPkt} (hs : I s) (hp : P s site dp) :
    wp (xmit site dp) s (fun _ s' => Since I s s' ∧
      ∃ b, s'.out = s.out ++ .xmit site dp (ackDue s dp) :: b) fun _ => True := by
  rw [wp_congr (xmit_eq site dp s)]
  exact h.xmitVia_begins (h.maintBufSetTimeoutUnlocked_runs s.budget) (buildQueue_emits _) hs hp

theorem xmit_transmits : Transmits xmit I P :=
  fun _ _ _ hs hp => wp_imp (h.xmit_begins hs hp) fun _ _ h' => h'.1

theorem maintBufSetTimeout_runs : Runs I maintBufSetTimeout :=
  fun s₀ => Keeps.get_bind fun s hs => h.maintBufSetTimeoutUnlocked_runs s.budget s₀ s hs

theorem maintBufTimeout_runs : Runs I maintBufTimeout := by
  intro s₀
  refine Keeps.bind ((h.toQuiet.since s₀).setAckTimer none) fun _ => ?_
  exact (h.toQuiet.since s₀).locked
    (h.maintBufTimeoutUnlocked_runs h.xmit_transmits h.maintBufSetTimeout_runs s₀)

theorem maintBufDel_since {s₀ s : DsrNode} (hs : Since I s₀ s) (crit : MaintEntry → Bool) :
    Since I s₀ { s with maintBuf := s.maintBuf.forEachDel crit } :=
  ⟨h.maintBuf s _ hs.1 fun m hm => h.entries s hs.1 m (List.mem_of_mem_filter hm),
    hs.2.trans (Later.maintBuf s _)⟩

theorem maintBufDelAll_runs (nxtHop : InAddr) : Runs I (maintBufDelAll nxtHop) := by
  intro s₀
  refine (h.toQuiet.since s₀).locked ?_
  refine Keeps.bind ((h.toQuiet.since s₀).setAckTimer none) fun _ => Keeps.get_bind fun s hs => ?_
  exact h.maintBufSetTimeout_runs s₀ _ (h.maintBufDel_since hs _)

theorem maintBufDelAllId_runs (nxtHop : InAddr) (id : ℕ) : Runs I (maintBufDelAllId nxtHop id) := by
  intro s₀
  have hq := h.toQuiet.since s₀
  refine hq.locked (Keeps.bind (hq.setAckTimer none) fun _ => ?_)
  refine Keeps.bind (h.emitMaint_since _) fun _ => Keeps.get_bind fun s hs => ?_
  have hs' := h.maintBufDel_since hs fun m => m.nxtHop = nxtHop && m.id ≤ id
  dsimp only
  rw [wp_bind, wp_setMaintBuf, wp_ite]
  refine ⟨fun _ => ?_, fun _ => ?_⟩
  · exact (Keeps.bind (hq.neighTblSetRto _ _) fun _ => h.maintBufSetTimeout_runs s₀) _ hs'
  · exact h.maintBufSetTimeout_runs s₀ _ hs'

end MaintClosed

end DsrUu
