import DsrUu.Maint.Closed

namespace DsrUu

open Effect

structure RreqClosed (I : DsrNode → Prop) (G : DsrNode → MaintEntry → Prop)
    (P : DsrNode → XmitSite → DsrPkt → Prop) : Prop extends MaintClosed I G P where
  rreqTbl : ∀ s t, I s → I { s with rreqTbl := t }
  rreqBrk : ∀ s n, I s → I { s with rreqBrk := n }
  rreqSeqno : ∀ s n, I s → I { s with rreqSeqno := n }
  emitDiscovery : ∀ s d st, I s → I { s with out := s.out ++ [.discovery d st] }
  rreqSend : ∀ s target ttl seqno dp, I s → rreqPkt s.kmem s.ifaddr target ttl seqno = some dp →
    P s .rreqSend dp

structure NodeClosed (I : DsrNode → Prop) (G : DsrNode → MaintEntry → Prop)
    (P : DsrNode → XmitSite → DsrPkt → Prop) (H : DsrPkt → Prop) : Prop
    extends MaintClosed I G P where
  rreqTbl : ∀ s t, I s → I { s with rreqTbl := t }
  rreqBrk : ∀ s n, I s → I { s with rreqBrk := n }
  rreqSeqno : ∀ s n, I s → I { s with rreqSeqno := n }
  sendBufTimer : ∀ s t, I s → I { s with sendBufTimer := t }
  waiting : ∀ s, I s → ∀ e ∈ s.sendBuf.head, H e.dp
  sendBuf : ∀ s t, I s → (∀ e ∈ t.head, H e.dp) → I { s with sendBuf := t }
  emitIcmp : ∀ s dp, I s → I { s with out := s.out ++ [.icmp dp] }
  emitDiscovery : ∀ s d st, I s → I { s with out := s.out ++ [.discovery d st] }
  emitSendBuf : ∀ s e, I s → I { s with out := s.out ++ [.sendBuf e] }
  rreqSend : ∀ s target ttl seqno dp, I s → rreqPkt s.kmem s.ifaddr target ttl seqno = some dp →
    P s .rreqSend dp
  srtAdd : ∀ s dp f lc srt dp' site, (site = .startXmit ∨ site = .sendBuf) → I s → H dp →
    lcSrtFind (srtFlags s.kmem) dp.src dp.dst s.lc = some (f, lc) → f.srt = some srt →
    dsrSrtAdd s.kmem { dp with srt := some srt } = some dp' → P { s with lc := lc } site dp'

namespace Later

variable {s₀ s : DsrNode} (h : Later s₀ s)

include h

theorem rreqTbl (t : Tbl RreqTblEntry) : Later s₀ { s with rreqTbl := t } :=
  ⟨h.out, h.ifaddr, h.confvals, h.slaveDev, h.locking, h.budget, h.now, h.kmem⟩

theorem rreqBrk (n : ℕ) : Later s₀ { s with rreqBrk := n } :=
  ⟨h.out, h.ifaddr, h.confvals, h.slaveDev, h.locking, h.budget, h.now, h.kmem⟩

theorem rreqSeqno (n : ℕ) : Later s₀ { s with rreqSeqno := n } :=
  ⟨h.out, h.ifaddr, h.confvals, h.slaveDev, h.locking, h.budget, h.now, h.kmem⟩

theorem sendBuf (t : Tbl SendBufEntry) : Later s₀ { s with sendBuf := t } :=
  ⟨h.out, h.ifaddr, h.confvals, h.slaveDev, h.locking, h.budget, h.now, h.kmem⟩

theorem sendBufTimer (t : Option Timeval) : Later s₀ { s with sendBufTimer := t } :=
  ⟨h.out, h.ifaddr, h.confvals, h.slaveDev, h.locking, h.budget, h.now, h.kmem⟩

end Later

namespace RreqClosed

variable {I : DsrNode → Prop} {G : DsrNode → MaintEntry → Prop}
  {P : DsrNode → XmitSite → DsrPkt → Prop} (h : RreqClosed I G P)

include h

theorem quiet (s₀ : DsrNode) : Quiet (Since I s₀) := h.toQuiet.since s₀

theorem setRreqTbl (s₀ : DsrNode) (t : Tbl RreqTblEntry) : Keeps (Since I s₀) (setRreqTbl t) :=
  fun s hs => ⟨h.rreqTbl s t hs.1, hs.2.rreqTbl t⟩

theorem rreqTblUpdate (s₀ : DsrNode) (ref : ℕ) (f : RreqTblEntry → RreqTblEntry) :
    Keeps (Since I s₀) (rreqTblUpdate ref f) :=
  fun s hs => ⟨h.rreqTbl s _ hs.1, hs.2.rreqTbl _⟩

theorem discovery (s₀ : DsrNode) (d : InAddr) (st : DiscStatus) :
    Keeps (Since I s₀) (emit (.discovery d st)) :=
  fun s hs => MaintClosed.emit_since hs (h.emitDiscovery s d st hs.1)

theorem rreqTblAdd (s₀ : DsrNode) (nodeAddr : InAddr) :
    Keeps (Since I s₀) (rreqTblAdd nodeAddr) := by
  have htail : ∀ e : RreqTblEntry, Keeps (Since I s₀) (do
      let s ← get
      DsrUu.setRreqTbl ((s.rreqTbl.addTail e).getD s.rreqTbl)
      pure e.ref : DsrM ℕ) :=
    fun e => Keeps.get_bind fun s hs => ⟨h.rreqTbl s _ hs.1, hs.2.rreqTbl _⟩
  refine Keeps.bind (confVal_keeps _) fun ids => Keeps.get_bind fun s hs => ?_
  dsimp only
  rw [wp_bind, wp_set]
  have hs₁ : Since I s₀ { s with rreqBrk := s.rreqBrk + 1 } :=
    ⟨h.rreqBrk s _ hs.1, hs.2.rreqBrk _⟩
  rw [wp_ite]
  refine ⟨fun _ => ?_, fun _ => htail _ _ hs₁⟩
  refine (Keeps.bind (ofOption_keeps _) fun q => ?_) _ hs₁
  refine Keeps.bind (h.setRreqTbl s₀ _) fun _ => Keeps.bind (h.discovery s₀ _ _) fun _ => ?_
  exact Keeps.bind ((h.quiet s₀).locked (Keeps.pure ())) fun _ => htail _

theorem rreqTblFindLast (s₀ : DsrNode) (nodeAddr : InAddr) :
    Keeps (Since I s₀) (rreqTblFindLast nodeAddr) := by
  refine Keeps.get_bind fun s hs => ?_
  split
  · exact h.rreqTblAdd s₀ nodeAddr s hs
  · exact ⟨h.rreqTbl s _ hs.1, hs.2.rreqTbl _⟩

theorem rreqTblAddId (s₀ : DsrNode) (initiator target : InAddr) (id : ℕ) :
    Keeps (Since I s₀) (rreqTblAddId initiator target id) := by
  have hq := h.quiet s₀
  refine hq.locked (Keeps.bind (h.rreqTblFindLast s₀ initiator) fun ref => ?_)
  refine Keeps.bind gettime_keeps fun now => Keeps.bind (h.rreqTblUpdate s₀ _ _) fun _ => ?_
  refine Keeps.get_bind fun s hs => ?_
  rw [wp_ite]
  refine ⟨fun _ => ?_, fun _ => hq.locked (h.rreqTblUpdate s₀ _ _) s hs⟩
  exact (Keeps.bind (hq.locked (h.rreqTblUpdate s₀ _ _)) fun _ =>
    hq.locked (h.rreqTblUpdate s₀ _ _)) s hs

theorem rreqTblRouteDiscoveryCancel (s₀ : DsrNode) (dst : InAddr) :
    Keeps (Since I s₀) (rreqTblRouteDiscoveryCancel dst) := by
  have hq := h.quiet s₀
  refine Keeps.bind (h.discovery s₀ _ _) fun _ => Keeps.bind (hq.locked ?_) fun found => ?_
  · refine Keeps.get_bind fun s hs => ?_
    split
    · exact hs
    · exact (Keeps.bind (h.setRreqTbl s₀ _) fun _ => Keeps.pure _) s hs
  · cases found with
    | none => exact Keeps.pure ()
    | some e =>
      refine Keeps.bind gettime_keeps fun now => hq.locked (Keeps.get_bind fun s hs => ?_)
      exact h.setRreqTbl s₀ _ s hs

theorem dsrRreqDuplicate (s₀ : DsrNode) (initiator target : InAddr) (id : ℕ) :
    Keeps (Since I s₀) (dsrRreqDuplicate initiator target id) := (h.quiet s₀).locked (keeps_read _)

theorem dsrRreqSend (s₀ : DsrNode) (target : InAddr) (ttl : ℕ) :
    Keeps (Since I s₀) (dsrRreqSend xmit target ttl) := by
  intro s hs
  simp only [DsrUu.dsrRreqSend, kmalloc, myAddr, wp_bind, wp_get, wp_pure, wp_set]
  have hs₁ : Since I s₀ { s with rreqSeqno := incUint32 s.rreqSeqno } :=
    ⟨h.rreqSeqno s _ hs.1, hs.2.rreqSeqno _⟩
  unfold xmitPkt
  split
  · exact hs₁
  · next dp hp => exact h.xmit_transmits.since hs₁ (h.rreqSend _ _ _ _ dp hs₁.1 hp)

theorem rreqTblStart (s₀ : DsrNode) (target : InAddr) :
    Keeps (Since I s₀) (rreqTblStart target) := by
  refine Keeps.bind (h.rreqTblFindLast s₀ target) fun ref => Keeps.get_bind fun s hs => ?_
  refine (Keeps.bind (confValToUsecs_keeps _) fun timeout => ?_) s hs
  refine Keeps.ite (fun _ => Keeps.pure _) fun _ => ?_
  exact Keeps.bind (h.rreqTblUpdate s₀ _ _) fun _ =>
    Keeps.bind (h.discovery s₀ _ _) fun _ => Keeps.pure _

theorem dsrRreqRouteDiscovery (s₀ : DsrNode) (target : InAddr) :
    Keeps (Since I s₀) (dsrRreqRouteDiscovery target) :=
  Keeps.bind ((h.quiet s₀).locked (h.rreqTblStart s₀ target)) fun _ =>
    Keeps.ite (fun _ => h.dsrRreqSend s₀ target ttlStart) fun _ => Keeps.pure ()

theorem rreqTblPutBack (s₀ : DsrNode) (e : RreqTblEntry) :
    Keeps (Since I s₀) (rreqTblPutBack e) :=
  (h.quiet s₀).locked (Keeps.get_bind fun s hs => h.setRreqTbl s₀ _ s hs)

theorem rreqTblTimeout (s₀ : DsrNode) (ref : ℕ) : Keeps (Since I s₀) (rreqTblTimeout ref) := by
  refine Keeps.bind ((h.quiet s₀).locked (Keeps.get_bind fun s hs => ?_)) fun e => ?_
  · refine (Keeps.bind (ofOption_keeps _) fun q => ?_) s hs
    exact Keeps.bind (h.setRreqTbl s₀ _) fun _ => Keeps.pure _
  · refine Keeps.bind (confVal_keeps _) fun maxRexmt => Keeps.ite (fun _ => ?_) fun _ => ?_
    · exact Keeps.bind (h.discovery s₀ _ _) fun _ => h.rreqTblPutBack s₀ _
    · refine Keeps.bind (confValToUsecs_keeps _) fun maxPeriod => Keeps.bind gettime_keeps fun now => ?_
      exact Keeps.bind (h.dsrRreqSend s₀ _ _) fun _ => h.rreqTblPutBack s₀ _

end RreqClosed

namespace NodeClosed

variable {I : DsrNode → Prop} {G : DsrNode → MaintEntry → Prop}
  {P : DsrNode → XmitSite → DsrPkt → Prop} {H : DsrPkt → Prop} (h : NodeClosed I G P H)

include h

theorem rreqs : RreqClosed I G P :=
  ⟨h.toMaintClosed, h.rreqTbl, h.rreqBrk, h.rreqSeqno, h.emitDiscovery, h.rreqSend⟩

theorem quiet (s₀ : DsrNode) : Quiet (Since I s₀) := h.toQuiet.since s₀

theorem setSendBuf {s₀ s : DsrNode} (hs : Since I s₀ s) {t : Tbl SendBufEntry}
    (ht : ∀ e ∈ t.head, e ∈ s.sendBuf.head ∨ H e.dp) : Since I s₀ { s with sendBuf := t } := by
  refine ⟨h.sendBuf s t hs.1 fun e he => ?_, hs.2.sendBuf t⟩
  rcases ht e he with hm | hH
  · exact h.waiting s hs.1 e hm
  · exact hH

theorem emitSendBuf_since (s₀ : DsrNode) (f : SendBufEntry → SendBufEvent)
    (es : List SendBufEntry) : Keeps (Since I s₀) (DsrUu.emitSendBuf f es) := by
  induction es with
  | nil =>
    intro s hs
    change Since I s₀ { s with out := s.out ++ [] }
    rw [List.append_nil]
    exact hs
  | cons e es ih =>
    intro s hs
    have hs₁ := ih _ (MaintClosed.emit_since hs (h.emitSendBuf s (f e) hs.1))
    change Since I s₀ { s with out := (s.out ++ [.sendBuf (f e)]) ++ es.map fun e => .sendBuf (f e) }
      at hs₁
    rw [List.append_assoc] at hs₁
    exact hs₁

theorem addTail_since {s₀ s : DsrNode} (hs : Since I s₀ s) {e : SendBufEntry} (he : H e.dp)
    {t : Tbl SendBufEntry} (ht : s.sendBuf.addTail e = some t) :
    Since I s₀ { s with sendBuf := t } := by
  obtain ⟨_, rfl⟩ := Tbl.addTail_eq_some ht
  refine h.setSendBuf hs fun e' he' => ?_
  rcases List.mem_append.mp he' with he' | he'
  · exact Or.inl he'
  · rw [List.mem_singleton.mp he']
    exact Or.inr he

theorem sendBufEvict (s₀ : DsrNode) : Keeps (Since I s₀) sendBufEvict := by
  refine Keeps.get_bind fun s hs => ?_
  cases hd : s.sendBuf.detachFirst with
  | none => exact hs
  | some q =>
    obtain ⟨f, t⟩ := q
    have hs₁ := h.setSendBuf hs (t := t) fun e he => Or.inl ((Tbl.detachFirst_mem hd).2 e he)
    exact h.emitSendBuf_since s₀ _ _ _ hs₁

theorem sendBufAddAgain (s₀ : DsrNode) {e : SendBufEntry} (he : H e.dp) :
    Keeps (Since I s₀) (sendBufAddAgain e) := by
  refine (h.quiet s₀).locked (Keeps.get_bind fun s hs => ?_)
  cases ha : s.sendBuf.addTail e with
  | some t => exact h.addTail_since hs he ha
  | none => exact Keeps.bind (h.emitSendBuf_since s₀ _ _) (fun _ => Keeps.pure _) s hs

theorem sendBufEnqueuePacket (s₀ : DsrNode) {dp : DsrPkt} (hdp : H dp) :
    Keeps (Since I s₀) (sendBufEnqueuePacket dp) := by
  have hq := h.quiet s₀
  refine Keeps.bind gettime_keeps fun now => Keeps.bind (confValToUsecs_keeps _) fun timeout => ?_
  refine Keeps.get_bind fun s hs => ?_
  refine Keeps.bind (h.emitSendBuf_since s₀ _ _) (fun _ => ?_) s hs
  refine Keeps.bind (hq.locked (Keeps.get_bind fun s hs => ?_)) fun q => ?_
  · dsimp only
    split
    · next t ht => exact h.addTail_since hs hdp ht
    · exact Keeps.bind (h.sendBufEvict s₀)
        (fun _ => Keeps.bind (h.sendBufAddAgain s₀ hdp) fun _ => Keeps.pure _) s hs
  · dsimp only
    refine Keeps.ite (fun _ => Keeps.bind ?_ fun _ => Keeps.pure _) fun _ => Keeps.pure _
    exact fun s hs => ⟨h.sendBufTimer s _ hs.1, hs.2.sendBufTimer _⟩

theorem sendBufDropLoop (s₀ : DsrNode) (dst : InAddr) (fuel : ℕ) :
    ∀ first, Keeps (Since I s₀) (sendBufDropLoop dst fuel first) := by
  induction fuel with
  | zero => exact fun _ => Keeps.throw Stop.hang
  | succ fuel ih =>
    refine fun first => Keeps.get_bind fun s hs => ?_
    cases hf : s.sendBuf.findDetach fun e => e.dp.dst = dst with
    | none => exact hs
    | some q =>
      obtain ⟨e, t⟩ := q
      have hs₁ := h.setSendBuf hs (t := t) fun e' he' => Or.inl ((Tbl.findDetach_mem hf).2 e' he')
      have hrest : Keeps (Since I s₀) (do
          DsrUu.emitSendBuf .dropped [e]
          DsrUu.sendBufDropLoop dst fuel false) :=
        Keeps.bind (h.emitSendBuf_since s₀ _ _) fun _ => ih false
      dsimp only
      rw [wp_bind, wp_setSendBuf]
      refine Keeps.ite (I := Since I s₀) (fun _ => ?_) (fun _ => hrest) _ hs₁
      refine Keeps.bind (fun s' hs' => ?_) fun _ => hrest
      exact MaintClosed.emit_since hs' (h.emitIcmp s' e.dp hs'.1)

theorem srtAdd_since {s₀ s : DsrNode} (hs : Since I s₀ s) {dp : DsrPkt} (hdp : H dp)
    {site : XmitSite} (hsite : site = .startXmit ∨ site = .sendBuf) {m : DsrM Unit}
    {k : Option DsrPkt → DsrM Unit} (hm : Keeps (Since I s₀) m)
    (hk : ∀ o s', Since I s₀ s' → (∀ dp', o = some dp' →
      wp (xmit site dp') s' (fun _ s'' => Since I s₀ s'') fun _ => True) →
      wp (k o) s' (fun _ s'' => Since I s₀ s'') fun _ => True) :
    wp (do
      match ← DsrUu.dsrRtcFind dp.src dp.dst with
      | some srt => k (dsrSrtAdd s.kmem { dp with srt := some srt })
      | none => m : DsrM Unit) s (fun _ s' => Since I s₀ s') fun _ => True := by
  rw [wp_bind]
  refine (h.quiet s₀).dsrRtcFind_wp hs (fun s' hs' => hm s' hs') ?_
  intro f lc srt hf hsrt hs'
  refine hk _ _ hs' fun dp' hp => ?_
  exact h.xmit_transmits.since hs' (h.srtAdd s dp f lc srt dp' site hsite hs.1 hdp hf hsrt hp)

theorem sendBufSendOne (s₀ : DsrNode) {e : SendBufEntry} (he : H e.dp) :
    Keeps (Since I s₀) (sendBufSendOne e) := by
  intro s hs
  have hw := h.srtAdd_since hs he (Or.inr rfl) (h.emitSendBuf_since s₀ .noRoute [e])
    (k := fun o => o.elim (DsrUu.emitSendBuf .noRoute [e]) fun dp => do
      xmit .sendBuf dp
      DsrUu.emitSendBuf (.sent · dp) [e]) fun o s' hs' hx => by
      cases o with
      | none => exact h.emitSendBuf_since s₀ _ _ s' hs'
      | some dp =>
        rw [Option.elim_some, wp_bind]
        exact wp_imp (hx dp rfl) fun _ s'' hs'' => h.emitSendBuf_since s₀ _ _ s'' hs''
  unfold DsrUu.sendBufSendOne
  simp only [kmalloc, wp_bind, wp_get, wp_pure] at hw ⊢
  refine wp_imp hw fun r s' hr => ?_
  cases r with
  | none => exact hr
  | some srt =>
    revert hr
    dsimp only
    cases dsrSrtAdd s.kmem { e.dp with srt := some srt } <;> exact id

theorem sendBufSendLoop (s₀ : DsrNode) (dst : InAddr) (fuel : ℕ) :
    Keeps (Since I s₀) (sendBufSendLoop dst fuel) := by
  induction fuel with
  | zero => exact Keeps.throw Stop.hang
  | succ fuel ih =>
    refine Keeps.get_bind fun s hs => ?_
    cases hf : s.sendBuf.findDetach fun e => e.dp.dst = dst with
    | none => exact hs
    | some q =>
      obtain ⟨e, t⟩ := q
      obtain ⟨he, ht⟩ := Tbl.findDetach_mem hf
      have hs₁ := h.setSendBuf hs (t := t) fun e' he' => Or.inl (ht e' he')
      have hH := h.waiting s hs.1 e he
      dsimp only
      rw [wp_bind, wp_setSendBuf]
      exact (Keeps.bind (h.sendBufSendOne s₀ hH) fun _ => ih) _ hs₁

theorem sendBufSetVerdict (s₀ : DsrNode) (verdict : Verdict) (dst : InAddr) :
    Keeps (Since I s₀) (sendBufSetVerdict verdict dst) := by
  refine (h.quiet s₀).locked (Keeps.get_bind fun s hs => ?_)
  cases verdict with
  | drop => exact h.sendBufDropLoop s₀ dst _ _ s hs
  | send => exact h.sendBufSendLoop s₀ dst _ s hs

theorem sendBufTimeout (s₀ : DsrNode) : Keeps (Since I s₀) sendBufTimeout := by
  have hq := h.quiet s₀
  have htimer : ∀ t, Keeps (Since I s₀) (setSendBufTimer t) :=
    fun t s hs => ⟨h.sendBufTimer s t hs.1, hs.2.sendBufTimer t⟩
  refine Keeps.bind (htimer none) fun _ => Keeps.bind gettime_keeps fun now => ?_
  refine Keeps.bind (confValToUsecs_keeps _) fun timeout => ?_
  refine Keeps.bind (hq.locked (Keeps.get_bind fun s hs => ?_)) fun _ => ?_
  · exact h.emitSendBuf_since s₀ _ _ _
      (h.setSendBuf hs fun e he => Or.inl (List.mem_of_mem_filter he))
  · refine Keeps.bind (hq.locked (keeps_read _)) fun first => ?_
    cases first with
    | none => exact Keeps.pure ()
    | some e => exact htimer _

theorem dsrStartXmit (s₀ : DsrNode) {dp : DsrPkt} (hdp : H dp) :
    Keeps (Since I s₀) (dsrStartXmit dp) := by
  intro s hs
  have hqueue : Keeps (Since I s₀) (do
      if ← DsrUu.sendBufEnqueuePacket dp then DsrUu.dsrRreqRouteDiscovery dp.dst
      else pure () : DsrM Unit) :=
    Keeps.bind (h.sendBufEnqueuePacket s₀ hdp) fun _ =>
      Keeps.ite (fun _ => h.rreqs.dsrRreqRouteDiscovery s₀ dp.dst) fun _ => Keeps.pure ()
  have hw := h.srtAdd_since hs hdp (Or.inl rfl) hqueue (k := xmitPkt xmit .startXmit)
    fun o s' hs' hx => by
      cases o with
      | none => exact hs'
      | some dp' => exact hx dp' rfl
  unfold DsrUu.dsrStartXmit
  simp only [kmalloc, wp_bind, wp_get, wp_pure] at hw ⊢
  exact hw

theorem dsrDevStartXmit {s : DsrNode} (hs : I s) {skb : Skb}
    (hskb : H (dsrPktAlloc s.kmem skb)) :
    wp (dsrDevStartXmit skb) s (fun _ s' => Since I s s') fun _ => True := by
  unfold DsrUu.dsrDevStartXmit
  rw [wp_bind, wp_get, wp_ite]
  refine ⟨fun _ => ?_, fun _ => ⟨hs, Later.refl s⟩⟩
  simp only [kmalloc, wp_bind, wp_get, wp_pure]
  exact h.dsrStartXmit s hskb s ⟨hs, Later.refl s⟩

end NodeClosed

end DsrUu
