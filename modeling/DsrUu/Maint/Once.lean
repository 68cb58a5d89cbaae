import DsrUu.Maint.Closed

namespace DsrUu

open Effect

def XmitSite.maint : XmitSite → Prop
  | .ackReqSend | .rerrSend | .salvage => True
  | _ => False

def FrameOf (dp : DsrPkt) (f : Frame) : Prop :=
  ∃ dp', AckReqAdded dp dp' ∧ f.nxtHop = dp'.nxtHop ∧ f.skb = dsrSkbCreate dp'

def maintEvent (site : XmitSite) (dp : DsrPkt) : Event → Prop
  | .xmit site' _ _ => site'.maint
  | .send site' f => site'.maint ∨ (site' = site ∧ FrameOf dp f)
  | .ackReq _ _ | .maint _ _ => True
  | _ => False

def Before (s : DsrNode) (site : XmitSite) (dp : DsrPkt) (t : DsrNode) : Prop :=
  ∃ b, t.out = s.out ++ b ∧ ∀ e ∈ b, maintEvent site dp e

def After (s : DsrNode) (site : XmitSite) (dp : DsrPkt) (t : DsrNode) : Prop :=
  ∃ b due c, t.out = s.out ++ (b ++ .xmit site dp due :: c) ∧ (∀ e ∈ b, maintEvent site dp e) ∧
    ∀ e ∈ c, maintEvent site dp e

section Once

variable {s t : DsrNode} {site : XmitSite} {dp : DsrPkt}

theorem Before.emit (h : Before s site dp t) {e : Event} (he : maintEvent site dp e) :
    Before s site dp { t with out := t.out ++ [e] } := by
  obtain ⟨b, hb, hE⟩ := h
  exact ⟨b ++ [e], by rw [hb, List.append_assoc], forall_mem_snoc hE he⟩

theorem Before.xmit (h : Before s site dp t) (due : Bool) :
    After s site dp { t with out := t.out ++ [.xmit site dp due] } := by
  obtain ⟨b, hb, hE⟩ := h
  exact ⟨b, due, [], by rw [hb, List.append_assoc], hE, fun _ he => absurd he List.not_mem_nil⟩

theorem After.emit (h : After s site dp t) {e : Event} (he : maintEvent site dp e) :
    After s site dp { t with out := t.out ++ [e] } := by
  obtain ⟨b, due, c, hb, hE, hC⟩ := h
  exact ⟨b, due, c ++ [e], by rw [hb]; simp, hE, forall_mem_snoc hC he⟩

def Around (s : DsrNode) (site : XmitSite) (dp : DsrPkt) (t : DsrNode) : Prop :=
  Before s site dp t ∨ After s site dp t

theorem Around.emit (h : Around s site dp t) {e : Event} (he : maintEvent site dp e) :
    Around s site dp { t with out := t.out ++ [e] } :=
  h.imp (fun h => h.emit he) fun h => h.emit he

theorem once_maintClosed (s : DsrNode) (site : XmitSite) (dp : DsrPkt) (hsite : ¬ site.maint) :
    MaintClosed (Around s site dp) (fun _ _ => True) fun t site' dp' =>
      site'.maint ∨ (site' = site ∧ dp' = dp ∧ Before s site dp t) where
  held _ _ h := h
  lc _ _ _ _ _ h := h
  neighTbl _ _ h := h
  gratRrepTbl _ _ h := h
  gratTimer _ _ h := h
  ackTimer _ _ h := h
  carry _ _ _ _ _ := trivial
  retime _ _ _ _ _ _ := trivial
  entries _ _ _ _ := trivial
  maintBuf _ _ h _ := h
  ackReqSend _ _ _ _ _ _ _ := Or.inl trivial
  rerrSend _ _ _ _ _ _ _ _ _ _ _ _ _ _ := Or.inl trivial
  salvage _ _ _ _ _ _ _ _ _ _ _ _ := Or.inl trivial
  emitXmit t site' dp' h hp := by
    rcases hp with hm | ⟨rfl, rfl, hb⟩
    · exact h.emit hm
    · exact Or.inr (hb.xmit _)
  emitMaint _ _ h := h.emit trivial
  emitAckReq _ _ _ h := h.emit trivial
  newEntry _ _ _ _ _ _ _ _ _ _ _ _ _ _ := trivial
  emitSend t₀ t site' dp' dp'' hw hp _ h hsent := by
    rcases hp with hm | ⟨rfl, rfl, _⟩
    · exact h.emit (Or.inl hm)
    · exact h.emit (Or.inr ⟨rfl, dp'', hsent.added, rfl, rfl⟩)

theorem xmit_once (hsite : ¬ site.maint) (h : xmit site dp s = .ok () t) :
    ∃ due c, t.out = s.out ++ .xmit site dp due :: c ∧ ∀ e ∈ c, maintEvent site dp e := by
  have hb : Before s site dp s :=
    ⟨[], (List.append_nil _).symm, fun _ he => absurd he List.not_mem_nil⟩
  obtain ⟨⟨ht, _⟩, c, hc⟩ := wp_ok ((once_maintClosed s site dp hsite).xmit_begins (Or.inl hb)
    (Or.inr ⟨rfl, rfl, hb⟩)) h
  refine ⟨_, c, hc, ?_⟩
  have hnot : ¬ maintEvent site dp (.xmit site dp (ackDue s dp)) := hsite
  rcases ht with ⟨b, hb', hE⟩ | ⟨b, due, c', hb', hE, hC⟩
  · rw [hc] at hb'
    have hm := List.append_cancel_left hb'
    exact absurd (hE _ (hm ▸ List.mem_cons_self)) hnot
  · rw [hc] at hb'
    have hm := List.append_cancel_left hb'
    cases b with
    | nil =>
      rw [List.nil_append, List.cons.injEq] at hm
      rw [hm.2]
      exact hC
    | cons e b =>
      rw [List.cons_append, List.cons.injEq] at hm
      exact absurd (hm.1 ▸ hE e List.mem_cons_self) hnot

end Once

end DsrUu
