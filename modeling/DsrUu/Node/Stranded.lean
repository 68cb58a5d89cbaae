import DsrUu.Node.Counted
import DsrUu.Node.Reject
import DsrUu.Node.RreqPath
import DsrUu.Node.SendBuf
import DsrUu.Node.Waiting

namespace DsrUu

open Bytes Effect

structure SameFront (off : ℕ) (dp dp' : DsrPkt) : Prop where
  isSome : dp'.dh.isSome = dp.dh.isSome
  gen : dp'.gen = dp.gen
  bytes : ∀ i, dsrOptHdrLen ≤ i → i ≤ off → dp'.byteAt i = dp.byteAt i

namespace SameFront

variable {off off' : ℕ} {p : OptPtr} {dp dp' dp'' : DsrPkt}

theorem refl (off : ℕ) (dp : DsrPkt) : SameFront off dp dp := ⟨rfl, rfl, fun _ _ _ => rfl⟩

theorem trans (h : SameFront off dp dp') (h' : SameFront off' dp' dp'') (hle : off ≤ off') : SameFront off dp dp'' :=
  ⟨h'.isSome.trans h.isSome, h'.gen.trans h.gen, fun i hlo hi =>
    (h'.bytes i hlo (Nat.le_trans hi hle)).trans (h.bytes i hlo hi)⟩

theorem live (h : SameFront off dp dp') (p : OptPtr) : dp'.live p = dp.live p := by
  rw [DsrPkt.live, DsrPkt.live, h.isSome, h.gen]

theorem core (hc : dp'.core = dp.core) (off : ℕ) : SameFront off dp dp' :=
  ⟨by rw [core_dh hc], (congrArg DsrPkt.gen hc :), fun i _ _ => congrFun (byteAt_congr_dh (core_dh hc)) i⟩

theorem touch (h : Touch dp p dp') : SameFront p.off dp dp' :=
  ⟨h.isSome, h.gen, fun i _ hi => h.bytes i fun _ => by omega⟩

theorem rreqForward {len : ℕ} (h : AreaKept len dp p) (hoff : dsrOptHdrLen ≤ p.off) (hlong : 6 ≤ dp.optLength p)
    (mem : ℕ → UInt8) (me : InAddr) : SameFront p.off dp (rreqForward mem me dp p) := by
  obtain ⟨b, hb, -⟩ := h.buffer
  have hroom : 4 < dp.tailroom := by
    rw [h.tailroom]
    decide
  have hraw := rreqForward_raw h.live hroom hoff mem me hb
  have hlive := (rreqForward_optLength mem me h.live hroom hoff hlong).1
  obtain ⟨-, -, hgen⟩ := live_dh h.live
  obtain ⟨-, -, hgen'⟩ := live_dh hlive
  refine ⟨by rw [hraw, hb]; rfl, hgen'.symm.trans hgen, fun i hlo hi => ?_⟩
  have hfour : 4 ≤ i := hlo
  rw [byteAt_dh hraw, byteAt_dh hb, getD_writeAt_after (by rw [length_toBe16]; omega),
    getD_writeAt_before (by omega), getD_writeAt_before (by rw [rreqEnd]; omega)]
  split
  · rfl
  · exact getD_writeAt_before (by rw [optEnd]; omega) 0

end SameFront

section Step

variable {len : ℕ} {p : OptPtr} {dp dp₁ : DsrPkt} {s s₁ : DsrNode} {act : List DsrPktAction}
  (h : dsrOptRecvOne dp p s = .ok (dp₁, act) s₁) (hk : dp.numRreqOpts = 0 → AreaKept len dp p)
  (hoff : dsrOptHdrLen ≤ p.off)

include h hk hoff

theorem dsrOptRecvOne_front : SameFront p.off dp dp₁ := by
  by_cases hact : .forwardRreq ∈ act
  · obtain ⟨-, hnum, hlong, mem, dp₂, hcore, -, hnext⟩ := dsrOptRecvOne_forwarded h hact
    rw [show dp₁ = _ from hnext]
    have hlong₂ : 6 ≤ dp₂.optLength p := by
      rw [optLength_congr_dh (core_dh hcore) (congrArg DsrPkt.gen hcore :)]
      exact hlong
    exact (SameFront.core hcore p.off).trans (.rreqForward ((hk hnum).core hcore) hoff hlong₂ mem _) (Nat.le_refl _)
  · exact .touch (dsrOptRecvOne_touch h hact)

theorem dsrOptRecvOne_kept (off : ℕ) (hnum : dp₁.numRreqOpts = 0) : AreaKept len dp₁ { p with off := off } := by
  have hl := dsrOptRecvOne_numRreq h
  have hz : dp.numRreqOpts = 0 := by split at hl <;> omega
  by_cases hact : .forwardRreq ∈ act
  · have hfw := dsrOptRecvOne_grown h hact (hk hz).live (by rw [(hk hz).tailroom]; decide) hoff
    rw [if_pos ⟨hfw.type, hfw.promisc⟩] at hl
    omega
  · exact (hk hz).touch (dsrOptRecvOne_touch h hact) hoff off

end Step

theorem rrepOptDst_congr {p : OptPtr} {dp dp' : DsrPkt} (hlive : dp.live p = true) (hlive' : dp'.live p = true)
    (hlong : 5 ≤ dp.optLength p) (hlen : dp'.byteAt (p.off + 1) = dp.byteAt (p.off + 1))
    (hbytes : ∀ i, p.off + 4 ≤ i → i ≤ p.off + (dp.optLength p + 2) → dp'.byteAt i = dp.byteAt i) :
    rrepOptDst dp' p = rrepOptDst dp p := by
  have hsame : dp'.optLength p = dp.optLength p := by
    rw [DsrPkt.optLength, DsrPkt.optLength, fieldAt_live hlive, fieldAt_live hlive', hlen]
  have haddrs : rrepOptAddrsLen dp' p = rrepOptAddrsLen dp p := by rw [rrepOptAddrsLen, rrepOptAddrsLen, hsame]
  have hfield : ∀ j, 4 ≤ j → j ≤ dp.optLength p + 2 → dp'.fieldAt p j = dp.fieldAt p j := by
    intro j hlo hhi
    rw [fieldAt_live hlive, fieldAt_live hlive', hbytes _ (by omega) (by omega)]
  have hin : 4 + 4 * (rrepOptAddrsLen dp p / 4) + 3 ≤ dp.optLength p + 2 := by
    rw [rrepOptAddrsLen]
    omega
  rw [rrepOptDst, rrepOptDst, hsame, if_neg (by omega), if_neg (by omega), if_neg (by omega), if_neg (by omega),
    haddrs, DsrPkt.addrField, DsrPkt.addrField, hfield _ (by omega) (by omega), hfield _ (by omega) (by omega),
    hfield _ (by omega) (by omega), hfield _ (by omega) (by omega)]

theorem dsrOptRecvOne_reply {p : OptPtr} {dp dp₁ : DsrPkt} {s s₁ : DsrNode} {act : List DsrPktAction}
    (h : dsrOptRecvOne dp p s = .ok (dp₁, act) s₁) (ht : ReplyTaken dp p) :
    act = if dp.dst = s.ifaddr then [.sendBuffered] else [.forward] := by
  obtain ⟨⟨htype, hpr, hroom⟩, hlong⟩ := ht
  unfold dsrOptRecvOne at h
  rw [htype] at h
  dsimp only at h
  rw [if_neg (by rw [hpr]; exact Bool.false_ne_true)] at h
  unfold dsrRrepOptRecv at h
  rw [if_neg (by rw [hpr, Bool.false_or, decide_eq_true_eq]; omega)] at h
  split at h
  · next hshort => exact absurd hshort (Nat.not_lt.mpr hlong)
  obtain ⟨mem, s₂, hmem, h⟩ := bind_ok h
  cases hmem
  obtain ⟨me, s₃, hme, h⟩ := bind_ok h
  cases hme
  obtain ⟨_, s₄, -, h⟩ := bind_ok h
  obtain ⟨_, s₅, -, h⟩ := bind_ok h
  split at h
  · next hd =>
    cases h
    exact (if_pos hd).symm
  · next hd =>
    cases h
    exact (if_neg hd).symm

section Walk

variable {dsrLen l : ℕ} {p : OptPtr} {dp dp' : DsrPkt} {s s' : DsrNode} {tr : List Dispatch}

theorem Walked.front (h : Walked dsrLen l p dp s tr dp' s') : (dp.numRreqOpts = 0 → AreaKept dsrLen dp p) →
    dsrOptHdrLen ≤ p.off → SameFront p.off dp dp' := by
  induction h with
  | done _ => exact fun _ _ => .refl _ _
  | pad1 _ _ _ ih =>
    intro hk hoff
    refine (SameFront.refl _ _).trans (ih (fun hz => ?_) (Nat.le_trans hoff (Nat.le_add_right _ _)))
      (Nat.le_add_right _ _)
    exact ⟨(hk hz).live, (hk hz).tailroom, (hk hz).optsLen, (hk hz).pLen⟩
  | opt _ _ hone _ ih =>
    intro hk hoff
    exact (dsrOptRecvOne_front hone hk hoff).trans
      (ih (dsrOptRecvOne_kept hone hk hoff _) (Nat.le_trans hoff (Nat.le_add_right _ _))) (Nat.le_add_right _ _)

theorem Walked.replyDst (h : Walked dsrLen l p dp s tr dp' s') : (dp.numRreqOpts = 0 → AreaKept dsrLen dp p) →
    dp.live p = true → dsrOptHdrLen ≤ p.off →
    ∀ d ∈ tr, ReplyTaken d.before d.p → rrepOptDst dp' d.p = rrepOptDst d.before d.p := by
  induction h with
  | done _ => exact fun _ _ _ _ hd => absurd hd List.not_mem_nil
  | pad1 _ hp _ ih =>
    intro hk hlive hoff
    refine List.forall_mem_cons.mpr ⟨fun ht => ?_, ih (fun hz => ?_) hlive (Nat.le_trans hoff (Nat.le_add_right _ _))⟩
    · exact absurd (hp.symm.trans ht.1.1) (by decide)
    · exact ⟨(hk hz).live, (hk hz).tailroom, (hk hz).optsLen, (hk hz).pLen⟩
  | @opt l p dp s dp₁ act s₁ tr dp' s' _ _ hone hw ih =>
    intro hk hlive hoff
    have hfront := dsrOptRecvOne_front hone hk hoff
    have hkept := dsrOptRecvOne_kept hone hk hoff
    have hlive₁ : dp₁.live p = true := (hfront.live p).trans hlive
    have hfar : dsrOptHdrLen ≤ p.off + (dp₁.optLength p + 2) := Nat.le_trans hoff (Nat.le_add_right _ _)
    refine List.forall_mem_cons.mpr ⟨fun ht => ?_, ih (hkept _) hlive₁ hfar⟩
    have hact := dsrOptRecvOne_reply hone ht
    have htouch : Touch dp p dp₁ := dsrOptRecvOne_touch hone (by rw [hact]; split <;> decide)
    have hsame : dp₁.optLength p = dp.optLength p := htouch.optLength hlive
    have hrest := hw.front (hkept _) hfar
    have hfour : 4 ≤ p.off := hoff
    have hlive' : dp'.live p = true := (hrest.live p).trans hlive₁
    change rrepOptDst dp' p = rrepOptDst dp p
    refine rrepOptDst_congr hlive hlive' ht.2 ?_ fun i hlo hhi => ?_
    · rw [hrest.bytes _ (Nat.le_trans hfour (by omega)) (by dsimp only; omega), htouch.bytes _ fun _ => by omega]
    · rw [hrest.bytes _ (Nat.le_trans hfour (by omega)) (by dsimp only; omega), htouch.bytes _ fun _ => by omega]

theorem Walked.replyAct (h : Walked dsrLen l p dp s tr dp' s') : dsrOptHdrLen ≤ p.off → ∀ d ∈ tr,
    ReplyTaken d.before d.p → d.before.dst = s.ifaddr → .sendBuffered ∈ d.act := by
  induction h with
  | done _ => exact fun _ _ hd => absurd hd List.not_mem_nil
  | pad1 _ hp _ ih =>
    intro hoff
    refine List.forall_mem_cons.mpr ⟨fun ht => ?_, ih (Nat.le_trans hoff (Nat.le_add_right _ _))⟩
    exact absurd (hp.symm.trans ht.1.1) (by decide)
  | opt _ _ hone _ ih =>
    intro hoff
    refine List.forall_mem_cons.mpr ⟨fun ht hd => ?_, fun d hd => ?_⟩
    · have hact := dsrOptRecvOne_reply hone ht
      rw [if_pos hd] at hact
      exact hact ▸ List.mem_singleton_self _
    · rw [← (dsrOptRecvOne_later hoff hone).ifaddr]
      exact ih (Nat.le_trans hoff (Nat.le_add_right _ _)) d hd

theorem Walked.atRest {P : SendBufEntry → Prop} {T : InAddr → Prop} {s₀ : DsrNode}
    (h : Walked dsrLen l p dp s tr dp' s') : (∀ d ∈ tr, ReplyTaken d.before d.p → T (rrepOptDst d.before d.p)) →
    AtRest P T s₀ s → AtRest P T s₀ s' := by
  induction h with
  | done _ => exact fun _ hr => hr
  | pad1 _ _ _ ih => exact fun hT hr => ih (List.forall_mem_cons.mp hT).2 hr
  | opt _ _ hone _ ih =>
    intro hT hr
    obtain ⟨hT₁, hT₂⟩ := List.forall_mem_cons.mp hT
    exact ih hT₂ (wp_ok (dsrOptRecvOne_atRest hT₁ _ hr) hone)

end Walk

def Unawaited (a : InAddr) (s : DsrNode) : Prop := ∀ e ∈ s.sendBuf.head, e.dp.dst ≠ a

section Unawaited

variable {α : Type} {m : DsrM α} {r : α} {a : InAddr} {T : InAddr → Prop} {dp : DsrPkt} {s s' : DsrNode}

theorem Unawaited.rest (h : Unawaited a s) (hr : AtRest (fun _ => False) T s s') : Unawaited a s' :=
  fun e he => h e ((hr.sendBuf e he).resolve_right id)

theorem Unawaited.inert (h : Unawaited a s) (hm : Inert m) (hrun : m s = .ok r s') : Unawaited a s' := by
  have hs : Stocked (fun _ => False) (fun _ => True) s s' := wp_ok (hm _ _ s s (Stocked.refl _ _ s)) hrun
  exact fun e he => h e ((hs.sendBuf e he).resolve_right id)

theorem SendTurns.unawaited {evs : List SendBufEvent} (h : SendTurns a s evs s') : Unawaited a s' := by
  induction h with
  | done hnone =>
    have hall := List.find?_eq_none.mp (Option.map_eq_none_iff.mp hnone)
    exact fun e he hd => hall e he (decide_eq_true hd)
  | turn _ _ _ ih => exact ih

theorem sendBufSetVerdict_unawaited (h : sendBufSetVerdict .send a s = .ok () s') : Unawaited a s' := by
  obtain ⟨s₁, hloop, rfl, -⟩ := locked_ok h
  obtain ⟨t, s₂, hget, hloop⟩ := bind_ok hloop
  injection hget with _ hs
  subst hs
  obtain ⟨evs, hturns⟩ := sendBufSendLoop_ok _ hloop
  unfold release
  split <;> exact hturns.unawaited

theorem sendBuffered_unawaited {ps : List OptPtr} : ∀ {s : DsrNode}, sendBuffered dp ps s = .ok () s' →
    ∀ p ∈ ps, Unawaited (rrepOptDst dp p) s' := by
  induction ps with
  | nil => exact fun _ _ hp => absurd hp List.not_mem_nil
  | cons q ps ih =>
    intro s h
    obtain ⟨_, s₁, hone, h⟩ := bind_ok h
    exact List.forall_mem_cons.mpr ⟨(sendBufSetVerdict_unawaited hone).inert (.sendBuffered dp ps) h, ih h⟩

theorem dispatchLast_inert (dp : DsrPkt) (action : List DsrPktAction) : Inert (dispatchLast dp action) := by
  intro P T s₀
  refine Keeps.ite (fun _ => Keeps.ite (fun _ => Keeps.pure ()) fun _ => Inert.xmit _ _ P T s₀) fun _ => ?_
  refine Keeps.ite (fun _ => Inert.xmit _ _ P T s₀) fun _ => Keeps.ite (fun _ => Keeps.pure ()) fun _ => ?_
  exact Keeps.ite (fun _ => Inert.emit (fun _ he => by cases he) P T s₀) fun _ => Keeps.pure ()

theorem dispatch_unawaited {acts : List DsrPktAction} (hb : .sendBuffered ∈ acts)
    (h : dispatch dp acts dispatchOrder s = .ok () s') : ∀ p ∈ dp.rrepOpt, Unawaited (rrepOptDst dp p) s' := by
  rw [dispatch_order, if_pos hb] at h
  obtain ⟨_, s₁, hbuf, hlast⟩ := bind_ok h
  exact fun p hp => (sendBuffered_unawaited hbuf p hp).inert (dispatchLast_inert dp acts) hlast

end Unawaited

def RepliesOwn (s : DsrNode) : Input → Prop
  | .recv promisc skb => skb.iph.totLen ≤ skb.data.length + 4 * skb.iph.ihl →
      ∀ tr dp' s', RecvTrace (dsrPktRecv s.kmem promisc skb) s tr dp' s' → ∀ d ∈ tr, ReplyTaken d.before d.p →
        skb.iph.daddr = s.ifaddr ∨ Unawaited (rrepOptDst d.before d.p) d.node
  | _ => True

section Recv

variable {promisc : Bool} {skb : Skb} {dp' : DsrPkt} {s s₁ s' : DsrNode} {tr : List Dispatch}

theorem RecvTrace.protocol {mem : ℕ → UInt8} (h : RecvTrace (dsrPktRecv mem promisc skb) s tr dp' s') {d : Dispatch}
    (hd : d ∈ tr) : skb.iph.protocol = ipprotoDsr := by
  by_contra hne
  have hnone : (dsrPktRecv mem promisc skb).dh = none := dsrPktAlloc_dh_none hne
  have hlen : (dsrPktRecv mem promisc skb).optsLen = 0 := by
    rw [DsrPkt.optsLen, hnone]
  rw [RecvTrace, hlen] at h
  cases h with
  | done _ => exact absurd hd List.not_mem_nil
  | pad1 hg _ _ => omega
  | opt hg _ _ _ => omega

theorem Walked.node_unawaited {a : InAddr} {dsrLen l : ℕ} {p : OptPtr} {dp : DsrPkt}
    (h : Walked dsrLen l p dp s tr dp' s') (hs : Waiting (fun _ => True) s) (hl : s.held = []) :
    ∀ d ∈ tr, Unawaited a d.node → Unawaited a s' := by
  induction h with
  | done _ => exact fun _ hd => absurd hd List.not_mem_nil
  | pad1 hg hp hw ih =>
    refine List.forall_mem_cons.mpr ⟨fun ha => ?_, ih hs hl⟩
    exact ha.rest (T := fun _ => True) (hw.atRest (fun _ _ _ => trivial) (.start hs hl))
  | opt hg hp hone hw ih =>
    have h₁ := wp_ok (dsrOptRecvOne_atRest (P := fun _ => False) (T := fun _ => True) (fun _ => trivial) _
      (.start hs hl)) hone
    refine List.forall_mem_cons.mpr ⟨fun ha => ?_, ih h₁.waiting h₁.held⟩
    exact ha.rest (T := fun _ => True) (hw.atRest (fun _ _ _ => trivial) h₁)

theorem Walked.lastEnds {dsrLen l : ℕ} {p : OptPtr} {dp : DsrPkt} (h : Walked dsrLen l p dp s tr dp' s') :
    dp'.ends = dp.ends := by
  induction h with
  | done _ => rfl
  | pad1 _ _ _ ih => exact ih
  | opt _ _ hone _ ih => exact ih.trans (dsrOptRecvOne_ends hone)

theorem RecvTrace.released {mem : ℕ → UInt8} {d : Dispatch} (h : RecvTrace (dsrPktRecv mem promisc skb) s tr dp' s₁)
    (hd : d ∈ tr) (ht : ReplyTaken d.before d.p) (hme : skb.iph.daddr = s.ifaddr) {acts : List DsrPktAction}
    (hacts : ∀ a ∈ d.act, a ∈ acts) (hrun : dispatch dp' acts dispatchOrder s₁ = .ok () s') :
    Unawaited (rrepOptDst d.before d.p) s' := by
  have hprot := h.protocol hd
  have hkept := dsrPktRecv_areaKept hprot mem promisc
  have hdst : d.before.dst = s.ifaddr := by
    have hends := congrArg (·.2.2) (Walked.ends h d hd)
    exact (hends.trans (dsrPktAlloc_dsr mem hprot).dst).trans hme
  have hsend := hacts _ (Walked.replyAct h (Nat.le_refl _) d hd ht hdst)
  have hin : d.p ∈ dp'.rrepOpt := by
    have htaken : d.rrepTaken = true := decide_eq_true ht.1
    rw [rrep_counts.final h]
    exact List.mem_append_right _ (List.mem_map_of_mem (List.mem_filter.mpr ⟨hd, htaken⟩))
  rw [← Walked.replyDst h (fun _ => hkept) hkept.live (Nat.le_refl _) d hd ht]
  exact dispatch_unawaited hsend hrun d.p hin

theorem recv_released (hw : Waiting (fun _ => True) s) (hl : s.held = []) (hok : RepliesOwn s (.recv promisc skb))
    (hrun : (Input.recv promisc skb).handle s = .ok () s') {a : InAddr}
    (he : .discovery a .cancelled ∈ newEvents s s') : Unawaited a s' := by
  have hno : .discovery a .cancelled ∉ newEvents s s := by
    rw [newEvents, List.drop_length]
    exact List.not_mem_nil
  by_cases hlen : skb.iph.totLen ≤ skb.data.length + 4 * skb.iph.ihl
  · rw [recv_handle hlen] at hrun
    obtain ⟨me, s₀, hme, hrun⟩ := bind_ok hrun
    cases hme
    by_cases hown : ((dsrPktRecv s.kmem promisc skb).promiscRecv &&
        decide (s.ifaddr = (dsrPktRecv s.kmem promisc skb).src)) = true
    · rw [if_pos hown] at hrun
      cases hrun
      exact absurd he hno
    rw [if_neg hown] at hrun
    obtain ⟨r, s₁, hopt, hrun⟩ := bind_ok hrun
    obtain ⟨tr, htr, hact⟩ := dsrOptRecv_trace hopt
    change (if r.1.promiscRecv = true then pure () else dispatch r.1 r.2 dispatchOrder : DsrM Unit) s₁ = _ at hrun
    have hlast : ∀ T, Stocked (fun _ => False) T s₁ s' := by
      intro T
      split at hrun
      · cases hrun
        exact .refl _ T _
      · exact wp_ok (Inert.dispatch _ _ _ _ T s₁ s₁ (.refl _ T s₁)) hrun
    have hrest : AtRest (fun _ => False)
        (fun a => ∃ d ∈ tr, ReplyTaken d.before d.p ∧ rrepOptDst d.before d.p = a) s s₁ :=
      Walked.atRest htr (fun d hd ht => ⟨d, hd, ht, rfl⟩) (.start hw hl)
    obtain ⟨d, hd, ht, rfl⟩ := (hrest.cancels.trans (hlast _).out).drop _ he a rfl
    rcases hok hlen tr r.1 s₁ htr d hd ht with hmine | hun
    · have hpr : r.1.promiscRecv = false := by
        have hends := (congrArg Prod.fst (Walked.lastEnds htr) :).trans (congrArg Prod.fst (Walked.ends htr d hd)).symm
        exact hends.trans ht.1.2.1
      rw [if_neg (by rw [hpr]; exact Bool.false_ne_true)] at hrun
      refine htr.released hd ht hmine (fun a ha => ?_) hrun
      rw [hact]
      exact List.mem_append_right _ (List.mem_flatMap.mpr ⟨d, hd, ha⟩)
    · have hafter := Walked.node_unawaited htr hw hl d hd hun
      exact fun e he => hafter e (((hlast fun _ => True).sendBuf e he).resolve_right id)
  · change (do
      let mem ← kmalloc
      let dp := dsrPktRecv mem promisc skb
      if skb.data.length + 4 * skb.iph.ihl < skb.iph.totLen then pure () else dsrRecv dp : DsrM Unit) s = _ at hrun
    rw [bind_of_ok (show (kmalloc : DsrM _) s = .ok s.kmem s from rfl), if_pos (Nat.lt_of_not_le hlen)] at hrun
    cases hrun
    exact absurd he hno

end Recv

theorem handle_released {s s' : DsrNode} {i : Input} (hw : Waiting (fun _ => True) s) (hl : s.held = [])
    (hready : i.ready s) (hok : RepliesOwn s i) (hrun : i.handle s = .ok () s') {a : InAddr}
    (he : .discovery a .cancelled ∈ newEvents s s') : Unawaited a s' := by
  have hother : (∀ promisc skb, i ≠ .recv promisc skb) → Unawaited a s' := by
    intro hi
    have hr : AtRest (fun _ => True) (fun _ => False) s s := .start hw hl
    have hr' := wp_ok (handle_atRest hr i hready (fun _ _ => trivial) fun _ _ h => absurd h (hi _ _)) hrun
    exact (hr'.cancels.drop _ he a rfl).elim
  cases i with
  | recv promisc skb => exact recv_released hw hl hok hrun he
  | _ => exact hother nofun

def SearchExhausted (s : DsrNode) (d : InAddr) (n : ℕ) : Prop :=
  ∃ k status, n ≤ k ∧ s.out[k]? = some (.discovery d status) ∧ (status = .maxRexmt ∨ status = .evicted)

def Uncancelled (s : DsrNode) : Prop :=
  ∀ e ∈ s.sendBuf.head, ∀ k, e.born ≤ k → s.out[k]? ≠ some (.discovery e.dp.dst .cancelled)

theorem Uncancelled.step {s s' : DsrNode} {i : Input} (h : Uncancelled s) (hw : Waiting (fun _ => True) s)
    (hl : s.held = []) (hready : i.ready s) (hok : RepliesOwn s i) (hrun : i.handle s = .ok () s') :
    Uncancelled s' := by
  have hr : AtRest (fun e => s.out.length ≤ e.born) (fun _ => True) s s := .start hw hl
  have hr' := wp_ok (handle_atRest hr i hready (fun _ he => he) fun _ _ _ _ => trivial) hrun
  intro e he k hk hev
  rcases Nat.lt_or_ge k s.out.length with hlt | hge
  · rcases hr'.sendBuf e he with hold | hnew
    · obtain ⟨es, hes⟩ := hr'.cancels.grows
      rw [← hes, List.getElem?_append_left hlt] at hev
      exact h e hold k hk hev
    · omega
  · have hmem : .discovery e.dp.dst .cancelled ∈ newEvents s s' := by
      refine List.mem_of_getElem? (i := k - s.out.length) ?_
      rw [newEvents, List.getElem?_drop, Nat.add_sub_cancel' hge]
      exact hev
    exact handle_released hw hl hready hok hrun hmem e he rfl

theorem NodeReach.uncancelled {s : DsrNode} (h : NodeReach RepliesOwn s) : Uncancelled s := by
  induction h with
  | init _ _ _ _ _ _ _ => exact fun _ he => absurd he List.not_mem_nil
  | env _ _ _ _ _ _ ih => exact ih
  | step i hs hready hok hrun ih =>
    have hr := hs.atRest (fun _ => True) fun _ => True
    exact ih.step hr.waiting hr.held hready hok hrun

structure NoneStranded (s : DsrNode) : Prop where
  searched : ∀ e ∈ s.sendBuf.head, Searching s e.dp.dst ∨ SearchExhausted s e.dp.dst e.born
  released : ∀ i s', i.ready s → RepliesOwn s i → i.handle s = .ok () s' →
    ∀ a, .discovery a .cancelled ∈ newEvents s s' → Unawaited a s'

def ownReply : Skb :=
  { hSource := 3
    iph := { ihl := 5, totLen := 44, ttl := 63, protocol := ipprotoDsr, saddr := detourHost 4
             daddr := detourHost 9 }
    data := [0, 0, 0, 20, 96, 6, 0, 0, 10, 0, 0, 3, 1, 9, 0, 0, 10, 0, 0, 3, 10, 0, 0, 4] }

def awaiting : Option DsrNode := okState ((Input.startXmit strandedSkb).handle strandedStart)

theorem awaiting_reach {ok : DsrNode → Input → Prop} {s : DsrNode} (h : awaiting = some s)
    (hok : ok strandedStart (.startXmit strandedSkb)) : NodeReach ok s := by
  have hinit : NodeReach ok strandedStart := .init _ _ _ _ _ _ _
  exact hinit.step (.startXmit strandedSkb) trivial hok (okState_eq_some h)

def replied : Option DsrNode := awaiting.bind fun s => okState ((Input.recv false ownReply).handle s)

def cancelledFor (d : InAddr) : Event → Bool
  | .discovery a .cancelled => a = d
  | _ => false

theorem mem_cancelledFor {d : InAddr} {es : List Event} (h : es.any (cancelledFor d) = true) :
    .discovery d .cancelled ∈ es := by
  obtain ⟨e, he, hc⟩ := List.any_eq_true.mp h
  unfold cancelledFor at hc
  split at hc
  · next a =>
    obtain rfl := of_decide_eq_true hc
    exact he
  · cases hc

def relayedReply : Skb :=
  { hSource := 3
    iph := { ihl := 5, totLen := 52, ttl := 63, protocol := ipprotoDsr, saddr := detourHost 4
             daddr := detourHost 2 }
    data := [0, 0, 0, 28, 96, 10, 0, 4, 10, 0, 0, 3, 10, 0, 0, 9,
      1, 13, 0, 0, 10, 0, 0, 9, 10, 0, 0, 3, 10, 0, 0, 4] }

def exhausts : Event → Bool
  | .discovery _ .maxRexmt => true
  | .discovery _ .evicted => true
  | _ => false

end DsrUu
