import DsrUu.Node.Quiet
import DsrUu.Pkt.Lemmas

namespace DsrUu

open Effect

structure Light (I : DsrNode → Prop) : Prop where
  held : ∀ s h, I s → I { s with held := h }
  neighTbl : ∀ s t, I s → I { s with neighTbl := t }
  gratRrepTbl : ∀ s t, I s → I { s with gratRrepTbl := t }
  gratTimer : ∀ s t, I s → I { s with gratRrepTblTimer := t }
  out : ∀ s es, I s → I { s with out := es }

theorem optHdrAdd_requestAck {dp dp' : DsrPkt} {len prot : ℕ} (h : dsrOptHdrAdd dp len prot = some dp') :
    dp'.requestAck = dp.requestAck := by
  rw [dsrOptHdrAdd, Option.ite_none_left_eq_some] at h
  obtain ⟨-, h⟩ := h
  cases h
  exact (write_same dp _ _).requestAck

theorem srtOptAdd_requestAck {dp dp' : DsrPkt} {off len salv : ℕ} {srt : DsrSrt}
    (h : dsrSrtOptAdd dp off len salv srt = some dp') : dp'.requestAck = dp.requestAck := by
  rw [dsrSrtOptAdd, Option.ite_none_left_eq_some] at h
  obtain ⟨-, h⟩ := h
  cases h
  exact (write_same dp _ _).requestAck

theorem rrepOptAdd_requestAck {dp dp' : DsrPkt} {off len : ℕ} {srt : DsrSrt}
    (h : dsrRrepOptAdd dp off len srt = some dp') : dp'.requestAck = dp.requestAck := by
  rw [dsrRrepOptAdd, Option.ite_none_left_eq_some] at h
  obtain ⟨-, h⟩ := h
  cases h
  unfold dsrRrepAddSrt
  rw [(write_same _ _ _).requestAck, (write_same _ _ _).requestAck, (write_same dp _ _).requestAck]

theorem rreqOptAdd_requestAck {dp dp' : DsrPkt} {off len seqno : ℕ} {target : InAddr}
    (h : dsrRreqOptAdd dp off len target seqno = some dp') : dp'.requestAck = dp.requestAck := by
  rw [dsrRreqOptAdd, Option.ite_none_left_eq_some] at h
  obtain ⟨-, h⟩ := h
  cases h
  exact (write_same dp _ _).requestAck

theorem rrepPkt_requestAck {mem : ℕ → UInt8} {me : InAddr} {srt srtToMe : DsrSrt} {dp : DsrPkt}
    (h : rrepPkt mem me srt srtToMe = some dp) : dp.requestAck = false := by
  unfold rrepPkt at h
  obtain ⟨dp₁, h₁, h⟩ := Option.bind_eq_some_iff.mp h
  obtain ⟨dp₂, h₂, h⟩ := Option.bind_eq_some_iff.mp h
  obtain ⟨dp₃, h₃, rfl⟩ := Option.map_eq_some_iff.mp h
  exact (rrepOptAdd_requestAck h₃).trans ((srtOptAdd_requestAck h₂).trans (optHdrAdd_requestAck h₁))

theorem rreqPkt_requestAck {mem : ℕ → UInt8} {me target : InAddr} {ttl seqno : ℕ} {dp : DsrPkt}
    (h : rreqPkt mem me target ttl seqno = some dp) : dp.requestAck = false := by
  unfold rreqPkt at h
  obtain ⟨dp₁, h₁, h⟩ := Option.bind_eq_some_iff.mp h
  obtain ⟨dp₂, h₂, rfl⟩ := Option.map_eq_some_iff.mp h
  exact (rreqOptAdd_requestAck h₂).trans (optHdrAdd_requestAck h₁)

namespace Light

variable {I : DsrNode → Prop} (h : Light I)

include h

theorem locked {α : Type} {l : Lock} {m : DsrM α} (hm : Keeps I m) : Keeps I (locked l m) := by
  intro s hs
  refine wp_of_ok fun a s' hok => ?_
  obtain ⟨s₁, hr, rfl, _⟩ := locked_ok hok
  have hs₀ : I (acquire l s) := by
    unfold acquire
    split
    · exact h.held s _ hs
    · exact hs
  have hs₁ := hm.run hs₀ hr
  unfold release
  split
  · exact h.held s₁ _ hs₁
  · exact hs₁

theorem emit (e : Event) : Keeps I (emit e) := fun s hs => h.out s _ hs

theorem neighTblFind (addr : InAddr) : Keeps I (neighTblFind addr) := h.locked (keeps_read _)

theorem neighTblAdd (addr : InAddr) (hSource : HwAddr) : Keeps I (neighTblAdd addr hSource) := by
  refine Keeps.bind (h.neighTblFind addr) fun n => ?_
  cases n with
  | some _ => exact Keeps.pure ()
  | none => exact h.locked (Keeps.get_bind fun s hs => h.neighTbl s _ hs)

theorem dsrHwHeaderCreate (dp : DsrPkt) : Keeps I (dsrHwHeaderCreate dp) := by
  unfold DsrUu.dsrHwHeaderCreate
  split
  · exact Keeps.pure _
  · refine Keeps.bind kmalloc_keeps fun mem => Keeps.bind ?_ fun info => Keeps.pure _
    exact Keeps.bind (confValToUsecs_keeps _) fun _ => Keeps.bind (h.neighTblFind _) fun _ => Keeps.pure _

theorem gratRrepTblFind (src prevHop : InAddr) : Keeps I (gratRrepTblFind src prevHop) :=
  h.locked (keeps_read _)

theorem setGratTimer (t : Option Timeval) : Keeps I (setGratTimer t) := fun s hs => h.gratTimer s t hs

theorem gratSetTimer : Keeps I gratSetTimer := by
  refine h.locked (Keeps.get_bind fun s hs => ?_)
  cases s.gratRrepTbl.head with
  | nil => trivial
  | cons e es => exact h.gratTimer s _ hs

theorem gratRrepTblAdd (src prevHop : InAddr) : Keeps I (gratRrepTblAdd src prevHop) := by
  refine Keeps.bind (h.gratRrepTblFind src prevHop) fun found => Keeps.ite (fun _ => Keeps.pure ()) fun _ => ?_
  refine Keeps.bind gettime_keeps fun now => Keeps.bind (confValToUsecs_keeps _) fun holdoff => ?_
  refine Keeps.bind kmalloc_keeps fun mem => Keeps.bind (h.setGratTimer none) fun _ => ?_
  refine Keeps.bind (h.locked ?_) fun _ => h.gratSetTimer
  exact Keeps.get_bind fun s hs => h.gratRrepTbl s _ hs

theorem emits {queue : XmitSite → DsrPkt → DsrM Unit} (hq : Emits queue) (site : XmitSite)
    (dp : DsrPkt) : Keeps I (queue site dp) := by
  refine fun s hs => wp_of_ok fun _ s' hrun => ?_
  cases hq site dp s s' hrun with
  | kept => exact hs
  | sent hw => exact h.out s _ hs

theorem xmit (site : XmitSite) {dp : DsrPkt} (hack : dp.requestAck = false) : Keeps I (xmit site dp) := by
  intro s hs
  rw [wp_congr (xmit_eq site dp s)]
  unfold xmitVia
  rw [wp_bind, wp_get, hack]
  exact Keeps.bind (h.emit _) (fun _ => h.emits (buildQueue_emits _) site dp) s hs

theorem xmitPkt (site : XmitSite) {dp : Option DsrPkt} (hack : ∀ dp' ∈ dp, dp'.requestAck = false) :
    Keeps I (xmitPkt DsrUu.xmit site dp) := by
  cases dp with
  | none => exact Keeps.pure ()
  | some dp => exact h.xmit site (hack dp rfl)

theorem dsrRrepSend (srt srtToMe : DsrSrt) : Keeps I (dsrRrepSend DsrUu.xmit srt srtToMe) :=
  Keeps.bind kmalloc_keeps fun _ => Keeps.bind myAddr_keeps fun _ =>
    h.xmitPkt _ fun _ hp => rrepPkt_requestAck hp

end Light

end DsrUu
