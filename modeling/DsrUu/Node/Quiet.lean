import DsrUu.LinkCache.Sound
import DsrUu.Node.Lemmas

namespace DsrUu

open Effect

structure Quiet (I : DsrNode → Prop) : Prop where
  held : ∀ s h, I s → I { s with held := h }
  lc : ∀ s (op : LcOp) lc, op.unit → op.exec s.lc = some lc → I s → I { s with lc := lc }
  neighTbl : ∀ s t, I s → I { s with neighTbl := t }
  gratRrepTbl : ∀ s t, I s → I { s with gratRrepTbl := t }
  gratTimer : ∀ s t, I s → I { s with gratRrepTblTimer := t }
  ackTimer : ∀ s t, I s → I { s with ackTimer := t }

theorem keeps_read {α : Type} {I : DsrNode → Prop} (f : DsrNode → α) :
    Keeps I (do let s ← get; pure (f s) : DsrM α) := fun _ hs => hs

section Readers

variable {I : DsrNode → Prop}

theorem confVal_keeps (cv : ConfVal) : Keeps I (confVal cv) := keeps_read _

theorem confValToUsecs_keeps (cv : ConfVal) : Keeps I (confValToUsecs cv) := keeps_read _

theorem myAddr_keeps : Keeps I myAddr := keeps_read _

theorem gettime_keeps : Keeps I gettime := keeps_read _

theorem kmalloc_keeps : Keeps I kmalloc := keeps_read _

theorem ofOption_keeps {α : Type} (o : Option α) : Keeps I (ofOption o) := by
  cases o with
  | none => exact Keeps.throw Stop.oops
  | some a => exact Keeps.pure a

end Readers

namespace Quiet

variable {I : DsrNode → Prop} (h : Quiet I)

include h

theorem acquire (l : Lock) {s : DsrNode} (hs : I s) : I (acquire l s) := by
  unfold DsrUu.acquire
  split
  · exact h.held s _ hs
  · exact hs

theorem release (l : Lock) {s : DsrNode} (hs : I s) : I (release l s) := by
  unfold DsrUu.release
  split
  · exact h.held s _ hs
  · exact hs

theorem locked {α : Type} {l : Lock} {m : DsrM α} (hm : Keeps I m) : Keeps I (locked l m) := by
  intro s hs
  refine wp_of_ok fun a s' hok => ?_
  obtain ⟨s₁, hr, rfl, _⟩ := locked_ok hok
  exact h.release l (hm.run (h.acquire l hs) hr)

theorem dsrRtcFind (src dst : InAddr) : Keeps I (dsrRtcFind src dst) := by
  intro s hs
  refine wp_of_ok fun r s' hok => ?_
  rcases dsrRtcFind_ok hok with ⟨_, rfl⟩ | ⟨_, f, lc, hf, _, rfl⟩
  · exact hs
  · refine h.lc s (.srtFind (srtFlags s.kmem) src dst) lc trivial ?_ hs
    rw [LcOp.exec, hf, Option.map_some]

theorem dsrRtcFind_wp {src dst : InAddr} {s : DsrNode} (hs : I s)
    {Q : Option DsrSrt → DsrNode → Prop} (hnone : ∀ s', I s' → Q none s')
    (hsome : ∀ f lc srt, lcSrtFind (srtFlags s.kmem) src dst s.lc = some (f, lc) →
      f.srt = some srt → I { s with lc := lc } → Q (some srt) { s with lc := lc }) :
    wp (DsrUu.dsrRtcFind src dst) s Q fun _ => True := by
  refine wp_of_ok fun r s' hok => ?_
  have hs' := (h.dsrRtcFind src dst).run hs hok
  rcases dsrRtcFind_ok hok with ⟨rfl, _⟩ | ⟨_, f, lc, hf, rfl, rfl⟩
  · exact hnone s' hs'
  · cases hsrt : f.srt with
    | none => exact hnone _ hs'
    | some srt => exact hsome f lc srt hf hsrt hs'

theorem dsrRtcAdd (srt : DsrSrt) : Keeps I (dsrRtcAdd srt) := by
  refine Keeps.bind (confValToUsecs_keeps _) fun timeout => h.locked ?_
  refine Keeps.get_bind fun s hs => ?_
  exact h.lc s (.srtAdd s.now srt timeout) _ trivial rfl hs

theorem rtcLinkAdd (src dst : InAddr) : Keeps I (rtcLinkAdd src dst) := by
  refine Keeps.bind (confValToUsecs_keeps _) fun timeout => h.locked ?_
  refine Keeps.get_bind fun s hs => ?_
  exact h.lc s (.linkAdd s.now src dst timeout 0 1) _ rfl rfl hs

theorem rtcLinkDel (src dst : InAddr) : Keeps I (rtcLinkDel src dst) := by
  refine h.locked (Keeps.get_bind fun s hs => ?_)
  rw [wp_bind]
  cases hd : lcLinkDel src dst s.lc with
  | none => trivial
  | some lc => exact h.lc s (.linkDel src dst) lc trivial hd hs

theorem lcFlushLocked : Keeps I lcFlushLocked := by
  refine h.locked (Keeps.get_bind fun s hs => ?_)
  exact h.lc s .flush _ trivial rfl hs

theorem neighTblFind (addr : InAddr) : Keeps I (neighTblFind addr) := h.locked (keeps_read _)

theorem neighTblAdd (addr : InAddr) (hSource : HwAddr) : Keeps I (neighTblAdd addr hSource) := by
  refine Keeps.bind (h.neighTblFind addr) fun n => ?_
  cases n with
  | some _ => exact Keeps.pure ()
  | none => exact h.locked (Keeps.get_bind fun s hs => h.neighTbl s _ hs)

theorem neighTblQuery (addr : InAddr) : Keeps I (neighTblQuery addr) :=
  Keeps.bind (confValToUsecs_keeps _) fun _ =>
    Keeps.bind (h.neighTblFind addr) fun _ => Keeps.pure _

theorem neighTblFindDo (addr : InAddr) (f : Neighbor → Neighbor) :
    Keeps I (neighTblFindDo addr f) :=
  h.locked (Keeps.get_bind fun s hs => h.neighTbl s _ hs)

theorem neighTblSetAckReqTime (addr : InAddr) : Keeps I (neighTblSetAckReqTime addr) :=
  Keeps.bind gettime_keeps fun _ => h.neighTblFindDo addr _

theorem neighTblIdInc (addr : InAddr) : Keeps I (neighTblIdInc addr) := h.neighTblFindDo addr _

theorem neighTblSetRto (addr : InAddr) (rtt : ℕ) : Keeps I (neighTblSetRto addr rtt) :=
  h.neighTblFindDo addr _

theorem setAckTimer (t : Option Timeval) : Keeps I (setAckTimer t) :=
  fun s hs => h.ackTimer s t hs

theorem gratRrepTblFind (src prevHop : InAddr) : Keeps I (gratRrepTblFind src prevHop) :=
  h.locked (keeps_read _)

theorem setGratTimer (t : Option Timeval) : Keeps I (setGratTimer t) :=
  fun s hs => h.gratTimer s t hs

theorem gratSetTimer : Keeps I gratSetTimer := by
  refine h.locked (Keeps.get_bind fun s hs => ?_)
  cases s.gratRrepTbl.head with
  | nil => trivial
  | cons e es => exact h.gratTimer s _ hs

theorem gratRrepTblAdd (src prevHop : InAddr) : Keeps I (gratRrepTblAdd src prevHop) := by
  refine Keeps.bind (h.gratRrepTblFind src prevHop) fun found => Keeps.ite (fun _ => Keeps.pure ()) fun _ => ?_
  refine Keeps.bind gettime_keeps fun now => Keeps.bind (confValToUsecs_keeps _) fun holdoff => ?_
  refine Keeps.bind kmalloc_keeps fun mem => Keeps.bind (h.setGratTimer none) fun _ => ?_
  refine Keeps.bind (h.locked ?_) fun _ => h.gratSetTimer
  exact Keeps.get_bind fun s hs => h.gratRrepTbl s _ hs

theorem gratRrepTblTimeout : Keeps I gratRrepTblTimeout := by
  refine Keeps.bind (h.setGratTimer none) fun _ => Keeps.bind (h.locked ?_) fun _ => ?_
  · exact Keeps.get_bind fun s hs => h.gratRrepTbl s _ hs
  · refine Keeps.get_bind fun s hs => ?_
    split
    · exact hs
    · exact h.gratSetTimer s hs

end Quiet

end DsrUu
