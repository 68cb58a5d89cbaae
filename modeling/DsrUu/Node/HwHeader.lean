import DsrUu.Maint.Run
import DsrUu.Node.Arrival
import DsrUu.Node.RecvClosed
import Mathlib.Data.Finset.Card
import Mathlib.Data.Finset.Dedup
import Mathlib.Data.List.Induction

namespace DsrUu

open Effect

section FirstKept

variable {K V : Type} [DecidableEq K]

def distinctKeys (adds : List (K × V)) : ℕ := (adds.map Prod.fst).toFinset.card

def FirstKept (cap : ℕ) (adds : List (K × V)) (k : K) (v : V) : Prop :=
  ∃ pre post, adds = pre ++ (k, v) :: post ∧ k ∉ pre.map Prod.fst ∧ distinctKeys pre < cap

variable {cap : ℕ} {adds : List (K × V)} {k a : K} {v w : V}

theorem distinctKeys_snoc : distinctKeys (adds ++ [(a, w)]) =
    if a ∈ adds.map Prod.fst then distinctKeys adds else distinctKeys adds + 1 := by
  have hset : ((adds ++ [(a, w)]).map Prod.fst).toFinset = insert a (adds.map Prod.fst).toFinset := by
    ext x
    simp
  unfold distinctKeys
  rw [hset]
  split
  · next h => rw [Finset.insert_eq_of_mem (List.mem_toFinset.mpr h)]
  · next h => rw [Finset.card_insert_of_notMem fun hm => h (List.mem_toFinset.mp hm)]

theorem FirstKept.mem (h : FirstKept cap adds k v) : k ∈ adds.map Prod.fst := by
  obtain ⟨pre, post, rfl, -, -⟩ := h
  simp

theorem FirstKept.snoc (h : FirstKept cap adds k v) (x : K × V) :
    FirstKept cap (adds ++ [x]) k v := by
  obtain ⟨pre, post, rfl, hk, hc⟩ := h
  exact ⟨pre, post ++ [x], by simp, hk, hc⟩

theorem firstKept_snoc : FirstKept cap (adds ++ [(a, w)]) k v ↔
    FirstKept cap adds k v ∨ (k = a ∧ v = w ∧ a ∉ adds.map Prod.fst ∧ distinctKeys adds < cap) := by
  constructor
  · rintro ⟨pre, post, heq, hk, hc⟩
    rcases List.eq_nil_or_concat post with rfl | ⟨init, x, rfl⟩
    · obtain ⟨rfl, hx⟩ := List.append_inj' heq rfl
      cases hx
      exact Or.inr ⟨rfl, rfl, hk, hc⟩
    · rw [List.concat_eq_append, ← List.cons_append, ← List.append_assoc] at heq
      obtain ⟨rfl, -⟩ := List.append_inj' heq rfl
      exact Or.inl ⟨pre, init, rfl, hk, hc⟩
  · rintro (h | ⟨rfl, rfl, hk, hc⟩)
    · exact h.snoc _
    · exact ⟨adds, [], rfl, hk, hc⟩

theorem exists_firstKept (hk : k ∈ adds.map Prod.fst) (hc : distinctKeys adds < cap) :
    ∃ v, FirstKept cap adds k v := by
  induction adds using List.reverseRecOn with
  | nil => cases hk
  | append_singleton adds x ih =>
    obtain ⟨a, w⟩ := x
    rw [distinctKeys_snoc] at hc
    by_cases hm : k ∈ adds.map Prod.fst
    · have hlt : distinctKeys adds < cap := by
        split at hc
        · exact hc
        · omega
      obtain ⟨v, hv⟩ := ih hm hlt
      exact ⟨v, hv.snoc _⟩
    · have hka : k = a := by simpa [hm] using hk
      subst hka
      rw [if_neg hm] at hc
      exact ⟨w, firstKept_snoc.mpr (Or.inr ⟨rfl, rfl, hm, by omega⟩)⟩

end FirstKept

def hwEntries (t : Tbl Neighbor) : List (InAddr × HwAddr) := t.head.map fun n => (n.addr, n.hwAddr)

def hwRecorded (t : Tbl Neighbor) (addr : InAddr) : Option HwAddr :=
  (t.find fun n => n.addr = addr).map Neighbor.hwAddr

theorem hwRecorded_eq (t : Tbl Neighbor) (addr : InAddr) :
    hwRecorded t addr = ((hwEntries t).find? fun e => e.1 = addr).map Prod.snd := by
  unfold hwRecorded hwEntries Tbl.find
  rw [List.find?_map, Option.map_map]
  rfl

theorem hwEntries_findDo {crit : Neighbor → Bool} {f : Neighbor → Neighbor}
    (hf : ∀ n, (f n).addr = n.addr ∧ (f n).hwAddr = n.hwAddr) (t : Tbl Neighbor) :
    hwEntries (t.findDo crit f) = hwEntries t := by
  unfold hwEntries Tbl.findDo
  refine Tbl.updateFirst_map (fun n => (n.addr, n.hwAddr)) crit f (fun n => ?_) t.head
  rw [(hf n).1, (hf n).2]

structure SameHw (t t' : Tbl Neighbor) : Prop where
  entries : hwEntries t' = hwEntries t
  len : t'.len = t.len
  maxLen : t'.maxLen = t.maxLen

namespace SameHw

variable {t t₁ t' : Tbl Neighbor}

theorem refl (t : Tbl Neighbor) : SameHw t t := ⟨rfl, rfl, rfl⟩

theorem trans (h₁ : SameHw t t₁) (h₂ : SameHw t₁ t') : SameHw t t' :=
  ⟨h₂.entries.trans h₁.entries, h₂.len.trans h₁.len, h₂.maxLen.trans h₁.maxLen⟩

theorem of_eq (h : t' = t) : SameHw t t' := by
  rw [h]
  exact refl t

theorem recorded (h : SameHw t t') (addr : InAddr) : hwRecorded t' addr = hwRecorded t addr := by
  rw [hwRecorded_eq, hwRecorded_eq, h.entries]

theorem findDo {f : Neighbor → Neighbor}
    (hf : ∀ n, (f n).addr = n.addr ∧ (f n).hwAddr = n.hwAddr) (crit : Neighbor → Bool) :
    SameHw t (t.findDo crit f) :=
  ⟨hwEntries_findDo hf t, rfl, rfl⟩

theorem issue (s : DsrNode) (nxtHop : InAddr) : SameHw s.neighTbl (neighTblIssue s nxtHop) :=
  (findDo (f := fun n => { n with lastAckReq := s.now }) (fun _ => ⟨rfl, rfl⟩) _).trans
    (findDo (f := fun n => { n with id := (n.id + 1) % 65536 }) (fun _ => ⟨rfl, rfl⟩) _)

theorem acked (s : DsrNode) (nxtHop : InAddr) (id : ℕ) :
    SameHw s.neighTbl (maintBufAcked s nxtHop id).neighTbl := by
  unfold maintBufAcked
  dsimp only
  split
  · exact findDo (f := rtoCalc _) (fun _ => ⟨rfl, rfl⟩) _
  · exact refl _

end SameHw

theorem MaintPut.sameHw {put : Tbl MaintEntry → MaintEntry → Prop} {c : MaintCall} {s s' : DsrNode}
    (h : MaintPut put c s s') : SameHw s.neighTbl s'.neighTbl := by
  induction h with
  | before ha _ ih => exact (SameHw.of_eq ha.neighTbl).trans ih
  | after _ ha ih => exact ih.trans (.of_eq ha.neighTbl)
  | expired _ _ _ ih => exact ih
  | drop _ _ _ _ _ ih => exact ih
  | giveUp _ _ _ _ _ _ _ ih₁ ih₂ ih₃ => exact ih₁.trans (ih₂.trans ih₃)
  | rexmt _ _ _ _ _ ih => exact ih
  | salvaged _ ih => exact ih
  | loopNext _ _ _ ih₁ ih₂ => exact ih₁.trans ih₂
  | request _ _ ih => exact ih
  | holdoff _ _ _ _ ih => exact ih
  | due _ _ _ _ ih => exact (SameHw.issue _ _).trans ih
  | enqueued _ _ ih => exact ih
  | _ => exact .refl _

def MaintInput.learned : MaintInput → List (InAddr × HwAddr)
  | .neighAdd addr hwAddr => [(addr, hwAddr)]
  | _ => []

theorem MaintStepPut.sameHw {put : Tbl MaintEntry → MaintEntry → Prop} {i : MaintInput} {s s' : DsrNode}
    (h : MaintStepPut put i s s') (hi : i.learned = []) : SameHw s.neighTbl s'.neighTbl := by
  cases h with
  | apart ha => exact .of_eq ha.neighTbl
  | add h => exact h.sameHw
  | ack _ h => exact (SameHw.acked _ _ _).trans h.sameHw
  | rerr h => exact h.sameHw
  | ackTimer h => exact h.sameHw
  | neighAdd _ => cases hi
  | setMaxLen => exact .refl _

inductive HwRun : List (InAddr × HwAddr) → DsrNode → Prop
  | init (ifaddr : InAddr) (confvals : ConfVal → ℕ) (locking : Bool) (budget : ℕ) (now : Timeval)
      (kmem : ℕ → UInt8) (rreqSeqno : ℕ) :
      HwRun [] (dsrNodeInit ifaddr confvals locking budget now kmem rreqSeqno)
  | env {adds s s'} : HwRun adds s → SameHw s.neighTbl s'.neighTbl → HwRun adds s'
  | step {adds s s'} (i : MaintInput) : HwRun adds s → i.handle s = .ok () s' →
      HwRun (adds ++ i.learned) s'
  | xmit {adds s s'} (site : XmitSite) (dp : DsrPkt) : HwRun adds s → xmit site dp s = .ok () s' →
      HwRun adds s'

structure NeighTblHolds (adds : List (InAddr × HwAddr)) (t : Tbl Neighbor) : Prop where
  recorded : ∀ a hw, hwRecorded t a = some hw ↔ FirstKept neighTblMaxLen adds a hw
  len : t.len = min neighTblMaxLen (distinctKeys adds)
  maxLen : t.maxLen = neighTblMaxLen

namespace NeighTblHolds

variable {adds : List (InAddr × HwAddr)} {s s' : DsrNode} {a : InAddr} {hw : HwAddr}

theorem same {t t' : Tbl Neighbor} (h : NeighTblHolds adds t) (hs : SameHw t t') :
    NeighTblHolds adds t' := by
  refine ⟨fun a hw => ?_, hs.len.trans h.len, hs.maxLen.trans h.maxLen⟩
  rw [hs.recorded]
  exact h.recorded a hw

theorem init : NeighTblHolds [] (Tbl.init neighTblMaxLen) := by
  refine ⟨fun a hw => ⟨fun h => (by cases h), ?_⟩, rfl, rfl⟩
  rintro ⟨pre, post, heq, -, -⟩
  simp at heq

theorem known (h : NeighTblHolds adds s.neighTbl) {n : Neighbor}
    (hf : s.neighTbl.find (fun n => n.addr = a) = some n) :
    NeighTblHolds (adds ++ [(a, hw)]) s.neighTbl := by
  have hkept : FirstKept neighTblMaxLen adds a n.hwAddr :=
    (h.recorded a _).mp (by rw [hwRecorded, hf]; rfl)
  refine ⟨fun b hwb => ?_, ?_, h.maxLen⟩
  · rw [firstKept_snoc, h.recorded]
    constructor
    · exact Or.inl
    · rintro (hb | ⟨-, -, hm, -⟩)
      · exact hb
      · exact absurd hkept.mem hm
  · rw [distinctKeys_snoc, if_pos hkept.mem]
    exact h.len

theorem refused (h : NeighTblHolds adds s.neighTbl) (hfull : s.neighTbl.maxLen ≤ s.neighTbl.len) :
    NeighTblHolds (adds ++ [(a, hw)]) s.neighTbl := by
  have hlen := h.len
  rw [h.maxLen] at hfull
  have hcard : neighTblMaxLen ≤ distinctKeys adds := by omega
  refine ⟨fun b hwb => ?_, ?_, h.maxLen⟩
  · rw [firstKept_snoc, h.recorded]
    constructor
    · exact Or.inl
    · rintro (hb | ⟨-, -, -, hlt⟩)
      · exact hb
      · omega
  · rw [distinctKeys_snoc]
    split <;> omega

theorem recorded_added (hroom : s.neighTbl.len < s.neighTbl.maxLen) (b : InAddr) :
    hwRecorded (neighTblAdded s a hw).neighTbl b =
      if a = b then some hw else hwRecorded s.neighTbl b := by
  have htbl : hwEntries (neighTblAdded s a hw).neighTbl = (a, hw) :: hwEntries s.neighTbl := by
    unfold neighTblAdded Tbl.add
    rw [if_neg (by omega)]
    cases hs : s.neighTbl.head <;> simp [hwEntries, Tbl.insertBefore, neighTblCreate, hs]
  rw [hwRecorded_eq, hwRecorded_eq, htbl, List.find?_cons]
  by_cases hab : a = b <;> simp [hab]

theorem added (h : NeighTblHolds adds s.neighTbl)
    (hf : s.neighTbl.find (fun n => n.addr = a) = none) :
    NeighTblHolds (adds ++ [(a, hw)]) (neighTblAdded s a hw).neighTbl := by
  rcases Nat.lt_or_ge s.neighTbl.len s.neighTbl.maxLen with hroom | hfull
  · have hlen := h.len
    have hlt : distinctKeys adds < neighTblMaxLen := by
      rw [h.maxLen] at hroom
      omega
    have hnew : a ∉ adds.map Prod.fst := by
      intro hm
      obtain ⟨v, hv⟩ := exists_firstKept hm hlt
      have hrec := (h.recorded a v).mpr hv
      rw [hwRecorded, hf] at hrec
      cases hrec
    refine ⟨fun b hwb => ?_, ?_, ?_⟩
    · rw [recorded_added hroom, firstKept_snoc, ← h.recorded]
      by_cases hab : a = b
      · subst hab
        rw [if_pos rfl, hwRecorded, hf]
        simp [hnew, hlt, eq_comm]
      · rw [if_neg hab]
        simp [Ne.symm hab]
    · rw [distinctKeys_snoc, if_neg hnew]
      unfold neighTblAdded Tbl.add
      rw [if_neg (by omega)]
      dsimp only [Option.getD_some]
      omega
    · unfold neighTblAdded Tbl.add
      rw [if_neg (by omega)]
      exact h.maxLen
  · have hsame : (neighTblAdded s a hw).neighTbl = s.neighTbl := by
      unfold neighTblAdded Tbl.add
      rw [if_pos hfull]
      rfl
    rw [hsame]
    exact h.refused hfull

theorem neighTblAdd (h : NeighTblHolds adds s.neighTbl) (hrun : neighTblAdd a hw s = .ok () s') :
    NeighTblHolds (adds ++ [(a, hw)]) s'.neighTbl := by
  rcases neighTblAdd_ok hrun with ⟨⟨n, hf⟩, rfl⟩ | ⟨hf, rfl⟩
  · exact h.known hf
  · exact h.added hf

theorem step {i : MaintInput} (h : NeighTblHolds adds s.neighTbl) (hrun : i.handle s = .ok () s') :
    NeighTblHolds (adds ++ i.learned) s'.neighTbl := by
  cases hi : i.learned with
  | nil =>
    rw [List.append_nil]
    exact h.same ((MaintInput.step hrun).sameHw hi)
  | cons x xs =>
    cases i <;> cases hi
    exact h.neighTblAdd hrun

end NeighTblHolds

theorem HwRun.holds {adds : List (InAddr × HwAddr)} {s : DsrNode} (h : HwRun adds s) :
    NeighTblHolds adds s.neighTbl := by
  induction h with
  | init => exact .init
  | env _ hs ih => exact ih.same hs
  | step i _ hrun ih => exact ih.step hrun
  | xmit site dp _ hrun ih => exact ih.same (xmit_maint _ _ _ _ hrun).sameHw

theorem dsrAckReqOptAdd_dst (mem : ℕ → UInt8) (dp : DsrPkt) (id : ℕ) :
    (dsrAckReqOptAdd mem dp id).dst = dp.dst := by
  unfold dsrAckReqOptAdd
  split
  · exact (writeField_same _ _ _ _).dst
  · dsimp only
    split
    · rw [(write_same _ _ _).dst, (write_same _ _ _).dst]
      rfl
    · split
      · rfl
      · next dp' off he =>
        rw [(write_same _ _ _).dst, (write_same _ _ _).dst]
        unfold dsrPktAllocOptsExpand at he
        split at he
        · cases he
        · split at he
          · cases he
            rfl
          · cases he
            exact (write_same _ _ _).dst

theorem AckReqAdded.dst {dp dp' : DsrPkt} (h : AckReqAdded dp dp') : dp'.dst = dp.dst := by
  cases h with
  | same => rfl
  | add mem id => exact dsrAckReqOptAdd_dst mem dp id

theorem AckReqAdded.nxtHop {dp dp' : DsrPkt} (h : AckReqAdded dp dp') : dp'.nxtHop = dp.nxtHop := by
  cases h with
  | same => rfl
  | add mem id => exact dsrAckReqOptAdd_nxtHop mem dp id

theorem anyMaintClosed : MaintClosed (fun _ => True) (fun _ _ => True) fun _ _ _ => True :=
  any_recvClosed.toMaintClosed

def hwDestOf (s : DsrNode) (dp : DsrPkt) : Option HwAddr :=
  if dp.dst = dsrBroadcast then none
  else some ((hwRecorded s.neighTbl dp.nxtHop).getD (s.kmem 0).toNat)

theorem dsrHwHeaderCreate_dest {dp : DsrPkt} {s s' : DsrNode} {r : Option HwAddr}
    (h : dsrHwHeaderCreate dp s = .ok r s') : s' = s ∧ r = hwDestOf s dp := by
  refine ⟨dsrHwHeaderCreate_ok h, ?_⟩
  unfold dsrHwHeaderCreate at h
  unfold hwDestOf
  split at h
  · next hb =>
    cases h
    rw [if_pos hb]
  · next hb =>
    obtain ⟨mem, s₁, hk, h⟩ := bind_ok h
    cases hk
    obtain ⟨info, s₂, hq, h⟩ := bind_ok h
    obtain ⟨rfl, rto, rfl⟩ := neighTblQuery_ok hq
    cases h
    rw [if_neg hb, hwRecorded, Option.map_map]
    rfl

theorem nsPacketDest_ok {dp : DsrPkt} {s s' : DsrNode} {r : Option (Option HwAddr)}
    (hu : dp.dst ≠ dsrBroadcast) (h : nsPacketDest dp s = .ok r s') :
    r = (hwRecorded s.neighTbl dp.nxtHop).map some := by
  unfold nsPacketDest at h
  rw [if_neg hu] at h
  obtain ⟨info, s₁, hq, h⟩ := bind_ok h
  obtain ⟨rfl, rto, rfl⟩ := neighTblQuery_ok hq
  unfold hwRecorded
  cases hf : s₁.neighTbl.find fun n => n.addr = dp.nxtHop with
  | none =>
    rw [hf] at h
    cases h
    rfl
  | some n =>
    rw [hf] at h
    cases h
    rfl

structure Queued (s : DsrNode) (site : XmitSite) (dp : DsrPkt) (frame : Option Frame) (s' : DsrNode) :
    Prop where
  out : ∃ b, s'.out = s.out ++ b ++ (frame.map (Event.send site)).toList
  isSome : frame.isSome = s.slaveDev
  frameOf : ∀ f ∈ frame, FrameOf dp f
  dest : ∀ f ∈ frame, f.hwDest = hwDestOf s dp

theorem dsrDevSend_queued {site : XmitSite} {dp dp' : DsrPkt} {s s₁ s' : DsrNode}
    (hdp : AckReqAdded dp dp') (hsame : SameHw s.neighTbl s₁.neighTbl) (hlater : Later s s₁)
    (h : devQueueXmit site dp' s₁ = .ok () s') : ∃ frame, Queued s site dp frame s' := by
  obtain ⟨b, hb⟩ := hlater.out
  obtain ⟨t, s₂, hg, h⟩ := bind_ok h
  cases hg
  cases hdev : s.slaveDev with
  | false =>
    rw [if_neg (by rw [hlater.slaveDev, hdev]; decide)] at h
    cases h
    refine ⟨none, ⟨b, ?_⟩, hdev.symm, fun _ hf => (by cases hf), fun _ hf => (by cases hf)⟩
    simpa using hb.symm
  | true =>
    rw [if_pos (by rw [hlater.slaveDev, hdev])] at h
    obtain ⟨hw, s₃, hhw, h⟩ := bind_ok h
    obtain ⟨rfl, rfl⟩ := dsrHwHeaderCreate_dest hhw
    cases h
    refine ⟨some ⟨hwDestOf s₃ dp', dp'.nxtHop, dsrSkbCreate dp'⟩, ⟨b, ?_⟩, hdev.symm, ?_, ?_⟩
    · simp [← hb]
    · rintro f ⟨⟩
      exact ⟨dp', hdp, rfl, rfl⟩
    · rintro f ⟨⟩
      unfold hwDestOf
      rw [hdp.dst, hdp.nxtHop, hsame.recorded, hlater.kmem]

theorem dsrDevXmit_queued {fuel : ℕ} {site : XmitSite} {dp : DsrPkt} {s s' : DsrNode}
    (h : dsrDevXmit (maintBufSetTimeoutUnlocked fuel) site dp s = .ok () s') :
    ∃ frame, Queued s site dp frame s' := by
  obtain ⟨t, s₁, hg, h⟩ := bind_ok h
  cases hg
  obtain ⟨_, s₂, hemit, h⟩ := bind_ok h
  cases hemit
  dsimp only at h
  split at h
  · next hack =>
    obtain ⟨dp', s₃, hadd, h⟩ := bind_ok h
    have hruns := anyMaintClosed.maintBufSetTimeoutUnlocked_runs fuel
    have hwp := @MaintClosed.maintBufAdd_sent _ _ _ anyMaintClosed _ hruns s site dp trivial trivial hack
    have hsent := wp_ok hwp hadd
    have hmaint := maintBufAdd_maint (maintBufSetTimeoutUnlocked_maint fuel) hadd
    exact dsrDevSend_queued hsent.2.added hmaint.sameHw hsent.1.2 h
  · obtain ⟨dp', s₃, hp, h⟩ := bind_ok h
    cases hp
    refine dsrDevSend_queued .same ?_ (Later.emit s _) h
    exact .refl _

structure UnicastLearned (s : DsrNode) (dp : DsrPkt) (frame : Option Frame) : Prop where
  learned : ∀ f ∈ frame, ∃ hw, f.hwDest = some hw ∧ hwRecorded s.neighTbl dp.nxtHop = some hw
  decision : s.slaveDev = true → ∀ r s₁, nsPacketDest dp s = .ok r s₁ → r = frame.map Frame.hwDest

theorem unicast_learned_iff {adds : List (InAddr × HwAddr)} {s s' : DsrNode} {fuel : ℕ}
    {site : XmitSite} {dp : DsrPkt} (hr : HwRun adds s) (hu : dp.dst ≠ dsrBroadcast)
    (hx : dsrDevXmit (maintBufSetTimeoutUnlocked fuel) site dp s = .ok () s') :
    ∃ frame, Queued s site dp frame s' ∧ (UnicastLearned s dp frame ↔
      s.slaveDev = false ∨ ∃ hw, FirstKept neighTblMaxLen adds dp.nxtHop hw) := by
  obtain ⟨frame, hq⟩ := dsrDevXmit_queued hx
  refine ⟨frame, hq, fun h => ?_, fun h => ?_⟩
  · cases hdev : s.slaveDev with
    | false => exact Or.inl rfl
    | true =>
      obtain ⟨f, hf⟩ := Option.isSome_iff_exists.mp (hq.isSome.trans hdev)
      obtain ⟨hw, -, hrec⟩ := h.learned f hf
      exact Or.inr ⟨hw, (hr.holds.recorded _ _).mp hrec⟩
  · cases hdev : s.slaveDev with
    | false =>
      have hnone := Option.not_isSome_iff_eq_none.mp (by rw [hq.isSome, hdev]; decide)
      subst hnone
      exact ⟨fun f hf => (by cases hf), fun hc => absurd (hdev.symm.trans hc) (by decide)⟩
    | true =>
      obtain ⟨f, hf⟩ := Option.isSome_iff_exists.mp (hq.isSome.trans hdev)
      subst hf
      rw [hdev] at h
      obtain ⟨hw, hkept⟩ := h.resolve_left (by decide)
      have hrec := (hr.holds.recorded _ _).mpr hkept
      have hdest : f.hwDest = some hw := by
        rw [hq.dest f rfl, hwDestOf, if_neg hu, hrec]
        rfl
      refine ⟨?_, fun _ r s₁ hns => ?_⟩
      · rintro f ⟨⟩
        exact ⟨hw, hdest, hrec⟩
      · rw [nsPacketDest_ok hu hns, hrec, Option.map_some, Option.map_some, hdest]

def strangerPkt : DsrPkt := (ackPkt (fun _ => 0) (detourHost 1) (detourHost 2) 5).getD { src := detourHost 1 }

def lonelyNode : DsrNode := dsrNodeInit (detourHost 1) (fun _ => 0) true 3 ⟨0, 0⟩ (fun _ => 0) 0

theorem unicast_learned_neighbour : ∃ s s' frame, HwRun [(detourHost 2, 7)] s ∧
    dsrDevXmit (maintBufSetTimeoutUnlocked 3) .ackSend strangerPkt s = .ok () s' ∧
    Queued s .ackSend strangerPkt frame s' ∧ UnicastLearned s strangerPkt frame := by
  have hr : HwRun [(detourHost 2, 7)] (neighTblAdded lonelyNode (detourHost 2) 7) :=
    (HwRun.init (detourHost 1) (fun _ => 0) true 3 ⟨0, 0⟩ (fun _ => 0) 0).step (.neighAdd (detourHost 2) 7) rfl
  obtain ⟨s', hx⟩ : ∃ s', dsrDevXmit (maintBufSetTimeoutUnlocked 3) .ackSend strangerPkt
      (neighTblAdded lonelyNode (detourHost 2) 7) = .ok () s' := ⟨_, rfl⟩
  obtain ⟨frame, hq, hiff⟩ := unicast_learned_iff hr (by decide) hx
  refine ⟨_, s', frame, hr, hx, hq, hiff.mpr (Or.inr ⟨7, [], [], rfl, by decide, by decide⟩)⟩

theorem unicast_frame_unlearned : ∃ s' f, HwRun [] lonelyNode ∧ strangerPkt.dst ≠ dsrBroadcast ∧
    dsrDevXmit (maintBufSetTimeoutUnlocked 3) .ackSend strangerPkt lonelyNode = .ok () s' ∧
    Queued lonelyNode .ackSend strangerPkt (some f) s' ∧ f.hwDest = some 0 ∧
    hwRecorded lonelyNode.neighTbl strangerPkt.nxtHop = none ∧
    (∃ s₁, nsPacketDest strangerPkt lonelyNode = .ok none s₁) ∧
    ¬ UnicastLearned lonelyNode strangerPkt (some f) := by
  obtain ⟨s', hx⟩ : ∃ s', dsrDevXmit (maintBufSetTimeoutUnlocked 3) .ackSend strangerPkt
      lonelyNode = .ok () s' := ⟨_, rfl⟩
  obtain ⟨frame, hq⟩ := dsrDevXmit_queued hx
  obtain ⟨f, rfl⟩ := Option.isSome_iff_exists.mp hq.isSome
  refine ⟨s', f, .init _ _ _ _ _ _ _, by decide, hx, hq, hq.dest f rfl, rfl, ⟨_, rfl⟩, fun h => ?_⟩
  obtain ⟨hw, -, hrec⟩ := h.learned f rfl
  cases hrec

end DsrUu
