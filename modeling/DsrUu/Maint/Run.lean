import DsrUu.Maint.Calls

namespace DsrUu

open Effect

inductive MaintInput
  | add (dp : DsrPkt)
  | ack (dp : DsrPkt) (p : OptPtr)
  | rerr (dp : DsrPkt) (p : OptPtr)
  | ackTimer
  | neighAdd (addr : InAddr) (hwAddr : HwAddr)
  | setMaxLen (maxLen : ℕ)

def MaintInput.handle : MaintInput → DsrM Unit
  | .add dp => do
      let _ ← maintBufAdd maintBufSetTimeout dp
      pure ()
  | .ack dp p => do
      let _ ← dsrAckOptRecv dp p
      pure ()
  | .rerr dp p => do
      let _ ← dsrRerrOptRecv dp p
      pure ()
  | .ackTimer => maintBufTimeout
  | .neighAdd addr hwAddr => neighTblAdd addr hwAddr
  | .setMaxLen maxLen => maintBufSetMaxLen maxLen

structure Outside (s s' : DsrNode) : Prop where
  ifaddr : s'.ifaddr = s.ifaddr
  neighTbl : s'.neighTbl = s.neighTbl
  maintBuf : s'.maintBuf = s.maintBuf
  ackTimer : s'.ackTimer = s.ackTimer
  out : ∃ b, s'.out = s.out ++ b ∧ ∀ e ∈ b, e.apart

inductive MaintReach (env : DsrNode → DsrNode → Prop) (ok : DsrNode → MaintInput → Prop) :
    DsrNode → Prop
  | init (ifaddr : InAddr) (confvals : ConfVal → ℕ) (locking : Bool) (budget : ℕ) (now : Timeval)
      (kmem : ℕ → UInt8) (rreqSeqno : ℕ) :
      MaintReach env ok (dsrNodeInit ifaddr confvals locking budget now kmem rreqSeqno)
  | env {s s' : DsrNode} : MaintReach env ok s → Outside s s' → env s s' → MaintReach env ok s'
  | step {s s' : DsrNode} (i : MaintInput) : MaintReach env ok s → ok s i →
      i.handle s = .ok () s' → MaintReach env ok s'

def maintBufAcked (s : DsrNode) (nxtHop : InAddr) (id : ℕ) : DsrNode :=
  let rtt := ackRtt s.now nxtHop id s.maintBuf.head
  { s with ackTimer := none, out := s.out ++ [.maint s.now (.acked nxtHop id)]
           maintBuf := s.maintBuf.forEachDel fun m => m.nxtHop = nxtHop && m.id ≤ id
           neighTbl := if rtt > 0 then s.neighTbl.findDo (fun n => n.addr = nxtHop) (rtoCalc rtt)
                       else s.neighTbl }

def maintBufCleared (s : DsrNode) (nxtHop : InAddr) : DsrNode :=
  { s with ackTimer := none, maintBuf := s.maintBuf.forEachDel fun m => m.nxtHop = nxtHop }

def neighTblAdded (s : DsrNode) (addr : InAddr) (hwAddr : HwAddr) : DsrNode :=
  { s with neighTbl := (s.neighTbl.add (neighTblCreate addr hwAddr 1) fun _ => true).getD s.neighTbl }

inductive MaintStepPut (put : Tbl MaintEntry → MaintEntry → Prop) :
    MaintInput → DsrNode → DsrNode → Prop
  | apart {i s s'} : Apart s s' → MaintStepPut put i s s'
  | add {dp s s'} : MaintPut put (.add dp) s s' → MaintStepPut put (.add dp) s s'
  | ack {dp p s s'} : dp.addrField p 8 = s.ifaddr →
      MaintPut put .setTimeout (maintBufAcked s (dp.addrField p 4) (dp.be16Field p 2)) s' →
      MaintStepPut put (.ack dp p) s s'
  | rerr {dp p s s'} : MaintPut put .setTimeout (maintBufCleared s (dp.addrField p 8)) s' →
      MaintStepPut put (.rerr dp p) s s'
  | ackTimer {s s'} : MaintPut put .timeout { s with ackTimer := none } s' → MaintStepPut put .ackTimer s s'
  | neighAdd {addr hwAddr s} : s.neighTbl.find (fun n => n.addr = addr) = none →
      MaintStepPut put (.neighAdd addr hwAddr) s (neighTblAdded s addr hwAddr)
  | setMaxLen {maxLen s} : MaintStepPut put (.setMaxLen maxLen) s
      { s with maintBuf := { s.maintBuf with maxLen := maxLen } }

abbrev MaintStep := MaintStepPut fun _ _ => True

theorem acquire_with (l : Lock) (s : DsrNode) : ∃ held, acquire l s = { s with held := held } := by
  unfold acquire
  split
  · exact ⟨_, rfl⟩
  · exact ⟨s.held, rfl⟩

def maintBufPurged (s : DsrNode) (nxtHop : InAddr) (id : ℕ) : DsrNode :=
  { maintBufAcked s nxtHop id with held := (acquire .maintBuf s).held }

theorem maintBufDelAllId_purged {nxtHop : InAddr} {id : ℕ} {s s' : DsrNode}
    (h : maintBufDelAllId nxtHop id s = .ok () s') :
    ∃ s₁, maintBufSetTimeout (maintBufPurged s nxtHop id) = .ok () s₁ ∧ s' = release .maintBuf s₁ := by
  obtain ⟨s₁, hm, rfl, -⟩ := locked_ok h
  refine ⟨s₁, ?_, rfl⟩
  unfold maintBufPurged
  obtain ⟨held, hheld⟩ := acquire_with .maintBuf s
  rw [hheld] at hm ⊢
  obtain ⟨_, s₂, ht, hm⟩ := bind_ok hm
  cases ht
  obtain ⟨_, s₃, he, hm⟩ := bind_ok hm
  cases he
  obtain ⟨t, s₄, hg, hm⟩ := bind_ok hm
  cases hg
  obtain ⟨_, s₅, hset, hm⟩ := bind_ok hm
  cases hset
  dsimp only at hm
  unfold maintBufAcked
  dsimp only
  split at hm
  · next hrtt =>
    obtain ⟨_, s₆, hrto, hm⟩ := bind_ok hm
    rw [neighTblFindDo_ok hrto] at hm
    rw [if_pos hrtt]
    exact hm
  · next hrtt =>
    rw [if_neg hrtt]
    exact hm

theorem maintBufDelAllId_maint {nxtHop : InAddr} {id : ℕ} {s s' : DsrNode}
    (h : maintBufDelAllId nxtHop id s = .ok () s') :
    Maint .setTimeout (maintBufAcked s nxtHop id) s' := by
  obtain ⟨s₁, hst, rfl⟩ := maintBufDelAllId_purged h
  refine .after (.before ?_ (maintBufSetTimeout_maint _ _ hst)) (.release .maintBuf s₁)
  exact .of_out rfl rfl rfl rfl rfl rfl rfl rfl rfl

theorem maintBufDelAll_maint {nxtHop : InAddr} {s s' : DsrNode}
    (h : maintBufDelAll nxtHop s = .ok () s') : Maint .setTimeout (maintBufCleared s nxtHop) s' := by
  obtain ⟨s₁, hm, rfl, -⟩ := locked_ok h
  obtain ⟨held, hheld⟩ := acquire_with .maintBuf s
  rw [hheld] at hm
  refine .after ?_ (.release .maintBuf s₁)
  obtain ⟨_, s₂, ht, hm⟩ := bind_ok hm
  cases ht
  obtain ⟨t, s₃, hg, hm⟩ := bind_ok hm
  cases hg
  obtain ⟨_, s₄, hset, hm⟩ := bind_ok hm
  cases hset
  have hst := maintBufSetTimeout_maint _ _ hm
  refine .before ?_ hst
  exact .of_out rfl rfl rfl rfl rfl rfl rfl rfl rfl

theorem maintBufTimeout_maint {s s' : DsrNode} (h : maintBufTimeout s = .ok () s') :
    Maint .timeout { s with ackTimer := none } s' := by
  obtain ⟨_, s₁, ht, h⟩ := bind_ok h
  cases ht
  obtain ⟨s₂, hm, rfl, -⟩ := locked_ok h
  refine .before (.acquire .maintBuf _) (.after ?_ (.release .maintBuf s₂))
  exact maintBufTimeoutUnlocked_maint xmit_maint maintBufSetTimeout_maint hm

theorem neighTblAdd_ok {addr : InAddr} {hwAddr : HwAddr} {s s' : DsrNode}
    (h : neighTblAdd addr hwAddr s = .ok () s') :
    ((∃ n, s.neighTbl.find (fun n => n.addr = addr) = some n) ∧ s' = s) ∨
      (s.neighTbl.find (fun n => n.addr = addr) = none ∧ s' = neighTblAdded s addr hwAddr) := by
  obtain ⟨r, s₁, hf, h⟩ := bind_ok h
  obtain ⟨rfl, rfl⟩ := neighTblFind_ok hf
  cases hf : s₁.neighTbl.find fun n => n.addr = addr with
  | some n =>
    rw [hf] at h
    cases h
    exact Or.inl ⟨⟨n, rfl⟩, rfl⟩
  | none =>
    rw [hf] at h
    obtain ⟨s₂, hm, rfl, -⟩ := locked_ok h
    obtain ⟨t, s₃, hg, hm⟩ := bind_ok hm
    cases hg
    cases hm
    refine Or.inr ⟨rfl, ?_⟩
    unfold neighTblAdded acquire release
    cases hk : s₁.locking <;> simp [hk]

theorem MaintInput.step {i : MaintInput} {s s' : DsrNode} (h : i.handle s = .ok () s') :
    MaintStep i s s' := by
  cases i with
  | add dp =>
    obtain ⟨dp', s₁, ha, h⟩ := bind_ok h
    cases h
    exact .add (maintBufAdd_maint maintBufSetTimeout_maint ha)
  | ack dp p =>
    obtain ⟨act, s₁, ha, h⟩ := bind_ok h
    cases h
    obtain ⟨me, s₂, hme, ha⟩ := bind_ok ha
    cases hme
    split at ha
    · cases ha
      exact .apart (.refl _)
    · next hme =>
      obtain ⟨_, s₃, hd, ha⟩ := bind_ok ha
      cases ha
      exact .ack (not_not.mp hme) (maintBufDelAllId_maint hd)
  | rerr dp p =>
    obtain ⟨act, s₁, ha, h⟩ := bind_ok h
    cases h
    unfold dsrRerrOptRecv at ha
    dsimp only at ha
    split at ha
    · obtain ⟨_, s₂, hd, ha⟩ := bind_ok ha
      obtain ⟨_, s₃, hl, ha⟩ := bind_ok ha
      cases ha
      exact .rerr (.after (maintBufDelAll_maint hd) (rtcLinkDel_apart hl))
    · cases ha
      exact .apart (.refl _)
  | ackTimer => exact .ackTimer (maintBufTimeout_maint h)
  | neighAdd addr hwAddr =>
    rcases neighTblAdd_ok h with ⟨-, rfl⟩ | ⟨hf, rfl⟩
    · exact .apart (.refl _)
    · exact .neighAdd hf
  | setMaxLen maxLen =>
    cases h
    exact .setMaxLen

def maintDrive (s : DsrNode) : List (Timeval × MaintInput) → Option DsrNode
  | [] => some s
  | (now, i) :: rest =>
      match i.handle { s with now := now } with
      | .ok _ s' => maintDrive s' rest
      | .error _ _ => none

def anyEnv (_ _ : DsrNode) : Prop := True

def anyMaint (_ : DsrNode) (_ : MaintInput) : Prop := True

theorem MaintReach.drive (is : List (Timeval × MaintInput)) : ∀ {s s' : DsrNode},
    MaintReach anyEnv anyMaint s → maintDrive s is = some s' → MaintReach anyEnv anyMaint s' := by
  induction is with
  | nil =>
    intro s s' h hd
    cases hd
    exact h
  | cons x rest ih =>
    obtain ⟨now, i⟩ := x
    intro s s' h hd
    unfold maintDrive at hd
    have hnow : Outside s { s with now := now } :=
      ⟨rfl, rfl, rfl, rfl, [], by simp, fun _ he => absurd he List.not_mem_nil⟩
    split at hd
    · next s₁ hrun => exact ih ((h.env hnow trivial).step i trivial hrun) hd
    · cases hd

theorem MaintPut.out {put : Tbl MaintEntry → MaintEntry → Prop} {c : MaintCall} {s s' : DsrNode}
    (h : MaintPut put c s s') : s.out <+: s'.out := by
  induction h with
  | before ha _ ih => exact ha.out_prefix.trans ih
  | after _ ha ih => exact ih.trans ha.out_prefix
  | expired _ _ _ ih => exact ih
  | drop _ _ _ _ _ ih => exact ih
  | giveUp _ _ _ _ _ _ _ ih₁ ih₂ ih₃ =>
    exact ((List.prefix_append _ _).trans ih₁).trans (ih₂.trans ih₃)
  | rexmt _ _ _ _ _ ih =>
    refine List.IsPrefix.trans ?_ ih
    dsimp only
    split
    · exact List.prefix_append _ _
    · exact List.prefix_rfl
  | salvaged _ ih => exact ih
  | loopNext _ _ _ ih₁ ih₂ => exact ih₁.trans ih₂
  | request _ _ ih => exact ih
  | holdoff _ _ _ _ ih => exact ih
  | due _ _ _ _ ih => exact (List.prefix_append _ _).trans ih
  | enqueued _ _ ih => exact (List.prefix_append _ _).trans ih
  | _ => exact List.prefix_rfl

theorem MaintStepPut.out {put : Tbl MaintEntry → MaintEntry → Prop} {i : MaintInput} {s s' : DsrNode}
    (h : MaintStepPut put i s s') : s.out <+: s'.out := by
  cases h with
  | apart ha => exact ha.out_prefix
  | add h => exact h.out
  | ack _ h => exact (List.prefix_append _ _).trans h.out
  | rerr h => exact h.out
  | ackTimer h => exact h.out
  | neighAdd _ => exact List.prefix_rfl
  | setMaxLen => exact List.prefix_rfl

end DsrUu
