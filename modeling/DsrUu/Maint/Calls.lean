import DsrUu.Maint.Salvage
import DsrUu.Node.Light

namespace DsrUu

open Effect

def Event.apart : Event → Prop
  | .ackReq _ _ => False
  | .maint _ _ => False
  | _ => True

structure Apart (s s' : DsrNode) : Prop where
  ifaddr : s'.ifaddr = s.ifaddr
  confvals : s'.confvals = s.confvals
  now : s'.now = s.now
  neighTbl : s'.neighTbl = s.neighTbl
  maintBuf : s'.maintBuf = s.maintBuf
  ackTimer : s'.ackTimer = s.ackTimer
  rreqTbl : s'.rreqTbl = s.rreqTbl
  rreqBrk : s'.rreqBrk = s.rreqBrk
  out : ∃ b, s'.out = s.out ++ b ∧ ∀ e ∈ b, e.apart

namespace Apart

variable {s s₁ s' : DsrNode}

theorem of_out (hi : s'.ifaddr = s.ifaddr) (hc : s'.confvals = s.confvals) (hn : s'.now = s.now)
    (ht : s'.neighTbl = s.neighTbl) (hm : s'.maintBuf = s.maintBuf) (ha : s'.ackTimer = s.ackTimer)
    (hr : s'.rreqTbl = s.rreqTbl) (hb : s'.rreqBrk = s.rreqBrk) (ho : s'.out = s.out) : Apart s s' := by
  refine ⟨hi, hc, hn, ht, hm, ha, hr, hb, [], ?_, fun _ he => absurd he List.not_mem_nil⟩
  rw [ho, List.append_nil]

theorem refl (s : DsrNode) : Apart s s := of_out rfl rfl rfl rfl rfl rfl rfl rfl rfl

theorem trans (h₁ : Apart s s₁) (h₂ : Apart s₁ s') : Apart s s' := by
  obtain ⟨b, hb, he⟩ := h₁.out
  obtain ⟨c, hc, hf⟩ := h₂.out
  refine ⟨h₂.ifaddr.trans h₁.ifaddr, h₂.confvals.trans h₁.confvals, h₂.now.trans h₁.now,
    h₂.neighTbl.trans h₁.neighTbl, h₂.maintBuf.trans h₁.maintBuf, h₂.ackTimer.trans h₁.ackTimer,
    h₂.rreqTbl.trans h₁.rreqTbl, h₂.rreqBrk.trans h₁.rreqBrk, b ++ c, by rw [hc, hb, List.append_assoc], fun e h => ?_⟩
  rcases List.mem_append.mp h with h | h
  · exact he e h
  · exact hf e h

theorem out_prefix (h : Apart s s') : s.out <+: s'.out := by
  obtain ⟨b, hb, -⟩ := h.out
  rw [hb]
  exact List.prefix_append _ b

theorem lc (s : DsrNode) (lc : LcGraph) : Apart s { s with lc := lc } :=
  of_out rfl rfl rfl rfl rfl rfl rfl rfl rfl

theorem emit (s : DsrNode) {e : Event} (he : e.apart) : Apart s { s with out := s.out ++ [e] } :=
  ⟨rfl, rfl, rfl, rfl, rfl, rfl, rfl, rfl, [e], rfl, fun x hx => by rw [List.mem_singleton.mp hx]; exact he⟩

theorem acquire (l : Lock) (s : DsrNode) : Apart s (acquire l s) := by
  unfold DsrUu.acquire
  split
  · exact of_out rfl rfl rfl rfl rfl rfl rfl rfl rfl
  · exact refl s

theorem release (l : Lock) (s : DsrNode) : Apart s (release l s) := by
  unfold DsrUu.release
  split
  · exact of_out rfl rfl rfl rfl rfl rfl rfl rfl rfl
  · exact refl s

theorem withMaintBuf (h : Apart s s') (t : Tbl MaintEntry) :
    Apart { s with maintBuf := t } { s' with maintBuf := t } :=
  ⟨h.ifaddr, h.confvals, h.now, h.neighTbl, rfl, h.ackTimer, h.rreqTbl, h.rreqBrk, h.out⟩

end Apart

theorem dsrRtcFind_apart {src dst : InAddr} {s s' : DsrNode} {r : Option DsrSrt}
    (h : dsrRtcFind src dst s = .ok r s') : Apart s s' := by
  rcases dsrRtcFind_ok h with ⟨-, rfl⟩ | ⟨-, f, lc, -, -, rfl⟩
  · exact .refl _
  · exact .lc _ _

theorem rtcLinkDel_apart {src dst : InAddr} {s s' : DsrNode}
    (h : rtcLinkDel src dst s = .ok () s') : Apart s s' := by
  obtain ⟨s₁, hm, rfl, -⟩ := locked_ok h
  obtain ⟨t, s₂, hg, hm⟩ := bind_ok hm
  cases hg
  obtain ⟨lc, s₃, hof, hm⟩ := bind_ok hm
  cases hm
  cases hl : lcLinkDel src dst (acquire .lc s).lc with
  | none =>
    rw [hl] at hof
    cases hof
  | some g =>
    rw [hl] at hof
    cases hof
    exact ((Apart.acquire .lc s).trans (.lc _ _)).trans (.release .lc _)

def rtoOf (s : DsrNode) (n : Neighbor) : ℕ :=
  let rto := usecsOf .roundTripTimeout (s.confvals .roundTripTimeout)
  if rto = 0 then toUint64 (n.tRxtcur * 1000) / prSlowhz else rto

def maintEntryNew (s : DsrNode) (n : Neighbor) (nxtHop : InAddr) (dp : DsrPkt) : MaintEntry :=
  { nxtHop := nxtHop, rexmt := 0, id := n.id, txTime := s.now
    expires := timevalAddUsecs s.now (rtoOf s n), rto := rtoOf s n, ackReqSent := false, dp := dp
    born := s.out.length }

def neighTblIssue (s : DsrNode) (nxtHop : InAddr) : Tbl Neighbor :=
  (s.neighTbl.findDo (fun n => n.addr = nxtHop) fun n => { n with lastAckReq := s.now }).findDo
    (fun n => n.addr = nxtHop) fun n => { n with id := (n.id + 1) % 65536 }

def MaintEntry.deadline (m : MaintEntry) : Timeval := timevalAddUsecs m.txTime m.rto

def MaintEntry.expired (m : MaintEntry) (now : Timeval) : Prop :=
  timevalDiff now m.txTime > toInt32 m.rto

def maintBufTouch (s : DsrNode) (m : MaintEntry) : Tbl MaintEntry :=
  s.maintBuf.findDo MaintEntry.ackReqSent fun x => { x with expires := m.deadline }

def MaintEntry.rexmtAt (m : MaintEntry) (now : Timeval) : MaintEntry :=
  { m with rexmt := incUint32 m.rexmt, txTime := now, expires := timevalAddUsecs now m.rto }

def maintBufPut (t : Tbl MaintEntry) (m : MaintEntry) : Tbl MaintEntry :=
  (t.add m fun p => timevalDiff p.expires m.expires > 0).getD t

inductive MaintCall
  | setTimeout
  | timeout
  | xmit (dp : DsrPkt)
  | salvage (dp : DsrPkt)
  | salvageLoop (nxtHop : InAddr)
  | add (dp : DsrPkt)
  | enqueue (m : MaintEntry)

inductive MaintPut (put : Tbl MaintEntry → MaintEntry → Prop) :
    MaintCall → DsrNode → DsrNode → Prop
  | before {c s s₁ s'} : Apart s s₁ → MaintPut put c s₁ s' → MaintPut put c s s'
  | after {c s s₁ s'} : MaintPut put c s s₁ → Apart s₁ s' → MaintPut put c s s'
  | idle {s} : s.maintBuf.find MaintEntry.ackReqSent = none → MaintPut put .setTimeout s s
  | arm {s m} : s.maintBuf.find MaintEntry.ackReqSent = some m → ¬ m.expired s.now →
      MaintPut put .setTimeout s { s with maintBuf := maintBufTouch s m, ackTimer := some m.deadline }
  | expired {s s' m} : s.maintBuf.find MaintEntry.ackReqSent = some m → m.expired s.now →
      MaintPut put .timeout { s with maintBuf := maintBufTouch s m } s' → MaintPut put .setTimeout s s'
  | pending {s} : s.ackTimer.isSome → MaintPut put .timeout s s
  | empty {s} : s.maintBuf.detachFirst = none → MaintPut put .timeout s s
  | drop {s s' m t} : s.ackTimer = none → s.maintBuf.detachFirst = some (m, t) →
      s.confvals .maxMaintRexmt ≤ incUint32 m.rexmt → m.ackReqSent = false →
      MaintPut put .setTimeout { s with maintBuf := t } s' → MaintPut put .timeout s s'
  | giveUp {s s₁ s₂ s' m t} : s.ackTimer = none → s.maintBuf.detachFirst = some (m, t) →
      s.confvals .maxMaintRexmt ≤ incUint32 m.rexmt → m.ackReqSent = true →
      MaintPut put (.salvage m.dp)
        { s with maintBuf := t
                 out := s.out ++ [.maint s.now (.linkBreak { m with rexmt := incUint32 m.rexmt })] }
        s₁ → MaintPut put (.salvageLoop m.nxtHop) s₁ s₂ → MaintPut put .setTimeout s₂ s' →
      MaintPut put .timeout s s'
  | rexmt {s s' m t} : s.ackTimer = none → s.maintBuf.detachFirst = some (m, t) →
      ¬ s.confvals .maxMaintRexmt ≤ incUint32 m.rexmt → put t (m.rexmtAt s.now) →
      MaintPut put .setTimeout
        { s with maintBuf := maintBufPut t (m.rexmtAt s.now)
                 out := if m.ackReqSent then s.out ++ [.maint s.now (.request (m.rexmtAt s.now))]
                        else s.out } s' → MaintPut put .timeout s s'
  | lost {s dp} : MaintPut put (.salvage dp) s s
  | salvaged {s s' dp dp'} : MaintPut put (.xmit dp') s s' → MaintPut put (.salvage dp) s s'
  | loopDone {s nxtHop} : s.maintBuf.findDetach (fun m => m.nxtHop = nxtHop) = none →
      MaintPut put (.salvageLoop nxtHop) s s
  | loopNext {s s₁ s' nxtHop m t} : s.maintBuf.findDetach (fun m => m.nxtHop = nxtHop) = some (m, t) →
      MaintPut put (.salvage m.dp) { s with maintBuf := t } s₁ → MaintPut put (.salvageLoop nxtHop) s₁ s' →
      MaintPut put (.salvageLoop nxtHop) s s'
  | plain {s dp} : dp.requestAck = false → MaintPut put (.xmit dp) s s
  | request {s s' dp} : dp.requestAck = true → MaintPut put (.add dp) s s' → MaintPut put (.xmit dp) s s'
  | unknown {s dp} : s.neighTbl.find (fun n => n.addr = dp.nxtHop) = none → MaintPut put (.add dp) s s
  | ignored {s dp} : dp.requestAck = false → MaintPut put (.add dp) s s
  | holdoff {s s' dp n mdp} : s.neighTbl.find (fun n => n.addr = dp.nxtHop) = some n →
      ackDue s dp = false → dp.requestAck = true →
      MaintPut put (.enqueue (maintEntryNew s n dp.nxtHop mdp)) s s' → MaintPut put (.add dp) s s'
  | due {s s' dp n mdp} : s.neighTbl.find (fun n => n.addr = dp.nxtHop) = some n →
      ackDue s dp = true → dp.requestAck = true →
      MaintPut put (.enqueue { maintEntryNew s n dp.nxtHop mdp with ackReqSent := true })
        { s with neighTbl := neighTblIssue s dp.nxtHop, out := s.out ++ [.ackReq dp.nxtHop n.id] } s' →
      MaintPut put (.add dp) s s'
  | full {s m} : s.maintBuf.addTail m = none → MaintPut put (.enqueue m) s s
  | enqueued {s s' m t} : s.maintBuf.addTail m = some t →
      MaintPut put .setTimeout
        { s with maintBuf := t, out := s.out ++ [.maint s.now (.buffered m s.maintBuf.head)] } s' →
      MaintPut put (.enqueue m) s s'

abbrev Maint := MaintPut fun _ _ => True

theorem ackReqPkt_requestAck {mem : ℕ → UInt8} {me neigh : InAddr} {id : ℕ} {dp : DsrPkt}
    (h : ackReqPkt mem me neigh id = some dp) : dp.requestAck = false := by
  unfold ackReqPkt at h
  obtain ⟨dp₁, h₁, h₂⟩ := Option.bind_eq_some_iff.mp h
  unfold dsrAckReqOptCreate at h₂
  split at h₂
  · cases h₂
  · cases h₂
    exact (write_same dp₁ _ _).requestAck.trans (optHdrAdd_requestAck h₁)

theorem rerrOptAdd_requestAck {dp dp' : DsrPkt} {off len errType salv : ℕ}
    {errSrc errDst unreach : InAddr}
    (h : dsrRerrOptAdd dp off len errType errSrc errDst unreach salv = some dp') :
    dp'.requestAck = dp.requestAck := by
  unfold dsrRerrOptAdd at h
  split at h
  · cases h
  · cases h
    exact (write_same dp _ _).requestAck

theorem writeOpts_requestAck (os : List (List UInt8)) : ∀ (dp : DsrPkt) (off : ℕ),
    (writeOpts dp off os).requestAck = dp.requestAck := by
  induction os with
  | nil => exact fun _ _ => rfl
  | cons o os ih => exact fun dp off => (ih _ _).trans (write_same dp _ _).requestAck

theorem rerrPkt_requestAck {mem : ℕ → UInt8} {me dst unreach : InAddr} {maxSalvage salv : ℕ}
    {srt : DsrSrt} {trigg dp : DsrPkt}
    (h : rerrPkt mem me dst unreach maxSalvage srt trigg salv = some dp) : dp.requestAck = false := by
  obtain ⟨dp₁, h₁, h⟩ := Option.bind_eq_some_iff.mp h
  obtain ⟨dp₂, h₂, h⟩ := Option.bind_eq_some_iff.mp h
  obtain ⟨dp₃, h₃, rfl⟩ := Option.map_eq_some_iff.mp h
  refine (writeOpts_requestAck _ _ _).trans ?_
  exact (rerrOptAdd_requestAck h₃).trans ((srtOptAdd_requestAck h₂).trans (optHdrAdd_requestAck h₁))

section Senders

variable {x : XmitSite → DsrPkt → DsrM Unit}

def Xmits (x : XmitSite → DsrPkt → DsrM Unit) : Prop :=
  ∀ site dp s s', x site dp s = .ok () s' → Maint (.xmit dp) s s'

theorem Maint.apart {dp : DsrPkt} {s s' : DsrNode} (h : Maint (.xmit dp) s s')
    (hack : dp.requestAck = false) : Apart s s' := by
  generalize hc : MaintCall.xmit dp = c at h
  induction h with
  | before ha _ ih => exact ha.trans (ih hc)
  | after _ ha ih => exact (ih hc).trans ha
  | plain _ => exact .refl _
  | request hr _ =>
    cases hc
    rw [hack] at hr
    cases hr
  | _ => cases hc

variable (hx : Xmits x)

include hx

theorem dsrAckReqSend_apart {neigh : InAddr} {id : ℕ} {s s' : DsrNode}
    (h : dsrAckReqSend x neigh id s = .ok () s') : Apart s s' := by
  change xmitPkt x .ackReqSend (ackReqPkt s.kmem s.ifaddr neigh id) s = _ at h
  cases hp : ackReqPkt s.kmem s.ifaddr neigh id with
  | none =>
    rw [hp] at h
    cases h
    exact .refl _
  | some dp =>
    rw [hp] at h
    exact (hx _ _ _ _ h).apart (ackReqPkt_requestAck hp)

theorem dsrRerrSend_apart {trigg : DsrPkt} {unreach : InAddr} {s s' : DsrNode}
    (h : dsrRerrSend x trigg unreach s = .ok () s') : Apart s s' := by
  unfold dsrRerrSend kmalloc myAddr confVal at h
  obtain ⟨mem, s₁, hk, h⟩ := bind_ok h
  cases hk
  obtain ⟨me, s₂, hme, h⟩ := bind_ok h
  cases hme
  obtain ⟨maxSalvage, s₃, hc, h⟩ := bind_ok h
  cases hc
  split at h
  · cases h
    exact .refl _
  cases hsrt : trigg.srtOpt with
  | none =>
    rw [hsrt] at h
    cases h
    exact .refl _
  | some p =>
    simp only [hsrt] at h
    obtain ⟨r, s₄, hf, h⟩ := bind_ok h
    have ha := dsrRtcFind_apart hf
    cases r with
    | none =>
      cases h
      exact ha
    | some srt =>
      dsimp only at h
      generalize hp : rerrPkt _ _ _ _ _ _ _ _ = o at h
      cases o with
      | none =>
        cases h
        exact ha
      | some dp => exact ha.trans ((hx _ _ _ _ h).apart (rerrPkt_requestAck hp))

theorem maintBufSalvage_maint {dp : DsrPkt} {r : Int} {s s' : DsrNode}
    (h : maintBufSalvage x dp s = .ok r s') : Maint (.salvage dp) s s' := by
  unfold maintBufSalvage kmalloc myAddr at h
  obtain ⟨mem, s₁, hk, h⟩ := bind_ok h
  cases hk
  obtain ⟨me, s₂, hme, h⟩ := bind_ok h
  cases hme
  obtain ⟨srt, s₃, hf, h⟩ := bind_ok h
  refine .before (dsrRtcFind_apart hf) ?_
  cases srt with
  | none =>
    cases h
    exact .lost
  | some alt =>
    dsimp only at h
    generalize salvagePkt _ _ _ _ = o at h
    cases o with
    | none =>
      cases h
      exact .lost
    | some dp' =>
      dsimp only at h
      split at h
      · cases h
      obtain ⟨_, s₄, hxm, h⟩ := bind_ok h
      cases h
      exact .salvaged (hx _ _ _ _ hxm)

theorem salvageLoop_maint {nxtHop : InAddr} (fuel : ℕ) : ∀ {s s' : DsrNode},
    salvageLoop x nxtHop fuel s = .ok () s' → Maint (.salvageLoop nxtHop) s s' := by
  induction fuel with
  | zero =>
    intro s s' h
    cases h
  | succ fuel ih =>
    intro s s' h
    unfold salvageLoop at h
    obtain ⟨t, s₁, hg, h⟩ := bind_ok h
    cases hg
    cases hd : s.maintBuf.findDetach fun m => m.nxtHop = nxtHop with
    | none =>
      simp only [hd] at h
      cases h
      exact .loopDone hd
    | some q =>
      obtain ⟨m, t⟩ := q
      simp only [hd] at h
      obtain ⟨_, s₂, hset, h⟩ := bind_ok h
      cases hset
      obtain ⟨r, s₃, hsal, h⟩ := bind_ok h
      exact .loopNext hd (maintBufSalvage_maint hx hsal) (ih h)

theorem maintBufRexmt_apart {m : MaintEntry} {s s' : DsrNode}
    (h : maintBufRexmt x { m with rexmt := incUint32 m.rexmt } s = .ok () s') :
    Apart { s with maintBuf := maintBufPut s.maintBuf (m.rexmtAt s.now)
                   out := if m.ackReqSent then s.out ++ [.maint s.now (.request (m.rexmtAt s.now))]
                          else s.out } s' := by
  unfold maintBufRexmt at h
  obtain ⟨now, s₁, hg, h⟩ := bind_ok h
  cases hg
  dsimp only at h
  cases hack : m.ackReqSent with
  | true =>
    rw [if_pos hack] at h
    rw [if_pos rfl]
    obtain ⟨_, s₂, hemit, h⟩ := bind_ok h
    cases hemit
    obtain ⟨_, s₃, hsend, h⟩ := bind_ok h
    have ha := dsrAckReqSend_apart hx hsend
    obtain ⟨t, s₄, hg, h⟩ := bind_ok h
    cases hg
    cases h
    have hbuf := ha.maintBuf
    dsimp only at hbuf
    rw [hbuf]
    exact ha.withMaintBuf _
  | false =>
    rw [if_neg (by rw [hack]; decide)] at h
    obtain ⟨t, s₄, hg, h⟩ := bind_ok h
    cases hg
    cases h
    exact .refl _

theorem maintBufTimeoutUnlocked_maint {setTimeout : DsrM Unit}
    (hst : ∀ s s', setTimeout s = .ok () s' → Maint .setTimeout s s') {s s' : DsrNode}
    (h : maintBufTimeoutUnlocked x setTimeout s = .ok () s') : Maint .timeout s s' := by
  unfold maintBufTimeoutUnlocked at h
  obtain ⟨t, s₁, hg, h⟩ := bind_ok h
  cases hg
  split at h
  · next hp =>
    cases h
    exact .pending hp
  next hp =>
  have hnone : s.ackTimer = none := Option.not_isSome_iff_eq_none.mp hp
  cases hd : s.maintBuf.detachFirst with
  | none =>
    simp only [hd] at h
    cases h
    exact .empty hd
  | some q =>
    obtain ⟨m, t⟩ := q
    simp only [hd] at h
    obtain ⟨_, s₂, hset, h⟩ := bind_ok h
    cases hset
    obtain ⟨max, s₃, hmax, h⟩ := bind_ok h
    cases hmax
    split at h
    · next hle =>
      obtain ⟨_, s₄, hgive, h⟩ := bind_ok h
      unfold maintBufGiveUp at hgive
      obtain ⟨t', s₅, hg, hgive⟩ := bind_ok hgive
      cases hg
      split at hgive
      · next hack =>
        obtain ⟨_, s₆, hemit, hgive⟩ := bind_ok hgive
        cases hemit
        obtain ⟨_, s₇, hdel, hgive⟩ := bind_ok hgive
        obtain ⟨_, s₈, hrerr, hgive⟩ := bind_ok hgive
        obtain ⟨r, s₉, hsal, hloop⟩ := bind_ok hgive
        have hapart := (rtcLinkDel_apart hdel).trans (dsrRerrSend_apart hx hrerr)
        exact .giveUp hnone hd hle hack (.before hapart (maintBufSalvage_maint hx hsal))
          (salvageLoop_maint hx _ hloop) (hst _ _ h)
      · next hack =>
        cases hgive
        exact .drop hnone hd hle (Bool.eq_false_iff.mpr hack) (hst _ _ h)
    · next hlt =>
      obtain ⟨_, s₄, hre, h⟩ := bind_ok h
      exact .rexmt hnone hd hlt trivial (.before (maintBufRexmt_apart hx hre) (hst _ _ h))

end Senders

section Knot

variable {setTimeout : DsrM Unit}
  (hst : ∀ s s', setTimeout s = .ok () s' → Maint .setTimeout s s')

theorem neighTblFindDo_ok {addr : InAddr} {f : Neighbor → Neighbor} {s s' : DsrNode}
    (h : neighTblFindDo addr f s = .ok () s') :
    s' = { s with neighTbl := s.neighTbl.findDo (fun n => n.addr = addr) f } := by
  obtain ⟨s₁, hm, rfl, -⟩ := locked_ok h
  cases hm
  unfold acquire release
  cases hk : s.locking <;> simp [hk]

theorem neighTblQuery_rto {addr : InAddr} {s s' : DsrNode} {r : Option NeighborInfo}
    (h : neighTblQuery addr s = .ok r s') : s' = s ∧ r =
      (s.neighTbl.find fun n => n.addr = addr).map fun n =>
        { hwAddr := n.hwAddr, id := n.id, lastAckReq := n.lastAckReq, rto := rtoOf s n } := by
  obtain ⟨rto, s₁, hr, h⟩ := bind_ok h
  cases hr
  obtain ⟨n, s₂, hn, h⟩ := bind_ok h
  obtain ⟨rfl, rfl⟩ := neighTblFind_ok hn
  cases h
  exact ⟨rfl, rfl⟩

theorem maintEntryCreate_new {dp : DsrPkt} {n : Neighbor} {s s' : DsrNode} {m : MaintEntry}
    (h : maintEntryCreate dp n.id (rtoOf s n) s = .ok m s') :
    s' = s ∧ ∃ mdp, m = maintEntryNew s n dp.nxtHop mdp := by
  obtain ⟨mem, s₁, hk, h⟩ := bind_ok h
  cases hk
  obtain ⟨now, s₂, hg, h⟩ := bind_ok h
  cases hg
  obtain ⟨skb, s₃, hs, h⟩ := bind_ok h
  cases hskb : dp.skb with
  | none =>
    rw [hskb] at hs
    cases hs
  | some skb' =>
    rw [hskb] at hs
    cases hs
    cases h
    exact ⟨rfl, _, rfl⟩

include hst

theorem maintBufEnqueue_maint {m : MaintEntry} {s s' : DsrNode}
    (h : maintBufEnqueue setTimeout m s = .ok () s') : Maint (.enqueue m) s s' := by
  obtain ⟨s₁, hm, rfl, -⟩ := locked_ok h
  refine .before (.acquire .maintBuf s) (.after ?_ (.release .maintBuf s₁))
  obtain ⟨t, s₂, hg, hm⟩ := bind_ok hm
  cases hg
  cases ha : (acquire .maintBuf s).maintBuf.addTail m with
  | none =>
    simp only [ha] at hm
    cases hm
    exact .full ha
  | some t =>
    simp only [ha] at hm
    obtain ⟨_, s₃, hemit, hm⟩ := bind_ok hm
    cases hemit
    obtain ⟨_, s₄, hset, hm⟩ := bind_ok hm
    cases hset
    exact .enqueued ha (hst _ _ hm)

theorem maintBufAdd_maint {dp dp' : DsrPkt} {s s' : DsrNode}
    (h : maintBufAdd setTimeout dp s = .ok dp' s') : Maint (.add dp) s s' := by
  obtain ⟨mem, s₁, hk, h⟩ := bind_ok h
  cases hk
  obtain ⟨now, s₂, hg, h⟩ := bind_ok h
  cases hg
  obtain ⟨info, s₃, hq, h⟩ := bind_ok h
  obtain ⟨rfl, rfl⟩ := neighTblQuery_rto hq
  cases hf : s₃.neighTbl.find fun n => n.addr = dp.nxtHop with
  | none =>
    simp only [hf, Option.map_none] at h
    cases h
    exact .unknown hf
  | some n =>
    simp only [hf, Option.map_some] at h
    obtain ⟨m, s₄, hm, h⟩ := bind_ok h
    obtain ⟨rfl, mdp, rfl⟩ := maintEntryCreate_new hm
    split at h
    · next hack =>
      obtain ⟨holdoff, s₅, hc, h⟩ := bind_ok h
      cases hc
      have hdue : ackDue s₄ dp = decide (toUint64 (timevalDiff s₄.now n.lastAckReq) >
          usecsOf .maintHoldoffTime (s₄.confvals .maintHoldoffTime)) := by
        unfold ackDue
        rw [hf]
      split at h
      · next hlt =>
        obtain ⟨_, s₆, hset, h⟩ := bind_ok h
        obtain ⟨now, s₇, hg, hset⟩ := bind_ok hset
        cases hg
        have h₆ := neighTblFindDo_ok hset
        obtain ⟨_, s₈, hinc, h⟩ := bind_ok h
        have h₈ := neighTblFindDo_ok hinc
        obtain ⟨_, s₉, hemit, h⟩ := bind_ok h
        cases hemit
        obtain ⟨_, s₁₀, henq, h⟩ := bind_ok h
        cases h
        subst h₆ h₈
        exact .due hf (hdue.trans (decide_eq_true hlt)) hack (maintBufEnqueue_maint hst henq)
      · next hge =>
        obtain ⟨_, s₆, henq, h⟩ := bind_ok h
        cases h
        exact .holdoff hf (hdue.trans (decide_eq_false hge)) hack (maintBufEnqueue_maint hst henq)
    · next hack =>
      cases h
      exact .ignored (Bool.eq_false_iff.mpr hack)

omit hst in
theorem queue_apart {queue : XmitSite → DsrPkt → DsrM Unit} (hq : Emits queue) {site : XmitSite}
    {dp : DsrPkt} {s s' : DsrNode} (h : queue site dp s = .ok () s') : Apart s s' := by
  cases hq site dp s s' h with
  | kept => exact .refl s
  | sent hw => exact .emit s trivial

theorem xmitVia_maint {queue : XmitSite → DsrPkt → DsrM Unit} (hq : Emits queue) :
    Xmits (xmitVia setTimeout queue) := by
  intro site dp s s' h
  obtain ⟨t, s₁, hg, h⟩ := bind_ok h
  cases hg
  obtain ⟨_, s₂, hemit, h⟩ := bind_ok h
  cases hemit
  have hapart : Apart s { s with out := s.out ++ [.xmit site dp (ackDue s dp)] } := .emit s trivial
  refine .before hapart ?_
  dsimp only at h
  split at h
  · next hack =>
    obtain ⟨dp', s₃, hadd, h⟩ := bind_ok h
    exact .after (.request hack (maintBufAdd_maint hst hadd)) (queue_apart hq h)
  · next hack => exact .after (.plain (Bool.eq_false_iff.mpr hack)) (queue_apart hq h)

theorem buildXmit_maint : Xmits (buildXmit setTimeout) := by
  intro site dp s s' h
  rw [buildXmit_eq] at h
  exact xmitVia_maint hst (buildQueue_emits s.locking) site dp s s' h

end Knot

theorem maintBufSetTimeoutUnlocked_maint (fuel : ℕ) : ∀ s s' : DsrNode,
    maintBufSetTimeoutUnlocked fuel s = .ok () s' → Maint .setTimeout s s' := by
  induction fuel with
  | zero =>
    intro s s' h
    cases h
  | succ fuel ih =>
    intro s s' h
    unfold maintBufSetTimeoutUnlocked at h
    obtain ⟨t, s₁, hg, h⟩ := bind_ok h
    cases hg
    cases hf : s.maintBuf.find MaintEntry.ackReqSent with
    | none =>
      simp only [hf] at h
      cases h
      exact .idle hf
    | some m =>
      simp only [hf] at h
      obtain ⟨_, s₂, hset, h⟩ := bind_ok h
      cases hset
      split at h
      · next hexp => exact .expired hf hexp (maintBufTimeoutUnlocked_maint (buildXmit_maint ih) ih h)
      · next hexp =>
        cases h
        exact .arm hf hexp

theorem xmit_maint : Xmits xmit := by
  intro site dp s s' h
  rw [xmit_eq] at h
  exact xmitVia_maint (maintBufSetTimeoutUnlocked_maint s.budget) (buildQueue_emits s.locking) site dp s s' h

theorem maintBufSetTimeout_maint (s s' : DsrNode) (h : maintBufSetTimeout s = .ok () s') :
    Maint .setTimeout s s' := by
  obtain ⟨t, s₁, hg, h⟩ := bind_ok h
  cases hg
  exact maintBufSetTimeoutUnlocked_maint s.budget _ _ h

end DsrUu
