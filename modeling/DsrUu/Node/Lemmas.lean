import DsrUu.Effect.Wp
import DsrUu.Node.Recv

namespace DsrUu

open Effect

def acquire (l : Lock) (s : DsrNode) : DsrNode :=
  if s.locking then { s with held := l :: s.held } else s

def release (l : Lock) (s : DsrNode) : DsrNode :=
  if s.locking then { s with held := s.held.erase l } else s

section Locked

variable {α : Type} {l : Lock} {m : DsrM α} {s : DsrNode} {Q : α → DsrNode → Prop}
  {E : Stop → Prop}

theorem wp_lockBh {Q : Unit → DsrNode → Prop} (h : s.locking = true → l ∉ s.held)
    (hq : Q () (acquire l s)) : wp (lockBh l) s Q E := by
  unfold lockBh
  simp only [wp_bind, wp_get]
  unfold acquire at hq
  cases hk : s.locking with
  | false => simpa [hk] using hq
  | true => simpa [hk, h hk] using hq

theorem wp_locked (h : s.locking = true → l ∉ s.held)
    (hm : wp m (acquire l s) (fun a s' => Q a (release l s')) E) : wp (locked l m) s Q E := by
  unfold locked
  rw [wp_bind]
  refine wp_lockBh h ?_
  rw [wp_bind]
  refine wp_imp hm fun a s' hq => ?_
  rw [wp_bind]
  exact hq

theorem locked_runs {a : α} {s₁ : DsrNode} (h : s.locking = true → l ∉ s.held)
    (hm : m (acquire l s) = .ok a s₁) : locked l m s = .ok a (release l s₁) := by
  have hwp : wp (locked l m) s (fun b t => b = a ∧ t = release l s₁) fun _ => False := by
    apply wp_locked h
    rw [wp, hm]
    exact ⟨rfl, rfl⟩
  obtain ⟨_, _, hrun, rfl, rfl⟩ := ok_of_wp hwp
  exact hrun

theorem lockBh_ok {s' : DsrNode} (h : lockBh l s = .ok () s') :
    s' = acquire l s ∧ (s.locking = true → l ∉ s.held) := by
  unfold lockBh at h
  obtain ⟨t, s₀, hget, h⟩ := bind_ok h
  cases hget
  split at h
  · next hk =>
    split at h
    · cases h
    · next hl =>
      cases h
      refine ⟨?_, fun _ => hl⟩
      rw [acquire, if_pos hk]
  · next hk =>
    cases h
    refine ⟨?_, fun h => absurd h hk⟩
    rw [acquire, if_neg hk]

theorem locked_ok {a : α} {s' : DsrNode} (h : locked l m s = .ok a s') :
    ∃ s₁, m (acquire l s) = .ok a s₁ ∧ s' = release l s₁ ∧ (s.locking = true → l ∉ s.held) := by
  unfold locked at h
  obtain ⟨_, s₁, hlock, h⟩ := bind_ok h
  obtain ⟨r, s₂, hm, h⟩ := bind_ok h
  obtain ⟨_, s₃, hun, h⟩ := bind_ok h
  cases h
  cases hun
  obtain ⟨rfl, hfree⟩ := lockBh_ok hlock
  exact ⟨s₂, hm, rfl, hfree⟩

end Locked

section Setters

variable {s : DsrNode} {Q : Unit → DsrNode → Prop} {E : Stop → Prop}

theorem wp_emit (e : Event) : wp (emit e) s Q E ↔ Q () { s with out := s.out ++ [e] } := Iff.rfl

theorem wp_setLc (lc : LcGraph) : wp (setLc lc) s Q E ↔ Q () { s with lc := lc } := Iff.rfl

theorem wp_setNeighTbl (t : Tbl Neighbor) :
    wp (setNeighTbl t) s Q E ↔ Q () { s with neighTbl := t } := Iff.rfl

theorem wp_setRreqTbl (t : Tbl RreqTblEntry) :
    wp (setRreqTbl t) s Q E ↔ Q () { s with rreqTbl := t } := Iff.rfl

theorem wp_setSendBuf (t : Tbl SendBufEntry) :
    wp (setSendBuf t) s Q E ↔ Q () { s with sendBuf := t } := Iff.rfl

theorem wp_setMaintBuf (t : Tbl MaintEntry) :
    wp (setMaintBuf t) s Q E ↔ Q () { s with maintBuf := t } := Iff.rfl

theorem wp_setAckTimer (t : Option Timeval) :
    wp (setAckTimer t) s Q E ↔ Q () { s with ackTimer := t } := Iff.rfl

end Setters

theorem release_acquire_lc (l : Lock) (s : DsrNode) (lc : LcGraph) :
    release l { acquire l s with lc := lc } = { s with lc := lc } := by
  unfold release acquire
  cases hk : s.locking <;> simp [hk]

@[simp] theorem acquire_lc (l : Lock) (s : DsrNode) : (acquire l s).lc = s.lc := by
  unfold acquire
  split <;> rfl

@[simp] theorem acquire_kmem (l : Lock) (s : DsrNode) : (acquire l s).kmem = s.kmem := by
  unfold acquire
  split <;> rfl

theorem dsrRtcFind_lookup {src dst : InAddr} (hne : src ≠ dst) {s s' : DsrNode} {r : Option DsrSrt}
    (h : dsrRtcFind src dst s = .ok r s') : ∃ f lc, lcSrtFind (srtFlags s.kmem) src dst s.lc =
      some (f, lc) ∧ r = f.srt ∧ s' = { s with lc := lc } := by
  rw [dsrRtcFind, if_neg hne] at h
  obtain ⟨s₁, hm, rfl, _⟩ := locked_ok h
  obtain ⟨t, s₀, hget, hm⟩ := bind_ok hm
  cases hget
  obtain ⟨p, s₂, hof, hm⟩ := bind_ok hm
  unfold ofOption at hof
  cases hf : lcSrtFind (srtFlags (acquire .lc s).kmem) src dst (acquire .lc s).lc with
  | none =>
    rw [hf] at hof
    cases hof
  | some q =>
    obtain ⟨f, lc⟩ := q
    rw [hf] at hof
    cases hof
    cases hm
    rw [acquire_lc, acquire_kmem] at hf
    exact ⟨f, lc, hf, rfl, release_acquire_lc .lc s lc⟩

theorem dsrRtcFind_runs {src dst : InAddr} (hne : src ≠ dst) {s : DsrNode}
    (hfree : s.locking = true → Lock.lc ∉ s.held) {f : SrtFind} {lc : LcGraph}
    (hf : lcSrtFind (srtFlags s.kmem) src dst s.lc = some (f, lc)) :
    dsrRtcFind src dst s = .ok f.srt { s with lc := lc } := by
  have hm : (do
      let s ← get
      let r ← ofOption (lcSrtFind (srtFlags s.kmem) src dst s.lc)
      setLc r.2
      pure r.1.srt : DsrM (Option DsrSrt)) (acquire .lc s) = .ok f.srt { acquire .lc s with lc := lc } := by
    show (ofOption (lcSrtFind (srtFlags (acquire .lc s).kmem) src dst (acquire .lc s).lc) >>= _)
      (acquire .lc s) = _
    rw [acquire_kmem, acquire_lc, hf]
    rfl
  have hrun := locked_runs hfree hm
  rw [release_acquire_lc] at hrun
  rw [dsrRtcFind, if_neg hne]
  exact hrun

theorem dsrRtcFind_ok {src dst : InAddr} {s s' : DsrNode} {r : Option DsrSrt}
    (h : dsrRtcFind src dst s = .ok r s') :
    (r = none ∧ s' = s) ∨ (src ≠ dst ∧ ∃ f lc, lcSrtFind (srtFlags s.kmem) src dst s.lc =
      some (f, lc) ∧ r = f.srt ∧ s' = { s with lc := lc }) := by
  by_cases hne : src = dst
  · rw [dsrRtcFind, if_pos hne] at h
    cases h
    exact Or.inl ⟨rfl, rfl⟩
  · exact Or.inr ⟨hne, dsrRtcFind_lookup hne h⟩

theorem release_acquire (l : Lock) (s : DsrNode) : release l (acquire l s) = s := by
  have h := release_acquire_lc l s s.lc
  nth_rewrite 1 [← acquire_lc l s] at h
  exact h

theorem neighTblFind_ok {addr : InAddr} {s s' : DsrNode} {r : Option Neighbor}
    (h : neighTblFind addr s = .ok r s') :
    s' = s ∧ r = s.neighTbl.find fun n => n.addr = addr := by
  obtain ⟨s₁, hm, rfl, _⟩ := locked_ok h
  cases hm
  refine ⟨release_acquire _ _, ?_⟩
  unfold acquire
  split <;> rfl

theorem neighTblFind_runs {addr : InAddr} {s : DsrNode}
    (hfree : s.locking = true → Lock.neighTbl ∉ s.held) :
    neighTblFind addr s = .ok (s.neighTbl.find fun n => n.addr = addr) s := by
  have hrun : (do
      let s ← get
      pure (s.neighTbl.find fun n => n.addr = addr) : DsrM (Option Neighbor)) (acquire .neighTbl s) =
      .ok ((acquire .neighTbl s).neighTbl.find fun n => n.addr = addr) (acquire .neighTbl s) := rfl
  have htbl : (acquire .neighTbl s).neighTbl = s.neighTbl := by
    unfold acquire
    split <;> rfl
  rw [neighTblFind, locked_runs hfree hrun, htbl, release_acquire]

theorem neighTblQuery_runs {addr : InAddr} {s : DsrNode}
    (hfree : s.locking = true → Lock.neighTbl ∉ s.held) : ∃ rto : Neighbor → ℕ, neighTblQuery addr s =
      .ok ((s.neighTbl.find fun n => n.addr = addr).map fun n =>
        { hwAddr := n.hwAddr, id := n.id, lastAckReq := n.lastAckReq, rto := rto n }) s := by
  obtain ⟨rto, hr⟩ : ∃ rto, confValToUsecs .roundTripTimeout s = .ok rto s := ⟨_, rfl⟩
  refine ⟨fun n => if rto = 0 then toUint64 (n.tRxtcur * 1000) / prSlowhz else rto, ?_⟩
  rw [neighTblQuery, bind_of_ok hr, bind_of_ok (neighTblFind_runs hfree)]
  rfl

theorem neighTblQuery_ok {addr : InAddr} {s s' : DsrNode} {r : Option NeighborInfo}
    (h : neighTblQuery addr s = .ok r s') : s' = s ∧ ∃ rto : Neighbor → ℕ, r =
      (s.neighTbl.find fun n => n.addr = addr).map fun n =>
        { hwAddr := n.hwAddr, id := n.id, lastAckReq := n.lastAckReq, rto := rto n } := by
  obtain ⟨rto, s₁, hr, h⟩ := bind_ok h
  cases hr
  obtain ⟨n, s₂, hn, h⟩ := bind_ok h
  obtain ⟨rfl, rfl⟩ := neighTblFind_ok hn
  cases h
  exact ⟨rfl, _, rfl⟩

theorem dsrHwHeaderCreate_ok {dp : DsrPkt} {s s' : DsrNode} {r : Option HwAddr}
    (h : dsrHwHeaderCreate dp s = .ok r s') : s' = s := by
  unfold dsrHwHeaderCreate at h
  split at h
  · cases h
    rfl
  · obtain ⟨mem, s₁, hk, h⟩ := bind_ok h
    cases hk
    obtain ⟨info, s₂, hq, h⟩ := bind_ok h
    cases h
    exact (neighTblQuery_ok hq).1

inductive Emitted (site : XmitSite) (dp : DsrPkt) (s : DsrNode) : DsrNode → Prop
  | kept : Emitted site dp s s
  | sent (hw : Option HwAddr) : Emitted site dp s
      { s with out := s.out ++ [.send site { hwDest := hw, nxtHop := dp.nxtHop, skb := dsrSkbCreate dp }] }

def Emits (queue : XmitSite → DsrPkt → DsrM Unit) : Prop :=
  ∀ site dp s s', queue site dp s = .ok () s' → Emitted site dp s s'

theorem devQueueXmit_emits : Emits devQueueXmit := by
  intro site dp s s' h
  obtain ⟨t, s₁, hget, h⟩ := bind_ok h
  cases hget
  split at h
  · obtain ⟨hw, s₂, hc, h⟩ := bind_ok h
    cases dsrHwHeaderCreate_ok hc
    cases h
    exact .sent hw
  · cases h
    exact .kept

theorem nsPacketDest_same {dp : DsrPkt} {s s' : DsrNode} {r : Option (Option HwAddr)}
    (h : nsPacketDest dp s = .ok r s') : s' = s := by
  unfold nsPacketDest at h
  split at h
  · cases h
    rfl
  · obtain ⟨info, s₁, hq, h⟩ := bind_ok h
    have hs := (neighTblQuery_ok hq).1
    cases info <;> cases h <;> exact hs

theorem nsSchedule_emits : Emits nsSchedule := by
  intro site dp s s' h
  obtain ⟨r, s₁, hd, h⟩ := bind_ok h
  cases nsPacketDest_same hd
  cases r with
  | none =>
    cases h
    exact .kept
  | some hw =>
    dsimp only at h
    split at h <;> cases h
    · exact .kept
    · exact .sent hw

def buildQueue (locking : Bool) : XmitSite → DsrPkt → DsrM Unit :=
  if locking then devQueueXmit else nsSchedule

theorem buildQueue_emits (locking : Bool) : Emits (buildQueue locking) := by
  cases locking
  · exact nsSchedule_emits
  · exact devQueueXmit_emits

def Settles (queue : XmitSite → DsrPkt → DsrM Unit) : Prop :=
  ∀ site dp s, (s.locking = true → Lock.neighTbl ∉ s.held) → ∃ s', queue site dp s = .ok () s'

theorem dsrHwHeaderCreate_runs (dp : DsrPkt) {s : DsrNode}
    (hfree : s.locking = true → Lock.neighTbl ∉ s.held) : ∃ r, dsrHwHeaderCreate dp s = .ok r s := by
  unfold dsrHwHeaderCreate
  split
  · exact ⟨none, rfl⟩
  · obtain ⟨rto, hquery⟩ := @neighTblQuery_runs dp.nxtHop s hfree
    refine ⟨some (((s.neighTbl.find fun n => n.addr = dp.nxtHop).map Neighbor.hwAddr).getD (s.kmem 0).toNat), ?_⟩
    rw [bind_of_ok (show kmalloc s = .ok s.kmem s from rfl), bind_of_ok hquery, Option.map_map]
    rfl

theorem devQueueXmit_settles : Settles devQueueXmit := by
  intro site dp s hfree
  obtain ⟨hw, hrun⟩ := dsrHwHeaderCreate_runs dp hfree
  unfold devQueueXmit
  rw [bind_of_ok (show (get : DsrM DsrNode) s = .ok s s from rfl)]
  split
  · rw [bind_of_ok hrun]
    exact ⟨_, rfl⟩
  · exact ⟨_, rfl⟩

theorem nsPacketDest_runs (dp : DsrPkt) {s : DsrNode}
    (hfree : s.locking = true → Lock.neighTbl ∉ s.held) : ∃ r, nsPacketDest dp s = .ok r s := by
  unfold nsPacketDest
  split
  · exact ⟨_, rfl⟩
  · obtain ⟨rto, hquery⟩ := @neighTblQuery_runs dp.nxtHop s hfree
    rw [bind_of_ok hquery]
    cases s.neighTbl.find fun n => n.addr = dp.nxtHop <;> exact ⟨_, rfl⟩

theorem nsSchedule_settles : Settles nsSchedule := by
  intro site dp s hfree
  obtain ⟨r, hrun⟩ := nsPacketDest_runs dp hfree
  unfold nsSchedule
  rw [bind_of_ok hrun]
  cases r with
  | none => exact ⟨_, rfl⟩
  | some hw =>
    dsimp only
    split <;> exact ⟨_, rfl⟩

theorem buildQueue_settles (locking : Bool) : Settles (buildQueue locking) := by
  cases locking
  · exact nsSchedule_settles
  · exact devQueueXmit_settles

theorem buildXmit_eq (setTimeout : DsrM Unit) (site : XmitSite) (dp : DsrPkt) (s : DsrNode) :
    buildXmit setTimeout site dp s = xmitVia setTimeout (buildQueue s.locking) site dp s := by
  show (if s.locking then dsrDevXmit setTimeout site dp else nsXmitNode setTimeout site dp) s = _
  cases s.locking <;> rfl

theorem xmit_eq (site : XmitSite) (dp : DsrPkt) (s : DsrNode) : xmit site dp s =
    xmitVia (maintBufSetTimeoutUnlocked s.budget) (buildQueue s.locking) site dp s :=
  buildXmit_eq (maintBufSetTimeoutUnlocked s.budget) site dp s

theorem neighTbl_find_findDo {f : Neighbor → Neighbor} (hf : ∀ n, (f n).addr = n.addr)
    (t : Tbl Neighbor) (a b : InAddr) :
    (t.findDo (fun n => n.addr = a) f).find (fun n => n.addr = b) =
      if a = b then (t.find fun n => n.addr = b).map f else t.find fun n => n.addr = b := by
  split
  · next hab =>
    subst hab
    exact Tbl.find?_updateFirst_self (fun n hn => by simpa [hf] using hn) t.head
  · next hab =>
    refine Tbl.find?_updateFirst_ne (fun n hn => ?_) t.head
    have hna : n.addr = a := of_decide_eq_true hn
    exact ⟨decide_eq_false fun hb => hab (hna.symm.trans hb),
      decide_eq_false fun hb => hab ((hf n ▸ hna).symm.trans hb)⟩

theorem neighTblFindDo_runs {addr : InAddr} {f : Neighbor → Neighbor} {s : DsrNode}
    (hfree : s.locking = true → Lock.neighTbl ∉ s.held) : neighTblFindDo addr f s =
      .ok () { s with neighTbl := s.neighTbl.findDo (fun n => n.addr = addr) f } := by
  have hrun : (do
      let s ← get
      setNeighTbl (s.neighTbl.findDo (fun n => n.addr = addr) f) : DsrM Unit) (acquire .neighTbl s) =
      .ok () { acquire .neighTbl s with
        neighTbl := (acquire .neighTbl s).neighTbl.findDo (fun n => n.addr = addr) f } := rfl
  rw [neighTblFindDo, locked_runs hfree hrun]
  unfold acquire release
  cases hk : s.locking <;> simp [hk]

section Unlocked

variable {s : DsrNode} (hl : s.locking = false)

include hl

theorem wp_unlocked {α : Type} {l : Lock} {m : DsrM α} {Q : α → DsrNode → Prop} {E : Stop → Prop}
    (hm : wp m s (fun a s' => Q a (release l s')) E) : wp (locked l m) s Q E := by
  refine wp_locked (fun h => ?_) ?_
  · rw [hl] at h
    cases h
  · rwa [acquire, hl, if_neg (by decide)]

theorem release_unlocked (l : Lock) : release l s = s := by
  rw [release, hl, if_neg (by decide)]

theorem wp_neighTblFindDo {a : InAddr} (f : Neighbor → Neighbor) {Q : Unit → DsrNode → Prop}
    {E : Stop → Prop} (hq : Q () { s with neighTbl := s.neighTbl.findDo (fun n => n.addr = a) f }) :
    wp (neighTblFindDo a f) s Q E := by
  unfold neighTblFindDo
  refine wp_unlocked hl ?_
  rw [wp_bind, wp_get, wp_setNeighTbl, release_unlocked]
  · exact hq
  · exact hl

end Unlocked

end DsrUu
