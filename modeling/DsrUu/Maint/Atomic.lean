import DsrUu.Maint.Calls
import DsrUu.Pkt.Wire

namespace DsrUu

open Effect Bytes

abbrev AddTaken := Int × DsrPkt × Option MaintEntry

def maintBufTake (dp : DsrPkt) (m : MaintEntry) : DsrM AddTaken := do
  lockBh .maintBuf
  let s ← get
  match s.maintBuf.addTail m with
  | none =>
      unlockBh .maintBuf
      pure (-1, dp, none)
  | some t =>
      emitMaint (.buffered m s.maintBuf.head)
      setMaintBuf t
      pure (1, dp, some m)

def maintBufAddPut (dp : DsrPkt) : DsrM AddTaken := do
  let mem ← kmalloc
  let now ← gettime
  match ← neighTblQuery dp.nxtHop with
  | none => pure (-1, dp, none)
  | some info =>
      let m ← maintEntryCreate dp info.id info.rto
      if dp.requestAck then
        let holdoff ← confValToUsecs .maintHoldoffTime
        if toUint64 (timevalDiff now info.lastAckReq) > holdoff then
          neighTblSetAckReqTime m.nxtHop
          neighTblIdInc m.nxtHop
          let dp := dsrAckReqOptAdd mem dp m.id
          emit (.ackReq m.nxtHop m.id)
          maintBufTake dp { m with ackReqSent := true }
        else maintBufTake dp m
      else pure (1, dp, none)

def maintBufAddEnd (setTimeout : DsrM Unit) (r : AddTaken) : DsrM (Int × DsrPkt) := do
  if r.2.2.isSome then
    setTimeout
    unlockBh .maintBuf
  pure (r.1, r.2.1)

def maintBufAddRes (setTimeout : DsrM Unit) (dp : DsrPkt) : DsrM (Int × DsrPkt) :=
  maintBufAddPut dp >>= maintBufAddEnd setTimeout

section Same

variable (setTimeout : DsrM Unit) (dp : DsrPkt)

def maintBufAddPkt (r : AddTaken) : DsrM DsrPkt := Prod.snd <$> maintBufAddEnd setTimeout r

theorem maintBufTake_enqueue (m : MaintEntry) :
    maintBufTake dp m >>= maintBufAddPkt setTimeout = (do
      maintBufEnqueue setTimeout m
      pure dp) := by
  unfold maintBufTake maintBufEnqueue locked
  simp only [bind_assoc]
  refine congrArg _ (funext fun _ => congrArg _ (funext fun s => ?_))
  cases s.maintBuf.addTail m <;> simp [maintBufAddPkt, maintBufAddEnd]

theorem maintBufAddRes_snd : Prod.snd <$> maintBufAddRes setTimeout dp = maintBufAdd setTimeout dp := by
  have hput : Prod.snd <$> maintBufAddRes setTimeout dp =
      maintBufAddPut dp >>= maintBufAddPkt setTimeout := by
    rw [maintBufAddRes, map_bind]
    rfl
  rw [hput]
  unfold maintBufAddPut maintBufAdd
  simp only [bind_assoc]
  refine congrArg _ (funext fun mem => congrArg _ (funext fun now => congrArg _ (funext fun info => ?_)))
  cases info with
  | none => simp [maintBufAddPkt, maintBufAddEnd]
  | some info =>
    simp only [bind_assoc]
    refine congrArg _ (funext fun m => ?_)
    split
    · simp only [bind_assoc]
      refine congrArg _ (funext fun holdoff => ?_)
      split
      · simp only [bind_assoc, maintBufTake_enqueue]
      · exact maintBufTake_enqueue setTimeout dp m
    · simp [maintBufAddPkt, maintBufAddEnd]

end Same

def AckReqRoom (dp : DsrPkt) : Prop :=
  ∀ p, dp.ackReqOpt = some p → dp.live p = true ∧ p.off + dsrAckReqHdrLen ≤ dp.optsLen

def ackReqOff (dp : DsrPkt) : ℕ :=
  match dp.ackReqOpt with
  | some p => p.off
  | none => if dp.optsLen = 0 then dsrOptHdrLen else dp.optsLen

structure AckReqPut (dp dp' : DsrPkt) (id : ℕ) : Prop where
  live : ∀ p, dp.ackReqOpt = some p → dp'.live p = true
  inside : ackReqOff dp + dsrAckReqHdrLen ≤ dp'.optsLen
  bytes : dp'.bytesAt (ackReqOff dp) dsrAckReqHdrLen = ackReqOptBytes id

section AckReq

variable {mem : ℕ → UInt8} {dp : DsrPkt}

theorem bytesAt_write_ackReq {b : OptBuf} {off : ℕ} (hb : dp.dh = some b)
    (hoff : off + dsrAckReqHdrLen ≤ b.raw.length) (id : ℕ) :
    (dp.write off (ackReqOptBytes id)).bytesAt off dsrAckReqHdrLen = ackReqOptBytes id := by
  rw [write_dh hb, bytesAt_dh rfl]
  have hin : off + (ackReqOptBytes id).length ≤ b.raw.length := hoff
  exact readAt_writeAt_same hin

theorem expand_room {dp₁ : DsrPkt} {len off : ℕ} {b : OptBuf} (hb : dp.dh = some b)
    (hr : b.tail ≤ b.raw.length) (h : dsrPktAllocOptsExpand mem dp len = some (dp₁, off)) :
    off = b.tail ∧ ∃ b₁, dp₁.dh = some b₁ ∧ b₁.tail = b.tail + len ∧ b.tail + len ≤ b₁.raw.length := by
  have hlen : (b.raw.take b.tail).length = b.tail := by
    rw [List.length_take, Nat.min_eq_left hr]
  obtain ⟨hoff, ⟨junk, hdh, hjunk⟩, -⟩ := expand_raw hb (List.take_append_drop b.tail b.raw).symm hlen h
  refine ⟨hoff, _, hdh, rfl, ?_⟩
  rw [List.length_append, hlen]
  exact Nat.add_le_add_left hjunk b.tail

theorem AckReqPut.of_write {dp₀ : DsrPkt} {b : OptBuf} (hack : dp.ackReqOpt = none)
    (hb : dp₀.dh = some b) (htail : ackReqOff dp + dsrAckReqHdrLen ≤ b.tail)
    (hraw : ackReqOff dp + dsrAckReqHdrLen ≤ b.raw.length) (id : ℕ) :
    AckReqPut dp (dp₀.write (ackReqOff dp) (ackReqOptBytes id)) id := by
  refine ⟨fun p hp => ?_, ?_, bytesAt_write_ackReq hb hraw id⟩
  · rw [hack] at hp
    cases hp
  · rw [optsLen_write, optsLen_dh hb]
    exact htail

theorem dsrAckReqOptAdd_alloc (hack : dp.ackReqOpt = none) (hzero : dp.optsLen = 0) (id : ℕ) :
    AckReqPut dp (dsrAckReqOptAdd mem dp id) id := by
  have hoff : ackReqOff dp = dsrOptHdrLen := by simp [ackReqOff, hack, hzero]
  rw [dsrAckReqOptAdd, hack]
  dsimp only
  rw [if_pos hzero, ← hoff]
  obtain ⟨b, hb, htail, hlen⟩ := write_room (dsrBuildIp (dsrPktAllocOpts mem dp (dsrOptHdrLen + dsrAckReqHdrLen))
    dp.src dp.dst ((if dp.nh = .null then 0 else dp.iph.totLen) + (dsrOptHdrLen + dsrAckReqHdrLen))
    ipprotoDsr (if dp.nh = .null then ipDefTtl else dp.iph.ttl)) 0
    (optHdrBytes (dsrOptHdrLen + dsrAckReqHdrLen) (if dp.nh = .null then 0 else dp.iph.protocol)) rfl
  rw [← hoff] at hb htail hlen
  apply AckReqPut.of_write hack hb
  · exact Nat.le_of_eq htail.symm
  · simp [hlen]

theorem dsrAckReqOptAdd_expand {b : OptBuf} (hb : dp.dh = some b) (hr : b.tail ≤ b.raw.length)
    (hack : dp.ackReqOpt = none) (hlen : dp.optsLen ≠ 0) (id : ℕ) :
    AckReqPut dp (dsrAckReqOptAdd mem dp id) id := by
  have htail : dp.optsLen = b.tail := optsLen_dh hb
  have hoff : ackReqOff dp = b.tail := by rw [ackReqOff, hack, if_neg hlen, htail]
  rw [dsrAckReqOptAdd, hack]
  dsimp only
  rw [if_neg hlen]
  cases he : dsrPktAllocOptsExpand mem dp dsrAckReqHdrLen with
  | none =>
    unfold dsrPktAllocOptsExpand at he
    rw [hb] at he
    dsimp only at he
    split at he <;> cases he
  | some r =>
    obtain ⟨dp₁, off⟩ := r
    obtain ⟨rfl, b₁, hb₁, htail₁, hroom⟩ := expand_room hb hr he
    dsimp only
    obtain ⟨b₂, hb₂, htail₂, hlen₂⟩ := write_room (dsrBuildIp dp₁ dp₁.src dp₁.dst
      ((if dp.nh = .null then 0 else dp.iph.totLen) + dsrAckReqHdrLen) ipprotoDsr
      (if dp.nh = .null then ipDefTtl else dp.iph.ttl)) 0 _ hb₁
    rw [← hoff] at hroom htail₁ ⊢
    apply AckReqPut.of_write hack hb₂
    · exact Nat.le_of_eq (htail₂.trans htail₁).symm
    · exact hroom.trans (Nat.le_of_eq hlen₂.symm)

theorem dsrAckReqOptAdd_over {p : OptPtr} (hack : dp.ackReqOpt = some p) (id : ℕ)
    (hr : ∀ b, dp.dh = some b → b.tail ≤ b.raw.length) :
    AckReqPut dp (dsrAckReqOptAdd mem dp id) id ↔
      dp.live p = true ∧ p.off + dsrAckReqHdrLen ≤ dp.optsLen := by
  have hoff : ackReqOff dp = p.off := by rw [ackReqOff, hack]
  have hadd : dsrAckReqOptAdd mem dp id = dp.writeField p 0 (ackReqOptBytes id) := by
    rw [dsrAckReqOptAdd, hack]
  rw [hadd]
  constructor
  · intro h
    have hlive := h.live p hack
    have hin := h.inside
    rw [hoff, optsLen_writeField] at hin
    exact ⟨by rwa [live_writeField] at hlive, hin⟩
  · rintro ⟨hlive, hin⟩
    cases hb : dp.dh with
    | none =>
      rw [DsrPkt.live, hb] at hlive
      cases hlive
    | some b =>
      refine ⟨fun q hq => ?_, ?_, ?_⟩
      · rw [hack] at hq
        cases hq
        rwa [live_writeField]
      · rwa [hoff, optsLen_writeField]
      · rw [optsLen_dh hb] at hin
        rw [hoff, writeField_live hlive]
        exact bytesAt_write_ackReq hb (hin.trans (hr b hb)) id

theorem ackReqPut_iff (hr : ∀ b, dp.dh = some b → b.tail ≤ b.raw.length) (id : ℕ) :
    AckReqPut dp (dsrAckReqOptAdd mem dp id) id ↔ AckReqRoom dp := by
  cases hack : dp.ackReqOpt with
  | some p =>
    rw [dsrAckReqOptAdd_over hack id hr, AckReqRoom, hack]
    constructor
    · rintro h _ ⟨⟩
      exact h
    · exact fun h => h p rfl
  | none =>
    have hroom : AckReqRoom dp := fun p hp => by
      rw [hack] at hp
      cases hp
    refine iff_of_true ?_ hroom
    cases hb : dp.dh with
    | none => exact dsrAckReqOptAdd_alloc hack (by rw [DsrPkt.optsLen, hb]) id
    | some b =>
      by_cases hzero : dp.optsLen = 0
      · exact dsrAckReqOptAdd_alloc hack hzero id
      · exact dsrAckReqOptAdd_expand hb (hr b hb) hack hzero id

end AckReq

section Put

variable {s s₁ : DsrNode} {dp : DsrPkt}

theorem maintBufTake_ok {m : MaintEntry} {r : AddTaken} (h : maintBufTake dp m s = .ok r s₁) :
    (s.maintBuf.full = true ∧ r = (-1, dp, none) ∧ s₁ = s) ∨
      (s.maintBuf.full = false ∧ r = (1, dp, some m) ∧
        s₁.maintBuf.head = s.maintBuf.head ++ [m] ∧ s₁.neighTbl = s.neighTbl) := by
  obtain ⟨_, s₂, hlock, h⟩ := bind_ok h
  obtain ⟨rfl, -⟩ := lockBh_ok hlock
  obtain ⟨t, s₃, hg, h⟩ := bind_ok h
  cases hg
  have hbuf : (acquire .maintBuf s).maintBuf = s.maintBuf := (Apart.acquire .maintBuf s).maintBuf
  have htbl : (acquire .maintBuf s).neighTbl = s.neighTbl := (Apart.acquire .maintBuf s).neighTbl
  rw [hbuf] at h
  by_cases hfull : s.maintBuf.maxLen ≤ s.maintBuf.len
  · rw [Tbl.addTail_of_full m hfull] at h
    obtain ⟨_, s₄, hun, h⟩ := bind_ok h
    cases hun
    cases h
    exact .inl ⟨decide_eq_true hfull, rfl, release_acquire .maintBuf s⟩
  · rw [Tbl.addTail_of_lt m (Nat.lt_of_not_le hfull)] at h
    obtain ⟨_, s₄, hemit, h⟩ := bind_ok h
    cases hemit
    cases h
    exact .inr ⟨decide_eq_false hfull, rfl, rfl, htbl⟩

structure AllOrNothing (s : DsrNode) (dp : DsrPkt) (r : Int) (dp' : DsrPkt) (s₁ : DsrNode) : Prop where
  nothing : r = -1 → s₁.neighTbl = s.neighTbl ∧ s₁.maintBuf = s.maintBuf ∧ dp'.dh = dp.dh
  all : r = 1 → ∃ e, s₁.maintBuf.head = s.maintBuf.head ++ [e] ∧ e.nxtHop = dp.nxtHop ∧
    (e.ackReqSent = true ↔ s₁.neighTbl = neighTblIssue s dp.nxtHop ∧ AckReqPut dp dp' e.id) ∧
    (e.ackReqSent = false → s₁.neighTbl = s.neighTbl ∧ dp' = dp)

inductive AddPut (s : DsrNode) (dp : DsrPkt) (r : AddTaken) (s₁ : DsrNode) : Prop
  | unknown : s.neighTbl.find (fun n => n.addr = dp.nxtHop) = none → r = (-1, dp, none) → s₁ = s →
      AddPut s dp r s₁
  | holdoff {n mdp} : s.neighTbl.find (fun n => n.addr = dp.nxtHop) = some n → ackDue s dp = false →
      maintBufTake dp (maintEntryNew s n dp.nxtHop mdp) s = .ok r s₁ → AddPut s dp r s₁
  | due {n mdp} : s.neighTbl.find (fun n => n.addr = dp.nxtHop) = some n → ackDue s dp = true →
      maintBufTake (dsrAckReqOptAdd s.kmem dp n.id)
        { maintEntryNew s n dp.nxtHop mdp with ackReqSent := true }
        { s with neighTbl := neighTblIssue s dp.nxtHop, out := s.out ++ [.ackReq dp.nxtHop n.id] } =
        .ok r s₁ → AddPut s dp r s₁

theorem maintBufAddPut_ok {r : AddTaken} (hack : dp.requestAck = true)
    (h : maintBufAddPut dp s = .ok r s₁) : AddPut s dp r s₁ := by
  obtain ⟨mem, s₂, hk, h⟩ := bind_ok h
  cases hk
  obtain ⟨now, s₃, hg, h⟩ := bind_ok h
  cases hg
  obtain ⟨info, s₄, hq, h⟩ := bind_ok h
  obtain ⟨rfl, rfl⟩ := neighTblQuery_rto hq
  cases hf : s₄.neighTbl.find fun n => n.addr = dp.nxtHop with
  | none =>
    simp only [hf, Option.map_none] at h
    cases h
    exact .unknown hf rfl rfl
  | some n =>
    simp only [hf, Option.map_some] at h
    obtain ⟨m, s₅, hm, h⟩ := bind_ok h
    obtain ⟨rfl, mdp, rfl⟩ := maintEntryCreate_new hm
    rw [if_pos hack] at h
    obtain ⟨holdoff, s₆, hc, h⟩ := bind_ok h
    cases hc
    have hdue : ackDue s₅ dp = decide (toUint64 (timevalDiff s₅.now n.lastAckReq) >
        usecsOf .maintHoldoffTime (s₅.confvals .maintHoldoffTime)) := by
      unfold ackDue
      rw [hf]
    split at h
    · next hlt =>
      obtain ⟨_, s₆, hset, h⟩ := bind_ok h
      obtain ⟨now, s₇, hg, hset⟩ := bind_ok hset
      cases hg
      have h₆ := neighTblFindDo_ok hset
      obtain ⟨_, s₈, hinc, h⟩ := bind_ok h
      have h₈ := neighTblFindDo_ok hinc
      obtain ⟨_, s₉, hemit, h⟩ := bind_ok h
      cases hemit
      subst h₆ h₈
      exact .due hf (hdue.trans (decide_eq_true hlt)) h
    · next hge => exact .holdoff hf (hdue.trans (decide_eq_false hge)) h

theorem neighTblIssue_ne {n : Neighbor} (hn : s.neighTbl.find (fun n => n.addr = dp.nxtHop) = some n) :
    neighTblIssue s dp.nxtHop ≠ s.neighTbl := by
  intro heq
  have hset := neighTbl_find_findDo (f := fun n => { n with lastAckReq := s.now }) (fun _ => rfl)
    s.neighTbl dp.nxtHop dp.nxtHop
  have hinc := neighTbl_find_findDo (f := fun n => { n with id := (n.id + 1) % 65536 }) (fun _ => rfl)
    (s.neighTbl.findDo (fun n => n.addr = dp.nxtHop) fun n => { n with lastAckReq := s.now })
    dp.nxtHop dp.nxtHop
  rw [if_pos rfl, hn] at hset
  rw [if_pos rfl, hset] at hinc
  have hfind : (neighTblIssue s dp.nxtHop).find (fun n => n.addr = dp.nxtHop) = some n := heq ▸ hn
  have hid := congrArg (Option.map Neighbor.id) (hinc.symm.trans hfind)
  simp only [Option.map_some, Option.some.injEq] at hid
  omega

theorem maintBufAddEnd_none {setTimeout : DsrM Unit} {r q : Int} {dp₁ dp' : DsrPkt} {s' : DsrNode}
    (h : maintBufAddEnd setTimeout (q, dp₁, none) s = .ok (r, dp') s') :
    q = r ∧ dp₁ = dp' ∧ s' = s := by
  cases h
  exact ⟨rfl, rfl, rfl⟩

theorem maintBufAddEnd_some {setTimeout : DsrM Unit} {r q : Int} {dp₁ dp' : DsrPkt} {m : MaintEntry}
    {s' : DsrNode} (h : maintBufAddEnd setTimeout (q, dp₁, some m) s = .ok (r, dp') s') :
    q = r ∧ dp₁ = dp' := by
  obtain ⟨_, s₂, _, h⟩ := bind_ok h
  cases h
  exact ⟨rfl, rfl⟩

theorem AllOrNothing.of_same {r : Int} (hr : r = -1) : AllOrNothing s dp r dp s :=
  ⟨fun _ => ⟨rfl, rfl, rfl⟩, fun h => by rw [hr] at h; cases h⟩

theorem AllOrNothing.of_held {m : MaintEntry} {r : Int} {n : Neighbor} (hr : r = 1)
    (hn : s.neighTbl.find (fun n => n.addr = dp.nxtHop) = some n)
    (hhead : s₁.maintBuf.head = s.maintBuf.head ++ [m]) (hnxt : m.nxtHop = dp.nxtHop)
    (hsent : m.ackReqSent = false) (htbl : s₁.neighTbl = s.neighTbl) : AllOrNothing s dp r dp s₁ := by
  refine ⟨fun h => ?_, fun _ => ⟨m, hhead, hnxt, ?_, fun _ => ⟨htbl, rfl⟩⟩⟩
  · rw [hr] at h
    cases h
  · refine iff_of_false (by rw [hsent]; decide) fun h => ?_
    exact neighTblIssue_ne hn (h.1.symm.trans htbl)

theorem allOrNothing_due {m : MaintEntry} {r : Int} {dp' : DsrPkt} (hr : r = 1)
    (hhead : s₁.maintBuf.head = s.maintBuf.head ++ [m]) (hnxt : m.nxtHop = dp.nxtHop)
    (hsent : m.ackReqSent = true) (htbl : s₁.neighTbl = neighTblIssue s dp.nxtHop) :
    AllOrNothing s dp r dp' s₁ ↔ AckReqPut dp dp' m.id := by
  constructor
  · intro h
    obtain ⟨e, he, -, hiff, -⟩ := h.all hr
    have hem : [e] = [m] := List.append_cancel_left (he.symm.trans hhead)
    obtain rfl : e = m := List.head_eq_of_cons_eq hem
    exact (hiff.mp hsent).2
  · intro hput
    refine ⟨fun h => ?_, fun _ => ⟨m, hhead, hnxt, iff_of_true hsent ⟨htbl, hput⟩, fun h => ?_⟩⟩
    · rw [hr] at h
      cases h
    · rw [hsent] at h
      cases h

theorem AddPut.atomic_iff {r : Int} {dp' : DsrPkt} {m : Option MaintEntry}
    (hr : ∀ b, dp.dh = some b → b.tail ≤ b.raw.length) (h : AddPut s dp (r, dp', m) s₁) :
    (r = -1 ∧ m = none ∨ r = 1 ∧ m.isSome = true) ∧ (AllOrNothing s dp r dp' s₁ ↔
      (ackDue s dp = true → s.maintBuf.full = false ∧ AckReqRoom dp)) := by
  cases h with
  | unknown hn heq hs =>
    cases heq
    subst hs
    refine ⟨.inl ⟨rfl, rfl⟩, iff_of_true (.of_same rfl) fun hdue => ?_⟩
    rw [ackDue, hn] at hdue
    cases hdue
  | holdoff hn hdue htake =>
    have hno : ackDue s dp = true → s.maintBuf.full = false ∧ AckReqRoom dp := by
      rw [hdue]
      exact fun h => absurd h Bool.false_ne_true
    rcases maintBufTake_ok htake with ⟨-, heq, rfl⟩ | ⟨-, heq, hhead, htbl⟩
    · cases heq
      exact ⟨.inl ⟨rfl, rfl⟩, iff_of_true (.of_same rfl) hno⟩
    · cases heq
      exact ⟨.inr ⟨rfl, rfl⟩, iff_of_true (.of_held rfl hn hhead rfl rfl htbl) hno⟩
  | due hn hdue htake =>
    rcases maintBufTake_ok htake with ⟨hfull, heq, rfl⟩ | ⟨hroom, heq, hhead, htbl⟩
    · cases heq
      refine ⟨.inl ⟨rfl, rfl⟩, iff_of_false (fun h => ?_) fun h => ?_⟩
      · exact neighTblIssue_ne hn (h.nothing rfl).1
      · have hopen : s.maintBuf.full = false := (h hdue).1
        dsimp only at hfull
        rw [hopen] at hfull
        cases hfull
    · cases heq
      refine ⟨.inr ⟨rfl, rfl⟩, ?_⟩
      rw [allOrNothing_due (s := s) rfl hhead rfl rfl htbl]
      refine (ackReqPut_iff hr _).trans ⟨fun h _ => ⟨hroom, h⟩, fun h => (h hdue).2⟩

end Put

theorem maintBufAdd_atomic_iff {setTimeout : DsrM Unit} {s s' : DsrNode} {dp dp' : DsrPkt} {r : Int}
    (hack : dp.requestAck = true) (hr : ∀ b, dp.dh = some b → b.tail ≤ b.raw.length)
    (hrun : maintBufAddRes setTimeout dp s = .ok (r, dp') s') :
    (r = -1 ∨ r = 1) ∧ ∃ m s₁, maintBufAddPut dp s = .ok (r, dp', m) s₁ ∧
      maintBufAddEnd setTimeout (r, dp', m) s₁ = .ok (r, dp') s' ∧ (r = -1 → s' = s₁) ∧
      (AllOrNothing s dp r dp' s₁ ↔
        (ackDue s dp = true → s.maintBuf.full = false ∧ AckReqRoom dp)) := by
  obtain ⟨⟨q, dp₁, m⟩, s₁, hput, hend⟩ := bind_ok hrun
  obtain ⟨hcase, hiff⟩ := (maintBufAddPut_ok hack hput).atomic_iff hr
  rcases hcase with ⟨rfl, rfl⟩ | ⟨rfl, hm⟩
  · obtain ⟨rfl, rfl, rfl⟩ := maintBufAddEnd_none hend
    exact ⟨.inl rfl, none, s', hput, hend, fun _ => rfl, hiff⟩
  · cases m with
    | none => cases hm
    | some m =>
      obtain ⟨rfl, rfl⟩ := maintBufAddEnd_some hend
      have hret : (1 : Int) = -1 → s' = s₁ := fun h => absurd h (by decide)
      exact ⟨.inr rfl, some m, s₁, hput, hend, hret, hiff⟩

def askingPkt : DsrPkt :=
  { dsrPktAlloc (fun _ => 0)
      { hSource := 0
        iph := { ihl := 5, totLen := 21, ttl := 64, protocol := 17, saddr := detourHost 1
                 daddr := detourHost 2 }
        data := [7] } with nxtHop := detourHost 2 }

def askingNode (entries : List MaintEntry) : DsrNode :=
  { dsrNodeInit (detourHost 1) confvalsDef true 20 ⟨100, 0⟩ (fun _ => 0) 0 with
    neighTbl := { head := [neighTblCreate (detourHost 2) 2 1], len := 1, maxLen := neighTblMaxLen }
    maintBuf := { head := entries, len := entries.length, maxLen := 1 } }

def waitingEntry : MaintEntry :=
  maintEntryNew (askingNode []) (neighTblCreate (detourHost 3) 3 1) (detourHost 3) askingPkt

theorem maintBufAdd_atomic_empty : ∃ dp' s' s₁, AllOrNothing (askingNode []) askingPkt 1 dp' s₁ ∧
    maintBufAddRes maintBufSetTimeout askingPkt (askingNode []) = .ok (1, dp') s' := by
  have hsome : (okVal (maintBufAddRes maintBufSetTimeout askingPkt (askingNode []))).map Prod.fst =
      some 1 := by decide +kernel
  obtain ⟨⟨r, dp'⟩, hr, rfl⟩ := Option.map_eq_some_iff.mp hsome
  obtain ⟨s', hrun⟩ := okVal_eq_some hr
  obtain ⟨-, m, s₁, -, -, -, hiff⟩ := maintBufAdd_atomic_iff rfl (fun b hb => by cases hb) hrun
  refine ⟨dp', s', s₁, hiff.mpr fun _ => ⟨by decide +kernel, fun p hp => ?_⟩, hrun⟩
  cases hp

theorem maintBufAdd_not_atomic : ∃ dp' s', askingPkt.requestAck = true ∧
    maintBufAddRes maintBufSetTimeout askingPkt (askingNode [waitingEntry]) = .ok (-1, dp') s' ∧
    s'.maintBuf.head = [waitingEntry] ∧
    (askingNode [waitingEntry]).neighTbl.head.map (fun n => (n.id, n.lastAckReq)) = [(1, ⟨0, 0⟩)] ∧
    s'.neighTbl.head.map (fun n => (n.id, n.lastAckReq)) = [(2, ⟨100, 0⟩)] ∧
    askingPkt.dh = none ∧ dp'.optsLen = 8 := by
  have hsome : (okVal (maintBufAddRes maintBufSetTimeout askingPkt (askingNode [waitingEntry]))).map
      (fun r => (r.1, r.2.optsLen)) = some (-1, 8) := by decide +kernel
  obtain ⟨⟨r, dp'⟩, hr, heq⟩ := Option.map_eq_some_iff.mp hsome
  obtain ⟨rfl, hlen⟩ := Prod.mk.inj heq
  obtain ⟨s', hrun⟩ := okVal_eq_some hr
  have hend : s'.maintBuf.head = [waitingEntry] := by
    cases hrun
    rfl
  refine ⟨dp', s', rfl, hrun, hend, by decide +kernel, ?_, rfl, hlen⟩
  cases hrun
  decide +kernel

end DsrUu
