import DsrUu.Effect.Conduct
import DsrUu.Maint.Calls
import DsrUu.Node.Arrival
import DsrUu.Node.Handed
import DsrUu.Node.HdrLen
import DsrUu.Node.Journey
import DsrUu.Node.Light
import DsrUu.Node.RreqTbl
import DsrUu.Node.Run

namespace DsrUu

open Effect

def lockRank : Lock → ℕ
  | .sendBuf => 0
  | .maintBuf => 1
  | .rreqTbl => 1
  | .lc | .neighTbl | .rreqIdTbl _ | .gratRrepTbl => 2

def Below (n : ℕ) (s : DsrNode) : Prop := s.locking = true → ∀ l ∈ s.held, lockRank l < n

def Known (s : DsrNode) (a : InAddr) : Prop := (s.neighTbl.find fun n => n.addr = a).isSome = true

structure Further (s s' : DsrNode) : Prop where
  out : s.out <+: s'.out
  known : ∀ a, Known s a → Known s' a

structure Unwound (s s' : DsrNode) : Prop extends Further s s' where
  locking : s'.locking = s.locking
  held : s'.held = s.held

def Broke (s s' : DsrNode) : Prop := ∃ es now m, s'.out = s.out ++ es ∧ Event.maint now (.linkBreak m) ∈ es

def Reentered (s s' : DsrNode) : Prop := ∃ es dp due, s'.out = s.out ++ es ∧ Event.xmit .salvage dp due ∈ es ∧
  dp.requestAck = true ∧ Known s' dp.nxtHop

structure Blame where
  on : Lock → DsrNode → DsrNode → Prop
  later : ∀ {l a b c}, Further a b → on l b c → on l a c

section Below

variable {n k : ℕ} {l : Lock} {s s' : DsrNode}

theorem prefix_of_eq {a b : List Event} (h : b = a) : a <+: b := h ▸ List.prefix_rfl

theorem Known.of_eq (h : s'.neighTbl = s.neighTbl) (a : InAddr) : Known s' a ↔ Known s a := by
  rw [Known, Known, h]

theorem Further.of_eq (ho : s'.out = s.out) (hn : s'.neighTbl = s.neighTbl) : Further s s' :=
  ⟨prefix_of_eq ho, fun a => (Known.of_eq hn a).mpr⟩

theorem Further.refl (s : DsrNode) : Further s s := .of_eq rfl rfl

theorem Further.emit (s : DsrNode) (es : List Event) : Further s { s with out := s.out ++ es } :=
  ⟨List.prefix_append s.out es, fun _ h => h⟩

theorem Unwound.refl (s : DsrNode) : Unwound s s := ⟨.refl s, rfl, rfl⟩

theorem Unwound.trans {a b c : DsrNode} (h : Unwound a b) (h' : Unwound b c) : Unwound a c :=
  ⟨⟨h.out.trans h'.out, fun x hx => h'.known x (h.known x hx)⟩, h'.locking.trans h.locking, h'.held.trans h.held⟩

theorem Unwound.below (h : Unwound s s') (hs : Below n s) : Below n s' := by
  rw [Below, h.locking, h.held]
  exact hs

theorem Below.mono (h : Below k s) (hle : k ≤ n) : Below n s :=
  fun hk l hl => Nat.lt_of_lt_of_le (h hk l hl) hle

theorem Below.free (h : Below n s) (hle : n ≤ lockRank l) : s.locking = true → l ∉ s.held :=
  fun hk hl => absurd (h hk l hl) (Nat.not_lt.mpr hle)

theorem Below.of_nil (h : s.held = []) : Below n s := by
  intro _ l hl
  rw [h] at hl
  exact absurd hl List.not_mem_nil

@[simp] theorem acquire_out (l : Lock) (s : DsrNode) : (acquire l s).out = s.out := by
  unfold acquire
  split <;> rfl

@[simp] theorem release_out (l : Lock) (s : DsrNode) : (release l s).out = s.out := by
  unfold release
  split <;> rfl

@[simp] theorem acquire_neighTbl (l : Lock) (s : DsrNode) : (acquire l s).neighTbl = s.neighTbl := by
  unfold acquire
  split <;> rfl

@[simp] theorem release_neighTbl (l : Lock) (s : DsrNode) : (release l s).neighTbl = s.neighTbl := by
  unfold release
  split <;> rfl

theorem held_acquire (hk : s.locking = true) : (acquire l s).held = l :: s.held := by
  rw [acquire, if_pos hk]

theorem Below.enter (h : Below k s) (hle : k ≤ n) (hlt : lockRank l < n) : Below n (acquire l s) := by
  intro hk
  rw [acquire_locking] at hk
  rw [held_acquire hk]
  intro l' hl
  rcases List.mem_cons.mp hl with rfl | hl
  · exact hlt
  · exact Nat.lt_of_lt_of_le (h hk l' hl) hle

theorem Below.acquire (h : Below n s) (hle : n ≤ lockRank l) : Below (lockRank l + 1) (acquire l s) :=
  h.enter (Nat.le_succ_of_le hle) (Nat.lt_succ_self _)

theorem Unwound.released (h : Unwound (DsrUu.acquire l s) s') : Unwound s (release l s') := by
  have hk : s'.locking = s.locking := h.locking.trans (acquire_locking l s)
  refine ⟨⟨by simpa using h.out, fun a ha => ?_⟩, ?_, ?_⟩
  · rw [Known.of_eq (release_neighTbl l s')]
    exact h.known a ((Known.of_eq (acquire_neighTbl l s) a).mpr ha)
  · unfold release
    split <;> exact hk
  · have hheld := h.held
    cases hc : s.locking with
    | true =>
      rw [held_acquire hc] at hheld
      simp [release, hk, hc, hheld]
    | false =>
      rw [DsrUu.acquire, hc, if_neg Bool.false_ne_true] at hheld
      simp [release, hk, hc, hheld]

theorem Broke.later {a b c : DsrNode} (h : a.out <+: b.out) (hb : Broke b c) : Broke a c := by
  obtain ⟨d, hd⟩ := h
  obtain ⟨es, now, m, hes, hm⟩ := hb
  refine ⟨d ++ es, now, m, ?_, List.mem_append_right d hm⟩
  rw [hes, ← hd, List.append_assoc]

theorem Reentered.later {a b c : DsrNode} (h : a.out <+: b.out) (hr : Reentered b c) : Reentered a c := by
  obtain ⟨d, hd⟩ := h
  obtain ⟨es, dp, due, hes, hx, hrest⟩ := hr
  refine ⟨d ++ es, dp, due, ?_, List.mem_append_right d hx, hrest⟩
  rw [hes, ← hd, List.append_assoc]

theorem Reentered.out (h : Reentered s s') : s.out <+: s'.out := by
  obtain ⟨es, -, -, hes, -⟩ := h
  exact ⟨es, hes.symm⟩

theorem Broke.out (h : Broke s s') : s.out <+: s'.out := by
  obtain ⟨es, -, -, hes, -⟩ := h
  exact ⟨es, hes.symm⟩

theorem Broke.of_emit {s₁ : DsrNode} {now : Timeval} {m : MaintEntry}
    (h : s₁.out = s.out ++ [.maint now (.linkBreak m)]) (hout : s₁.out <+: s'.out) : Broke s s' := by
  obtain ⟨b, hb⟩ := hout
  refine ⟨.maint now (.linkBreak m) :: b, now, m, ?_, List.mem_cons_self⟩
  rw [← hb, h, List.append_assoc, List.singleton_append]

end Below

namespace Blame

def conduct (B : Blame) : Conduct Stop DsrNode where
  step := Unwound
  blame e s s' := ∀ l, e = .relock l → B.on l s s'
  refl := Unwound.refl
  trans := Unwound.trans
  later h hb l he := B.later h.toFurther (hb l he)

def never : Blame where
  on _ _ _ := False
  later _ h := h

def salvaging : Blame where
  on l s s' := l = .maintBuf ∧ Broke s s' ∧ Reentered s s'
  later h hb := ⟨hb.1, hb.2.1.later h.out, hb.2.2.later h.out⟩

def onSendBuf : Blame where
  on l _ _ := l = .sendBuf
  later _ h := h

def reentering : Blame where
  on l s s' := l = .maintBuf ∧ Reentered s s'
  later h hb := ⟨hb.1, hb.2.later h.out⟩

def knowing (a : InAddr) : Blame where
  on l s s' := l = .maintBuf ∧ s.out <+: s'.out ∧ (Known s a → Known s' a ∨ Reentered s s')
  later h hb := ⟨hb.1, h.out.trans hb.2.1, fun hk => (hb.2.2 (h.known a hk)).imp id fun hr => hr.later h.out⟩

def clashing : Blame where
  on l s s' := l = .maintBuf ∧ Broke s s' ∧ Reentered s s' ∨ l = .sendBuf
  later h hb := hb.imp (fun hb => ⟨hb.1, hb.2.1.later h.out, hb.2.2.later h.out⟩) id

end Blame

def Tidy {α : Type} (B : Blame) (n : ℕ) (m : DsrM α) : Prop := B.conduct.Of (Below n) m

namespace Tidy

variable {α β : Type} {B B' : Blame} {n k : ℕ}

theorem stable (B : Blame) (n : ℕ) : B.conduct.Stable (Below n) := fun _ _ h => h.below

theorem pure (a : α) : Tidy B n (pure a) := Conduct.pure a

theorem read (f : DsrNode → α) : Tidy B n (do let s ← get; Pure.pure (f s)) := Conduct.read f

theorem stop {e : Stop} (he : ∀ l, e ≠ .relock l) : Tidy B n (throw e : DsrM α) :=
  fun _ _ l h => absurd h (he l)

theorem bind {m : DsrM α} {f : α → DsrM β} (hm : Tidy B n m) (hf : ∀ a, Tidy B n (f a)) : Tidy B n (m >>= f) :=
  Conduct.bind (stable B n) hm hf

theorem get_bind {f : DsrNode → DsrM β} (hf : ∀ s, Tidy B n (f s)) : Tidy B n (get >>= f) :=
  fun s hs => hf s s hs

theorem ite {c : Prop} [Decidable c] {m m' : DsrM α} (h : c → Tidy B n m) (h' : ¬ c → Tidy B n m') :
    Tidy B n (if c then m else m') := Conduct.ite h h'

theorem weaken {m : DsrM α} (h : Tidy B n m) (hle : k ≤ n) (hB : ∀ l s s', B.on l s s' → B'.on l s s') :
    Tidy B' k m :=
  Conduct.weaken h (fun _ hs => hs.mono hle) (fun _ _ h => h) fun _ _ _ h l he => hB l _ _ (h l he)

theorem lower {m : DsrM α} (h : Tidy B n m) (hle : k ≤ n) : Tidy B k m := h.weaken hle fun _ _ _ h => h

theorem ofNever {m : DsrM α} (h : Tidy .never n m) : Tidy B n m := h.weaken (Nat.le_refl n) fun _ _ _ h => h.elim

theorem set {f : DsrNode → DsrNode} (hk : ∀ s, (f s).locking = s.locking) (hh : ∀ s, (f s).held = s.held)
    (ho : ∀ s, (f s).out = s.out) (hn : ∀ s, (f s).neighTbl = s.neighTbl) : Tidy B n (modify f : DsrM PUnit) :=
  Conduct.modify fun s => ⟨.of_eq (ho s) (hn s), hk s, hh s⟩

theorem emits (f : DsrNode → List Event) : Tidy B n (modify fun s => { s with out := s.out ++ f s } : DsrM PUnit) :=
  Conduct.modify fun s => ⟨.emit s _, rfl, rfl⟩

theorem ofOption (o : Option α) : Tidy B n (ofOption o) := by
  cases o with
  | none => exact stop fun l => nofun
  | some a => exact pure a

theorem lockBh_run {l : Lock} {s : DsrNode} (hl : s.locking = true → l ∉ s.held) :
    lockBh l s = .ok () (acquire l s) := by
  obtain ⟨_, s', hrun, rfl⟩ := ok_of_wp (wp_lockBh (Q := fun _ t => t = acquire l s) hl rfl)
  exact hrun

theorem relocked_at {l : Lock} {m : DsrM α} {s : DsrNode} {Q : α → DsrNode → Prop} {E : Stop → DsrNode → Prop}
    (hk : s.locking = true) (hl : l ∈ s.held) (he : E (.relock l) s) : outcome (DsrUu.locked l m) s Q E := by
  unfold DsrUu.locked lockBh
  simpa [hk, hl] using he

theorem locked_at {l : Lock} {m : DsrM α} {s : DsrNode} (hl : s.locking = true → l ∉ s.held)
    (hm : outcome m (acquire l s) (fun _ s' => Unwound (acquire l s) s') fun e s' =>
      ∀ l', e = .relock l' → B.on l' (acquire l s) s') :
    outcome (DsrUu.locked l m) s (fun _ s' => Unwound s s') fun e s' => ∀ l', e = .relock l' → B.on l' s s' := by
  have hrest : outcome (do let r ← m; unlockBh l; Pure.pure r : DsrM α) (acquire l s)
      (fun _ s' => Unwound s s') fun e s' => ∀ l', e = .relock l' → B.on l' s s' := by
    rw [outcome_bind]
    apply outcome_mono hm
    · intro r s' h
      exact h.released
    · intro e s' h l' he
      exact B.later (.of_eq (acquire_out l s) (acquire_neighTbl l s)) (h l' he)
  unfold DsrUu.locked
  rw [outcome, bind_of_ok (lockBh_run hl)]
  exact hrest

theorem locked {l : Lock} {m : DsrM α} (hle : n ≤ lockRank l) (hm : Tidy B (lockRank l + 1) m) :
    Tidy B n (locked l m) :=
  fun s hs => locked_at (hs.free hle) (hm (acquire l s) (hs.acquire hle))

theorem locked_or {l : Lock} {m : DsrM α} (hB : ∀ s, B.on l s s) (hlt : lockRank l < n) (hm : Tidy B n m) :
    Tidy B n (DsrUu.locked l m) := by
  intro s hs
  by_cases hl : s.locking = true ∧ l ∈ s.held
  · refine relocked_at hl.1 hl.2 fun l' he => ?_
    cases he
    exact hB s
  · exact locked_at (fun hk hm => hl ⟨hk, hm⟩) (hm _ (hs.enter (Nat.le_refl n) hlt))

section Readers

theorem confVal (cv : ConfVal) : Tidy B n (confVal cv) := read _

theorem confValToUsecs (cv : ConfVal) : Tidy B n (confValToUsecs cv) := read _

theorem myAddr : Tidy B n myAddr := read _

theorem gettime : Tidy B n gettime := read _

theorem kmalloc : Tidy B n kmalloc := read _

theorem emit (e : Event) : Tidy B n (emit e) := emits fun _ => [e]

theorem emitMaint (e : MaintEvent) : Tidy B n (emitMaint e) := emits fun s => [.maint s.now e]

theorem emitSendBuf (f : SendBufEntry → SendBufEvent) (es : List SendBufEntry) : Tidy B n (emitSendBuf f es) :=
  emits fun _ => es.map fun e => .sendBuf (f e)

theorem setLc (lc : LcGraph) : Tidy B n (setLc lc) := set (fun _ => rfl) (fun _ => rfl) (fun _ => rfl) fun _ => rfl

theorem updateNeighTbl {f : Tbl Neighbor → Tbl Neighbor}
    (hf : ∀ t a, (t.find fun n => n.addr = a).isSome = true → ((f t).find fun n => n.addr = a).isSome = true) :
    Tidy B n (do let s ← get; setNeighTbl (f s.neighTbl) : DsrM PUnit) :=
  fun s _ => ⟨⟨List.prefix_rfl, hf s.neighTbl⟩, rfl, rfl⟩

theorem setRreqTbl (t : Tbl RreqTblEntry) : Tidy B n (setRreqTbl t) :=
  set (fun _ => rfl) (fun _ => rfl) (fun _ => rfl) fun _ => rfl

theorem setGratRrepTbl (t : Tbl GratRrepEntry) : Tidy B n (setGratRrepTbl t) :=
  set (fun _ => rfl) (fun _ => rfl) (fun _ => rfl) fun _ => rfl

theorem setSendBuf (t : Tbl SendBufEntry) : Tidy B n (setSendBuf t) :=
  set (fun _ => rfl) (fun _ => rfl) (fun _ => rfl) fun _ => rfl

theorem setMaintBuf (t : Tbl MaintEntry) : Tidy B n (setMaintBuf t) :=
  set (fun _ => rfl) (fun _ => rfl) (fun _ => rfl) fun _ => rfl

theorem setAckTimer (t : Option Timeval) : Tidy B n (setAckTimer t) :=
  set (fun _ => rfl) (fun _ => rfl) (fun _ => rfl) fun _ => rfl

theorem setSendBufTimer (t : Option Timeval) : Tidy B n (setSendBufTimer t) :=
  set (fun _ => rfl) (fun _ => rfl) (fun _ => rfl) fun _ => rfl

theorem setGratTimer (t : Option Timeval) : Tidy B n (setGratTimer t) :=
  set (fun _ => rfl) (fun _ => rfl) (fun _ => rfl) fun _ => rfl

end Readers

section Tables

theorem dsrRtcFind (src dst : InAddr) : Tidy B 2 (dsrRtcFind src dst) := by
  apply ite
  · exact fun _ => pure none
  · intro _
    apply locked (Nat.le_refl 2)
    apply get_bind
    intro s
    exact bind (ofOption _) fun r => bind (setLc _) fun _ => pure _

theorem dsrRtcAdd (srt : DsrSrt) : Tidy B 2 (dsrRtcAdd srt) := by
  apply bind (confValToUsecs _)
  intro timeout
  exact locked (Nat.le_refl 2) (get_bind fun s => setLc _)

theorem rtcLinkAdd (src dst : InAddr) : Tidy B 2 (rtcLinkAdd src dst) := by
  apply bind (confValToUsecs _)
  intro timeout
  exact locked (Nat.le_refl 2) (get_bind fun s => setLc _)

theorem rtcLinkDel (src dst : InAddr) : Tidy B 2 (rtcLinkDel src dst) := by
  apply locked (Nat.le_refl 2)
  apply get_bind
  intro s
  exact bind (ofOption _) fun lc => setLc lc

theorem neighTblFind (addr : InAddr) : Tidy B 2 (neighTblFind addr) := locked (Nat.le_refl 2) (read _)

theorem neighTblAdd (addr : InAddr) (hSource : HwAddr) : Tidy B 2 (neighTblAdd addr hSource) := by
  apply bind (neighTblFind addr)
  intro found
  cases found with
  | some e => exact pure ()
  | none => exact locked (Nat.le_refl 2) (updateNeighTbl fun t a h => Tbl.find_add_getD h)

theorem neighTblQuery (addr : InAddr) : Tidy B 2 (neighTblQuery addr) :=
  bind (confValToUsecs _) fun _ => bind (neighTblFind addr) fun _ => pure _

theorem neighTblFindDo (addr : InAddr) {f : Neighbor → Neighbor} (hf : ∀ n, (f n).addr = n.addr) :
    Tidy B 2 (neighTblFindDo addr f) := by
  refine locked (Nat.le_refl 2) (updateNeighTbl (f := fun t => t.findDo (fun n => n.addr = addr) f) fun t a h => ?_)
  rw [neighTbl_find_findDo hf]
  split
  · rwa [Option.isSome_map]
  · exact h

theorem neighTblSetAckReqTime (addr : InAddr) : Tidy B 2 (neighTblSetAckReqTime addr) :=
  bind gettime fun now => neighTblFindDo (f := fun n => { n with lastAckReq := now }) addr fun _ => rfl

theorem neighTblIdInc (addr : InAddr) : Tidy B 2 (neighTblIdInc addr) :=
  neighTblFindDo (f := fun n => { n with id := (n.id + 1) % 65536 }) addr fun _ => rfl

theorem neighTblSetRto (addr : InAddr) (rtt : ℕ) : Tidy B 2 (neighTblSetRto addr rtt) :=
  neighTblFindDo (f := rtoCalc rtt) addr fun _ => rfl

theorem rreqTblUpdate (ref : ℕ) (f : RreqTblEntry → RreqTblEntry) : Tidy B n (rreqTblUpdate ref f) :=
  set (fun _ => rfl) (fun _ => rfl) (fun _ => rfl) fun _ => rfl

theorem rreqTblAdd (nodeAddr : InAddr) : Tidy B 2 (rreqTblAdd nodeAddr) := by
  have hput : ∀ e : RreqTblEntry, Tidy B 2 (do
      let s ← get
      DsrUu.setRreqTbl ((s.rreqTbl.addTail e).getD s.rreqTbl)
      Pure.pure e.ref : DsrM ℕ) :=
    fun e => get_bind fun s => bind (setRreqTbl _) fun _ => pure _
  apply bind (confVal _)
  intro ids
  apply Conduct.get_bind
  intro s hs
  have hset : outcome (MonadStateOf.set { s with rreqBrk := s.rreqBrk + 1 } : DsrM PUnit) s
      (fun _ s' => Unwound s s') fun e s' => ∀ l, e = .relock l → B.on l s s' :=
    ⟨.of_eq rfl rfl, rfl, rfl⟩
  refine Conduct.bind_at hset fun _ s₁ h₁ => ?_
  refine ite (fun _ => ?_) (fun _ => hput _) s₁ (h₁.below hs)
  apply bind (ofOption _)
  intro q
  refine bind (setRreqTbl _) fun _ => bind (emit _) fun _ => bind ?_ fun _ => hput _
  exact locked (Nat.le_refl 2) (pure _)

theorem rreqTblFindLast (nodeAddr : InAddr) : Tidy B 2 (rreqTblFindLast nodeAddr) := by
  apply get_bind
  intro s
  cases s.rreqTbl.findDetach fun e => e.nodeAddr = nodeAddr with
  | none => exact rreqTblAdd nodeAddr
  | some o => exact bind (setRreqTbl _) fun _ => pure _

theorem rreqTblAddId (initiator target : InAddr) (id : ℕ) : Tidy B 1 (rreqTblAddId initiator target id) := by
  have hid : ∀ (ref : ℕ) f, Tidy B 2 (DsrUu.locked (.rreqIdTbl ref) (DsrUu.rreqTblUpdate ref f)) :=
    fun ref f => locked (Nat.le_refl 2) (rreqTblUpdate ref f)
  refine locked (Nat.le_refl 1) (bind (rreqTblFindLast initiator) fun ref => bind gettime fun now => ?_)
  refine bind (rreqTblUpdate ref _) fun _ => get_bind fun s => ite (fun _ => ?_) fun _ => hid ref _
  exact bind (hid ref _) fun _ => hid ref _

theorem rreqTblRouteDiscoveryCancel (dst : InAddr) : Tidy B 1 (rreqTblRouteDiscoveryCancel dst) := by
  apply bind (emit _)
  intro _
  apply bind
  · apply locked (Nat.le_refl 1)
    apply get_bind
    intro s
    cases s.rreqTbl.findDetach fun e => e.nodeAddr = dst with
    | none => exact pure none
    | some o => exact bind (setRreqTbl _) fun _ => pure _
  · intro found
    cases found with
    | none => exact pure ()
    | some e => exact bind gettime fun now => locked (Nat.le_refl 1) (get_bind fun s => setRreqTbl _)

theorem dsrRreqDuplicate (initiator target : InAddr) (id : ℕ) : Tidy B 1 (dsrRreqDuplicate initiator target id) :=
  locked (Nat.le_refl 1) (read _)

theorem gratRrepTblFind (src prevHop : InAddr) : Tidy B 2 (gratRrepTblFind src prevHop) :=
  locked (Nat.le_refl 2) (read _)

theorem gratSetTimer : Tidy B 2 gratSetTimer := by
  apply locked (Nat.le_refl 2)
  apply get_bind
  intro s
  cases s.gratRrepTbl.head with
  | nil => exact stop fun l => nofun
  | cons e es => exact setGratTimer _

theorem gratRrepTblAdd (src prevHop : InAddr) : Tidy B 2 (gratRrepTblAdd src prevHop) := by
  apply bind (gratRrepTblFind src prevHop)
  intro found
  apply ite
  · exact fun _ => pure ()
  · intro _
    refine bind gettime fun now => bind (confValToUsecs _) fun holdoff => bind kmalloc fun mem => ?_
    refine bind (setGratTimer none) fun _ => bind ?_ fun _ => gratSetTimer
    exact locked (Nat.le_refl 2) (get_bind fun s => setGratRrepTbl _)

theorem gratRrepTblTimeout : Tidy B 2 gratRrepTblTimeout := by
  apply bind (setGratTimer none)
  intro _
  apply bind (locked (Nat.le_refl 2) (get_bind fun s => setGratRrepTbl _))
  intro _
  exact get_bind fun s => ite (fun _ => pure ()) fun _ => gratSetTimer

end Tables

structure Sends (x : XmitSite → DsrPkt → DsrM Unit) : Prop where
  plain : ∀ site dp, dp.requestAck = false → Tidy .never 2 (x site dp)
  nested : ∀ dp, Tidy .reentering 2 (x .salvage dp)
  top : ∀ site dp, Tidy .salvaging 1 (x site dp)

section Senders

variable {x : XmitSite → DsrPkt → DsrM Unit} (hx : Sends x)

theorem xmitPkt {site : XmitSite} {o : Option DsrPkt} (h : ∀ dp, o = some dp → Tidy B n (x site dp)) :
    Tidy B n (xmitPkt x site o) := by
  cases o with
  | none => exact pure ()
  | some dp => exact h dp rfl

include hx

theorem dsrRreqSend (target : InAddr) (ttl : ℕ) : Tidy B 2 (dsrRreqSend x target ttl) := by
  apply bind kmalloc
  intro mem
  apply bind myAddr
  intro me
  apply Conduct.get_bind
  intro s hs
  have hset : outcome (MonadStateOf.set { s with rreqSeqno := incUint32 s.rreqSeqno } : DsrM PUnit) s
      (fun _ s' => Unwound s s') fun e s' => ∀ l, e = .relock l → B.on l s s' :=
    ⟨.of_eq rfl rfl, rfl, rfl⟩
  refine Conduct.bind_at hset fun _ s₁ h₁ => ?_
  exact xmitPkt (fun dp hp => (hx.plain _ dp (rreqPkt_requestAck hp)).ofNever) s₁ (h₁.below hs)

theorem dsrRrepSend (srt srtToMe : DsrSrt) : Tidy B 2 (dsrRrepSend x srt srtToMe) :=
  bind kmalloc fun _ => bind myAddr fun _ =>
    xmitPkt fun dp hp => (hx.plain _ dp (rrepPkt_requestAck hp)).ofNever

theorem dsrAckSend (dst : InAddr) (id : ℕ) : Tidy B 2 (dsrAckSend x dst id) :=
  bind kmalloc fun _ => bind myAddr fun _ => xmitPkt fun dp hp => (hx.plain _ dp (ackPkt_requestAck hp)).ofNever

theorem dsrAckReqSend (neigh : InAddr) (id : ℕ) : Tidy B 2 (dsrAckReqSend x neigh id) :=
  bind kmalloc fun _ => bind myAddr fun _ =>
    xmitPkt fun dp hp => (hx.plain _ dp (ackReqPkt_requestAck hp)).ofNever

theorem dsrRerrSend (trigg : DsrPkt) (unreach : InAddr) : Tidy B 2 (dsrRerrSend x trigg unreach) := by
  refine bind kmalloc fun mem => bind myAddr fun me => bind (confVal _) fun maxSalvage => ite (fun _ => pure ()) fun _ => ?_
  cases trigg.srtOpt with
  | none => exact pure ()
  | some p =>
    apply bind (dsrRtcFind me _)
    intro found
    cases found with
    | none => exact pure ()
    | some srt => exact xmitPkt fun dp hp => (hx.plain _ dp (rerrPkt_requestAck hp)).ofNever

theorem maintBufSalvage (dp : DsrPkt) : Tidy .reentering 2 (maintBufSalvage x dp) := by
  refine bind kmalloc fun mem => bind myAddr fun me => bind (dsrRtcFind me dp.dst) fun found => ?_
  cases found with
  | none => exact pure _
  | some alt =>
    dsimp only
    cases salvagePkt mem me alt dp with
    | none => exact pure _
    | some dp' => exact ite (fun _ => stop fun l => nofun) fun _ => bind (hx.nested dp') fun _ => pure _

theorem salvageLoop (nxtHop : InAddr) (fuel : ℕ) : Tidy .reentering 2 (salvageLoop x nxtHop fuel) := by
  induction fuel with
  | zero => exact stop fun l => nofun
  | succ fuel ih =>
    apply get_bind
    intro s
    cases s.maintBuf.findDetach fun m => m.nxtHop = nxtHop with
    | none => exact pure ()
    | some o => exact bind (setMaintBuf _) fun _ => bind (maintBufSalvage hx _) fun _ => ih

theorem maintBufGiveUp (m : MaintEntry) : Tidy .salvaging 2 (maintBufGiveUp x m) := by
  apply Conduct.get_bind
  intro t ht
  refine ite (fun _ s hs => ?_) (fun _ => pure ()) t ht
  have hrest : Tidy .reentering 2 (do
      DsrUu.rtcLinkDel t.ifaddr m.nxtHop
      DsrUu.dsrRerrSend x m.dp m.nxtHop
      let _ ← DsrUu.maintBufSalvage x m.dp
      DsrUu.salvageLoop x m.nxtHop t.budget : DsrM Unit) :=
    bind (rtcLinkDel _ _) fun _ => bind (dsrRerrSend hx _ _) fun _ =>
      bind (maintBufSalvage hx _) fun _ => salvageLoop hx _ _
  have hbreak : Unwound s { s with out := s.out ++ [Event.maint s.now (.linkBreak m)] } := ⟨.emit s _, rfl, rfl⟩
  rw [outcome_bind]
  change outcome _ { s with out := s.out ++ [Event.maint s.now (.linkBreak m)] } _ _
  apply outcome_mono (hrest _ (hbreak.below hs))
  · exact fun _ s' h => hbreak.trans h
  · intro e s' h l he
    obtain ⟨hl, hr⟩ := h l he
    exact ⟨hl, .of_emit rfl hr.out, hr.later hbreak.out⟩

theorem maintBufRexmt (m : MaintEntry) : Tidy B 2 (maintBufRexmt x m) := by
  refine bind gettime fun now => ?_
  have hput : ∀ m' : MaintEntry, Tidy B 2 (do
      let s ← get
      DsrUu.setMaintBuf ((s.maintBuf.add m' fun p => timevalDiff p.expires m'.expires > 0).getD s.maintBuf) :
        DsrM Unit) :=
    fun m' => get_bind fun s => setMaintBuf _
  refine ite (fun _ => ?_) fun _ => hput _
  exact bind (emitMaint _) fun _ => bind (dsrAckReqSend hx _ _) fun _ => hput _

theorem maintBufTimeoutUnlocked {setTimeout : DsrM Unit} (ht : Tidy .salvaging 2 setTimeout) :
    Tidy .salvaging 2 (maintBufTimeoutUnlocked x setTimeout) := by
  apply get_bind
  intro s
  apply ite
  · exact fun _ => pure ()
  · intro _
    cases s.maintBuf.detachFirst with
    | none => exact pure ()
    | some o =>
      refine bind (setMaintBuf _) fun _ => bind (confVal _) fun maxRexmt => ite (fun _ => ?_) fun _ => ?_
      · exact bind (maintBufGiveUp hx _) fun _ => ht
      · exact bind (maintBufRexmt hx _) fun _ => ht

end Senders

section Knot

variable {setTimeout : DsrM Unit} (ht : Tidy .salvaging 2 setTimeout)

theorem maintEntryCreate (dp : DsrPkt) (id rto : ℕ) : Tidy B n (maintEntryCreate dp id rto) :=
  bind kmalloc fun _ => bind gettime fun _ => bind (ofOption _) fun _ => get_bind fun _ => pure _

theorem maintBufAdd (hput : ∀ m, Tidy B n (maintBufEnqueue setTimeout m)) (hle : n ≤ 2) (dp : DsrPkt) :
    Tidy B n (maintBufAdd setTimeout dp) := by
  refine bind kmalloc fun mem => bind gettime fun now => bind ((neighTblQuery dp.nxtHop).lower hle) fun found => ?_
  cases found with
  | none => exact pure dp
  | some info =>
    refine bind (maintEntryCreate dp _ _) fun m => ite (fun _ => ?_) fun _ => pure _
    refine bind (confValToUsecs _) fun holdoff => ite (fun _ => ?_) fun _ => bind (hput m) fun _ => pure _
    refine bind ((neighTblSetAckReqTime _).lower hle) fun _ => bind ((neighTblIdInc _).lower hle) fun _ => ?_
    exact bind (emit _) fun _ => bind (hput _) fun _ => pure _

theorem dsrHwHeaderCreate (dp : DsrPkt) : Tidy B 2 (dsrHwHeaderCreate dp) :=
  ite (fun _ => pure _) fun _ => bind kmalloc fun _ => bind (neighTblQuery _) fun _ => pure _

theorem devQueueXmit (site : XmitSite) (dp : DsrPkt) : Tidy B 2 (devQueueXmit site dp) :=
  get_bind fun _ => ite (fun _ => bind (dsrHwHeaderCreate dp) fun _ => emit _) fun _ => pure ()

theorem nsPacketDest (dp : DsrPkt) : Tidy B 2 (nsPacketDest dp) := by
  refine ite (fun _ => pure _) fun _ => bind (neighTblQuery dp.nxtHop) fun info => ?_
  cases info with
  | none => exact pure _
  | some info => exact pure _

theorem nsSchedule (site : XmitSite) (dp : DsrPkt) : Tidy B 2 (nsSchedule site dp) := by
  refine bind (nsPacketDest dp) fun dest => ?_
  cases dest with
  | none => exact pure ()
  | some hw => exact ite (fun _ => pure ()) fun _ => emit _

theorem xmitVia {queue : XmitSite → DsrPkt → DsrM Unit} (hq : ∀ site dp, Tidy B 2 (queue site dp)) {dp : DsrPkt}
    (hadd : dp.requestAck = true → Tidy B n (DsrUu.maintBufAdd setTimeout dp)) (hle : n ≤ 2) (site : XmitSite) :
    Tidy B n (xmitVia setTimeout queue site dp) := by
  refine get_bind fun s => bind (emit _) fun _ => ?_
  have hend : ∀ dp', Tidy B n (queue site dp') := fun dp' => (hq site dp').lower hle
  exact ite (fun hack => bind (hadd hack) hend) fun _ => bind (pure dp) hend

theorem buildXmit {dp : DsrPkt} (hadd : dp.requestAck = true → Tidy B n (DsrUu.maintBufAdd setTimeout dp))
    (hle : n ≤ 2) (site : XmitSite) : Tidy B n (buildXmit setTimeout site dp) :=
  get_bind fun _ => ite (fun _ => xmitVia devQueueXmit hadd hle site) fun _ => xmitVia nsSchedule hadd hle site

include ht

theorem enqueueBody (m : MaintEntry) : Tidy .salvaging 2 (do
    let s ← get
    match s.maintBuf.addTail m with
    | none => Pure.pure ()
    | some t =>
        DsrUu.emitMaint (.buffered m s.maintBuf.head)
        DsrUu.setMaintBuf t
        setTimeout : DsrM Unit) := by
  apply get_bind
  intro s
  cases s.maintBuf.addTail m with
  | none => exact pure ()
  | some t => exact bind (emitMaint _) fun _ => bind (setMaintBuf t) fun _ => ht

theorem maintBufEnqueue_top (m : MaintEntry) : Tidy .salvaging 1 (maintBufEnqueue setTimeout m) :=
  locked (Nat.le_refl 1) (enqueueBody ht m)

theorem maintBufEnqueue_nested (a : InAddr) (m : MaintEntry) : Tidy (.knowing a) 2 (maintBufEnqueue setTimeout m) :=
  locked_or (fun _ => ⟨rfl, List.prefix_rfl, Or.inl⟩) (Nat.lt_succ_self 1)
    ((enqueueBody ht m).weaken (Nat.le_refl 2) fun _ _ _ h => ⟨h.1, h.2.1.out, fun _ => Or.inr h.2.2⟩)

omit ht in
theorem maintBufAdd_unknown {s : DsrNode} (hfree : s.locking = true → Lock.neighTbl ∉ s.held) {dp : DsrPkt}
    (hk : ¬ Known s dp.nxtHop) : DsrUu.maintBufAdd setTimeout dp s = .ok dp s := by
  obtain ⟨rto, hq⟩ := @neighTblQuery_runs dp.nxtHop s hfree
  rw [Option.not_isSome_iff_eq_none.mp hk, Option.map_none] at hq
  unfold DsrUu.maintBufAdd
  rw [bind_of_ok (show DsrUu.kmalloc s = .ok s.kmem s from rfl), bind_of_ok (show DsrUu.gettime s = .ok s.now s from rfl),
    bind_of_ok hq]
  rfl

omit ht in
theorem buildQueue (locking : Bool) (site : XmitSite) (dp : DsrPkt) : Tidy B 2 (DsrUu.buildQueue locking site dp) := by
  cases locking with
  | true => exact devQueueXmit site dp
  | false => exact nsSchedule site dp

theorem buildXmit_nested (dp : DsrPkt) : Tidy .reentering 2 (DsrUu.buildXmit setTimeout .salvage dp) := by
  intro s hs
  obtain ⟨t, ht'⟩ : ∃ t, t = { s with out := s.out ++ [Event.xmit .salvage dp (ackDue s dp)] } := ⟨_, rfl⟩
  have hst : Unwound s t := by
    rw [ht']
    exact ⟨.emit s _, rfl, rfl⟩
  have htop := hst.below hs
  obtain ⟨queue, hqueue⟩ : ∃ queue, queue = DsrUu.buildQueue s.locking .salvage := ⟨_, rfl⟩
  have hq : ∀ {B : Blame} dp', Tidy B 2 (queue dp') := by
    rw [hqueue]
    exact fun dp' => buildQueue s.locking .salvage dp'
  have hrun : DsrUu.buildXmit setTimeout .salvage dp s =
      (if dp.requestAck then DsrUu.maintBufAdd setTimeout dp >>= queue else queue dp : DsrM Unit) t := by
    rw [buildXmit_eq, ht', hqueue]
    rfl
  rw [outcome, hrun]
  change outcome (if dp.requestAck then DsrUu.maintBufAdd setTimeout dp >>= queue else queue dp : DsrM Unit) t _ _
  by_cases hack : dp.requestAck = true
  · rw [if_pos hack]
    by_cases hk : Known t dp.nxtHop
    · have hadd : Tidy (.knowing dp.nxtHop) 2 (DsrUu.maintBufAdd setTimeout dp >>= queue) :=
        bind (maintBufAdd (maintBufEnqueue_nested ht _) (Nat.le_refl 2) dp) hq
      apply outcome_mono (hadd t htop)
      · exact fun _ s' h => hst.trans h
      · intro e s' h l he
        obtain ⟨hl, ⟨es, hes⟩, hor⟩ := h l he
        refine ⟨hl, (hor hk).elim (fun hk' => ?_) fun hr => hr.later hst.out⟩
        refine ⟨_ :: es, dp, ackDue s dp, ?_, List.mem_cons_self, hack, hk'⟩
        rw [← hes, ht', List.append_assoc, List.singleton_append]
    · rw [outcome, bind_of_ok (maintBufAdd_unknown (htop.free (Nat.le_refl 2)) hk)]
      exact outcome_mono (hq (B := .never) dp t htop) (fun _ s' h => hst.trans h) fun e s' h l he => (h l he).elim
  · rw [if_neg hack]
    exact outcome_mono (hq (B := .never) dp t htop) (fun _ s' h => hst.trans h) fun e s' h l he => (h l he).elim

theorem buildXmit_sends : Sends (DsrUu.buildXmit setTimeout) where
  plain site _ hack := buildXmit (fun h => absurd (hack.symm.trans h) Bool.false_ne_true) (Nat.le_refl 2) site
  nested dp := buildXmit_nested ht dp
  top site dp := buildXmit (fun _ => maintBufAdd (maintBufEnqueue_top ht) (Nat.le_succ 1) dp) (Nat.le_succ 1) site

end Knot

theorem maintBufSetTimeoutUnlocked (fuel : ℕ) : Tidy .salvaging 2 (maintBufSetTimeoutUnlocked fuel) := by
  induction fuel with
  | zero => exact stop fun l => nofun
  | succ fuel ih =>
    apply get_bind
    intro s
    cases s.maintBuf.find MaintEntry.ackReqSent with
    | none => exact pure ()
    | some m =>
      refine bind (setMaintBuf _) fun _ => ite (fun _ => ?_) fun _ => setAckTimer _
      exact maintBufTimeoutUnlocked (buildXmit_sends ih) ih

theorem xmit_sends : Sends xmit where
  plain site dp hack := get_bind fun s => (buildXmit_sends (maintBufSetTimeoutUnlocked s.budget)).plain site dp hack
  nested dp := get_bind fun s => (buildXmit_sends (maintBufSetTimeoutUnlocked s.budget)).nested dp
  top site dp := get_bind fun s => (buildXmit_sends (maintBufSetTimeoutUnlocked s.budget)).top site dp

section Entries

theorem maintBufSetTimeout : Tidy .salvaging 2 maintBufSetTimeout :=
  get_bind fun s => maintBufSetTimeoutUnlocked s.budget

theorem maintBufTimeout : Tidy .salvaging 1 maintBufTimeout :=
  bind (setAckTimer none) fun _ => locked (Nat.le_refl 1) (maintBufTimeoutUnlocked xmit_sends maintBufSetTimeout)

theorem maintBufDelAll (nxtHop : InAddr) : Tidy .salvaging 1 (maintBufDelAll nxtHop) := by
  apply locked (Nat.le_refl 1)
  exact bind (setAckTimer none) fun _ => get_bind fun s => bind (setMaintBuf _) fun _ => maintBufSetTimeout

theorem maintBufDelAllId (nxtHop : InAddr) (id : ℕ) : Tidy .salvaging 1 (maintBufDelAllId nxtHop id) := by
  apply locked (Nat.le_refl 1)
  refine bind (setAckTimer none) fun _ => bind (emitMaint _) fun _ => get_bind fun s => bind (setMaintBuf _) fun _ => ?_
  exact ite (fun _ => bind (neighTblSetRto _ _) fun _ => maintBufSetTimeout) fun _ => maintBufSetTimeout

theorem sendBufDropLoop (dst : InAddr) (fuel : ℕ) : ∀ first, Tidy B n (sendBufDropLoop dst fuel first) := by
  induction fuel with
  | zero => exact fun first => stop fun l => nofun
  | succ fuel ih =>
    intro first
    apply get_bind
    intro s
    cases s.sendBuf.findDetach fun e => e.dp.dst = dst with
    | none => exact pure ()
    | some o =>
      have hrest : Tidy B n (do
          DsrUu.emitSendBuf .dropped [o.1]
          DsrUu.sendBufDropLoop dst fuel false : DsrM Unit) := bind (emitSendBuf _ _) fun _ => ih false
      exact bind (setSendBuf _) fun _ => ite (fun _ => bind (emit _) fun _ => hrest) fun _ => hrest

theorem sendBufSendOne (e : SendBufEntry) : Tidy .salvaging 1 (sendBufSendOne e) := by
  refine bind kmalloc fun mem => bind ((dsrRtcFind _ _).lower (Nat.le_succ 1)) fun found => ?_
  cases found with
  | none => exact emitSendBuf _ _
  | some srt =>
    dsimp only
    cases dsrSrtAdd mem { e.dp with srt := some srt } with
    | none => exact emitSendBuf _ _
    | some dp => exact bind (xmit_sends.top .sendBuf dp) fun _ => emitSendBuf _ _

theorem sendBufSendLoop (dst : InAddr) (fuel : ℕ) : Tidy .salvaging 1 (sendBufSendLoop dst fuel) := by
  induction fuel with
  | zero => exact stop fun l => nofun
  | succ fuel ih =>
    apply get_bind
    intro s
    cases s.sendBuf.findDetach fun e => e.dp.dst = dst with
    | none => exact pure ()
    | some o => exact bind (setSendBuf _) fun _ => bind (sendBufSendOne _) fun _ => ih

theorem sendBufSetVerdict (verdict : Verdict) (dst : InAddr) : Tidy .salvaging 0 (sendBufSetVerdict verdict dst) := by
  apply locked (Nat.le_refl 0)
  apply get_bind
  intro s
  cases verdict with
  | drop => exact sendBufDropLoop dst _ true
  | send => exact sendBufSendLoop dst _

theorem sendBufTimeout : Tidy B 0 sendBufTimeout := by
  refine bind (setSendBufTimer none) fun _ => bind gettime fun now => bind (confValToUsecs _) fun timeout => ?_
  apply bind
  · exact locked (Nat.le_refl 0) (get_bind fun s => bind (setSendBuf _) fun _ => emitSendBuf _ _)
  · intro _
    apply bind (locked (Nat.le_refl 0) (read _))
    intro first
    cases first with
    | none => exact pure ()
    | some e => exact setSendBufTimer _

theorem rreqTblStart (target : InAddr) : Tidy B 2 (rreqTblStart target) := by
  refine bind (rreqTblFindLast target) fun ref => get_bind fun s => bind (confValToUsecs _) fun timeout => ?_
  apply ite
  · exact fun _ => pure false
  · exact fun _ => bind (rreqTblUpdate _ _) fun _ => bind (emit _) fun _ => pure true

theorem dsrRreqRouteDiscovery (target : InAddr) : Tidy B 1 (dsrRreqRouteDiscovery target) := by
  apply bind (locked (Nat.le_refl 1) (rreqTblStart target))
  intro go
  exact ite (fun _ => (dsrRreqSend xmit_sends _ _).lower (Nat.le_succ 1)) fun _ => pure ()

theorem rreqTblTakeOut (ref : ℕ) : Tidy B 1 (rreqTblTakeOut ref) := by
  apply locked (Nat.le_refl 1)
  exact get_bind fun s => bind (ofOption _) fun o => bind (setRreqTbl _) fun _ => pure _

theorem rreqTblPutBack (e : RreqTblEntry) : Tidy B 1 (rreqTblPutBack e) :=
  locked (Nat.le_refl 1) (get_bind fun _ => setRreqTbl _)

theorem rreqTblTimeout (ref : ℕ) : Tidy B 1 (rreqTblTimeout ref) := by
  refine bind (rreqTblTakeOut ref) fun e => bind (confVal _) fun maxRexmt => ite (fun _ => ?_) fun _ => ?_
  · exact bind (emit _) fun _ => rreqTblPutBack _
  · refine bind (confValToUsecs _) fun maxPeriod => bind gettime fun now => ?_
    exact bind ((dsrRreqSend xmit_sends _ _).lower (Nat.le_succ 1)) fun _ => rreqTblPutBack _

end Entries

section Handlers

theorem dsrRrepOptRecv (dp : DsrPkt) (p : OptPtr) : Tidy B 1 (dsrRrepOptRecv dp p) := by
  refine ite (fun _ => pure _) fun _ => ite (fun _ => pure _) fun _ => ?_
  refine bind kmalloc fun mem => bind myAddr fun me => bind ((dsrRtcAdd _).lower (Nat.le_succ 1)) fun _ => ?_
  exact bind (rreqTblRouteDiscoveryCancel _) fun _ => ite (fun _ => pure _) fun _ => pure _

theorem dsrRerrOptRecv (dp : DsrPkt) (p : OptPtr) : Tidy .salvaging 1 (dsrRerrOptRecv dp p) := by
  refine ite (fun _ => ?_) fun _ => pure _
  exact bind (maintBufDelAll _) fun _ => bind ((rtcLinkDel _ _).lower (Nat.le_succ 1)) fun _ => pure _

theorem dsrAckOptRecv (dp : DsrPkt) (p : OptPtr) : Tidy .salvaging 1 (dsrAckOptRecv dp p) :=
  bind myAddr fun _ => ite (fun _ => pure _) fun _ => bind (maintBufDelAllId _ _) fun _ => pure _

theorem dsrAckReqOptRecv (dp : DsrPkt) (p : OptPtr) : Tidy B 2 (dsrAckReqOptRecv dp p) :=
  ite (fun _ => pure _) fun _ => bind (dsrAckSend xmit_sends _ _) fun _ => pure _

theorem srtOptCacheSplit (me : InAddr) (mem : ℕ → UInt8) (dp : DsrPkt) (srt : DsrSrt) :
    Tidy B 2 (srtOptCacheSplit me mem dp srt) := by
  refine ite (fun _ => dsrRtcAdd srt) fun _ => ?_
  cases dsrSrtNewSplit (srtFlags mem) srt (if dp.promiscRecv then dp.prvHop else me) with
  | none => exact pure ()
  | some split => exact dsrRtcAdd split

theorem srtOptCache (me : InAddr) (mem : ℕ → UInt8) (dp : DsrPkt) (srt : DsrSrt) :
    Tidy B 2 (srtOptCache me mem dp srt) := by
  have hsplit : Tidy B 2 (DsrUu.srtOptCacheSplit me mem dp srt) := srtOptCacheSplit me mem dp srt
  exact ite (fun _ => bind (pure ()) fun _ => hsplit) fun _ => bind (rtcLinkAdd _ _) fun _ => hsplit

theorem automaticRouteShortening (me next : InAddr) (sleft : ℕ) (dp : DsrPkt) (srt : DsrSrt) :
    Tidy B 2 (automaticRouteShortening me next sleft dp srt) := by
  refine bind (confVal _) fun enabled => ite (fun _ => ?_) fun _ => pure _
  refine bind (gratRrepTblFind _ _) fun found => ite (fun _ => pure _) fun _ => bind kmalloc fun mem => ?_
  dsimp only
  split
  · exact pure _
  · exact bind (gratRrepTblAdd _ _) fun _ => bind (dsrRrepSend xmit_sends _ _) fun _ => pure _

theorem dsrSrtOptRecv (dp : DsrPkt) (p : OptPtr) : Tidy B 2 (dsrSrtOptRecv dp p) := by
  refine bind myAddr fun me => bind kmalloc fun mem => bind (neighTblAdd _ _) fun _ => ?_
  refine bind (srtOptCache _ _ _ _) fun _ => bind (automaticRouteShortening _ _ _ _ _) fun ok => ?_
  exact ite (fun _ => pure _) fun _ => ite (fun _ => pure _) fun _ => ite (fun _ => pure _) fun _ => pure _

theorem dsrRreqOptRecv (dp : DsrPkt) (p : OptPtr) : Tidy .salvaging 0 (dsrRreqOptRecv dp p) := by
  refine ite (fun _ => pure _) fun _ => ite (fun _ => pure _) fun _ => ?_
  refine bind myAddr fun me => bind kmalloc fun mem => bind ((dsrRreqDuplicate _ _ _).lower (Nat.zero_le 1)) fun dup => ?_
  refine ite (fun _ => pure _) fun _ => bind ((rreqTblAddId _ _ _).lower (Nat.zero_le 1)) fun _ => ?_
  refine ite (fun _ => pure _) fun _ => bind ((dsrRtcAdd _).lower (Nat.zero_le 2)) fun _ => ?_
  refine bind ((neighTblAdd _ _).lower (Nat.zero_le 2)) fun _ => bind (sendBufSetVerdict _ _) fun _ => ?_
  refine ite (fun _ => bind ((dsrRrepSend xmit_sends _ _).lower (Nat.zero_le 2)) fun _ => pure _) fun _ => ?_
  refine ite (fun _ => pure _) fun _ => ite (fun _ => pure _) fun _ => ?_
  apply bind ((dsrRtcFind _ _).lower (Nat.zero_le 2))
  intro found
  cases found with
  | none => exact pure _
  | some rc =>
    refine ite (fun _ => pure _) fun _ => ?_
    exact bind ((dsrRrepSend xmit_sends _ _).lower (Nat.zero_le 2)) fun _ => pure _

theorem dsrOptRecvOne (dp : DsrPkt) (p : OptPtr) : Tidy .salvaging 0 (dsrOptRecvOne dp p) := by
  unfold DsrUu.dsrOptRecvOne
  split
  · exact ite (fun _ => pure _) fun _ => dsrRreqOptRecv dp p
  · exact ite (fun _ => pure _) fun _ => (dsrRrepOptRecv dp p).lower (Nat.zero_le 1)
  · exact ite (fun _ => pure _) fun _ => (dsrRerrOptRecv dp p).lower (Nat.zero_le 1)
  · exact ite (fun _ => pure _) fun _ => bind ((dsrAckOptRecv _ p).lower (Nat.zero_le 1)) fun _ => pure _
  · exact (dsrSrtOptRecv dp p).lower (Nat.zero_le 2)
  · exact (dsrAckReqOptRecv dp p).lower (Nat.zero_le 2)
  · exact pure _

theorem dsrOptRecvLoop (dsrLen fuel : ℕ) : ∀ l p dp action, Tidy .salvaging 0 (dsrOptRecvLoop fuel dsrLen l p dp action) := by
  induction fuel with
  | zero => exact fun l p dp action => pure _
  | succ fuel ih =>
    intro l p dp action
    refine ite (fun _ => ite (fun _ => ih _ _ _ _) fun _ => ?_) fun _ => pure _
    exact bind (dsrOptRecvOne dp p) fun r => ih _ _ _ _

theorem sendBuffered (dp : DsrPkt) (ps : List OptPtr) : Tidy .salvaging 0 (sendBuffered dp ps) := by
  induction ps with
  | nil => exact pure ()
  | cons p ps ih => exact bind (sendBufSetVerdict _ _) fun _ => ih

theorem dispatch (dp : DsrPkt) (action order : List DsrPktAction) : Tidy .salvaging 0 (dispatch dp action order) := by
  induction order with
  | nil => exact pure ()
  | cons a rest ih =>
    refine ite (fun _ => ?_) fun _ => ih
    cases a with
    | drop => exact pure ()
    | error => exact pure ()
    | forward => exact ite (fun _ => pure ()) fun _ => (xmit_sends.top .forward dp).lower (Nat.zero_le 1)
    | forwardRreq => exact (xmit_sends.top .forwardRreq dp).lower (Nat.zero_le 1)
    | sendBuffered => exact bind (sendBuffered dp _) fun _ => ih
    | deliver => exact emit _
    | none => exact ih
    | srtRemove => exact ih
    | sendIcmp => exact ih
    | sendRrep => exact ih
    | sendAck => exact ih

theorem dsrIpRecv (promisc : Bool) (skb : Skb) : Tidy .salvaging 0 (dsrIpRecv promisc skb) := by
  refine bind kmalloc fun mem => ite (fun _ => pure ()) fun _ => bind myAddr fun me => ite (fun _ => pure ()) fun _ => ?_
  refine bind (bind myAddr fun _ => dsrOptRecvLoop _ _ _ _ _ _) fun r => ite (fun _ => pure ()) fun _ => ?_
  exact dispatch _ _ _

end Handlers

theorem sendBufAddAgain (e : SendBufEntry) : Tidy .onSendBuf 1 (sendBufAddAgain e) := by
  refine locked_or (fun _ => rfl) (Nat.lt_succ_self 0) (get_bind fun s => ?_)
  cases s.sendBuf.addTail e with
  | none => exact bind (emitSendBuf _ _) fun _ => pure _
  | some t => exact bind (setSendBuf t) fun _ => pure _

theorem sendBufEvict : Tidy B n sendBufEvict := by
  apply get_bind
  intro s
  cases s.sendBuf.detachFirst with
  | none => exact pure ()
  | some o => exact bind (setSendBuf _) fun _ => emitSendBuf _ _

theorem sendBufEnqueuePacket (dp : DsrPkt) : Tidy .onSendBuf 0 (sendBufEnqueuePacket dp) := by
  refine bind gettime fun now => bind (confValToUsecs _) fun timeout => get_bind fun s => bind (emitSendBuf _ _) fun _ => ?_
  apply bind
  · refine locked (Nat.le_refl 0) (get_bind fun t => ?_)
    dsimp only
    cases t.sendBuf.addTail { dp := dp, qtime := now, born := s.out.length } with
    | none => exact bind sendBufEvict fun _ => bind (sendBufAddAgain _) fun _ => pure _
    | some t' => exact bind (setSendBuf t') fun _ => pure _
  · exact fun r => ite (fun _ => bind (setSendBufTimer _) fun _ => pure _) fun _ => pure _

theorem dsrStartXmit (dp : DsrPkt) : Tidy .clashing 0 (dsrStartXmit dp) := by
  refine bind kmalloc fun mem => bind ((dsrRtcFind _ _).lower (Nat.zero_le 2)) fun found => ?_
  cases found with
  | some srt =>
    exact xmitPkt fun dp' _ => (xmit_sends.top .startXmit dp').weaken (Nat.zero_le 1) fun _ _ _ h => Or.inl h
  | none =>
    have hput : Tidy .clashing 0 (DsrUu.sendBufEnqueuePacket dp) :=
      (sendBufEnqueuePacket dp).weaken (Nat.le_refl 0) fun _ _ _ h => Or.inr h
    apply bind hput
    intro r
    exact ite (fun _ => (dsrRreqRouteDiscovery _).lower (Nat.zero_le 1)) fun _ => pure ()

theorem dsrDevStartXmit (skb : Skb) : Tidy .clashing 0 (dsrDevStartXmit skb) :=
  get_bind fun _ => ite (fun _ => bind kmalloc fun _ => dsrStartXmit _) fun _ => pure ()

end Tidy

section Overflow

variable {s : DsrNode}

@[simp] theorem acquire_sendBuf (l : Lock) (s : DsrNode) : (acquire l s).sendBuf = s.sendBuf := by
  unfold acquire
  split <;> rfl

def Overfull (s : DsrNode) : Prop := s.sendBuf.maxLen ≤ s.sendBuf.len

def Unrouted (s : DsrNode) (src dst : InAddr) : Prop :=
  src = dst ∨ ∃ f lc, lcSrtFind (srtFlags s.kmem) src dst s.lc = some (f, lc) ∧ f.srt = none

theorem sendBufEnqueuePacket_runs (hroom : ¬ Overfull s) (hfree : s.locking = true → Lock.sendBuf ∉ s.held)
    (dp : DsrPkt) : ∃ r s', sendBufEnqueuePacket dp s = .ok r s' := by
  have hlt : s.sendBuf.len < s.sendBuf.maxLen := Nat.lt_of_not_le hroom
  suffices h : wp (sendBufEnqueuePacket dp) s (fun _ _ => True) fun _ => False by
    obtain ⟨r, s', hrun, -⟩ := ok_of_wp h
    exact ⟨r, s', hrun⟩
  unfold sendBufEnqueuePacket
  simp only [gettime, confValToUsecs, confVal, emitSendBuf, wp_bind, wp_get, wp_pure, wp_modify]
  refine wp_locked hfree ?_
  rw [wp_bind, wp_get, acquire_sendBuf, Tbl.addTail_of_lt _ hlt]
  simp only [wp_bind, wp_setSendBuf, wp_pure]
  rw [wp_ite]
  exact ⟨fun _ => trivial, fun _ => trivial⟩

theorem dsrRtcFind_sendBuf {src dst : InAddr} {r : Option DsrSrt} {s' : DsrNode}
    (h : dsrRtcFind src dst s = .ok r s') : s'.sendBuf = s.sendBuf := by
  rcases dsrRtcFind_ok h with ⟨-, rfl⟩ | ⟨-, f, lc, -, -, rfl⟩ <;> rfl

theorem Tidy.no_relock {α : Type} {m : DsrM α} {n : ℕ} (h : Tidy .never n m) {s' : DsrNode} (hs : Below n s)
    {l : Lock} (hm : m s = .error (.relock l) s') : False :=
  outcome_error (h s hs) hm l rfl

theorem dsrRtcFind_unrouted {src dst : InAddr} {s' : DsrNode} (h : dsrRtcFind src dst s = .ok none s') :
    Unrouted s src dst := by
  by_cases hne : src = dst
  · exact Or.inl hne
  · obtain ⟨f, lc, hf, hnone, -⟩ := dsrRtcFind_lookup hne h
    exact Or.inr ⟨f, lc, hf, hnone.symm⟩

theorem dsrStartXmit_overfull {dp : DsrPkt} {s' : DsrNode} (hs : Below 0 s)
    (h : dsrStartXmit dp s = .error (.relock .sendBuf) s') : Overfull s ∧ Unrouted s dp.src dp.dst := by
  unfold dsrStartXmit at h
  rcases bind_error h with h | ⟨mem, s₀, hk, h⟩
  · cases h
  cases hk
  rcases bind_error h with h | ⟨found, s₁, hf, h⟩
  · exact (((Tidy.dsrRtcFind _ _).lower (Nat.zero_le 2)).no_relock hs h).elim
  have h₁ : Unwound s s₁ := outcome_ok (((Tidy.dsrRtcFind _ _).lower (Nat.zero_le 2) : Tidy .never 0 _) s hs) hf
  have hs₁ := h₁.below hs
  cases found with
  | some srt =>
    have hx : Tidy .salvaging 0 (xmitPkt xmit .startXmit (dsrSrtAdd s.kmem { dp with srt := some srt })) :=
      Tidy.xmitPkt fun dp' _ => (Tidy.xmit_sends.top .startXmit dp').lower (Nat.zero_le 1)
    exact absurd (outcome_error (hx s₁ hs₁) h .sendBuf rfl).1 nofun
  | none =>
    refine ⟨?_, dsrRtcFind_unrouted hf⟩
    by_contra hroom
    have hroom₁ : ¬ Overfull s₁ := by
      rw [Overfull, dsrRtcFind_sendBuf hf]
      exact hroom
    obtain ⟨r, s₂, hrun⟩ := sendBufEnqueuePacket_runs hroom₁ (hs₁.free (Nat.le_refl 0)) dp
    have h₂ : Unwound s₁ s₂ := outcome_ok (Tidy.sendBufEnqueuePacket dp s₁ hs₁) hrun
    rcases bind_error h with h | ⟨r', s₂', hrun', h⟩
    · rw [hrun] at h
      cases h
    · rw [hrun] at hrun'
      cases hrun'
      have hrest : Tidy .never 0 (if r = true then dsrRreqRouteDiscovery dp.dst else pure ()) :=
        .ite (fun _ => (Tidy.dsrRreqRouteDiscovery _).lower (Nat.zero_le 1)) fun _ => .pure ()
      exact hrest.no_relock (h₂.below hs₁) h

theorem dsrDevStartXmit_overfull {skb : Skb} {s' : DsrNode} (hs : Below 0 s)
    (h : dsrDevStartXmit skb s = .error (.relock .sendBuf) s') :
    s.slaveDev = true ∧ Overfull s ∧ Unrouted s skb.iph.saddr skb.iph.daddr := by
  unfold dsrDevStartXmit at h
  rcases bind_error h with h | ⟨t, s₀, hg, h⟩
  · cases h
  cases hg
  split at h
  · next hdev =>
    rcases bind_error h with h | ⟨mem, s₀, hk, h⟩
    · cases h
    · cases hk
      obtain ⟨hfull, hroute⟩ := dsrStartXmit_overfull hs h
      have hends := dsrPktAlloc_head s.kmem skb
      rw [hends.src, hends.dst] at hroute
      exact ⟨hdev, hfull, hroute⟩
  · cases h

end Overflow

def Clash (i : Input) (s s' : DsrNode) (l : Lock) : Prop :=
  l = .maintBuf ∧ Broke s s' ∨ l = .sendBuf ∧ (∃ skb, i = .startXmit skb) ∧ Overfull s

structure Crowded (s : DsrNode) (skb : Skb) : Prop where
  slaveDev : s.slaveDev = true
  overfull : Overfull s
  unrouted : Unrouted s skb.iph.saddr skb.iph.daddr

def Relocked (i : Input) (s s' : DsrNode) (l : Lock) : Prop :=
  l = .maintBuf ∧ Broke s s' ∧ Reentered s s' ∨ l = .sendBuf ∧ ∃ skb, i = .startXmit skb ∧ Crowded s skb

theorem Relocked.clash {i : Input} {s s' : DsrNode} {l : Lock} (h : Relocked i s s' l) : Clash i s s' l :=
  h.imp (fun h => ⟨h.1, h.2.1⟩) fun ⟨hl, skb, hi, hc⟩ => ⟨hl, ⟨skb, hi⟩, hc.overfull⟩

theorem lcFlushLocked_tidy : Tidy .salvaging 0 lcFlushLocked :=
  .locked (Nat.zero_le 2) (.get_bind fun _ => .setLc _)

theorem handle_tidy (i : Input) (hi : ∀ skb, i ≠ .startXmit skb) : Tidy .salvaging 0 i.handle := by
  cases i with
  | startXmit skb => exact absurd rfl (hi skb)
  | recv promisc skb => exact Tidy.dsrIpRecv promisc skb
  | ackTimer => exact Tidy.maintBufTimeout.lower (Nat.zero_le 1)
  | sendBufTimer => exact Tidy.sendBufTimeout
  | rreqTimer ref => exact (Tidy.rreqTblTimeout ref).lower (Nat.zero_le 1)
  | gratTimer => exact Tidy.gratRrepTblTimeout.lower (Nat.zero_le 2)
  | flushLinkCache => exact lcFlushLocked_tidy
  | setVerdict verdict dst => exact Tidy.sendBufSetVerdict verdict dst

theorem handle_outcome {s : DsrNode} (hs : Below 0 s) (i : Input) :
    outcome i.handle s (fun _ s' => Unwound s s') fun e s' => ∀ l, e = .relock l → Relocked i s s' l := by
  by_cases hi : ∃ skb, i = .startXmit skb
  · obtain ⟨skb, rfl⟩ := hi
    change outcome (dsrDevStartXmit skb) s _ _
    have hx := Tidy.dsrDevStartXmit skb s hs
    cases hrun : dsrDevStartXmit skb s with
    | ok a s' =>
      rw [outcome, hrun]
      exact outcome_ok hx hrun
    | error e s' =>
      rw [outcome, hrun]
      rintro l rfl
      rcases outcome_error hx hrun l rfl with hb | rfl
      · exact .inl hb
      · obtain ⟨hdev, hfull, hroute⟩ := dsrDevStartXmit_overfull hs hrun
        exact .inr ⟨rfl, skb, rfl, hdev, hfull, hroute⟩
  · apply outcome_mono (handle_tidy i (fun skb h => hi ⟨skb, h⟩) s hs)
    · exact fun _ _ h => h
    · exact fun e s' h l he => .inl (h l he)

theorem NodeReach.held {ok : DsrNode → Input → Prop} {s : DsrNode} (h : NodeReach ok s) : s.held = [] := by
  refine h.invariant (I := fun s => s.held = []) ⟨fun _ _ _ _ _ _ _ => rfl, fun _ _ _ _ _ _ h => h⟩ ?_
  intro s s' i hI _ _ hrun
  exact (outcome_ok (handle_outcome (Below.of_nil hI) i) hrun).held.trans hI

theorem lock_order {ok : DsrNode → Input → Prop} {s : DsrNode} (h : NodeReach ok s) (i : Input) :
    (∀ s', i.handle s = .ok () s' → s'.held = []) ∧
      ∀ l s', i.handle s = .error (.relock l) s' → Clash i s s' l := by
  have hs : Below 0 s := Below.of_nil h.held
  refine ⟨fun s' hrun => ?_, fun l s' hrun => ?_⟩
  · exact (outcome_ok (handle_outcome hs i) hrun).held.trans h.held
  · exact (outcome_error (handle_outcome hs i) hrun l rfl).clash

def helloSkb : Skb :=
  { hSource := 5
    iph := { ihl := 5, totLen := 28, ttl := 1, protocol := ipprotoDsr, saddr := detourHost 5
             daddr := detourHost 2 }
    data := [0, 0, 0, 4, 96, 2, 0, 0] }

def clashInputs : List (Timeval × Input) :=
  [(⟨100, 0⟩, .recv false detourReply), (⟨100, 0⟩, .recv false helloSkb), (⟨101, 0⟩, .recv false detourSkb),
    (⟨104, 0⟩, .ackTimer)]

def relocksMaintBuf (s : DsrNode) : Bool :=
  match maintBufTimeout s with
  | .error (.relock .maintBuf) _ => true
  | _ => false

theorem clash_reach : ∃ s s', NodeReach anyInput s ∧ s.locking = true ∧ Input.ackTimer.ready s ∧
    Input.ackTimer.handle s = .error (.relock .maintBuf) s' := by
  have hrun : (drive anyInput detourStart clashInputs).any (fun s => s.locking &&
      decide (Input.ackTimer.ready { s with now := ⟨107, 0⟩ }) && relocksMaintBuf { s with now := ⟨107, 0⟩ }) = true := by
    decide +kernel
  obtain ⟨t, ht, hb⟩ := (Option.any_eq_true _ _).mp hrun
  obtain ⟨hb, hlast⟩ := Bool.and_eq_true _ _ ▸ hb
  obtain ⟨hk, hready⟩ := Bool.and_eq_true _ _ ▸ hb
  have hreach : NodeReach anyInput { t with now := ⟨107, 0⟩ } :=
    .env t.confvals t.slaveDev t.budget ⟨107, 0⟩ t.kmem (.drive _ (.init _ _ _ _ _ _ _) ht)
  unfold relocksMaintBuf at hlast
  split at hlast
  · next s' hrun => exact ⟨_, s', hreach, hk, of_decide_eq_true hready, hrun⟩
  · cases hlast

theorem lock_order_clash : ∃ s s', NodeReach anyInput s ∧ s.locking = true ∧
    Input.ackTimer.handle s = .error (.relock .maintBuf) s' ∧ Clash .ackTimer s s' .maintBuf := by
  obtain ⟨s, s', hreach, hk, -, hrun⟩ := clash_reach
  exact ⟨s, s', hreach, hk, hrun, (lock_order hreach .ackTimer).2 _ s' hrun⟩

end DsrUu
