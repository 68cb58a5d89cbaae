import DsrUu.Maint.Queue

namespace DsrUu

open Effect

structure EdfQueue (t : Tbl MaintEntry) : Prop where
  fresh : ∀ m ∈ t.head, m.expires = m.deadline
  short : ∀ m ∈ t.head, m.rto < 2147483648
  sorted : t.head.Pairwise fun a b => timevalDiff a.expires b.expires ≤ 0

theorem EdfQueue.sublist {t t' : Tbl MaintEntry} (h : EdfQueue t) (hs : t'.head.Sublist t.head) :
    EdfQueue t' :=
  ⟨fun m hm => h.fresh m (hs.subset hm), fun m hm => h.short m (hs.subset hm), h.sorted.sublist hs⟩

theorem EdfQueue.first {t : Tbl MaintEntry} (h : EdfQueue t) {m m' : MaintEntry}
    (hf : t.find MaintEntry.ackReqSent = some m) (hm' : m' ∈ t.head) (hack : m'.ackReqSent = true) :
    timevalDiff m.deadline m'.deadline ≤ 0 := by
  obtain ⟨-, pre, post, heq, hpre⟩ := List.find?_eq_some_iff_append.mp hf
  have hm : m ∈ t.head := List.mem_of_find?_eq_some hf
  rw [← h.fresh m hm, ← h.fresh m' hm']
  rw [heq] at hm'
  have hsort := h.sorted
  rw [heq] at hsort
  rcases List.mem_append.mp hm' with hm' | hm'
  · have hno := hpre m' hm'
    simp [hack] at hno
  · rcases List.mem_cons.mp hm' with rfl | hm'
    · rw [timevalDiff_self]
    · exact (List.pairwise_cons.mp (List.pairwise_append.mp hsort).2.1).1 m' hm'

theorem EdfQueue.touch {s : DsrNode} (h : EdfQueue s.maintBuf) {m : MaintEntry}
    (hf : s.maintBuf.find MaintEntry.ackReqSent = some m) : maintBufTouch s m = s.maintBuf :=
  maintBufTouch_fresh hf (h.fresh m (List.mem_of_find?_eq_some hf))

theorem EdfQueue.put {t : Tbl MaintEntry} (h : EdfQueue t) {m : MaintEntry}
    (hm : m.expires = m.deadline) (hr : m.rto < 2147483648) : EdfQueue (maintBufPut t m) := by
  unfold maintBufPut Tbl.add
  split
  · exact h
  · refine ⟨fun x hx => ?_, fun x hx => ?_, ?_⟩
    · rcases Tbl.mem_insertBefore hx with rfl | hx
      · exact hm
      · exact h.fresh x hx
    · rcases Tbl.mem_insertBefore hx with rfl | hx
      · exact hr
      · exact h.short x hx
    · refine Tbl.pairwise_insertBefore (fun a b c hab hbc => ?_) (fun x hx => ?_)
        (fun x _ hx => ?_) h.sorted
      · rw [timevalDiff_trans a.expires b.expires c.expires]
        omega
      · have hx' : timevalDiff x.expires m.expires > 0 := of_decide_eq_true (List.find?_some hx :)
        rw [timevalDiff_neg]
        omega
      · have hx' := of_decide_eq_false hx
        omega

def InOrder (m : MaintEntry) (ahead : List MaintEntry) : Prop :=
  m.rto < 2147483648 ∧ ∀ p ∈ ahead, timevalDiff p.expires m.expires ≤ 0

def BufferedInOrder (out : List Event) : Prop :=
  ∀ now m ahead, .maint now (.buffered m ahead) ∈ out → InOrder m ahead

theorem EdfQueue.addTail {t t' : Tbl MaintEntry} (h : EdfQueue t) {m : MaintEntry}
    (ha : t.addTail m = some t') (hm : m.expires = m.deadline) (ho : InOrder m t.head) :
    EdfQueue t' := by
  obtain ⟨-, rfl⟩ := Tbl.addTail_eq_some ha
  refine ⟨forall_mem_snoc h.fresh hm, forall_mem_snoc h.short ho.1, ?_⟩
  refine List.pairwise_append.mpr ⟨h.sorted, List.pairwise_singleton _ _, fun a ha b hb => ?_⟩
  rw [List.mem_singleton.mp hb]
  exact ho.2 a ha

def AckCalm (s : DsrNode) : Prop :=
  s.ackTimer.isSome = true → ∀ m ∈ s.maintBuf.head, m.ackReqSent = true →
    0 ≤ timevalDiff m.deadline s.now

def AckArmed (s : DsrNode) : Prop :=
  ∀ m, s.maintBuf.find MaintEntry.ackReqSent = some m → s.ackTimer = some m.deadline

theorem Apart.ackCalm {s s' : DsrNode} (h : Apart s s') : AckCalm s' ↔ AckCalm s := by
  unfold AckCalm
  rw [h.ackTimer, h.maintBuf, h.now]

theorem Apart.ackArmed {s s' : DsrNode} (h : Apart s s') : AckArmed s' ↔ AckArmed s := by
  unfold AckArmed
  rw [h.maintBuf, h.ackTimer]

theorem AckCalm.of_none {s : DsrNode} (h : s.ackTimer = none) : AckCalm s := by
  intro hs
  rw [h] at hs
  cases hs

theorem AckCalm.sublist {s : DsrNode} (h : AckCalm s) {t : Tbl MaintEntry}
    (ht : t.head.Sublist s.maintBuf.head) : AckCalm { s with maintBuf := t } :=
  fun hs m hm hack => h hs m (ht.subset hm) hack

theorem AckArmed.of_nil {s : DsrNode} (h : s.maintBuf.head = []) : AckArmed s := by
  intro m hm
  unfold Tbl.find at hm
  rw [h] at hm
  cases hm

def EdfPost (s s' : DsrNode) : MaintCall → Prop
  | .setTimeout => AckCalm s ∨ AckArmed s →
      EdfQueue s'.maintBuf ∧ AckArmed s' ∧ (AckCalm s → AckCalm s')
  | .timeout => s.ackTimer = none ∨ AckArmed s →
      EdfQueue s'.maintBuf ∧ AckArmed s' ∧ (s.ackTimer = none → AckCalm s')
  | .enqueue m => m.expires = m.deadline → m.txTime = s.now → AckCalm s ∨ AckArmed s →
      EdfQueue s'.maintBuf ∧ (AckArmed s → AckArmed s') ∧ (AckCalm s → AckCalm s')
  | .add _ | .xmit _ => AckCalm s ∨ AckArmed s →
      EdfQueue s'.maintBuf ∧ (AckArmed s → AckArmed s') ∧ (AckCalm s → AckCalm s')
  | .salvage _ | .salvageLoop _ => AckCalm s → EdfQueue s'.maintBuf ∧ AckCalm s'

theorem EdfPost.before {s s₁ s' : DsrNode} {c : MaintCall} (ha : Apart s s₁) (h : EdfPost s₁ s' c) :
    EdfPost s s' c := by
  cases c <;> simpa only [EdfPost, ha.ackCalm, ha.ackArmed, ha.ackTimer, ha.now] using h

theorem EdfPost.after {s s₁ s' : DsrNode} {c : MaintCall} (h : EdfPost s s₁ c) (ha : Apart s₁ s') :
    EdfPost s s' c := by
  cases c <;> simpa only [EdfPost, ha.ackCalm, ha.ackArmed, ha.maintBuf] using h

theorem ackCalm_arm {s : DsrNode} (hq : EdfQueue s.maintBuf) {m : MaintEntry}
    (hf : s.maintBuf.find MaintEntry.ackReqSent = some m) (hx : ¬ m.expired s.now)
    (t : Option Timeval) : AckCalm { s with ackTimer := t } := by
  intro _ m' hm' hack
  have hlive := hq.first hf hm' hack
  rw [MaintEntry.expired_iff (hq.short m (List.mem_of_find?_eq_some hf))] at hx
  rw [timevalDiff_trans m'.deadline m.deadline, timevalDiff_neg m'.deadline]
  dsimp only
  omega

theorem AckCalm.snoc {s : DsrNode} (h : AckCalm s) {m : MaintEntry} {t : Tbl MaintEntry}
    (ha : s.maintBuf.addTail m = some t) (hm : m.txTime = s.now) (es : List Event) :
    AckCalm { s with maintBuf := t, out := es } := by
  obtain ⟨-, rfl⟩ := Tbl.addTail_eq_some ha
  intro hs m' hm' hack
  rcases List.mem_append.mp hm' with hm' | hm'
  · exact h hs m' hm' hack
  · rw [List.mem_singleton.mp hm']
    dsimp only
    rw [MaintEntry.deadline, hm, timevalDiff_addUsecs, timevalDiff_self]
    omega

theorem AckArmed.snoc {s : DsrNode} (h : AckArmed s) {m : MaintEntry} {t : Tbl MaintEntry}
    (ha : s.maintBuf.addTail m = some t) (hm : m.txTime = s.now) (es : List Event) :
    AckCalm { s with maintBuf := t, out := es } ∨ AckArmed { s with maintBuf := t, out := es } := by
  cases hf : s.maintBuf.find MaintEntry.ackReqSent with
  | none =>
    have hnone : ∀ m' ∈ s.maintBuf.head, ¬ m'.ackReqSent = true := List.find?_eq_none.mp hf
    exact Or.inl (AckCalm.snoc (fun _ m' hm' hack => absurd hack (hnone m' hm')) ha hm es)
  | some m₀ =>
    obtain ⟨-, rfl⟩ := Tbl.addTail_eq_some ha
    refine Or.inr fun m' hm' => ?_
    have hfind : (s.maintBuf.head ++ [m]).find? MaintEntry.ackReqSent = some m₀ := by
      rw [List.find?_append, show s.maintBuf.head.find? MaintEntry.ackReqSent = some m₀ from hf]
      rfl
    obtain rfl := Option.some_inj.mp (hfind.symm.trans hm')
    exact h m₀ hf

theorem MaintPut.edf {put : Tbl MaintEntry → MaintEntry → Prop} {c : MaintCall} {s s' : DsrNode}
    (h : MaintPut put c s s') : BufferedInOrder s'.out → EdfQueue s.maintBuf → EdfPost s s' c := by
  induction h with
  | before ha _ ih => exact fun ho hq => (ih ho (by rw [ha.maintBuf]; exact hq)).before ha
  | after h ha ih =>
    refine fun ho hq => (ih (fun now m ahead he => ho now m ahead (ha.out_prefix.subset he)) hq).after ha
  | @idle s hf =>
    refine fun _ hq _ => ⟨hq, fun m hm => ?_, fun hc => hc⟩
    rw [hf] at hm
    cases hm
  | @arm s m hf hx =>
    intro _ hq _
    rw [hq.touch hf]
    refine ⟨hq, fun m' hm' => ?_, fun _ => ackCalm_arm hq hf hx _⟩
    obtain rfl := Option.some_inj.mp (hf.symm.trans hm')
    rfl
  | @expired s s' m hf hx _ ih =>
    intro ho hq hcalm
    rw [hq.touch hf] at ih
    have hdead := (MaintEntry.expired_iff (hq.short m (List.mem_of_find?_eq_some hf)) s.now).mp hx
    have hnone : AckCalm s → s.ackTimer = none := by
      intro hc
      refine Option.not_isSome_iff_eq_none.mp fun hs => ?_
      have hle := hc hs m (List.mem_of_find?_eq_some hf) (List.find?_some hf)
      omega
    obtain ⟨hq', harm, hc'⟩ := ih ho hq (hcalm.imp_left hnone)
    exact ⟨hq', harm, fun hc => hc' (hnone hc)⟩
  | @pending s hp =>
    refine fun _ hq hor => ⟨hq, hor.resolve_left fun hn => ?_, fun hn => ?_⟩
    · rw [hn] at hp
      cases hp
    · rw [hn] at hp
      cases hp
  | @empty s hd =>
    exact fun _ hq _ => ⟨hq, .of_nil (detachFirst_nil hd), fun hn => .of_none hn⟩
  | @drop s s' m t hn hd _ _ _ ih =>
    intro ho hq _
    obtain ⟨hq', harm, hc'⟩ := ih ho (hq.sublist (Tbl.detachFirst_sublist hd)) (Or.inl (.of_none hn))
    exact ⟨hq', harm, fun _ => hc' (.of_none hn)⟩
  | @giveUp s s₁ s₂ s' m t hn hd _ _ _ hloop hst ih₁ ih₂ ih₃ =>
    intro ho hq _
    have ho₂ : BufferedInOrder s₂.out := fun now m ahead he => ho now m ahead (hst.out.subset he)
    have ho₁ : BufferedInOrder s₁.out := fun now m ahead he => ho₂ now m ahead (hloop.out.subset he)
    obtain ⟨hq₁, hc₁⟩ := ih₁ ho₁ (hq.sublist (Tbl.detachFirst_sublist hd)) (.of_none hn)
    obtain ⟨hq₂, hc₂⟩ := ih₂ ho₂ hq₁ hc₁
    obtain ⟨hq', harm, hc'⟩ := ih₃ ho hq₂ (Or.inl hc₂)
    exact ⟨hq', harm, fun _ => hc' hc₂⟩
  | @rexmt s s' m t hn hd _ _ _ ih =>
    intro ho hq _
    have hqt := hq.sublist (Tbl.detachFirst_sublist hd)
    have hput := hqt.put (m := m.rexmtAt s.now) rfl (hq.short m (Tbl.detachFirst_mem hd).1)
    obtain ⟨hq', harm, hc'⟩ := ih ho hput (Or.inl (.of_none hn))
    exact ⟨hq', harm, fun _ => hc' (.of_none hn)⟩
  | lost => exact fun _ hq hc => ⟨hq, hc⟩
  | salvaged _ ih =>
    intro ho hq hc
    obtain ⟨hq', -, hc'⟩ := ih ho hq (Or.inl hc)
    exact ⟨hq', hc' hc⟩
  | loopDone _ => exact fun _ hq hc => ⟨hq, hc⟩
  | loopNext hd _ hloop ih₁ ih₂ =>
    intro ho hq hc
    have hsub := Tbl.findDetach_sublist hd
    have ho₁ := fun now m ahead he => ho now m ahead (hloop.out.subset he)
    obtain ⟨hq₁, hc₁⟩ := ih₁ ho₁ (hq.sublist hsub) (hc.sublist hsub)
    exact ih₂ ho hq₁ hc₁
  | plain _ => exact fun _ hq _ => ⟨hq, id, id⟩
  | request _ _ ih => exact ih
  | unknown _ => exact fun _ hq _ => ⟨hq, id, id⟩
  | ignored _ => exact fun _ hq _ => ⟨hq, id, id⟩
  | holdoff _ _ _ _ ih => exact fun ho hq => ih ho hq rfl rfl
  | due _ _ _ _ ih => exact fun ho hq => ih ho hq rfl rfl
  | full _ => exact fun _ hq _ _ _ => ⟨hq, id, id⟩
  | @enqueued s s' m t ha hst ih =>
    intro ho hq hm htx hor
    have hin : InOrder m s.maintBuf.head :=
      ho s.now m _ (hst.out.subset (List.mem_append_right _ (List.mem_singleton_self _)))
    obtain ⟨hq', harm', hc'⟩ := ih ho (hq.addTail ha hm hin)
      (hor.elim (fun hc => Or.inl (hc.snoc ha htx _)) fun harm => harm.snoc ha htx _)
    exact ⟨hq', fun _ => harm', fun hc => hc' (hc.snoc ha htx _)⟩

structure EdfInv (s : DsrNode) : Prop where
  queue : EdfQueue s.maintBuf
  armed : AckArmed s

theorem EdfInv.step {i : MaintInput} {s s' : DsrNode} (h : EdfInv s) (hs : MaintStep i s s')
    (ho : BufferedInOrder s'.out) : EdfInv s' := by
  cases hs with
  | apart ha => exact ⟨by rw [ha.maintBuf]; exact h.queue, ha.ackArmed.mpr h.armed⟩
  | add hm =>
    obtain ⟨hq, harm, -⟩ := hm.edf ho h.queue (Or.inr h.armed)
    exact ⟨hq, harm h.armed⟩
  | ack _ hm =>
    obtain ⟨hq, harm, -⟩ := hm.edf ho (h.queue.sublist List.filter_sublist) (Or.inl (.of_none rfl))
    exact ⟨hq, harm⟩
  | rerr hm =>
    obtain ⟨hq, harm, -⟩ := hm.edf ho (h.queue.sublist List.filter_sublist) (Or.inl (.of_none rfl))
    exact ⟨hq, harm⟩
  | ackTimer hm =>
    obtain ⟨hq, harm, -⟩ := hm.edf ho h.queue (Or.inl rfl)
    exact ⟨hq, harm⟩
  | neighAdd _ => exact ⟨h.queue, h.armed⟩
  | setMaxLen => exact ⟨h.queue.sublist (List.Sublist.refl _), h.armed⟩

theorem maintReach_edf {env : DsrNode → DsrNode → Prop} {ok : DsrNode → MaintInput → Prop}
    {s : DsrNode} (h : MaintReach env ok s) : BufferedInOrder s.out → EdfInv s := by
  induction h with
  | init ifaddr confvals locking budget now kmem rreqSeqno =>
    refine fun _ => ⟨⟨?_, ?_, List.Pairwise.nil⟩, .of_nil rfl⟩
    · exact fun m hm => absurd hm List.not_mem_nil
    · exact fun m hm => absurd hm List.not_mem_nil
  | @env s s' _ ho _ ih =>
    intro hb
    obtain ⟨b, hout, -⟩ := ho.out
    have hinv := ih fun now m ahead he => hb now m ahead (by rw [hout]; exact List.mem_append_left _ he)
    refine ⟨by rw [ho.maintBuf]; exact hinv.queue, fun m hm => ?_⟩
    rw [ho.maintBuf] at hm
    rw [ho.ackTimer]
    exact hinv.armed m hm
  | step i _ _ hrun ih =>
    intro hb
    have hstep := MaintInput.step hrun
    exact (ih fun now m ahead he => hb now m ahead (hstep.out.subset he)).step hstep hb

def EarliestArmed (s : DsrNode) : Prop :=
  (∃ m ∈ s.maintBuf.head, m.ackReqSent = true) → ∃ t, s.ackTimer = some t ∧
    (∃ m ∈ s.maintBuf.head, m.ackReqSent = true ∧ timevalAddUsecs m.txTime m.rto = t) ∧
    ∀ m ∈ s.maintBuf.head, m.ackReqSent = true →
      timevalDiff t (timevalAddUsecs m.txTime m.rto) ≤ 0

theorem EdfInv.earliest {s : DsrNode} (h : EdfInv s) : EarliestArmed s := by
  rintro ⟨m₀, hm₀, hack₀⟩
  cases hf : s.maintBuf.find MaintEntry.ackReqSent with
  | none => exact absurd hack₀ (List.find?_eq_none.mp hf m₀ hm₀)
  | some m =>
    refine ⟨m.deadline, h.armed m hf, ⟨m, List.mem_of_find?_eq_some hf, List.find?_some hf, rfl⟩, ?_⟩
    exact fun m' hm' hack => h.queue.first hf hm' hack

theorem ack_timer_earliest {s : DsrNode} (h : MaintReach anyEnv anyMaint s)
    (ho : BufferedInOrder s.out) : EarliestArmed s :=
  (maintReach_edf h ho).earliest

def hopPkt (hop : InAddr) : DsrPkt :=
  { dsrPktAlloc (fun _ => 0)
      { hSource := 0
        iph := { ihl := 5, totLen := 21, ttl := 64, protocol := 17, saddr := detourHost 1
                 daddr := hop }
        data := [7] } with nxtHop := hop }

def hopAck (hop me : InAddr) (id : ℕ) : MaintInput :=
  .ack ((ackPkt (fun _ => 0) hop me id).getD {}) { gen := 1, off := dsrOptHdrLen }

def hopStart (roundTripTimeout : ℕ) : DsrNode :=
  dsrNodeInit (detourHost 1) (fun cv => if cv = .roundTripTimeout then roundTripTimeout else confvalsDef cv)
    true 20 ⟨100, 0⟩ (fun _ => 0) 0

def slowThenFast : List (Timeval × MaintInput) :=
  [(⟨100, 0⟩, .neighAdd (detourHost 2) 2), (⟨100, 0⟩, .neighAdd (detourHost 3) 3),
    (⟨100, 0⟩, .add (hopPkt (detourHost 2))), (⟨100, 50000⟩, hopAck (detourHost 2) (detourHost 1) 1),
    (⟨101, 0⟩, .add (hopPkt (detourHost 2))), (⟨101, 0⟩, .add (hopPkt (detourHost 3)))]

def armedLate (s : DsrNode) : Bool :=
  s.maintBuf.head.any fun m => m.ackReqSent && s.ackTimer.any fun t => timevalDiff t m.deadline > 0

theorem armedLate_not {s : DsrNode} (h : armedLate s = true) : ¬ EarliestArmed s := by
  obtain ⟨m, hm, hlate⟩ := List.any_eq_true.mp h
  obtain ⟨hack, htimer⟩ := Bool.and_eq_true_iff.mp hlate
  obtain ⟨t, ht, hgt⟩ := (Option.any_eq_true _ _).mp htimer
  intro he
  obtain ⟨t', ht', -, hmin⟩ := he ⟨m, hm, hack⟩
  obtain rfl := Option.some_inj.mp (ht.symm.trans ht')
  have hle := hmin m hm hack
  have hgt' := of_decide_eq_true hgt
  unfold MaintEntry.deadline at hgt'
  omega

theorem ack_timer_not_earliest : ¬ ∀ s, MaintReach anyEnv anyMaint s → EarliestArmed s := by
  intro h
  have hrun : (maintDrive (hopStart 0) slowThenFast).any armedLate = true := by decide +kernel
  obtain ⟨s, hs, hlate⟩ := (Option.any_eq_true _ _).mp hrun
  exact armedLate_not hlate (h s (.drive _ (.init _ _ _ _ _ _ _) hs))

def inOrderEvent : Event → Bool
  | .maint _ (.buffered m ahead) =>
      m.rto < 2147483648 && ahead.all fun p => timevalDiff p.expires m.expires ≤ 0
  | _ => true

theorem bufferedInOrder_of_all {out : List Event} (h : out.all inOrderEvent = true) :
    BufferedInOrder out := by
  intro now m ahead he
  have hin := List.all_eq_true.mp h _ he
  simpa [inOrderEvent, InOrder] using hin

theorem ack_timer_earliest_fixed : ∃ s, MaintReach anyEnv anyMaint s ∧
    (∃ m ∈ s.maintBuf.head, m.ackReqSent = true) ∧ EarliestArmed s := by
  have hrun : (maintDrive (hopStart 2000) slowThenFast).any (fun s =>
      s.out.all inOrderEvent && s.maintBuf.head.any MaintEntry.ackReqSent) = true := by
    decide +kernel
  obtain ⟨s, hs, hb⟩ := (Option.any_eq_true _ _).mp hrun
  obtain ⟨hall, hany⟩ := Bool.and_eq_true_iff.mp hb
  have hreach : MaintReach anyEnv anyMaint s := .drive _ (.init _ _ _ _ _ _ _) hs
  exact ⟨s, hreach, List.any_eq_true.mp hany,
    ack_timer_earliest hreach (bufferedInOrder_of_all hall)⟩

end DsrUu
