import DsrUu.Node.SendBuf

namespace DsrUu

open Effect

def gratCrit (src prevHop : InAddr) (e : GratRrepEntry) : Bool := e.src = src && e.prevHop = prevHop

def gratHold (s : DsrNode) : ℕ := usecsOf .gratReplyHoldOff (s.confvals .gratReplyHoldOff)

def gratEntry (src prevHop : InAddr) (s : DsrNode) : GratRrepEntry :=
  { src := src, prevHop := prevHop, expires := timevalAddUsecs s.now (gratHold s) }

def gratPut (src prevHop : InAddr) (s : DsrNode) : Tbl GratRrepEntry :=
  (s.gratRrepTbl.add (gratEntry src prevHop s) (critTime (kmemTimeval s.kmem))).getD s.gratRrepTbl

def gratDetach (t : Tbl GratRrepEntry) : Tbl GratRrepEntry := (t.detachFirst.map Prod.snd).getD t

def gratArmed (t : Tbl GratRrepEntry) : Option Timeval := t.head.head?.map GratRrepEntry.expires

section Ok

variable {s s' : DsrNode}

theorem release_acquire_gratRrepTbl (s : DsrNode) (t : Tbl GratRrepEntry) :
    release .gratRrepTbl { acquire .gratRrepTbl s with gratRrepTbl := t } = { s with gratRrepTbl := t } := by
  unfold release acquire
  cases hk : s.locking <;> simp [hk]

theorem release_acquire_gratTimer (s : DsrNode) (timer : Option Timeval) :
    release .gratRrepTbl { acquire .gratRrepTbl s with gratRrepTblTimer := timer } =
      { s with gratRrepTblTimer := timer } := by
  unfold release acquire
  cases hk : s.locking <;> simp [hk]

@[simp] theorem acquire_gratRrepTbl (l : Lock) (s : DsrNode) :
    (acquire l s).gratRrepTbl = s.gratRrepTbl := by
  unfold acquire
  split <;> rfl

theorem gratRrepTblFind_ok {src prevHop : InAddr} {b : Bool}
    (h : gratRrepTblFind src prevHop s = .ok b s') :
    s' = s ∧ b = (s.gratRrepTbl.find (gratCrit src prevHop)).isSome := by
  obtain ⟨s₁, hm, rfl, _⟩ := locked_ok h
  cases hm
  rw [acquire_gratRrepTbl]
  exact ⟨release_acquire _ _, rfl⟩

theorem setGratRrepTbl_ok (f : Tbl GratRrepEntry → Tbl GratRrepEntry) {u : Unit}
    (h : locked .gratRrepTbl (do
      let s ← get
      setGratRrepTbl (f s.gratRrepTbl)) s = .ok u s') :
    s' = { s with gratRrepTbl := f s.gratRrepTbl } := by
  obtain ⟨s₁, hm, rfl, _⟩ := locked_ok h
  cases hm
  rw [acquire_gratRrepTbl]
  exact release_acquire_gratRrepTbl s _

theorem gratSetTimer_ok (h : gratSetTimer s = .ok () s') :
    s.gratRrepTbl.head ≠ [] ∧ s' = { s with gratRrepTblTimer := gratArmed s.gratRrepTbl } := by
  obtain ⟨s₁, hm, rfl, _⟩ := locked_ok h
  obtain ⟨t, s₂, hget, hm⟩ := bind_ok hm
  cases hget
  rw [acquire_gratRrepTbl] at hm
  unfold gratArmed
  cases hd : s.gratRrepTbl.head with
  | nil =>
    rw [hd] at hm
    cases hm
  | cons e es =>
    rw [hd] at hm
    cases hm
    exact ⟨List.cons_ne_nil _ _, release_acquire_gratTimer s (some e.expires)⟩

theorem gratRrepTblAdd_ok {src prevHop : InAddr} (h : gratRrepTblAdd src prevHop s = .ok () s') :
    ((s.gratRrepTbl.find (gratCrit src prevHop)).isSome = true ∧ s' = s) ∨
    ((s.gratRrepTbl.find (gratCrit src prevHop)).isSome = false ∧
      s' = { s with gratRrepTbl := gratPut src prevHop s
                    gratRrepTblTimer := gratArmed (gratPut src prevHop s) }) := by
  obtain ⟨b, s₁, hf, h⟩ := bind_ok h
  obtain ⟨hs, rfl⟩ := gratRrepTblFind_ok hf
  obtain rfl := hs.symm
  split at h
  · next hb =>
    cases h
    exact .inl ⟨hb, rfl⟩
  · next hb =>
    obtain ⟨now, s₁, hr, h⟩ := bind_ok h
    cases hr
    obtain ⟨holdoff, s₁, hr, h⟩ := bind_ok h
    cases hr
    obtain ⟨mem, s₁, hr, h⟩ := bind_ok h
    cases hr
    obtain ⟨_, s₁, hr, h⟩ := bind_ok h
    cases hr
    obtain ⟨_, s₁, hr, h⟩ := bind_ok h
    have hput := setGratRrepTbl_ok (fun t =>
      (t.add (gratEntry src prevHop s) (critTime (kmemTimeval s.kmem))).getD t) hr
    subst hput
    obtain ⟨-, rfl⟩ := gratSetTimer_ok h
    exact .inr ⟨by simpa using hb, rfl⟩

theorem gratRrepTblTimeout_ok (h : gratRrepTblTimeout s = .ok () s') :
    s' = { s with gratRrepTbl := gratDetach s.gratRrepTbl
                  gratRrepTblTimer := gratArmed (gratDetach s.gratRrepTbl) } := by
  obtain ⟨_, s₁, hr, h⟩ := bind_ok h
  cases hr
  obtain ⟨_, s₁, hr, h⟩ := bind_ok h
  have hdet := setGratRrepTbl_ok gratDetach hr
  subst hdet
  obtain ⟨t, s₂, hget, h⟩ := bind_ok h
  cases hget
  split at h
  · next hd =>
    cases h
    have hnil : (gratDetach s.gratRrepTbl).head = [] := hd
    have hnone : gratArmed (gratDetach s.gratRrepTbl) = none := by rw [gratArmed, hnil]; rfl
    rw [hnone]
  · exact (gratSetTimer_ok h).2

end Ok

def GratFree (s : DsrNode) : Prop := s.locking = true → Lock.gratRrepTbl ∉ s.held

theorem gratPut_head (src prevHop : InAddr) {s : DsrNode} (h : s.gratRrepTbl.full = false) :
    (gratPut src prevHop s).head = Tbl.insertBefore (critTime (kmemTimeval s.kmem))
      (gratEntry src prevHop s) s.gratRrepTbl.head := by
  unfold gratPut Tbl.add
  rw [if_neg (of_decide_eq_false h)]
  rfl

section Runs

variable {s : DsrNode} {Q : Unit → DsrNode → Prop} {E : Stop → Prop}

theorem wp_of_run {α : Type} {m : DsrM α} {Q : α → DsrNode → Prop} {a : α} {s' : DsrNode}
    (h : m s = .ok a s') (hq : Q a s') : wp m s Q E := by
  rw [wp, h]
  exact hq

theorem wp_setGratRrepTbl (hfree : GratFree s) (f : Tbl GratRrepEntry → Tbl GratRrepEntry)
    (hq : Q () { s with gratRrepTbl := f s.gratRrepTbl }) :
    wp (locked .gratRrepTbl (do
      let s ← get
      setGratRrepTbl (f s.gratRrepTbl))) s Q E := by
  apply wp_locked hfree
  show Q () (release _ { acquire .gratRrepTbl s with gratRrepTbl := f (acquire .gratRrepTbl s).gratRrepTbl })
  rw [acquire_gratRrepTbl, release_acquire_gratRrepTbl]
  exact hq

theorem wp_gratSetTimer (hfree : GratFree s) (hne : s.gratRrepTbl.head ≠ [])
    (hq : Q () { s with gratRrepTblTimer := gratArmed s.gratRrepTbl }) : wp gratSetTimer s Q E := by
  apply wp_locked hfree
  rw [wp_bind, wp_get, acquire_gratRrepTbl]
  unfold gratArmed at hq
  cases hd : s.gratRrepTbl.head with
  | nil => exact absurd hd hne
  | cons e es =>
    rw [hd] at hq
    show Q () (release _ { acquire .gratRrepTbl s with gratRrepTblTimer := some e.expires })
    rw [release_acquire_gratTimer]
    exact hq

theorem gratRrepTblFind_runs (hfree : GratFree s) (src prevHop : InAddr) :
    gratRrepTblFind src prevHop s = .ok (s.gratRrepTbl.find (gratCrit src prevHop)).isSome s := by
  have hwp : wp (gratRrepTblFind src prevHop) s (fun _ _ => True) fun _ => False :=
    wp_locked hfree trivial
  obtain ⟨b, s', h, -⟩ := ok_of_wp hwp
  rw [h]
  obtain ⟨rfl, rfl⟩ := gratRrepTblFind_ok h
  rfl

theorem gratRrepTblTimeout_runs (hfree : GratFree s) : gratRrepTblTimeout s =
    .ok () { s with gratRrepTbl := gratDetach s.gratRrepTbl
                    gratRrepTblTimer := gratArmed (gratDetach s.gratRrepTbl) } := by
  have hwp : wp gratRrepTblTimeout s (fun _ _ => True) fun _ => False := by
    unfold gratRrepTblTimeout
    rw [wp_bind]
    show wp (locked _ _ >>= _) { s with gratRrepTblTimer := none } _ _
    rw [wp_bind]
    apply wp_setGratRrepTbl (s := { s with gratRrepTblTimer := none }) hfree gratDetach
    rw [wp_bind, wp_get, wp_ite]
    exact ⟨fun _ => trivial, fun hne => wp_gratSetTimer hfree hne trivial⟩
  obtain ⟨_, s', h, -⟩ := ok_of_wp hwp
  rw [h, gratRrepTblTimeout_ok h]

theorem gratRrepTblAdd_runs (hfree : GratFree s) (hroom : s.gratRrepTbl.full = false)
    (src prevHop : InAddr) : ∃ s', gratRrepTblAdd src prevHop s = .ok () s' := by
  have hwp : wp (gratRrepTblAdd src prevHop) s (fun _ _ => True) fun _ => False := by
    unfold gratRrepTblAdd
    rw [wp_bind]
    refine wp_of_run (gratRrepTblFind_runs hfree src prevHop) ?_
    rw [wp_ite]
    refine ⟨fun _ => trivial, fun _ => ?_⟩
    unfold gettime confValToUsecs confVal kmalloc setGratTimer
    simp only [wp_bind, wp_get, wp_pure, wp_modify]
    apply wp_setGratRrepTbl (s := { s with gratRrepTblTimer := none }) hfree fun t =>
      (t.add (gratEntry src prevHop s) (critTime (kmemTimeval s.kmem))).getD t
    refine wp_gratSetTimer hfree ?_ trivial
    show (gratPut src prevHop s).head ≠ []
    rw [gratPut_head src prevHop hroom]
    exact List.ne_nil_of_mem (Tbl.self_mem_insertBefore _ _ _)
  obtain ⟨_, s', h, -⟩ := ok_of_wp hwp
  exact ⟨s', h⟩

end Runs

structure GratAdd where
  src : InAddr
  prevHop : InAddr
  time : Timeval
deriving DecidableEq, Repr

def gratLog (src prevHop : InAddr) (log : List GratAdd) (s : DsrNode) : List GratAdd :=
  if (s.gratRrepTbl.find (gratCrit src prevHop)).isSome then log else log ++ [⟨src, prevHop, s.now⟩]

inductive GratRun (hold : ℕ) (ok : DsrNode → Prop) : List GratAdd → DsrNode → Prop
  | init {s : DsrNode} (htbl : s.gratRrepTbl = Tbl.init gratRrepTblMaxLen)
      (htimer : s.gratRrepTblTimer = none) (hhold : gratHold s = hold) : GratRun hold ok [] s
  | env {log : List GratAdd} {s s' : DsrNode} (hr : GratRun hold ok log s)
      (htbl : s'.gratRrepTbl = s.gratRrepTbl) (htimer : s'.gratRrepTblTimer = s.gratRrepTblTimer)
      (hhold : gratHold s' = gratHold s) (hnow : 0 ≤ timevalDiff s'.now s.now) :
      GratRun hold ok log s'
  | add {log : List GratAdd} {s s' : DsrNode} {src prevHop : InAddr} (hr : GratRun hold ok log s)
      (hroom : s.gratRrepTbl.full = false) (hok : ok s)
      (ha : gratRrepTblAdd src prevHop s = .ok () s') : GratRun hold ok (gratLog src prevHop log s) s'
  | fire {log : List GratAdd} {s s' : DsrNode} {t : Timeval} (hr : GratRun hold ok log s)
      (ht : s.gratRrepTblTimer = some t) (hdue : 0 ≤ timevalDiff s.now t)
      (hf : gratRrepTblTimeout s = .ok () s') : GratRun hold ok log s'

def GratDue (s : DsrNode) : Prop := ∃ t, s.gratRrepTblTimer = some t ∧ 0 ≤ timevalDiff s.now t

def GratHeld (hold : ℕ) (log : List GratAdd) (src prevHop : InAddr) (now : Timeval) : Prop :=
  ∃ a ∈ log, a.src = src ∧ a.prevHop = prevHop ∧ timevalDiff now a.time < hold

structure GratOk (hold : ℕ) (log : List GratAdd) (s : DsrNode) : Prop where
  sorted : s.gratRrepTbl.head.Pairwise fun a b => timevalDiff a.expires b.expires ≤ 0
  armed : ∀ t, s.gratRrepTblTimer = some t →
    ∃ e ∈ s.gratRrepTbl.head, e.expires = t ∧ ∀ e' ∈ s.gratRrepTbl.head, timevalDiff t e'.expires ≤ 0
  running : s.gratRrepTblTimer = none → s.gratRrepTbl.head = []
  fires : GratFree s → GratDue s → ∃ s' e, gratRrepTblTimeout s = .ok () s' ∧
    s.gratRrepTbl.head = e :: s'.gratRrepTbl.head ∧ 0 ≤ timevalDiff s.now e.expires
  found : GratFree s → ∀ src prevHop, ∃ b, gratRrepTblFind src prevHop s = .ok b s ∧
    (GratHeld hold log src prevHop s.now → b = true) ∧
    (b = true → GratHeld hold log src prevHop s.now ∨ GratDue s)

def InsertsInOrder (s : DsrNode) : Prop :=
  ∀ p, s.gratRrepTbl.find (critTime (kmemTimeval s.kmem)) = some p →
    0 ≤ timevalDiff p.expires (timevalAddUsecs s.now (gratHold s))

structure GratInv (hold : ℕ) (log : List GratAdd) (s : DsrNode) : Prop where
  fixed : gratHold s = hold
  sorted : s.gratRrepTbl.head.Pairwise fun a b => timevalDiff a.expires b.expires ≤ 0
  armed : s.gratRrepTblTimer = gratArmed s.gratRrepTbl
  logged : ∀ e ∈ s.gratRrepTbl.head, ∃ a ∈ log, a.src = e.src ∧ a.prevHop = e.prevHop ∧
    e.expires = timevalAddUsecs a.time hold
  kept : ∀ a ∈ log, (∃ e ∈ s.gratRrepTbl.head, e.src = a.src ∧ e.prevHop = a.prevHop ∧
    e.expires = timevalAddUsecs a.time hold) ∨ 0 ≤ timevalDiff s.now (timevalAddUsecs a.time hold)
  past : ∀ a ∈ log, 0 ≤ timevalDiff s.now a.time

theorem gratDetach_head (t : Tbl GratRrepEntry) : (gratDetach t).head = t.head.tail := by
  unfold gratDetach Tbl.detachFirst
  split
  · next h => simp [h]
  · next h => simp [h]

namespace GratInv

variable {hold : ℕ} {log : List GratAdd} {s s' : DsrNode}

theorem init (htbl : s.gratRrepTbl = Tbl.init gratRrepTblMaxLen) (htimer : s.gratRrepTblTimer = none)
    (hhold : gratHold s = hold) : GratInv hold [] s := by
  have hnil : s.gratRrepTbl.head = [] := by rw [htbl]; rfl
  refine ⟨hhold, ?_, ?_, ?_, fun a ha => absurd ha List.not_mem_nil, fun a ha => absurd ha List.not_mem_nil⟩
  · rw [hnil]
    exact List.Pairwise.nil
  · rw [htimer, gratArmed, hnil]
    rfl
  · rw [hnil]
    exact fun e he => absurd he List.not_mem_nil

theorem later {a b c : Timeval} (hab : 0 ≤ timevalDiff b a) (hc : 0 ≤ timevalDiff a c) :
    0 ≤ timevalDiff b c := by
  rw [timevalDiff_trans b a c]
  omega

theorem env (h : GratInv hold log s) (htbl : s'.gratRrepTbl = s.gratRrepTbl)
    (htimer : s'.gratRrepTblTimer = s.gratRrepTblTimer) (hhold : gratHold s' = gratHold s)
    (hnow : 0 ≤ timevalDiff s'.now s.now) : GratInv hold log s' := by
  refine ⟨hhold.trans h.fixed, ?_, ?_, ?_, fun a ha => ?_, fun a ha => later hnow (h.past a ha)⟩
  · rw [htbl]
    exact h.sorted
  · rw [htimer, htbl]
    exact h.armed
  · rw [htbl]
    exact h.logged
  · rw [htbl]
    exact (h.kept a ha).imp_right (later hnow)

theorem before (h : GratInv hold log s) {e : GratRrepEntry} (he : e ∈ s.gratRrepTbl.head) :
    timevalDiff e.expires (timevalAddUsecs s.now hold) ≤ 0 := by
  obtain ⟨a, ha, -, -, hexp⟩ := h.logged e he
  have hpast := h.past a ha
  rw [hexp, timevalDiff_deadlines, timevalDiff_neg]
  omega

theorem insert (h : GratInv hold log s) (src prevHop : InAddr) (hroom : s.gratRrepTbl.full = false)
    (hok : InsertsInOrder s) : GratInv hold (log ++ [⟨src, prevHop, s.now⟩])
      { s with gratRrepTbl := gratPut src prevHop s
               gratRrepTblTimer := gratArmed (gratPut src prevHop s) } := by
  have hhead := gratPut_head src prevHop hroom
  have hnew : (gratEntry src prevHop s).expires = timevalAddUsecs s.now hold := by
    rw [gratEntry, h.fixed]
  refine ⟨h.fixed, ?_, rfl, fun e he => ?_, fun a ha => ?_, fun a ha => ?_⟩
  · show (gratPut src prevHop s).head.Pairwise _
    rw [hhead]
    refine Tbl.pairwise_insertBefore (fun a b c hab hbc => ?_) (fun p hp => ?_) (fun x hx _ => ?_) h.sorted
    · rw [timevalDiff_trans a.expires b.expires c.expires]
      omega
    · have hlate := hok p hp
      rw [hnew, timevalDiff_neg, ← h.fixed]
      omega
    · rw [hnew]
      exact h.before hx
  · have he' : e ∈ (gratPut src prevHop s).head := he
    rw [hhead] at he'
    rcases Tbl.mem_insertBefore he' with rfl | he'
    · exact ⟨⟨src, prevHop, s.now⟩, List.mem_append_right _ (List.mem_singleton_self _), rfl, rfl, hnew⟩
    · obtain ⟨a, ha, hrest⟩ := h.logged e he'
      exact ⟨a, List.mem_append_left _ ha, hrest⟩
  · show (∃ e ∈ (gratPut src prevHop s).head, _) ∨ _
    rw [hhead]
    rcases List.mem_append.mp ha with ha | ha
    · refine (h.kept a ha).imp_left fun ⟨e, he, hrest⟩ => ⟨e, ?_, hrest⟩
      exact Tbl.mem_insertBefore_of_mem he
    · rw [List.mem_singleton.mp ha]
      exact .inl ⟨_, Tbl.self_mem_insertBefore _ _ _, rfl, rfl, hnew⟩
  · rcases List.mem_append.mp ha with ha | ha
    · exact h.past a ha
    · rw [List.mem_singleton.mp ha]
      exact (timevalDiff_self _).ge

theorem first (h : GratInv hold log s) {t : Timeval} (ht : s.gratRrepTblTimer = some t) :
    ∃ e es, s.gratRrepTbl.head = e :: es ∧ e.expires = t := by
  have harm := h.armed
  rw [ht, gratArmed] at harm
  obtain ⟨e, he, rfl⟩ := Option.map_eq_some_iff.mp harm.symm
  obtain ⟨es, hes⟩ := List.head?_eq_some_iff.mp he
  exact ⟨e, es, hes, rfl⟩

theorem fire (h : GratInv hold log s) {t : Timeval} (ht : s.gratRrepTblTimer = some t)
    (hdue : 0 ≤ timevalDiff s.now t) : GratInv hold log
      { s with gratRrepTbl := gratDetach s.gratRrepTbl
               gratRrepTblTimer := gratArmed (gratDetach s.gratRrepTbl) } := by
  obtain ⟨e, es, hhead, rfl⟩ := h.first ht
  have hrest : (gratDetach s.gratRrepTbl).head = es := by rw [gratDetach_head, hhead]; rfl
  have hsorted := h.sorted
  rw [hhead] at hsorted
  refine ⟨h.fixed, ?_, rfl, fun x hx => ?_, fun a ha => ?_, h.past⟩
  · show (gratDetach s.gratRrepTbl).head.Pairwise _
    rw [hrest]
    exact hsorted.of_cons
  · apply h.logged x
    rw [hhead]
    have hx' : x ∈ (gratDetach s.gratRrepTbl).head := hx
    rw [hrest] at hx'
    exact List.mem_cons_of_mem _ hx'
  · show (∃ x ∈ (gratDetach s.gratRrepTbl).head, _) ∨ _
    rw [hrest]
    rcases h.kept a ha with ⟨x, hx, hsrc, hprev, hexp⟩ | hpast
    · rw [hhead] at hx
      rcases List.mem_cons.mp hx with rfl | hx
      · rw [← hexp]
        exact .inr hdue
      · exact .inl ⟨x, hx, hsrc, hprev, hexp⟩
    · exact .inr hpast

end GratInv

theorem GratRun.inv {hold : ℕ} {log : List GratAdd} {s : DsrNode}
    (h : GratRun hold InsertsInOrder log s) : GratInv hold log s := by
  induction h with
  | init htbl htimer hhold => exact .init htbl htimer hhold
  | env _ htbl htimer hhold hnow ih => exact ih.env htbl htimer hhold hnow
  | @add log s s' src prevHop _ hroom hok ha ih =>
    rcases gratRrepTblAdd_ok ha with ⟨hfound, rfl⟩ | ⟨hnew, rfl⟩
    · rw [gratLog, if_pos hfound]
      exact ih
    · rw [gratLog, if_neg (Bool.eq_false_iff.mp hnew)]
      exact ih.insert src prevHop hroom hok
  | fire _ ht hdue hf ih =>
    obtain rfl := gratRrepTblTimeout_ok hf
    exact ih.fire ht hdue

namespace GratInv

variable {hold : ℕ} {log : List GratAdd} {s : DsrNode}

theorem armed_first (h : GratInv hold log s) {t : Timeval} (ht : s.gratRrepTblTimer = some t) :
    ∃ e ∈ s.gratRrepTbl.head, e.expires = t ∧
      ∀ e' ∈ s.gratRrepTbl.head, timevalDiff t e'.expires ≤ 0 := by
  obtain ⟨e, es, hhead, rfl⟩ := h.first ht
  have hsorted := h.sorted
  rw [hhead] at hsorted ⊢
  refine ⟨e, List.mem_cons_self, rfl, fun e' he' => ?_⟩
  rcases List.mem_cons.mp he' with rfl | he'
  · exact (timevalDiff_self _).le
  · exact (List.pairwise_cons.mp hsorted).1 e' he'

theorem running (h : GratInv hold log s) (ht : s.gratRrepTblTimer = none) :
    s.gratRrepTbl.head = [] := by
  have harm := h.armed
  rw [ht, gratArmed] at harm
  exact List.head?_eq_none_iff.mp (Option.map_eq_none_iff.mp harm.symm)

theorem fires (h : GratInv hold log s) (hfree : GratFree s) (hdue : GratDue s) :
    ∃ s' e, gratRrepTblTimeout s = .ok () s' ∧ s.gratRrepTbl.head = e :: s'.gratRrepTbl.head ∧
      0 ≤ timevalDiff s.now e.expires := by
  obtain ⟨t, ht, hnow⟩ := hdue
  obtain ⟨e, es, hhead, rfl⟩ := h.first ht
  refine ⟨_, e, gratRrepTblTimeout_runs hfree, ?_, hnow⟩
  show s.gratRrepTbl.head = e :: (gratDetach s.gratRrepTbl).head
  rw [gratDetach_head, hhead]
  rfl

theorem found_of_held (h : GratInv hold log s) {src prevHop : InAddr}
    (hheld : GratHeld hold log src prevHop s.now) :
    (s.gratRrepTbl.find (gratCrit src prevHop)).isSome = true := by
  obtain ⟨a, ha, rfl, rfl, hlt⟩ := hheld
  rcases h.kept a ha with ⟨e, he, hsrc, hprev, -⟩ | hpast
  · refine List.find?_isSome.mpr ⟨e, he, ?_⟩
    simp [gratCrit, hsrc, hprev]
  · rw [timevalDiff_neg, timevalDiff_addUsecs, timevalDiff_neg] at hpast
    omega

theorem held_of_found (h : GratInv hold log s) {src prevHop : InAddr}
    (hfound : (s.gratRrepTbl.find (gratCrit src prevHop)).isSome = true) :
    GratHeld hold log src prevHop s.now ∨ GratDue s := by
  obtain ⟨e, he, hcrit⟩ := List.find?_isSome.mp hfound
  obtain ⟨hsrc, hprev⟩ : e.src = src ∧ e.prevHop = prevHop := by simpa [gratCrit] using hcrit
  obtain ⟨a, ha, hasrc, haprev, hexp⟩ := h.logged e he
  by_cases hlt : timevalDiff s.now a.time < hold
  · exact .inl ⟨a, ha, hasrc.trans hsrc, haprev.trans hprev, hlt⟩
  · cases ht : s.gratRrepTblTimer with
    | none =>
      rw [h.running ht] at he
      exact absurd he List.not_mem_nil
    | some t =>
      obtain ⟨-, -, -, hmin⟩ := h.armed_first ht
      have hle := hmin e he
      rw [hexp, timevalDiff_neg, timevalDiff_addUsecs, timevalDiff_neg a.time] at hle
      refine .inr ⟨t, ht, ?_⟩
      rw [timevalDiff_trans s.now a.time t, timevalDiff_neg a.time t]
      omega

end GratInv

theorem grat_replies_held {hold : ℕ} {log : List GratAdd} {s : DsrNode}
    (h : GratRun hold InsertsInOrder log s) : GratOk hold log s :=
  have hinv := h.inv
  { sorted := hinv.sorted
    armed := fun _ ht => hinv.armed_first ht
    running := hinv.running
    fires := hinv.fires
    found := fun hfree src prevHop =>
      ⟨_, gratRrepTblFind_runs hfree src prevHop, hinv.found_of_held, hinv.held_of_found⟩ }

def gratAdded (src prevHop : InAddr) (s : DsrNode) : DsrNode :=
  match gratRrepTblAdd src prevHop s with
  | .ok _ s' => s'
  | .error _ s' => s'

theorem gratAdded_ok {s : DsrNode} (hfree : GratFree s) (hroom : s.gratRrepTbl.full = false)
    (src prevHop : InAddr) : gratRrepTblAdd src prevHop s = .ok () (gratAdded src prevHop s) := by
  obtain ⟨s', h⟩ := gratRrepTblAdd_runs hfree hroom src prevHop
  rw [gratAdded, h]

def gratStart : DsrNode := dsrNodeInit (detourHost 1) confvalsDef true 20 ⟨100, 0⟩ (fun _ => 0) 0

def gratOnce (mem : ℕ → UInt8) : DsrNode :=
  { gratAdded (detourHost 2) (detourHost 3) gratStart with now := ⟨100, 500000⟩, kmem := mem }

def gratTwice (mem : ℕ → UInt8) : DsrNode := gratAdded (detourHost 4) (detourHost 5) (gratOnce mem)

def gratTwiceLog : List GratAdd :=
  [⟨detourHost 2, detourHost 3, ⟨100, 0⟩⟩, ⟨detourHost 4, detourHost 5, ⟨100, 500000⟩⟩]

theorem gratTwice_run (mem : ℕ → UInt8) {ok : DsrNode → Prop} (hok : ok gratStart)
    (hok' : ok (gratOnce mem)) : GratRun 1000000 ok gratTwiceLog (gratTwice mem) := by
  have hstart : GratRun 1000000 ok [] gratStart := .init rfl rfl rfl
  have hadded : GratRun 1000000 ok [⟨detourHost 2, detourHost 3, ⟨100, 0⟩⟩]
      (gratAdded (detourHost 2) (detourHost 3) gratStart) :=
    hstart.add rfl hok (gratAdded_ok (fun _ => List.not_mem_nil) rfl _ _)
  have hwait : 0 ≤ timevalDiff ⟨100, 500000⟩ (gratAdded (detourHost 2) (detourHost 3) gratStart).now := by
    decide +kernel
  have honce : GratRun 1000000 ok [⟨detourHost 2, detourHost 3, ⟨100, 0⟩⟩] (gratOnce mem) :=
    hadded.env rfl rfl rfl hwait
  have hlog : gratLog (detourHost 4) (detourHost 5) [⟨detourHost 2, detourHost 3, ⟨100, 0⟩⟩]
      (gratOnce fun _ => 0) = gratTwiceLog := by decide +kernel
  rw [← hlog]
  exact honce.add rfl hok' (gratAdded_ok (fun _ => List.not_mem_nil) rfl _ _)

theorem grat_replies_disordered : ¬ ∀ hold log s, GratRun hold (fun _ => True) log s → GratOk hold log s := by
  intro h
  have hok := h _ _ _ (gratTwice_run (fun i => if i = 4 then 1 else 0) trivial trivial)
  have hbad : ¬ ((gratTwice fun i => if i = 4 then 1 else 0).gratRrepTbl.head.Pairwise
      fun a b => timevalDiff a.expires b.expires ≤ 0) := by decide +kernel
  exact hbad hok.sorted

theorem grat_replies_held_twice : GratOk 1000000 gratTwiceLog (gratTwice fun _ => 0) := by
  apply grat_replies_held
  apply gratTwice_run
  · intro p hp
    cases hp
  · intro p hp
    have hnone : (gratOnce fun _ => 0).gratRrepTbl.find
        (critTime (kmemTimeval (gratOnce fun _ => 0).kmem)) = none := by decide +kernel
    rw [hnone] at hp
    cases hp

end DsrUu
