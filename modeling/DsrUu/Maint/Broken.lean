import DsrUu.Maint.Earliest

namespace DsrUu

open Effect

def bornOf : Event → Option ℕ
  | .maint _ (.buffered m _) => some m.born
  | .maint _ (.request m) => some m.born
  | _ => none

def requestTime (m : MaintEntry) : Event → Option Timeval
  | .maint now (.buffered m' _) => if m'.born = m.born ∧ m'.ackReqSent = true then some now else none
  | .maint now (.request m') => if m'.born = m.born then some now else none
  | _ => none

def requestTimes (m : MaintEntry) (out : List Event) : List Timeval := out.filterMap (requestTime m)

structure BrokenAfter (max : ℕ) (out : List Event) (now : Timeval) (m : MaintEntry) : Prop where
  ackReqSent : m.ackReqSent = true
  requests : (requestTimes m out).length = max
  elapsed : ∀ t ∈ requestTimes m out, (m.rto : Int) ≤ timevalDiff now t
  unacked : ∀ t id, .maint t (.acked m.nxtHop id) ∈ out.drop m.born → id < m.id

def BreaksOk (max : ℕ) (out : List Event) : Prop :=
  ∀ i now m, out[i]? = some (.maint now (.linkBreak m)) → BrokenAfter max (out.take i) now m

structure Waits (max : ℕ) (out : List Event) (m : MaintEntry) : Prop where
  fresh : m.expires = m.deadline
  short : m.rto < 2147483648
  born : m.born < out.length
  rexmt : m.rexmt < max
  requests : (requestTimes m out).length = if m.ackReqSent = true then m.rexmt + 1 else 0
  before : ∀ t ∈ requestTimes m out, 0 ≤ timevalDiff m.txTime t
  unacked : ∀ t id, .maint t (.acked m.nxtHop id) ∈ out.drop m.born → id < m.id

structure BreakInv (max : ℕ) (out : List Event) (t : Tbl MaintEntry) : Prop where
  waits : ∀ m ∈ t.head, Waits max out m
  distinct : (t.head.map MaintEntry.born).Nodup
  past : ∀ e ∈ out, ∀ b, bornOf e = some b → b < out.length
  breaks : BreaksOk max out

section Log

variable {max : ℕ} {out es : List Event} {m : MaintEntry}

theorem requestTimes_append (m : MaintEntry) (out es : List Event) :
    requestTimes m (out ++ es) = requestTimes m out ++ requestTimes m es :=
  List.filterMap_append

theorem requestTime_none {e : Event} (h : bornOf e ≠ some m.born) : requestTime m e = none := by
  unfold bornOf at h
  unfold requestTime
  split <;> simp_all

theorem requestTimes_nil (h : ∀ e ∈ es, bornOf e ≠ some m.born) : requestTimes m es = [] :=
  List.filterMap_eq_nil_iff.mpr fun e he => requestTime_none (h e he)

theorem unacked_append (hborn : m.born ≤ out.length)
    (h : ∀ t id, .maint t (.acked m.nxtHop id) ∈ out.drop m.born → id < m.id)
    (hes : ∀ t id, .maint t (.acked m.nxtHop id) ∈ es → id < m.id) :
    ∀ t id, .maint t (.acked m.nxtHop id) ∈ (out ++ es).drop m.born → id < m.id := by
  intro t id he
  rw [List.drop_append, Nat.sub_eq_zero_of_le hborn, List.drop_zero] at he
  rcases List.mem_append.mp he with he | he
  · exact h t id he
  · exact hes t id he

theorem Waits.append (h : Waits max out m) (hreq : ∀ e ∈ es, bornOf e ≠ some m.born)
    (hack : ∀ t id, .maint t (.acked m.nxtHop id) ∈ es → id < m.id) : Waits max (out ++ es) m := by
  have htimes : requestTimes m (out ++ es) = requestTimes m out := by
    rw [requestTimes_append, requestTimes_nil hreq, List.append_nil]
  refine ⟨h.fresh, h.short, ?_, h.rexmt, by rw [htimes]; exact h.requests,
    by rw [htimes]; exact h.before, unacked_append (Nat.le_of_lt h.born) h.unacked hack⟩
  rw [List.length_append]
  exact Nat.lt_of_lt_of_le h.born (Nat.le_add_right _ _)

theorem BreaksOk.append (h : BreaksOk max out)
    (hes : ∀ i now m, es[i]? = some (.maint now (.linkBreak m)) →
      BrokenAfter max (out ++ es.take i) now m) : BreaksOk max (out ++ es) := by
  intro i now m hi
  by_cases hlt : i < out.length
  · rw [List.getElem?_append_left hlt] at hi
    rw [List.take_append_of_le_length (Nat.le_of_lt hlt)]
    exact h i now m hi
  · rw [List.getElem?_append_right (Nat.le_of_not_lt hlt)] at hi
    have hb := hes _ now m hi
    rwa [List.take_append, List.take_of_length_le (Nat.le_of_not_lt hlt)]

theorem past_append (h : ∀ e ∈ out, ∀ b, bornOf e = some b → b < out.length)
    (hes : ∀ e ∈ es, ∀ b, bornOf e = some b → b < out.length + es.length) :
    ∀ e ∈ out ++ es, ∀ b, bornOf e = some b → b < (out ++ es).length := by
  intro e he b hb
  rw [List.length_append]
  rcases List.mem_append.mp he with he | he
  · exact Nat.lt_of_lt_of_le (h e he b hb) (Nat.le_add_right _ _)
  · exact hes e he b hb

theorem bornOf_apart {e : Event} (h : e.apart) : bornOf e = none := by
  unfold bornOf
  split <;> simp_all [Event.apart]

theorem BreakInv.append_quiet {t : Tbl MaintEntry} (h : BreakInv max out t)
    (hborn : ∀ e ∈ es, bornOf e = none)
    (hlink : ∀ e ∈ es, ∀ now m, e ≠ .maint now (.linkBreak m))
    (hack : ∀ m ∈ t.head, ∀ now id, .maint now (.acked m.nxtHop id) ∈ es → id < m.id) :
    BreakInv max (out ++ es) t := by
  refine ⟨fun m hm => ?_, h.distinct, past_append h.past ?_, h.breaks.append ?_⟩
  · refine (h.waits m hm).append (fun e he => ?_) (hack m hm)
    rw [hborn e he]
    exact nofun
  · intro e he b hb
    rw [hborn e he] at hb
    cases hb
  · exact fun i now m hi => absurd rfl (hlink _ (List.mem_of_getElem? hi) now m)

end Log

section Timer

variable (s : DsrNode)

def TimerCalm : Prop := ∀ t, s.ackTimer = some t → 0 ≤ timevalDiff t s.now

def TimerReady : Prop :=
  ∀ m t, s.maintBuf.find MaintEntry.ackReqSent = some m → s.ackTimer = some t → m.expired s.now →
    0 ≤ timevalDiff t m.deadline

def TimerLate : Prop :=
  ∀ m t, s.maintBuf.find MaintEntry.ackReqSent = some m → s.ackTimer = some t →
    0 ≤ timevalDiff t m.deadline

def TimerArmed : Prop :=
  TimerLate s ∧ ∀ m, s.maintBuf.find MaintEntry.ackReqSent = some m → s.ackTimer.isSome = true

def FirstDue : Prop :=
  ∀ m, s.maintBuf.find MaintEntry.ackReqSent = some m → 0 ≤ timevalDiff s.now m.deadline

end Timer

section TimerLemmas

variable {s s' : DsrNode}

theorem TimerCalm.of_none (h : s.ackTimer = none) : TimerCalm s := by
  intro t ht
  rw [h] at ht
  cases ht

theorem TimerReady.of_none (h : s.ackTimer = none) : TimerReady s := by
  intro m t _ ht
  rw [h] at ht
  cases ht

theorem TimerLate.ready (h : TimerLate s) : TimerReady s := fun m t hf ht _ => h m t hf ht

theorem TimerCalm.ready (h : TimerCalm s) (hs : ∀ m ∈ s.maintBuf.head, m.rto < 2147483648) :
    TimerReady s := by
  intro m t hf ht hx
  rw [MaintEntry.expired_iff (hs m (List.mem_of_find?_eq_some hf))] at hx
  have ht' := h t ht
  rw [timevalDiff_trans t s.now, timevalDiff_neg s.now]
  omega

theorem Apart.timers (h : Apart s s') : (TimerCalm s' ↔ TimerCalm s) ∧
    (TimerReady s' ↔ TimerReady s) ∧ (TimerLate s' ↔ TimerLate s) ∧ (TimerArmed s' ↔ TimerArmed s) ∧
      (FirstDue s' ↔ FirstDue s) := by
  unfold TimerArmed TimerCalm TimerReady TimerLate FirstDue
  rw [h.ackTimer, h.maintBuf, h.now]
  exact ⟨.rfl, .rfl, .rfl, .rfl, .rfl⟩

theorem TimerReady.snoc (h : TimerReady s) {m : MaintEntry} {t : Tbl MaintEntry}
    (ha : s.maintBuf.addTail m = some t) (hm : m.txTime = s.now) (hr : m.rto < 2147483648)
    (es : List Event) : TimerReady { s with maintBuf := t, out := es } := by
  obtain ⟨-, rfl⟩ := Tbl.addTail_eq_some ha
  intro m' t' hf ht hx
  have hf' : (s.maintBuf.head ++ [m]).find? MaintEntry.ackReqSent = some m' := hf
  rw [List.find?_append] at hf'
  cases h₀ : s.maintBuf.head.find? MaintEntry.ackReqSent with
  | some m₀ =>
    rw [h₀, Option.some_or] at hf'
    exact h m' t' (h₀.trans hf') ht hx
  | none =>
    rw [h₀, Option.none_or] at hf'
    have hm' := List.mem_singleton.mp (List.mem_of_find?_eq_some hf')
    rw [hm', MaintEntry.expired_iff hr, MaintEntry.deadline, hm, timevalDiff_addUsecs] at hx
    change timevalDiff s.now s.now + (m.rto : Int) < 0 at hx
    rw [timevalDiff_self] at hx
    omega

end TimerLemmas

structure Entering (m : MaintEntry) (s : DsrNode) : Prop where
  fresh : m.expires = m.deadline
  txTime : m.txTime = s.now
  rexmt : m.rexmt = 0
  born : m.born ≤ s.out.length
  alone : ∀ m' ∈ s.maintBuf.head, m'.born < m.born
  past : ∀ e ∈ s.out, ∀ b, bornOf e = some b → b < m.born
  unacked : ∀ t id, .maint t (.acked m.nxtHop id) ∉ s.out.drop m.born

theorem Entering.apart {m : MaintEntry} {s s' : DsrNode} (ha : Apart s s') (h : Entering m s) :
    Entering m s' := by
  obtain ⟨b, hb, hapart⟩ := ha.out
  refine ⟨h.fresh, by rw [ha.now]; exact h.txTime, h.rexmt, ?_, by rw [ha.maintBuf]; exact h.alone,
    fun e he n hn => ?_, fun t id he => ?_⟩
  · rw [hb, List.length_append]
    exact Nat.le_trans h.born (Nat.le_add_right _ _)
  · rw [hb] at he
    rcases List.mem_append.mp he with he | he
    · exact h.past e he n hn
    · rw [bornOf_apart (hapart e he)] at hn
      cases hn
  · rw [hb, List.drop_append, Nat.sub_eq_zero_of_le h.born, List.drop_zero] at he
    rcases List.mem_append.mp he with he | he
    · exact h.unacked t id he
    · exact hapart _ he

def BreakPost (max : ℕ) (s s' : DsrNode) : MaintCall → Prop
  | .setTimeout => TimerReady s →
      BreakInv max s'.out s'.maintBuf ∧ TimerArmed s' ∧ (TimerCalm s → TimerCalm s')
  | .timeout => TimerLate s → (s.ackTimer = none → FirstDue s) →
      BreakInv max s'.out s'.maintBuf ∧ TimerArmed s' ∧ (TimerCalm s → TimerCalm s')
  | .enqueue m => Entering m s → TimerReady s → BreakInv max s'.out s'.maintBuf ∧
      (TimerArmed s → TimerArmed s') ∧ (TimerCalm s → TimerCalm s')
  | .add _ | .xmit _ => TimerReady s → BreakInv max s'.out s'.maintBuf ∧
      (TimerArmed s → TimerArmed s') ∧ (TimerCalm s → TimerCalm s')
  | .salvage _ | .salvageLoop _ => TimerCalm s → BreakInv max s'.out s'.maintBuf ∧ TimerCalm s'

theorem BreakInv.apart {max : ℕ} {s s' : DsrNode} (ha : Apart s s')
    (h : BreakInv max s.out s.maintBuf) : BreakInv max s'.out s'.maintBuf := by
  obtain ⟨b, hb, hapart⟩ := ha.out
  rw [hb, ha.maintBuf]
  refine h.append_quiet (fun e he => bornOf_apart (hapart e he)) (fun e he now m heq => ?_)
    fun m _ now i he => (hapart _ he).elim
  subst heq
  exact hapart _ he

theorem BreakPost.before {max : ℕ} {s s₁ s' : DsrNode} {c : MaintCall} (ha : Apart s s₁)
    (h : BreakPost max s₁ s' c) : BreakPost max s s' c := by
  obtain ⟨hc, hr, hl, harm, hd⟩ := ha.timers
  cases c with
  | enqueue m => exact fun hm hready => by simpa only [hc, harm] using h (hm.apart ha) (hr.mpr hready)
  | _ => simpa only [BreakPost, hc, hr, hl, harm, hd, ha.ackTimer] using h

theorem BreakPost.after {max : ℕ} {s s₁ s' : DsrNode} {c : MaintCall} (h : BreakPost max s s₁ c)
    (ha : Apart s₁ s') : BreakPost max s s' c := by
  obtain ⟨hc, hr, hl, harm, hd⟩ := ha.timers
  cases c with
  | enqueue m =>
    intro hm hready
    obtain ⟨hinv, h₁, h₂⟩ := h hm hready
    exact ⟨hinv.apart ha, fun x => harm.mpr (h₁ x), fun x => hc.mpr (h₂ x)⟩
  | setTimeout =>
    intro hready
    obtain ⟨hinv, h₁, h₂⟩ := h hready
    exact ⟨hinv.apart ha, harm.mpr h₁, fun x => hc.mpr (h₂ x)⟩
  | timeout =>
    intro hlate hdue
    obtain ⟨hinv, h₁, h₂⟩ := h hlate hdue
    exact ⟨hinv.apart ha, harm.mpr h₁, fun x => hc.mpr (h₂ x)⟩
  | add dp =>
    intro hready
    obtain ⟨hinv, h₁, h₂⟩ := h hready
    exact ⟨hinv.apart ha, fun x => harm.mpr (h₁ x), fun x => hc.mpr (h₂ x)⟩
  | xmit dp =>
    intro hready
    obtain ⟨hinv, h₁, h₂⟩ := h hready
    exact ⟨hinv.apart ha, fun x => harm.mpr (h₁ x), fun x => hc.mpr (h₂ x)⟩
  | salvage dp =>
    intro hcalm
    obtain ⟨hinv, h₁⟩ := h hcalm
    exact ⟨hinv.apart ha, hc.mpr h₁⟩
  | salvageLoop nxtHop =>
    intro hcalm
    obtain ⟨hinv, h₁⟩ := h hcalm
    exact ⟨hinv.apart ha, hc.mpr h₁⟩

theorem BreakInv.sublist {max : ℕ} {out : List Event} {t t' : Tbl MaintEntry}
    (h : BreakInv max out t) (hs : t'.head.Sublist t.head) : BreakInv max out t' :=
  ⟨fun m hm => h.waits m (hs.subset hm), h.distinct.sublist (hs.map _), h.past, h.breaks⟩

theorem BreakInv.short {max : ℕ} {out : List Event} {t : Tbl MaintEntry} (h : BreakInv max out t) :
    ∀ m ∈ t.head, m.rto < 2147483648 := fun m hm => (h.waits m hm).short

theorem TimerArmed.of_nil {s : DsrNode} (h : s.maintBuf.head = []) : TimerArmed s := by
  have hnone : s.maintBuf.find MaintEntry.ackReqSent = none := by
    unfold Tbl.find
    rw [h]
    rfl
  constructor
  · intro m t hf
    rw [hnone] at hf
    cases hf
  · intro m hf
    rw [hnone] at hf
    cases hf

section Operations

variable {max : ℕ} {out : List Event} {t t' : Tbl MaintEntry} {m : MaintEntry} {now : Timeval}

theorem Waits.broken (h : Waits max out m) (hmax : max < 4294967296)
    (hdue : 0 ≤ timevalDiff now m.deadline) (hack : m.ackReqSent = true)
    (hle : max ≤ incUint32 m.rexmt) :
    BrokenAfter max out now { m with rexmt := incUint32 m.rexmt } := by
  have hlt := h.rexmt
  have hreq := h.requests
  rw [if_pos hack] at hreq
  refine ⟨hack, ?_, fun r hr => ?_, h.unacked⟩
  · change (requestTimes m out).length = max
    unfold incUint32 at hle
    omega
  · have hbefore := h.before r hr
    rw [MaintEntry.deadline, timevalDiff_neg, timevalDiff_addUsecs] at hdue
    rw [timevalDiff_trans now m.txTime, timevalDiff_neg now]
    dsimp only
    omega

theorem BreakInv.others (h : BreakInv max out t) (hd : t.detachFirst = some (m, t')) :
    ∀ m' ∈ t'.head, m'.born ≠ m.born := by
  have hnodup := h.distinct
  rw [Tbl.detachFirst_cons hd, List.map_cons, List.nodup_cons] at hnodup
  exact fun m' hm' heq => hnodup.1 (heq ▸ List.mem_map_of_mem hm')

theorem BreakInv.giveUp (h : BreakInv max out t) (hd : t.detachFirst = some (m, t'))
    {m' : MaintEntry} (hb : BrokenAfter max out now m') :
    BreakInv max (out ++ [.maint now (.linkBreak m')]) t' := by
  have hsub := h.sublist (Tbl.detachFirst_sublist hd)
  have hborn : bornOf (.maint now (.linkBreak m')) = none := rfl
  refine ⟨fun x hx => ?_, hsub.distinct, past_append h.past ?_, h.breaks.append fun i now' m₁ hi => ?_⟩
  · refine (hsub.waits x hx).append (fun e he => ?_) fun r id he => ?_
    · rw [List.mem_singleton.mp he, hborn]
      exact nofun
    · cases List.mem_singleton.mp he
  · intro e he b hb
    rw [List.mem_singleton.mp he, hborn] at hb
    cases hb
  · cases i with
    | zero =>
      cases hi
      rwa [List.take_zero, List.append_nil]
    | succ i =>
      rw [List.getElem?_cons_succ, List.getElem?_nil] at hi
      cases hi

theorem perm_insertBefore {α : Type} (crit : α → Bool) (x : α) (xs : List α) :
    (Tbl.insertBefore crit x xs).Perm (x :: xs) := by
  induction xs with
  | nil => exact .refl _
  | cons y ys ih =>
    unfold Tbl.insertBefore
    split
    · exact .refl _
    · exact (ih.cons y).trans (.swap x y ys)

theorem BreakInv.put (h : BreakInv max out t) (hw : Waits max out m)
    (hm : ∀ m' ∈ t.head, m'.born ≠ m.born) : BreakInv max out (maintBufPut t m) := by
  unfold maintBufPut Tbl.add
  split
  · exact h
  · have hperm := perm_insertBefore (fun p => timevalDiff p.expires m.expires > 0) m t.head
    refine ⟨fun x hx => ?_, ?_, h.past, h.breaks⟩
    · rcases Tbl.mem_insertBefore hx with rfl | hx
      · exact hw
      · exact h.waits x hx
    · refine (hperm.map MaintEntry.born).nodup_iff.mpr (List.nodup_cons.mpr ⟨fun hin => ?_, h.distinct⟩)
      obtain ⟨m', hm', heq⟩ := List.mem_map.mp hin
      exact hm m' hm' heq

theorem BreakInv.request (h : BreakInv max out t) (hb : m.born < out.length)
    (hm : ∀ m' ∈ t.head, m'.born ≠ m.born) :
    BreakInv max (out ++ [.maint now (.request m)]) t := by
  refine ⟨fun x hx => ?_, h.distinct, past_append h.past ?_, h.breaks.append fun i now' m₁ hi => ?_⟩
  · refine (h.waits x hx).append (fun e he => ?_) fun r id he => ?_
    · rw [List.mem_singleton.mp he]
      exact fun heq => hm x hx (Option.some_inj.mp heq).symm
    · cases List.mem_singleton.mp he
  · intro e he b hbe
    rw [List.mem_singleton.mp he] at hbe
    cases hbe
    exact Nat.lt_of_lt_of_le hb (Nat.le_add_right _ _)
  · have hin := List.mem_of_getElem? hi
    cases List.mem_singleton.mp hin

theorem Waits.rexmtAt (h : Waits max out m) (now : Timeval) (hmax : max < 4294967296)
    (hdue : m.ackReqSent = true → 0 ≤ timevalDiff now m.deadline)
    (hlt : ¬ max ≤ incUint32 m.rexmt) :
    Waits max (if m.ackReqSent then out ++ [.maint now (.request (m.rexmtAt now))] else out)
      (m.rexmtAt now) := by
  have hinc : incUint32 m.rexmt = m.rexmt + 1 := by
    have hr := h.rexmt
    unfold incUint32
    omega
  cases hack : m.ackReqSent with
  | false =>
    have hreq : (requestTimes m out).length = 0 := by
      rw [h.requests, if_neg (by rw [hack]; decide)]
    rw [if_neg (by decide)]
    refine ⟨rfl, h.short, h.born, Nat.lt_of_not_le hlt, ?_, ?_, h.unacked⟩
    · change (requestTimes m out).length = if m.ackReqSent = true then _ else 0
      rw [hreq, if_neg (by rw [hack]; decide)]
    · change ∀ r ∈ requestTimes m out, _
      rw [List.length_eq_zero_iff.mp hreq]
      exact fun r hr => absurd hr List.not_mem_nil
  | true =>
    have hreq := h.requests
    rw [if_pos hack] at hreq
    have htimes : requestTimes (m.rexmtAt now) (out ++ [.maint now (.request (m.rexmtAt now))]) =
        requestTimes m out ++ [now] := by
      rw [requestTimes_append]
      refine congrArg (requestTimes m out ++ ·) ?_
      change List.filterMap _ _ = _
      simp [requestTime]
    rw [if_pos rfl]
    refine ⟨rfl, h.short, ?_, Nat.lt_of_not_le hlt, ?_, ?_,
      unacked_append (Nat.le_of_lt h.born) h.unacked fun r id he => ?_⟩
    · rw [List.length_append]
      exact Nat.lt_of_lt_of_le h.born (Nat.le_add_right _ _)
    · rw [htimes, List.length_append, hreq]
      change _ = if m.ackReqSent = true then incUint32 m.rexmt + 1 else 0
      rw [if_pos hack, hinc]
      rfl
    · rw [htimes]
      refine forall_mem_snoc (fun r hr => ?_) (Int.le_of_eq (timevalDiff_self now).symm)
      have hbefore := h.before r hr
      have hd := hdue hack
      rw [MaintEntry.deadline, timevalDiff_neg, timevalDiff_addUsecs] at hd
      change 0 ≤ timevalDiff now r
      rw [timevalDiff_trans now m.txTime, timevalDiff_neg now]
      omega
    · cases List.mem_singleton.mp he

end Operations

theorem BreakInv.entering {max : ℕ} {s : DsrNode} (h : BreakInv max s.out s.maintBuf)
    (n : Neighbor) (nxtHop : InAddr) (mdp : DsrPkt) :
    Entering (maintEntryNew s n nxtHop mdp) s := by
  refine ⟨rfl, rfl, rfl, Nat.le_refl _, fun m hm => (h.waits m hm).born, h.past, fun t id he => ?_⟩
  change _ ∈ s.out.drop s.out.length at he
  rw [List.drop_length] at he
  cases he

theorem BreakInv.enqueued {max : ℕ} {s : DsrNode} (h : BreakInv max s.out s.maintBuf)
    (hmax : 1 ≤ max) {m : MaintEntry} {t : Tbl MaintEntry} (he : Entering m s)
    (hr : m.rto < 2147483648) (ha : s.maintBuf.addTail m = some t) :
    BreakInv max (s.out ++ [.maint s.now (.buffered m s.maintBuf.head)]) t := by
  obtain ⟨-, rfl⟩ := Tbl.addTail_eq_some ha
  have hnil : requestTimes m s.out = [] := by
    refine requestTimes_nil fun e hin heq => ?_
    exact absurd (he.past e hin _ heq) (Nat.lt_irrefl _)
  have htimes : requestTimes m (s.out ++ [.maint s.now (.buffered m s.maintBuf.head)]) =
      if m.ackReqSent = true then [s.now] else [] := by
    rw [requestTimes_append, hnil, List.nil_append]
    cases hack : m.ackReqSent <;> simp [requestTimes, requestTime, hack]
  have hlen : m.born < (s.out ++ [Event.maint s.now (.buffered m s.maintBuf.head)]).length := by
    rw [List.length_append]
    exact Nat.lt_succ_of_le he.born
  have hw : Waits max (s.out ++ [.maint s.now (.buffered m s.maintBuf.head)]) m := by
    refine ⟨he.fresh, hr, hlen, by rw [he.rexmt]; exact hmax, ?_, fun r hin => ?_,
      unacked_append he.born (fun r id hin => absurd hin (he.unacked r id)) fun r id hin => ?_⟩
    · rw [htimes, he.rexmt]
      cases m.ackReqSent <;> rfl
    · rw [htimes] at hin
      split at hin
      · rw [List.mem_singleton.mp hin, he.txTime, timevalDiff_self]
      · cases hin
    · cases List.mem_singleton.mp hin
  refine ⟨forall_mem_snoc (fun x hx => ?_) hw, ?_, past_append h.past ?_,
    h.breaks.append fun i now m₁ hi => ?_⟩
  · refine (h.waits x hx).append (fun e hin => ?_) fun r id hin => ?_
    · rw [List.mem_singleton.mp hin]
      intro heq
      have hlt := he.alone x hx
      rw [← Option.some_inj.mp heq] at hlt
      exact Nat.lt_irrefl _ hlt
    · cases List.mem_singleton.mp hin
  · rw [List.map_append]
    refine List.nodup_append.mpr ⟨h.distinct, List.nodup_singleton _, fun b hb c hc heq => ?_⟩
    obtain ⟨x, hx, rfl⟩ := List.mem_map.mp hb
    have hlt := he.alone x hx
    rw [heq, List.mem_singleton.mp hc] at hlt
    exact Nat.lt_irrefl _ hlt
  · intro e hin b hb
    rw [List.mem_singleton.mp hin] at hb
    cases hb
    rw [List.length_append] at hlen
    exact hlen
  · have hin := List.mem_of_getElem? hi
    cases List.mem_singleton.mp hin

def ShortRtos (out : List Event) : Prop :=
  ∀ now m ahead, .maint now (.buffered m ahead) ∈ out → m.rto < 2147483648

theorem ShortRtos.initial {out out' : List Event} (h : ShortRtos out') (hp : out <+: out') :
    ShortRtos out := fun now m ahead he => h now m ahead (hp.subset he)

theorem BreakInv.touch {max : ℕ} {s : DsrNode} (h : BreakInv max s.out s.maintBuf) {m : MaintEntry}
    (hf : s.maintBuf.find MaintEntry.ackReqSent = some m) : maintBufTouch s m = s.maintBuf :=
  maintBufTouch_fresh hf (h.waits m (List.mem_of_find?_eq_some hf)).fresh

theorem detachFirst_find {t t' : Tbl MaintEntry} {m : MaintEntry} (hd : t.detachFirst = some (m, t'))
    (hack : m.ackReqSent = true) : t.find MaintEntry.ackReqSent = some m := by
  unfold Tbl.find
  rw [Tbl.detachFirst_cons hd, List.find?_cons, hack]

theorem MaintPut.breaks {max : ℕ} (hpos : 1 ≤ max) (hmax : max < 4294967296)
    {put : Tbl MaintEntry → MaintEntry → Prop} {c : MaintCall} {s s' : DsrNode}
    (h : MaintPut put c s s') : ShortRtos s'.out → s.confvals .maxMaintRexmt = max →
    BreakInv max s.out s.maintBuf → BreakPost max s s' c := by
  induction h with
  | before ha _ ih =>
    exact fun hs hc hb => (ih hs (by rw [ha.confvals]; exact hc) (hb.apart ha)).before ha
  | after h ha ih => exact fun hs hc hb => (ih (hs.initial ha.out_prefix) hc hb).after ha
  | @idle s hf =>
    refine fun _ _ hb _ => ⟨hb, ⟨fun m t hm => ?_, fun m hm => ?_⟩, fun hc => hc⟩
    · rw [hf] at hm
      cases hm
    · rw [hf] at hm
      cases hm
  | @arm s m hf hx =>
    intro _ _ hb _
    rw [hb.touch hf]
    rw [MaintEntry.expired_iff (hb.short m (List.mem_of_find?_eq_some hf))] at hx
    refine ⟨hb, ⟨fun m' t hm' ht => ?_, fun _ _ => rfl⟩, fun _ t ht => ?_⟩
    · obtain rfl := Option.some_inj.mp (hf.symm.trans hm')
      obtain rfl := Option.some_inj.mp ht
      exact Int.le_of_eq (timevalDiff_self _).symm
    · obtain rfl := Option.some_inj.mp ht
      exact Int.not_lt.mp hx
  | @expired s s' m hf hx _ ih =>
    intro hs hc hb hready
    rw [hb.touch hf] at ih
    refine ih hs hc hb (fun m' t hm' ht => ?_) fun _ m' hm' => ?_
    · obtain rfl := Option.some_inj.mp (hf.symm.trans hm')
      exact hready m t hm' ht hx
    · obtain rfl := Option.some_inj.mp (hf.symm.trans hm')
      have hlt := (MaintEntry.expired_iff (hb.short m (List.mem_of_find?_eq_some hf)) s.now).mp hx
      rw [timevalDiff_neg]
      dsimp only
      omega
  | @pending s hp => exact fun _ _ hb hlate _ => ⟨hb, ⟨hlate, fun _ _ => hp⟩, fun hc => hc⟩
  | @empty s hd => exact fun _ _ hb _ _ => ⟨hb, .of_nil (detachFirst_nil hd), fun hc => hc⟩
  | @drop s s' m t hn hd _ _ _ ih =>
    intro hs hc hb _ _
    obtain ⟨hb', harm, hc'⟩ := ih hs hc (hb.sublist (Tbl.detachFirst_sublist hd))
      (.of_none hn)
    exact ⟨hb', harm, fun _ => hc' (.of_none hn)⟩
  | @giveUp s s₁ s₂ s' m t hn hd hle hack hsal hloop hst ih₁ ih₂ ih₃ =>
    intro hs hc hb _ hdue
    have hs₂ := hs.initial hst.out
    have hbroken := (hb.waits m (Tbl.detachFirst_mem hd).1).broken hmax
      (hdue hn m (detachFirst_find hd hack)) hack (hc ▸ hle)
    obtain ⟨hb₁, hc₁⟩ := ih₁ (hs₂.initial hloop.out) hc (hb.giveUp hd hbroken) (.of_none hn)
    have hconf₁ := hsal.confvals
    obtain ⟨hb₂, hc₂⟩ := ih₂ hs₂ (by rw [hconf₁]; exact hc) hb₁ hc₁
    obtain ⟨hb', harm, hc'⟩ := ih₃ hs (by rw [hloop.confvals, hconf₁]; exact hc) hb₂
      (hc₂.ready hb₂.short)
    exact ⟨hb', harm, fun _ => hc' hc₂⟩
  | @rexmt s s' m t hn hd hlt _ _ ih =>
    intro hs hc hb _ hdue
    have hw := (hb.waits m (Tbl.detachFirst_mem hd).1).rexmtAt s.now hmax
      (fun hack => hdue hn m (detachFirst_find hd hack)) (hc ▸ hlt)
    have hothers := hb.others hd
    have hsub := hb.sublist (Tbl.detachFirst_sublist hd)
    have hput : BreakInv max (if m.ackReqSent then s.out ++ [.maint s.now (.request (m.rexmtAt s.now))]
        else s.out) (maintBufPut t (m.rexmtAt s.now)) := by
      refine BreakInv.put ?_ hw hothers
      split
      · exact hsub.request (hb.waits m (Tbl.detachFirst_mem hd).1).born hothers
      · exact hsub
    obtain ⟨hb', harm, hc'⟩ := ih hs hc hput (.of_none hn)
    exact ⟨hb', harm, fun _ => hc' (.of_none hn)⟩
  | lost => exact fun _ _ hb hc => ⟨hb, hc⟩
  | salvaged _ ih =>
    intro hs hc hb hcalm
    obtain ⟨hb', -, hc'⟩ := ih hs hc hb (hcalm.ready hb.short)
    exact ⟨hb', hc' hcalm⟩
  | loopDone _ => exact fun _ _ hb hc => ⟨hb, hc⟩
  | loopNext hd hsal hloop ih₁ ih₂ =>
    intro hs hc hb hcalm
    have hsub := hb.sublist (Tbl.findDetach_sublist hd)
    obtain ⟨hb₁, hc₁⟩ := ih₁ (hs.initial hloop.out) hc hsub hcalm
    exact ih₂ hs (by rw [hsal.confvals]; exact hc) hb₁ hc₁
  | plain _ => exact fun _ _ hb _ => ⟨hb, id, id⟩
  | request _ _ ih => exact ih
  | unknown _ => exact fun _ _ hb _ => ⟨hb, id, id⟩
  | ignored _ => exact fun _ _ hb _ => ⟨hb, id, id⟩
  | holdoff _ _ _ _ ih => exact fun hs hc hb => ih hs hc hb (hb.entering _ _ _)
  | @due s s' dp n mdp _ _ _ _ ih =>
    intro hs hc hb
    have hquiet : BreakInv max (s.out ++ [.ackReq dp.nxtHop n.id]) s.maintBuf := by
      refine hb.append_quiet (fun e he => ?_) (fun e he now m heq => ?_) fun m _ now id he => ?_
      · rw [List.mem_singleton.mp he]
        rfl
      · rw [List.mem_singleton.mp he] at heq
        cases heq
      · cases List.mem_singleton.mp he
    have hent := hb.entering n dp.nxtHop mdp
    refine ih hs hc hquiet ⟨rfl, rfl, rfl, ?_, hent.alone, fun e he b hbe => ?_, fun t id he => ?_⟩
    · exact Nat.le_trans hent.born (List.prefix_append _ _).length_le
    · rcases List.mem_append.mp he with he | he
      · exact hent.past e he b hbe
      · rw [List.mem_singleton.mp he] at hbe
        cases hbe
    · change _ ∈ (s.out ++ _).drop s.out.length at he
      rw [List.drop_append_length] at he
      cases List.mem_singleton.mp he
  | full _ => exact fun _ _ hb _ _ => ⟨hb, id, id⟩
  | @enqueued s s' m t ha hst ih =>
    intro hs hc hb hent hready
    have hr : m.rto < 2147483648 :=
      hs s.now m _ (hst.out.subset (List.mem_append_right _ (List.mem_singleton_self _)))
    obtain ⟨hb', harm, hc'⟩ := ih hs hc (hb.enqueued hpos hent hr ha)
      (hready.snoc ha hent.txTime hr _)
    exact ⟨hb', fun _ => harm, hc'⟩

def timely (max : ℕ) (s : DsrNode) (i : MaintInput) : Bool :=
  s.confvals .maxMaintRexmt = max &&
    match i with
    | .ackTimer => s.ackTimer.any fun t => 0 ≤ timevalDiff s.now t
    | _ => true

structure BreakRun (max : ℕ) (s : DsrNode) : Prop where
  inv : BreakInv max s.out s.maintBuf
  armed : TimerArmed s

theorem BreakInv.acked {max : ℕ} {s : DsrNode} (h : BreakInv max s.out s.maintBuf) (nxtHop : InAddr)
    (id : ℕ) : BreakInv max (maintBufAcked s nxtHop id).out (maintBufAcked s nxtHop id).maintBuf := by
  have hsub : BreakInv max s.out (maintBufAcked s nxtHop id).maintBuf :=
    h.sublist List.filter_sublist
  refine hsub.append_quiet (fun e he => ?_) (fun e he now m heq => ?_) fun m hm now id' he => ?_
  · rw [List.mem_singleton.mp he]
    rfl
  · rw [List.mem_singleton.mp he] at heq
    cases heq
  · cases List.mem_singleton.mp he
    have hcrit := (List.mem_filter.mp hm).2
    simpa using hcrit

theorem BreakRun.step {max : ℕ} (hpos : 1 ≤ max) (hmax : max < 4294967296) {i : MaintInput}
    {s s' : DsrNode} (h : BreakRun max s) (hok : timely max s i = true) (hs : MaintStep i s s')
    (hr : ShortRtos s'.out) : BreakRun max s' := by
  obtain ⟨hconf, htimer⟩ := Bool.and_eq_true_iff.mp hok
  replace hconf := of_decide_eq_true hconf
  cases hs with
  | apart ha => exact ⟨h.inv.apart ha, ha.timers.2.2.2.1.mpr h.armed⟩
  | add hm =>
    obtain ⟨hb, harm, -⟩ := hm.breaks hpos hmax hr hconf h.inv h.armed.1.ready
    exact ⟨hb, harm h.armed⟩
  | ack _ hm =>
    obtain ⟨hb, harm, -⟩ := hm.breaks hpos hmax hr hconf (h.inv.acked _ _) (.of_none rfl)
    exact ⟨hb, harm⟩
  | rerr hm =>
    obtain ⟨hb, harm, -⟩ := hm.breaks hpos hmax hr hconf (h.inv.sublist List.filter_sublist)
      (.of_none rfl)
    exact ⟨hb, harm⟩
  | ackTimer hm =>
    obtain ⟨t, ht, hdue⟩ := (Option.any_eq_true _ _).mp htimer
    replace hdue := of_decide_eq_true hdue
    have hlate : TimerLate { s with ackTimer := none } := by
      intro m t' _ ht'
      cases ht'
    obtain ⟨hb, harm, -⟩ := hm.breaks hpos hmax hr hconf h.inv hlate fun _ m hm => by
      have hle := h.armed.1 m t hm ht
      rw [timevalDiff_trans _ t]
      exact Int.add_nonneg hdue hle
    exact ⟨hb, harm⟩
  | neighAdd _ => exact ⟨h.inv, h.armed⟩
  | setMaxLen => exact ⟨h.inv.sublist (List.Sublist.refl _), h.armed⟩

theorem maintReach_breaks {max : ℕ} (hpos : 1 ≤ max) (hmax : max < 4294967296)
    {env : DsrNode → DsrNode → Prop} {s : DsrNode}
    (h : MaintReach env (fun s i => timely max s i = true) s) : ShortRtos s.out → BreakRun max s := by
  induction h with
  | init ifaddr confvals locking budget now kmem rreqSeqno =>
    refine fun _ => ⟨⟨?_, List.nodup_nil, ?_, ?_⟩, .of_nil rfl⟩
    · exact fun m hm => absurd hm List.not_mem_nil
    · exact fun e he => absurd he List.not_mem_nil
    · exact fun i now m hi => absurd (List.mem_of_getElem? hi) List.not_mem_nil
  | @env s s' _ ho _ ih =>
    intro hr
    obtain ⟨b, hout, hapart⟩ := ho.out
    have hinv := ih (hr.initial (by rw [hout]; exact List.prefix_append _ _))
    have hb : BreakInv max s'.out s'.maintBuf := by
      rw [hout, ho.maintBuf]
      refine hinv.inv.append_quiet (fun e he => bornOf_apart (hapart e he)) (fun e he now m heq => ?_)
        fun m _ now i he => (hapart _ he).elim
      subst heq
      exact hapart _ he
    refine ⟨hb, ?_⟩
    unfold TimerArmed TimerLate
    rw [ho.maintBuf, ho.ackTimer]
    exact hinv.armed
  | step i _ hok hrun ih =>
    intro hr
    have hstep := MaintInput.step hrun
    exact (ih (hr.initial hstep.out)).step hpos hmax hok hstep hr

def BrokenRightly (max : ℕ) (s : DsrNode) : Prop :=
  BreaksOk max s.out ∧ ((∃ m ∈ s.maintBuf.head, m.ackReqSent = true) → s.ackTimer.isSome = true)

theorem link_broken_rightly {max : ℕ} (hpos : 1 ≤ max) (hmax : max < 4294967296) {s : DsrNode}
    (h : MaintReach anyEnv (fun s i => timely max s i = true) s) (hr : ShortRtos s.out) :
    BrokenRightly max s := by
  have hrun := maintReach_breaks hpos hmax h hr
  refine ⟨hrun.inv.breaks, fun ⟨m₀, hm₀, hack₀⟩ => ?_⟩
  cases hf : s.maintBuf.find MaintEntry.ackReqSent with
  | none => exact absurd hack₀ (List.find?_eq_none.mp hf m₀ hm₀)
  | some m => exact hrun.armed.2 m hf

def maintDriveIf (ok : DsrNode → MaintInput → Bool) (s : DsrNode) :
    List (Timeval × MaintInput) → Option DsrNode
  | [] => some s
  | (now, i) :: rest =>
      if ok { s with now := now } i then
        match i.handle { s with now := now } with
        | .ok _ s' => maintDriveIf ok s' rest
        | .error _ _ => none
      else none

theorem MaintReach.driveIf {ok : DsrNode → MaintInput → Bool} (is : List (Timeval × MaintInput)) :
    ∀ {s s' : DsrNode}, MaintReach anyEnv (fun s i => ok s i = true) s →
      maintDriveIf ok s is = some s' → MaintReach anyEnv (fun s i => ok s i = true) s' := by
  induction is with
  | nil =>
    intro s s' h hd
    cases hd
    exact h
  | cons x rest ih =>
    obtain ⟨now, i⟩ := x
    intro s s' h hd
    unfold maintDriveIf at hd
    have hnow : Outside s { s with now := now } :=
      ⟨rfl, rfl, rfl, rfl, [], by simp, fun _ he => absurd he List.not_mem_nil⟩
    split at hd
    · next hok =>
      split at hd
      · next s₁ hrun => exact ih ((h.env hnow trivial).step i hok hrun) hd
      · cases hd
    · cases hd

def loneHop : List (Timeval × MaintInput) :=
  [(⟨100, 0⟩, .neighAdd (detourHost 2) 2), (⟨100, 0⟩, .add (hopPkt (detourHost 2)))]

def loneHopTimers : List (Timeval × MaintInput) :=
  loneHop ++ [(⟨102, 0⟩, .ackTimer), (⟨104, 0⟩, .ackTimer)]

def brokenEarly (out : List Event) : Bool :=
  (List.range out.length).any fun i =>
    match out[i]? with
    | some (.maint now (.linkBreak m)) =>
        (requestTimes m (out.take i)).any fun t => timevalDiff now t < m.rto
    | _ => false

theorem brokenEarly_not {max : ℕ} {s : DsrNode} (h : brokenEarly s.out = true) :
    ¬ BrokenRightly max s := by
  obtain ⟨i, -, hi⟩ := List.any_eq_true.mp h
  split at hi
  · next now m hev =>
    obtain ⟨t, ht, hlt⟩ := List.any_eq_true.mp hi
    intro hb
    have hle := (hb.1 i now m hev).elapsed t ht
    have hlt' := of_decide_eq_true hlt
    omega
  · cases hi

theorem link_not_broken_rightly : ¬ ∀ max s, 1 ≤ max → max < 4294967296 →
    MaintReach anyEnv (fun s i => timely max s i = true) s → BrokenRightly max s := by
  intro h
  have hrun : (maintDriveIf (timely 2) (hopStart 2147484) loneHop).any (fun s =>
      brokenEarly s.out) = true := by decide +kernel
  obtain ⟨s, hs, hb⟩ := (Option.any_eq_true _ _).mp hrun
  exact brokenEarly_not hb
    (h 2 s (by decide) (by decide) (.driveIf _ (.init _ _ _ _ _ _ _) hs))

def shortRtoEvent : Event → Bool
  | .maint _ (.buffered m _) => m.rto < 2147483648
  | _ => true

theorem shortRtos_of_all {out : List Event} (h : out.all shortRtoEvent = true) : ShortRtos out := by
  intro now m ahead he
  have hin := List.all_eq_true.mp h _ he
  simpa [shortRtoEvent] using hin

def isLinkBreak : Event → Bool
  | .maint _ (.linkBreak _) => true
  | _ => false

theorem link_broken_rightly_two : ∃ s, MaintReach anyEnv (fun s i => timely 2 s i = true) s ∧
    s.out.any isLinkBreak = true ∧ BrokenRightly 2 s := by
  have hrun : (maintDriveIf (timely 2) (hopStart 2000) loneHopTimers).any (fun s =>
      s.out.all shortRtoEvent && s.out.any isLinkBreak) = true := by decide +kernel
  obtain ⟨s, hs, hb⟩ := (Option.any_eq_true _ _).mp hrun
  obtain ⟨hall, hany⟩ := Bool.and_eq_true_iff.mp hb
  have hreach : MaintReach anyEnv (fun s i => timely 2 s i = true) s :=
    .driveIf _ (.init _ _ _ _ _ _ _) hs
  exact ⟨s, hreach, hany,
    link_broken_rightly (by decide) (by decide) hreach (shortRtos_of_all hall)⟩

end DsrUu
