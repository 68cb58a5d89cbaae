import DsrUu.Maint.Run

namespace DsrUu

section Timeval

theorem timevalDiff_addUsecs (t t' : Timeval) (u : ℕ) :
    timevalDiff (timevalAddUsecs t u) t' = timevalDiff t t' + u := by
  have h := Int.mul_tdiv_add_tmod (t.tvUsec + u) 1000000
  simp only [timevalDiff, timevalAddUsecs]
  omega

theorem timevalDiff_trans (a b c : Timeval) :
    timevalDiff a c = timevalDiff a b + timevalDiff b c := by
  simp only [timevalDiff]
  omega

theorem timevalDiff_neg (a b : Timeval) : timevalDiff a b = -timevalDiff b a := by
  simp only [timevalDiff]
  omega

theorem timevalDiff_self (a : Timeval) : timevalDiff a a = 0 := by
  simp only [timevalDiff]
  omega

end Timeval

theorem toInt32_small {n : ℕ} (h : n < 2147483648) : toInt32 n = n := by
  unfold toInt32
  rw [Nat.mod_eq_of_lt (by omega), if_pos h]

theorem MaintEntry.expired_iff {m : MaintEntry} (h : m.rto < 2147483648) (now : Timeval) :
    m.expired now ↔ timevalDiff m.deadline now < 0 := by
  unfold MaintEntry.expired MaintEntry.deadline
  rw [toInt32_small h, timevalDiff_addUsecs, timevalDiff_neg now]
  omega

namespace Tbl

variable {α : Type} {r : α → α → Prop} {crit : α → Bool}

theorem pairwise_insertBefore (htrans : ∀ a b c, r a b → r b c → r a c) {l : α} {xs : List α}
    (hpos : ∀ x, xs.find? crit = some x → r l x) (hneg : ∀ x ∈ xs, crit x = false → r x l)
    (h : xs.Pairwise r) : (insertBefore crit l xs).Pairwise r := by
  induction xs with
  | nil => exact List.pairwise_singleton _ _
  | cons x xs ih =>
    obtain ⟨hx, hxs⟩ := List.pairwise_cons.mp h
    unfold insertBefore
    split
    · next hc =>
      have hl : r l x := hpos x (List.find?_cons_of_pos hc)
      refine List.pairwise_cons.mpr ⟨fun y hy => ?_, h⟩
      rcases List.mem_cons.mp hy with rfl | hy
      · exact hl
      · exact htrans _ _ _ hl (hx y hy)
    · next hc =>
      have hrest := ih (fun y hy => hpos y (by rw [List.find?_cons_of_neg hc, hy]))
        (fun y hy => hneg y (List.mem_cons_of_mem _ hy)) hxs
      refine List.pairwise_cons.mpr ⟨fun y hy => ?_, hrest⟩
      rcases mem_insertBefore hy with rfl | hy
      · exact hneg x List.mem_cons_self (Bool.eq_false_iff.mpr hc)
      · exact hx y hy

theorem updateFirst_self {f : α → α} {x : α} : ∀ {xs : List α}, xs.find? crit = some x → f x = x →
    updateFirst crit f xs = xs := by
  intro xs
  induction xs with
  | nil => exact fun h _ => nomatch h
  | cons y ys ih =>
    intro h hf
    rw [List.find?_cons] at h
    unfold updateFirst
    cases hc : crit y with
    | true =>
      rw [hc] at h
      cases h
      rw [if_pos rfl, hf]
    | false =>
      rw [hc] at h
      rw [if_neg (by decide), ih h hf]

theorem findDetach_sublist {t t' : Tbl α} {e : α} (h : t.findDetach crit = some (e, t')) :
    t'.head.Sublist t.head := by
  unfold findDetach at h
  obtain ⟨a, -, hp⟩ := Option.map_eq_some_iff.mp h
  cases hp
  exact List.eraseP_sublist

theorem detachFirst_sublist {t t' : Tbl α} {e : α} (h : t.detachFirst = some (e, t')) :
    t'.head.Sublist t.head := by
  unfold detachFirst at h
  split at h
  · cases h
  · next hd =>
    cases h
    rw [hd]
    exact List.sublist_cons_self _ _

end Tbl

theorem maintBufTouch_fresh {s : DsrNode} {m : MaintEntry}
    (hf : s.maintBuf.find MaintEntry.ackReqSent = some m) (hm : m.expires = m.deadline) :
    maintBufTouch s m = s.maintBuf := by
  have hself : { m with expires := m.deadline } = m := by rw [← hm]
  unfold maintBufTouch Tbl.findDo
  rw [Tbl.updateFirst_self hf hself]

theorem detachFirst_nil {α : Type} {t : Tbl α} (h : t.detachFirst = none) : t.head = [] := by
  unfold Tbl.detachFirst at h
  split at h
  · assumption
  · cases h

theorem MaintPut.unchanged {β : Type} (g : DsrNode → β) (ha : ∀ s s', Apart s s' → g s' = g s)
    (hg : ∀ s mb nt at' out, g { s with maintBuf := mb, neighTbl := nt, ackTimer := at', out := out } =
      g s) {put : Tbl MaintEntry → MaintEntry → Prop} {c : MaintCall} {s s' : DsrNode}
    (h : MaintPut put c s s') : g s' = g s := by
  induction h with
  | before h _ ih => exact ih.trans (ha _ _ h)
  | after _ h ih => exact (ha _ _ h).trans ih
  | arm _ _ => exact hg _ _ _ _ _
  | expired _ _ _ ih => exact ih.trans (hg _ _ _ _ _)
  | drop _ _ _ _ _ ih => exact ih.trans (hg _ _ _ _ _)
  | giveUp _ _ _ _ _ _ _ ih₁ ih₂ ih₃ => exact ih₃.trans (ih₂.trans (ih₁.trans (hg _ _ _ _ _)))
  | rexmt _ _ _ _ _ ih => exact ih.trans (hg _ _ _ _ _)
  | salvaged _ ih => exact ih
  | loopNext _ _ _ ih₁ ih₂ => exact ih₂.trans (ih₁.trans (hg _ _ _ _ _))
  | request _ _ ih => exact ih
  | holdoff _ _ _ _ ih => exact ih
  | due _ _ _ _ ih => exact ih.trans (hg _ _ _ _ _)
  | enqueued _ _ ih => exact ih.trans (hg _ _ _ _ _)
  | _ => rfl

theorem MaintPut.now {put : Tbl MaintEntry → MaintEntry → Prop} {c : MaintCall} {s s' : DsrNode}
    (h : MaintPut put c s s') : s'.now = s.now :=
  h.unchanged DsrNode.now (fun _ _ ha => ha.now) fun _ _ _ _ _ => rfl

theorem MaintPut.confvals {put : Tbl MaintEntry → MaintEntry → Prop} {c : MaintCall} {s s' : DsrNode}
    (h : MaintPut put c s s') :
    s'.confvals = s.confvals :=
  h.unchanged DsrNode.confvals (fun _ _ ha => ha.confvals) fun _ _ _ _ _ => rfl

end DsrUu
