import DsrUu.Node.RecvClosed

namespace DsrUu

open Effect

inductive NodeReach (ok : DsrNode → Input → Prop) : DsrNode → Prop
  | init (ifaddr : InAddr) (confvals : ConfVal → ℕ) (locking : Bool) (budget : ℕ) (now : Timeval)
      (kmem : ℕ → UInt8) (rreqSeqno : ℕ) :
      NodeReach ok (dsrNodeInit ifaddr confvals locking budget now kmem rreqSeqno)
  | env {s : DsrNode} (confvals : ConfVal → ℕ) (slaveDev : Bool) (budget : ℕ) (now : Timeval)
      (kmem : ℕ → UInt8) : NodeReach ok s →
      NodeReach ok { s with confvals := confvals, slaveDev := slaveDev, budget := budget
                            now := now, kmem := kmem }
  | step {s s' : DsrNode} (i : Input) : NodeReach ok s → i.ready s → ok s i →
      i.handle s = .ok () s' → NodeReach ok s'

structure Environmental (I : DsrNode → Prop) : Prop where
  init : ∀ ifaddr confvals locking budget now kmem rreqSeqno,
    I (dsrNodeInit ifaddr confvals locking budget now kmem rreqSeqno)
  env : ∀ s confvals slaveDev budget now kmem, I s →
    I { s with confvals := confvals, slaveDev := slaveDev, budget := budget
               now := now, kmem := kmem }

theorem NodeReach.invariant {ok : DsrNode → Input → Prop} {I : DsrNode → Prop}
    (he : Environmental I)
    (hstep : ∀ s s' i, I s → i.ready s → ok s i → i.handle s = .ok () s' → I s') {s : DsrNode}
    (h : NodeReach ok s) : I s := by
  induction h with
  | init ifaddr confvals locking budget now kmem rreqSeqno => exact he.init _ _ _ _ _ _ _
  | env confvals slaveDev budget now kmem _ ih => exact he.env _ _ _ _ _ _ ih
  | step i _ hready hok hrun ih => exact hstep _ _ i ih hready hok hrun

theorem NodeReach.mono {ok ok' : DsrNode → Input → Prop} (hok : ∀ s i, ok s i → ok' s i) {s : DsrNode}
    (h : NodeReach ok s) : NodeReach ok' s := by
  induction h with
  | init ifaddr confvals locking budget now kmem rreqSeqno => exact .init _ _ _ _ _ _ _
  | env confvals slaveDev budget now kmem _ ih => exact ih.env _ _ _ _ _
  | step i _ hready hi hrun ih => exact ih.step i hready (hok _ i hi) hrun

instance (s : DsrNode) (i : Input) : Decidable (i.ready s) := by
  cases i <;> unfold Input.ready <;> infer_instance

def drive (ok : DsrNode → Input → Prop) [∀ s i, Decidable (ok s i)] (s : DsrNode) :
    List (Timeval × Input) → Option DsrNode
  | [] => some s
  | (now, i) :: rest =>
      let t := { s with now := now }
      if i.ready t ∧ ok t i then
        match i.handle t with
        | .ok _ s' => drive ok s' rest
        | .error _ _ => none
      else none

theorem NodeReach.drive {ok : DsrNode → Input → Prop} [∀ s i, Decidable (ok s i)]
    (is : List (Timeval × Input)) : ∀ {s s' : DsrNode}, NodeReach ok s → drive ok s is = some s' →
    NodeReach ok s' := by
  induction is with
  | nil =>
    intro s s' h hd
    cases hd
    exact h
  | cons x rest ih =>
    obtain ⟨now, i⟩ := x
    intro s s' h hd
    unfold DsrUu.drive at hd
    dsimp only at hd
    split at hd
    · next hc =>
      split at hd
      · next s₁ hrun =>
        have he := NodeReach.env s.confvals s.slaveDev s.budget now s.kmem h
        exact ih (he.step i hc.1 hc.2 hrun) hd
      · cases hd
    · cases hd

theorem RecvClosed.reach {I : DsrNode → Prop} {G : DsrNode → MaintEntry → Prop}
    {P : DsrNode → XmitSite → DsrPkt → Prop} {H Q : DsrPkt → Prop} (h : RecvClosed I G P H Q)
    (he : Environmental I) {ok : DsrNode → Input → Prop}
    (hok : ∀ s i, ok s i → Admits H Q s i) {s : DsrNode} (hs : NodeReach ok s) : I s := by
  refine NodeReach.invariant he (fun s s' i hI _ hi hrun => ?_) hs
  exact (wp_ok (h.handle hI i (hok s i hi)) hrun).1

def Adds (s₀ : DsrNode) (E : Event → Prop) (s : DsrNode) : Prop :=
  ∃ b, s.out = s₀.out ++ b ∧ ∀ e ∈ b, E e

namespace Adds

variable {s₀ s : DsrNode} {E : Event → Prop}

theorem refl (s₀ : DsrNode) (E : Event → Prop) : Adds s₀ E s₀ :=
  ⟨[], (List.append_nil _).symm, fun _ he => absurd he List.not_mem_nil⟩

theorem emit (h : Adds s₀ E s) {e : Event} (he : E e) :
    Adds s₀ E { s with out := s.out ++ [e] } := by
  obtain ⟨b, hb, hE⟩ := h
  exact ⟨b ++ [e], by rw [hb, List.append_assoc], forall_mem_snoc hE he⟩

theorem emits (h : Adds s₀ E s) {es : List Event} (hes : ∀ e ∈ es, E e) :
    Adds s₀ E { s with out := s.out ++ es } := by
  obtain ⟨b, hb, hE⟩ := h
  exact ⟨b ++ es, by rw [hb, List.append_assoc], List.forall_mem_append.mpr ⟨hE, hes⟩⟩

theorem trans {s' : DsrNode} (h : Adds s₀ E s) (h' : Adds s E s') : Adds s₀ E s' := by
  obtain ⟨b, hb, hE⟩ := h
  obtain ⟨b', hb', hE'⟩ := h'
  exact ⟨b ++ b', by rw [hb', hb, List.append_assoc], List.forall_mem_append.mpr ⟨hE, hE'⟩⟩

theorem grows (h : Adds s₀ E s) : s₀.out <+: s.out := by
  obtain ⟨b, hb, -⟩ := h
  exact ⟨b, hb.symm⟩

theorem drop (h : Adds s₀ E s) : ∀ e ∈ s.out.drop s₀.out.length, E e := by
  obtain ⟨b, hb, hE⟩ := h
  rw [hb, List.drop_left]
  exact hE

end Adds

end DsrUu
