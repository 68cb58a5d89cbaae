import Mathlib.Data.List.Basic
import Mathlib.Tactic.Common

namespace DsrUu.Effect

variable {σ : Type}

def trail (go : σ → Bool) (next : σ → σ) : ℕ → σ → List σ
  | 0, _ => []
  | n + 1, c => if go c then c :: trail go next n (next c) else []

def trailEnd (go : σ → Bool) (next : σ → σ) : ℕ → σ → σ
  | 0, c => c
  | n + 1, c => if go c then trailEnd go next n (next c) else c

def Linked (next : σ → σ) : σ → List σ → σ → Prop
  | c, [], e => c = e
  | c, x :: xs, e => c = x ∧ Linked next (next x) xs e

variable {go : σ → Bool} {next : σ → σ}

theorem trail_linked (n : ℕ) : ∀ c : σ, Linked next c (trail go next n c) (trailEnd go next n c) := by
  induction n with
  | zero => exact fun c => rfl
  | succ n ih =>
    intro c
    unfold trail trailEnd
    by_cases h : go c = true
    · rw [if_pos h, if_pos h]
      exact ⟨rfl, ih (next c)⟩
    · rw [if_neg h, if_neg h]
      exact rfl

theorem trail_go {n : ℕ} : ∀ {c x : σ}, x ∈ trail go next n c → go x = true := by
  induction n with
  | zero => exact fun h => absurd h List.not_mem_nil
  | succ n ih =>
    intro c x h
    unfold trail at h
    split at h
    · next hc =>
      rcases List.mem_cons.mp h with rfl | h
      · exact hc
      · exact ih h
    · exact absurd h List.not_mem_nil

theorem Linked.trail {n : ℕ} {cs : List σ} : ∀ {c e : σ}, Linked next c cs e →
    (∀ x ∈ cs, go x = true) → go e = false → cs.length ≤ n →
    trail go next n c = cs ∧ trailEnd go next n c = e := by
  induction n generalizing cs with
  | zero =>
    intro c e h _ _ hn
    have hnil : cs = [] := List.length_eq_zero_iff.mp (Nat.le_zero.mp hn)
    subst hnil
    exact ⟨rfl, h⟩
  | succ n ih =>
    intro c e h hgo he hn
    unfold Effect.trail Effect.trailEnd
    cases cs with
    | nil =>
      cases h
      rw [he]
      exact ⟨rfl, rfl⟩
    | cons x xs =>
      obtain ⟨rfl, h⟩ := h
      rw [hgo c List.mem_cons_self, if_pos rfl, if_pos rfl]
      obtain ⟨ht, hend⟩ := ih h (fun y hy => hgo y (List.mem_cons_of_mem _ hy)) he (Nat.le_of_succ_le_succ hn)
      exact ⟨congrArg _ ht, hend⟩

theorem Linked.append {cs ds : List σ} : ∀ {c d e : σ}, Linked next c cs d → Linked next d ds e →
    Linked next c (cs ++ ds) e := by
  induction cs with
  | nil =>
    intro c d e h h'
    cases h
    exact h'
  | cons x xs ih => exact fun h h' => ⟨h.1, ih h.2 h'⟩

theorem trail_congr {go' : σ → Bool} {next' : σ → σ} {n : ℕ} : ∀ {c : σ},
    (∀ x ∈ trail go next n c, next' x = next x) → (∀ x, go' x = go x) →
    trail go' next' n c = trail go next n c := by
  induction n with
  | zero => exact fun _ _ => rfl
  | succ n ih =>
    intro c hnext hgo
    unfold trail at hnext ⊢
    rw [hgo c]
    split
    · next hc =>
      rw [if_pos hc] at hnext
      rw [hnext c List.mem_cons_self, ih (fun x hx => hnext x (List.mem_cons_of_mem _ hx)) hgo]
    · rfl

end DsrUu.Effect
