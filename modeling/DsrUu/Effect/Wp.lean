import Mathlib.Logic.Basic

namespace DsrUu.Effect

variable {ε σ α β : Type}

def wp (m : EStateM ε σ α) (s : σ) (Q : α → σ → Prop) (E : ε → Prop) : Prop :=
  match m s with
  | .ok a s' => Q a s'
  | .error e _ => E e

section Rules

variable {s : σ} {Q : α → σ → Prop} {E : ε → Prop}

theorem wp_ok {m : EStateM ε σ α} (h : wp m s Q E) {a : α} {s' : σ} (hm : m s = .ok a s') :
    Q a s' := by
  rw [wp, hm] at h
  exact h

theorem wp_of_run {m : EStateM ε σ α} {a : α} {s' : σ} (hm : m s = .ok a s') (hq : Q a s') :
    wp m s Q E := by
  rw [wp, hm]
  exact hq

theorem wp_of_ok {m : EStateM ε σ α} (h : ∀ a s', m s = .ok a s' → Q a s') :
    wp m s Q fun _ => True := by
  unfold wp
  split
  · next a s' hm => exact h a s' hm
  · trivial

theorem wp_congr {m m' : EStateM ε σ α} (h : m s = m' s) : wp m s Q E ↔ wp m' s Q E := by
  rw [wp, wp, h]

theorem wp_mono {Q' : α → σ → Prop} {E' : ε → Prop} {m : EStateM ε σ α} (h : wp m s Q E)
    (hQ : ∀ a s', Q a s' → Q' a s') (hE : ∀ e, E e → E' e) : wp m s Q' E' := by
  unfold wp at h ⊢
  split at h
  · exact hQ _ _ h
  · exact hE _ h

theorem wp_imp {Q' : α → σ → Prop} {m : EStateM ε σ α} (h : wp m s Q E)
    (hQ : ∀ a s', Q a s' → Q' a s') : wp m s Q' E :=
  wp_mono h hQ fun _ he => he

@[simp] theorem wp_pure (a : α) : wp (pure a) s Q E ↔ Q a s := Iff.rfl

@[simp] theorem wp_throw (e : ε) : wp (throw e : EStateM ε σ α) s Q E ↔ E e := Iff.rfl

@[simp] theorem wp_get {Q : σ → σ → Prop} : wp (get : EStateM ε σ σ) s Q E ↔ Q s s := Iff.rfl

@[simp] theorem wp_set {Q : PUnit → σ → Prop} (t : σ) :
    wp (set t : EStateM ε σ PUnit) s Q E ↔ Q ⟨⟩ t := Iff.rfl

@[simp] theorem wp_modify {Q : PUnit → σ → Prop} (f : σ → σ) :
    wp (modify f : EStateM ε σ PUnit) s Q E ↔ Q ⟨⟩ (f s) := Iff.rfl

@[simp] theorem wp_bind {Q : β → σ → Prop} (m : EStateM ε σ α) (f : α → EStateM ε σ β) :
    wp (m >>= f) s Q E ↔ wp m s (fun a s' => wp (f a) s' Q E) E := by
  unfold wp
  change (match EStateM.bind m f s with
    | .ok a s' => Q a s'
    | .error e _ => E e) ↔ _
  unfold EStateM.bind
  split <;> split <;> simp_all

theorem wp_ite (c : Prop) [Decidable c] (m₁ m₂ : EStateM ε σ α) :
    wp (if c then m₁ else m₂) s Q E ↔ (c → wp m₁ s Q E) ∧ (¬ c → wp m₂ s Q E) := by
  split <;> simp [*]

end Rules

theorem ok_of_wp {m : EStateM ε σ α} {s : σ} {Q : α → σ → Prop}
    (h : wp m s Q fun _ => False) : ∃ a s', m s = .ok a s' ∧ Q a s' := by
  unfold wp at h
  split at h
  · next a s' hm => exact ⟨a, s', hm, h⟩
  · exact h.elim

theorem error_of_wp {m : EStateM ε σ α} {s : σ} {e : ε} (h : wp m s (fun _ _ => False) (· = e)) :
    ∃ s', m s = .error e s' := by
  unfold wp at h
  split at h
  · exact h.elim
  · next e' s' hm =>
    subst h
    exact ⟨s', hm⟩

theorem bind_ok {m : EStateM ε σ α} {f : α → EStateM ε σ β} {s s' : σ} {b : β}
    (h : (m >>= f) s = .ok b s') : ∃ a s₁, m s = .ok a s₁ ∧ f a s₁ = .ok b s' := by
  change EStateM.bind m f s = _ at h
  unfold EStateM.bind at h
  split at h
  · next a s₁ hm => exact ⟨a, s₁, hm, h⟩
  · cases h

theorem bind_of_ok {m : EStateM ε σ α} {s s' : σ} {a : α} (h : m s = .ok a s')
    (f : α → EStateM ε σ β) : (m >>= f) s = f a s' := by
  change EStateM.bind m f s = _
  rw [EStateM.bind, h]

def okVal : EStateM.Result ε σ α → Option α
  | .ok a _ => some a
  | .error _ _ => none

theorem okVal_eq_some {r : EStateM.Result ε σ α} {a : α} (h : okVal r = some a) :
    ∃ s', r = .ok a s' := by
  cases r with
  | ok b s' =>
    cases h
    exact ⟨s', rfl⟩
  | error e s' => cases h

def Keeps (I : σ → Prop) (m : EStateM ε σ α) : Prop :=
  ∀ s, I s → wp m s (fun _ s' => I s') fun _ => True

namespace Keeps

variable {I : σ → Prop}

theorem run {m : EStateM ε σ α} (h : Keeps I m) {s s' : σ} {a : α} (hs : I s)
    (hm : m s = .ok a s') : I s' :=
  wp_ok (h s hs) hm

theorem pure (a : α) : Keeps I (pure a : EStateM ε σ α) := fun _ hs => hs

theorem throw (e : ε) : Keeps I (throw e : EStateM ε σ α) := fun _ _ => trivial

theorem bind {m : EStateM ε σ α} {f : α → EStateM ε σ β} (hm : Keeps I m)
    (hf : ∀ a, Keeps I (f a)) : Keeps I (m >>= f) :=
  fun s hs => (wp_bind m f).mpr (wp_imp (hm s hs) fun a s' hs' => hf a s' hs')

theorem get_bind {f : σ → EStateM ε σ β}
    (hf : ∀ s, I s → wp (f s) s (fun _ s' => I s') fun _ => True) : Keeps I (get >>= f) :=
  fun s hs => (wp_bind get f).mpr (hf s hs)

theorem modify {f : σ → σ} (hf : ∀ s, I s → I (f s)) :
    Keeps I (modify f : EStateM ε σ PUnit) := fun s hs => hf s hs

theorem ite {c : Prop} [Decidable c] {m₁ m₂ : EStateM ε σ α} (h₁ : c → Keeps I m₁)
    (h₂ : ¬ c → Keeps I m₂) : Keeps I (if c then m₁ else m₂) := by
  split
  · next h => exact h₁ h
  · next h => exact h₂ h

end Keeps

def Yields (I : σ → Prop) (R : α → Prop) (m : EStateM ε σ α) : Prop :=
  ∀ s, I s → wp m s (fun a s' => I s' ∧ R a) fun _ => True

namespace Yields

variable {I : σ → Prop} {R : β → Prop}

theorem pure {b : β} (h : R b) : Yields I R (pure b : EStateM ε σ β) := fun _ hs => ⟨hs, h⟩

theorem throw (e : ε) : Yields I R (throw e : EStateM ε σ β) := fun _ _ => trivial

theorem bind {m : EStateM ε σ α} {f : α → EStateM ε σ β} (hm : Keeps I m)
    (hf : ∀ a, Yields I R (f a)) : Yields I R (m >>= f) :=
  fun s hs => (wp_bind m f).mpr (wp_imp (hm s hs) fun a s' hs' => hf a s' hs')

theorem bind_yields {S : α → Prop} {m : EStateM ε σ α} {f : α → EStateM ε σ β}
    (hm : Yields I S m) (hf : ∀ a, S a → Yields I R (f a)) : Yields I R (m >>= f) :=
  fun s hs => (wp_bind m f).mpr (wp_imp (hm s hs) fun a s' hs' => hf a hs'.2 s' hs'.1)

theorem get_bind {f : σ → EStateM ε σ β}
    (hf : ∀ s, I s → wp (f s) s (fun b s' => I s' ∧ R b) fun _ => True) :
    Yields I R (get >>= f) :=
  fun s hs => (wp_bind get f).mpr (hf s hs)

theorem ite {c : Prop} [Decidable c] {m₁ m₂ : EStateM ε σ β} (h₁ : c → Yields I R m₁)
    (h₂ : ¬ c → Yields I R m₂) : Yields I R (if c then m₁ else m₂) := by
  split
  · next h => exact h₁ h
  · next h => exact h₂ h

theorem keeps {m : EStateM ε σ β} (h : Yields I R m) : Keeps I m :=
  fun s hs => wp_imp (h s hs) fun _ _ h' => h'.1

theorem keeps_bind {S : α → Prop} {m : EStateM ε σ α} {f : α → EStateM ε σ β}
    (hm : Yields I S m) (hf : ∀ a, S a → Keeps I (f a)) : Keeps I (m >>= f) :=
  fun s hs => (wp_bind m f).mpr (wp_imp (hm s hs) fun a s' hs' => hf a hs'.2 s' hs'.1)

end Yields

def Returns (R : α → Prop) (m : EStateM ε σ α) : Prop := ∀ s a s', m s = .ok a s' → R a

namespace Returns

variable {R : β → Prop}

theorem pure {b : β} (h : R b) : Returns R (pure b : EStateM ε σ β) := by
  rintro s a s' ⟨⟩
  exact h

theorem throw (e : ε) : Returns R (throw e : EStateM ε σ β) := fun _ _ _ h => nomatch h

theorem bind {m : EStateM ε σ α} {f : α → EStateM ε σ β} (hf : ∀ a, Returns R (f a)) :
    Returns R (m >>= f) := by
  intro s b s' h
  obtain ⟨a, s₁, -, hb⟩ := bind_ok h
  exact hf a s₁ b s' hb

theorem bind_returns {S : α → Prop} {m : EStateM ε σ α} {f : α → EStateM ε σ β}
    (hm : Returns S m) (hf : ∀ a, S a → Returns R (f a)) : Returns R (m >>= f) := by
  intro s b s' h
  obtain ⟨a, s₁, ha, hb⟩ := bind_ok h
  exact hf a (hm s a s₁ ha) s₁ b s' hb

theorem ite {c : Prop} [Decidable c] {m₁ m₂ : EStateM ε σ β} (h₁ : c → Returns R m₁)
    (h₂ : ¬ c → Returns R m₂) : Returns R (if c then m₁ else m₂) := by
  split
  · next h => exact h₁ h
  · next h => exact h₂ h

end Returns

end DsrUu.Effect
