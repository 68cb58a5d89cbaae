import DsrUu.Effect.Wp

namespace DsrUu.Effect

variable {ε σ α β : Type}

def outcome (m : EStateM ε σ α) (s : σ) (Q : α → σ → Prop) (E : ε → σ → Prop) : Prop :=
  match m s with
  | .ok a s' => Q a s'
  | .error e s' => E e s'

section Outcome

variable {s : σ} {Q : α → σ → Prop} {E : ε → σ → Prop}

theorem outcome_ok {m : EStateM ε σ α} (h : outcome m s Q E) {a : α} {s' : σ} (hm : m s = .ok a s') :
    Q a s' := by
  simpa [outcome, hm] using h

theorem outcome_error {m : EStateM ε σ α} (h : outcome m s Q E) {e : ε} {s' : σ}
    (hm : m s = .error e s') : E e s' := by
  simpa [outcome, hm] using h

theorem outcome_mono {Q' : α → σ → Prop} {E' : ε → σ → Prop} {m : EStateM ε σ α} (h : outcome m s Q E)
    (hQ : ∀ a s', Q a s' → Q' a s') (hE : ∀ e s', E e s' → E' e s') : outcome m s Q' E' := by
  unfold outcome at h ⊢
  split at h
  · exact hQ _ _ h
  · exact hE _ _ h

@[simp] theorem outcome_pure (a : α) : outcome (pure a) s Q E ↔ Q a s := Iff.rfl

@[simp] theorem outcome_throw (e : ε) : outcome (throw e : EStateM ε σ α) s Q E ↔ E e s := Iff.rfl

@[simp] theorem outcome_get {Q : σ → σ → Prop} : outcome (get : EStateM ε σ σ) s Q E ↔ Q s s := Iff.rfl

@[simp] theorem outcome_set {Q : PUnit → σ → Prop} (t : σ) :
    outcome (set t : EStateM ε σ PUnit) s Q E ↔ Q ⟨⟩ t := Iff.rfl

@[simp] theorem outcome_modify {Q : PUnit → σ → Prop} (f : σ → σ) :
    outcome (modify f : EStateM ε σ PUnit) s Q E ↔ Q ⟨⟩ (f s) := Iff.rfl

@[simp] theorem outcome_bind {Q : β → σ → Prop} (m : EStateM ε σ α) (f : α → EStateM ε σ β) :
    outcome (m >>= f) s Q E ↔ outcome m s (fun a s' => outcome (f a) s' Q E) E := by
  unfold outcome
  change (match EStateM.bind m f s with
    | .ok a s' => Q a s'
    | .error e s' => E e s') ↔ _
  unfold EStateM.bind
  split <;> split <;> simp_all

theorem bind_error {m : EStateM ε σ α} {f : α → EStateM ε σ β} {s s' : σ} {e : ε}
    (h : (m >>= f) s = .error e s') : m s = .error e s' ∨ ∃ a s₁, m s = .ok a s₁ ∧ f a s₁ = .error e s' := by
  change EStateM.bind m f s = _ at h
  unfold EStateM.bind at h
  split at h
  · next a s₁ hm => exact .inr ⟨a, s₁, hm, h⟩
  · next e' s₁ hm =>
    cases h
    exact .inl hm

end Outcome

structure Conduct (ε σ : Type) where
  step : σ → σ → Prop
  blame : ε → σ → σ → Prop
  refl : ∀ s, step s s
  trans : ∀ {a b c}, step a b → step b c → step a c
  later : ∀ {e a b c}, step a b → blame e b c → blame e a c

namespace Conduct

def Stable (K : Conduct ε σ) (F : σ → Prop) : Prop := ∀ s s', K.step s s' → F s → F s'

def Of (K : Conduct ε σ) (F : σ → Prop) (m : EStateM ε σ α) : Prop :=
  ∀ s, F s → outcome m s (fun _ s' => K.step s s') fun e s' => K.blame e s s'

variable {K K' : Conduct ε σ} {F F' : σ → Prop}

theorem pure (a : α) : K.Of F (pure a) := fun s _ => K.refl s

theorem modify {f : σ → σ} (hf : ∀ s, K.step s (f s)) : K.Of F (modify f) := fun s _ => hf s

theorem read (f : σ → α) : K.Of F (do let s ← get; Pure.pure (f s)) := fun s _ => K.refl s

theorem bind_at {m : EStateM ε σ α} {f : α → EStateM ε σ β} {s : σ}
    (hm : outcome m s (fun _ s' => K.step s s') fun e s' => K.blame e s s')
    (hf : ∀ a s', K.step s s' → outcome (f a) s' (fun _ t => K.step s' t) fun e t => K.blame e s' t) :
    outcome (m >>= f) s (fun _ t => K.step s t) fun e t => K.blame e s t := by
  rw [outcome_bind]
  apply outcome_mono hm
  · intro a s' h
    exact outcome_mono (hf a s' h) (fun _ _ => K.trans h) fun _ _ => K.later h
  · exact fun _ _ h => h

theorem bind (hF : K.Stable F) {m : EStateM ε σ α} {f : α → EStateM ε σ β} (hm : K.Of F m)
    (hf : ∀ a, K.Of F (f a)) : K.Of F (m >>= f) :=
  fun s hs => bind_at (hm s hs) fun a s' h => hf a s' (hF s s' h hs)

theorem get_bind {f : σ → EStateM ε σ β}
    (hf : ∀ s, F s → outcome (f s) s (fun _ t => K.step s t) fun e t => K.blame e s t) :
    K.Of F (get >>= f) := hf

theorem ite {c : Prop} [Decidable c] {m m' : EStateM ε σ α} (h : c → K.Of F m) (h' : ¬ c → K.Of F m') :
    K.Of F (if c then m else m') := by
  split
  · next hc => exact h hc
  · next hc => exact h' hc

theorem weaken {m : EStateM ε σ α} (h : K.Of F m) (hF : ∀ s, F' s → F s)
    (hstep : ∀ s s', K.step s s' → K'.step s s') (hblame : ∀ e s s', K.blame e s s' → K'.blame e s s') :
    K'.Of F' m :=
  fun s hs => outcome_mono (h s (hF s hs)) (fun _ s' => hstep s s') fun e s' => hblame e s s'

end Conduct

end DsrUu.Effect
