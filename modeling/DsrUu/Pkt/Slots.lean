import DsrUu.Pkt.Walk

namespace DsrUu

open Bytes Effect

structure Slot where
  type : UInt8
  len : UInt8
  size : ℕ
deriving DecidableEq, Repr

def Slot.Steps (x : Slot) : Prop := optTypeOf x.type ≠ .pad1 ∧ x.size = x.len.toNat + 2

def slotStarts : ℕ → List Slot → List Cursor
  | _, [] => []
  | o, x :: xs => ⟨o, o⟩ :: slotStarts (o + x.size) xs

def slotEnd : ℕ → List Slot → ℕ
  | o, [] => o
  | o, x :: xs => slotEnd (o + x.size) xs

def Laid (byte : ℕ → UInt8) : ℕ → List Slot → Prop
  | _, [] => True
  | o, x :: xs => byte o = x.type ∧ (2 ≤ x.size → byte (o + 1) = x.len) ∧ Laid byte (o + x.size) xs

section Laid

variable {byte : ℕ → UInt8}

theorem length_slotStarts (xs : List Slot) : ∀ o, (slotStarts o xs).length = xs.length := by
  induction xs with
  | nil => exact fun _ => rfl
  | cons x xs ih => exact fun o => congrArg (· + 1) (ih _)

theorem optNext_steps {o : ℕ} {x : Slot} (ht : byte o = x.type) (hl : byte (o + 1) = x.len)
    (hx : x.Steps) : optNext byte ⟨o, o⟩ = ⟨o + x.size, o + x.size⟩ := by
  rw [optNext]
  dsimp only
  rw [ht, if_neg hx.1, optSize, hl, hx.2]

theorem steps_of_optNext {o : ℕ} {x : Slot} (ht : byte o = x.type)
    (hl : optTypeOf x.type ≠ .pad1 → byte (o + 1) = x.len)
    (hn : optNext byte ⟨o, o⟩ = ⟨o + x.size, o + x.size⟩) : x.Steps := by
  rw [optNext] at hn
  dsimp only at hn
  rw [ht] at hn
  split at hn
  · rw [Cursor.mk.injEq] at hn
    omega
  · next hp =>
    rw [Cursor.mk.injEq, optSize, hl hp] at hn
    exact ⟨hp, by omega⟩

theorem Laid.linked (xs : List Slot) : ∀ {o : ℕ}, Laid byte o xs → (∀ x ∈ xs, x.Steps) →
    Linked (optNext byte) ⟨o, o⟩ (slotStarts o xs) ⟨slotEnd o xs, slotEnd o xs⟩ := by
  induction xs with
  | nil => exact fun _ _ => rfl
  | cons x xs ih =>
    intro o h hs
    have hx := hs x List.mem_cons_self
    have hsz : 2 ≤ x.size := by
      have := hx.2
      omega
    refine ⟨rfl, ?_⟩
    rw [optNext_steps h.1 (h.2.1 hsz) hx]
    exact ih h.2.2 fun y hy => hs y (List.mem_cons_of_mem _ hy)

theorem Laid.steps (xs : List Slot) : ∀ {o : ℕ} {e : Cursor}, Laid byte o xs →
    (∀ x ∈ xs, optTypeOf x.type ≠ .pad1 → 2 ≤ x.size) →
    Linked (optNext byte) ⟨o, o⟩ (slotStarts o xs) e →
    (∀ x ∈ xs.dropLast, x.Steps) ∧ (e = ⟨slotEnd o xs, slotEnd o xs⟩ → ∀ x ∈ xs, x.Steps) := by
  induction xs with
  | nil => exact fun _ _ _ => ⟨fun _ h => absurd h List.not_mem_nil, fun _ _ h => absurd h List.not_mem_nil⟩
  | cons x xs ih =>
    intro o e h hsz hlink
    have hl : optTypeOf x.type ≠ .pad1 → byte (o + 1) = x.len :=
      fun hp => h.2.1 (hsz x List.mem_cons_self hp)
    obtain ⟨-, hlink⟩ := hlink
    cases xs with
    | nil =>
      refine ⟨fun _ hy => absurd hy List.not_mem_nil, fun he y hy => ?_⟩
      rw [List.mem_singleton.mp hy]
      exact steps_of_optNext h.1 hl (Eq.trans hlink he)
    | cons y ys =>
      have hn : optNext byte ⟨o, o⟩ = ⟨o + x.size, o + x.size⟩ := hlink.1
      have hx := steps_of_optNext h.1 hl hn
      rw [hn] at hlink
      obtain ⟨hd, hall⟩ := ih h.2.2 (fun z hz => hsz z (List.mem_cons_of_mem _ hz)) hlink
      refine ⟨fun z hz => ?_, fun he z hz => ?_⟩
      · rw [List.dropLast_cons_of_ne_nil (List.cons_ne_nil y ys)] at hz
        rcases List.mem_cons.mp hz with rfl | hz
        · exact hx
        · exact hd z hz
      · rcases List.mem_cons.mp hz with rfl | hz
        · exact hx
        · exact hall he z hz

theorem slotEnd_last (xs : List Slot) : ∀ o, ∀ x ∈ xs.getLast?, o + x.size ≤ slotEnd o xs := by
  induction xs with
  | nil => exact fun _ _ h => nomatch h
  | cons y ys ih =>
    intro o x hx
    cases ys with
    | nil =>
      cases hx
      exact Nat.le_refl _
    | cons z zs =>
      have hle := ih (o + y.size) x hx
      change o + x.size ≤ slotEnd (o + y.size) (z :: zs)
      omega

theorem slotStarts_lt (xs : List Slot) : ∀ {o : ℕ} {c : Cursor}, c ∈ slotStarts o xs →
    (∀ x ∈ xs.getLast?, 2 < x.size) → optGo (slotEnd o xs) c = true := by
  induction xs with
  | nil => exact fun h => absurd h List.not_mem_nil
  | cons x xs ih =>
    intro o c h hsz
    rcases List.mem_cons.mp h with rfl | h
    · have hlast : o + 2 < slotEnd o (x :: xs) := by
        obtain ⟨y, hy⟩ : ∃ y, y ∈ (x :: xs).getLast? := ⟨_, List.getLast?_eq_some_getLast (List.cons_ne_nil x xs)⟩
        have hle := slotEnd_last (x :: xs) o y hy
        have hgt := hsz y hy
        omega
      rw [optGo_iff]
      dsimp only
      omega
    · cases xs with
      | nil => exact absurd h List.not_mem_nil
      | cons y ys => exact ih h hsz

theorem Laid.start_type {xs : List Slot} : ∀ {o : ℕ} {c : Cursor}, Laid byte o xs → c ∈ slotStarts o xs →
    ∃ x ∈ xs, byte c.off = x.type := by
  induction xs with
  | nil => exact fun _ h => absurd h List.not_mem_nil
  | cons x xs ih =>
    intro o c h hc
    rcases List.mem_cons.mp hc with rfl | hc
    · exact ⟨x, List.mem_cons_self, h.1⟩
    · obtain ⟨y, hy, hty⟩ := ih h.2.2 hc
      exact ⟨y, List.mem_cons_of_mem _ hy, hty⟩

theorem length_le_slotEnd (xs : List Slot) : ∀ o, (∀ x ∈ xs, 0 < x.size) →
    o + xs.length ≤ slotEnd o xs := by
  induction xs with
  | nil => exact fun o _ => Nat.le_refl o
  | cons x xs ih =>
    intro o h
    have hx := h x List.mem_cons_self
    have hle := ih (o + x.size) fun y hy => h y (List.mem_cons_of_mem _ hy)
    change o + (xs.length + 1) ≤ slotEnd (o + x.size) xs
    omega

theorem slotStarts_mem (xs : List Slot) : ∀ {o : ℕ} {x : Slot}, x ∈ xs.getLast? →
    (⟨slotEnd o xs - x.size, slotEnd o xs - x.size⟩ : Cursor) ∈ slotStarts o xs := by
  induction xs with
  | nil => exact fun h => nomatch h
  | cons y ys ih =>
    intro o x hx
    cases ys with
    | nil =>
      cases hx
      change (⟨o + y.size - y.size, o + y.size - y.size⟩ : Cursor) ∈ [(⟨o, o⟩ : Cursor)]
      rw [Nat.add_sub_cancel]
      exact List.mem_singleton_self _
    | cons z zs => exact List.mem_cons_of_mem _ (ih hx)

theorem Laid.walk {xs : List Slot} {o : ℕ} (h : Laid byte o xs) (hs : ∀ x ∈ xs, x.Steps)
    (hl : ∀ x ∈ xs.getLast?, 2 < x.size) {fuel : ℕ} (hf : xs.length ≤ fuel) :
    optWalk byte fuel (slotEnd o xs) ⟨o, o⟩ = slotStarts o xs := by
  refine ((h.linked xs hs).trail (fun c hc => slotStarts_lt xs hc hl) ?_ ?_).1
  · rw [← Bool.not_eq_true, optGo_iff]
    dsimp only
    omega
  · rw [length_slotStarts]
    exact hf

theorem Laid.steps_of_walk {xs : List Slot} {o fuel : ℕ} (h : Laid byte o xs)
    (hsz : ∀ x ∈ xs, optTypeOf x.type ≠ .pad1 → 2 ≤ x.size)
    (hw : optWalk byte fuel (slotEnd o xs) ⟨o, o⟩ = slotStarts o xs) :
    (∀ x ∈ xs.dropLast, x.Steps) ∧ ∀ x ∈ xs.getLast?, 2 < x.size := by
  have hlink : Linked (optNext byte) ⟨o, o⟩ (trail (optGo (slotEnd o xs)) (optNext byte) fuel ⟨o, o⟩)
      (trailEnd (optGo (slotEnd o xs)) (optNext byte) fuel ⟨o, o⟩) := trail_linked _ _
  rw [optWalk] at hw
  rw [hw] at hlink
  refine ⟨(h.steps xs hsz hlink).1, fun x hx => ?_⟩
  have hm := slotStarts_mem xs (o := o) hx
  rw [← hw] at hm
  have hgo := optGo_iff.mp (trail_go hm)
  have hle := slotEnd_last xs o x hx
  dsimp only at hgo
  omega

end Laid

end DsrUu
