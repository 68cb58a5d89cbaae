import DsrUu.Platform

namespace DsrUu

structure Tbl (α : Type) where
  head : List α
  len : ℕ
  maxLen : ℕ
deriving Repr

namespace Tbl

variable {α : Type}

def init (maxLen : ℕ) : Tbl α := { head := [], len := 0, maxLen := maxLen }

def full (t : Tbl α) : Bool := t.maxLen ≤ t.len

def addTail (t : Tbl α) (l : α) : Option (Tbl α) :=
  if t.maxLen ≤ t.len then none
  else some { t with head := t.head ++ [l], len := t.len + 1 }

def insertBefore (crit : α → Bool) (l : α) : List α → List α
  | [] => [l]
  | pos :: rest => if crit pos then l :: pos :: rest else pos :: insertBefore crit l rest

def add (t : Tbl α) (l : α) (crit : α → Bool) : Option (Tbl α) :=
  if t.maxLen ≤ t.len then none
  else some { t with head := insertBefore crit l t.head, len := t.len + 1 }

def find (t : Tbl α) (crit : α → Bool) : Option α := t.head.find? crit

def detach [DecidableEq α] (t : Tbl α) (l : α) : Option (Tbl α) :=
  if t.head = [] then some t
  else if l ∈ t.head then some { t with head := t.head.erase l, len := t.len - 1 }
  else none

def findDetach (t : Tbl α) (crit : α → Bool) : Option (α × Tbl α) :=
  (t.head.find? crit).map fun e =>
    (e, { t with head := t.head.eraseP crit, len := t.len - 1 })

def detachFirst (t : Tbl α) : Option (α × Tbl α) :=
  match t.head with
  | [] => none
  | e :: rest => some (e, { t with head := rest, len := t.len - 1 })

def updateFirst (crit : α → Bool) (f : α → α) : List α → List α
  | [] => []
  | pos :: rest => if crit pos then f pos :: rest else pos :: updateFirst crit f rest

def findDo (t : Tbl α) (crit : α → Bool) (f : α → α) : Tbl α :=
  { t with head := updateFirst crit f t.head }

def forEachDel (t : Tbl α) (crit : α → Bool) : Tbl α :=
  { t with head := t.head.filter (fun e => !crit e), len := t.len - (t.head.filter crit).length }

def flush (t : Tbl α) : Tbl α := { t with head := [], len := t.len - t.head.length }

def WF (t : Tbl α) : Prop := t.len = t.head.length

theorem wf_init (m : ℕ) : (init m : Tbl α).WF := rfl

theorem addTail_eq_some {t t' : Tbl α} {l : α} (h : t.addTail l = some t') :
    t.len < t.maxLen ∧ t' = { t with head := t.head ++ [l], len := t.len + 1 } := by
  unfold addTail at h
  split at h
  · cases h
  · next hlt =>
    cases h
    exact ⟨by omega, rfl⟩

theorem addTail_of_lt {t : Tbl α} (l : α) (h : t.len < t.maxLen) :
    t.addTail l = some { t with head := t.head ++ [l], len := t.len + 1 } := by
  rw [addTail, if_neg (by omega)]

theorem addTail_of_full {t : Tbl α} (l : α) (h : t.maxLen ≤ t.len) : t.addTail l = none := by
  rw [addTail, if_pos h]

theorem detach_of_mem [DecidableEq α] {t : Tbl α} {l : α} (h : l ∈ t.head) :
    t.detach l = some { t with head := t.head.erase l, len := t.len - 1 } := by
  have hne : t.head ≠ [] := List.ne_nil_of_mem h
  rw [detach, if_neg hne, if_pos h]

theorem WF.addTail {t t' : Tbl α} {l : α} (h : t.WF) (ha : t.addTail l = some t') : t'.WF := by
  obtain ⟨_, rfl⟩ := addTail_eq_some ha
  unfold WF at h ⊢
  simp [h]

theorem WF.detach [DecidableEq α] {t t' : Tbl α} {l : α} (h : t.WF) (hd : t.detach l = some t') :
    t'.WF := by
  unfold Tbl.detach at hd
  split at hd
  · cases hd; exact h
  · split at hd
    · next hm =>
      cases hd
      unfold WF at h ⊢
      simp [h, List.length_erase_of_mem hm]
    · cases hd

theorem detach_sublist [DecidableEq α] {t t' : Tbl α} {l : α} (h : t.detach l = some t') :
    t'.head.Sublist t.head ∧ t'.maxLen = t.maxLen := by
  unfold Tbl.detach at h
  split at h
  · cases h
    exact ⟨List.Sublist.refl _, rfl⟩
  · split at h
    · cases h
      exact ⟨List.erase_sublist, rfl⟩
    · cases h

theorem detach_len_le [DecidableEq α] {t t' : Tbl α} {l : α} (h : t.detach l = some t') :
    t'.len ≤ t.len := by
  unfold Tbl.detach at h
  split at h
  · cases h
    exact Nat.le_refl _
  · split at h
    · cases h
      exact Nat.sub_le _ _
    · cases h

theorem findDetach_mem {t t' : Tbl α} {crit : α → Bool} {e : α}
    (h : t.findDetach crit = some (e, t')) : e ∈ t.head ∧ ∀ x ∈ t'.head, x ∈ t.head := by
  unfold findDetach at h
  obtain ⟨a, ha, hp⟩ := Option.map_eq_some_iff.mp h
  cases hp
  exact ⟨List.mem_of_find?_eq_some ha, fun x hx => List.mem_of_mem_eraseP hx⟩

theorem detachFirst_mem {t t' : Tbl α} {e : α} (h : t.detachFirst = some (e, t')) :
    e ∈ t.head ∧ ∀ x ∈ t'.head, x ∈ t.head := by
  unfold detachFirst at h
  split at h
  · cases h
  · next hd =>
    cases h
    rw [hd]
    exact ⟨by simp, fun x hx => by simp [hx]⟩

theorem detachFirst_eq {t t' : Tbl α} {e : α} (h : t.detachFirst = some (e, t')) :
    t.head = e :: t'.head ∧ t' = { t with head := t'.head, len := t.len - 1 } := by
  unfold detachFirst at h
  split at h
  · cases h
  · next hd =>
    cases h
    exact ⟨hd, rfl⟩

theorem detachFirst_cons {t t' : Tbl α} {e : α} (h : t.detachFirst = some (e, t')) :
    t.head = e :: t'.head :=
  (detachFirst_eq h).1

theorem insertBefore_perm (crit : α → Bool) (l : α) (xs : List α) :
    (insertBefore crit l xs).Perm (l :: xs) := by
  induction xs with
  | nil => exact List.Perm.refl _
  | cons x xs ih =>
    unfold insertBefore
    split
    · exact List.Perm.refl _
    · exact (ih.cons x).trans (List.Perm.swap l x xs)

theorem mem_insertBefore {crit : α → Bool} {l x : α} {xs : List α}
    (h : x ∈ insertBefore crit l xs) : x = l ∨ x ∈ xs :=
  List.mem_cons.mp ((insertBefore_perm crit l xs).mem_iff.mp h)

theorem mem_insertBefore_of_mem {crit : α → Bool} {l x : α} {xs : List α} (h : x ∈ xs) :
    x ∈ insertBefore crit l xs :=
  (insertBefore_perm crit l xs).mem_iff.mpr (List.mem_cons_of_mem l h)

theorem mem_add_getD {t : Tbl α} {crit : α → Bool} {l x : α}
    (h : x ∈ ((t.add l crit).getD t).head) : x = l ∨ x ∈ t.head := by
  unfold add at h
  split at h
  · exact Or.inr h
  · exact mem_insertBefore h

theorem find_add_getD {t : Tbl α} {crit p : α → Bool} {l : α} (h : (t.find p).isSome = true) :
    (((t.add l crit).getD t).find p).isSome = true := by
  unfold add
  split
  · exact h
  · rw [find, List.find?_isSome] at h ⊢
    obtain ⟨x, hx, hp⟩ := h
    exact ⟨x, mem_insertBefore_of_mem hx, hp⟩

theorem mem_addTail_getD {t : Tbl α} {l x : α} (h : x ∈ ((t.addTail l).getD t).head) :
    x = l ∨ x ∈ t.head := by
  unfold addTail at h
  split at h
  · exact Or.inr h
  · rcases List.mem_append.mp h with h | h
    · exact Or.inr h
    · exact Or.inl (List.mem_singleton.mp h)

theorem WF.flush {t : Tbl α} (h : t.WF) : t.flush.WF := by
  unfold WF at h
  simp [WF, Tbl.flush, h]

theorem updateFirst_map {β : Type} (g : α → β) (crit : α → Bool) (f : α → α)
    (hf : ∀ x, g (f x) = g x) (xs : List α) :
    (updateFirst crit f xs).map g = xs.map g := by
  induction xs with
  | nil => rfl
  | cons x xs ih =>
    simp only [updateFirst]
    split
    · simp [hf]
    · simp [ih]

theorem updateFirst_length (crit : α → Bool) (f : α → α) (xs : List α) :
    (updateFirst crit f xs).length = xs.length := by
  induction xs with
  | nil => rfl
  | cons x xs ih =>
    simp only [updateFirst]
    split
    · simp
    · simp [ih]

theorem updateFirst_forall {P : α → Prop} {crit : α → Bool} {f : α → α} {xs : List α}
    (h : ∀ x ∈ xs, P x) (hf : ∀ x ∈ xs, P (f x)) : ∀ x ∈ updateFirst crit f xs, P x := by
  induction xs with
  | nil => simp [updateFirst]
  | cons y ys ih =>
    simp only [List.mem_cons, forall_eq_or_imp] at h hf
    simp only [updateFirst]
    split
    · simp only [List.mem_cons, forall_eq_or_imp]
      exact ⟨hf.1, h.2⟩
    · simp only [List.mem_cons, forall_eq_or_imp]
      exact ⟨h.1, ih h.2 hf.2⟩

theorem find?_updateFirst_self {p : α → Bool} {f : α → α} (hf : ∀ x, p x = true → p (f x) = true)
    (xs : List α) : (updateFirst p f xs).find? p = (xs.find? p).map f := by
  induction xs with
  | nil => rfl
  | cons x xs ih =>
    by_cases hx : p x = true
    · simp [updateFirst, hx, hf x hx]
    · simp [updateFirst, hx, ih]

theorem find?_updateFirst_ne {p q : α → Bool} {f : α → α}
    (hq : ∀ x, p x = true → q x = false ∧ q (f x) = false) (xs : List α) :
    (updateFirst p f xs).find? q = xs.find? q := by
  induction xs with
  | nil => rfl
  | cons x xs ih =>
    by_cases hx : p x = true
    · simp [updateFirst, hx, hq x hx]
    · simp [updateFirst, hx, List.find?_cons, ih]

theorem length_insertBefore (crit : α → Bool) (l : α) (xs : List α) :
    (insertBefore crit l xs).length = xs.length + 1 := by
  rw [(insertBefore_perm crit l xs).length_eq, List.length_cons]

theorem self_mem_insertBefore (crit : α → Bool) (l : α) (xs : List α) :
    l ∈ insertBefore crit l xs :=
  (insertBefore_perm crit l xs).mem_iff.mpr List.mem_cons_self

structure Fits (t : Tbl α) : Prop where
  wf : t.WF
  le : t.len ≤ t.maxLen

structure Room (t : Tbl α) : Prop where
  wf : t.WF
  lt : t.len < t.maxLen

theorem Room.fits {t : Tbl α} (h : t.Room) : t.Fits := ⟨h.wf, Nat.le_of_lt h.lt⟩

theorem Fits.detachFirst {t t' : Tbl α} {e : α} (h : t.Fits) (hd : t.detachFirst = some (e, t')) :
    t'.Room := by
  have hwf := h.wf
  have hle := h.le
  unfold Tbl.detachFirst at hd
  split at hd
  · cases hd
  · next hcons =>
    cases hd
    unfold WF at hwf
    rw [hcons, List.length_cons] at hwf
    constructor
    · simp [WF, hwf]
    · dsimp only
      omega

theorem Fits.findDetach {t t' : Tbl α} {crit : α → Bool} {e : α} (h : t.Fits)
    (hd : t.findDetach crit = some (e, t')) : t'.Room := by
  have hwf := h.wf
  have hle := h.le
  unfold Tbl.findDetach at hd
  obtain ⟨a, ha, hp⟩ := Option.map_eq_some_iff.mp hd
  cases hp
  have hm := List.mem_of_find?_eq_some ha
  have hlen := List.length_eraseP_of_mem hm (List.find?_some ha)
  have hpos := List.length_pos_of_mem hm
  unfold WF at hwf
  constructor
  · simp [WF, hwf, hlen]
  · dsimp only
    omega

theorem Room.add {t : Tbl α} (h : t.Room) (l : α) (crit : α → Bool) :
    ((t.add l crit).getD t).Fits ∧ l ∈ ((t.add l crit).getD t).head := by
  have hwf := h.wf
  have hlt := h.lt
  unfold WF at hwf
  rw [Tbl.add, if_neg (by omega), Option.getD_some]
  refine ⟨⟨?_, hlt⟩, self_mem_insertBefore crit l t.head⟩
  simp [WF, length_insertBefore, hwf]

theorem Fits.addTail {t t' : Tbl α} {l : α} (h : t.Fits) (ha : t.addTail l = some t') : t'.Fits := by
  refine ⟨h.wf.addTail ha, ?_⟩
  obtain ⟨hlt, rfl⟩ := addTail_eq_some ha
  exact hlt

theorem WF.findDo {t : Tbl α} (h : t.WF) (crit : α → Bool) (f : α → α) : (t.findDo crit f).WF := by
  unfold WF at h
  simp [WF, Tbl.findDo, updateFirst_length, h]

theorem Fits.findDo {t : Tbl α} (h : t.Fits) (crit : α → Bool) (f : α → α) : (t.findDo crit f).Fits :=
  ⟨h.wf.findDo crit f, h.le⟩

theorem Fits.forEachDel {t : Tbl α} (h : t.Fits) (crit : α → Bool) : (t.forEachDel crit).Fits := by
  have hwf := h.wf
  have hle := h.le
  have hsplit := List.length_eq_length_filter_add (l := t.head) crit
  unfold WF at hwf
  constructor
  · simp only [WF, Tbl.forEachDel]
    omega
  · simp only [Tbl.forEachDel]
    omega

end Tbl

end DsrUu
