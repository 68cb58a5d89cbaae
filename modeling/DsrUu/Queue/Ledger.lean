import Mathlib.Data.List.Perm.Basic
import Mathlib.Data.List.Nodup
import Mathlib.Tactic.Common

namespace Ledger

inductive Move (α : Type)
  | give (a : α)
  | drop (a : α)
  | evict (a : α)
  | ship (a : α)

variable {α κ : Type}

def Move.given? : Move α → Option α
  | give a => some a
  | _ => none

def Move.taken? : Move α → Option α
  | give _ => none
  | drop a => some a
  | evict a => some a
  | ship a => some a

def Move.shipped? [DecidableEq κ] (key : α → κ) (k : κ) : Move α → Option α
  | ship a => if key a = k then some a else none
  | _ => none

def given (log : List (Move α)) : List α := log.filterMap Move.given?

def taken (log : List (Move α)) : List α := log.filterMap Move.taken?

def shipped [DecidableEq κ] (key : α → κ) (k : κ) (log : List (Move α)) : List α :=
  log.filterMap (Move.shipped? key k)

def OldestEvicted (rank : α → ℕ) (log : List (Move α)) : Prop :=
  ∀ pre a post, log = pre ++ .evict a :: post → ∀ b ∈ given pre, b ∉ taken pre → rank a ≤ rank b

structure Balanced [DecidableEq κ] (rank : α → ℕ) (key : α → κ) (bound : ℕ) (log : List (Move α))
    (live : List α) : Prop where
  perm : (given log).Perm (taken log ++ live)
  below : ∀ a ∈ given log, rank a < bound
  givenInOrder : (given log).Pairwise fun a b => rank a < rank b
  liveInOrder : live.Pairwise fun a b => rank a < rank b
  shippedInOrder : ∀ k, (shipped key k log ++ live.filter fun a => key a = k).Pairwise
    fun a b => rank a < rank b
  oldest : OldestEvicted rank log

theorem OldestEvicted.append {rank : α → ℕ} {log ms : List (Move α)} (h : OldestEvicted rank log)
    (hms : ∀ a, Move.evict a ∉ ms) : OldestEvicted rank (log ++ ms) := by
  intro pre a post heq
  rcases List.append_eq_append_iff.mp heq with ⟨c, rfl, hc⟩ | ⟨c, hlog, hc⟩
  · exact absurd (hc ▸ List.mem_append_right _ List.mem_cons_self) (hms a)
  · cases c with
    | nil =>
      rw [List.nil_append] at hc
      exact absurd (hc ▸ List.mem_cons_self) (hms a)
    | cons m c =>
      obtain ⟨rfl, -⟩ := List.cons_eq_cons.mp hc
      exact h pre _ c hlog

theorem OldestEvicted.evict {rank : α → ℕ} {log : List (Move α)} (h : OldestEvicted rank log) {a : α}
    (ha : ∀ b ∈ given log, b ∉ taken log → rank a ≤ rank b) :
    OldestEvicted rank (log ++ [.evict a]) := by
  intro pre b post heq
  rcases List.append_eq_append_iff.mp heq with ⟨c, rfl, hc⟩ | ⟨c, hlog, hc⟩
  · cases c with
    | nil =>
      rw [List.append_nil]
      obtain ⟨hba, -⟩ := List.cons_eq_cons.mp hc
      cases hba
      exact ha
    | cons m c =>
      obtain ⟨-, hnil⟩ := List.cons_eq_cons.mp hc
      cases c <;> cases hnil
  · cases c with
    | nil =>
      rw [List.nil_append] at hc
      rw [List.append_nil] at hlog
      subst hlog
      obtain ⟨hba, -⟩ := List.cons_eq_cons.mp hc
      cases hba
      exact ha
    | cons m c =>
      obtain ⟨rfl, -⟩ := List.cons_eq_cons.mp hc
      exact h pre _ c hlog

section Balanced

variable [DecidableEq κ] {rank : α → ℕ} {key : α → κ} {bound : ℕ} {log : List (Move α)}
  {live pre post : List α} {a : α}

namespace Balanced

theorem nil : Balanced rank key bound [] [] :=
  ⟨.refl _, fun _ h => absurd h List.not_mem_nil, .nil, .nil, fun _ => .nil, fun pre a post h => by
    cases pre <;> cases h⟩

theorem mono (h : Balanced rank key bound log live) {bound' : ℕ} (hb : bound ≤ bound') :
    Balanced rank key bound' log live :=
  ⟨h.perm, fun a ha => Nat.lt_of_lt_of_le (h.below a ha) hb, h.givenInOrder, h.liveInOrder,
    h.shippedInOrder, h.oldest⟩

theorem live_given (h : Balanced rank key bound log live) (ha : a ∈ live) : a ∈ given log :=
  h.perm.mem_iff.mpr (List.mem_append_right _ ha)

theorem shipped_given {k : κ} (h : Balanced rank key bound log live) (ha : a ∈ shipped key k log) :
    a ∈ given log := by
  obtain ⟨m, hm, hs⟩ := List.mem_filterMap.mp ha
  refine h.perm.mem_iff.mpr (List.mem_append_left _ (List.mem_filterMap.mpr ⟨m, hm, ?_⟩))
  cases m with
  | ship b =>
    unfold Move.shipped? at hs
    dsimp only at hs
    split at hs
    · exact hs
    · cases hs
  | _ => cases hs

theorem give (h : Balanced rank key bound log live) (hb : bound ≤ rank a) {bound' : ℕ}
    (ha : rank a < bound') : Balanced rank key bound' (log ++ [.give a]) (live ++ [a]) := by
  have hgiven : given (log ++ [.give a]) = given log ++ [a] := List.filterMap_append
  have htaken : taken (log ++ [.give a]) = taken log := by simp [taken, Move.taken?]
  have hshipped : ∀ k, shipped key k (log ++ [.give a]) = shipped key k log := by
    simp [shipped, Move.shipped?]
  have hlt : ∀ b ∈ given log, rank b < rank a := fun b hb' => Nat.lt_of_lt_of_le (h.below b hb') hb
  have hsnoc : ∀ {xs : List α}, xs.Pairwise (fun a b => rank a < rank b) → (∀ b ∈ xs, b ∈ given log) →
      (xs ++ [a]).Pairwise fun a b => rank a < rank b := by
    intro xs hxs hsub
    refine List.pairwise_append.mpr ⟨hxs, List.pairwise_singleton _ _, fun b hb' c hc => ?_⟩
    rw [List.mem_singleton.mp hc]
    exact hlt b (hsub b hb')
  refine ⟨?_, fun b hb' => ?_, ?_, hsnoc h.liveInOrder fun b => h.live_given, fun k => ?_,
    h.oldest.append fun b hb' => nomatch List.mem_singleton.mp hb'⟩
  · rw [hgiven, htaken, ← List.append_assoc]
    exact h.perm.append_right _
  · rw [hgiven] at hb'
    rcases List.mem_append.mp hb' with hb' | hb'
    · exact Nat.lt_trans (hlt b hb') ha
    · rw [List.mem_singleton.mp hb']
      exact ha
  · rw [hgiven]
    exact hsnoc h.givenInOrder fun b => id
  · rw [hshipped, List.filter_append]
    by_cases hk : key a = k
    · rw [List.filter_cons_of_pos (by simpa using hk), List.filter_nil, ← List.append_assoc]
      refine hsnoc (h.shippedInOrder k) fun b hb' => ?_
      rcases List.mem_append.mp hb' with hb' | hb'
      · exact h.shipped_given hb'
      · exact h.live_given (List.mem_filter.mp hb').1
    · rw [List.filter_cons_of_neg (by simpa using hk), List.filter_nil, List.append_nil]
      exact h.shippedInOrder k

theorem perm_take (h : Balanced rank key bound log (pre ++ a :: post)) :
    (given log).Perm ((taken log ++ [a]) ++ (pre ++ post)) := by
  refine h.perm.trans ?_
  rw [List.append_assoc]
  exact List.perm_middle.append_left _

theorem drop (h : Balanced rank key bound log (pre ++ a :: post)) :
    Balanced rank key bound (log ++ [.drop a]) (pre ++ post) := by
  have hgiven : given (log ++ [.drop a]) = given log := by simp [given, Move.given?]
  have htaken : taken (log ++ [.drop a]) = taken log ++ [a] := List.filterMap_append
  have hshipped : ∀ k, shipped key k (log ++ [.drop a]) = shipped key k log := by
    simp [shipped, Move.shipped?]
  have hsub : (pre ++ post).Sublist (pre ++ a :: post) := (List.sublist_cons_self a post).append_left _
  refine ⟨?_, ?_, ?_, h.liveInOrder.sublist hsub, fun k => ?_,
    h.oldest.append fun b hb => nomatch List.mem_singleton.mp hb⟩
  · rw [hgiven, htaken]
    exact h.perm_take
  · rw [hgiven]
    exact h.below
  · rw [hgiven]
    exact h.givenInOrder
  · rw [hshipped]
    exact (h.shippedInOrder k).sublist ((hsub.filter _).append_left _)

theorem evict (h : Balanced rank key bound log (a :: post)) :
    Balanced rank key bound (log ++ [.evict a]) post := by
  have hgiven : given (log ++ [.evict a]) = given log := by simp [given, Move.given?]
  have htaken : taken (log ++ [.evict a]) = taken log ++ [a] := List.filterMap_append
  have hshipped : ∀ k, shipped key k (log ++ [.evict a]) = shipped key k log := by
    simp [shipped, Move.shipped?]
  obtain ⟨hhead, htail⟩ := List.pairwise_cons.mp h.liveInOrder
  refine ⟨?_, ?_, ?_, htail, fun k => ?_, h.oldest.evict fun b hb hnot => ?_⟩
  · rw [hgiven, htaken]
    have hperm : (given log).Perm ((taken log ++ [a]) ++ ([] ++ post)) := perm_take h
    exact hperm
  · rw [hgiven]
    exact h.below
  · rw [hgiven]
    exact h.givenInOrder
  · rw [hshipped]
    exact (h.shippedInOrder k).sublist (((List.sublist_cons_self a post).filter _).append_left _)
  · rcases List.mem_append.mp (h.perm.mem_iff.mp hb) with hb | hb
    · exact absurd hb hnot
    · rcases List.mem_cons.mp hb with rfl | hb
      · exact Nat.le_refl _
      · exact Nat.le_of_lt (hhead b hb)

theorem ship (h : Balanced rank key bound log (pre ++ a :: post)) (hpre : ∀ b ∈ pre, key b ≠ key a) :
    Balanced rank key bound (log ++ [.ship a]) (pre ++ post) := by
  have hgiven : given (log ++ [.ship a]) = given log := by simp [given, Move.given?]
  have htaken : taken (log ++ [.ship a]) = taken log ++ [a] := List.filterMap_append
  have hsub : (pre ++ post).Sublist (pre ++ a :: post) := (List.sublist_cons_self a post).append_left _
  refine ⟨?_, ?_, ?_, h.liveInOrder.sublist hsub, fun k => ?_,
    h.oldest.append fun b hb => nomatch List.mem_singleton.mp hb⟩
  · rw [hgiven, htaken]
    exact h.perm_take
  · rw [hgiven]
    exact h.below
  · rw [hgiven]
    exact h.givenInOrder
  · by_cases hk : key a = k
    · have hnone : pre.filter (fun b => key b = k) = [] := by
        refine List.filter_eq_nil_iff.mpr fun b hb => ?_
        rw [← hk]
        simpa using hpre b hb
      have horder := h.shippedInOrder k
      rw [List.filter_append, hnone, List.nil_append, List.filter_cons_of_pos (by simpa using hk)] at horder
      have hshipped : shipped key k (log ++ [.ship a]) = shipped key k log ++ [a] := by
        simp [shipped, Move.shipped?, hk]
      rw [hshipped, List.filter_append, hnone, List.nil_append, List.append_assoc]
      exact horder
    · have hshipped : shipped key k (log ++ [.ship a]) = shipped key k log := by
        simp [shipped, Move.shipped?, hk]
      rw [hshipped]
      exact (h.shippedInOrder k).sublist ((hsub.filter _).append_left _)

theorem dropAll (h : Balanced rank key bound log live) (p : α → Bool) :
    Balanced rank key bound (log ++ (live.filter p).map .drop) (live.filter fun a => !p a) := by
  have hgiven : given (log ++ (live.filter p).map .drop) = given log := by
    simp [given, List.filterMap_append, List.filterMap_map, Function.comp_def, Move.given?]
  have htaken : taken (log ++ (live.filter p).map .drop) = taken log ++ live.filter p := by
    simp [taken, List.filterMap_append, List.filterMap_map, Function.comp_def, Move.taken?]
  have hshipped : ∀ k, shipped key k (log ++ (live.filter p).map .drop) = shipped key k log := by
    simp [shipped, List.filterMap_append, List.filterMap_map, Function.comp_def, Move.shipped?]
  have hsub : (live.filter fun a => !p a).Sublist live := List.filter_sublist
  refine ⟨?_, ?_, ?_, h.liveInOrder.sublist hsub, fun k => ?_, h.oldest.append fun b hb => ?_⟩
  · rw [hgiven, htaken, List.append_assoc]
    exact h.perm.trans ((List.filter_append_perm p live).symm.append_left _)
  · rw [hgiven]
    exact h.below
  · rw [hgiven]
    exact h.givenInOrder
  · rw [hshipped]
    exact (h.shippedInOrder k).sublist ((hsub.filter _).append_left _)
  · obtain ⟨c, -, hc⟩ := List.mem_map.mp hb
    cases hc

theorem given_nodup (h : Balanced rank key bound log live) : (given log).Nodup := by
  refine h.givenInOrder.imp fun hab heq => ?_
  rw [heq] at hab
  exact Nat.lt_irrefl _ hab

theorem once [DecidableEq α] (h : Balanced rank key bound log live) (ha : a ∈ given log) :
    live.count a + (taken log).count a = 1 := by
  have hcount := h.perm.count_eq a
  rw [List.count_append, List.count_eq_one_of_mem h.given_nodup ha] at hcount
  omega

theorem shipped_pairwise (h : Balanced rank key bound log live) (k : κ) :
    (shipped key k log).Pairwise fun a b => rank a < rank b :=
  (List.pairwise_append.mp (h.shippedInOrder k)).1

end Balanced

end Balanced

end Ledger
