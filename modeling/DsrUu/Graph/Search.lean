import Mathlib.Data.List.Basic
import Mathlib.Data.List.Nodup
import Mathlib.Data.List.Perm.Subperm
import Mathlib.Logic.Function.Basic
import Mathlib.Tactic.Common

namespace Graph

variable {V : Type}

inductive Walk (E : V → V → ℕ → Prop) (src : V) : List V → V → ℕ → Prop
  | nil : Walk E src [] src 0
  | snoc {p : List V} {v w : V} {c k : ℕ} :
      Walk E src p v c → E v w k → Walk E src (p ++ [w]) w (c + k)

theorem Walk.map {W : Type} {E : V → V → ℕ → Prop} {E' : W → W → ℕ → Prop} (f : V → W)
    (hf : ∀ u v k, E u v k → E' (f u) (f v) k) {src : V} {p : List V} {v : V} {c : ℕ}
    (h : Walk E src p v c) : Walk E' (f src) (p.map f) (f v) c := by
  induction h with
  | nil => exact Walk.nil
  | snoc _ he ih =>
    rw [List.map_append]
    exact ih.snoc (hf _ _ _ he)

theorem Walk.lift {W : Type} {E : V → V → ℕ → Prop} {E' : W → W → ℕ → Prop} (f : V → W)
    (U : V → Prop) (hinj : ∀ u v, U u → U v → f u = f v → u = v)
    (hE : ∀ a b k, E' a b k → ∃ u v, U u ∧ U v ∧ f u = a ∧ f v = b ∧ E u v k) {src : V}
    (hsrc : U src) {p : List W} {b : W} {c : ℕ} (h : Walk E' (f src) p b c) :
    ∃ q v, U v ∧ f v = b ∧ p = q.map f ∧ Walk E src q v c := by
  induction h with
  | nil => exact ⟨[], src, hsrc, rfl, rfl, Walk.nil⟩
  | snoc _ he ih =>
    obtain ⟨q, v, hv, rfl, rfl, hw⟩ := ih
    obtain ⟨u, w, hu, hwU, hfu, hfw, huw⟩ := hE _ _ _ he
    have huv := hinj u v hu hv hfu
    subst huv
    exact ⟨q ++ [w], w, hwU, hfw, by simp [hfw], hw.snoc huw⟩

theorem Walk.mem_of_edge {E : V → V → ℕ → Prop} {U : V → Prop} (hE : ∀ u v k, E u v k → U v)
    {src : V} {p : List V} {v : V} {c : ℕ} (h : Walk E src p v c) : ∀ x ∈ p, U x := by
  induction h with
  | nil => simp
  | snoc _ he ih =>
    intro x hx
    rcases List.mem_append.mp hx with hx | hx
    · exact ih x hx
    · rw [List.mem_singleton.mp hx]
      exact hE _ _ _ he

theorem Walk.cost_le {E : V → V → ℕ → Prop} {m : ℕ} (hE : ∀ u v k, E u v k → k ≤ m) {src : V}
    {p : List V} {v : V} {c : ℕ} (h : Walk E src p v c) : c ≤ m * p.length := by
  induction h with
  | nil => exact Nat.zero_le _
  | snoc _ he ih =>
    have hk := hE _ _ _ he
    rw [List.length_append, List.length_singleton, Nat.mul_add, Nat.mul_one]
    omega

theorem Walk.first_edge {E : V → V → ℕ → Prop} {src : V} {p : List V} {v : V} {c : ℕ}
    (h : Walk E src p v c) (hne : src ≠ v) : ∃ b k, E src b k := by
  induction h with
  | nil => exact absurd rfl hne
  | @snoc p v w c k _ he ih =>
    by_cases hv : src = v
    · exact ⟨w, k, hv ▸ he⟩
    · exact ih hv

theorem Walk.eq_of_nil {E : V → V → ℕ → Prop} {src : V} {p : List V} {v : V} {c : ℕ}
    (h : Walk E src p v c) (hp : p = []) : v = src := by
  induction h with
  | nil => rfl
  | snoc => simp at hp

theorem Walk.hop {E : V → V → ℕ → Prop} {src : V} {p : List V} {v : V} {c : ℕ}
    (h : Walk E src p v c) : (src :: p).getLast? = some v ∧
      ∀ x y, [x, y] <:+: src :: p → ∃ k, E x y k := by
  induction h with
  | nil =>
    refine ⟨rfl, fun x y hxy => ?_⟩
    have hle := hxy.length_le
    simp only [List.length_cons, List.length_nil] at hle
    omega
  | @snoc p v w c k hw he ih =>
    refine ⟨by rw [← List.cons_append, List.getLast?_concat], fun x y hxy => ?_⟩
    rw [← List.cons_append, List.infix_concat_iff] at hxy
    rcases hxy with hxy | hxy
    · rcases List.suffix_concat_iff.mp hxy with hnil | ⟨t, ht, hsuf⟩
      · cases hnil
      · obtain ⟨rfl, hy⟩ := List.append_inj' (show [x] ++ [y] = t ++ [w] from ht) rfl
        cases hy
        obtain ⟨init, hinit⟩ := hsuf
        have hlast := ih.1
        rw [← hinit, List.getLast?_concat, Option.some_inj] at hlast
        exact ⟨k, hlast ▸ he⟩
    · exact ih.2 x y hxy

theorem Walk.head_edge {E : V → V → ℕ → Prop} {src : V} {p : List V} {v : V} {c : ℕ}
    (h : Walk E src p v c) : ∀ b q, p = b :: q → ∃ k, E src b k := by
  induction h with
  | nil =>
    intro b q hp
    cases hp
  | @snoc p v w c k hw he ih =>
    intro b q hp
    cases p with
    | nil =>
      obtain ⟨rfl, _⟩ := List.cons.inj hp
      exact ⟨k, hw.eq_of_nil rfl ▸ he⟩
    | cons a p =>
      obtain ⟨rfl, _⟩ := List.cons.inj hp
      exact ih a p rfl

structure Search (V : Type) where
  done : List V
  dist : V → ℕ
  hops : V → ℕ
  pred : V → Option V

namespace Search

def CostBound (E : V → V → ℕ → Prop) (src : V) (inf : ℕ) : Prop :=
  ∀ p v c, Walk E src p v c → (src :: p).Nodup → ∀ a b k, E a b k → c + k < inf

theorem CostBound.of_targets {E : V → V → ℕ → Prop} {src : V} {inf m : ℕ} (targets : List V)
    (hE : ∀ u v k, E u v k → v ∈ targets ∧ k ≤ m) (hm : m * targets.length + m < inf) :
    CostBound E src inf := by
  intro p v c hw hn a b k he
  have hlen := (List.subperm_of_subset (List.nodup_cons.mp hn).2
    (hw.mem_of_edge fun u v k h => (hE u v k h).1)).length_le
  have hc := hw.cost_le fun u v k h => (hE u v k h).2
  have hmul : m * p.length ≤ m * targets.length := Nat.mul_le_mul_left m hlen
  have hk := (hE a b k he).2
  omega

end Search

variable [DecidableEq V]

namespace Search

def settle (u : V) (s : Search V) : Search V := { s with done := s.done ++ [u] }

def relax (u v : V) (k : ℕ) (s : Search V) : Search V :=
  if s.dist u + k < s.dist v then
    { s with
      dist := Function.update s.dist v (s.dist u + k)
      hops := Function.update s.hops v (s.hops u + 1)
      pred := Function.update s.pred v (some u) }
  else s

def backtrack (pred : V → Option V) : ℕ → V → Option (List V)
  | 0, _ => none
  | fuel + 1, n =>
      match pred n with
      | none => none
      | some p => if n = p then some [] else (backtrack pred fuel p).map (n :: ·)

structure Inv (E : V → V → ℕ → Prop) (src : V) (U : V → Prop) (inf : ℕ)
    (waived : V → V → ℕ → Prop) (s : Search V) : Prop where
  nodup : s.done.Nodup
  done_mem : ∀ v ∈ s.done, U v
  done_lt : ∀ v ∈ s.done, s.dist v < inf
  src_dist : s.dist src = 0
  src_hops : s.hops src = 0
  src_pred : s.pred src = some src
  tree : ∀ v, U v → v ≠ src → s.dist v < inf → ∃ u k, s.pred v = some u ∧ u ∈ s.done ∧ E u v k ∧
    s.dist v = s.dist u + k ∧ s.hops v = s.hops u + 1 ∧
    (v ∈ s.done → s.done.idxOf u < s.done.idxOf v)
  mono : ∀ x ∈ s.done, ∀ y, U y → y ∉ s.done → s.dist x ≤ s.dist y
  relaxed : ∀ u ∈ s.done, ∀ v k, E u v k → ¬ waived u v k → s.dist v ≤ s.dist u + k

variable {E : V → V → ℕ → Prop} {src : V} {U : V → Prop} {inf : ℕ}

theorem Inv.settle {s : Search V} (h : Inv E src U inf (fun _ _ _ => False) s) {u : V}
    (hu : U u) (hnd : u ∉ s.done) (hlt : s.dist u < inf)
    (hmin : ∀ y, U y → y ∉ s.done → s.dist u ≤ s.dist y) :
    Inv E src U inf (fun x _ _ => x = u) (s.settle u) ∧
      ∀ x ∈ (s.settle u).done, (s.settle u).dist x ≤ (s.settle u).dist u := by
  have hmem : ∀ x, x ∈ s.done ++ [u] ↔ x ∈ s.done ∨ x = u := by simp
  refine ⟨⟨?_, ?_, ?_, h.src_dist, h.src_hops, h.src_pred, ?_, ?_, ?_⟩, ?_⟩
  · have hne : ∀ x ∈ s.done, x ≠ u := fun x hx he => hnd (he ▸ hx)
    simpa [Search.settle, List.nodup_append, h.nodup] using hne
  · intro v hv
    rcases (hmem v).mp hv with hv | rfl
    · exact h.done_mem v hv
    · exact hu
  · intro v hv
    rcases (hmem v).mp hv with hv | rfl
    · exact h.done_lt v hv
    · exact hlt
  · intro v hv hvs hvl
    obtain ⟨p, k, hp, hpd, he, hd, hh, hi⟩ := h.tree v hv hvs hvl
    refine ⟨p, k, hp, (hmem p).mpr (Or.inl hpd), he, hd, hh, ?_⟩
    intro hvd
    change (s.done ++ [u]).idxOf p < (s.done ++ [u]).idxOf v
    rw [List.idxOf_append_of_mem hpd]
    by_cases hv' : v ∈ s.done
    · rw [List.idxOf_append_of_mem hv']
      exact hi hv'
    · rw [List.idxOf_append_of_notMem hv']
      have := List.idxOf_lt_length_of_mem hpd
      omega
  · intro x hx y hy hyd
    have hyd' : y ∉ s.done := fun hm => hyd ((hmem y).mpr (Or.inl hm))
    rcases (hmem x).mp hx with hx | rfl
    · exact h.mono x hx y hy hyd'
    · exact hmin y hy hyd'
  · intro x hx v k he hw
    rcases (hmem x).mp hx with hx | rfl
    · exact h.relaxed x hx v k he id
    · exact absurd rfl hw
  · intro x hx
    rcases (hmem x).mp hx with hx | rfl
    · exact h.mono x hx u hu hnd
    · exact Nat.le_refl _

theorem Inv.relax {W : V → V → ℕ → Prop} {s : Search V} (h : Inv E src U inf W s) {u v : V}
    {k : ℕ} (hu : u ∈ s.done) (hmax : ∀ x ∈ s.done, s.dist x ≤ s.dist u) (he : E u v k) :
    Inv E src U inf (fun x y j => W x y j ∧ (x, y, j) ≠ (u, v, k)) (s.relax u v k) ∧
      (s.relax u v k).done = s.done ∧
      ∀ x ∈ s.done, (s.relax u v k).dist x = s.dist x ∧ (s.relax u v k).hops x = s.hops x := by
  unfold Search.relax
  split
  · next hlt =>
    have hv : v ∉ s.done := fun hm => by
      have := hmax v hm
      omega
    have hvs : v ≠ src := by
      rintro rfl
      rw [h.src_dist] at hlt
      omega
    have hne : ∀ x ∈ s.done, x ≠ v := fun x hx e => hv (e ▸ hx)
    have hdist : ∀ x, x ≠ v → Function.update s.dist v (s.dist u + k) x = s.dist x :=
      fun x hx => Function.update_of_ne hx _ _
    have hhops : ∀ x, x ≠ v → Function.update s.hops v (s.hops u + 1) x = s.hops x :=
      fun x hx => Function.update_of_ne hx _ _
    refine ⟨⟨h.nodup, h.done_mem, ?_, ?_, ?_, ?_, ?_, ?_, ?_⟩, rfl,
      fun x hx => ⟨hdist x (hne x hx), hhops x (hne x hx)⟩⟩
    · intro x hx
      dsimp only
      rw [hdist x (hne x hx)]
      exact h.done_lt x hx
    · dsimp only
      rw [hdist src hvs.symm]
      exact h.src_dist
    · dsimp only
      rw [hhops src hvs.symm]
      exact h.src_hops
    · dsimp only
      rw [Function.update_of_ne hvs.symm]
      exact h.src_pred
    · intro x hx hxs hxl
      dsimp only at hxl ⊢
      by_cases hxv : x = v
      · subst hxv
        refine ⟨u, k, by simp, hu, he, ?_, ?_, fun hm => absurd hm hv⟩
        · rw [hdist u (hne u hu)]
          simp
        · rw [hhops u (hne u hu)]
          simp
      · rw [hdist x hxv] at hxl
        obtain ⟨p, j, hp, hpd, hpe, hd, hh, hi⟩ := h.tree x hx hxs hxl
        refine ⟨p, j, ?_, hpd, hpe, ?_, ?_, hi⟩
        · rw [Function.update_of_ne hxv, hp]
        · rw [hdist x hxv, hdist p (hne p hpd), hd]
        · rw [hhops x hxv, hhops p (hne p hpd), hh]
    · intro x hx y hy hyd
      dsimp only at hyd ⊢
      rw [hdist x (hne x hx)]
      by_cases hyv : y = v
      · subst hyv
        have := hmax x hx
        simp only [Function.update_self]
        omega
      · rw [hdist y hyv]
        exact h.mono x hx y hy hyd
    · intro x hx y j hxe hw
      dsimp only
      rw [hdist x (hne x hx)]
      by_cases hxy : (x, y, j) = (u, v, k)
      · simp only [Prod.mk.injEq] at hxy
        obtain ⟨rfl, rfl, rfl⟩ := hxy
        simp
      · have hle := h.relaxed x hx y j hxe (fun hW => hw ⟨hW, hxy⟩)
        by_cases hyv : y = v
        · subst hyv
          simp only [Function.update_self]
          omega
        · rw [hdist y hyv]
          exact hle
  · next hge =>
    refine ⟨⟨h.nodup, h.done_mem, h.done_lt, h.src_dist, h.src_hops, h.src_pred, h.tree, h.mono,
      ?_⟩, rfl, fun x _ => ⟨rfl, rfl⟩⟩
    intro x hx y j hxe hw
    by_cases hxy : (x, y, j) = (u, v, k)
    · simp only [Prod.mk.injEq] at hxy
      obtain ⟨rfl, rfl, rfl⟩ := hxy
      omega
    · exact h.relaxed x hx y j hxe (fun hW => hw ⟨hW, hxy⟩)

theorem backtrack_spec {W : V → V → ℕ → Prop} {s : Search V} (h : Inv E src U inf W s) (n : ℕ) :
    ∀ v ∈ s.done, s.done.idxOf v ≤ n → ∃ ns, backtrack s.pred (n + 1) v = some ns ∧
      Walk E src ns.reverse v (s.dist v) ∧ ns.length = s.hops v ∧
      ns.Nodup ∧ (∀ x ∈ ns, x ∈ s.done ∧ x ≠ src ∧ s.done.idxOf x ≤ s.done.idxOf v) := by
  induction n with
  | zero =>
    intro v hv hi
    by_cases hvs : v = src
    · subst hvs
      refine ⟨[], by simp [backtrack, h.src_pred], ?_, ?_, List.nodup_nil, by simp⟩
      · rw [h.src_dist]
        exact .nil
      · rw [h.src_hops]
        rfl
    · obtain ⟨u, k, hp, hud, _, _, _, hlt⟩ := h.tree v (h.done_mem v hv) hvs (h.done_lt v hv)
      have := hlt hv
      omega
  | succ n ih =>
    intro v hv hi
    by_cases hvs : v = src
    · subst hvs
      refine ⟨[], by simp [backtrack, h.src_pred], ?_, ?_, List.nodup_nil, by simp⟩
      · rw [h.src_dist]
        exact .nil
      · rw [h.src_hops]
        rfl
    · obtain ⟨u, k, hp, hud, he, hd, hh, hlt⟩ :=
        h.tree v (h.done_mem v hv) hvs (h.done_lt v hv)
      have hlt := hlt hv
      obtain ⟨ns, hb, hw, hl, hn, hm⟩ := ih u hud (by omega)
      have hvu : v ≠ u := by
        rintro rfl
        omega
      refine ⟨v :: ns, ?_, ?_, ?_, ?_, ?_⟩
      · unfold backtrack
        rw [hp]
        simp only [if_neg hvu, hb, Option.map_some]
      · rw [hd, List.reverse_cons]
        exact hw.snoc he
      · rw [hh, List.length_cons, hl]
      · refine List.nodup_cons.mpr ⟨fun hvn => ?_, hn⟩
        have := (hm v hvn).2.2
        omega
      · intro x hx
        rcases List.mem_cons.mp hx with rfl | hx
        · exact ⟨hv, hvs, Nat.le_refl _⟩
        · obtain ⟨h1, h2, h3⟩ := hm x hx
          exact ⟨h1, h2, by omega⟩

theorem Inv.weaken {W W' : V → V → ℕ → Prop} {s : Search V} (h : Inv E src U inf W s)
    (hW : ∀ x y j, E x y j → W x y j → W' x y j) : Inv E src U inf W' s :=
  ⟨h.nodup, h.done_mem, h.done_lt, h.src_dist, h.src_hops, h.src_pred, h.tree, h.mono,
    fun u hu v k he hw => h.relaxed u hu v k he fun hw' => hw (hW u v k he hw')⟩

theorem Inv.tree_walk {W : V → V → ℕ → Prop} {s : Search V} (h : Inv E src U inf W s) {v : V}
    (hv : v ∈ s.done) : ∃ ns : List V, Walk E src ns.reverse v (s.dist v) ∧
      (src :: ns.reverse).Nodup ∧ ns.length = s.hops v ∧ ∀ x ∈ ns, x ∈ s.done := by
  obtain ⟨ns, _, hw, hl, hn, hm⟩ := backtrack_spec h _ v hv (Nat.le_refl _)
  refine ⟨ns, hw, ?_, hl, fun x hx => (hm x hx).1⟩
  rw [List.nodup_cons, List.mem_reverse, List.nodup_reverse]
  exact ⟨fun hs => (hm src hs).2.1 rfl, hn⟩

theorem Inv.dist_lt {W : V → V → ℕ → Prop} {s : Search V} (h : Inv E src U inf W s)
    (hb : CostBound E src inf) {u : V} (hu : u ∈ s.done) {a b : V} {k : ℕ} (he : E a b k) :
    s.dist u + k < inf := by
  obtain ⟨ns, hw, hn, _, _⟩ := h.tree_walk hu
  exact hb _ _ _ hw hn a b k he

theorem Inv.hops_le {W : V → V → ℕ → Prop} {s : Search V} (h : Inv E src U inf W s) {u : V}
    (hu : u ∈ s.done) : s.hops u ≤ s.done.length := by
  obtain ⟨ns, _, hn, hl, hm⟩ := h.tree_walk hu
  rw [← hl]
  have hns : ns.Nodup := List.nodup_reverse.mp (List.nodup_cons.mp hn).2
  exact (List.subperm_of_subset hns hm).length_le

theorem Inv.dist_le_walk {s : Search V} (h : Inv E src U inf (fun _ _ _ => False) s)
    (hend : ∀ v, U v → v ∉ s.done → inf ≤ s.dist v) (hsrc : U src) (hinf : 0 < inf)
    (hbound : CostBound E src inf) {p : List V} {v : V} {c : ℕ} (hw : Walk E src p v c)
    (hp : ∀ x ∈ p, U x) : v ∈ s.done ∧ s.dist v ≤ c := by
  induction hw with
  | nil =>
    refine ⟨?_, by simp [h.src_dist]⟩
    by_contra hn
    have := hend src hsrc hn
    rw [h.src_dist] at this
    omega
  | @snoc p v w c k _ he ih =>
    have ih := ih fun x hx => hp x (List.mem_append_left _ hx)
    have hr := h.relaxed v ih.1 w k he id
    have hb := h.dist_lt hbound ih.1 he
    refine ⟨?_, by omega⟩
    by_contra hn
    have := hend w (hp w (List.mem_append_right _ (List.mem_singleton_self w))) hn
    omega

end Search

end Graph
