import DsrUu.Graph.Search
import DsrUu.LinkCache.Invariant

namespace DsrUu

open Graph

namespace LcGraph

def edge (lc : LcGraph) (u v : NodeRef) (k : ℕ) : Prop :=
  ∃ l ∈ lc.links.head, l.src = u ∧ l.dst = v ∧ l.cost = k

def search (lc : LcGraph) (done : List NodeRef) : Search NodeRef :=
  { done := done
    dist := fun r => (lc.heap r).cost
    hops := fun r => (lc.heap r).hops
    pred := fun r => (lc.heap r).pred }

end LcGraph

structure SameShape (lc lc' : LcGraph) : Prop where
  nodes : lc'.nodes = lc.nodes
  links : lc'.links = lc.links
  brk : lc'.brk = lc.brk
  addr : ∀ r, lc'.addr r = lc.addr r
  count : ∀ r, (lc'.heap r).links = (lc.heap r).links

theorem SameShape.refl (lc : LcGraph) : SameShape lc lc :=
  ⟨rfl, rfl, rfl, fun _ => rfl, fun _ => rfl⟩

theorem SameShape.trans {lc₁ lc₂ lc₃ : LcGraph} (h : SameShape lc₁ lc₂) (h' : SameShape lc₂ lc₃) :
    SameShape lc₁ lc₃ :=
  ⟨h'.nodes.trans h.nodes, h'.links.trans h.links, h'.brk.trans h.brk,
    fun r => (h'.addr r).trans (h.addr r), fun r => (h'.count r).trans (h.count r)⟩

theorem SameShape.updNode {lc : LcGraph} {r : NodeRef} {f : LcNode → LcNode}
    (ha : ∀ n, (f n).addr = n.addr) (hl : ∀ n, (f n).links = n.links) :
    SameShape lc (lc.updNode r f) := by
  refine ⟨rfl, rfl, rfl, updNode_addr ha, fun x => ?_⟩
  by_cases hx : x = r
  · subst hx
    simp [hl]
  · rw [updNode_heap_ne hx]

theorem doRelax_shape (u : NodeRef) (lc : LcGraph) (link : LcLink) :
    SameShape lc (doRelax u lc link) := by
  unfold doRelax
  split
  · dsimp only
    split
    · exact SameShape.updNode (fun _ => rfl) (fun _ => rfl)
    · exact SameShape.refl lc
  · exact SameShape.refl lc

theorem doInit_shape (src : InAddr) (lc : LcGraph) (n : NodeRef) :
    SameShape lc (doInit src lc n) := by
  unfold doInit
  split <;> exact SameShape.updNode (fun _ => rfl) (fun _ => rfl)

theorem foldl_shape {β : Type} {f : LcGraph → β → LcGraph} (hf : ∀ lc x, SameShape lc (f lc x))
    (xs : List β) : ∀ lc, SameShape lc (xs.foldl f lc) := by
  induction xs with
  | nil => exact SameShape.refl
  | cons x xs ih => exact fun lc => (hf lc x).trans (ih (f lc x))

theorem search_updNode (lc : LcGraph) (done : List NodeRef) (v : NodeRef) (f : LcNode → LcNode) :
    (lc.updNode v f).search done =
      { done := done
        dist := Function.update (lc.search done).dist v (f (lc.heap v)).cost
        hops := Function.update (lc.search done).hops v (f (lc.heap v)).hops
        pred := Function.update (lc.search done).pred v (f (lc.heap v)).pred } := by
  have hupd (γ : Type) (g : LcNode → γ) :
      (fun r => g ((lc.updNode v f).heap r)) =
        Function.update (fun r => g (lc.heap r)) v (g (f (lc.heap v))) := by
    funext r
    by_cases hr : r = v
    · subst hr
      simp
    · simp [updNode_heap_ne hr, Function.update_of_ne hr]
  simp only [LcGraph.search, hupd]

theorem doRelax_search {lc : LcGraph} {u : NodeRef} {link : LcLink} (done : List NodeRef)
    (hc : (lc.heap u).cost + link.cost < lcCostInf) (hh : (lc.heap u).hops < lcHopsInf) :
    (doRelax u lc link).search done =
      if link.src = u then (lc.search done).relax u link.dst link.cost else lc.search done := by
  have hmod : ((lc.heap u).cost + link.cost) % 4294967296 = (lc.heap u).cost + link.cost := by
    unfold lcCostInf at hc
    omega
  have hinc : incUint32 (lc.heap u).hops = (lc.heap u).hops + 1 := incUint32_of_lt hh
  unfold doRelax Search.relax
  split
  · simp only [hmod, hinc]
    split
    · next hlt =>
      rw [if_pos (by exact hlt), search_updNode]
      rfl
    · next hge => rw [if_neg (by exact hge)]
  · rfl

theorem relax_fold {lc₀ : LcGraph} {sn u : NodeRef} {U : NodeRef → Prop} {done : List NodeRef}
    (hu : u ∈ done) (hlen : done.length ≤ lcNodesMax)
    (hb : Search.CostBound lc₀.edge sn lcCostInf) (ls : List LcLink) :
    ∀ lc : LcGraph, (∀ l ∈ ls, l ∈ lc₀.links.head) →
      Search.Inv lc₀.edge sn U lcCostInf
        (fun x y j => x = u ∧ ∃ l ∈ ls, l.src = x ∧ l.dst = y ∧ l.cost = j) (lc.search done) →
      (∀ x ∈ done, (lc.heap x).cost ≤ (lc.heap u).cost) →
      (∀ v, U v → (lc.heap v).cost ≤ lcCostInf) →
      Search.Inv lc₀.edge sn U lcCostInf (fun _ _ _ => False)
          ((ls.foldl (doRelax u) lc).search done) ∧
        ∀ v, U v → ((ls.foldl (doRelax u) lc).heap v).cost ≤ lcCostInf := by
  induction ls with
  | nil =>
    intro lc _ hi _ hle
    exact ⟨hi.weaken fun x y j _ hw => by simp at hw, hle⟩
  | cons l ls ih =>
    intro lc hsub hi hmax hle
    have hl : l ∈ lc₀.links.head := hsub l (by simp)
    have hsub' : ∀ l' ∈ ls, l' ∈ lc₀.links.head := fun l' h => hsub l' (by simp [h])
    have hedge : lc₀.edge l.src l.dst l.cost := ⟨l, hl, rfl, rfl, rfl⟩
    have hcost : (lc.heap u).cost + l.cost < lcCostInf := hi.dist_lt hb hu hedge
    have hhops : (lc.heap u).hops < lcHopsInf := by
      have h1 : (lc.heap u).hops ≤ done.length := hi.hops_le hu
      unfold lcNodesMax at hlen
      unfold lcHopsInf
      omega
    have hs := doRelax_search done hcost hhops
    have hdist : ∀ x, ((doRelax u lc l).heap x).cost = ((doRelax u lc l).search done).dist x :=
      fun _ => rfl
    by_cases hlu : l.src = u
    · rw [if_pos hlu] at hs
      rw [hlu] at hedge
      obtain ⟨hi', _, hsame⟩ := hi.relax hu hmax hedge
      rw [← hs] at hi' hsame
      have hcosts : ∀ x ∈ done, ((doRelax u lc l).heap x).cost = (lc.heap x).cost :=
        fun x hx => (hsame x hx).1
      refine ih (doRelax u lc l) hsub' (hi'.weaken ?_) ?_ ?_
      · rintro x y j _ ⟨⟨hx, l', hl', h1, h2, h3⟩, hne⟩
        refine ⟨hx, l', ?_, h1, h2, h3⟩
        rcases List.mem_cons.mp hl' with rfl | hl'
        · exact absurd (by rw [← h1, ← h2, ← h3, hlu]) hne
        · exact hl'
      · intro x hx
        rw [hcosts x hx, hcosts u hu]
        exact hmax x hx
      · intro v hv
        rw [hdist, hs]
        unfold Search.relax
        split
        · by_cases hvd : v = l.dst
          · subst hvd
            simp only [Function.update_self]
            exact Nat.le_of_lt hcost
          · simp only [Function.update_of_ne hvd]
            exact hle v hv
        · exact hle v hv
    · have hsame : doRelax u lc l = lc := by simp [doRelax, hlu]
      simp only [List.foldl_cons, hsame]
      refine ih lc hsub' (hi.weaken ?_) hmax hle
      rintro x y j _ ⟨hx, l', hl', h1, h2, h3⟩
      refine ⟨hx, l', ?_, h1, h2, h3⟩
      rcases List.mem_cons.mp hl' with rfl | hl'
      · exact absurd (h1.trans hx) hlu
      · exact hl'

theorem lowest_fold (lc : LcGraph) (ns : List NodeRef) : ∀ cn,
    match ns.foldl (doLowestCost lc) cn with
    | none => cn = none ∧ ∀ n ∈ ns, (lc.heap n).cost = lcCostInf
    | some u => (u ∈ ns ∧ (lc.heap u).cost ≠ lcCostInf ∨ cn = some u) ∧
        (∀ n ∈ ns, (lc.heap n).cost ≠ lcCostInf → (lc.heap u).cost ≤ (lc.heap n).cost) ∧
        (∀ m, cn = some m → (lc.heap u).cost ≤ (lc.heap m).cost) := by
  induction ns with
  | nil =>
    intro cn
    cases cn <;> simp
  | cons n ns ih =>
    intro cn
    have h := ih (doLowestCost lc cn n)
    rw [List.foldl_cons]
    generalize hr : ns.foldl (doLowestCost lc) (doLowestCost lc cn n) = r at h
    unfold doLowestCost at h
    by_cases hn : (lc.heap n).cost = lcCostInf
    · rw [if_neg (not_not.mpr hn)] at h
      cases r with
      | none => exact ⟨h.1, by simpa [hn] using h.2⟩
      | some u =>
        refine ⟨h.1.imp (fun hu => ⟨by simp [hu.1], hu.2⟩) id, ?_, h.2.2⟩
        intro m hm hne
        rcases List.mem_cons.mp hm with rfl | hm
        · exact absurd hn hne
        · exact h.2.1 m hm hne
    · rw [if_pos hn] at h
      cases cn with
      | none =>
        cases r with
        | none => simp at h
        | some u =>
          have hun := h.2.2 n rfl
          refine ⟨Or.inl ?_, ?_, by simp⟩
          · rcases h.1 with hu | hu
            · exact ⟨by simp [hu.1], hu.2⟩
            · cases hu
              exact ⟨by simp, hn⟩
          · intro m hm hne
            rcases List.mem_cons.mp hm with rfl | hm
            · exact hun
            · exact h.2.1 m hm hne
      | some m =>
        dsimp only at h
        by_cases hlt : (lc.heap n).cost < (lc.heap m).cost
        · rw [if_pos hlt] at h
          cases r with
          | none => simp at h
          | some u =>
            have hun := h.2.2 n rfl
            refine ⟨Or.inl ?_, ?_, ?_⟩
            · rcases h.1 with hu | hu
              · exact ⟨by simp [hu.1], hu.2⟩
              · cases hu
                exact ⟨by simp, hn⟩
            · intro x hx hne
              rcases List.mem_cons.mp hx with rfl | hx
              · exact hun
              · exact h.2.1 x hx hne
            · intro x hx
              cases hx
              omega
        · rw [if_neg hlt] at h
          cases r with
          | none => simp at h
          | some u =>
            have hum := h.2.2 m rfl
            refine ⟨h.1.imp (fun hu => ⟨by simp [hu.1], hu.2⟩) id, ?_, ?_⟩
            · intro x hx hne
              rcases List.mem_cons.mp hx with rfl | hx
              · omega
              · exact h.2.1 x hx hne
            · intro x hx
              cases hx
              exact hum

theorem findLowest_none {lc : LcGraph} (h : dijkstraFindLowestCostNode lc = none) :
    ∀ n ∈ lc.nodes.head, (lc.heap n).cost = lcCostInf := by
  have hf := lowest_fold lc lc.nodes.head none
  unfold dijkstraFindLowestCostNode at h
  rw [h] at hf
  exact hf.2

theorem findLowest_some {lc : LcGraph} {u : NodeRef} (h : dijkstraFindLowestCostNode lc = some u) :
    u ∈ lc.nodes.head ∧ (lc.heap u).cost ≠ lcCostInf ∧
      ∀ n ∈ lc.nodes.head, (lc.heap n).cost ≠ lcCostInf → (lc.heap u).cost ≤ (lc.heap n).cost := by
  have hf := lowest_fold lc lc.nodes.head none
  unfold dijkstraFindLowestCostNode at h
  rw [h] at hf
  rcases hf.1 with hu | hu
  · exact ⟨hu.1, hu.2, hf.2.1⟩
  · cases hu

structure SameGraph (lc lc' : LcGraph) : Prop where
  nodes : lc'.nodes.head.Perm lc.nodes.head
  len : lc'.nodes.len = lc.nodes.len
  maxLen : lc'.nodes.maxLen = lc.nodes.maxLen
  links : lc'.links = lc.links
  brk : lc'.brk = lc.brk
  addr : ∀ r, lc'.addr r = lc.addr r
  count : ∀ r, (lc'.heap r).links = (lc.heap r).links

theorem SameShape.graph {lc lc' : LcGraph} (h : SameShape lc lc') : SameGraph lc lc' :=
  ⟨by rw [h.nodes], by rw [h.nodes], by rw [h.nodes], h.links, h.brk, h.addr, h.count⟩

theorem SameGraph.base {lc lc' : LcGraph} (h : SameGraph lc lc') (hb : LcBase lc) :
    LcBase lc' := by
  have hw : lc.nodes.len = lc.nodes.head.length := hb.nodes_wf
  refine ⟨?_, h.links ▸ hb.links_wf, h.maxLen.trans hb.nodes_max, h.links ▸ hb.links_max,
    h.len ▸ hb.nodes_le, h.links ▸ hb.links_le, h.nodes.nodup_iff.mpr hb.nodes_nodup, ?_, ?_⟩
  · rw [Tbl.WF, h.len, hw, h.nodes.length_eq]
  · intro r hr
    rw [h.brk]
    exact hb.nodes_lt r (h.nodes.mem_iff.mp hr)
  · intro r hr r' hr' he
    rw [h.addr, h.addr] at he
    exact hb.addr_inj r (h.nodes.mem_iff.mp hr) r' (h.nodes.mem_iff.mp hr') he

theorem SameGraph.inv {lc lc' : LcGraph} (h : SameGraph lc lc') (hi : LcInv lc) : LcInv lc' := by
  obtain ⟨hr, hl⟩ := hi
  refine ⟨⟨h.base hr.toLcBase, h.links ▸ hr.refs_nodup, ?_, ?_⟩, ?_⟩
  · intro r hm
    rw [h.count, h.links]
    exact hr.count r (h.nodes.mem_iff.mp hm)
  · intro r hm
    rw [h.links]
    exact hr.gone r fun hn => hm (h.nodes.mem_iff.mpr hn)
  · intro r hm
    rw [h.count]
    exact hl r (h.nodes.mem_iff.mp hm)

structure LoopShape (lc₀ lc : LcGraph) (s : Tbl NodeRef) : Prop where
  perm : (lc.nodes.head ++ s.head).Perm lc₀.nodes.head
  nodes_wf : lc.nodes.WF
  nodes_max : lc.nodes.maxLen = lcNodesMax
  s_wf : s.WF
  s_max : s.maxLen = lcNodesMax
  links : lc.links = lc₀.links
  brk : lc.brk = lc₀.brk
  addr : ∀ r, lc.addr r = lc₀.addr r
  count : ∀ r, (lc.heap r).links = (lc₀.heap r).links

structure LoopInv (lc₀ : LcGraph) (sn : NodeRef) (lc : LcGraph) (s : Tbl NodeRef) : Prop
    extends LoopShape lc₀ lc s where
  inv : Search.Inv lc₀.edge sn (· ∈ lc₀.nodes.head) lcCostInf (fun _ _ _ => False)
    (lc.search s.head)
  cost_le : ∀ v ∈ lc₀.nodes.head, (lc.heap v).cost ≤ lcCostInf

theorem LoopShape.step {lc₀ lc : LcGraph} {s : Tbl NodeRef} (h : LoopShape lc₀ lc s)
    (hbase : LcBase lc₀) {u : NodeRef} (hu : u ∈ lc.nodes.head) :
    ∃ t, lc.nodes.detach u = some t ∧ t.head.length + 1 = lc.nodes.head.length ∧
      (s.addTail u).getD s = { s with head := s.head ++ [u], len := s.len + 1 } ∧
      LoopShape lc₀ (lc.links.head.foldl (doRelax u) { lc with nodes := t })
        ((s.addTail u).getD s) := by
  have hlen := h.perm.length_eq
  rw [List.length_append] at hlen
  have hlen₀ := hbase.nodes_length
  have hpos := List.length_pos_of_mem hu
  have hsw : s.len = s.head.length := h.s_wf
  have hslt : s.len < s.maxLen := by
    rw [h.s_max]
    omega
  have hadd := Tbl.addTail_of_lt (t := s) u hslt
  rw [hadd, Option.getD_some]
  have hshape := foldl_shape (doRelax_shape u) lc.links.head { lc with
    nodes := { lc.nodes with head := lc.nodes.head.erase u, len := lc.nodes.len - 1 } }
  refine ⟨_, Tbl.detach_of_mem hu, ?_, rfl, ?_, ?_, ?_, ?_, h.s_max, hshape.links.trans h.links,
    hshape.brk.trans h.brk, fun r => (hshape.addr r).trans (h.addr r),
    fun r => (hshape.count r).trans (h.count r)⟩
  · simp only [List.length_erase_of_mem hu]
    omega
  · rw [hshape.nodes]
    refine List.Perm.trans ?_ h.perm
    change (lc.nodes.head.erase u ++ (s.head ++ [u])).Perm _
    rw [← List.append_assoc]
    refine (List.perm_append_singleton u _).trans ?_
    exact (List.perm_cons_erase hu).symm.append_right s.head
  · rw [hshape.nodes]
    have hw : lc.nodes.len = lc.nodes.head.length := h.nodes_wf
    change lc.nodes.len - 1 = (lc.nodes.head.erase u).length
    rw [List.length_erase_of_mem hu, hw]
  · rw [hshape.nodes]
    exact h.nodes_max
  · change s.len + 1 = (s.head ++ [u]).length
    simp [hsw]

theorem LoopInv.step {lc₀ : LcGraph} (hbase : LcBase lc₀) {sn : NodeRef}
    (hb : Search.CostBound lc₀.edge sn lcCostInf) {lc : LcGraph} {s : Tbl NodeRef}
    (h : LoopInv lc₀ sn lc s) {u : NodeRef} (hu : dijkstraFindLowestCostNode lc = some u) :
    ∃ t, lc.nodes.detach u = some t ∧ t.head.length + 1 = lc.nodes.head.length ∧
      LoopInv lc₀ sn (lc.links.head.foldl (doRelax u) { lc with nodes := t })
        ((s.addTail u).getD s) := by
  obtain ⟨hum, huc, hmin⟩ := findLowest_some hu
  obtain ⟨t, hd, hl, hs, hshape⟩ := h.toLoopShape.step hbase hum
  refine ⟨t, hd, hl, ?_⟩
  have hperm := hshape.perm.length_eq
  rw [hs, List.length_append] at hperm
  dsimp only at hperm
  have hlen₀ := hbase.nodes_length
  have hdisj := List.nodup_append.mp (h.perm.nodup_iff.mpr hbase.nodes_nodup)
  have hus : u ∉ s.head := fun hm => hdisj.2.2 u hum u hm rfl
  have hmem : ∀ x, x ∈ lc₀.nodes.head ↔ x ∈ lc.nodes.head ∨ x ∈ s.head := fun x => by
    rw [← h.perm.mem_iff, List.mem_append]
  have hcu : (lc.heap u).cost ≤ lcCostInf := h.cost_le u ((hmem u).mpr (Or.inl hum))
  have hset := h.inv.settle (u := u) ((hmem u).mpr (Or.inl hum)) hus
    (show (lc.heap u).cost < lcCostInf by omega) (by
      intro y hy hys
      rcases (hmem y).mp hy with hy | hy
      · by_cases hyc : (lc.heap y).cost = lcCostInf
        · change (lc.heap u).cost ≤ (lc.heap y).cost
          omega
        · exact hmin y hy hyc
      · exact absurd hy hys)
  have hfold := @relax_fold lc₀ sn u (· ∈ lc₀.nodes.head) (s.head ++ [u])
    (by simp) (by omega) hb lc.links.head { lc with nodes := t }
    (by rw [h.links]; exact fun l hl => hl)
    (hset.1.weaken (by
      rintro x y j ⟨l, hl, h1, h2, h3⟩ hx
      exact ⟨hx, l, by rwa [h.links], h1, h2, h3⟩))
    hset.2 h.cost_le
  refine ⟨hshape, ?_, hfold.2⟩
  rw [hs]
  exact hfold.1

theorem dijkstraLoop_shape {lc₀ : LcGraph} (hbase : LcBase lc₀) (fuel : ℕ) :
    ∀ (lc : LcGraph) (s : Tbl NodeRef), LoopShape lc₀ lc s →
      ∃ lc' s', dijkstraLoop fuel lc s = some (lc', s') ∧ LoopShape lc₀ lc' s' := by
  induction fuel with
  | zero =>
    intro lc s h
    exact ⟨lc, s, rfl, h⟩
  | succ fuel ih =>
    intro lc s h
    unfold dijkstraLoop
    cases hu : dijkstraFindLowestCostNode lc with
    | none => exact ⟨lc, s, rfl, h⟩
    | some u =>
      obtain ⟨t, hd, _, _, hi⟩ := h.step hbase (findLowest_some hu).1
      simp only [hd, Option.bind_eq_bind, Option.bind_some]
      exact ih _ _ hi

theorem dijkstraLoop_spec {lc₀ : LcGraph} (hbase : LcBase lc₀) {sn : NodeRef}
    (hb : Search.CostBound lc₀.edge sn lcCostInf) (fuel : ℕ) :
    ∀ (lc : LcGraph) (s : Tbl NodeRef), lc.nodes.head.length ≤ fuel → LoopInv lc₀ sn lc s →
      ∃ lc' s', dijkstraLoop fuel lc s = some (lc', s') ∧ LoopInv lc₀ sn lc' s' ∧
        ∀ v ∈ lc'.nodes.head, (lc'.heap v).cost = lcCostInf := by
  induction fuel with
  | zero =>
    intro lc s hf h
    have hnil : lc.nodes.head = [] := List.length_eq_zero_iff.mp (by omega)
    exact ⟨lc, s, rfl, h, by simp [hnil]⟩
  | succ fuel ih =>
    intro lc s hf h
    unfold dijkstraLoop
    cases hu : dijkstraFindLowestCostNode lc with
    | none => exact ⟨lc, s, rfl, h, findLowest_none hu⟩
    | some u =>
      obtain ⟨t, hd, hl, hi⟩ := h.step hbase hb hu
      have hshape := foldl_shape (doRelax_shape u) lc.links.head { lc with nodes := t }
      simp only [hd, Option.bind_eq_bind, Option.bind_some]
      refine ih _ _ ?_ hi
      rw [hshape.nodes]
      simp only
      omega

theorem lcMove_spec (ns : List NodeRef) : ∀ t : Tbl NodeRef, t.WF →
    t.head.length + ns.length ≤ t.maxLen →
    lcMove ns t = { t with head := t.head ++ ns, len := t.len + ns.length } := by
  induction ns with
  | nil =>
    intro t _ _
    simp [lcMove]
  | cons n ns ih =>
    intro t hw hl
    rw [List.length_cons] at hl
    have hw' : t.len = t.head.length := hw
    have hadd := Tbl.addTail_of_lt (t := t) n (by omega)
    rw [lcMove, hadd, Option.getD_some, ih]
    · simp [Nat.add_assoc, Nat.add_comm 1]
    · simp [Tbl.WF, hw']
    · simp
      omega

def initNode (src : InAddr) (r : NodeRef) (n : LcNode) : LcNode :=
  if n.addr = src then { n with cost := 0, hops := 0, pred := some r }
  else { n with cost := lcCostInf, hops := lcHopsInf, pred := none }

theorem doInit_heap (src : InAddr) (lc : LcGraph) (n x : NodeRef) :
    (doInit src lc n).heap x = if x = n then initNode src n (lc.heap n) else lc.heap x := by
  unfold doInit initNode LcGraph.addr
  by_cases hx : x = n
  · subst hx
    split <;> simp
  · rw [if_neg hx]
    split <;> rw [updNode_heap_ne hx]

theorem initNode_idem (src : InAddr) (r : NodeRef) (n : LcNode) :
    initNode src r (initNode src r n) = initNode src r n := by
  unfold initNode
  split <;> simp_all

theorem init_fold (src : InAddr) (ns : List NodeRef) : ∀ (lc : LcGraph) (r : NodeRef),
    (ns.foldl (doInit src) lc).heap r =
      if r ∈ ns then initNode src r (lc.heap r) else lc.heap r := by
  induction ns with
  | nil =>
    intro lc r
    simp
  | cons n ns ih =>
    intro lc r
    rw [List.foldl_cons, ih, doInit_heap]
    by_cases hrn : r = n
    · subst hrn
      simp [initNode_idem]
    · simp [hrn]

theorem initSingleSource_heap (src : InAddr) {lc : LcGraph} {r : NodeRef}
    (hr : r ∈ lc.nodes.head) :
    (dijkstraInitSingleSource src lc).heap r = initNode src r (lc.heap r) := by
  unfold dijkstraInitSingleSource
  rw [init_fold, if_pos hr]

theorem initSingleSource_shape (src : InAddr) (lc : LcGraph) :
    SameShape lc (dijkstraInitSingleSource src lc) :=
  foldl_shape (doInit_shape src) lc.nodes.head lc

theorem SameShape.loop {lc lc' : LcGraph} (h : SameShape lc lc') (hb : LcBase lc) :
    LoopShape lc lc' (Tbl.init lcNodesMax) := by
  refine ⟨?_, ?_, ?_, rfl, rfl, h.links, h.brk, h.addr, h.count⟩
  · rw [h.nodes]
    simp [Tbl.init]
  · rw [h.nodes]
    exact hb.nodes_wf
  · rw [h.nodes]
    exact hb.nodes_max

theorem LoopShape.move {lc₀ lc : LcGraph} {s : Tbl NodeRef} (h : LoopShape lc₀ lc s)
    (hb : LcBase lc₀) (src : Option NodeRef) :
    SameGraph lc₀ { lc with nodes := lcMove s.head lc.nodes, src := src } := by
  have hlen := h.perm.length_eq
  have hlen₀ := hb.nodes_length
  rw [List.length_append] at hlen
  have hw : lc.nodes.len = lc.nodes.head.length := h.nodes_wf
  have hw₀ : lc₀.nodes.len = lc₀.nodes.head.length := hb.nodes_wf
  have hm := lcMove_spec s.head lc.nodes h.nodes_wf (by rw [h.nodes_max]; omega)
  refine ⟨?_, ?_, ?_, h.links, h.brk, h.addr, h.count⟩
  · rw [hm]
    exact h.perm
  · rw [hm]
    simp only
    omega
  · rw [hm]
    exact h.nodes_max.trans hb.nodes_max.symm

theorem dijkstra_graph {lc : LcGraph} (hb : LcBase lc) (src : InAddr) :
    ∃ lc', dijkstra src lc = some lc' ∧ SameGraph lc lc' := by
  have hs := initSingleSource_shape src lc
  unfold dijkstra
  split
  · exact ⟨lc, rfl, (SameShape.refl lc).graph⟩
  · dsimp only
    split
    · exact ⟨_, rfl, hs.graph⟩
    · obtain ⟨lc', s', he, hl⟩ := dijkstraLoop_shape hb _ _ _ (hs.loop hb)
      rw [he]
      exact ⟨_, rfl, hl.move hb _⟩

structure Settled (lc : LcGraph) (sn : NodeRef) (lc' : LcGraph) (done : List NodeRef) : Prop where
  graph : SameGraph lc lc'
  inv : Search.Inv lc.edge sn (· ∈ lc.nodes.head) lcCostInf (fun _ _ _ => False) (lc'.search done)
  rest : ∀ v ∈ lc.nodes.head, v ∉ done → (lc'.heap v).cost = lcCostInf

theorem dijkstra_settled {lc : LcGraph} (hb : LcBase lc) {sn : NodeRef}
    (hsn : sn ∈ lc.nodes.head) (hc : Search.CostBound lc.edge sn lcCostInf) :
    ∃ lc' done, dijkstra (lc.addr sn) lc = some lc' ∧ Settled lc sn lc' done := by
  have hs := initSingleSource_shape (lc.addr sn) lc
  have hheap : ∀ r ∈ lc.nodes.head, (dijkstraInitSingleSource (lc.addr sn) lc).heap r =
      initNode (lc.addr sn) r (lc.heap r) := fun r hr => initSingleSource_heap (lc.addr sn) hr
  have hself : (dijkstraInitSingleSource (lc.addr sn) lc).heap sn =
      { lc.heap sn with cost := 0, hops := 0, pred := some sn } := by
    rw [hheap sn hsn, initNode, LcGraph.addr, if_pos rfl]
  have hother : ∀ r ∈ lc.nodes.head, r ≠ sn →
      (dijkstraInitSingleSource (lc.addr sn) lc).heap r =
        { lc.heap r with cost := lcCostInf, hops := lcHopsInf, pred := none } := by
    intro r hr hne
    rw [hheap r hr, initNode, if_neg]
    exact fun he => hne (hb.addr_inj r hr sn hsn he)
  have hloop : LoopInv lc sn (dijkstraInitSingleSource (lc.addr sn) lc) (Tbl.init lcNodesMax) := by
    refine ⟨hs.loop hb, ⟨List.nodup_nil, ?_, ?_, ?_, ?_, ?_, ?_, ?_, ?_⟩, ?_⟩
    · intro v hv
      cases hv
    · intro v hv
      cases hv
    · simp only [LcGraph.search, hself]
    · simp only [LcGraph.search, hself]
    · simp only [LcGraph.search, hself]
    · intro v hv hvs hlt
      simp only [LcGraph.search, hother v hv hvs] at hlt
      exact absurd hlt (Nat.lt_irrefl _)
    · intro x hx
      cases hx
    · intro x hx
      cases hx
    · intro v hv
      by_cases hvs : v = sn
      · subst hvs
        rw [hself]
        exact Nat.zero_le _
      · rw [hother v hv hvs]
  obtain ⟨lc', s', he, hl, hend⟩ :=
    dijkstraLoop_spec hb hc _ _ _ (Nat.le_refl _) hloop
  have hfind : ((dijkstraInitSingleSource (lc.addr sn) lc).nodes.find
      (critAddr (dijkstraInitSingleSource (lc.addr sn) lc) (lc.addr sn))).isSome := by
    rw [Tbl.find, List.find?_isSome]
    exact ⟨sn, by rwa [hs.nodes], by simp [critAddr, hs.addr]⟩
  obtain ⟨srcNode, hsrc⟩ := Option.isSome_iff_exists.mp hfind
  refine ⟨{ lc' with nodes := lcMove s'.head lc'.nodes, src := some srcNode }, s'.head, ?_,
    hl.toLoopShape.move hb _, hl.inv, ?_⟩
  · unfold dijkstra
    rw [if_neg (List.ne_nil_of_mem hsn)]
    simp only [hsrc, he]
    rfl
  · intro v hv hvd
    rcases List.mem_append.mp (hl.perm.mem_iff.mpr hv) with hm | hm
    · exact hend v hm
    · exact absurd hm hvd

end DsrUu
