import DsrUu.LinkCache.ShortestPath

namespace DsrUu

open Graph

def LcGraph.relist (lc : LcGraph) (t : Tbl NodeRef) (src : Option NodeRef) : LcGraph :=
  { lc with nodes := t, src := src }

section Relax

variable {u : NodeRef} {lc : LcGraph}

theorem doRelax_relist (lc : LcGraph) (t : Tbl NodeRef) (x : Option NodeRef) (l : LcLink) :
    doRelax u (lc.relist t x) l = (doRelax u lc l).relist t x := by
  unfold doRelax
  split
  · dsimp only
    split
    · next hc =>
      have hc' : ((lc.heap u).cost + l.cost) % 4294967296 < (lc.heap l.dst).cost := hc
      rw [if_pos hc']
      rfl
    · next hc =>
      have hc' : ¬ ((lc.heap u).cost + l.cost) % 4294967296 < (lc.heap l.dst).cost := hc
      rw [if_neg hc']
  · rfl

theorem relax_relist (ls : List LcLink) : ∀ (lc : LcGraph) (t : Tbl NodeRef) (x : Option NodeRef),
    ls.foldl (doRelax u) (lc.relist t x) = (ls.foldl (doRelax u) lc).relist t x := by
  induction ls with
  | nil =>
    intro lc t x
    rfl
  | cons l ls ih =>
    intro lc t x
    rw [List.foldl_cons, doRelax_relist, ih, List.foldl_cons]

theorem doRelax_cost_le (lc : LcGraph) (l : LcLink) (r : NodeRef) :
    ((doRelax u lc l).heap r).cost ≤ (lc.heap r).cost := by
  unfold doRelax
  split
  · dsimp only
    split
    · next hc =>
      by_cases hr : r = l.dst
      · subst hr
        simpa using Nat.le_of_lt hc
      · rw [updNode_heap_ne hr]
    · exact Nat.le_refl _
  · exact Nat.le_refl _

theorem relax_cost_le (ls : List LcLink) (r : NodeRef) : ∀ lc : LcGraph,
    ((ls.foldl (doRelax u) lc).heap r).cost ≤ (lc.heap r).cost := by
  induction ls with
  | nil =>
    intro lc
    exact Nat.le_refl _
  | cons l ls ih =>
    intro lc
    exact Nat.le_trans (ih (doRelax u lc l)) (doRelax_cost_le lc l r)

theorem relax_off {ls : List LcLink} {r : NodeRef} (h : ∀ l ∈ ls, l.dst ≠ r) : ∀ lc : LcGraph,
    (ls.foldl (doRelax u) lc).heap r = lc.heap r := by
  induction ls with
  | nil =>
    intro lc
    rfl
  | cons l ls ih =>
    obtain ⟨hl, hls⟩ := List.forall_mem_cons.mp h
    intro lc
    rw [List.foldl_cons, ih hls]
    unfold doRelax
    split
    · dsimp only
      split
      · exact updNode_heap_ne (Ne.symm hl)
      · rfl
    · rfl

end Relax

section Lowest

variable {lc : LcGraph} {u : NodeRef}

theorem lowest_skip {us : List NodeRef} (h : ∀ v ∈ us, (lc.heap v).cost = lcCostInf) :
    us.foldl (doLowestCost lc) none = none := by
  induction us with
  | nil => rfl
  | cons v us ih =>
    obtain ⟨hv, hus⟩ := List.forall_mem_cons.mp h
    rw [List.foldl_cons, doLowestCost, if_neg (by simp [hv]), ih hus]

theorem lowest_stays {rs : List NodeRef}
    (h : ∀ v ∈ rs, (lc.heap v).cost ≠ lcCostInf → (lc.heap u).cost ≤ (lc.heap v).cost) :
    rs.foldl (doLowestCost lc) (some u) = some u := by
  induction rs with
  | nil => rfl
  | cons v rs ih =>
    obtain ⟨hv, hrs⟩ := List.forall_mem_cons.mp h
    rw [List.foldl_cons]
    have hstep : doLowestCost lc (some u) v = some u := by
      unfold doLowestCost
      split
      · next hc => exact if_neg (Nat.not_lt.mpr (hv hc))
      · rfl
    rw [hstep, ih hrs]

theorem lowest_first {us rs : List NodeRef} (hus : ∀ v ∈ us, (lc.heap v).cost = lcCostInf)
    (hu : (lc.heap u).cost ≠ lcCostInf)
    (hrs : ∀ v ∈ rs, (lc.heap v).cost ≠ lcCostInf → (lc.heap u).cost ≤ (lc.heap v).cost) :
    (us ++ u :: rs).foldl (doLowestCost lc) none = some u := by
  have hstep : doLowestCost lc none u = some u := by rw [doLowestCost, if_pos hu]
  rw [List.foldl_append, lowest_skip hus, List.foldl_cons, hstep, lowest_stays hrs]

end Lowest

structure LoopAgain (lc₀ : LcGraph) (fuel : ℕ) (lc : LcGraph) (s : Tbl NodeRef) (lcE : LcGraph)
    (sE : Tbl NodeRef) (rs : List NodeRef) : Prop where
  settled : sE.head = s.head ++ rs
  unreached : ∀ v ∈ lcE.nodes.head, (lc.heap v).cost = lcCostInf
  perm : (lcE.nodes.head ++ rs).Perm lc.nodes.head
  off : ∀ r, r ∉ lc₀.nodes.head → lcE.heap r = lc.heap r
  again : ∀ x t, t.WF → t.head = lcE.nodes.head ++ rs → ∃ t', t'.WF ∧ t'.head = lcE.nodes.head ∧
    t'.maxLen = t.maxLen ∧ dijkstraLoop fuel (lc.relist t x) s = some (lcE.relist t' x, sE)

theorem dijkstraLoop_again {lc₀ : LcGraph} (hbase : LcBase lc₀) (hclosed : LcClosed lc₀) (fuel : ℕ) :
    ∀ (lc : LcGraph) (s : Tbl NodeRef), LoopShape lc₀ lc s →
      (∀ v ∈ lc₀.nodes.head, (lc.heap v).cost ≤ lcCostInf) → lc.nodes.head.length ≤ fuel →
      ∀ lcE sE, dijkstraLoop fuel lc s = some (lcE, sE) → ∃ rs, LoopAgain lc₀ fuel lc s lcE sE rs := by
  induction fuel with
  | zero =>
    intro lc s h hcap hf lcE sE hrun
    have hnil : lc.nodes.head = [] := List.length_eq_zero_iff.mp (by omega)
    cases hrun
    refine ⟨[], by simp, by simp [hnil], by simp, fun _ _ => rfl, fun x t hw ht => ?_⟩
    exact ⟨t, hw, by simpa using ht, rfl, rfl⟩
  | succ fuel ih =>
    intro lc s h hcap hf lcE sE hrun
    unfold dijkstraLoop at hrun
    cases hu : dijkstraFindLowestCostNode lc with
    | none =>
      rw [hu] at hrun
      cases hrun
      have hinf := findLowest_none hu
      refine ⟨[], by simp, hinf, by simp, fun _ _ => rfl, fun x t hw ht => ?_⟩
      rw [List.append_nil] at ht
      have hnone : dijkstraFindLowestCostNode (lc.relist t x) = none := by
        rw [dijkstraFindLowestCostNode]
        refine lowest_skip fun v hv => hinf v ?_
        rw [← ht]
        exact hv
      refine ⟨t, hw, ht, rfl, ?_⟩
      rw [dijkstraLoop, hnone]
    | some u =>
      obtain ⟨hmem, hne, hmin⟩ := findLowest_some hu
      obtain ⟨t₁, hd, hl, hadd, hshape⟩ := h.step hbase hmem
      obtain ⟨lc₁, hlc₁⟩ : ∃ lc₁, lc₁ = lc.links.head.foldl (doRelax u) { lc with nodes := t₁ } := ⟨_, rfl⟩
      have hnodes₁ : lc₁.nodes = t₁ := hlc₁ ▸ (foldl_shape (doRelax_shape u) _ _).nodes
      have hle : ∀ r, (lc₁.heap r).cost ≤ (lc.heap r).cost := fun r => hlc₁ ▸ relax_cost_le _ r _
      simp only [hu, hd, Option.bind_eq_bind, Option.bind_some] at hrun
      rw [← hlc₁] at hrun hshape
      obtain ⟨rs, hrest⟩ := ih lc₁ _ hshape (fun v hv => Nat.le_trans (hle v) (hcap v hv))
        (by rw [hnodes₁]; omega) lcE sE hrun
      have hin₀ : ∀ v ∈ lc₁.nodes.head, v ∈ lc₀.nodes.head := fun v hv =>
        hshape.perm.mem_iff.mp (List.mem_append_left _ hv)
      have hunreached : ∀ v ∈ lcE.nodes.head, (lc.heap v).cost = lcCostInf := by
        intro v hv
        have hv₁ : v ∈ lc₁.nodes.head := hrest.perm.mem_iff.mp (List.mem_append_left _ hv)
        exact Nat.le_antisymm (hcap v (hin₀ v hv₁)) (hrest.unreached v hv ▸ hle v)
      have hsub : ∀ v ∈ rs, v ∈ lc.nodes.head := by
        intro v hv
        have hv₁ : v ∈ lc₁.nodes.head := hrest.perm.mem_iff.mp (List.mem_append_right _ hv)
        rw [hnodes₁] at hv₁
        exact (Tbl.detach_sublist hd).1.subset hv₁
      refine ⟨u :: rs, ?_, hunreached, ?_, ?_, fun x t hw ht => ?_⟩
      · rw [hrest.settled, hadd, List.append_assoc, List.singleton_append]
      · have hperm := hrest.perm
        rw [Tbl.detach_of_mem hmem, Option.some.injEq] at hd
        rw [hnodes₁, ← hd] at hperm
        exact List.perm_middle.trans ((hperm.cons u).trans (List.perm_cons_erase hmem).symm)
      · intro r hr
        rw [hrest.off r hr, hlc₁]
        refine relax_off (fun l hl' hlr => hr ?_) _
        rw [h.links] at hl'
        exact hlr ▸ hclosed l.src l.dst l.cost ⟨l, hl', rfl, rfl, rfl⟩
      · have hlow : dijkstraFindLowestCostNode (lc.relist t x) = some u := by
          rw [dijkstraFindLowestCostNode, show (lc.relist t x).nodes.head = _ from ht]
          refine lowest_first (fun v hv => hunreached v hv) hne fun v hv => hmin v (hsub v hv)
        have hut : u ∈ t.head := by rw [ht]; simp
        have herase : t.head.erase u = lcE.nodes.head ++ rs := by
          rw [ht, List.erase_append_right _ fun hm => hne (hunreached u hm), List.erase_cons_head]
        obtain ⟨t', hw', hhead', hmax', hrun'⟩ := hrest.again x
          { t with head := t.head.erase u, len := t.len - 1 } (hw.detach (Tbl.detach_of_mem hut)) herase
        refine ⟨t', hw', hhead', hmax', ?_⟩
        rw [dijkstraLoop, hlow]
        simp only [show (lc.relist t x).nodes.detach u = _ from Tbl.detach_of_mem hut,
          Option.bind_eq_bind, Option.bind_some]
        rw [← hrun', hlc₁, ← relax_relist]
        rfl

theorem initNode_congr {src : InAddr} {r : NodeRef} {n n' : LcNode} (ha : n'.addr = n.addr)
    (hl : n'.links = n.links) : initNode src r n' = initNode src r n := by
  unfold initNode
  rw [ha]
  split <;> simp [hl]

theorem LcGraph.ext_fields {lc lc' : LcGraph} (hheap : lc.heap = lc'.heap) (hbrk : lc.brk = lc'.brk)
    (hnodes : lc.nodes = lc'.nodes) (hlinks : lc.links = lc'.links) (hsrc : lc.src = lc'.src) :
    lc = lc' := by
  obtain ⟨heap, brk, nodes, links, src⟩ := lc
  simp only at hheap hbrk hnodes hlinks hsrc
  rw [hheap, hbrk, hnodes, hlinks, hsrc]

theorem Tbl.ext_fields {t t' : Tbl NodeRef} (hw : t.WF) (hw' : t'.WF) (hhead : t.head = t'.head)
    (hmax : t.maxLen = t'.maxLen) : t = t' := by
  obtain ⟨head, len, maxLen⟩ := t
  obtain ⟨head', len', maxLen'⟩ := t'
  simp only [Tbl.WF] at hw hw' hhead hmax
  rw [hw, hw', hhead, hmax]

theorem doInit_src (src : InAddr) (ns : List NodeRef) : ∀ lc : LcGraph,
    (ns.foldl (doInit src) lc).src = lc.src := by
  induction ns with
  | nil =>
    intro lc
    rfl
  | cons n ns ih =>
    intro lc
    rw [List.foldl_cons, ih]
    unfold doInit
    split <;> rfl

theorem initSingleSource_off (src : InAddr) {lc : LcGraph} {r : NodeRef} (hr : r ∉ lc.nodes.head) :
    (dijkstraInitSingleSource src lc).heap r = lc.heap r := by
  rw [dijkstraInitSingleSource, init_fold, if_neg hr]

theorem initSingleSource_relist {lc lc' : LcGraph} (hg : SameGraph lc lc') (src : InAddr)
    (hoff : ∀ r, r ∉ lc.nodes.head → lc'.heap r = lc.heap r) :
    dijkstraInitSingleSource src lc' = (dijkstraInitSingleSource src lc).relist lc'.nodes lc'.src := by
  have hs := initSingleSource_shape src lc
  have hs' := initSingleSource_shape src lc'
  refine LcGraph.ext_fields ?_ ?_ hs'.nodes ?_ (doInit_src src _ lc')
  · funext r
    show (dijkstraInitSingleSource src lc').heap r = (dijkstraInitSingleSource src lc).heap r
    by_cases hr : r ∈ lc.nodes.head
    · rw [initSingleSource_heap src (hg.nodes.mem_iff.mpr hr), initSingleSource_heap src hr]
      exact initNode_congr (hg.addr r) (hg.count r)
    · rw [initSingleSource_off src fun hm => hr (hg.nodes.mem_iff.mp hm), initSingleSource_off src hr,
        hoff r hr]
  · exact hs'.brk.trans (hg.brk.trans hs.brk.symm)
  · exact hs'.links.trans (hg.links.trans hs.links.symm)

theorem initSingleSource_cost_le (src : InAddr) (lc : LcGraph) {r : NodeRef} (hr : r ∈ lc.nodes.head) :
    ((dijkstraInitSingleSource src lc).heap r).cost ≤ lcCostInf := by
  rw [initSingleSource_heap src hr]
  unfold initNode
  split
  · exact Nat.zero_le _
  · exact Nat.le_refl _

section Idem

variable {lc : LcGraph} {src : InAddr}

theorem dijkstra_idem_absent (hnone : (dijkstraInitSingleSource src lc).nodes.find
      (critAddr (dijkstraInitSingleSource src lc) src) = none) (hne : lc.nodes.head ≠ []) :
    dijkstra src (dijkstraInitSingleSource src lc) = some (dijkstraInitSingleSource src lc) := by
  have hs := initSingleSource_shape src lc
  have hinit := initSingleSource_relist hs.graph src fun r hr => initSingleSource_off src hr
  rw [dijkstra, if_neg (hs.nodes ▸ hne)]
  dsimp only
  rw [hinit]
  simp only [LcGraph.relist]
  rw [hnone]

theorem find_node_unique {lc' : LcGraph} (hbase : LcBase lc) (hperm : lc'.nodes.head.Perm lc.nodes.head)
    (haddr : ∀ r, lc'.addr r = lc.addr r) {n : NodeRef}
    (h : lc.nodes.find (critAddr lc src) = some n) : lc'.nodes.find (critAddr lc' src) = some n := by
  obtain ⟨hn, ha⟩ := nodes_find_some h
  cases hf : lc'.nodes.find (critAddr lc' src) with
  | none => exact absurd ((haddr n).trans ha) (nodes_find_none hf n (hperm.mem_iff.mpr hn))
  | some n' =>
    obtain ⟨hn', ha'⟩ := nodes_find_some hf
    rw [haddr] at ha'
    rw [hbase.addr_inj n' (hperm.mem_iff.mp hn') n hn (ha'.trans ha.symm)]

theorem dijkstra_idem {lc' : LcGraph} (hbase : LcBase lc) (hclosed : LcClosed lc)
    (h : dijkstra src lc = some lc') : dijkstra src lc' = some lc' := by
  have hs := initSingleSource_shape src lc
  unfold dijkstra at h
  split at h
  · next hnil =>
    cases h
    rw [dijkstra, if_pos hnil]
  · next hne =>
    dsimp only at h
    split at h
    · next hnone =>
      cases h
      exact dijkstra_idem_absent hnone hne
    · next n hn =>
      obtain ⟨⟨lcE, sE⟩, hloop, hmove⟩ := Option.bind_eq_some_iff.mp h
      cases hmove
      obtain ⟨lcE', sE', hloop', hend⟩ := dijkstraLoop_shape hbase
        (dijkstraInitSingleSource src lc).nodes.head.length _ _ (hs.loop hbase)
      rw [hloop] at hloop'
      cases hloop'
      obtain ⟨rs, hagain⟩ := dijkstraLoop_again hbase hclosed _ _ _ (hs.loop hbase)
        (fun v hv => initSingleSource_cost_le src lc hv) (Nat.le_refl _) lcE sE hloop
      have hg := hend.move hbase (some n)
      obtain ⟨lc₁, hlc₁⟩ : ∃ lc₁ : LcGraph, lc₁ =
        { lcE with nodes := lcMove sE.head lcE.nodes, src := some n } := ⟨_, rfl⟩
      rw [← hlc₁] at hg
      have hlen := hend.perm.length_eq
      rw [List.length_append] at hlen
      have hmv := lcMove_spec sE.head lcE.nodes hend.nodes_wf
        (by rw [hend.nodes_max]; have := hbase.nodes_length; omega)
      have hhead : lc₁.nodes.head = lcE.nodes.head ++ rs := by
        rw [hlc₁]
        dsimp only
        rw [hmv, hagain.settled]
        rfl
      have hmax : lc₁.nodes.maxLen = lcE.nodes.maxLen := by
        rw [hlc₁]
        dsimp only
        rw [hmv]
      have hoff : ∀ r, r ∉ lc.nodes.head → lc₁.heap r = lc.heap r := by
        intro r hr
        rw [hlc₁, ← initSingleSource_off src hr]
        exact hagain.off r hr
      have hinit := initSingleSource_relist hg src hoff
      obtain ⟨t', hw', hhead', hmax', hrun'⟩ :=
        hagain.again lc₁.src lc₁.nodes (hg.base hbase).nodes_wf hhead
      have ht' : t' = lcE.nodes := Tbl.ext_fields hw' hend.nodes_wf hhead' (hmax'.trans hmax)
      have hfind : (dijkstraInitSingleSource src lc₁).nodes.find
          (critAddr (dijkstraInitSingleSource src lc₁) src) = some n := by
        have hs₁ := initSingleSource_shape src lc₁
        refine find_node_unique (hs.graph.base hbase) ?_ (fun r => ?_) hn
        · rw [hs₁.nodes, hs.nodes]
          exact hg.nodes
        · rw [hs₁.addr, hg.addr, hs.addr]
      have hne₁ : lc₁.nodes.head ≠ [] := fun hnil => hne (by simpa [hnil] using hg.nodes)
      have hfuel : (dijkstraInitSingleSource src lc₁).nodes.head.length =
          (dijkstraInitSingleSource src lc).nodes.head.length := by
        rw [(initSingleSource_shape src lc₁).nodes, hs.nodes, hg.nodes.length_eq]
      rw [← hlc₁, dijkstra, if_neg hne₁]
      simp only [hfind, hfuel]
      rw [hinit, hrun', ht', hlc₁]
      rfl

end Idem

def lcLookups (src : InAddr) : List (ℕ × InAddr) → LcGraph → Option (List SrtFind × LcGraph)
  | [], lc => some ([], lc)
  | q :: qs, lc =>
      (lcSrtFind q.1 src q.2 lc).bind fun r =>
        (lcLookups src qs r.2).map fun rs => (r.1 :: rs.1, rs.2)

def SrtFind.path (r : SrtFind) : Option (List InAddr) := r.srt.map DsrSrt.path

theorem lcSrtBuild_path (mem : ℕ) (src dst : InAddr) (dn : NodeRef) (lc : LcGraph) :
    (lcSrtBuild mem src dst dn lc).map SrtFind.path = (lcSrtBuild 0 src dst dn lc).map SrtFind.path := by
  unfold lcSrtBuild
  simp only [Option.bind_eq_bind, Option.map_bind]
  refine congrArg _ (funext fun p => ?_)
  simp only [Function.comp_apply, Option.map_bind]
  refine congrArg _ (funext fun ns => ?_)
  simp only [Option.pure_def, Option.map_some, SrtFind.path]
  split <;> rfl

section Lookup

variable {lc lc' : LcGraph} {src dst : InAddr} {mem : ℕ} {r : SrtFind}

theorem lcSrtFind_dijkstra (hne : src ≠ dst) (h : lcSrtFind mem src dst lc = some (r, lc')) :
    dijkstra src lc = some lc' := by
  cases hd : dijkstra src lc with
  | none =>
    rw [lcSrtFind, if_neg hne, hd] at h
    cases h
  | some lcS =>
    rw [lcSrtFind_of_dijkstra hne hd] at h
    split at h
    · cases h
      rfl
    · split at h
      · obtain ⟨r', -, he⟩ := Option.bind_eq_some_iff.mp h
        cases he
        rfl
      · cases h
        rfl

theorem lcSrtFind_path (h : lcSrtFind mem src dst lc = some (r, lc')) :
    ∃ r₀, lcSrtFind 0 src dst lc = some (r₀, lc') ∧ r.path = r₀.path := by
  by_cases hne : src = dst
  · rw [lcSrtFind, if_pos hne] at h ⊢
    cases h
    exact ⟨_, rfl, rfl⟩
  · have hd := lcSrtFind_dijkstra hne h
    rw [lcSrtFind_of_dijkstra hne hd] at h ⊢
    split at h
    · cases h
      exact ⟨_, rfl, rfl⟩
    · next dn _ =>
      split at h
      · next hc =>
        obtain ⟨r', hb, he⟩ := Option.bind_eq_some_iff.mp h
        cases he
        have hpath := lcSrtBuild_path mem src dst dn lc'
        rw [hb] at hpath
        obtain ⟨r₀, hb₀, hp₀⟩ := Option.map_eq_some_iff.mp hpath.symm
        refine ⟨r₀, ?_, hp₀.symm⟩
        rw [if_pos hc, hb₀]
        rfl
      · next hc =>
        cases h
        rw [if_neg hc]
        exact ⟨_, rfl, rfl⟩

theorem lcSrtFind_again (hbase : LcBase lc) (hclosed : LcClosed lc)
    (h : lcSrtFind mem src dst lc = some (r, lc')) (mem' : ℕ) {dst' : InAddr} (hne' : src ≠ dst') :
    lcSrtFind mem' src dst' lc' = lcSrtFind mem' src dst' lc := by
  by_cases hne : src = dst
  · rw [lcSrtFind, if_pos hne] at h
    cases h
    rfl
  · have hd := lcSrtFind_dijkstra hne h
    rw [lcSrtFind_of_dijkstra hne' (dijkstra_idem hbase hclosed hd), lcSrtFind_of_dijkstra hne' hd]

end Lookup

structure Answers (src : InAddr) (route : InAddr → Option (List InAddr)) (lc : LcGraph) : Prop where
  path : ∀ mem dst r lc', lcSrtFind mem src dst lc = some (r, lc') → r.path = route dst

theorem answers_self (src : InAddr) (lc : LcGraph) :
    Answers src (fun dst => (lcSrtFind 0 src dst lc).bind fun p => p.1.path) lc := by
  refine ⟨fun mem dst r lc' h => ?_⟩
  obtain ⟨r₀, h₀, hp⟩ := lcSrtFind_path h
  rw [h₀, hp]
  rfl

theorem Answers.lookup {src : InAddr} {route : InAddr → Option (List InAddr)} {lc lc' : LcGraph}
    (h : Answers src route lc) (hi : LcInv lc) {mem : ℕ} {dst : InAddr} {r : SrtFind}
    (hf : lcSrtFind mem src dst lc = some (r, lc')) : Answers src route lc' := by
  refine ⟨fun mem' dst' r' lc'' hf' => ?_⟩
  by_cases hne : src = dst'
  · have hself : lcSrtFind mem' src dst' lc = some (SrtFind.empty, lc) := by rw [lcSrtFind, if_pos hne]
    rw [lcSrtFind, if_pos hne] at hf'
    cases hf'
    exact h.path _ _ _ _ hself
  · rw [lcSrtFind_again hi.1.toLcBase hi.closed hf mem' hne] at hf'
    exact h.path _ _ _ _ hf'

theorem lcSrtFind_total {lc : LcGraph} (hi : LcInv lc) {src : InAddr}
    (hcost : Search.CostBound lc.hasLink src lcCostInf) (mem : ℕ) (dst : InAddr) :
    ∃ r lc', lcSrtFind mem src dst lc = some (r, lc') := by
  by_cases hne : src = dst
  · exact ⟨SrtFind.empty, lc, by rw [lcSrtFind, if_pos hne]⟩
  · obtain ⟨r, lc', hf, -, -⟩ := lcSrtFind_spec hi.1.toLcBase hne
      (fun sn hsn hsa => hi.costBound hsn (hsa ▸ hcost)) mem
    exact ⟨r, lc', hf⟩

theorem lcLookups_answers {src : InAddr} {route : InAddr → Option (List InAddr)}
    (qs : List (ℕ × InAddr)) : ∀ {lc : LcGraph}, LcInv lc →
    Search.CostBound lc.hasLink src lcCostInf → Answers src route lc →
    ∃ rs lc', lcLookups src qs lc = some (rs, lc') ∧
      rs.map SrtFind.path = qs.map fun q => route q.2 := by
  induction qs with
  | nil =>
    intro lc _ _ _
    exact ⟨[], lc, rfl, rfl⟩
  | cons q qs ih =>
    intro lc hi hcost ha
    obtain ⟨r, lc₁, hf⟩ := lcSrtFind_total hi hcost q.1 q.2
    have hg := lcSrtFind_graph hi.1.toLcBase hf
    obtain ⟨rs, lc', hrest, hpaths⟩ := ih (hg.inv hi) (hg.hasLink ▸ hcost) (ha.lookup hi hf)
    refine ⟨r :: rs, lc', ?_, ?_⟩
    · rw [lcLookups, hf, Option.bind_some, hrest]
      rfl
    · rw [List.map_cons, List.map_cons, hpaths, ha.path _ _ _ _ hf]

theorem lcLookups_stable {ops : List LcOp} {lc : LcGraph} (hrun : lcRun ops lcInit = some lc)
    (hroom : lcRunRoom ops lcInit) {src : InAddr}
    (hcost : Search.CostBound lc.hasLink src lcCostInf) (qs : List (ℕ × InAddr)) :
    ∃ rs lc', lcLookups src qs lc = some (rs, lc') ∧
      ∃ route : InAddr → Option (List InAddr), rs.map SrtFind.path = qs.map fun q => route q.2 := by
  have hi := lcRun_inv ops lcInit lc lcInit_inv hroom hrun
  obtain ⟨rs, lc', hlook, hpaths⟩ := lcLookups_answers qs hi hcost (answers_self src lc)
  exact ⟨rs, lc', hlook, fun dst => (lcSrtFind 0 src dst lc).bind fun p => p.1.path, hpaths⟩

def diamondOps : List LcOp :=
  [.linkAdd default ⟨10, 0, 0, 1⟩ ⟨10, 0, 0, 2⟩ 0 0 1, .linkAdd default ⟨10, 0, 0, 1⟩ ⟨10, 0, 0, 3⟩ 0 0 1,
    .linkAdd default ⟨10, 0, 0, 2⟩ ⟨10, 0, 0, 4⟩ 0 0 1, .linkAdd default ⟨10, 0, 0, 3⟩ ⟨10, 0, 0, 4⟩ 0 0 1]

theorem diamondOps_room : lcRunRoom diamondOps lcInit := by
  refine ⟨⟨Or.inr ?_, Or.inr ?_, Or.inr ?_⟩, fun lc₁ h₁ => ?_⟩
  pick_goal 4
  · cases h₁
    refine ⟨⟨Or.inr ?_, Or.inr ?_, Or.inr ?_⟩, fun lc₂ h₂ => ?_⟩
    pick_goal 4
    · cases h₂
      refine ⟨⟨Or.inr ?_, Or.inr ?_, Or.inr ?_⟩, fun lc₃ h₃ => ?_⟩
      pick_goal 4
      · cases h₃
        refine ⟨⟨Or.inr ?_, Or.inr ?_, Or.inr ?_⟩, fun _ _ => trivial⟩
        all_goals decide
      all_goals decide
    all_goals decide
  all_goals decide

theorem lcLookups_stable_diamond : ∃ lc, lcRun diamondOps lcInit = some lc ∧ ∃ rs lc',
    lcLookups ⟨10, 0, 0, 1⟩ [(0, ⟨10, 0, 0, 4⟩), (0, ⟨10, 0, 0, 3⟩), (7, ⟨10, 0, 0, 4⟩)] lc = some (rs, lc') ∧
      ∃ route : InAddr → Option (List InAddr), rs.map SrtFind.path =
        [route ⟨10, 0, 0, 4⟩, route ⟨10, 0, 0, 3⟩, route ⟨10, 0, 0, 4⟩] := by
  have hunit : ∀ op ∈ diamondOps, op.unit := by simp [diamondOps, LcOp.unit]
  obtain ⟨lc, hrun⟩ : ∃ lc, lcRun diamondOps lcInit = some lc := ⟨_, rfl⟩
  have hs := lcRun_sound _ lcInit lc lcInit_sound hunit hrun
  exact ⟨lc, hrun, lcLookups_stable hrun diamondOps_room (hs.costBound_addr _) _⟩

end DsrUu
