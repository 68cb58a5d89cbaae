import DsrUu.LinkCache.Dijkstra

namespace DsrUu

open Graph

def LcGraph.hasLink (lc : LcGraph) (a b : InAddr) (c : ℕ) : Prop :=
  ∃ l ∈ lc.links.head, lc.addr l.src = a ∧ lc.addr l.dst = b ∧ l.cost = c

theorem edge_hasLink {lc : LcGraph} (u v : NodeRef) (k : ℕ) (h : lc.edge u v k) :
    lc.hasLink (lc.addr u) (lc.addr v) k := by
  obtain ⟨l, hl, rfl, rfl, rfl⟩ := h
  exact ⟨l, hl, rfl, rfl, rfl⟩

theorem SameGraph.hasLink {lc lc' : LcGraph} (h : SameGraph lc lc') : lc'.hasLink = lc.hasLink := by
  funext a b c
  simp only [LcGraph.hasLink, h.links, h.addr]

theorem predWalk_eq (lc : LcGraph) (done : List NodeRef) (fuel : ℕ) :
    ∀ n, predWalk lc fuel n = Search.backtrack (lc.search done).pred fuel n := by
  induction fuel with
  | zero => exact fun n => rfl
  | succ fuel ih =>
    intro n
    have hp : (lc.search done).pred n = (lc.heap n).pred := rfl
    simp only [predWalk, Search.backtrack, hp]
    cases (lc.heap n).pred with
    | none => rfl
    | some p => simp only [ih]

theorem writeAddrs_fst (lc : LcGraph) (k : ℕ) (ns : List NodeRef) : ∀ i, i + ns.length = k →
    (writeAddrs lc k i ns).map Prod.fst = (List.range ns.length).reverse.map Int.ofNat := by
  induction ns with
  | nil =>
    intro i _
    rfl
  | cons n ns ih =>
    intro i hi
    rw [List.length_cons] at hi
    simp only [writeAddrs, List.map_cons, List.length_cons, List.range_succ, List.reverse_append,
      List.reverse_singleton, List.singleton_append]
    rw [ih (i + 1) (by omega)]
    congr 1
    simp only [Int.ofNat_eq_natCast]
    omega

theorem storeAddrs_writeAddrs (lc : LcGraph) (k : ℕ) (ns : List NodeRef) :
    ∀ (i : ℕ) (as : List InAddr), i + ns.length = k → as.length = k →
      storeAddrs (writeAddrs lc k i ns) as =
        (ns.map lc.addr).reverse ++ as.drop ns.length := by
  induction ns with
  | nil =>
    intro i as _ _
    rfl
  | cons n ns ih =>
    intro i as hi has
    rw [List.length_cons] at hi
    have hidx : ((k : Int) - i - 1).toNat = ns.length := by omega
    have hstep : storeAddrs (writeAddrs lc k i (n :: ns)) as =
        storeAddrs (writeAddrs lc k (i + 1) ns) (as.set ns.length (lc.addr n)) := by
      simp only [storeAddrs, writeAddrs, List.foldl_cons, hidx]
    have hlt : ns.length < (as.set ns.length (lc.addr n)).length := by
      rw [List.length_set]
      omega
    rw [hstep, ih (i + 1) _ (by omega) (by simpa using has), List.drop_eq_getElem_cons hlt,
      List.getElem_set_self, List.drop_set_of_lt (Nat.lt_succ_self _), List.map_cons,
      List.reverse_cons, List.append_assoc, List.singleton_append, List.length_cons]

structure PredChain (lc : LcGraph) (sn : NodeRef) (lc' : LcGraph) (dn p : NodeRef)
    (ns : List NodeRef) : Prop where
  pred : (lc'.heap dn).pred = some p
  chain : predWalk lc' (lc'.nodes.head.length + 1) p = some ns
  walk : Walk lc.edge sn (ns.reverse ++ [dn]) dn (lc'.heap dn).cost
  nodup : (sn :: (ns.reverse ++ [dn])).Nodup
  length : ns.length + 1 = (lc'.heap dn).hops
  mem : ∀ x ∈ ns, x ∈ lc.nodes.head

theorem Settled.mem_done {lc lc' : LcGraph} {sn : NodeRef} {done : List NodeRef}
    (h : Settled lc sn lc' done) {v : NodeRef} (hv : v ∈ lc.nodes.head)
    (hc : (lc'.heap v).cost ≠ lcCostInf) : v ∈ done := by
  by_contra hn
  exact hc (h.rest v hv hn)

theorem Settled.predChain {lc lc' : LcGraph} {sn : NodeRef} {done : List NodeRef}
    (h : Settled lc sn lc' done) {dn : NodeRef} (hd : dn ∈ lc.nodes.head) (hne : dn ≠ sn)
    (hc : (lc'.heap dn).cost ≠ lcCostInf) : ∃ p ns, PredChain lc sn lc' dn p ns := by
  have hdone := h.mem_done hd hc
  obtain ⟨p, k, hp, hpd, he, hdist, hhops, hidx⟩ := h.inv.tree dn hd hne (h.inv.done_lt dn hdone)
  have hlt := hidx hdone
  have hlen : done.length ≤ lc'.nodes.head.length := by
    rw [h.graph.nodes.length_eq]
    exact (List.subperm_of_subset h.inv.nodup h.inv.done_mem).length_le
  have hpi : done.idxOf p ≤ lc'.nodes.head.length :=
    Nat.le_trans (Nat.le_of_lt (List.idxOf_lt_length_of_mem hpd)) hlen
  obtain ⟨ns, hb, hw, hl, hn, hm⟩ := Search.backtrack_spec h.inv _ p hpd hpi
  have hdist' : (lc'.heap dn).cost = (lc'.search done).dist p + k := hdist
  have hhops' : (lc'.heap dn).hops = (lc'.search done).hops p + 1 := hhops
  refine ⟨p, ns, hp, ?_, ?_, ?_, ?_, fun x hx => h.inv.done_mem x (hm x hx).1⟩
  · rw [predWalk_eq lc' done]
    exact hb
  · rw [hdist']
    exact hw.snoc he
  · have hdn : dn ∉ ns := fun hx => absurd (hm dn hx).2.2 (Nat.not_le.mpr hlt)
    have hsn : sn ∉ ns := fun hx => (hm sn hx).2.1 rfl
    rw [List.nodup_cons, List.nodup_append]
    refine ⟨by simp [hsn, Ne.symm hne], List.nodup_reverse.mpr hn, List.nodup_singleton _, ?_⟩
    intro a ha b hb hab
    rw [List.mem_singleton.mp hb] at hab
    exact hdn (by simpa [hab] using ha)
  · rw [hhops', hl]

structure LcRoute (lc : LcGraph) (src dst : InAddr) (srt : DsrSrt) (c : ℕ) : Prop where
  src_eq : srt.src = src
  dst_eq : srt.dst = dst
  laddrs : srt.laddrs = 4 * srt.addrs.length
  length_le : srt.addrs.length ≤ lcNodesMax
  walk : Walk lc.hasLink src (srt.addrs ++ [dst]) dst c
  nodup : (src :: (srt.addrs ++ [dst])).Nodup

structure SrtBuilt (srt : DsrSrt) (r : SrtFind) : Prop where
  srt_eq : r.srt = some srt
  no_error : r.hopCountError = false
  hops : srt.addrs.length + 1 = r.hops
  writes : r.writes.map Prod.fst = (List.range srt.addrs.length).reverse.map Int.ofNat

theorem toInt32_of_lt {n : ℕ} (h : n < 2147483648) : toInt32 n = n := by
  unfold toInt32
  rw [Nat.mod_eq_of_lt (by omega), if_pos h]

theorem toUint32_of_lt {n : ℕ} (h : n < 4294967296) : toUint32 n = n := by
  unfold toUint32
  omega

theorem PredChain.build {lc lc' : LcGraph} {sn dn p : NodeRef} {ns : List NodeRef}
    (h : PredChain lc sn lc' dn p ns) (hb : LcBase lc) (hg : SameGraph lc lc')
    (hsn : sn ∈ lc.nodes.head) (hdn : dn ∈ lc.nodes.head) (mem : ℕ) :
    ∃ srt r, lcSrtBuild mem (lc.addr sn) (lc.addr dn) dn lc' = some r ∧ SrtBuilt srt r ∧
      srt.flags = mem ∧ LcRoute lc (lc.addr sn) (lc.addr dn) srt (lc'.heap dn).cost := by
  have hnodes : ∀ x ∈ sn :: (ns.reverse ++ [dn]), x ∈ lc.nodes.head := by
    intro x hx
    simp only [List.mem_cons, List.mem_append, List.mem_reverse, List.not_mem_nil, or_false] at hx
    rcases hx with rfl | hx | rfl
    · exact hsn
    · exact h.mem x hx
    · exact hdn
  have hlen : ns.length ≤ lcNodesMax := by
    have hsub := (List.subperm_of_subset h.nodup hnodes).length_le
    have hmax := hb.nodes_length
    simp only [List.length_cons, List.length_append, List.length_reverse, List.length_nil] at hsub
    omega
  have hsmall : ns.length ≤ 500 := hlen
  have hdec : decUint32 (lc'.heap dn).hops = ns.length := by
    rw [← h.length, decUint32_of_pos (by omega) (by omega)]
    omega
  have hk : toInt32 (decUint32 (lc'.heap dn).hops) = (ns.length : Int) := by
    rw [hdec]
    exact toInt32_of_lt (by omega)
  have hops : toInt32 (lc'.heap dn).hops = (ns.length : Int) + 1 := by
    rw [← h.length, toInt32_of_lt (by omega)]
    omega
  have hlad : toUint32 ((ns.length : Int) * 4) = 4 * ns.length := by
    rw [show ((ns.length : Int) * 4) = ((4 * ns.length : ℕ) : Int) by push_cast; omega]
    exact toUint32_of_lt (by omega)
  have haddr : lc'.addr = lc.addr := funext hg.addr
  have hstore : storeAddrs (writeAddrs lc' (ns.length : Int) 0 ns)
      (List.replicate ns.length default) = ns.reverse.map lc.addr := by
    rw [storeAddrs_writeAddrs lc' ns.length ns 0 _ (by omega) (by simp)]
    simp [haddr]
  refine ⟨{ src := lc.addr sn, dst := lc.addr dn, flags := mem, laddrs := 4 * ns.length
            addrs := ns.reverse.map lc.addr },
    { srt := some { src := lc.addr sn, dst := lc.addr dn, flags := mem, laddrs := 4 * ns.length
                    addrs := ns.reverse.map lc.addr }
      writes := writeAddrs lc' ns.length 0 ns
      hops := (lc'.heap dn).hops
      hopCountError := false }, ?_, ⟨rfl, rfl, ?_, ?_⟩, rfl, ⟨rfl, rfl, ?_, ?_, ?_, ?_⟩⟩
  · unfold lcSrtBuild
    simp only [h.pred, h.chain, Option.bind_eq_bind, Option.bind_some, hk, hops, hlad,
      Int.toNat_natCast, hstore, ne_eq, not_true_eq_false, decide_false, Bool.false_eq_true,
      if_false]
    rfl
  · simp [h.length]
  · simpa using writeAddrs_fst lc' ns.length ns 0 (by omega)
  · simp
  · simpa using hlen
  · have hw := h.walk.map lc.addr edge_hasLink
    rwa [List.map_append, List.map_singleton] at hw
  · have hn := h.nodup.map_on (f := lc.addr)
      (fun x hx y hy he => hb.addr_inj x (hnodes x hx) y (hnodes y hy) he)
    simpa using hn

def LcClosed (lc : LcGraph) : Prop := ∀ u v k, lc.edge u v k → v ∈ lc.nodes.head

structure Unreachable (lc : LcGraph) (src dst : InAddr) : Prop where
  no_walk : LcClosed lc → ∀ sn ∈ lc.nodes.head, lc.addr sn = src → ∀ dn ∈ lc.nodes.head,
    lc.addr dn = dst → ∀ p c, ¬ Walk lc.edge sn p dn c

structure Cheapest (lc : LcGraph) (src dst : InAddr) (c : ℕ) : Prop where
  min : LcClosed lc → ∀ sn ∈ lc.nodes.head, lc.addr sn = src → ∀ dn ∈ lc.nodes.head,
    lc.addr dn = dst → ∀ p c', Walk lc.edge sn p dn c' → c ≤ c'

inductive LookupResult (lc : LcGraph) (mem : ℕ) (src dst : InAddr) (r : SrtFind) : Prop
  | notFound : r = SrtFind.empty → Unreachable lc src dst → LookupResult lc mem src dst r
  | found (srt : DsrSrt) (c : ℕ) : SrtBuilt srt r → srt.flags = mem → LcRoute lc src dst srt c →
      Cheapest lc src dst c → LookupResult lc mem src dst r

theorem LookupResult.route {lc : LcGraph} {mem : ℕ} {src dst : InAddr} {r : SrtFind} {srt : DsrSrt}
    (h : LookupResult lc mem src dst r) (hr : r.srt = some srt) : ∃ c, LcRoute lc src dst srt c := by
  cases h with
  | notFound he _ =>
    rw [he] at hr
    cases hr
  | found srt' c hb _ hroute _ =>
    rw [hb.srt_eq, Option.some_inj] at hr
    exact ⟨c, hr ▸ hroute⟩

theorem dijkstra_absent {lc : LcGraph} {src : InAddr}
    (hsrc : ∀ r ∈ lc.nodes.head, lc.addr r ≠ src) :
    ∃ lc', dijkstra src lc = some lc' ∧ SameShape lc lc' ∧
      ∀ r ∈ lc.nodes.head, (lc'.heap r).cost = lcCostInf := by
  have hs := initSingleSource_shape src lc
  unfold dijkstra
  split
  · next hnil => exact ⟨lc, rfl, SameShape.refl lc, by simp [hnil]⟩
  · have hnone : (dijkstraInitSingleSource src lc).nodes.find
        (critAddr (dijkstraInitSingleSource src lc) src) = none := by
      rw [Tbl.find, List.find?_eq_none, hs.nodes]
      intro r hr
      simpa [critAddr, hs.addr] using hsrc r hr
    refine ⟨_, by simp only [hnone], hs, ?_⟩
    intro r hr
    rw [initSingleSource_heap src hr, initNode, if_neg (show (lc.heap r).addr ≠ src from hsrc r hr)]

theorem lcSrtFind_of_dijkstra {lc lc' : LcGraph} {src dst : InAddr} (hne : src ≠ dst)
    (hd : dijkstra src lc = some lc') (mem : ℕ) :
    lcSrtFind mem src dst lc =
      match lc'.nodes.find (critAddr lc' dst) with
      | none => some (SrtFind.empty, lc')
      | some dstNode =>
          if (lc'.heap dstNode).cost ≠ lcCostInf ∧ (lc'.heap dstNode).pred ≠ none then
            (lcSrtBuild mem src dst dstNode lc').bind fun r => some (r, lc')
          else some (SrtFind.empty, lc') := by
  unfold lcSrtFind
  rw [if_neg hne, hd]
  rfl

theorem lcSrtFind_absent {lc : LcGraph} {src dst : InAddr} (hne : src ≠ dst) (mem : ℕ)
    (hsrc : ∀ r ∈ lc.nodes.head, lc.addr r ≠ src) :
    ∃ lc', lcSrtFind mem src dst lc = some (SrtFind.empty, lc') ∧ SameGraph lc lc' := by
  obtain ⟨lc', hd, hs, hinf⟩ := dijkstra_absent hsrc
  refine ⟨lc', ?_, hs.graph⟩
  rw [lcSrtFind_of_dijkstra hne hd]
  split
  · rfl
  · next dn hf =>
    have hdn := (nodes_find_some hf).1
    rw [hs.nodes] at hdn
    rw [if_neg (by simp [hinf dn hdn])]

theorem Settled.no_walk {lc lc' : LcGraph} {sn : NodeRef} {done : List NodeRef}
    (h : Settled lc sn lc' done) (hsn : sn ∈ lc.nodes.head)
    (hc : Search.CostBound lc.edge sn lcCostInf) {p : List NodeRef} {v : NodeRef} {c : ℕ}
    (hw : Walk lc.edge sn p v c) (hp : ∀ x ∈ p, x ∈ lc.nodes.head) :
    v ∈ done ∧ (lc'.heap v).cost ≤ c :=
  h.inv.dist_le_walk (fun v hv hn => Nat.le_of_eq (h.rest v hv hn).symm) hsn (by decide) hc hw hp

theorem lcSrtFind_present {lc : LcGraph} (hb : LcBase lc) {sn : NodeRef} {dst : InAddr}
    (hsn : sn ∈ lc.nodes.head) (hne : lc.addr sn ≠ dst)
    (hc : Search.CostBound lc.edge sn lcCostInf) (mem : ℕ) :
    ∃ r lc', lcSrtFind mem (lc.addr sn) dst lc = some (r, lc') ∧ SameGraph lc lc' ∧
      LookupResult lc mem (lc.addr sn) dst r := by
  obtain ⟨lc', done, hd, hs⟩ := dijkstra_settled hb hsn hc
  have hg := hs.graph
  have huniq : ∀ x ∈ lc.nodes.head, ∀ y ∈ lc.nodes.head, lc.addr x = lc.addr y → x = y :=
    hb.addr_inj
  rw [lcSrtFind_of_dijkstra hne hd]
  cases hf : lc'.nodes.find (critAddr lc' dst) with
  | none =>
    refine ⟨_, lc', rfl, hg, LookupResult.notFound rfl ⟨?_⟩⟩
    intro _ _ _ _ dn hdn hda
    have := nodes_find_none hf dn (hg.nodes.mem_iff.mpr hdn)
    exact absurd ((hg.addr dn).trans hda) this
  | some dn =>
    obtain ⟨hdn, hda⟩ := nodes_find_some hf
    rw [hg.nodes.mem_iff] at hdn
    rw [hg.addr] at hda
    subst hda
    have hdne : dn ≠ sn := fun he => hne (he ▸ rfl)
    by_cases hcost : (lc'.heap dn).cost = lcCostInf
    · refine ⟨_, lc', if_neg (by simp [hcost]), hg, LookupResult.notFound rfl ⟨?_⟩⟩
      intro hcl sn' hsn' hsa dn' hdn' hda p c hw
      rw [huniq sn' hsn' sn hsn hsa, huniq dn' hdn' dn hdn hda] at hw
      have hm := (hs.no_walk hsn hc hw (hw.mem_of_edge hcl)).1
      have hlt : (lc'.heap dn).cost < lcCostInf := hs.inv.done_lt dn hm
      omega
    · obtain ⟨p, ns, hchain⟩ := hs.predChain hdn hdne hcost
      obtain ⟨srt, r, hbuild, hbuilt, hflags, hroute⟩ := hchain.build hb hg hsn hdn mem
      refine ⟨r, lc', ?_, hg, LookupResult.found srt _ hbuilt hflags hroute ⟨?_⟩⟩
      · dsimp only
        rw [if_pos ⟨hcost, by simp [hchain.pred]⟩, hbuild]
        rfl
      · intro hcl sn' hsn' hsa dn' hdn' hda p c hw
        rw [huniq sn' hsn' sn hsn hsa, huniq dn' hdn' dn hdn hda] at hw
        exact (hs.no_walk hsn hc hw (hw.mem_of_edge hcl)).2

theorem lcSrtFind_spec {lc : LcGraph} (hb : LcBase lc) {src dst : InAddr} (hne : src ≠ dst)
    (hc : ∀ sn ∈ lc.nodes.head, lc.addr sn = src → Search.CostBound lc.edge sn lcCostInf)
    (mem : ℕ) :
    ∃ r lc', lcSrtFind mem src dst lc = some (r, lc') ∧ SameGraph lc lc' ∧
      LookupResult lc mem src dst r := by
  by_cases hsrc : ∃ sn ∈ lc.nodes.head, lc.addr sn = src
  · obtain ⟨sn, hsn, rfl⟩ := hsrc
    exact lcSrtFind_present hb hsn hne (hc sn hsn rfl) mem
  · have habs : ∀ r ∈ lc.nodes.head, lc.addr r ≠ src := fun r hr he => hsrc ⟨r, hr, he⟩
    obtain ⟨lc', hf, hg⟩ := lcSrtFind_absent hne mem habs
    refine ⟨_, lc', hf, hg, LookupResult.notFound rfl ⟨?_⟩⟩
    intro _ sn hsn hsa
    exact absurd hsa (habs sn hsn)

end DsrUu
