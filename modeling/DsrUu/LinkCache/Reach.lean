import DsrUu.LinkCache.ShortestPath

namespace DsrUu

open Graph

def LcGraph.listed (lc : LcGraph) (a b : InAddr) (c : ℕ) : Prop :=
  ∃ l ∈ lc.links.head, l.src ∈ lc.nodes.head ∧ l.dst ∈ lc.nodes.head ∧
    lc.addr l.src = a ∧ lc.addr l.dst = b ∧ l.cost = c

def LcGraph.listedEdge (lc : LcGraph) (u v : NodeRef) (c : ℕ) : Prop :=
  lc.edge u v c ∧ v ∈ lc.nodes.head

theorem LcInv.listed {lc : LcGraph} (h : LcInv lc) : lc.listed = lc.hasLink := by
  funext a b c
  apply propext
  constructor
  · rintro ⟨l, hl, _, _, hrest⟩
    exact ⟨l, hl, hrest⟩
  · rintro ⟨l, hl, hrest⟩
    exact ⟨l, hl, h.1.src_mem hl, h.1.dst_mem hl, hrest⟩

theorem LcBase.lift_listed {lc : LcGraph} (hb : LcBase lc) {src dst : InAddr} (hne : src ≠ dst)
    {p : List InAddr} {c : ℕ} (hw : Walk lc.listed src p dst c) :
    ∃ sn ∈ lc.nodes.head, lc.addr sn = src ∧ ∃ dn ∈ lc.nodes.head, lc.addr dn = dst ∧
      ∃ q, Walk lc.edge sn q dn c ∧ ∀ x ∈ q, x ∈ lc.nodes.head := by
  have hE : ∀ a b k, lc.listed a b k → ∃ u v, u ∈ lc.nodes.head ∧ v ∈ lc.nodes.head ∧
      lc.addr u = a ∧ lc.addr v = b ∧ lc.listedEdge u v k := by
    rintro a b k ⟨l, hl, hsrc, hdst, rfl, rfl, rfl⟩
    exact ⟨l.src, l.dst, hsrc, hdst, rfl, rfl, ⟨l, hl, rfl, rfl, rfl⟩, hdst⟩
  obtain ⟨b, k, hfirst⟩ := hw.first_edge hne
  obtain ⟨sn, _, hsn, _, rfl, _, _⟩ := hE _ _ _ hfirst
  obtain ⟨q, dn, hdn, hda, _, hq⟩ := hw.lift lc.addr (· ∈ lc.nodes.head)
    (fun u v hu hv he => hb.addr_inj u hu v hv he) hE hsn
  have hedge : Walk lc.edge sn (q.map id) dn c := hq.map id fun _ _ _ he => he.1
  rw [List.map_id] at hedge
  exact ⟨sn, hsn, rfl, dn, hdn, hda, q, hedge, hq.mem_of_edge fun _ _ _ he => he.2⟩

theorem lcSrtFind_listed {lc : LcGraph} (h : LcSound lc) {src dst : InAddr} (hne : src ≠ dst)
    {p : List InAddr} {c : ℕ} (hw : Walk lc.listed src p dst c) (mem : ℕ) :
    ∃ r lc' srt k, lcSrtFind mem src dst lc = some (r, lc') ∧ r.srt = some srt ∧
      LcRoute lc src dst srt k := by
  have hb := h.toLcBase
  obtain ⟨sn, hsn, rfl, dn, hdn, rfl, q, hq, hqn⟩ := hb.lift_listed hne hw
  have hc := h.costBound sn
  obtain ⟨lc', done, hd, hs⟩ := dijkstra_settled hb hsn hc
  have hg := hs.graph
  have hdone := (hs.no_walk hsn hc hq hqn).1
  have hcost : (lc'.heap dn).cost ≠ lcCostInf := Nat.ne_of_lt (hs.inv.done_lt dn hdone)
  obtain ⟨p, ns, hchain⟩ := hs.predChain hdn (fun he => hne (he ▸ rfl)) hcost
  obtain ⟨srt, r, hbuild, hbuilt, -, hroute⟩ := hchain.build hb hg hsn hdn mem
  have hfind : lc'.nodes.find (critAddr lc' (lc.addr dn)) = some dn := by
    cases hf : lc'.nodes.find (critAddr lc' (lc.addr dn)) with
    | none => exact absurd (hg.addr dn) (nodes_find_none hf dn (hg.nodes.mem_iff.mpr hdn))
    | some dn' =>
      obtain ⟨hdn', hda⟩ := nodes_find_some hf
      rw [hg.nodes.mem_iff] at hdn'
      rw [hg.addr] at hda
      rw [hb.addr_inj dn' hdn' dn hdn hda]
  refine ⟨r, lc', srt, _, ?_, hbuilt.srt_eq, hroute⟩
  rw [lcSrtFind_of_dijkstra hne hd, hfind]
  dsimp only
  rw [if_pos ⟨hcost, by simp [hchain.pred]⟩, hbuild]
  rfl

end DsrUu
