import DsrUu.LinkCache.Sound

namespace DsrUu

open Graph

theorem LcInv.closed {lc : LcGraph} (h : LcInv lc) : LcClosed lc := by
  rintro u v k ⟨l, hl, _, rfl, _⟩
  exact h.1.dst_mem hl

theorem LcInv.costBound {lc : LcGraph} (h : LcInv lc) {sn : NodeRef} (hsn : sn ∈ lc.nodes.head)
    (hc : Search.CostBound lc.hasLink (lc.addr sn) lcCostInf) :
    Search.CostBound lc.edge sn lcCostInf := by
  intro p v c hw hn a b k he
  have hmem : ∀ x ∈ sn :: p, x ∈ lc.nodes.head := by
    intro x hx
    rcases List.mem_cons.mp hx with rfl | hx
    · exact hsn
    · exact hw.mem_of_edge h.closed x hx
  have hnd := hn.map_on (f := lc.addr)
    (fun x hx y hy hxy => h.1.addr_inj x (hmem x hx) y (hmem y hy) hxy)
  exact hc _ _ _ (hw.map lc.addr edge_hasLink) hnd _ _ k (edge_hasLink a b k he)

theorem LcInv.lift_walk {lc : LcGraph} (h : LcInv lc) {src dst : InAddr} (hne : src ≠ dst)
    {p : List InAddr} {c : ℕ} (hw : Walk lc.hasLink src p dst c) :
    ∃ sn ∈ lc.nodes.head, lc.addr sn = src ∧ ∃ dn ∈ lc.nodes.head, lc.addr dn = dst ∧
      ∃ q, Walk lc.edge sn q dn c := by
  have hE : ∀ a b k, lc.hasLink a b k → ∃ u v, u ∈ lc.nodes.head ∧ v ∈ lc.nodes.head ∧
      lc.addr u = a ∧ lc.addr v = b ∧ lc.edge u v k := by
    rintro a b k ⟨l, hl, rfl, rfl, rfl⟩
    exact ⟨l.src, l.dst, h.1.src_mem hl, h.1.dst_mem hl, rfl, rfl, l, hl, rfl, rfl, rfl⟩
  obtain ⟨b, k, hfirst⟩ := hw.first_edge hne
  obtain ⟨sn, _, hsn, _, hsa, _, _⟩ := hE _ _ _ hfirst
  subst hsa
  obtain ⟨q, dn, hdn, hda, _, hq⟩ := hw.lift lc.addr (· ∈ lc.nodes.head)
    (fun u v hu hv he => h.1.addr_inj u hu v hv he) hE hsn
  exact ⟨sn, hsn, rfl, dn, hdn, hda, q, hq⟩

structure ShortestRoute (lc : LcGraph) (src dst : InAddr) (r : SrtFind) (srt : DsrSrt) : Prop where
  src_eq : srt.src = src
  dst_eq : srt.dst = dst
  cheapest : ∃ c, Walk lc.hasLink src (srt.addrs ++ [dst]) dst c ∧
    ∀ p c', Walk lc.hasLink src p dst c' → c ≤ c'
  nodup : (src :: (srt.addrs ++ [dst])).Nodup
  laddrs : srt.laddrs = 4 * srt.addrs.length
  hops : srt.addrs.length + 1 = r.hops
  writes : r.writes.map Prod.fst = (List.range srt.addrs.length).reverse.map Int.ofNat

theorem lcSrtFind_shortest {ops : List LcOp} {lc : LcGraph} (hrun : lcRun ops lcInit = some lc)
    (hroom : lcRunRoom ops lcInit) {src dst : InAddr} (hne : src ≠ dst)
    (hcost : Search.CostBound lc.hasLink src lcCostInf) (mem : ℕ) :
    ∃ r lc', lcSrtFind mem src dst lc = some (r, lc') ∧
      (r.srt.isSome ↔ ∃ p c, Walk lc.hasLink src p dst c) ∧
      (∀ srt, r.srt = some srt → ShortestRoute lc src dst r srt) ∧
      r.hopCountError = false ∧ SameGraph lc lc' := by
  have hi := lcRun_inv ops lcInit lc lcInit_inv hroom hrun
  obtain ⟨r, lc', hf, hg, hres⟩ := lcSrtFind_spec hi.1.toLcBase hne
    (fun sn hsn hsa => hi.costBound hsn (hsa ▸ hcost)) mem
  refine ⟨r, lc', hf, ?_⟩
  cases hres with
  | notFound hr hun =>
    subst hr
    refine ⟨⟨by simp [SrtFind.empty], ?_⟩, by simp [SrtFind.empty], rfl, hg⟩
    rintro ⟨p, c, hw⟩
    obtain ⟨sn, hsn, hsa, dn, hdn, hda, q, hq⟩ := hi.lift_walk hne hw
    exact absurd hq (hun.no_walk hi.closed sn hsn hsa dn hdn hda q c)
  | found srt c hb _ hroute hmin =>
    refine ⟨⟨fun _ => ⟨_, c, hroute.walk⟩, fun _ => by simp [hb.srt_eq]⟩, ?_, hb.no_error, hg⟩
    intro srt' hs
    rw [hb.srt_eq, Option.some_inj] at hs
    subst hs
    refine ⟨hroute.src_eq, hroute.dst_eq, ⟨c, hroute.walk, ?_⟩, hroute.nodup, hroute.laddrs,
      hb.hops, hb.writes⟩
    intro p c' hw
    obtain ⟨sn, hsn, hsa, dn, hdn, hda, q, hq⟩ := hi.lift_walk hne hw
    exact hmin.min hi.closed sn hsn hsa dn hdn hda q c' hq

def lineOps (a b c : InAddr) : List LcOp :=
  [LcOp.srtAdd default { src := a, dst := c, flags := 0, laddrs := 4, addrs := [b] } 0]

theorem lcSrtFind_shortest_line :
    ∃ lc, lcRun (lineOps ⟨10, 0, 0, 1⟩ ⟨10, 0, 0, 2⟩ ⟨10, 0, 0, 3⟩) lcInit = some lc ∧
      ∃ r lc', lcSrtFind 0 ⟨10, 0, 0, 1⟩ ⟨10, 0, 0, 3⟩ lc = some (r, lc') ∧
        (∀ srt, r.srt = some srt → ShortestRoute lc ⟨10, 0, 0, 1⟩ ⟨10, 0, 0, 3⟩ r srt) := by
  have hunit : ∀ op ∈ lineOps ⟨10, 0, 0, 1⟩ ⟨10, 0, 0, 2⟩ ⟨10, 0, 0, 3⟩, op.unit := by
    simp [lineOps, LcOp.unit]
  have hroom : lcRunRoom (lineOps ⟨10, 0, 0, 1⟩ ⟨10, 0, 0, 2⟩ ⟨10, 0, 0, 3⟩) lcInit := by
    refine ⟨⟨⟨Or.inr ?_, Or.inr ?_, Or.inr ?_⟩, ?_, ⟨Or.inr ?_, Or.inr ?_, Or.inr ?_⟩, ?_, trivial⟩,
      fun _ _ => trivial⟩
    all_goals first | decide | exact fun h => by cases h
  obtain ⟨lc, hrun⟩ : ∃ lc, lcRun (lineOps ⟨10, 0, 0, 1⟩ ⟨10, 0, 0, 2⟩ ⟨10, 0, 0, 3⟩) lcInit =
      some lc := ⟨_, rfl⟩
  have hs := lcRun_sound _ lcInit lc lcInit_sound hunit hrun
  obtain ⟨r, lc', hf, _, hroute, _, _⟩ := lcSrtFind_shortest hrun hroom
    (show (⟨10, 0, 0, 1⟩ : InAddr) ≠ ⟨10, 0, 0, 3⟩ by decide) (hs.costBound_addr _) 0
  exact ⟨lc, hrun, r, lc', hf, hroute⟩

end DsrUu
