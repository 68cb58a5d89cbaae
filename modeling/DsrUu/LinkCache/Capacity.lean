import DsrUu.LinkCache.Run

namespace DsrUu

def LcGraph.linkPair (lc : LcGraph) (l : LcLink) : InAddr × InAddr := (lc.addr l.src, lc.addr l.dst)

structure LcRepOk (lc : LcGraph) : Prop where
  addrs_unique : (lc.nodes.head.map lc.addr).Nodup
  pairs_unique : (lc.links.head.map lc.linkPair).Nodup
  ends_mem : ∀ l ∈ lc.links.head, l.src ∈ lc.nodes.head ∧ l.dst ∈ lc.nodes.head
  count : ∀ r ∈ lc.nodes.head, (lc.heap r).links = endpoints lc.links.head r
  live : ∀ r ∈ lc.nodes.head, 1 ≤ (lc.heap r).links
  nodes_len : lc.nodes.len = lc.nodes.head.length
  links_len : lc.links.len = lc.links.head.length

structure LcDelOk (lc : LcGraph) (l : LcLink) (lc' : LcGraph) : Prop where
  links : lc'.links.head = lc.links.head.erase l
  nodes : ∀ r ∈ lc.nodes.head, r ∉ lc'.nodes.head ↔ endpoints lc'.links.head r = 0
  subset : ∀ r ∈ lc'.nodes.head, r ∈ lc.nodes.head
  rep : LcRepOk lc'

theorem linkPair_map (lc : LcGraph) (ls : List LcLink) :
    ls.map lc.linkPair = (ls.map refs).map fun p => (lc.addr p.1, lc.addr p.2) := by
  rw [List.map_map]
  rfl

theorem LcInv.repOk {lc : LcGraph} (h : LcInv lc) : LcRepOk lc := by
  obtain ⟨h, hlive⟩ := h
  refine ⟨?_, ?_, fun l hl => ⟨h.src_mem hl, h.dst_mem hl⟩, h.count, hlive, h.nodes_wf, h.links_wf⟩
  · exact h.nodes_nodup.map_on fun x hx y hy he => h.addr_inj x hx y hy he
  · rw [linkPair_map]
    refine h.refs_nodup.map_on ?_
    rintro ⟨s, d⟩ hx ⟨s', d'⟩ hy he
    obtain ⟨l, hl, hle⟩ := List.mem_map.mp hx
    obtain ⟨l', hl', hle'⟩ := List.mem_map.mp hy
    simp only [refs, Prod.mk.injEq] at hle hle' he
    obtain ⟨rfl, rfl⟩ := hle
    obtain ⟨rfl, rfl⟩ := hle'
    rw [h.addr_inj _ (h.src_mem hl) _ (h.src_mem hl') he.1,
      h.addr_inj _ (h.dst_mem hl) _ (h.dst_mem hl') he.2]

theorem LinkDeleted.delOk {lc lc' : LcGraph} {l : LcLink} (h : LinkDeleted lc l lc') :
    LcDelOk lc l lc' := by
  refine ⟨h.links, fun r hr => ?_, fun r hr => ((h.nodes r).mp hr).1, h.inv.repOk⟩
  rw [h.nodes r]
  constructor
  · intro hn
    by_contra hz
    exact hn ⟨hr, hz⟩
  · intro hz hn
    exact hn.2 hz

theorem lcRun_repOk {ops : List LcOp} {lc : LcGraph} (hrun : lcRun ops lcInit = some lc)
    (hroom : lcRunRoom ops lcInit) :
    LcRepOk lc ∧ ∀ l ∈ lc.links.head, ∃ lc', unlockedLinkDel lc l = some lc' ∧ LcDelOk lc l lc' := by
  have hi := lcRun_inv ops lcInit lc lcInit_inv hroom hrun
  refine ⟨hi.repOk, fun l hl => ?_⟩
  obtain ⟨lc', he, hd⟩ := unlockedLinkDel_spec hi hl
  exact ⟨lc', he, hd.delOk⟩

def hubAddr : InAddr := ⟨10, 0, 0, 1⟩

def leafAddr (i : ℕ) : InAddr := ⟨10, 0, 1, UInt8.ofNat i⟩

def starOps (n : ℕ) : List LcOp :=
  (List.range n).map fun i => LcOp.linkAdd default hubAddr (leafAddr i) 0 0 1

theorem starOps_two_room : lcRunRoom (starOps 2) lcInit := by
  refine ⟨⟨Or.inr ?_, Or.inr ?_, Or.inr ?_⟩, fun lc' h => ?_⟩
  · decide
  · decide
  · decide
  · cases h
    refine ⟨⟨Or.inl ?_, Or.inr ?_, Or.inr ?_⟩, fun _ _ => trivial⟩
    all_goals decide

theorem lcRun_repOk_star : ∃ lc, lcRun (starOps 2) lcInit = some lc ∧ LcRepOk lc := by
  obtain ⟨lc, hrun⟩ : ∃ lc, lcRun (starOps 2) lcInit = some lc := ⟨_, rfl⟩
  exact ⟨lc, hrun, (lcRun_repOk hrun starOps_two_room).1⟩

theorem LcInv.nodes_le_links {lc : LcGraph} (h : LcInv lc) :
    lc.nodes.head.length ≤ 2 * lc.links.head.length := by
  obtain ⟨h, hlive⟩ := h
  have hsub : ∀ r ∈ lc.nodes.head,
      r ∈ lc.links.head.map LcLink.src ++ lc.links.head.map LcLink.dst := by
    intro r hr
    by_contra hn
    have hz : endpoints lc.links.head r = 0 := by
      refine endpoints_eq_zero.mpr fun l hl => ⟨?_, ?_⟩
      · rintro rfl
        exact hn (List.mem_append_left _ (List.mem_map_of_mem hl))
      · rintro rfl
        exact hn (List.mem_append_right _ (List.mem_map_of_mem hl))
    have hc := h.count r hr
    have hl := hlive r hr
    omega
  have hlen := (List.subperm_of_subset h.nodes_nodup hsub).length_le
  simp only [List.length_append, List.length_map] at hlen
  omega

theorem LcInv.nodes_len_le {lc : LcGraph} (h : LcInv lc) : lc.nodes.len ≤ 200 := by
  have hw : lc.nodes.len = lc.nodes.head.length := h.1.nodes_wf
  have hl := h.nodes_le_links
  have hm := h.1.links_length
  unfold lcLinksMax at hm
  omega

theorem nodeFindOrAdd_len (lc : LcGraph) (addr : InAddr) :
    (nodeFindOrAdd lc addr).1.nodes.len ≤ lc.nodes.len + 1 ∧
      (nodeFindOrAdd lc addr).1.nodes.maxLen = lc.nodes.maxLen ∧
      (nodeFindOrAdd lc addr).1.links = lc.links := by
  unfold nodeFindOrAdd
  split
  · exact ⟨Nat.le_succ _, rfl, rfl⟩
  · dsimp only [lcNodeCreate]
    refine ⟨?_, ?_, rfl⟩ <;> unfold Tbl.addTail <;> split <;> simp

theorem LcInv.node_rooms {lc : LcGraph} (h : LcInv lc) (src dst : InAddr) :
    nodeRoom lc src ∧ nodeRoom (nodeFindOrAdd lc src).1 dst := by
  have hlen := h.nodes_len_le
  have hmax : lc.nodes.maxLen = 500 := h.1.nodes_max
  obtain ⟨hadd, hmax', _⟩ := nodeFindOrAdd_len lc src
  exact ⟨Or.inr (by omega), Or.inr (by omega)⟩

theorem LcInv.addRoom_of_lt {lc : LcGraph} (h : LcInv lc) (src dst : InAddr)
    (hlt : lc.links.len < lc.links.maxLen) : addRoom lc src dst := by
  obtain ⟨h₁, h₂⟩ := h.node_rooms src dst
  refine ⟨h₁, h₂, Or.inr ?_⟩
  rw [(nodeFindOrAdd_len _ dst).2.2, (nodeFindOrAdd_len lc src).2.2]
  exact hlt

theorem unlockedLinkAdd_full {lc : LcGraph} (h : LcInv lc) {src dst : InAddr} (now : Timeval)
    (timeout : ℕ) (status cost : Int) (hfull : lc.links.maxLen ≤ lc.links.len)
    (hnew : (src, dst) ∉ lc.links.head.map lc.linkPair) :
    ¬ LcRepOk (unlockedLinkAdd now src dst timeout status cost lc) := by
  obtain ⟨hr₁, hr₂⟩ := h.node_rooms src dst
  have hn₁ := nodeFindOrAdd_spec h.1 hr₁
  unfold unlockedLinkAdd
  generalize nodeFindOrAdd lc src = p₁ at hn₁ hr₂ ⊢
  obtain ⟨lc₁, sn⟩ := p₁
  have hn₂ := nodeFindOrAdd_spec hn₁.rep hr₂
  simp only at hn₁ hr₂ hn₂ ⊢
  generalize nodeFindOrAdd lc₁ dst = p₂ at hn₂ ⊢
  obtain ⟨lc₂, dn⟩ := p₂
  simp only at hn₂ ⊢
  obtain ⟨hsn, hsa⟩ := hn₂.old sn hn₁.mem
  rw [hn₁.addr_eq] at hsa
  have hlinks : lc₂.links = lc.links := hn₂.links.trans hn₁.links
  have haddr : ∀ x ∈ lc.nodes.head, lc₂.addr x = lc.addr x := by
    intro x hx
    obtain ⟨hx₁, ha₁⟩ := hn₁.old x hx
    exact (hn₂.old x hx₁).2.trans ha₁
  have hfind : linkFind lc₂ (lc₂.addr sn) (lc₂.addr dn) = none := by
    rw [hsa, hn₂.addr_eq]
    refine List.find?_eq_none.mpr fun l hl => ?_
    rw [hlinks] at hl
    simp only [critLinkQuery, haddr _ (h.1.src_mem hl), haddr _ (h.1.dst_mem hl),
      decide_eq_true_eq]
    rintro ⟨hs, hd⟩
    exact hnew (List.mem_map.mpr ⟨l, hl, by rw [LcGraph.linkPair, hs, hd]⟩)
  have hadd : ∀ l, lc₂.links.addTail l = none := by
    intro l
    rw [hlinks]
    exact Tbl.addTail_of_full l hfull
  intro hok
  have hcount := hok.count dn
  simp only [linkTblAdd, hfind, hadd, Option.getD_none] at hcount
  have hdc := hn₂.rep.count dn hn₂.mem
  have hsmall : ∀ x ∈ lc₂.nodes.head, (lc₂.heap x).links < 4294967294 := by
    intro x hx
    have := hn₂.rep.links_lt hx
    omega
  have hs := hsmall sn hsn
  have hd := hsmall dn hn₂.mem
  have hinc₁ := incLinks_links lc₂ (r := sn) (Nat.lt_succ_of_lt hs)
  have hinc₂ := incLinks_links (incLinks lc₂ sn) (r := dn) (by rw [hinc₁]; split <;> omega) dn
  rw [hinc₁] at hinc₂
  have hmem : dn ∈ (incLinks (incLinks lc₂ sn) dn).nodes.head := hn₂.mem
  have hend : (incLinks (incLinks lc₂ sn) dn).links = lc₂.links := rfl
  have hbad := hcount hmem
  rw [hinc₂, hend, if_pos rfl] at hbad
  omega

theorem lcRun_snoc (ops : List LcOp) (op : LcOp) : ∀ lc,
    lcRun (ops ++ [op]) lc = (lcRun ops lc).bind op.exec := by
  induction ops with
  | nil =>
    intro lc
    simp only [List.nil_append, lcRun, Option.bind_some]
    cases op.exec lc <;> rfl
  | cons o ops ih =>
    intro lc
    simp only [List.cons_append, lcRun]
    cases o.exec lc with
    | none => rfl
    | some lc₁ => exact ih lc₁

theorem LinkInserted.linkPairs {lc lc' : LcGraph} {src dst : InAddr} (h : LinkInserted lc src dst lc')
    (hi : LcInv lc) (hnew : (src, dst) ∉ lc.links.head.map lc.linkPair) :
    lc'.links.head.map lc'.linkPair = lc.links.head.map lc.linkPair ++ [(src, dst)] := by
  obtain ⟨s, hs, d, hd, hsa, hda, hp⟩ := h.pairs
  have hold : (lc.links.head.map refs).map (fun p => (lc'.addr p.1, lc'.addr p.2)) =
      lc.links.head.map lc.linkPair := by
    rw [List.map_map]
    refine List.map_congr_left fun l hl => ?_
    simp only [Function.comp, refs, LcGraph.linkPair, (h.old _ (hi.1.src_mem hl)).2,
      (h.old _ (hi.1.dst_mem hl)).2]
  have hsd : (s, d) ∉ lc.links.head.map refs := by
    intro hm
    refine hnew ?_
    rw [← hold]
    exact List.mem_map.mpr ⟨(s, d), hm, by simp [hsa, hda]⟩
  rw [linkPair_map, hp, if_neg hsd, List.map_append, hold]
  simp [hsa, hda]

theorem leafAddr_inj {i j : ℕ} (hi : i < 256) (hj : j < 256) (h : leafAddr i = leafAddr j) :
    i = j := by
  simp only [leafAddr, InAddr.mk.injEq, true_and] at h
  have := congrArg UInt8.toNat h
  simp only [UInt8.toNat_ofNat'] at this
  omega

theorem starOps_run (n : ℕ) (hn : n ≤ 100) : ∃ lc, lcRun (starOps n) lcInit = some lc ∧
    LcInv lc ∧ lc.links.head.map lc.linkPair = (List.range n).map fun i => (hubAddr, leafAddr i) := by
  induction n with
  | zero => exact ⟨lcInit, rfl, lcInit_inv, rfl⟩
  | succ n ih =>
    obtain ⟨lc, hr, hi, hp⟩ := ih (by omega)
    have hlen := congrArg List.length hp
    simp only [List.length_map, List.length_range] at hlen
    have hw : lc.links.len = lc.links.head.length := hi.1.links_wf
    have hmax : lc.links.maxLen = 100 := hi.1.links_max
    have hnew : (hubAddr, leafAddr n) ∉ lc.links.head.map lc.linkPair := by
      rw [hp]
      intro hm
      obtain ⟨i, hilt, he⟩ := List.mem_map.mp hm
      rw [List.mem_range] at hilt
      have := leafAddr_inj (by omega) (by omega) (Prod.mk.inj he).2
      omega
    have hins := unlockedLinkAdd_spec hi default 0 0 1
      (hi.addRoom_of_lt hubAddr (leafAddr n) (by omega))
    refine ⟨_, ?_, hins.inv, ?_⟩
    · rw [starOps, List.range_succ, List.map_append, List.map_singleton, lcRun_snoc]
      change (lcRun (starOps n) lcInit).bind _ = _
      rw [hr]
      rfl
    · rw [hins.linkPairs hi hnew, hp, List.range_succ, List.map_append, List.map_singleton]

theorem lcRun_full_not_repOk : ∃ lc, lcRun (starOps 101) lcInit = some lc ∧ ¬ LcRepOk lc := by
  obtain ⟨lc, hr, hi, hp⟩ := starOps_run 100 (Nat.le_refl _)
  have hlen := congrArg List.length hp
  simp only [List.length_map, List.length_range] at hlen
  have hw : lc.links.len = lc.links.head.length := hi.1.links_wf
  have hmax : lc.links.maxLen = 100 := hi.1.links_max
  refine ⟨unlockedLinkAdd default hubAddr (leafAddr 100) 0 0 1 lc, ?_, ?_⟩
  · rw [starOps, List.range_succ, List.map_append, List.map_singleton, lcRun_snoc]
    change (lcRun (starOps 100) lcInit).bind _ = _
    rw [hr]
    rfl
  · refine unlockedLinkAdd_full hi default 0 0 1 (by omega) ?_
    rw [hp]
    intro hm
    obtain ⟨i, hilt, he⟩ := List.mem_map.mp hm
    rw [List.mem_range] at hilt
    have := leafAddr_inj (by omega) (by omega) (Prod.mk.inj he).2
    omega

end DsrUu
