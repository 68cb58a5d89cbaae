import DsrUu.LinkCache.Run

namespace DsrUu

open Graph

def LcUnit (lc : LcGraph) : Prop := ∀ l ∈ lc.links.head, l.cost = 1

structure LcSound (lc : LcGraph) : Prop extends LcBase lc where
  unit : LcUnit lc

theorem LcBase.links_length {lc : LcGraph} (h : LcBase lc) :
    lc.links.head.length ≤ lcLinksMax := by
  have hw : lc.links.len = lc.links.head.length := h.links_wf
  have hl := h.links_le
  omega

theorem LcSound.costBound {lc : LcGraph} (h : LcSound lc) (sn : NodeRef) :
    Search.CostBound lc.edge sn lcCostInf := by
  refine Search.CostBound.of_targets (m := 1) (lc.links.head.map LcLink.dst) ?_ ?_
  · rintro u v k ⟨l, hl, _, rfl, rfl⟩
    exact ⟨List.mem_map_of_mem hl, Nat.le_of_eq (h.unit l hl)⟩
  · have hmax := h.toLcBase.links_length
    unfold lcLinksMax at hmax
    unfold lcCostInf
    rw [List.length_map]
    omega

theorem LcSound.costBound_addr {lc : LcGraph} (h : LcSound lc) (src : InAddr) :
    Search.CostBound lc.hasLink src lcCostInf := by
  refine Search.CostBound.of_targets (m := 1) (lc.links.head.map fun l => lc.addr l.dst) ?_ ?_
  · rintro a b k ⟨l, hl, _, rfl, rfl⟩
    exact ⟨List.mem_map_of_mem (f := fun l : LcLink => lc.addr l.dst) hl,
      Nat.le_of_eq (h.unit l hl)⟩
  · have hmax := h.toLcBase.links_length
    unfold lcLinksMax at hmax
    unfold lcCostInf
    rw [List.length_map]
    omega

theorem LcRoute.length_lt {lc : LcGraph} {src dst : InAddr} {srt : DsrSrt} {c : ℕ}
    (h : LcRoute lc src dst srt c) : srt.addrs.length < lc.links.head.length := by
  have hsub : srt.addrs ++ [dst] ⊆ lc.links.head.map fun l => lc.addr l.dst := by
    intro a ha
    refine Walk.mem_of_edge (U := fun a => a ∈ lc.links.head.map fun l => lc.addr l.dst) ?_ h.walk a ha
    rintro u v k ⟨l, hl, _, rfl, _⟩
    exact List.mem_map_of_mem (f := fun l : LcLink => lc.addr l.dst) hl
  have hle := (List.subperm_of_subset (List.nodup_cons.mp h.nodup).2 hsub).length_le
  rw [List.length_append, List.length_singleton, List.length_map] at hle
  exact hle

theorem lcSrtFind_sound {lc : LcGraph} (h : LcSound lc) {src dst : InAddr} (hne : src ≠ dst)
    (mem : ℕ) :
    ∃ r lc', lcSrtFind mem src dst lc = some (r, lc') ∧ SameGraph lc lc' ∧
      LookupResult lc mem src dst r :=
  lcSrtFind_spec h.toLcBase hne (fun sn _ _ => h.costBound sn) mem

theorem SameGraph.sound {lc lc' : LcGraph} (hg : SameGraph lc lc') (h : LcSound lc) :
    LcSound lc' := by
  refine ⟨hg.base h.toLcBase, ?_⟩
  rw [LcUnit, hg.links]
  exact h.unit

theorem dropRef_sound {lc lc' : LcGraph} {r : NodeRef} (h : LcSound lc)
    (hd : dropRef lc r = some lc') : LcSound lc' ∧ lc'.links = lc.links := by
  have haddr : ∀ x, (decLinks lc r).addr x = lc.addr x := LcRep.decLinks_addr lc r
  unfold dropRef at hd
  split at hd
  · obtain ⟨t, ht, rfl⟩ := Option.map_eq_some_iff.mp hd
    have hw := h.nodes_wf.detach ht
    have hsub := Tbl.detach_sublist ht
    have hlen := Tbl.detach_len_le ht
    refine ⟨⟨⟨hw, h.links_wf, hsub.2.trans h.nodes_max, h.links_max, Nat.le_trans hlen h.nodes_le,
      h.links_le, h.nodes_nodup.sublist hsub.1, fun x hx => h.nodes_lt x (hsub.1.subset hx), ?_⟩,
      h.unit⟩, rfl⟩
    intro x hx y hy hxy
    refine h.addr_inj x (hsub.1.subset hx) y (hsub.1.subset hy) ?_
    rw [← haddr x, ← haddr y]
    exact hxy
  · cases hd
    refine ⟨⟨⟨h.nodes_wf, h.links_wf, h.nodes_max, h.links_max, h.nodes_le, h.links_le,
      h.nodes_nodup, h.nodes_lt, ?_⟩, h.unit⟩, rfl⟩
    intro x hx y hy hxy
    exact h.addr_inj x hx y hy (by rwa [haddr, haddr] at hxy)

theorem unlockedLinkDel_sound {lc lc' : LcGraph} {l : LcLink} (h : LcSound lc)
    (hd : unlockedLinkDel lc l = some lc') : LcSound lc' := by
  obtain ⟨lc₁, h₁, hd⟩ := Option.bind_eq_some_iff.mp hd
  obtain ⟨lc₂, h₂, hd⟩ := Option.bind_eq_some_iff.mp hd
  obtain ⟨t, ht, hd⟩ := Option.bind_eq_some_iff.mp hd
  cases hd
  have hs := (dropRef_sound (dropRef_sound h h₁).1 h₂).1
  have hsub := Tbl.detach_sublist ht
  exact ⟨⟨hs.nodes_wf, hs.links_wf.detach ht, hs.nodes_max, hsub.2.trans hs.links_max, hs.nodes_le,
    Nat.le_trans (Tbl.detach_len_le ht) hs.links_le, hs.nodes_nodup, hs.nodes_lt, hs.addr_inj⟩,
    fun l hl => hs.unit l (hsub.1.subset hl)⟩

theorem LcSound.with_src {lc : LcGraph} (h : LcSound lc) (s : Option NodeRef) :
    LcSound { lc with src := s } :=
  ⟨⟨h.nodes_wf, h.links_wf, h.nodes_max, h.links_max, h.nodes_le, h.links_le, h.nodes_nodup,
    h.nodes_lt, h.addr_inj⟩, h.unit⟩

theorem lcLinkDel_sound {lc lc' : LcGraph} {src dst : InAddr} (h : LcSound lc)
    (hd : lcLinkDel src dst lc = some lc') : LcSound lc' := by
  unfold lcLinkDel at hd
  split at hd
  · cases hd
    exact h.with_src none
  · obtain ⟨lc₁, h₁, hd⟩ := Option.bind_eq_some_iff.mp hd
    have hs := unlockedLinkDel_sound h h₁
    split at hd
    · cases hd
      exact hs.with_src none
    · obtain ⟨lc₂, h₂, hd⟩ := Option.bind_eq_some_iff.mp hd
      cases hd
      exact (unlockedLinkDel_sound hs h₂).with_src none

theorem nodeFindOrAdd_sound {lc : LcGraph} (h : LcSound lc) (addr : InAddr) :
    LcSound (nodeFindOrAdd lc addr).1 := by
  unfold nodeFindOrAdd
  cases hf : lc.nodes.find (critAddr lc addr) with
  | some r => exact h
  | none =>
    have hnew := nodes_find_none hf
    have hheap : ∀ x ∈ lc.nodes.head, (lcNodeCreate lc addr).1.addr x = lc.addr x := by
      intro x hx
      have hlt := h.nodes_lt x hx
      simp only [lcNodeCreate, LcGraph.addr]
      rw [Function.update_of_ne (Nat.ne_of_lt hlt)]
    have hself : (lcNodeCreate lc addr).1.addr lc.brk = addr := by
      simp [lcNodeCreate, LcGraph.addr]
    dsimp only
    cases ha : lc.nodes.addTail lc.brk with
    | none =>
      refine ⟨⟨?_, h.links_wf, ?_, h.links_max, ?_, h.links_le, ?_, ?_, ?_⟩, h.unit⟩
      all_goals simp only [lcNodeCreate, ha, Option.getD_none]
      · exact h.nodes_wf
      · exact h.nodes_max
      · exact h.nodes_le
      · exact h.nodes_nodup
      · intro r hr
        exact Nat.lt_succ_of_lt (h.nodes_lt r hr)
      · intro x hx y hy hxy
        exact h.addr_inj x hx y hy (by rw [← hheap x hx, ← hheap y hy]; exact hxy)
    | some t =>
      obtain ⟨hlt, rfl⟩ := Tbl.addTail_eq_some ha
      have hw : lc.nodes.len = lc.nodes.head.length := h.nodes_wf
      have hbrk : lc.brk ∉ lc.nodes.head := fun hm => Nat.lt_irrefl _ (h.nodes_lt _ hm)
      refine ⟨⟨?_, h.links_wf, ?_, h.links_max, ?_, h.links_le, ?_, ?_, ?_⟩, h.unit⟩
      all_goals simp only [lcNodeCreate, ha, Option.getD_some]
      · simp [Tbl.WF, hw]
      · exact h.nodes_max
      · rw [h.nodes_max] at hlt
        exact hlt
      · rw [List.nodup_append]
        refine ⟨h.nodes_nodup, List.nodup_singleton _, ?_⟩
        intro a ha' b hb hab
        rw [List.mem_singleton.mp hb] at hab
        exact hbrk (hab ▸ ha')
      · intro r hr
        rcases List.mem_append.mp hr with hr | hr
        · exact Nat.lt_succ_of_lt (h.nodes_lt r hr)
        · rw [List.mem_singleton.mp hr]
          exact Nat.lt_succ_self _
      · intro x hx y hy hxy
        rcases List.mem_append.mp hx with hx | hx <;> rcases List.mem_append.mp hy with hy | hy
        · exact h.addr_inj x hx y hy (by rw [← hheap x hx, ← hheap y hy]; exact hxy)
        · rw [List.mem_singleton.mp hy] at hxy
          exact absurd ((hheap x hx).symm.trans (hxy.trans hself)) (hnew x hx)
        · rw [List.mem_singleton.mp hx] at hxy
          exact absurd ((hheap y hy).symm.trans (hxy.symm.trans hself)) (hnew y hy)
        · rw [List.mem_singleton.mp hx, List.mem_singleton.mp hy]

theorem LcSound.incLinks {lc : LcGraph} (h : LcSound lc) (r : NodeRef) :
    LcSound (incLinks lc r) := by
  refine ⟨⟨h.nodes_wf, h.links_wf, h.nodes_max, h.links_max, h.nodes_le, h.links_le,
    h.nodes_nodup, h.nodes_lt, ?_⟩, h.unit⟩
  intro x hx y hy hxy
  rw [LcRep.incLinks_addr, LcRep.incLinks_addr] at hxy
  exact h.addr_inj x hx y hy hxy

theorem linkTblAdd_sound {lc : LcGraph} (h : LcSound lc) (now : Timeval) (s d : NodeRef)
    (timeout : ℕ) (status : Int) : LcSound (linkTblAdd lc now s d timeout status 1) := by
  have hcost : toUint32 1 = 1 := rfl
  unfold linkTblAdd
  cases linkFind lc (lc.addr s) (lc.addr d) with
  | none =>
    refine LcSound.incLinks (LcSound.incLinks ?_ s) d
    cases ha : lc.links.addTail { src := s, dst := d, status := status, cost := toUint32 1,
                                  expires := timevalAddUsecs now timeout } with
    | none => exact h
    | some t =>
      obtain ⟨hlt, rfl⟩ := Tbl.addTail_eq_some ha
      refine ⟨⟨h.nodes_wf, h.links_wf.addTail ha, h.nodes_max, h.links_max, h.nodes_le, ?_,
        h.nodes_nodup, h.nodes_lt, h.addr_inj⟩, ?_⟩
      · rw [h.links_max] at hlt
        exact hlt
      · intro l hl
        rcases List.mem_append.mp hl with hl | hl
        · exact h.unit l hl
        · rw [List.mem_singleton.mp hl]
          exact hcost
  | some _ =>
    have hw : lc.links.len = lc.links.head.length := h.links_wf
    refine ⟨⟨h.nodes_wf, ?_, h.nodes_max, h.links_max, h.nodes_le, h.links_le, h.nodes_nodup,
      h.nodes_lt, h.addr_inj⟩, ?_⟩
    · simp [Tbl.WF, Tbl.findDo, Tbl.updateFirst_length, hw]
    · exact Tbl.updateFirst_forall h.unit fun _ _ => hcost

theorem unlockedLinkAdd_sound {lc : LcGraph} (h : LcSound lc) (now : Timeval) (src dst : InAddr)
    (timeout : ℕ) (status : Int) :
    LcSound (unlockedLinkAdd now src dst timeout status 1 lc) :=
  linkTblAdd_sound (nodeFindOrAdd_sound (nodeFindOrAdd_sound h src) dst) now _ _ timeout status

theorem lcSrtAddLoop_sound (now : Timeval) (timeout : ℕ) (bidir : Bool) (rest : List InAddr) :
    ∀ (addr1 : InAddr) (lc : LcGraph), LcSound lc →
      LcSound (lcSrtAddLoop now timeout bidir addr1 rest lc) := by
  induction rest with
  | nil => exact fun _ _ h => h
  | cons addr2 rest ih =>
    intro addr1 lc h
    have h₁ := unlockedLinkAdd_sound h now addr1 addr2 timeout 0
    refine ih addr2 _ ?_
    split
    · exact unlockedLinkAdd_sound h₁ now addr2 addr1 timeout 0
    · exact h₁

theorem lcSrtAdd_sound {lc : LcGraph} (h : LcSound lc) (now : Timeval) (srt : DsrSrt)
    (timeout : ℕ) : LcSound (lcSrtAdd now srt timeout lc) :=
  lcSrtAddLoop_sound now timeout srt.bidir _ srt.src lc h

theorem lcFlush_sound {lc : LcGraph} (h : LcSound lc) : LcSound (lcFlush lc) := by
  refine ⟨⟨h.nodes_wf.flush, h.links_wf.flush, h.nodes_max, h.links_max,
    Nat.le_trans (Nat.sub_le _ _) h.nodes_le, Nat.le_trans (Nat.sub_le _ _) h.links_le,
    List.nodup_nil, ?_, ?_⟩, ?_⟩
  · intro r hr
    cases hr
  · intro r hr
    cases hr
  · intro l hl
    cases hl

theorem lcInit_sound : LcSound lcInit :=
  ⟨lcInit_inv.1.toLcBase, fun l hl => by cases hl⟩

def LcOp.unit : LcOp → Prop
  | linkAdd _ _ _ _ _ cost => cost = 1
  | _ => True

theorem LcOp.exec_sound {lc lc' : LcGraph} (h : LcSound lc) (op : LcOp) (hunit : op.unit)
    (he : op.exec lc = some lc') : LcSound lc' := by
  cases op with
  | linkAdd now src dst timeout status cost =>
    cases he
    rw [show cost = 1 from hunit]
    exact unlockedLinkAdd_sound h now src dst timeout status
  | srtAdd now srt timeout =>
    cases he
    exact lcSrtAdd_sound h now srt timeout
  | linkDel src dst => exact lcLinkDel_sound h he
  | srtFind mem src dst =>
    obtain ⟨⟨r, lc₁⟩, hf, rfl⟩ := Option.map_eq_some_iff.mp he
    exact (lcSrtFind_graph h.toLcBase hf).sound h
  | flush =>
    cases he
    exact lcFlush_sound h

theorem lcRun_sound (ops : List LcOp) : ∀ lc lc' : LcGraph, LcSound lc → (∀ op ∈ ops, op.unit) →
    lcRun ops lc = some lc' → LcSound lc' := by
  induction ops with
  | nil =>
    intro lc lc' h _ hr
    cases hr
    exact h
  | cons op ops ih =>
    intro lc lc' h hunit hr
    obtain ⟨lc₁, he, hr⟩ := Option.bind_eq_some_iff.mp hr
    exact ih lc₁ lc' (op.exec_sound h (hunit op (by simp)) he)
      (fun o ho => hunit o (by simp [ho])) hr

def lcSearch (q : ℕ × InAddr × InAddr) : LcOp := .srtFind q.1 q.2.1 q.2.2

theorem lcRun_search (qs : List (ℕ × InAddr × InAddr)) : ∀ {lc lc' : LcGraph}, LcSound lc →
    lcRun (qs.map lcSearch) lc = some lc' → LcSound lc' ∧ lc'.hasLink = lc.hasLink := by
  induction qs with
  | nil =>
    intro lc lc' h hrun
    cases hrun
    exact ⟨h, rfl⟩
  | cons q qs ih =>
    intro lc lc' h hrun
    obtain ⟨lc₁, hexec, hrun⟩ := Option.bind_eq_some_iff.mp hrun
    obtain ⟨⟨f, lc₂⟩, hf, rfl⟩ := Option.map_eq_some_iff.mp hexec
    have hg := lcSrtFind_graph h.toLcBase hf
    obtain ⟨hsound, hlinks⟩ := ih (hg.sound h) hrun
    exact ⟨hsound, hlinks.trans hg.hasLink⟩

end DsrUu
