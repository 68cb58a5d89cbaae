import DsrUu.LinkCache.Sound
import Mathlib.Data.List.Find

namespace DsrUu

structure LcRefs (lc : LcGraph) : Prop where
  nodes : ∀ r ∈ lc.nodes.head, r < lc.brk
  links : ∀ l ∈ lc.links.head, l.src < lc.brk ∧ l.dst < lc.brk

def LcGraph.linkAt (lc : LcGraph) (a b : InAddr) : Option (ℕ × Timeval) :=
  (linkFind lc a b).map fun l => (l.cost, l.expires)

structure NodeGot (lc : LcGraph) (addr : InAddr) (lc' : LcGraph) (r : NodeRef) : Prop where
  refs : LcRefs lc'
  links : lc'.links = lc.links
  lt : r < lc'.brk
  addr_eq : lc'.addr r = addr
  brk_le : lc.brk ≤ lc'.brk
  old : ∀ x, x < lc.brk → lc'.addr x = lc.addr x

theorem nodeFindOrAdd_got {lc : LcGraph} (h : LcRefs lc) (addr : InAddr) :
    NodeGot lc addr (nodeFindOrAdd lc addr).1 (nodeFindOrAdd lc addr).2 := by
  unfold nodeFindOrAdd
  cases hf : lc.nodes.find (critAddr lc addr) with
  | some r =>
    obtain ⟨hm, ha⟩ := nodes_find_some hf
    exact ⟨h, rfl, h.nodes r hm, ha, Nat.le_refl _, fun _ _ => rfl⟩
  | none =>
    refine ⟨⟨fun r hr => ?_, fun l hl => ?_⟩, rfl, Nat.lt_succ_self _, ?_, Nat.le_succ _, fun x hx => ?_⟩
    · rcases Tbl.mem_addTail_getD hr with rfl | hr
      · exact Nat.lt_succ_self _
      · exact Nat.lt_succ_of_lt (h.nodes r hr)
    · exact ⟨Nat.lt_succ_of_lt (h.links l hl).1, Nat.lt_succ_of_lt (h.links l hl).2⟩
    · simp [lcNodeCreate, LcGraph.addr]
    · simp only [lcNodeCreate, LcGraph.addr]
      rw [Function.update_of_ne (Nat.ne_of_lt hx)]

theorem linkFind_congr {lc lc' : LcGraph} (h : LcRefs lc) (hl : lc'.links = lc.links)
    (ha : ∀ x, x < lc.brk → lc'.addr x = lc.addr x) (a b : InAddr) : linkFind lc' a b = linkFind lc a b := by
  rw [linkFind, linkFind, hl]
  refine List.find?_congr fun l hm => ?_
  rw [critLinkQuery, critLinkQuery, ha _ (h.links l hm).1, ha _ (h.links l hm).2]

structure LinkSet (lc : LcGraph) (a b : InAddr) (d : ℕ × Timeval) (lc' : LcGraph) : Prop where
  refs : LcRefs lc'
  at_eq : ∀ x y, lc'.linkAt x y = if (x, y) = (a, b) then some d else lc.linkAt x y

theorem linkTblAdd_set {lc : LcGraph} (h : LcRefs lc) {s d : NodeRef} (hs : s < lc.brk) (hd : d < lc.brk)
    (now : Timeval) (timeout : ℕ) (status cost : Int) (hroom : linkRoom lc (lc.addr s) (lc.addr d)) :
    LinkSet lc (lc.addr s) (lc.addr d) (toUint32 cost, timevalAddUsecs now timeout)
      (linkTblAdd lc now s d timeout status cost) := by
  unfold linkTblAdd
  cases hf : linkFind lc (lc.addr s) (lc.addr d) with
  | none =>
    obtain ⟨t, ht⟩ : ∃ t, lc.links.addTail { src := s, dst := d, status := status, cost := toUint32 cost
                                             expires := timevalAddUsecs now timeout } = some t :=
      ⟨_, Tbl.addTail_of_lt _ (hroom.resolve_left fun hne => hne hf)⟩
    have hnone := linkFind_none hf
    have hhead := (Tbl.addTail_eq_some ht).2
    dsimp only
    rw [ht, Option.getD_some]
    have haddr : ∀ x, (incLinks (incLinks { lc with links := t } s) d).addr x = lc.addr x := fun x =>
      (LcRep.incLinks_addr _ _ _).trans (LcRep.incLinks_addr _ _ _)
    refine ⟨⟨h.nodes, fun l hl => ?_⟩, fun x y => ?_⟩
    · change l ∈ t.head at hl
      rw [hhead] at hl
      rcases List.mem_append.mp hl with hl | hl
      · exact h.links l hl
      · rw [List.mem_singleton.mp hl]
        exact ⟨hs, hd⟩
    · have hcrit : ∀ l, critLinkQuery (incLinks (incLinks { lc with links := t } s) d) x y l =
          critLinkQuery lc x y l := fun l => by rw [critLinkQuery, critLinkQuery, haddr, haddr]
      have hfind : linkFind (incLinks (incLinks { lc with links := t } s) d) x y =
          t.head.find? (critLinkQuery lc x y) := List.find?_congr fun l _ => hcrit l
      rw [LcGraph.linkAt, hfind, hhead, List.find?_append]
      by_cases he : (x, y) = (lc.addr s, lc.addr d)
      · rw [if_pos he]
        obtain ⟨rfl, rfl⟩ := Prod.mk.inj he
        have hnf : lc.links.head.find? (critLinkQuery lc (lc.addr s) (lc.addr d)) = none := hf
        rw [hnf]
        simp [critLinkQuery]
      · rw [if_neg he]
        have hnew : ([{ src := s, dst := d, status := status, cost := toUint32 cost
                        expires := timevalAddUsecs now timeout }] : List LcLink).find?
            (critLinkQuery lc x y) = none := by
          refine List.find?_eq_none.mpr fun l hl hc => he ?_
          rw [List.mem_singleton.mp hl] at hc
          simp only [critLinkQuery, decide_eq_true_eq] at hc
          exact Prod.ext hc.1.symm hc.2.symm
        rw [hnew, Option.or_none]
        rfl
  | some l₀ =>
    dsimp only
    refine ⟨⟨h.nodes, ?_⟩, fun x y => ?_⟩
    · exact Tbl.updateFirst_forall h.links fun l hl => h.links l hl
    · rw [LcGraph.linkAt, linkFind, Tbl.find, Tbl.findDo]
      by_cases he : (x, y) = (lc.addr s, lc.addr d)
      · rw [if_pos he]
        obtain ⟨rfl, rfl⟩ := Prod.mk.inj he
        have hsf : lc.links.head.find? (critLinkQuery lc (lc.addr s) (lc.addr d)) = some l₀ := hf
        have hself := Tbl.find?_updateFirst_self (p := critLinkQuery lc (lc.addr s) (lc.addr d))
          (f := fun l => { l with status := status, cost := toUint32 cost
                                  expires := timevalAddUsecs now timeout }) (fun l hl => hl) lc.links.head
        rw [hsf] at hself
        exact congrArg (Option.map _) hself
      · rw [if_neg he]
        refine congrArg (Option.map _) (Tbl.find?_updateFirst_ne (fun l hl => ?_) lc.links.head)
        have hno : critLinkQuery lc x y l = false := by
          simp only [critLinkQuery, decide_eq_true_eq, decide_eq_false_iff_not] at hl ⊢
          rintro ⟨rfl, rfl⟩
          exact he (Prod.ext hl.1 hl.2)
        exact ⟨hno, hno⟩

theorem unlockedLinkAdd_set {lc : LcGraph} (h : LcRefs lc) {a b : InAddr} (now : Timeval) (timeout : ℕ)
    (status cost : Int) (hroom : linkRoom lc a b) :
    LinkSet lc a b (toUint32 cost, timevalAddUsecs now timeout)
      (unlockedLinkAdd now a b timeout status cost lc) := by
  have h₁ := nodeFindOrAdd_got h a
  unfold unlockedLinkAdd
  generalize nodeFindOrAdd lc a = p₁ at h₁ ⊢
  obtain ⟨lc₁, s⟩ := p₁
  have h₂ := nodeFindOrAdd_got h₁.refs b
  simp only at h₁ h₂ ⊢
  generalize nodeFindOrAdd lc₁ b = p₂ at h₂ ⊢
  obtain ⟨lc₂, d⟩ := p₂
  simp only at h₂ ⊢
  have hold : ∀ x, x < lc.brk → lc₂.addr x = lc.addr x := fun x hx =>
    (h₂.old x (Nat.lt_of_lt_of_le hx h₁.brk_le)).trans (h₁.old x hx)
  have hfind : ∀ x y, linkFind lc₂ x y = linkFind lc x y :=
    linkFind_congr h (h₂.links.trans h₁.links) hold
  have ha : lc₂.addr s = a := (h₂.old s h₁.lt).trans h₁.addr_eq
  have hroom' : linkRoom lc₂ (lc₂.addr s) (lc₂.addr d) := by
    rw [linkRoom, hfind, ha, h₂.addr_eq, h₂.links, h₁.links]
    exact hroom
  have hset := linkTblAdd_set h₂.refs (Nat.lt_of_lt_of_le h₁.lt h₂.brk_le) h₂.lt now timeout status cost
    hroom'
  rw [ha, h₂.addr_eq] at hset
  refine ⟨hset.refs, fun x y => ?_⟩
  rw [hset.at_eq, LcGraph.linkAt, LcGraph.linkAt, hfind]

theorem linkTblAdd_refs {lc : LcGraph} (h : LcRefs lc) {s d : NodeRef} (hs : s < lc.brk) (hd : d < lc.brk)
    (now : Timeval) (timeout : ℕ) (status cost : Int) :
    LcRefs (linkTblAdd lc now s d timeout status cost) := by
  unfold linkTblAdd
  split
  · refine ⟨h.nodes, fun l hl => ?_⟩
    rcases Tbl.mem_addTail_getD hl with rfl | hl
    · exact ⟨hs, hd⟩
    · exact h.links l hl
  · exact ⟨h.nodes, Tbl.updateFirst_forall h.links fun l hl => h.links l hl⟩

theorem unlockedLinkAdd_refs {lc : LcGraph} (h : LcRefs lc) (now : Timeval) (a b : InAddr) (timeout : ℕ)
    (status cost : Int) : LcRefs (unlockedLinkAdd now a b timeout status cost lc) := by
  have h₁ := nodeFindOrAdd_got h a
  have h₂ := nodeFindOrAdd_got h₁.refs b
  exact linkTblAdd_refs h₂.refs (Nat.lt_of_lt_of_le h₁.lt h₂.brk_le) h₂.lt now timeout status cost

theorem lcSrtAddLoop_refs (now : Timeval) (timeout : ℕ) (bidir : Bool) (rest : List InAddr) :
    ∀ (addr1 : InAddr) (lc : LcGraph), LcRefs lc → LcRefs (lcSrtAddLoop now timeout bidir addr1 rest lc) := by
  induction rest with
  | nil => exact fun _ _ h => h
  | cons addr2 rest ih =>
    intro addr1 lc h
    have h₁ := unlockedLinkAdd_refs h now addr1 addr2 timeout 0 1
    refine ih addr2 _ ?_
    split
    · exact unlockedLinkAdd_refs h₁ now addr2 addr1 timeout 0 1
    · exact h₁

theorem dropRef_refs {lc lc' : LcGraph} {r : NodeRef} (h : LcRefs lc) (hd : dropRef lc r = some lc') :
    LcRefs lc' := by
  unfold dropRef at hd
  split at hd
  · obtain ⟨t, ht, rfl⟩ := Option.map_eq_some_iff.mp hd
    exact ⟨fun x hx => h.nodes x ((Tbl.detach_sublist ht).1.subset hx), h.links⟩
  · cases hd
    exact ⟨h.nodes, h.links⟩

theorem unlockedLinkDel_refs {lc lc' : LcGraph} {l : LcLink} (h : LcRefs lc)
    (hd : unlockedLinkDel lc l = some lc') : LcRefs lc' := by
  obtain ⟨lc₁, h₁, hd⟩ := Option.bind_eq_some_iff.mp hd
  obtain ⟨lc₂, h₂, hd⟩ := Option.bind_eq_some_iff.mp hd
  obtain ⟨t, ht, hd⟩ := Option.bind_eq_some_iff.mp hd
  cases hd
  have hs := dropRef_refs (dropRef_refs h h₁) h₂
  exact ⟨hs.nodes, fun l hl => hs.links l ((Tbl.detach_sublist ht).1.subset hl)⟩

theorem lcLinkDel_refs {lc lc' : LcGraph} {src dst : InAddr} (h : LcRefs lc)
    (hd : lcLinkDel src dst lc = some lc') : LcRefs lc' := by
  unfold lcLinkDel at hd
  split at hd
  · cases hd
    exact ⟨h.nodes, h.links⟩
  · obtain ⟨lc₁, h₁, hd⟩ := Option.bind_eq_some_iff.mp hd
    have hs := unlockedLinkDel_refs h h₁
    split at hd
    · cases hd
      exact ⟨hs.nodes, hs.links⟩
    · obtain ⟨lc₂, h₂, hd⟩ := Option.bind_eq_some_iff.mp hd
      cases hd
      have hs₂ := unlockedLinkDel_refs hs h₂
      exact ⟨hs₂.nodes, hs₂.links⟩

theorem SameGraph.refs {lc lc' : LcGraph} (hg : SameGraph lc lc') (h : LcRefs lc) : LcRefs lc' := by
  refine ⟨fun r hr => ?_, fun l hl => ?_⟩
  · rw [hg.brk]
    exact h.nodes r (hg.nodes.mem_iff.mp hr)
  · rw [hg.brk]
    rw [hg.links] at hl
    exact h.links l hl

theorem LcOp.exec_refs {lc lc' : LcGraph} (hb : LcBase lc) (h : LcRefs lc) (op : LcOp)
    (he : op.exec lc = some lc') : LcRefs lc' := by
  cases op with
  | linkAdd now src dst timeout status cost =>
    cases he
    exact unlockedLinkAdd_refs h now src dst timeout status cost
  | srtAdd now srt timeout =>
    cases he
    exact lcSrtAddLoop_refs now timeout srt.bidir _ srt.src lc h
  | linkDel src dst => exact lcLinkDel_refs h he
  | srtFind mem src dst =>
    obtain ⟨⟨r, lc₁⟩, hf, rfl⟩ := Option.map_eq_some_iff.mp he
    exact (lcSrtFind_graph hb hf).refs h
  | flush =>
    cases he
    exact ⟨fun r hr => absurd hr List.not_mem_nil, fun l hl => absurd hl List.not_mem_nil⟩

theorem lcInit_refs : LcRefs lcInit :=
  ⟨fun _ hr => absurd hr List.not_mem_nil, fun _ hl => absurd hl List.not_mem_nil⟩

theorem lcRun_refs (ops : List LcOp) : ∀ lc lc' : LcGraph, LcSound lc → LcRefs lc →
    (∀ op ∈ ops, op.unit) → lcRun ops lc = some lc' → LcRefs lc' := by
  induction ops with
  | nil =>
    intro lc lc' _ h _ hr
    cases hr
    exact h
  | cons op ops ih =>
    intro lc lc' hs h hunit hr
    obtain ⟨lc₁, he, hr⟩ := Option.bind_eq_some_iff.mp hr
    exact ih lc₁ lc' (op.exec_sound hs (hunit op List.mem_cons_self) he) (op.exec_refs hs.toLcBase h he)
      (fun o ho => hunit o (List.mem_cons_of_mem op ho)) hr

end DsrUu
