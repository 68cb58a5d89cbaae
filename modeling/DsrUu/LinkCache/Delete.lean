import DsrUu.LinkCache.Capacity
import DsrUu.LinkCache.Forward

namespace DsrUu

open Graph

def LcGraph.joined (lc : LcGraph) (a b : InAddr) : Prop := ∃ c, lc.hasLink a b c

theorem joined_iff {lc : LcGraph} {a b : InAddr} :
    lc.joined a b ↔ ∃ l ∈ lc.links.head, lc.linkPair l = (a, b) := by
  constructor
  · rintro ⟨c, l, hl, rfl, rfl, -⟩
    exact ⟨l, hl, rfl⟩
  · rintro ⟨l, hl, hp⟩
    cases hp
    exact ⟨l.cost, l, hl, rfl, rfl, rfl⟩

theorem LcInv.pair_inj {lc : LcGraph} (h : LcInv lc) {l m : LcLink} (hl : l ∈ lc.links.head)
    (hm : m ∈ lc.links.head) (hp : lc.linkPair l = lc.linkPair m) : l = m :=
  List.inj_on_of_nodup_map h.repOk.pairs_unique hl hm hp

theorem LcInv.linkFind_iff {lc : LcGraph} (h : LcInv lc) {a b : InAddr} {l : LcLink} :
    linkFind lc a b = some l ↔ l ∈ lc.links.head ∧ lc.linkPair l = (a, b) := by
  constructor
  · intro hf
    obtain ⟨hl, rfl, rfl⟩ := linkFind_mem hf
    exact ⟨hl, rfl⟩
  · rintro ⟨hl, hp⟩
    cases hf : linkFind lc a b with
    | none =>
      cases hp
      exact absurd ⟨rfl, rfl⟩ (linkFind_none hf l hl)
    | some m =>
      obtain ⟨hm, rfl, rfl⟩ := linkFind_mem hf
      rw [h.pair_inj hl hm hp]

theorem LcInv.linkAt_none {lc : LcGraph} (h : LcInv lc) {a b : InAddr} :
    lc.linkAt a b = none ↔ ¬ lc.joined a b := by
  rw [LcGraph.linkAt, Option.map_eq_none_iff, joined_iff, Option.eq_none_iff_forall_ne_some]
  simp only [ne_eq, h.linkFind_iff, not_and, not_exists]

theorem LinkDeleted.linkPair {lc lc' : LcGraph} {l : LcLink} (hd : LinkDeleted lc l lc') (m : LcLink) :
    lc'.linkPair m = lc.linkPair m := by
  rw [LcGraph.linkPair, LcGraph.linkPair, hd.addr, hd.addr]

theorem LinkDeleted.linkAt {lc lc' : LcGraph} (h : LcInv lc) {l : LcLink} (hl : l ∈ lc.links.head)
    (hd : LinkDeleted lc l lc') (x y : InAddr) :
    lc'.linkAt x y = if (x, y) = lc.linkPair l then none else lc.linkAt x y := by
  have hmem : ∀ m, m ∈ lc'.links.head ↔ m ≠ l ∧ m ∈ lc.links.head := by
    intro m
    rw [hd.links]
    exact (List.Nodup.of_map lc.linkPair h.repOk.pairs_unique).mem_erase_iff
  split
  · next hp =>
    rw [hd.inv.linkAt_none, joined_iff]
    rintro ⟨m, hm, hmp⟩
    rw [hd.linkPair, hp] at hmp
    obtain ⟨hne, hm⟩ := (hmem m).mp hm
    exact hne (h.pair_inj hm hl hmp)
  · next hp =>
    unfold LcGraph.linkAt
    refine congrArg _ (Option.ext fun m => ?_)
    rw [hd.inv.linkFind_iff, h.linkFind_iff, hmem, hd.linkPair]
    constructor
    · rintro ⟨⟨-, hm⟩, hmp⟩
      exact ⟨hm, hmp⟩
    · rintro ⟨hm, hmp⟩
      exact ⟨⟨fun he => hp (he ▸ hmp.symm), hm⟩, hmp⟩

structure LinksCut (lc : LcGraph) (cut : InAddr × InAddr → Prop) (lc' : LcGraph) : Prop where
  inv : LcInv lc'
  gone : ∀ x y, cut (x, y) → lc'.linkAt x y = none
  kept : ∀ x y, ¬ cut (x, y) → lc'.linkAt x y = lc.linkAt x y
  nodes : ∀ r, r ∈ lc'.nodes.head ↔ r ∈ lc.nodes.head ∧ endpoints lc'.links.head r ≠ 0

theorem LcInv.endpoints_ne {lc : LcGraph} (h : LcInv lc) {r : NodeRef} (hr : r ∈ lc.nodes.head) :
    endpoints lc.links.head r ≠ 0 := by
  have hc := h.repOk.count r hr
  have hl := h.repOk.live r hr
  omega

theorem endpoints_sublist {xs ys : List LcLink} (h : xs.Sublist ys) (r : NodeRef) :
    endpoints xs r ≤ endpoints ys r :=
  Nat.add_le_add (h.countP_le) (h.countP_le)

def pairCut (lc : LcGraph) (a b : InAddr) (p : InAddr × InAddr) : Prop :=
  p = (a, b) ∨ (p = (b, a) ∧ lc.linkAt a b ≠ none)

theorem lcLinkDel_cut {lc : LcGraph} (h : LcInv lc) (a b : InAddr) :
    ∃ lc', lcLinkDel a b lc = some lc' ∧ LinksCut lc (pairCut lc a b) lc' := by
  unfold lcLinkDel
  cases hf : linkFind lc a b with
  | none =>
    have hnone : lc.linkAt a b = none := by rw [LcGraph.linkAt, hf, Option.map_none]
    refine ⟨_, rfl, h.with_src none, ?_, fun _ _ _ => rfl, fun r => ?_⟩
    · rintro x y (hc | ⟨-, hc⟩)
      · cases hc
        exact hnone
      · exact absurd hnone hc
    · exact ⟨fun hr => ⟨hr, h.endpoints_ne hr⟩, And.left⟩
  | some l =>
    obtain ⟨hl, rfl, rfl⟩ := linkFind_mem hf
    have hsome : lc.linkAt (lc.addr l.src) (lc.addr l.dst) ≠ none := by
      rw [LcGraph.linkAt, hf, Option.map_some]
      exact Option.some_ne_none _
    obtain ⟨lc₁, he₁, hd₁⟩ := unlockedLinkDel_spec h hl
    have hat₁ : ∀ x y, lc₁.linkAt x y = if (x, y) = (lc.addr l.src, lc.addr l.dst) then none
        else lc.linkAt x y := hd₁.linkAt h hl
    simp only [he₁, Option.bind_eq_bind, Option.bind_some]
    cases hf₁ : linkFind lc₁ (lc.addr l.dst) (lc.addr l.src) with
    | none =>
      have hnone : lc₁.linkAt (lc.addr l.dst) (lc.addr l.src) = none := by
        rw [LcGraph.linkAt, hf₁, Option.map_none]
      refine ⟨_, rfl, hd₁.inv.with_src none, ?_, fun x y hc => ?_, hd₁.nodes⟩
      · rintro x y (hc | ⟨hc, -⟩)
        · exact (hat₁ x y).trans (if_pos hc)
        · cases hc
          exact hnone
      · exact (hat₁ x y).trans (if_neg fun he => hc (Or.inl he))
    | some l₁ =>
      obtain ⟨hl₁, hs₁, hd₁'⟩ := linkFind_mem hf₁
      obtain ⟨lc₂, he₂, hd₂⟩ := unlockedLinkDel_spec hd₁.inv hl₁
      have hat₂ : ∀ x y, lc₂.linkAt x y = if (x, y) = (lc.addr l.dst, lc.addr l.src) then none
          else lc₁.linkAt x y := by
        intro x y
        rw [hd₂.linkAt hd₁.inv hl₁, LcGraph.linkPair, hs₁, hd₁']
      simp only [he₂, Option.bind_some]
      refine ⟨_, rfl, hd₂.inv.with_src none, ?_, fun x y hc => ?_, fun r => ?_⟩
      · rintro x y (hc | ⟨hc, -⟩)
        · refine (hat₂ x y).trans (ite_eq_left_iff.mpr fun _ => ?_)
          exact (hat₁ x y).trans (if_pos hc)
        · exact (hat₂ x y).trans (if_pos hc)
      · refine (hat₂ x y).trans ((if_neg fun he => hc (Or.inr ⟨he, hsome⟩)).trans ?_)
        exact (hat₁ x y).trans (if_neg fun he => hc (Or.inl he))
      · change r ∈ lc₂.nodes.head ↔ _ ∧ endpoints lc₂.links.head r ≠ 0
        rw [hd₂.nodes, hd₁.nodes, and_assoc]
        refine and_congr_right fun _ => and_iff_right_of_imp fun hz => ?_
        have hle : endpoints lc₂.links.head r ≤ endpoints lc₁.links.head r := by
          rw [hd₂.links]
          exact endpoints_sublist List.erase_sublist r
        omega

theorem joined_of_links {lc lc' : LcGraph} (hsub : ∀ l ∈ lc'.links.head, l ∈ lc.links.head)
    (ha : ∀ r, lc'.addr r = lc.addr r) {x y : InAddr} (h : lc'.joined x y) : lc.joined x y := by
  obtain ⟨c, l, hl, hs, hd, hc⟩ := h
  exact ⟨c, l, hsub l hl, (ha _).symm.trans hs, (ha _).symm.trans hd, hc⟩

theorem linkTblAdd_joined {lc : LcGraph} {s d : NodeRef} {now : Timeval} {timeout : ℕ}
    {status cost : Int} {x y : InAddr} (h : (linkTblAdd lc now s d timeout status cost).joined x y) :
    lc.joined x y ∨ (lc.addr s = x ∧ lc.addr d = y) := by
  have haddr : ∀ links r, (incLinks (incLinks { lc with links := links } s) d).addr r = lc.addr r :=
    fun links r => (LcRep.incLinks_addr _ d r).trans (LcRep.incLinks_addr _ s r)
  obtain ⟨l, hl, hp⟩ := joined_iff.mp h
  unfold linkTblAdd at hl hp
  dsimp only at hl hp
  cases hf : linkFind lc (lc.addr s) (lc.addr d) with
  | none =>
    rw [hf] at hl hp
    dsimp only at hl hp
    rw [LcGraph.linkPair, haddr, haddr] at hp
    rcases Tbl.mem_addTail_getD hl with rfl | hl
    · exact Or.inr ⟨(Prod.mk.inj hp).1, (Prod.mk.inj hp).2⟩
    · exact Or.inl (joined_iff.mpr ⟨l, hl, hp⟩)
  | some m =>
    rw [hf] at hl hp
    have hpairs : lc.linkPair l ∈ lc.links.head.map lc.linkPair := by
      rw [← Tbl.updateFirst_map lc.linkPair (critLinkQuery lc (lc.addr s) (lc.addr d)) (fun l =>
        { l with status := status, cost := toUint32 cost, expires := timevalAddUsecs now timeout })
        (fun _ => rfl)]
      exact List.mem_map_of_mem hl
    obtain ⟨l', hl', hp'⟩ := List.mem_map.mp hpairs
    exact Or.inl (joined_iff.mpr ⟨l', hl', hp'.trans hp⟩)

theorem unlockedLinkAdd_joined {lc : LcGraph} (h : LcRefs lc) {a b : InAddr} {now : Timeval}
    {timeout : ℕ} {status cost : Int} {x y : InAddr}
    (hj : (unlockedLinkAdd now a b timeout status cost lc).joined x y) :
    lc.joined x y ∨ (a = x ∧ b = y) := by
  have h₁ := nodeFindOrAdd_got h a
  unfold unlockedLinkAdd at hj
  generalize nodeFindOrAdd lc a = p₁ at h₁ hj
  obtain ⟨lc₁, s⟩ := p₁
  have h₂ := nodeFindOrAdd_got h₁.refs b
  simp only at h₁ h₂ hj
  generalize nodeFindOrAdd lc₁ b = p₂ at h₂ hj
  obtain ⟨lc₂, d⟩ := p₂
  simp only at h₂ hj
  have hlinks : lc₂.links = lc.links := h₂.links.trans h₁.links
  have hold : ∀ r, r < lc.brk → lc₂.addr r = lc.addr r := fun r hr =>
    (h₂.old r (Nat.lt_of_lt_of_le hr h₁.brk_le)).trans (h₁.old r hr)
  rcases linkTblAdd_joined hj with ⟨c, l, hl, hs, hd, hc⟩ | ⟨hs, hd⟩
  · rw [hlinks] at hl
    rw [hold _ (h.links l hl).1] at hs
    rw [hold _ (h.links l hl).2] at hd
    exact Or.inl ⟨c, l, hl, hs, hd, hc⟩
  · rw [h₂.old s h₁.lt, h₁.addr_eq] at hs
    rw [h₂.addr_eq] at hd
    exact Or.inr ⟨hs, hd⟩

def hopOf (bidir : Bool) (path : List InAddr) (x y : InAddr) : Prop :=
  [x, y] <:+: path ∨ (bidir = true ∧ [y, x] <:+: path)

theorem hopOf.cons {bidir : Bool} {path : List InAddr} {x y : InAddr} (h : hopOf bidir path x y)
    (a : InAddr) : hopOf bidir (a :: path) x y :=
  h.imp (fun h => List.infix_cons h) fun h => ⟨h.1, List.infix_cons h.2⟩

theorem lcSrtAddLoop_joined {now : Timeval} {timeout : ℕ} {bidir : Bool} {x y : InAddr}
    (rest : List InAddr) : ∀ {a : InAddr} {lc : LcGraph}, LcRefs lc →
      (lcSrtAddLoop now timeout bidir a rest lc).joined x y →
      lc.joined x y ∨ hopOf bidir (a :: rest) x y := by
  induction rest with
  | nil =>
    intro a lc _ hj
    exact Or.inl hj
  | cons b rest ih =>
    intro a lc h hj
    have hfst : [a, b] <:+: a :: b :: rest := (List.prefix_append [a, b] rest).isInfix
    have h₁ := unlockedLinkAdd_refs h now a b timeout 0 1
    unfold lcSrtAddLoop at hj
    dsimp only at hj
    cases bidir with
    | false =>
      rcases ih h₁ hj with hj | hj
      · rcases unlockedLinkAdd_joined h hj with hj | ⟨rfl, rfl⟩
        · exact Or.inl hj
        · exact Or.inr (Or.inl hfst)
      · exact Or.inr (hj.cons a)
    | true =>
      have h₂ := unlockedLinkAdd_refs h₁ now b a timeout 0 1
      rcases ih h₂ hj with hj | hj
      · rcases unlockedLinkAdd_joined h₁ hj with hj | ⟨rfl, rfl⟩
        · rcases unlockedLinkAdd_joined h hj with hj | ⟨rfl, rfl⟩
          · exact Or.inl hj
          · exact Or.inr (Or.inl hfst)
        · exact Or.inr (Or.inr ⟨rfl, hfst⟩)
      · exact Or.inr (hj.cons a)

theorem dropRef_kept {lc lc' : LcGraph} {r : NodeRef} (h : dropRef lc r = some lc') :
    lc'.links = lc.links ∧ ∀ x, lc'.addr x = lc.addr x := by
  unfold dropRef at h
  split at h
  · obtain ⟨t, -, rfl⟩ := Option.map_eq_some_iff.mp h
    exact ⟨rfl, LcRep.decLinks_addr lc r⟩
  · cases h
    exact ⟨rfl, LcRep.decLinks_addr lc r⟩

theorem unlockedLinkDel_joined {lc lc' : LcGraph} {l : LcLink} (h : unlockedLinkDel lc l = some lc')
    {x y : InAddr} (hj : lc'.joined x y) : lc.joined x y := by
  obtain ⟨lc₁, h₁, h⟩ := Option.bind_eq_some_iff.mp h
  obtain ⟨lc₂, h₂, h⟩ := Option.bind_eq_some_iff.mp h
  obtain ⟨t, ht, h⟩ := Option.bind_eq_some_iff.mp h
  cases h
  obtain ⟨hl₁, ha₁⟩ := dropRef_kept h₁
  obtain ⟨hl₂, ha₂⟩ := dropRef_kept h₂
  refine joined_of_links (fun m hm => ?_) (fun r => ?_) hj
  swap
  · exact (ha₂ r).trans (ha₁ r)
  have hm' := (Tbl.detach_sublist ht).1.subset hm
  rw [hl₂, hl₁] at hm'
  exact hm'

theorem lcLinkDel_joined {lc lc' : LcGraph} {a b : InAddr} (h : lcLinkDel a b lc = some lc')
    {x y : InAddr} (hj : lc'.joined x y) : lc.joined x y := by
  unfold lcLinkDel at h
  split at h
  · cases h
    exact hj
  · obtain ⟨lc₁, h₁, h⟩ := Option.bind_eq_some_iff.mp h
    split at h
    · cases h
      exact unlockedLinkDel_joined h₁ hj
    · obtain ⟨lc₂, h₂, h⟩ := Option.bind_eq_some_iff.mp h
      cases h
      exact unlockedLinkDel_joined h₁ (unlockedLinkDel_joined h₂ hj)

def LcOp.joins : LcOp → InAddr → InAddr → Prop
  | linkAdd _ src dst _ _ _, x, y => src = x ∧ dst = y
  | srtAdd _ srt _, x, y => hopOf srt.bidir srt.path x y
  | _, _, _ => False

theorem LcOp.exec_joined {lc lc' : LcGraph} (hb : LcBase lc) (hr : LcRefs lc) (op : LcOp)
    (he : op.exec lc = some lc') {x y : InAddr} (hj : lc'.joined x y) :
    lc.joined x y ∨ op.joins x y := by
  cases op with
  | linkAdd now src dst timeout status cost =>
    cases he
    exact unlockedLinkAdd_joined hr hj
  | srtAdd now srt timeout =>
    cases he
    exact lcSrtAddLoop_joined _ hr hj
  | linkDel src dst => exact Or.inl (lcLinkDel_joined he hj)
  | srtFind mem src dst =>
    obtain ⟨⟨r, lc₁⟩, hf, rfl⟩ := Option.map_eq_some_iff.mp he
    obtain ⟨c, hc⟩ := hj
    rw [(lcSrtFind_graph hb hf).hasLink] at hc
    exact Or.inl ⟨c, hc⟩
  | flush =>
    cases he
    obtain ⟨c, l, hl, -⟩ := hj
    cases hl

theorem lcRun_joined {x y : InAddr} (ops : List LcOp) : ∀ {lc lc' : LcGraph}, LcSound lc → LcRefs lc →
    (∀ op ∈ ops, op.unit ∧ ¬ op.joins x y) → lcRun ops lc = some lc' → lc'.joined x y →
    lc.joined x y := by
  induction ops with
  | nil =>
    intro lc lc' _ _ _ hr hj
    cases hr
    exact hj
  | cons op ops ih =>
    intro lc lc' hs h hops hr hj
    obtain ⟨lc₁, he, hr⟩ := Option.bind_eq_some_iff.mp hr
    obtain ⟨hunit, hno⟩ := hops op List.mem_cons_self
    have hs₁ := op.exec_sound hs hunit he
    have h₁ := op.exec_refs hs.toLcBase h he
    have hj₁ := ih hs₁ h₁ (fun o ho => hops o (List.mem_cons_of_mem op ho)) hr hj
    exact (op.exec_joined hs.toLcBase h he hj₁).resolve_right hno

theorem LcRoute.path_eq {lc : LcGraph} {src dst : InAddr} {srt : DsrSrt} {c : ℕ}
    (h : LcRoute lc src dst srt c) : srt.path = src :: (srt.addrs ++ [dst]) := by
  have hn : srt.n = srt.addrs.length := by
    rw [DsrSrt.n, h.laddrs]
    omega
  rw [DsrSrt.path, hn, List.take_length, h.src_eq, h.dst_eq]

theorem lcSrtFind_joined {lc lc' : LcGraph} (h : LcSound lc) {mem : ℕ} {src dst : InAddr} {r : SrtFind}
    {srt : DsrSrt} (hf : lcSrtFind mem src dst lc = some (r, lc')) (hr : r.srt = some srt) {x y : InAddr}
    (hxy : [x, y] <:+: srt.path) : lc.joined x y := by
  by_cases hne : src = dst
  · unfold lcSrtFind at hf
    rw [if_pos hne] at hf
    cases hf
    cases hr
  · obtain ⟨r', lc₁, hf', -, hres⟩ := lcSrtFind_sound h hne mem
    rw [hf] at hf'
    cases hf'
    obtain ⟨c, hroute⟩ := hres.route hr
    rw [hroute.path_eq] at hxy
    exact hroute.walk.hop.2 x y hxy

structure HopDeleted (lc : LcGraph) (a b : InAddr) (lc' : LcGraph) : Prop where
  gone : lc'.linkAt a b = none ∧ lc'.linkAt b a = none
  others : ∀ x y, (x, y) ≠ (a, b) → (x, y) ≠ (b, a) → lc'.linkAt x y = lc.linkAt x y
  nodes : ∀ r, r ∈ lc'.nodes.head ↔ r ∈ lc.nodes.head ∧ endpoints lc'.links.head r ≠ 0
  routes : ∀ ops lc₁ mem src dst r lc₂ srt, (∀ op ∈ ops, op.unit ∧ ¬ op.joins a b ∧ ¬ op.joins b a) →
    lcRun ops lc' = some lc₁ → lcSrtFind mem src dst lc₁ = some (r, lc₂) → r.srt = some srt →
    ¬ [a, b] <:+: srt.path ∧ ¬ [b, a] <:+: srt.path

theorem lcLinkDel_hop_iff {ops : List LcOp} {lc : LcGraph} (hrun : lcRun ops lcInit = some lc)
    (hroom : lcRunRoom ops lcInit) (hunit : ∀ op ∈ ops, op.unit) (a b : InAddr) :
    ∃ lc', lcLinkDel a b lc = some lc' ∧
      (HopDeleted lc a b lc' ↔ lc.linkAt a b ≠ none ∨ lc.linkAt b a = none) := by
  have hi := lcRun_inv ops lcInit lc lcInit_inv hroom hrun
  have hs := lcRun_sound ops lcInit lc lcInit_sound hunit hrun
  have hr := lcRun_refs ops lcInit lc lcInit_sound lcInit_refs hunit hrun
  obtain ⟨lc', hd, hcut⟩ := lcLinkDel_cut hi a b
  refine ⟨lc', hd, fun h => ?_, fun h => ?_⟩
  · by_contra hc
    obtain ⟨hab, hba⟩ := not_or.mp hc
    refine hba ((hcut.kept b a ?_).symm.trans h.gone.2)
    rintro (he | ⟨-, he⟩)
    · cases he
      exact hab hba
    · exact hab he
  · have hab : lc'.linkAt a b = none := hcut.gone a b (Or.inl rfl)
    have hba : lc'.linkAt b a = none := by
      by_cases hc : pairCut lc a b (b, a)
      · exact hcut.gone b a hc
      · rw [hcut.kept b a hc]
        exact h.resolve_left fun hne => hc (Or.inr ⟨rfl, hne⟩)
    refine ⟨⟨hab, hba⟩, fun x y h₁ h₂ => ?_, hcut.nodes, ?_⟩
    · exact hcut.kept x y fun hc => hc.elim h₁ fun hc => h₂ hc.1
    · intro later lc₁ mem src dst r lc₂ srt hl hrun₁ hf hsrt
      have hs' := lcLinkDel_sound hs hd
      have hr' := lcLinkDel_refs hr hd
      have hs₁ := lcRun_sound later lc' lc₁ hs' (fun op ho => (hl op ho).1) hrun₁
      constructor
      · intro hxy
        have hj := lcSrtFind_joined hs₁ hf hsrt hxy
        exact hcut.inv.linkAt_none.mp hab
          (lcRun_joined later hs' hr' (fun op ho => ⟨(hl op ho).1, (hl op ho).2.1⟩) hrun₁ hj)
      · intro hxy
        have hj := lcSrtFind_joined hs₁ hf hsrt hxy
        exact hcut.inv.linkAt_none.mp hba
          (lcRun_joined later hs' hr' (fun op ho => ⟨(hl op ho).1, (hl op ho).2.2⟩) hrun₁ hj)

theorem lcLinkDel_hop_star : ∃ lc lc', lcRun (starOps 2) lcInit = some lc ∧
    lcLinkDel hubAddr (leafAddr 0) lc = some lc' ∧ HopDeleted lc hubAddr (leafAddr 0) lc' := by
  obtain ⟨lc, hrun, hat⟩ : ∃ lc, lcRun (starOps 2) lcInit = some lc ∧
    lc.linkAt hubAddr (leafAddr 0) ≠ none := ⟨_, rfl, by decide⟩
  have hunit : ∀ op ∈ starOps 2, op.unit := by
    intro op hop
    obtain ⟨i, -, rfl⟩ := List.mem_map.mp hop
    exact rfl
  obtain ⟨lc', hd, hiff⟩ := lcLinkDel_hop_iff hrun starOps_two_room hunit hubAddr (leafAddr 0)
  exact ⟨lc, lc', hrun, hd, hiff.mpr (Or.inl hat)⟩

theorem lcLinkDel_reverse_stays : ∃ lc lc', lcRun (starOps 1) lcInit = some lc ∧
    lcLinkDel (leafAddr 0) hubAddr lc = some lc' ∧ lc'.linkAt hubAddr (leafAddr 0) ≠ none ∧
    ¬ HopDeleted lc (leafAddr 0) hubAddr lc' := by
  obtain ⟨lc, lc', hrun, hd, hat⟩ : ∃ lc lc', lcRun (starOps 1) lcInit = some lc ∧
    lcLinkDel (leafAddr 0) hubAddr lc = some lc' ∧ lc'.linkAt hubAddr (leafAddr 0) ≠ none :=
    ⟨_, _, rfl, rfl, by decide⟩
  exact ⟨lc, lc', hrun, hd, hat, fun h => hat h.gone.2⟩

end DsrUu
