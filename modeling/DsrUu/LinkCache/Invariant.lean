import DsrUu.LinkCache.Model
import Mathlib.Data.List.Perm.Basic
import Mathlib.Data.List.Nodup
import Mathlib.Tactic.Ring

namespace DsrUu

def endpoints (ls : List LcLink) (r : NodeRef) : ℕ :=
  ls.countP (fun l => l.src = r) + ls.countP (fun l => l.dst = r)

def ends (l : LcLink) (r : NodeRef) : ℕ :=
  (if l.src = r then 1 else 0) + (if l.dst = r then 1 else 0)

def refs (l : LcLink) : NodeRef × NodeRef := (l.src, l.dst)

structure LcBase (lc : LcGraph) : Prop where
  nodes_wf : lc.nodes.WF
  links_wf : lc.links.WF
  nodes_max : lc.nodes.maxLen = lcNodesMax
  links_max : lc.links.maxLen = lcLinksMax
  nodes_le : lc.nodes.len ≤ lcNodesMax
  links_le : lc.links.len ≤ lcLinksMax
  nodes_nodup : lc.nodes.head.Nodup
  nodes_lt : ∀ r ∈ lc.nodes.head, r < lc.brk
  addr_inj : ∀ r ∈ lc.nodes.head, ∀ r' ∈ lc.nodes.head, lc.addr r = lc.addr r' → r = r'

structure LcRep (lc : LcGraph) (debt : NodeRef → ℕ) : Prop extends LcBase lc where
  refs_nodup : (lc.links.head.map refs).Nodup
  count : ∀ r ∈ lc.nodes.head, (lc.heap r).links + debt r = endpoints lc.links.head r
  gone : ∀ r, r ∉ lc.nodes.head → endpoints lc.links.head r = debt r

def LcLive (lc : LcGraph) : Prop := ∀ r ∈ lc.nodes.head, 1 ≤ (lc.heap r).links

def LcInv (lc : LcGraph) : Prop := LcRep lc (fun _ => 0) ∧ LcLive lc

theorem endpoints_nil (r : NodeRef) : endpoints [] r = 0 := rfl

theorem endpoints_cons (l : LcLink) (ls : List LcLink) (r : NodeRef) :
    endpoints (l :: ls) r = endpoints ls r + ends l r := by
  simp only [endpoints, ends, List.countP_cons, decide_eq_true_eq]
  omega

theorem endpoints_append (xs ys : List LcLink) (r : NodeRef) :
    endpoints (xs ++ ys) r = endpoints xs r + endpoints ys r := by
  simp only [endpoints, List.countP_append]
  omega

theorem endpoints_erase {ls : List LcLink} {l : LcLink} (h : l ∈ ls) (r : NodeRef) :
    endpoints (ls.erase l) r + ends l r = endpoints ls r := by
  have hp := List.perm_cons_erase h
  rw [← endpoints_cons]
  simp only [endpoints, hp.countP_eq]

theorem endpoints_le (ls : List LcLink) (r : NodeRef) : endpoints ls r ≤ 2 * ls.length := by
  have h1 := List.countP_le_length (p := fun l : LcLink => decide (l.src = r)) (l := ls)
  have h2 := List.countP_le_length (p := fun l : LcLink => decide (l.dst = r)) (l := ls)
  unfold endpoints
  omega

theorem endpoints_eq_zero {ls : List LcLink} {r : NodeRef} :
    endpoints ls r = 0 ↔ ∀ l ∈ ls, l.src ≠ r ∧ l.dst ≠ r := by
  simp only [endpoints, Nat.add_eq_zero_iff, List.countP_eq_zero, decide_eq_true_eq]
  constructor
  · rintro ⟨h1, h2⟩ l hl
    exact ⟨h1 l hl, h2 l hl⟩
  · intro h
    exact ⟨fun l hl => (h l hl).1, fun l hl => (h l hl).2⟩

theorem endpoints_map_refs {xs ys : List LcLink} (h : xs.map refs = ys.map refs) (r : NodeRef) :
    endpoints xs r = endpoints ys r := by
  have hs (zs : List LcLink) : endpoints zs r =
      (zs.map refs).countP (fun p => p.1 = r) + (zs.map refs).countP (fun p => p.2 = r) := by
    simp only [endpoints, List.countP_map, refs, Function.comp_def]
    rfl
  rw [hs xs, hs ys, h]

section Updates

variable {lc : LcGraph} {r r' : NodeRef} {f : LcNode → LcNode}

@[simp] theorem updNode_nodes : (lc.updNode r f).nodes = lc.nodes := rfl
@[simp] theorem updNode_links : (lc.updNode r f).links = lc.links := rfl
@[simp] theorem updNode_brk : (lc.updNode r f).brk = lc.brk := rfl

@[simp] theorem updNode_heap_self : (lc.updNode r f).heap r = f (lc.heap r) := by
  simp [LcGraph.updNode]

theorem updNode_heap_ne (h : r' ≠ r) : (lc.updNode r f).heap r' = lc.heap r' := by
  simp [LcGraph.updNode, Function.update_of_ne h]

theorem updNode_addr (hf : ∀ n, (f n).addr = n.addr) (r' : NodeRef) :
    (lc.updNode r f).addr r' = lc.addr r' := by
  by_cases h : r' = r
  · subst h
    simp [LcGraph.addr, hf]
  · simp [LcGraph.addr, updNode_heap_ne h]

end Updates

theorem decUint32_of_pos {n : ℕ} (h : 1 ≤ n) (hn : n < 4294967296) : decUint32 n = n - 1 := by
  unfold decUint32
  omega

theorem incUint32_of_lt {n : ℕ} (h : n < 4294967295) : incUint32 n = n + 1 := by
  unfold incUint32
  omega

theorem LcBase.nodes_length {lc : LcGraph} (h : LcBase lc) :
    lc.nodes.head.length ≤ lcNodesMax := by
  have hw : lc.nodes.len = lc.nodes.head.length := h.nodes_wf
  have hl := h.nodes_le
  omega

namespace LcRep

variable {lc : LcGraph} {debt : NodeRef → ℕ}

theorem src_mem (h : LcRep lc fun _ => 0) {l : LcLink} (hl : l ∈ lc.links.head) :
    l.src ∈ lc.nodes.head := by
  by_contra hm
  exact (endpoints_eq_zero.mp (h.gone _ hm) l hl).1 rfl

theorem dst_mem (h : LcRep lc fun _ => 0) {l : LcLink} (hl : l ∈ lc.links.head) :
    l.dst ∈ lc.nodes.head := by
  by_contra hm
  exact (endpoints_eq_zero.mp (h.gone _ hm) l hl).2 rfl

theorem links_length (h : LcRep lc debt) : lc.links.head.length ≤ lcLinksMax := by
  have hw : lc.links.len = lc.links.head.length := h.links_wf
  have hl := h.links_le
  omega

theorem links_lt (h : LcRep lc debt) {r : NodeRef} (hr : r ∈ lc.nodes.head) :
    (lc.heap r).links ≤ 200 := by
  have hc := h.count r hr
  have he := endpoints_le lc.links.head r
  have hl := h.links_length
  unfold lcLinksMax at hl
  omega

theorem decLinks_addr (lc : LcGraph) (r x : NodeRef) : (decLinks lc r).addr x = lc.addr x := by
  apply updNode_addr
  intro n
  rfl

theorem incLinks_addr (lc : LcGraph) (r x : NodeRef) : (incLinks lc r).addr x = lc.addr x := by
  apply updNode_addr
  intro n
  rfl

theorem decLinks_links (h : LcRep lc debt) {r : NodeRef} (hr : r ∈ lc.nodes.head)
    (hp : 1 ≤ (lc.heap r).links) (x : NodeRef) :
    ((decLinks lc r).heap x).links = (lc.heap x).links - if x = r then 1 else 0 := by
  have hlt := h.links_lt hr
  by_cases hx : x = r
  · subst hx
    simp [decLinks, decUint32_of_pos hp (by omega)]
  · simp [decLinks, updNode_heap_ne hx, hx]

theorem erase_node (h : LcRep lc debt) {r : NodeRef} (hr : r ∈ lc.nodes.head)
    (hz : (lc.heap r).links = 1) :
    LcRep { decLinks lc r with
        nodes := { lc.nodes with head := lc.nodes.head.erase r, len := lc.nodes.len - 1 } }
      (fun x => debt x + if x = r then 1 else 0) := by
  have hmem : ∀ x, x ∈ lc.nodes.head.erase r ↔ x ≠ r ∧ x ∈ lc.nodes.head :=
    fun x => h.nodes_nodup.mem_erase_iff
  have hw : lc.nodes.len = lc.nodes.head.length := h.nodes_wf
  have hle := h.nodes_le
  refine ⟨⟨?_, h.links_wf, h.nodes_max, h.links_max, Nat.le_trans (Nat.sub_le _ _) hle,
    h.links_le, h.nodes_nodup.erase _, ?_, ?_⟩, h.refs_nodup, ?_, ?_⟩
  · simp [Tbl.WF, List.length_erase_of_mem hr, hw]
  · intro x hx
    exact h.nodes_lt x ((hmem x).mp hx).2
  · intro x hx y hy hxy
    exact h.addr_inj x ((hmem x).mp hx).2 y ((hmem y).mp hy).2
      (by rwa [← decLinks_addr lc r x, ← decLinks_addr lc r y])
  · intro x hx
    obtain ⟨hne, hx⟩ := (hmem x).mp hx
    have hc := h.count x hx
    have hl := h.decLinks_links hr (by omega) x
    change ((decLinks lc r).heap x).links + _ = endpoints lc.links.head x
    simp only [if_neg hne] at hl ⊢
    omega
  · intro x hx
    change endpoints lc.links.head x = _
    by_cases hxr : x = r
    · subst hxr
      have hc := h.count x hr
      simp only [if_true]
      omega
    · have hx' : x ∉ lc.nodes.head := fun hm => hx ((hmem x).mpr ⟨hxr, hm⟩)
      simpa [hxr] using h.gone x hx'

theorem keep_node (h : LcRep lc debt) {r : NodeRef} (hr : r ∈ lc.nodes.head)
    (hp : 1 ≤ (lc.heap r).links) :
    LcRep (decLinks lc r) (fun x => debt x + if x = r then 1 else 0) := by
  refine ⟨⟨h.nodes_wf, h.links_wf, h.nodes_max, h.links_max, h.nodes_le, h.links_le,
    h.nodes_nodup, h.nodes_lt, ?_⟩, h.refs_nodup, ?_, ?_⟩
  · intro x hx y hy hxy
    exact h.addr_inj x hx y hy (by rwa [← decLinks_addr lc r x, ← decLinks_addr lc r y])
  · intro x hx
    have hc := h.count x hx
    have hl := h.decLinks_links hr hp x
    change _ = endpoints lc.links.head x
    by_cases hxr : x = r
    · subst hxr
      simp only [if_true] at hl ⊢
      omega
    · simp only [if_neg hxr] at hl ⊢
      omega
  · intro x hx
    have hxr : x ≠ r := fun he => hx (he ▸ hr)
    change endpoints lc.links.head x = _
    simpa [hxr] using h.gone x hx

theorem dropRef (h : LcRep lc debt) {r : NodeRef} (hr : r ∈ lc.nodes.head)
    (hp : 1 ≤ (lc.heap r).links) :
    ∃ lc', DsrUu.dropRef lc r = some lc' ∧ lc'.links = lc.links ∧
      LcRep lc' (fun x => debt x + if x = r then 1 else 0) ∧
      (∀ x, (lc'.heap x).links = (lc.heap x).links - if x = r then 1 else 0) ∧
      (∀ x, x ∈ lc'.nodes.head ↔ x ∈ lc.nodes.head ∧ (x = r → 2 ≤ (lc.heap r).links)) ∧
      (∀ x, lc'.addr x = lc.addr x) := by
  have hl := h.decLinks_links hr hp
  have hself := hl r
  rw [if_pos rfl] at hself
  unfold DsrUu.dropRef
  by_cases hz : (lc.heap r).links = 1
  · rw [if_pos (by omega), Tbl.detach_of_mem hr]
    refine ⟨_, rfl, rfl, h.erase_node hr hz, hl, ?_, decLinks_addr lc r⟩
    intro x
    change x ∈ lc.nodes.head.erase r ↔ _
    rw [h.nodes_nodup.mem_erase_iff]
    constructor
    · rintro ⟨hne, hx⟩
      exact ⟨hx, fun he => absurd he hne⟩
    · rintro ⟨hx, hi⟩
      refine ⟨fun he => ?_, hx⟩
      have := hi he
      omega
  · rw [if_neg (by omega)]
    refine ⟨_, rfl, rfl, h.keep_node hr hp, hl, ?_, decLinks_addr lc r⟩
    intro x
    constructor
    · intro hx
      exact ⟨hx, fun _ => by omega⟩
    · exact fun hx => hx.1

theorem erase_link {l : LcLink} (h : LcRep lc (ends l)) (hl : l ∈ lc.links.head) :
    LcRep { lc with links :=
        { lc.links with head := lc.links.head.erase l, len := lc.links.len - 1 } } (fun _ => 0) := by
  have hw : lc.links.len = lc.links.head.length := h.links_wf
  refine ⟨⟨h.nodes_wf, ?_, h.nodes_max, h.links_max, h.nodes_le,
    Nat.le_trans (Nat.sub_le _ _) h.links_le, h.nodes_nodup, h.nodes_lt, h.addr_inj⟩, ?_, ?_, ?_⟩
  · simp [Tbl.WF, List.length_erase_of_mem hl, hw]
  · exact h.refs_nodup.sublist (List.erase_sublist.map refs)
  · intro r hr
    have hc := h.count r hr
    have he := endpoints_erase hl r
    change (lc.heap r).links + 0 = endpoints (lc.links.head.erase l) r
    omega
  · intro r hr
    have hg := h.gone r hr
    have he := endpoints_erase hl r
    change endpoints (lc.links.head.erase l) r = 0
    omega

end LcRep

structure LinkDeleted (lc : LcGraph) (l : LcLink) (lc' : LcGraph) : Prop where
  inv : LcInv lc'
  links : lc'.links.head = lc.links.head.erase l
  nodes : ∀ r, r ∈ lc'.nodes.head ↔ r ∈ lc.nodes.head ∧ endpoints lc'.links.head r ≠ 0
  addr : ∀ r, lc'.addr r = lc.addr r

theorem unlockedLinkDel_spec {lc : LcGraph} (h : LcInv lc) {l : LcLink} (hl : l ∈ lc.links.head) :
    ∃ lc', unlockedLinkDel lc l = some lc' ∧ LinkDeleted lc l lc' := by
  obtain ⟨h, hlive⟩ := h
  have hs := h.src_mem hl
  have hd := h.dst_mem hl
  have hends : ends l l.src ≤ endpoints lc.links.head l.src := by
    have := endpoints_erase hl l.src
    omega
  obtain ⟨lc₁, he₁, hk₁, h₁, hc₁, hm₁, ha₁⟩ := h.dropRef hs (hlive _ hs)
  have hcount := h.count _ hs
  have hd₁ : l.dst ∈ lc₁.nodes.head := by
    rw [hm₁]
    refine ⟨hd, fun heq => ?_⟩
    have : ends l l.src = 2 := by simp [ends, heq]
    omega
  have hp₁ : 1 ≤ (lc₁.heap l.dst).links := by
    have hld := hlive _ hd
    rw [hc₁]
    split
    · next heq =>
      have : ends l l.src = 2 := by simp [ends, heq]
      rw [heq]
      omega
    · omega
  obtain ⟨lc₂, he₂, hk₂, h₂, hc₂, hm₂, ha₂⟩ := h₁.dropRef hd₁ hp₁
  have hl₂ : l ∈ lc₂.links.head := by rwa [hk₂, hk₁]
  have hdebt : (fun x => ((0 + if x = l.src then 1 else 0) + if x = l.dst then 1 else 0)) =
      ends l := by
    funext x
    simp [ends, eq_comm]
  rw [hdebt] at h₂
  have h₃ := h₂.erase_link hl₂
  have hlive₃ : ∀ r ∈ lc₂.nodes.head, 1 ≤ (lc₂.heap r).links := by
    intro r hr
    obtain ⟨hr₁, hi₂⟩ := (hm₂ r).mp hr
    obtain ⟨hr₀, hi₁⟩ := (hm₁ r).mp hr₁
    have := hlive r hr₀
    rw [hc₂ r]
    split
    · next heq =>
      subst heq
      have := hi₂ rfl
      omega
    · rw [hc₁ r]
      split
      · next heq =>
        subst heq
        have := hi₁ rfl
        omega
      · omega
  refine ⟨_, ?_, ⟨h₃, hlive₃⟩, ?_, ?_, fun r => (ha₂ r).trans (ha₁ r)⟩
  · simp only [unlockedLinkDel, he₁, he₂, Tbl.detach_of_mem hl₂, Option.bind_eq_bind,
      Option.bind_some, Option.pure_def]
  · simp only [hk₂, hk₁]
  · intro r
    constructor
    · intro hr
      have hlr := hlive₃ r hr
      have hcr := h₃.count r hr
      refine ⟨((hm₁ r).mp ((hm₂ r).mp hr).1).1, ?_⟩
      change (lc₂.heap r).links + 0 = _ at hcr
      omega
    · rintro ⟨_, hz⟩
      by_contra hn
      exact hz (h₃.gone r hn)

theorem LcInv.with_src {lc : LcGraph} (h : LcInv lc) (s : Option NodeRef) :
    LcInv { lc with src := s } :=
  ⟨⟨⟨h.1.nodes_wf, h.1.links_wf, h.1.nodes_max, h.1.links_max, h.1.nodes_le, h.1.links_le,
    h.1.nodes_nodup, h.1.nodes_lt, h.1.addr_inj⟩, h.1.refs_nodup, h.1.count, h.1.gone⟩, h.2⟩

theorem linkFind_mem {lc : LcGraph} {src dst : InAddr} {l : LcLink}
    (h : linkFind lc src dst = some l) :
    l ∈ lc.links.head ∧ lc.addr l.src = src ∧ lc.addr l.dst = dst := by
  unfold linkFind Tbl.find at h
  have hp := List.find?_some h
  simp only [critLinkQuery, decide_eq_true_eq] at hp
  exact ⟨List.mem_of_find?_eq_some h, hp.1, hp.2⟩

theorem lcLinkDel_inv {lc : LcGraph} (h : LcInv lc) (src dst : InAddr) :
    ∃ lc', lcLinkDel src dst lc = some lc' ∧ LcInv lc' := by
  unfold lcLinkDel
  cases hf : linkFind lc src dst with
  | none => exact ⟨_, rfl, h.with_src none⟩
  | some l =>
    obtain ⟨lc₁, he₁, hd₁⟩ := unlockedLinkDel_spec h (linkFind_mem hf).1
    simp only [he₁, Option.bind_eq_bind, Option.bind_some]
    cases hf₁ : linkFind lc₁ dst src with
    | none => exact ⟨_, rfl, hd₁.inv.with_src none⟩
    | some l₁ =>
      obtain ⟨lc₂, he₂, hd₂⟩ := unlockedLinkDel_spec hd₁.inv (linkFind_mem hf₁).1
      simp only [he₂, Option.bind_some]
      exact ⟨_, rfl, hd₂.inv.with_src none⟩

def nodeRoom (lc : LcGraph) (addr : InAddr) : Prop :=
  lc.nodes.find (critAddr lc addr) ≠ none ∨ lc.nodes.len < lc.nodes.maxLen

def linkRoom (lc : LcGraph) (src dst : InAddr) : Prop :=
  linkFind lc src dst ≠ none ∨ lc.links.len < lc.links.maxLen

structure NodeFound (lc : LcGraph) (addr : InAddr) (lc' : LcGraph) (r : NodeRef) : Prop where
  rep : LcRep lc' fun _ => 0
  links : lc'.links = lc.links
  mem : r ∈ lc'.nodes.head
  addr_eq : lc'.addr r = addr
  old : ∀ x ∈ lc.nodes.head, x ∈ lc'.nodes.head ∧ lc'.addr x = lc.addr x
  new : ∀ x ∈ lc'.nodes.head, x ∈ lc.nodes.head ∨ x = r

theorem nodes_find_some {lc : LcGraph} {addr : InAddr} {r : NodeRef}
    (h : lc.nodes.find (critAddr lc addr) = some r) : r ∈ lc.nodes.head ∧ lc.addr r = addr := by
  have hp := List.find?_some h
  simp only [critAddr, decide_eq_true_eq] at hp
  exact ⟨List.mem_of_find?_eq_some h, hp⟩

theorem nodes_find_none {lc : LcGraph} {addr : InAddr}
    (h : lc.nodes.find (critAddr lc addr) = none) : ∀ r ∈ lc.nodes.head, lc.addr r ≠ addr := by
  intro r hr
  have := List.find?_eq_none.mp h r hr
  simpa [critAddr] using this

theorem nodeFindOrAdd_spec {lc : LcGraph} (h : LcRep lc fun _ => 0) {addr : InAddr}
    (hroom : nodeRoom lc addr) :
    NodeFound lc addr (nodeFindOrAdd lc addr).1 (nodeFindOrAdd lc addr).2 := by
  unfold nodeFindOrAdd
  cases hf : lc.nodes.find (critAddr lc addr) with
  | some r =>
    obtain ⟨hm, ha⟩ := nodes_find_some hf
    exact ⟨h, rfl, hm, ha, fun x hx => ⟨hx, rfl⟩, fun x hx => Or.inl hx⟩
  | none =>
    have hlt : lc.nodes.len < lc.nodes.maxLen := by
      rcases hroom with hne | hlt
      · exact absurd hf hne
      · exact hlt
    have hnone := nodes_find_none hf
    have hbrk : lc.brk ∉ lc.nodes.head := fun hm => Nat.lt_irrefl _ (h.nodes_lt _ hm)
    have hne : ∀ x ∈ lc.nodes.head, x ≠ lc.brk := fun x hx he => hbrk (he ▸ hx)
    have hheap : ∀ x ∈ lc.nodes.head, (lcNodeCreate lc addr).1.heap x = lc.heap x := by
      intro x hx
      simp [lcNodeCreate, Function.update_of_ne (hne x hx)]
    have hself : (lcNodeCreate lc addr).1.heap lc.brk =
        { addr := addr, links := 0, cost := lcCostInf, hops := 0, pred := none } := by
      simp [lcNodeCreate]
    have hadd := Tbl.addTail_of_lt (t := lc.nodes) lc.brk hlt
    have hmem : ∀ x, x ∈ lc.nodes.head ++ [lc.brk] ↔ x ∈ lc.nodes.head ∨ x = lc.brk := by
      simp
    have hw : lc.nodes.len = lc.nodes.head.length := h.nodes_wf
    have hmax := h.nodes_max
    simp only [lcNodeCreate] at hheap hself ⊢
    rw [hadd]
    simp only [Option.getD_some]
    refine ⟨⟨⟨?_, h.links_wf, h.nodes_max, h.links_max, ?_, h.links_le, ?_, ?_, ?_⟩,
      h.refs_nodup, ?_, ?_⟩, rfl, ?_, ?_, ?_, ?_⟩
    · simp [Tbl.WF, hw]
    · simp only
      omega
    · simpa [List.nodup_append, h.nodes_nodup] using hne
    · intro x hx
      rcases (hmem x).mp hx with hx | hx
      · exact Nat.lt_succ_of_lt (h.nodes_lt x hx)
      · subst hx
        exact Nat.lt_succ_self _
    · intro x hx y hy hxy
      simp only [LcGraph.addr] at hxy
      rcases (hmem x).mp hx with hx | hx <;> rcases (hmem y).mp hy with hy | hy
      · rw [hheap x hx, hheap y hy] at hxy
        exact h.addr_inj x hx y hy hxy
      · subst hy
        rw [hheap x hx, hself] at hxy
        exact absurd hxy (hnone x hx)
      · subst hx
        rw [hheap y hy, hself] at hxy
        exact absurd hxy.symm (hnone y hy)
      · rw [hx, hy]
    · intro x hx
      rcases (hmem x).mp hx with hx | hx
      · dsimp only
        rw [hheap x hx]
        exact h.count x hx
      · subst hx
        dsimp only
        rw [hself, h.gone _ hbrk]
    · intro x hx
      exact h.gone x fun hm => hx ((hmem x).mpr (Or.inl hm))
    · exact (hmem _).mpr (Or.inr rfl)
    · simp only [LcGraph.addr, hself]
    · intro x hx
      exact ⟨(hmem x).mpr (Or.inl hx), by simp only [LcGraph.addr, hheap x hx]⟩
    · intro x hx
      exact (hmem x).mp hx

theorem linkFind_none {lc : LcGraph} {src dst : InAddr} (h : linkFind lc src dst = none) :
    ∀ l ∈ lc.links.head, ¬(lc.addr l.src = src ∧ lc.addr l.dst = dst) := by
  intro l hl
  have := List.find?_eq_none.mp h l hl
  simpa [critLinkQuery] using this

structure LinkAdded (lc : LcGraph) (s d : NodeRef) (lc' : LcGraph) : Prop where
  rep : LcRep lc' fun _ => 0
  nodes : lc'.nodes = lc.nodes
  addr : ∀ r, lc'.addr r = lc.addr r
  pairs : lc'.links.head.map refs =
    if (s, d) ∈ lc.links.head.map refs then lc.links.head.map refs
    else lc.links.head.map refs ++ [(s, d)]

theorem incLinks_links (lc : LcGraph) {r : NodeRef} (h : (lc.heap r).links < 4294967295)
    (x : NodeRef) :
    ((incLinks lc r).heap x).links = (lc.heap x).links + if x = r then 1 else 0 := by
  by_cases hx : x = r
  · subst hx
    simp [incLinks, incUint32_of_lt h]
  · simp [incLinks, updNode_heap_ne hx, hx]

theorem linkTblAdd_spec {lc : LcGraph} (h : LcRep lc fun _ => 0) {s d : NodeRef}
    (hs : s ∈ lc.nodes.head) (hd : d ∈ lc.nodes.head) (now : Timeval) (timeout : ℕ)
    (status cost : Int) (hroom : linkRoom lc (lc.addr s) (lc.addr d)) :
    LinkAdded lc s d (linkTblAdd lc now s d timeout status cost) := by
  unfold linkTblAdd
  cases hf : linkFind lc (lc.addr s) (lc.addr d) with
  | some l =>
    obtain ⟨hl, has, had⟩ := linkFind_mem hf
    have hsd : (s, d) ∈ lc.links.head.map refs := by
      refine List.mem_map.mpr ⟨l, hl, ?_⟩
      rw [refs, h.addr_inj _ (h.src_mem hl) _ hs has, h.addr_inj _ (h.dst_mem hl) _ hd had]
    simp only
    have hrefs := Tbl.updateFirst_map refs (critLinkQuery lc (lc.addr s) (lc.addr d))
      (fun l => { l with status := status, cost := toUint32 cost,
                         expires := timevalAddUsecs now timeout }) (fun _ => rfl) lc.links.head
    have hw : lc.links.len = lc.links.head.length := h.links_wf
    refine ⟨⟨⟨h.nodes_wf, ?_, h.nodes_max, h.links_max, h.nodes_le, h.links_le, h.nodes_nodup,
      h.nodes_lt, h.addr_inj⟩, ?_, ?_, ?_⟩, rfl, fun _ => rfl, ?_⟩
    · simp [Tbl.WF, Tbl.findDo, Tbl.updateFirst_length, hw]
    · simpa only [Tbl.findDo, hrefs] using h.refs_nodup
    · intro r hr
      simp only [Tbl.findDo]
      rw [endpoints_map_refs hrefs]
      exact h.count r hr
    · intro r hr
      simp only [Tbl.findDo]
      rw [endpoints_map_refs hrefs]
      exact h.gone r hr
    · simp only [Tbl.findDo, hrefs, if_pos hsd]
  | none =>
    have hlt : lc.links.len < lc.links.maxLen := by
      rcases hroom with hne | hlt
      · exact absurd hf hne
      · exact hlt
    have hnone := linkFind_none hf
    have hsd : (s, d) ∉ lc.links.head.map refs := by
      intro hm
      obtain ⟨l, hl, he⟩ := List.mem_map.mp hm
      simp only [refs, Prod.mk.injEq] at he
      exact hnone l hl ⟨by rw [he.1], by rw [he.2]⟩
    have hadd := Tbl.addTail_of_lt (t := lc.links)
      { src := s, dst := d, status := status, cost := toUint32 cost,
        expires := timevalAddUsecs now timeout } hlt
    simp only [hadd, Option.getD_some]
    generalize hlink : (LcLink.mk s d status (toUint32 cost) (timevalAddUsecs now timeout)) = link
    have hrefs : refs link = (s, d) := by rw [← hlink]; rfl
    have hw : lc.links.len = lc.links.head.length := h.links_wf
    have hmax := h.links_max
    have haddr (lc₀ : LcGraph) (r : NodeRef) :
        (incLinks (incLinks lc₀ s) d).addr r = lc₀.addr r :=
      (LcRep.incLinks_addr _ _ _).trans (LcRep.incLinks_addr _ _ _)
    have hends (r : NodeRef) : ends link r =
        (if r = s then 1 else 0) + (if r = d then 1 else 0) := by
      rw [← hlink]
      simp only [ends, eq_comm]
    have hlinks (lc₀ : LcGraph) (hh : lc₀.heap = lc.heap) (r : NodeRef) :
        ((incLinks (incLinks lc₀ s) d).heap r).links = (lc.heap r).links + ends link r := by
      have hls := h.links_lt hs
      have hld := h.links_lt hd
      have h1 := incLinks_links lc₀ (r := s) (by rw [hh]; omega)
      have h1d := h1 d
      rw [incLinks_links _ (by rw [h1d, hh]; split <;> omega), h1, hh, hends]
      omega
    refine ⟨⟨⟨h.nodes_wf, ?_, h.nodes_max, h.links_max, h.nodes_le, ?_, h.nodes_nodup,
      h.nodes_lt, ?_⟩, ?_, ?_, ?_⟩, rfl, fun r => haddr _ r, ?_⟩
    · change lc.links.len + 1 = (lc.links.head ++ [link]).length
      simp [hw]
    · change lc.links.len + 1 ≤ _
      omega
    · intro x hx y hy hxy
      rw [haddr, haddr] at hxy
      exact h.addr_inj x hx y hy hxy
    · change ((lc.links.head ++ [link]).map refs).Nodup
      rw [List.map_append, List.map_singleton, hrefs, List.nodup_append]
      refine ⟨h.refs_nodup, List.nodup_singleton _, ?_⟩
      intro p hp q hq he
      rw [List.mem_singleton.mp hq] at he
      exact hsd (he ▸ hp)
    · intro r hr
      rw [hlinks { lc with links :=
        { lc.links with head := lc.links.head ++ [link], len := lc.links.len + 1 } } rfl]
      change _ = endpoints (lc.links.head ++ [link]) r
      rw [endpoints_append, endpoints_cons, endpoints_nil]
      have hc := h.count r hr
      omega
    · intro r hr
      change endpoints (lc.links.head ++ [link]) r = 0
      have hrs : r ≠ s := fun he => hr (he ▸ hs)
      have hrd : r ≠ d := fun he => hr (he ▸ hd)
      rw [endpoints_append, endpoints_cons, endpoints_nil, h.gone r hr, hends, if_neg hrs,
        if_neg hrd]
    · change (lc.links.head ++ [link]).map refs = _
      rw [if_neg hsd, List.map_append, List.map_singleton, hrefs]

def addRoom (lc : LcGraph) (src dst : InAddr) : Prop :=
  nodeRoom lc src ∧
  nodeRoom (nodeFindOrAdd lc src).1 dst ∧
  linkRoom (nodeFindOrAdd (nodeFindOrAdd lc src).1 dst).1 src dst

theorem endpoints_pos_of_mem {ls : List LcLink} {s d : NodeRef} (h : (s, d) ∈ ls.map refs) :
    endpoints ls s ≠ 0 ∧ endpoints ls d ≠ 0 := by
  obtain ⟨l, hl, he⟩ := List.mem_map.mp h
  simp only [refs, Prod.mk.injEq] at he
  refine ⟨fun hz => ?_, fun hz => ?_⟩
  · exact (endpoints_eq_zero.mp hz l hl).1 he.1
  · exact (endpoints_eq_zero.mp hz l hl).2 he.2

structure LinkInserted (lc : LcGraph) (src dst : InAddr) (lc' : LcGraph) : Prop where
  inv : LcInv lc'
  old : ∀ x ∈ lc.nodes.head, x ∈ lc'.nodes.head ∧ lc'.addr x = lc.addr x
  pairs : ∃ s ∈ lc'.nodes.head, ∃ d ∈ lc'.nodes.head, lc'.addr s = src ∧ lc'.addr d = dst ∧
    lc'.links.head.map refs =
      if (s, d) ∈ lc.links.head.map refs then lc.links.head.map refs
      else lc.links.head.map refs ++ [(s, d)]

theorem unlockedLinkAdd_spec {lc : LcGraph} (h : LcInv lc) {src dst : InAddr} (now : Timeval)
    (timeout : ℕ) (status cost : Int) (hroom : addRoom lc src dst) :
    LinkInserted lc src dst (unlockedLinkAdd now src dst timeout status cost lc) := by
  obtain ⟨h, hlive⟩ := h
  obtain ⟨hr₁, hr₂, hr₃⟩ := hroom
  have hn₁ := nodeFindOrAdd_spec h hr₁
  unfold unlockedLinkAdd
  generalize nodeFindOrAdd lc src = p₁ at hn₁ hr₂ hr₃ ⊢
  obtain ⟨lc₁, sn⟩ := p₁
  have hn₂ := nodeFindOrAdd_spec hn₁.rep hr₂
  simp only at hn₁ hr₂ hr₃ hn₂ ⊢
  generalize nodeFindOrAdd lc₁ dst = p₂ at hn₂ hr₃ ⊢
  obtain ⟨lc₂, dn⟩ := p₂
  simp only at hn₂ hr₃ ⊢
  obtain ⟨hsn, hsa⟩ := hn₂.old sn hn₁.mem
  rw [hn₁.addr_eq] at hsa
  have hroom : linkRoom lc₂ (lc₂.addr sn) (lc₂.addr dn) := by rwa [hsa, hn₂.addr_eq]
  have ha := linkTblAdd_spec hn₂.rep hsn hn₂.mem now timeout status cost hroom
  generalize linkTblAdd lc₂ now sn dn timeout status cost = lc₃ at ha
  have hlinks : lc₂.links = lc.links := hn₂.links.trans hn₁.links
  have hpairs := ha.pairs
  rw [hlinks] at hpairs
  have hsd : (sn, dn) ∈ lc₃.links.head.map refs := by
    rw [hpairs]
    split
    · assumption
    · simp
  have hgrow : ∀ x, endpoints lc.links.head x ≤ endpoints lc₃.links.head x := by
    intro x
    split at hpairs
    · exact Nat.le_of_eq (endpoints_map_refs hpairs x).symm
    · have he : lc₃.links.head.map refs =
          (lc.links.head ++ [LcLink.mk sn dn 0 0 default]).map refs := by
        rw [hpairs]
        simp [refs]
      rw [endpoints_map_refs he, endpoints_append]
      omega
  refine ⟨⟨ha.rep, ?_⟩, ?_, sn, ?_, dn, ?_, ?_, ?_, hpairs⟩
  · intro r hr
    have hc := ha.rep.count r hr
    rw [ha.nodes] at hr
    obtain ⟨hes, hed⟩ := endpoints_pos_of_mem hsd
    rcases hn₂.new r hr with hr | hr
    · rcases hn₁.new r hr with hr | hr
      · have h0 := h.count r hr
        have h1 := hlive r hr
        have h2 := hgrow r
        omega
      · subst hr
        omega
    · subst hr
      omega
  · intro x hx
    obtain ⟨hx₁, ha₁⟩ := hn₁.old x hx
    obtain ⟨hx₂, ha₂⟩ := hn₂.old x hx₁
    exact ⟨ha.nodes ▸ hx₂, ((ha.addr x).trans ha₂).trans ha₁⟩
  · rw [ha.nodes]
    exact hsn
  · rw [ha.nodes]
    exact hn₂.mem
  · rw [ha.addr, hsa]
  · rw [ha.addr, hn₂.addr_eq]

def srtAddRoom (now : Timeval) (timeout : ℕ) (bidir : Bool) :
    InAddr → List InAddr → LcGraph → Prop
  | _, [], _ => True
  | addr1, addr2 :: rest, lc =>
      addRoom lc addr1 addr2 ∧
      (bidir = true → addRoom (unlockedLinkAdd now addr1 addr2 timeout 0 1 lc) addr2 addr1) ∧
      srtAddRoom now timeout bidir addr2 rest
        (if bidir then
          unlockedLinkAdd now addr2 addr1 timeout 0 1
            (unlockedLinkAdd now addr1 addr2 timeout 0 1 lc)
        else unlockedLinkAdd now addr1 addr2 timeout 0 1 lc)

theorem lcSrtAddLoop_inv (now : Timeval) (timeout : ℕ) (bidir : Bool) (rest : List InAddr) :
    ∀ (addr1 : InAddr) (lc : LcGraph), LcInv lc →
      srtAddRoom now timeout bidir addr1 rest lc →
      LcInv (lcSrtAddLoop now timeout bidir addr1 rest lc) := by
  induction rest with
  | nil => intro addr1 lc h _; exact h
  | cons addr2 rest ih =>
    intro addr1 lc h hroom
    obtain ⟨hr₁, hr₂, hr₃⟩ := hroom
    have h₁ := (unlockedLinkAdd_spec h now timeout 0 1 hr₁).inv
    refine ih addr2 _ ?_ hr₃
    split
    · next hb => exact (unlockedLinkAdd_spec h₁ now timeout 0 1 (hr₂ hb)).inv
    · exact h₁

theorem lcFlush_inv {lc : LcGraph} (h : LcInv lc) : LcInv (lcFlush lc) := by
  obtain ⟨h, _⟩ := h
  refine ⟨⟨⟨h.nodes_wf.flush, h.links_wf.flush, h.nodes_max, h.links_max,
    Nat.le_trans (Nat.sub_le _ _) h.nodes_le, Nat.le_trans (Nat.sub_le _ _) h.links_le,
    List.nodup_nil, ?_, ?_⟩, List.nodup_nil, ?_, ?_⟩, ?_⟩
  · intro r hr
    cases hr
  · intro r hr
    cases hr
  · intro r hr
    cases hr
  · intro r _
    rfl
  · intro r hr
    cases hr

theorem lcInit_inv : LcInv lcInit := by
  refine ⟨⟨⟨rfl, rfl, rfl, rfl, Nat.zero_le _, Nat.zero_le _, List.nodup_nil, ?_, ?_⟩,
    List.nodup_nil, ?_, ?_⟩, ?_⟩
  · intro r hr
    cases hr
  · intro r hr
    cases hr
  · intro r hr
    cases hr
  · intro r _
    rfl
  · intro r hr
    cases hr

end DsrUu
