import DsrUu.LinkCache.Delete
import Mathlib.Data.Finset.Card

namespace DsrUu

open Graph

section Hops

variable {lc lc' : LcGraph} {me : InAddr}

def LcGraph.hops (lc : LcGraph) (me : InAddr) : Finset InAddr :=
  ((lc.links.head.filter fun l => lc.addr l.src = me).map fun l => lc.addr l.dst).toFinset

theorem mem_hops {h : InAddr} : h ∈ lc.hops me ↔ lc.joined me h := by
  simp only [LcGraph.hops, List.mem_toFinset, List.mem_map, List.mem_filter, decide_eq_true_eq]
  constructor
  · rintro ⟨l, ⟨hl, hs⟩, hd⟩
    exact ⟨l.cost, l, hl, hs, hd, rfl⟩
  · rintro ⟨_, l, hl, hs, hd, _⟩
    exact ⟨l, ⟨hl, hs⟩, hd⟩

theorem hops_subset (h : ∀ x y, lc'.joined x y → lc.joined x y) : lc'.hops me ⊆ lc.hops me :=
  fun a ha => mem_hops.mpr (h me a (mem_hops.mp ha))

theorem hops_card_lt (h : ∀ x y, lc'.joined x y → lc.joined x y) {a : InAddr} (ha : a ∈ lc.hops me)
    (ha' : a ∉ lc'.hops me) : (lc'.hops me).card < (lc.hops me).card := by
  refine Finset.card_lt_card ⟨hops_subset h, fun hc => ha' (hc ha)⟩

end Hops

structure LcKept (lc : LcGraph) : Prop where
  inv : LcInv lc
  sound : LcSound lc
  refs : LcRefs lc

theorem LcKept.of_run {ops : List LcOp} {lc : LcGraph} (hrun : lcRun ops lcInit = some lc)
    (hroom : lcRunRoom ops lcInit) (hunit : ∀ op ∈ ops, op.unit) : LcKept lc :=
  ⟨lcRun_inv ops lcInit lc lcInit_inv hroom hrun, lcRun_sound ops lcInit lc lcInit_sound hunit hrun,
    lcRun_refs ops lcInit lc lcInit_sound lcInit_refs hunit hrun⟩

def LcOp.prunes (me : InAddr) : LcOp → Prop
  | linkDel src _ => src = me
  | srtFind _ _ _ => True
  | _ => False

section Prunes

variable {op : LcOp} {me : InAddr}

theorem LcOp.prunes.unit (h : op.prunes me) : op.unit := by
  cases op <;> trivial

theorem LcOp.prunes.room (h : op.prunes me) (lc : LcGraph) : op.room lc := by
  cases op <;> trivial

theorem LcOp.prunes.joins (h : op.prunes me) (x y : InAddr) : ¬ op.joins x y := by
  cases op <;> first | exact id | cases h

theorem LcKept.exec {lc lc' : LcGraph} (h : LcKept lc) (hp : op.prunes me) (he : op.exec lc = some lc') :
    LcKept lc' :=
  ⟨op.exec_inv h.inv (hp.room lc) he, op.exec_sound h.sound hp.unit he,
    op.exec_refs h.sound.toLcBase h.refs he⟩

end Prunes

def LcPruned (me : InAddr) (lc lc' : LcGraph) : Prop :=
  ∃ ops, (∀ op ∈ ops, op.prunes me) ∧ lcRun ops lc = some lc'

namespace LcPruned

variable {me : InAddr} {lc lc₁ lc' : LcGraph}

theorem refl (me : InAddr) (lc : LcGraph) : LcPruned me lc lc := ⟨[], by simp, rfl⟩

theorem snoc (h : LcPruned me lc lc₁) {op : LcOp} (hp : op.prunes me) (he : op.exec lc₁ = some lc') :
    LcPruned me lc lc' := by
  obtain ⟨ops, hops, hrun⟩ := h
  refine ⟨ops ++ [op], ?_, ?_⟩
  · intro o ho
    rcases List.mem_append.mp ho with ho | ho
    · exact hops o ho
    · exact List.mem_singleton.mp ho ▸ hp
  · rw [lcRun_snoc, hrun]
    exact he

theorem trans (h : LcPruned me lc lc₁) (h' : LcPruned me lc₁ lc') : LcPruned me lc lc' := by
  obtain ⟨ops, hops, hrun⟩ := h'
  induction ops generalizing lc₁ with
  | nil =>
    cases hrun
    exact h
  | cons op ops ih =>
    obtain ⟨lc₂, he, hrun⟩ := Option.bind_eq_some_iff.mp hrun
    exact ih (h.snoc (hops op List.mem_cons_self) he) (fun o ho => hops o (List.mem_cons_of_mem op ho)) hrun

theorem joined (h : LcPruned me lc lc') (hk : LcKept lc) (x y : InAddr) (hj : lc'.joined x y) :
    lc.joined x y := by
  obtain ⟨ops, hops, hrun⟩ := h
  exact lcRun_joined ops hk.sound hk.refs (fun op ho => ⟨(hops op ho).unit, (hops op ho).joins x y⟩) hrun hj

end LcPruned

theorem lcLinkDel_hops {lc : LcGraph} (h : LcKept lc) (me a : InAddr) :
    ∃ lc', lcLinkDel me a lc = some lc' ∧ a ∉ lc'.hops me ∧
      (a ∈ lc.hops me → (lc'.hops me).card < (lc.hops me).card) ∧
      (a ∉ lc.hops me → lc'.hops me = lc.hops me) := by
  obtain ⟨lc', hd, hcut⟩ := lcLinkDel_cut h.inv me a
  have hsub : ∀ x y, lc'.joined x y → lc.joined x y := fun x y hj => lcLinkDel_joined hd hj
  have hgone : a ∉ lc'.hops me := by
    rw [mem_hops, ← hcut.inv.linkAt_none]
    exact hcut.gone me a (Or.inl rfl)
  refine ⟨lc', hd, hgone, fun ha => hops_card_lt hsub ha hgone, fun ha => ?_⟩
  rw [mem_hops, ← h.inv.linkAt_none] at ha
  refine Finset.Subset.antisymm (hops_subset hsub) fun x hx => ?_
  rw [mem_hops] at hx ⊢
  by_contra hno
  rw [← hcut.inv.linkAt_none] at hno
  by_cases hc : pairCut lc me a (me, x)
  · rcases hc with hc | ⟨-, hc⟩
    · cases hc
      exact h.inv.linkAt_none.mp ha hx
    · exact hc ha
  · rw [hcut.kept me x hc] at hno
    exact h.inv.linkAt_none.mp hno hx

def RoutesFit (me dst : InAddr) (lc : LcGraph) : Prop :=
  ∀ lc' mem f lc'' alt, LcPruned me lc lc' → lcSrtFind mem me dst lc' = some (f, lc'') →
    f.srt = some alt → alt.addrs.length ≤ 63

theorem RoutesFit.pruned {me dst : InAddr} {lc lc' : LcGraph} (h : RoutesFit me dst lc)
    (hp : LcPruned me lc lc') : RoutesFit me dst lc' :=
  fun lc₁ mem f lc₂ alt hp' hf ha => h lc₁ mem f lc₂ alt (hp.trans hp') hf ha

def LcGraph.ends (lc : LcGraph) : Finset InAddr := (lc.links.head.map fun l => lc.addr l.dst).toFinset

theorem mem_ends {lc : LcGraph} {a b : InAddr} (h : lc.joined a b) : b ∈ lc.ends := by
  obtain ⟨l, hl, he⟩ := joined_iff.mp h
  exact List.mem_toFinset.mpr (List.mem_map.mpr ⟨l, hl, congrArg Prod.snd he⟩)

theorem LcPruned.kept {me : InAddr} {lc lc' : LcGraph} (h : LcPruned me lc lc') (hk : LcKept lc) : LcKept lc' := by
  obtain ⟨ops, hops, hrun⟩ := h
  induction ops generalizing lc with
  | nil =>
    cases hrun
    exact hk
  | cons op ops ih =>
    obtain ⟨lc₁, he, hrun⟩ := Option.bind_eq_some_iff.mp hrun
    exact ih (hk.exec (hops op List.mem_cons_self) he) (fun o ho => hops o (List.mem_cons_of_mem op ho)) hrun

theorem LcRoute.length_ends {lc : LcGraph} {src dst : InAddr} {srt : DsrSrt} {c : ℕ}
    (h : LcRoute lc src dst srt c) : srt.addrs.length + 1 ≤ lc.ends.card := by
  have hmem : ∀ a ∈ srt.addrs ++ [dst], a ∈ lc.ends :=
    h.walk.mem_of_edge fun u v k he => mem_ends ⟨k, he⟩
  have hnd := (List.nodup_cons.mp h.nodup).2
  have hle := Finset.card_le_card fun a ha => hmem a (List.mem_toFinset.mp ha)
  rwa [List.toFinset_card_of_nodup hnd, List.length_append, List.length_singleton] at hle

theorem routesFit_of_ends {lc : LcGraph} (hk : LcKept lc) (me dst : InAddr) (h : lc.ends.card ≤ 64) :
    RoutesFit me dst lc := by
  intro lc' mem f lc'' alt hp hf ha
  have hk' := hp.kept hk
  by_cases hne : me = dst
  · rw [lcSrtFind, if_pos hne] at hf
    cases hf
    cases ha
  · obtain ⟨f', lc₂, hf', -, hres⟩ := lcSrtFind_sound hk'.sound hne mem
    rw [hf] at hf'
    cases hf'
    obtain ⟨c, hroute⟩ := hres.route ha
    have hsub : lc'.ends ⊆ lc.ends := by
      intro b hb
      obtain ⟨l, hl, rfl⟩ := List.mem_map.mp (List.mem_toFinset.mp hb)
      exact mem_ends (hp.joined hk _ _ (joined_iff.mpr ⟨l, hl, rfl⟩))
    have hlen := hroute.length_ends.trans (Finset.card_le_card hsub)
    omega

end DsrUu
