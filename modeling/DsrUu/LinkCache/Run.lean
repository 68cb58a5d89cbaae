import DsrUu.LinkCache.Route

namespace DsrUu

open Graph

inductive LcOp
  | linkAdd (now : Timeval) (src dst : InAddr) (timeout : ℕ) (status cost : Int)
  | srtAdd (now : Timeval) (srt : DsrSrt) (timeout : ℕ)
  | linkDel (src dst : InAddr)
  | srtFind (mem : ℕ) (src dst : InAddr)
  | flush

namespace LcOp

def exec : LcOp → LcGraph → Option LcGraph
  | linkAdd now src dst timeout status cost, lc =>
      some (lcLinkAdd now src dst timeout status cost lc)
  | srtAdd now srt timeout, lc => some (lcSrtAdd now srt timeout lc)
  | linkDel src dst, lc => lcLinkDel src dst lc
  | srtFind mem src dst, lc => (lcSrtFind mem src dst lc).map Prod.snd
  | flush, lc => some (lcFlush lc)

def room : LcOp → LcGraph → Prop
  | linkAdd _ src dst _ _ _, lc => addRoom lc src dst
  | srtAdd now srt timeout, lc =>
      srtAddRoom now timeout srt.bidir srt.src (srt.addrs.take srt.n ++ [srt.dst]) lc
  | _, _ => True

end LcOp

def lcRun : List LcOp → LcGraph → Option LcGraph
  | [], lc => some lc
  | op :: ops, lc => (op.exec lc).bind (lcRun ops)

def lcRunRoom : List LcOp → LcGraph → Prop
  | [], _ => True
  | op :: ops, lc => op.room lc ∧ ∀ lc', op.exec lc = some lc' → lcRunRoom ops lc'

theorem lcSrtFind_graph {lc lc' : LcGraph} (hb : LcBase lc) {mem : ℕ} {src dst : InAddr}
    {r : SrtFind} (h : lcSrtFind mem src dst lc = some (r, lc')) : SameGraph lc lc' := by
  by_cases hne : src = dst
  · unfold lcSrtFind at h
    rw [if_pos hne] at h
    cases h
    exact (SameShape.refl lc).graph
  · obtain ⟨lc₁, hd, hg⟩ := dijkstra_graph hb src
    rw [lcSrtFind_of_dijkstra hne hd] at h
    split at h
    · cases h
      exact hg
    · split at h
      · obtain ⟨r', _, he⟩ := Option.bind_eq_some_iff.mp h
        cases he
        exact hg
      · cases h
        exact hg

theorem LcOp.exec_inv {lc lc' : LcGraph} (h : LcInv lc) (op : LcOp) (hroom : op.room lc)
    (he : op.exec lc = some lc') : LcInv lc' := by
  cases op with
  | linkAdd now src dst timeout status cost =>
    cases he
    exact (unlockedLinkAdd_spec h now timeout status cost hroom).inv
  | srtAdd now srt timeout =>
    cases he
    exact lcSrtAddLoop_inv now timeout srt.bidir _ srt.src lc h hroom
  | linkDel src dst =>
    obtain ⟨lc₁, hd, hi⟩ := lcLinkDel_inv h src dst
    rw [LcOp.exec, hd] at he
    cases he
    exact hi
  | srtFind mem src dst =>
    obtain ⟨⟨r, lc₁⟩, hf, rfl⟩ := Option.map_eq_some_iff.mp he
    exact (lcSrtFind_graph h.1.toLcBase hf).inv h
  | flush =>
    cases he
    exact lcFlush_inv h

theorem lcRun_inv (ops : List LcOp) : ∀ lc lc' : LcGraph, LcInv lc → lcRunRoom ops lc →
    lcRun ops lc = some lc' → LcInv lc' := by
  induction ops with
  | nil =>
    intro lc lc' h _ hr
    cases hr
    exact h
  | cons op ops ih =>
    intro lc lc' h hroom hr
    obtain ⟨lc₁, he, hr⟩ := Option.bind_eq_some_iff.mp hr
    exact ih lc₁ lc' (op.exec_inv h hroom.1 he) (hroom.2 lc₁ he) hr

theorem LinkDeleted.no_link {lc lc' : LcGraph} (h : LcInv lc) {l : LcLink}
    (hl : l ∈ lc.links.head) (hd : LinkDeleted lc l lc') (c : ℕ) :
    ¬ lc'.hasLink (lc.addr l.src) (lc.addr l.dst) c := by
  rintro ⟨l', hl', hs, hd', _⟩
  rw [hd.links] at hl'
  rw [hd.addr] at hs hd'
  have hm := List.mem_of_mem_erase hl'
  have hsrc := h.1.addr_inj _ (h.1.src_mem hm) _ (h.1.src_mem hl) hs
  have hdst := h.1.addr_inj _ (h.1.dst_mem hm) _ (h.1.dst_mem hl) hd'
  have hrefs : refs l' = refs l := by rw [refs, refs, hsrc, hdst]
  have hnd := h.1.refs_nodup
  rw [(List.perm_cons_erase hl).map refs |>.nodup_iff, List.map_cons, List.nodup_cons] at hnd
  exact hnd.1 (hrefs ▸ List.mem_map_of_mem hl')

theorem lcLinkDel_no_link {lc lc' : LcGraph} (h : LcInv lc) {src dst : InAddr}
    (hd : lcLinkDel src dst lc = some lc') (c : ℕ) : ¬ lc'.hasLink src dst c := by
  unfold lcLinkDel at hd
  cases hf : linkFind lc src dst with
  | none =>
    rw [hf] at hd
    cases hd
    rintro ⟨l, hl, hs, hd, _⟩
    exact linkFind_none hf l hl ⟨hs, hd⟩
  | some l =>
    obtain ⟨hl, rfl, rfl⟩ := linkFind_mem hf
    obtain ⟨lc₁, he₁, hd₁⟩ := unlockedLinkDel_spec h hl
    have hno := hd₁.no_link h hl c
    simp only [hf, he₁, Option.bind_eq_bind, Option.bind_some] at hd
    cases hf₁ : linkFind lc₁ (lc.addr l.dst) (lc.addr l.src) with
    | none =>
      rw [hf₁] at hd
      cases hd
      exact hno
    | some l₁ =>
      obtain ⟨lc₂, he₂, hd₂⟩ := unlockedLinkDel_spec hd₁.inv (linkFind_mem hf₁).1
      simp only [hf₁, he₂, Option.bind_some] at hd
      cases hd
      rintro ⟨l', hl', hs, hd', hc⟩
      change lc₂.addr l'.src = _ at hs
      change lc₂.addr l'.dst = _ at hd'
      rw [hd₂.addr] at hs hd'
      have hm : l' ∈ lc₂.links.head := hl'
      rw [hd₂.links] at hm
      exact hno ⟨l', List.mem_of_mem_erase hm, hs, hd', hc⟩

end DsrUu
