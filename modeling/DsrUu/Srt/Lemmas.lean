import DsrUu.Srt.Model
import Mathlib.Data.List.Nodup

namespace DsrUu

theorem checkDuplicateLoop_false (dst : InAddr) (as : List InAddr) : ∀ buf : List InAddr,
    buf.Nodup → (checkDuplicateLoop dst buf as = false ↔ (buf ++ (as ++ [dst])).Nodup) := by
  induction as with
  | nil =>
    intro buf hb
    simp only [checkDuplicateLoop, List.any_eq_false, decide_eq_true_eq, List.nil_append,
      List.nodup_append, List.nodup_singleton, List.mem_singleton, true_and, hb]
    constructor
    · rintro h a ha b rfl
      exact h a ha
    · intro h a ha
      exact h a ha dst rfl
  | cons a as ih =>
    intro buf hb
    unfold checkDuplicateLoop
    split
    · next h =>
      obtain ⟨x, hx, hxa⟩ := List.any_eq_true.mp h
      rw [decide_eq_true_eq] at hxa
      subst hxa
      constructor
      · intro hf
        cases hf
      · intro hn
        rw [List.nodup_append] at hn
        exact absurd rfl (hn.2.2 x hx x (by simp))
    · next h =>
      have ha : a ∉ buf := fun hm => h (List.any_eq_true.mpr ⟨a, hm, by simp⟩)
      have hb' : (buf ++ [a]).Nodup := by
        rw [List.nodup_append]
        refine ⟨hb, List.nodup_singleton a, ?_⟩
        intro x hx y hy hxy
        rw [List.mem_singleton.mp hy] at hxy
        exact ha (hxy ▸ hx)
      rw [ih (buf ++ [a]) hb', List.append_assoc, List.singleton_append, List.cons_append]

theorem dsrSrtCheckDuplicate_false (srt : DsrSrt) :
    dsrSrtCheckDuplicate srt = false ↔ srt.path.Nodup :=
  checkDuplicateLoop_false srt.dst (srt.addrs.take srt.n) [srt.src] (List.nodup_singleton _)

section Exact

variable {srt : DsrSrt}

theorem n_of_laddrs (h : srt.laddrs = 4 * srt.addrs.length) : srt.n = srt.addrs.length := by
  rw [DsrSrt.n, h]
  omega

theorem take_of_laddrs (h : srt.laddrs = 4 * srt.addrs.length) :
    srt.addrs.take srt.n = srt.addrs := by
  rw [n_of_laddrs h, List.take_length]

theorem path_of_laddrs (h : srt.laddrs = 4 * srt.addrs.length) :
    srt.path = srt.src :: (srt.addrs ++ [srt.dst]) := by
  rw [DsrSrt.path, take_of_laddrs h]

end Exact

theorem addrAt_natCast (srt : DsrSrt) (i : ℕ) : srt.addrAt i = srt.addrs.getD i default := by
  simp [DsrSrt.addrAt]

theorem dsrSrtNewSplit_at {mem : ℕ} {srt : DsrSrt} {pre post : List InAddr} {me : InAddr}
    (hl : srt.laddrs = 4 * srt.addrs.length) (hs : srt.addrs = pre ++ me :: post)
    (hme : me ∉ pre) : dsrSrtNewSplit mem srt me =
      some { src := srt.src, dst := me, flags := mem, laddrs := 4 * pre.length, addrs := pre } := by
  have hn : srt.n ≠ 0 := by
    rw [n_of_laddrs hl, hs, List.length_append, List.length_cons]
    omega
  have hidx : (srt.addrs.take srt.n).findIdx? (· = me) = some pre.length := by
    rw [take_of_laddrs hl, hs, List.findIdx?_append]
    have hnone : pre.findIdx? (fun x => decide (x = me)) = none := by
      rw [List.findIdx?_eq_none_iff]
      intro x hx
      exact decide_eq_false fun he => hme (he ▸ hx)
    simp [hnone, List.findIdx?_cons]
  have hat : srt.addrAt (pre.length : ℕ) = me := by
    rw [addrAt_natCast, hs]
    simp
  have htake : srt.addrs.take pre.length = pre := by
    rw [hs, List.take_left]
  simp only [dsrSrtNewSplit, if_neg hn, hidx, hat, htake]

theorem dsrSrtConcatenate_exact {mem : ℕ} {srt₁ srt₂ : DsrSrt}
    (h₁ : srt₁.laddrs = 4 * srt₁.addrs.length) (h₂ : srt₂.laddrs = 4 * srt₂.addrs.length) :
    dsrSrtConcatenate mem srt₁ srt₂ =
      { src := srt₁.src, dst := srt₂.dst, flags := mem
        laddrs := 4 * (srt₁.addrs ++ srt₂.src :: srt₂.addrs).length
        addrs := srt₁.addrs ++ srt₂.src :: srt₂.addrs } := by
  have hlen : (srt₁.n + srt₂.n + 1) * 4 = 4 * (srt₁.addrs ++ srt₂.src :: srt₂.addrs).length := by
    rw [n_of_laddrs h₁, n_of_laddrs h₂, List.length_append, List.length_cons]
    omega
  rw [dsrSrtConcatenate, take_of_laddrs h₁, take_of_laddrs h₂, hlen]

end DsrUu
