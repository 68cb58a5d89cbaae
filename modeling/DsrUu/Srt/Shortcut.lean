import DsrUu.Srt.Lemmas

namespace DsrUu

section Last

variable {srt : DsrSrt} {a : InAddr}

theorem shortcutNum_append (num i : Int) (xs ys : List InAddr) :
    shortcutNum srt a num i (xs ++ ys) = shortcutNum srt a (shortcutNum srt a num i xs) (i + xs.length) ys := by
  induction xs generalizing num i with
  | nil => simp [shortcutNum]
  | cons x xs ih =>
    simp only [List.cons_append, shortcutNum, ih, List.length_cons]
    congr 1
    push_cast
    omega

theorem shortcutNum_absent {num i : Int} {xs : List InAddr} (h : a ∉ xs) :
    shortcutNum srt a num i xs = num := by
  induction xs generalizing i with
  | nil => rfl
  | cons x xs ih =>
    obtain ⟨hx, hxs⟩ := not_or.mp (mt List.mem_cons.mpr h)
    rw [shortcutNum, if_neg (Ne.symm hx), ih hxs]

theorem shortcutNum_last {num i : Int} {pre post : List InAddr} (h : a ∉ post) :
    shortcutNum srt a num i (pre ++ a :: post) = i + pre.length + 1 := by
  rw [shortcutNum_append, shortcutNum, if_pos rfl, shortcutNum_absent h]

theorem exists_last_occurrence {xs : List InAddr} (h : a ∈ xs) :
    ∃ pre post, xs = pre ++ a :: post ∧ a ∉ post := by
  induction xs with
  | nil => cases h
  | cons x xs ih =>
    by_cases hxs : a ∈ xs
    · obtain ⟨pre, post, rfl, hpost⟩ := ih hxs
      exact ⟨x :: pre, post, rfl, hpost⟩
    · rcases List.mem_cons.mp h with rfl | hmem
      · exact ⟨[], xs, rfl, hxs⟩
      · exact absurd hmem hxs

theorem shortcutNum_mem {num i : Int} {xs : List InAddr} (h : a ∈ xs) :
    i + 1 ≤ shortcutNum srt a num i xs := by
  obtain ⟨pre, post, rfl, hpost⟩ := exists_last_occurrence h
  rw [shortcutNum_last hpost]
  omega

end Last

section Kept

variable {a1 a2 : Int}

theorem shortcutAddrs_append (i : Int) (xs ys : List InAddr) :
    shortcutAddrs a1 a2 i (xs ++ ys) = shortcutAddrs a1 a2 i xs ++ shortcutAddrs a1 a2 (i + xs.length) ys := by
  induction xs generalizing i with
  | nil => simp [shortcutAddrs]
  | cons x xs ih =>
    have hi : i + 1 + (xs.length : Int) = i + ((x :: xs).length : ℕ) := by
      rw [List.length_cons]
      omega
    simp only [List.cons_append, shortcutAddrs, ih, hi]
    split
    · rfl
    · rfl

theorem shortcutAddrs_before {i : Int} {xs : List InAddr} (h : i + xs.length ≤ a1) :
    shortcutAddrs a1 a2 i xs = xs := by
  induction xs generalizing i with
  | nil => rfl
  | cons x xs ih =>
    rw [List.length_cons] at h
    rw [shortcutAddrs, if_neg (by omega), ih (by omega)]

theorem shortcutAddrs_after {i : Int} {xs : List InAddr} (h : a2 ≤ i + 1) :
    shortcutAddrs a1 a2 i xs = xs := by
  induction xs generalizing i with
  | nil => rfl
  | cons x xs ih => rw [shortcutAddrs, if_neg (by omega), ih (by omega)]

theorem shortcutAddrs_between {i : Int} {xs : List InAddr} (h1 : a1 ≤ i) (h2 : i + xs.length < a2) :
    shortcutAddrs a1 a2 i xs = [] := by
  induction xs generalizing i with
  | nil => rfl
  | cons x xs ih =>
    rw [List.length_cons] at h2
    rw [shortcutAddrs, if_pos (by omega), ih (by omega) (by omega)]

end Kept

section Reverse

theorem dsrSrtNewRev_exact (mem : ℕ) {srt : DsrSrt} (h : srt.laddrs = 4 * srt.addrs.length) :
    dsrSrtNewRev mem srt = { src := srt.dst, dst := srt.src, flags := mem, laddrs := srt.laddrs
                             addrs := srt.addrs.reverse } := by
  have hn := n_of_laddrs h
  have hrev : ((List.range srt.n).map fun i : ℕ => srt.addrAt (srt.n - 1 - i)) = srt.addrs.reverse := by
    apply List.ext_getElem
    · simp [hn]
    · intro i hi _
      rw [List.length_map, List.length_range, hn] at hi
      have hidx : ((srt.n : Int) - 1 - (i : ℕ)) = ((srt.addrs.length - 1 - i : ℕ) : Int) := by
        rw [hn]
        omega
      simp only [List.getElem_map, List.getElem_range, List.getElem_reverse]
      rw [hidx, addrAt_natCast, List.getD_eq_getElem?_getD, List.getElem?_eq_getElem (by omega)]
      rfl
  rw [dsrSrtNewRev]
  simp only [bind_pure_comp, List.map_eq_map, List.map_map, Function.comp_def, hrev]

theorem path_reverse {mem : ℕ} {srt : DsrSrt} (h : srt.laddrs = 4 * srt.addrs.length) :
    (dsrSrtNewRev mem srt).path = srt.path.reverse := by
  rw [dsrSrtNewRev_exact mem h, path_of_laddrs h, path_of_laddrs (by simpa using h)]
  simp

theorem dsrSrtNewSplit_absent {mem : ℕ} {srt : DsrSrt} {me : InAddr} (h : me ∉ srt.addrs) :
    dsrSrtNewSplit mem srt me = none := by
  unfold dsrSrtNewSplit
  split
  · rfl
  · have hnone : (srt.addrs.take srt.n).findIdx? (· = me) = none := by
      rw [List.findIdx?_eq_none_iff]
      intro x hx
      exact decide_eq_false fun he => h (he ▸ List.mem_of_mem_take hx)
    rw [hnone]

end Reverse

end DsrUu
