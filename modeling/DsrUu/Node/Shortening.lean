import DsrUu.Node.GratReply
import DsrUu.Srt.Shortcut

namespace DsrUu

open Effect

def shortcutBack (mem : ℕ → UInt8) (me : InAddr) (cut : DsrSrt) : Option DsrSrt :=
  if cut.n = 0 then some (dsrSrtNewRev (srtFlags mem) cut)
  else dsrSrtNewSplitRev (srtFlags mem) cut me

structure Overtaken (srt : DsrSrt) (me : InAddr) (sleft : ℕ) (front mid rest tl : List InAddr)
    (nxt : InAddr) : Prop where
  addrs : srt.addrs = front ++ nxt :: (mid ++ rest)
  from_me : rest ++ [srt.dst] = me :: tl
  length : front.length + sleft = srt.addrs.length
  intended : nxt ≠ me
  last : me ∉ tl
  prevHop : dsrSrtPrevHop srt ((sleft : Int) - 1) = (srt.src :: front).getLast (List.cons_ne_nil _ _)

theorem dsrSrtFindAddr_true {srt : DsrSrt} {me : InAddr} {sleft : ℕ}
    (h : dsrSrtFindAddr srt me sleft = true) : 1 ≤ sleft ∧ sleft ≤ srt.n ∧
      (me = srt.dst ∨ ∃ i, i < sleft ∧ srt.addrAt ((srt.n - sleft + i : ℕ) : Int) = me) := by
  unfold dsrSrtFindAddr at h
  split at h
  · cases h
  · next hn =>
    obtain ⟨-, hle, hlt⟩ : srt.n ≠ 0 ∧ sleft ≤ srt.n ∧ 1 ≤ sleft := by omega
    refine ⟨hlt, hle, ?_⟩
    rcases Bool.or_eq_true_iff.mp h with h | h
    · obtain ⟨i, hi, hat⟩ := List.any_eq_true.mp h
      have hsl := List.mem_range.mp hi
      have hidx : (srt.n : Int) - ((sleft : Int) - (i : ℕ)) = ((srt.n - sleft + i : ℕ) : Int) := by omega
      rw [hidx] at hat
      exact .inr ⟨i, hsl, of_decide_eq_true hat⟩
    · exact .inl (of_decide_eq_true h)

theorem prevHop_front {srt : DsrSrt} {sleft : ℕ} (hn : srt.n = srt.addrs.length)
    (hle : sleft ≤ srt.n) : dsrSrtPrevHop srt ((sleft : Int) - 1) =
      (srt.src :: srt.addrs.take (srt.n - sleft)).getLast (List.cons_ne_nil _ _) := by
  unfold dsrSrtPrevHop
  rcases Nat.eq_or_lt_of_le hle with rfl | hlt
  · rw [if_pos rfl]
    simp
  · obtain ⟨i, hi⟩ : ∃ i, srt.n - sleft = i + 1 := ⟨srt.n - sleft - 1, by omega⟩
    have hidx : (srt.n : Int) - 2 - ((sleft : Int) - 1) = (i : ℕ) := by omega
    have hilt : i < srt.addrs.length := by omega
    have htake : srt.src :: srt.addrs.take (i + 1) = (srt.src :: srt.addrs.take i) ++ [srt.addrs[i]] := by
      rw [List.take_succ_eq_append_getElem hilt, List.cons_append]
    rw [if_neg (by omega), hidx, addrAt_natCast, List.getD_eq_getElem?_getD, List.getElem?_eq_getElem hilt]
    simp only [hi, htake, List.getLast_concat, Option.getD_some]

theorem overtaken {srt : DsrSrt} {me : InAddr} {sleft : ℕ} (hn : srt.n = srt.addrs.length)
    (hfind : dsrSrtFindAddr srt me sleft = true) (hnext : dsrSrtNextHop srt sleft ≠ me) :
    ∃ front mid rest tl nxt, Overtaken srt me sleft front mid rest tl nxt := by
  obtain ⟨hpos, hle, hme⟩ := dsrSrtFindAddr_true hfind
  have hlt : srt.n - sleft < srt.addrs.length := by omega
  have hnxt : dsrSrtNextHop srt sleft = srt.addrs[srt.n - sleft] := by
    have hidx : (srt.n : Int) - (sleft : ℕ) = ((srt.n - sleft : ℕ) : Int) := by omega
    rw [dsrSrtNextHop, if_neg (by omega), hidx, addrAt_natCast, List.getD_eq_getElem?_getD,
      List.getElem?_eq_getElem hlt]
    rfl
  rw [hnxt] at hnext
  have hsplit : srt.addrs = srt.addrs.take (srt.n - sleft) ++
      srt.addrs[srt.n - sleft] :: srt.addrs.drop (srt.n - sleft + 1) := by
    rw [← List.drop_eq_getElem_cons hlt, List.take_append_drop]
  have hmem : me ∈ srt.addrs.drop (srt.n - sleft + 1) ++ [srt.dst] := by
    rcases hme with rfl | ⟨i, hi, hat⟩
    · exact List.mem_append_right _ (List.mem_singleton_self _)
    · have hi' : srt.n - sleft + i < srt.addrs.length := by omega
      rw [addrAt_natCast, List.getD_eq_getElem?_getD, List.getElem?_eq_getElem hi'] at hat
      have hin : me ∈ srt.addrs.drop (srt.n - sleft) :=
        List.mem_drop_iff_getElem.mpr ⟨i, by omega, hat⟩
      rw [List.drop_eq_getElem_cons hlt] at hin
      rcases List.mem_cons.mp hin with rfl | hin
      · exact absurd rfl hnext
      · exact List.mem_append_left _ hin
  obtain ⟨mid, tl, heq, hlast⟩ := exists_last_occurrence hmem
  have hjoin : srt.addrs.drop (srt.n - sleft + 1) ++ [srt.dst] =
      (mid ++ (me :: tl).dropLast) ++ [(me :: tl).getLast (List.cons_ne_nil _ _)] := by
    rw [List.append_assoc, List.dropLast_append_getLast, heq]
  obtain ⟨hback, hdst⟩ := List.append_inj' hjoin rfl
  refine ⟨srt.addrs.take (srt.n - sleft), mid, (me :: tl).dropLast, tl, srt.addrs[srt.n - sleft], ?_, ?_,
    ?_, hnext, hlast, ?_⟩
  · rw [← hback]
    exact hsplit
  · rw [hdst, List.dropLast_append_getLast]
  · rw [List.length_take]
    omega
  · exact prevHop_front hn hle

namespace Overtaken

variable {srt : DsrSrt} {me nxt : InAddr} {sleft : ℕ} {front mid rest tl : List InAddr}

theorem path (h : Overtaken srt me sleft front mid rest tl nxt) (hn : srt.n = srt.addrs.length) :
    srt.path = (srt.src :: front) ++ (nxt :: mid ++ me :: tl) := by
  rw [DsrSrt.path, hn, List.take_length, h.addrs]
  simp [h.from_me]

theorem take_front (h : Overtaken srt me sleft front mid rest tl nxt) :
    srt.addrs.take (srt.addrs.length - sleft) = front := by
  have hlen := h.length
  have hf : srt.addrs.length - sleft = front.length := by omega
  rw [hf, h.addrs, List.take_left]

theorem drop_front (h : Overtaken srt me sleft front mid rest tl nxt) :
    srt.addrs.drop (srt.addrs.length - sleft) = nxt :: (mid ++ rest) := by
  have hlen := h.length
  have hf : srt.addrs.length - sleft = front.length := by omega
  rw [hf, h.addrs, List.drop_left]

theorem count (h : Overtaken srt me sleft front mid rest tl nxt) :
    srt.addrs.length = front.length + mid.length + rest.length + 1 := by
  rw [h.addrs]
  simp only [List.length_append, List.length_cons]
  omega

theorem rest_nil_iff (h : Overtaken srt me sleft front mid rest tl nxt) :
    rest = [] ↔ me = srt.dst := by
  constructor
  · rintro rfl
    exact (List.cons.inj h.from_me).1.symm
  · intro hme
    cases rest with
    | nil => rfl
    | cons r rs =>
      have htl := (List.cons.inj h.from_me).2
      refine absurd ?_ h.last
      rw [← htl, hme]
      exact List.mem_append_right _ (List.mem_singleton_self _)

theorem rest_cons (h : Overtaken srt me sleft front mid rest tl nxt) (hne : me ≠ srt.dst) :
    ∃ r, rest = me :: r ∧ me ∉ r := by
  cases rest with
  | nil => exact absurd (h.rest_nil_iff.mp rfl) hne
  | cons x r =>
    obtain ⟨rfl, htl⟩ := List.cons.inj h.from_me
    refine ⟨r, rfl, fun hr => h.last ?_⟩
    rw [← htl]
    exact List.mem_append_left _ hr

theorem prev_num (h : Overtaken srt me sleft front mid rest tl nxt) :
    shortcutNum srt (dsrSrtPrevHop srt ((sleft : Int) - 1))
      (if srt.src = dsrSrtPrevHop srt ((sleft : Int) - 1) then 0 else -1) 0 front = front.length := by
  rw [h.prevHop]
  rcases List.eq_nil_or_concat' front with rfl | ⟨f, x, rfl⟩
  · simp [shortcutNum]
  · have hlast : (srt.src :: (f ++ [x])).getLast (List.cons_ne_nil _ _) = x := by simp
    rw [hlast, shortcutNum_last List.not_mem_nil, List.length_append, List.length_singleton]
    omega

theorem me_num (h : Overtaken srt me sleft front mid rest tl nxt) (hn : srt.n = srt.addrs.length) :
    (if srt.dst = me then (srt.n : Int) + 1 else shortcutNum srt me (-1) 0 srt.addrs) =
      (front.length + mid.length + 2 : ℕ) := by
  have hcount := h.count
  by_cases hme : me = srt.dst
  · rw [h.rest_nil_iff.mpr hme, List.length_nil] at hcount
    rw [if_pos hme.symm, hn, hcount]
    omega
  · obtain ⟨r, hr, hnot⟩ := h.rest_cons hme
    have haddrs : srt.addrs = (front ++ nxt :: mid) ++ me :: r := by
      rw [h.addrs, hr]
      simp
    rw [if_neg (Ne.symm hme), haddrs, shortcutNum_last hnot, List.length_append, List.length_cons]
    omega

theorem shortcut_exact (h : Overtaken srt me sleft front mid rest tl nxt) (hn : srt.n = srt.addrs.length)
    (hlen : srt.addrs.length ≤ 63) (hprv : dsrSrtPrevHop srt ((sleft : Int) - 1) ∉ nxt :: (mid ++ rest))
    (mem : ℕ) : dsrSrtShortcut mem srt (dsrSrtPrevHop srt ((sleft : Int) - 1)) me =
      { src := srt.src, dst := srt.dst, flags := mem, laddrs := 4 * (front ++ rest).length
        addrs := front ++ rest } := by
  have hcount := h.count
  have htake : srt.addrs.take srt.n = srt.addrs := by rw [hn, List.take_length]
  have ha1 : shortcutNum srt (dsrSrtPrevHop srt ((sleft : Int) - 1))
      (if srt.src = dsrSrtPrevHop srt ((sleft : Int) - 1) then 0 else -1) 0 srt.addrs = front.length := by
    conv_lhs => rw [h.addrs]
    rw [shortcutNum_append, h.prev_num, shortcutNum_absent hprv]
  have hkept : shortcutAddrs front.length (front.length + mid.length + 2 : ℕ) 0 srt.addrs = front ++ rest := by
    have haddrs : srt.addrs = front ++ (nxt :: mid ++ rest) := h.addrs
    rw [haddrs, shortcutAddrs_append, shortcutAddrs_append, shortcutAddrs_before (by omega),
      shortcutAddrs_between (by omega) (by rw [List.length_cons]; omega),
      shortcutAddrs_after (by rw [List.length_cons]; omega), List.nil_append]
  have hcut : ((srt.n : Int) - ((front.length + mid.length + 2 : ℕ) - (front.length : ℕ) - 1)) * 4 =
      ((4 * (front ++ rest).length : ℕ) : Int) := by
    rw [hn, hcount, List.length_append]
    omega
  have hu : toUint32 ((4 * (front ++ rest).length : ℕ) : Int) = 4 * (front ++ rest).length := by
    unfold toUint32
    rw [List.length_append]
    omega
  unfold dsrSrtShortcut
  simp only [htake, ha1, h.me_num hn, hcut, hu, hkept]
  split
  · next hzero =>
    have hnil : front ++ rest = [] := List.length_eq_zero_iff.mp (by omega)
    rw [hnil]
  · rfl

theorem shortcut_late (h : Overtaken srt me sleft front mid rest tl nxt) (hn : srt.n = srt.addrs.length)
    (hprv : dsrSrtPrevHop srt ((sleft : Int) - 1) ∈ nxt :: (mid ++ rest)) (mem : ℕ) :
    ∃ zs, (dsrSrtShortcut mem srt (dsrSrtPrevHop srt ((sleft : Int) - 1)) me).addrs = front ++ nxt :: zs := by
  have hcount := h.count
  have htake : srt.addrs.take srt.n = srt.addrs := by rw [hn, List.take_length]
  obtain ⟨a1, ha1⟩ : ∃ a1, a1 = shortcutNum srt (dsrSrtPrevHop srt ((sleft : Int) - 1))
      (if srt.src = dsrSrtPrevHop srt ((sleft : Int) - 1) then 0 else -1) 0 srt.addrs := ⟨_, rfl⟩
  have hlate : (front.length : Int) + 1 ≤ a1 := by
    rw [ha1]
    conv_rhs => rw [h.addrs]
    rw [shortcutNum_append]
    have hle : ∀ num, 0 + (front.length : Int) + 1 ≤ shortcutNum srt (dsrSrtPrevHop srt ((sleft : Int) - 1))
        num (0 + front.length) (nxt :: (mid ++ rest)) := fun _ => shortcutNum_mem hprv
    have hnum := hle (shortcutNum srt (dsrSrtPrevHop srt ((sleft : Int) - 1))
      (if srt.src = dsrSrtPrevHop srt ((sleft : Int) - 1) then 0 else -1) 0 front)
    omega
  have hsplit : srt.addrs = front ++ ([nxt] ++ (mid ++ rest)) := h.addrs
  unfold dsrSrtShortcut
  simp only [htake, ← ha1, h.me_num hn]
  rw [if_neg (by rw [hn, hcount]; omega), hsplit, shortcutAddrs_append, shortcutAddrs_append,
    shortcutAddrs_before (by omega), shortcutAddrs_before (by rw [List.length_singleton]; omega)]
  exact ⟨_, rfl⟩

end Overtaken

theorem rrepPkt_runs (mem : ℕ → UInt8) (me : InAddr) (srt srtToMe : DsrSrt) :
    ∃ pkt, rrepPkt mem me srt srtToMe = some pkt ∧ pkt.src = me ∧ pkt.dst = srt.dst := by
  unfold rrepPkt
  dsimp only
  rw [dsrOptHdrAdd, if_neg (by omega), Option.bind_some, dsrSrtOptAdd, if_neg (by omega), Option.bind_some,
    dsrRrepOptAdd, if_neg (by omega), Option.map_some]
  have hsrc : ∀ dp off xs, (DsrPkt.write dp off xs).src = dp.src := fun dp off xs => (write_same dp off xs).src
  have hdst : ∀ dp off xs, (DsrPkt.write dp off xs).dst = dp.dst := fun dp off xs => (write_same dp off xs).dst
  refine ⟨_, rfl, ?_, ?_⟩
  · simp only [dsrRrepAddSrt, hsrc]
    rfl
  · simp only [dsrRrepAddSrt, hdst]
    rfl

def arsCut (mem : ℕ → UInt8) (me : InAddr) (srt : DsrSrt) (sleft : ℕ) : DsrSrt :=
  dsrSrtShortcut (srtFlags mem) srt (dsrSrtPrevHop srt ((sleft : Int) - 1)) me

structure Shortens (me : InAddr) (dp : DsrPkt) (srt : DsrSrt)
    (sleft : ℕ) (s : DsrNode) : Prop where
  cut : ∃ j, srt.n - sleft < j ∧ srt.path[j]? = some me ∧
    (arsCut s.kmem me srt sleft).path = srt.path.take (srt.n - sleft + 1) ++ srt.path.drop j
  laddrs : (arsCut s.kmem me srt sleft).laddrs = 4 * (arsCut s.kmem me srt sleft).addrs.length
  reply : ∃ back, shortcutBack s.kmem me (arsCut s.kmem me srt sleft) = some back ∧
    back.path = me :: (srt.path.take (srt.n - sleft + 1)).reverse ∧
    (∀ mem, ∃ pkt, rrepPkt mem me back (arsCut s.kmem me srt sleft) = some pkt ∧ pkt.src = me ∧
      pkt.dst = dp.src) ∧
    automaticRouteShortening me (dsrSrtNextHop srt sleft) sleft dp srt s = (do
      gratRrepTblAdd dp.src dp.prvHop
      dsrRrepSend xmit back (arsCut s.kmem me srt sleft)
      pure true) s

theorem automaticRouteShortening_eq {me : InAddr} {dp : DsrPkt} {srt : DsrSrt} {sleft : ℕ} {s : DsrNode} (hon : s.confvals .automaticRouteShortening ≠ 0)
    (hnext : dsrSrtNextHop srt sleft ≠ me) (hfind : dsrSrtFindAddr srt me sleft = true)
    (hfree : GratFree s) (hhold : s.gratRrepTbl.find (gratCrit dp.src dp.prvHop) = none)
    (hprv : dp.prvHop = dsrSrtPrevHop srt ((sleft : Int) - 1)) :
    automaticRouteShortening me (dsrSrtNextHop srt sleft) sleft dp srt s =
      match shortcutBack s.kmem me (arsCut s.kmem me srt sleft) with
      | none => .ok false s
      | some back => (do
          gratRrepTblAdd dp.src dp.prvHop
          dsrRrepSend xmit back (arsCut s.kmem me srt sleft)
          pure true : DsrM Bool) s := by
  have hfound := gratRrepTblFind_runs hfree dp.src dp.prvHop
  rw [hhold] at hfound
  have harm : automaticRouteShortening me (dsrSrtNextHop srt sleft) sleft dp srt s = (do
      if ← gratRrepTblFind dp.src dp.prvHop then pure true
      else
        let mem ← kmalloc
        match shortcutBack mem me (dsrSrtShortcut (srtFlags mem) srt dp.prvHop me) with
        | none => pure false
        | some back =>
            gratRrepTblAdd dp.src dp.prvHop
            dsrRrepSend xmit back (dsrSrtShortcut (srtFlags mem) srt dp.prvHop me)
            pure true : DsrM Bool) s := by
    unfold automaticRouteShortening
    show (if s.confvals .automaticRouteShortening ≠ 0 ∧ dsrSrtNextHop srt sleft ≠ me ∧
      dsrSrtFindAddr srt me sleft = true then _ else _ : DsrM Bool) s = _
    rw [if_pos ⟨hon, hnext, hfind⟩]
    rfl
  rw [harm, bind_of_ok hfound, if_neg (by simp), hprv]
  show (match shortcutBack s.kmem me (arsCut s.kmem me srt sleft) with
    | none => pure false
    | some back => (do
        gratRrepTblAdd dp.src (dsrSrtPrevHop srt ((sleft : Int) - 1))
        dsrRrepSend xmit back (arsCut s.kmem me srt sleft)
        pure true : DsrM Bool)) s = _
  cases shortcutBack s.kmem me (arsCut s.kmem me srt sleft) with
  | none => rfl
  | some back => rfl

namespace Overtaken

variable {srt : DsrSrt} {me nxt : InAddr} {sleft : ℕ} {front mid rest tl : List InAddr}

theorem cut_path (h : Overtaken srt me sleft front mid rest tl nxt) (hn : srt.n = srt.addrs.length)
    {cut : DsrSrt} (hcut : cut.path = (srt.src :: front) ++ (me :: tl)) :
    ∃ j, srt.n - sleft < j ∧ srt.path[j]? = some me ∧
      cut.path = srt.path.take (srt.n - sleft + 1) ++ srt.path.drop j := by
  have hlen := h.length
  have hi : srt.n - sleft = front.length := by omega
  have hdrop : srt.path.drop (front.length + mid.length + 2) = me :: tl := by
    have hl : front.length + mid.length + 2 = ((srt.src :: front) ++ (nxt :: mid)).length := by
      simp only [List.length_append, List.length_cons]
      omega
    rw [h.path hn, ← List.append_assoc, hl, List.drop_left]
  have htake : srt.path.take (front.length + 1) = srt.src :: front := by
    rw [h.path hn, ← List.length_cons (a := srt.src), List.take_left]
  refine ⟨front.length + mid.length + 2, by omega, ?_, ?_⟩
  · rw [← List.head?_drop, hdrop]
    rfl
  · rw [hi, htake, hdrop, hcut]

theorem late_path (h : Overtaken srt me sleft front mid rest tl nxt) (hn : srt.n = srt.addrs.length)
    {cut : DsrSrt} {zs : List InAddr} (hcut : cut.addrs = front ++ nxt :: zs)
    (hladdrs : cut.laddrs = 4 * cut.addrs.length) :
    ¬ ∃ j, srt.n - sleft < j ∧ srt.path[j]? = some me ∧
      cut.path = srt.path.take (srt.n - sleft + 1) ++ srt.path.drop j := by
  rintro ⟨j, -, hj, hpath⟩
  have hlen := h.length
  have hi : srt.n - sleft = front.length := by omega
  have htake : srt.path.take (front.length + 1) = srt.src :: front := by
    rw [h.path hn, ← List.length_cons (a := srt.src), List.take_left]
  rw [hi, htake, path_of_laddrs hladdrs, hcut] at hpath
  have hget := congrArg (fun l => l[front.length + 1]?) hpath
  have hl : front.length + 1 = (srt.src :: front).length := (List.length_cons).symm
  simp only [List.cons_append, List.append_assoc, List.getElem?_cons_succ,
    List.getElem?_append_right (Nat.le_refl _), Nat.sub_self, List.getElem?_drop, List.getElem?_cons_zero,
    Nat.add_zero, hj] at hget
  exact h.intended (Option.some_inj.mp hget)

end Overtaken

theorem back_through (mem : ℕ → UInt8) {me : InAddr} {cut : DsrSrt} {pre post : List InAddr}
    (hl : cut.laddrs = 4 * cut.addrs.length) (hs : cut.addrs = pre ++ me :: post) (hme : me ∉ pre) :
    ∃ back, shortcutBack mem me cut = some back ∧ back.path = me :: (cut.src :: pre).reverse := by
  have hn : cut.n ≠ 0 := by
    rw [n_of_laddrs hl, hs, List.length_append, List.length_cons]
    omega
  refine ⟨dsrSrtNewRev (srtFlags mem)
    { src := cut.src, dst := me, flags := srtFlags mem, laddrs := 4 * pre.length, addrs := pre }, ?_, ?_⟩
  · rw [shortcutBack, if_neg hn, dsrSrtNewSplitRev, dsrSrtNewSplit_at hl hs hme]
    rfl
  · rw [path_reverse rfl, path_of_laddrs rfl]
    simp

theorem back_direct (mem : ℕ → UInt8) {me : InAddr} {cut : DsrSrt} (hl : cut.laddrs = 0)
    (hs : cut.addrs = []) : ∃ back, shortcutBack mem me cut = some back ∧ back.path = [cut.dst, cut.src] := by
  have hladdrs : cut.laddrs = 4 * cut.addrs.length := by rw [hl, hs]; rfl
  refine ⟨dsrSrtNewRev (srtFlags mem) cut, ?_, ?_⟩
  · rw [shortcutBack, if_pos (by rw [n_of_laddrs hladdrs, hs]; rfl)]
  · rw [path_reverse hladdrs, path_of_laddrs hladdrs, hs]
    rfl

theorem back_absent (mem : ℕ → UInt8) {me : InAddr} {cut : DsrSrt} (hl : cut.laddrs = 4 * cut.addrs.length)
    (hne : cut.addrs ≠ []) (hme : me ∉ cut.addrs) : shortcutBack mem me cut = none := by
  have hn : cut.n ≠ 0 := by
    rw [n_of_laddrs hl]
    exact fun h0 => hne (List.length_eq_zero_iff.mp h0)
  rw [shortcutBack, if_neg hn, dsrSrtNewSplitRev, dsrSrtNewSplit_absent hme]
  rfl

section Reply

variable {mem : ℕ → UInt8} {srt : DsrSrt} {me nxt : InAddr} {sleft : ℕ} {front mid rest tl : List InAddr}

theorem Overtaken.arsCut_eq (h : Overtaken srt me sleft front mid rest tl nxt)
    (hn : srt.n = srt.addrs.length) (hlen : srt.addrs.length ≤ 63)
    (hprv : dsrSrtPrevHop srt ((sleft : Int) - 1) ∉ nxt :: (mid ++ rest)) (mem : ℕ → UInt8) :
    arsCut mem me srt sleft = { src := srt.src, dst := srt.dst, flags := srtFlags mem
                                laddrs := 4 * (front ++ rest).length, addrs := front ++ rest } :=
  h.shortcut_exact hn hlen hprv (srtFlags mem)

theorem Overtaken.back_right (h : Overtaken srt me sleft front mid rest tl nxt)
    {cut : DsrSrt} (hcut : cut = { src := srt.src, dst := srt.dst, flags := srtFlags mem
                                   laddrs := 4 * (front ++ rest).length, addrs := front ++ rest })
    (hme : me ∉ front) (hdst : me = srt.dst → front = []) :
    ∃ back, shortcutBack mem me cut = some back ∧ back.path = me :: (srt.src :: front).reverse := by
  have hladdrs : cut.laddrs = 4 * cut.addrs.length := by rw [hcut]
  by_cases hd : me = srt.dst
  · have hrest := h.rest_nil_iff.mpr hd
    have hfront := hdst hd
    have hnil : cut.addrs = [] := by rw [hcut, hfront, hrest]; rfl
    have hzero : cut.laddrs = 0 := by rw [hladdrs, hnil]; rfl
    obtain ⟨back, hb, hp⟩ : ∃ back, shortcutBack mem me cut = some back ∧ back.path = [cut.dst, cut.src] :=
      back_direct mem hzero hnil
    refine ⟨back, hb, ?_⟩
    rw [hp, hcut, hfront, hd]
    rfl
  · obtain ⟨r, hr, -⟩ := h.rest_cons hd
    obtain ⟨back, hb, hp⟩ := back_through mem hladdrs (by rw [hcut, hr]) hme
    refine ⟨back, hb, ?_⟩
    rw [hp, hcut]

theorem Overtaken.back_wrong (h : Overtaken srt me sleft front mid rest tl nxt)
    {cut : DsrSrt} (hcut : cut = { src := srt.src, dst := srt.dst, flags := srtFlags mem
                                   laddrs := 4 * (front ++ rest).length, addrs := front ++ rest })
    {back : DsrSrt} (hb : shortcutBack mem me cut = some back)
    (hp : back.path = me :: (srt.src :: front).reverse) : me ∉ front ∧ (me = srt.dst → front = []) := by
  have hladdrs : cut.laddrs = 4 * cut.addrs.length := by rw [hcut]
  have hme : me ∉ front := by
    intro hm
    obtain ⟨f, g, hfront, hf⟩ := List.eq_append_cons_of_mem hm
    have hs : cut.addrs = f ++ me :: (g ++ rest) := by
      rw [hcut, hfront, List.append_assoc, List.cons_append]
    obtain ⟨back', hb', hp'⟩ := back_through mem hladdrs hs hf
    rw [hb] at hb'
    obtain rfl := Option.some_inj.mp hb'
    have hlen := congrArg List.length (hp.symm.trans hp')
    rw [hfront] at hlen
    simp only [List.length_cons, List.length_reverse, List.length_append] at hlen
    omega
  refine ⟨hme, fun hd => ?_⟩
  by_contra hne
  have hrest := h.rest_nil_iff.mpr hd
  have hnone : shortcutBack mem me cut = none := by
    apply back_absent mem hladdrs
    · rw [hcut, hrest, List.append_nil]
      exact hne
    · rw [hcut, hrest, List.append_nil]
      exact hme
  rw [hnone] at hb
  cases hb

end Reply

theorem back_dst {back : DsrSrt} {me src : InAddr} {front : List InAddr}
    (hp : back.path = me :: (src :: front).reverse) : back.dst = src := by
  have hjoin : (back.src :: back.addrs.take back.n) ++ [back.dst] = (me :: front.reverse) ++ [src] := by
    rw [DsrSrt.path, List.reverse_cons] at hp
    exact hp
  exact (List.cons.inj (List.append_inj' hjoin rfl).2).1

theorem shortens_iff {mem : ℕ → UInt8} {dp₀ dp : DsrPkt} {p : OptPtr} {srt : DsrSrt} {sleft : ℕ}
    {s : DsrNode} (hsrt : srt = srtOptSrt mem dp₀ p) (hdp : dp = srtOptNote dp₀ p srt sleft) (hwf : srt.WF)
    (hon : s.confvals .automaticRouteShortening ≠ 0) (hnext : dsrSrtNextHop srt sleft ≠ s.ifaddr)
    (hfind : dsrSrtFindAddr srt s.ifaddr sleft = true) (hfree : GratFree s)
    (hhold : s.gratRrepTbl.find (gratCrit dp.src dp.prvHop) = none) :
    Shortens s.ifaddr dp srt sleft s ↔ dp.prvHop ∉ srt.addrs.drop (srt.n - sleft) ∧
      s.ifaddr ∉ srt.addrs.take (srt.n - sleft) ∧ (s.ifaddr = dp.dst → sleft = srt.n) := by
  have hn : srt.n = srt.addrs.length := hwf.symm
  have hlen : srt.addrs.length ≤ 63 := by
    have hlt : srt.laddrs < 256 := by
      rw [hsrt]
      exact (dp₀.fieldAt p 1).toNat_lt
    rw [← hn, DsrSrt.n]
    omega
  have hprv : dp.prvHop = dsrSrtPrevHop srt ((sleft : Int) - 1) := by rw [hdp]; rfl
  have hsrc : srt.src = dp.src := by rw [hdp, hsrt]; rfl
  have hdst : srt.dst = dp.dst := by rw [hdp, hsrt]; rfl
  obtain ⟨front, mid, rest, tl, nxt, h⟩ := overtaken hn hfind hnext
  have htake : srt.path.take (srt.n - sleft + 1) = srt.src :: front := by
    have hl := h.length
    have hi : srt.n - sleft = front.length := by omega
    rw [hi, h.path hn, ← List.length_cons (a := srt.src), List.take_left]
  have hzero : (s.ifaddr = dp.dst → sleft = srt.n) ↔ (s.ifaddr = srt.dst → front = []) := by
    have hl := h.length
    rw [hdst, ← List.length_eq_zero_iff]
    constructor
    · intro hs he
      have := hs he
      omega
    · intro hs he
      have := hs he
      omega
  have hrun := automaticRouteShortening_eq hon hnext hfind hfree hhold hprv
  rw [hn, h.drop_front, h.take_front, ← hn, hzero, hprv]
  constructor
  · intro hs
    have hprev : dsrSrtPrevHop srt ((sleft : Int) - 1) ∉ nxt :: (mid ++ rest) := by
      intro hlate
      obtain ⟨zs, hzs⟩ := h.shortcut_late hn hlate (srtFlags s.kmem)
      exact h.late_path hn hzs hs.laddrs hs.cut
    obtain ⟨back, hb, hp, -, -⟩ := hs.reply
    rw [htake] at hp
    exact ⟨hprev, h.back_wrong (h.arsCut_eq hn hlen hprev s.kmem) hb hp⟩
  · rintro ⟨hprev, hme, hfront⟩
    have hcut := h.arsCut_eq hn hlen hprev s.kmem
    obtain ⟨back, hb, hp⟩ := h.back_right hcut hme hfront
    refine ⟨?_, ?_, back, hb, ?_, fun mem' => ?_, ?_⟩
    · apply h.cut_path hn
      rw [hcut, path_of_laddrs rfl]
      simp [h.from_me]
    · rw [hcut]
    · rw [htake, hp]
    · obtain ⟨pkt, hpkt, hps, hpd⟩ := rrepPkt_runs mem' s.ifaddr back (arsCut s.kmem s.ifaddr srt sleft)
      exact ⟨pkt, hpkt, hps, by rw [hpd, back_dst hp, hsrc]⟩
    · rw [hrun, hb]

def overheardSkb : Skb :=
  { hSource := 2
    iph := { ihl := 5, totLen := 41, ttl := 64, protocol := ipprotoDsr, saddr := detourHost 1
             daddr := detourHost 5 }
    data := [17, 0, 0, 16, 96, 14, 0, 8, 10, 0, 0, 2, 10, 0, 0, 3, 10, 0, 0, 4, 255] }

def overheardPkt : DsrPkt := { dsrPktAlloc (fun _ => 0) overheardSkb with promiscRecv := true }

def overheardSrt : DsrSrt := srtOptSrt (fun _ => 0) overheardPkt ⟨1, 4⟩

def overheardNoted : DsrPkt := srtOptNote overheardPkt ⟨1, 4⟩ overheardSrt 2

def overhearing (me : InAddr) : DsrNode := dsrNodeInit me confvalsDef true 8 ⟨0, 0⟩ (fun _ => 0) 0

theorem shortens_intermediate : srtOptSleft overheardPkt ⟨1, 4⟩ = 2 ∧
    Shortens (detourHost 4) overheardNoted overheardSrt 2 (overhearing (detourHost 4)) := by
  have hiff : Shortens (overhearing (detourHost 4)).ifaddr overheardNoted overheardSrt 2
      (overhearing (detourHost 4)) ↔ _ :=
    shortens_iff rfl rfl (by unfold DsrSrt.WF; decide +kernel) (by decide +kernel) (by decide +kernel)
      (by decide +kernel) (fun _ => List.not_mem_nil) rfl
  exact ⟨by decide +kernel, hiff.mpr ⟨by decide +kernel, by decide +kernel, by decide +kernel⟩⟩

theorem shortens_destination_not : srtOptSleft overheardPkt ⟨1, 4⟩ = 2 ∧ overheardSrt.WF ∧
    (overhearing (detourHost 5)).confvals .automaticRouteShortening ≠ 0 ∧
    dsrSrtNextHop overheardSrt 2 ≠ detourHost 5 ∧ dsrSrtFindAddr overheardSrt (detourHost 5) 2 = true ∧
    ¬ Shortens (detourHost 5) overheardNoted overheardSrt 2 (overhearing (detourHost 5)) := by
  refine ⟨by decide +kernel, by unfold DsrSrt.WF; decide +kernel, by decide +kernel, by decide +kernel,
    by decide +kernel, fun hs => ?_⟩
  have hnone : shortcutBack (fun _ => 0) (detourHost 5) (arsCut (fun _ => 0) (detourHost 5) overheardSrt 2) =
      none := by decide +kernel
  obtain ⟨back, hb, -⟩ := hs.reply
  have hsome : shortcutBack (fun _ => 0) (detourHost 5) (arsCut (fun _ => 0) (detourHost 5) overheardSrt 2) =
      some back := hb
  rw [hnone] at hsome
  cases hsome

end DsrUu
