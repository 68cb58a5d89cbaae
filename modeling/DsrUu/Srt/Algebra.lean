import DsrUu.Graph.Route
import DsrUu.Srt.Shortcut

namespace DsrUu

open Graph

def ofRoute (mem : ℕ) (r : Route InAddr) : DsrSrt :=
  { src := r.src, dst := r.dst, flags := mem, laddrs := 4 * r.via.length, addrs := r.via }

namespace DsrSrt

def route (srt : DsrSrt) : Route InAddr :=
  { src := srt.src, via := srt.addrs.take srt.n, dst := srt.dst }

theorem route_path (srt : DsrSrt) : srt.route.path = srt.path := rfl

theorem eq_ofRoute {srt : DsrSrt} (h : srt.laddrs = 4 * srt.addrs.length) (mem : ℕ) :
    { srt with flags := mem } = ofRoute mem srt.route := by
  obtain ⟨src, dst, flags, laddrs, addrs⟩ := srt
  simp only [ofRoute, route, take_of_laddrs h]
  simp only at h
  rw [h]

end DsrSrt

section Refines

variable {r s : Route InAddr} {mem m m' : ℕ}

theorem laddrs_ofRoute : (ofRoute m r).laddrs = 4 * (ofRoute m r).addrs.length := rfl

@[simp] theorem route_ofRoute : (ofRoute m r).route = r := by
  rw [DsrSrt.route, take_of_laddrs laddrs_ofRoute, ofRoute]

@[simp] theorem path_ofRoute : (ofRoute m r).path = r.path := by
  rw [← DsrSrt.route_path, route_ofRoute]

end Refines

section Laws

variable {s : DsrSrt} (hs : s.laddrs = 4 * s.addrs.length) {mem mem' : ℕ}

include hs

theorem via_route : s.route.via = s.addrs := take_of_laddrs hs

theorem dsrSrtNewRev_route : dsrSrtNewRev mem s = ofRoute mem s.route.rev := by
  rw [dsrSrtNewRev_exact mem hs]
  simp [ofRoute, Route.rev, DsrSrt.route, take_of_laddrs hs, hs]

theorem dsrSrtConcatenate_route {s₂ : DsrSrt} (h₂ : s₂.laddrs = 4 * s₂.addrs.length) :
    dsrSrtConcatenate mem s s₂ = ofRoute mem (s.route.concat s₂.route) := by
  rw [dsrSrtConcatenate_exact hs h₂]
  simp [ofRoute, Route.concat, DsrSrt.route, take_of_laddrs hs, take_of_laddrs h₂]

theorem dsrSrtNewSplit_route {split : DsrSrt} {a : InAddr} (h : dsrSrtNewSplit mem s a = some split) :
    ∃ pre post, s.addrs = pre ++ a :: post ∧ a ∉ pre ∧ split = ofRoute mem (s.route.cut pre a) := by
  have hmem : a ∈ s.addrs := by
    by_contra hmem
    rw [dsrSrtNewSplit_absent hmem] at h
    cases h
  obtain ⟨pre, post, hcut, ha⟩ := List.eq_append_cons_of_mem hmem
  rw [dsrSrtNewSplit_at hs hcut ha, Option.some.injEq] at h
  exact ⟨pre, post, hcut, ha, h.symm⟩

theorem dsrSrtNewSplit_isSome {a : InAddr} : (dsrSrtNewSplit mem s a).isSome ↔ a ∈ s.addrs := by
  constructor
  · intro h
    obtain ⟨split, hsplit⟩ := Option.isSome_iff_exists.mp h
    obtain ⟨pre, post, hcut, -, -⟩ := dsrSrtNewSplit_route hs hsplit
    simp [hcut]
  · intro h
    obtain ⟨pre, post, hcut, ha⟩ := List.eq_append_cons_of_mem h
    simp [dsrSrtNewSplit_at hs hcut ha]

end Laws

theorem idxOf_cut {pre post as : List InAddr} {a : InAddr} (h : as = pre ++ a :: post) (ha : a ∉ pre) :
    as.idxOf a = pre.length := by
  rw [h, List.idxOf_append_of_notMem ha, List.idxOf_cons_self, Nat.add_zero]

theorem srt_algebra {s : DsrSrt} (hs : s.laddrs = 4 * s.addrs.length) (mem mem' : ℕ) :
    (dsrSrtNewRev mem s).path = s.path.reverse ∧
    dsrSrtNewRev mem' (dsrSrtNewRev mem s) = { s with flags := mem' } ∧
    (∀ a, (dsrSrtNewSplit mem s a).isSome ↔ a ∈ s.addrs) ∧
    (∀ a split, dsrSrtNewSplit mem s a = some split →
      split.path = s.path.take (s.addrs.idxOf a + 2) ∧
      ∀ rest : DsrSrt, rest.laddrs = 4 * rest.addrs.length →
        rest.path = s.path.drop (s.addrs.idxOf a + 1) →
        dsrSrtConcatenate mem' split rest = { s with flags := mem' }) ∧
    ∀ s₂ : DsrSrt, s₂.laddrs = 4 * s₂.addrs.length → s.dst = s₂.src →
      (dsrSrtConcatenate mem s s₂).path = s.path ++ s₂.path.tail ∧
      ∀ mem₁ mem₂, dsrSrtNewRev mem' (dsrSrtConcatenate mem s s₂) =
        dsrSrtConcatenate mem' (dsrSrtNewRev mem₂ s₂) (dsrSrtNewRev mem₁ s) := by
  refine ⟨path_reverse hs, ?_, fun a => dsrSrtNewSplit_isSome hs, fun a split hsplit => ?_,
    fun s₂ hs₂ hjoin => ?_⟩
  · rw [dsrSrtNewRev_route hs, dsrSrtNewRev_route laddrs_ofRoute, route_ofRoute, Route.rev_rev,
      DsrSrt.eq_ofRoute hs]
  · obtain ⟨pre, post, hcut, ha, rfl⟩ := dsrSrtNewSplit_route hs hsplit
    have hvia : s.route.via = pre ++ a :: post := (via_route hs).trans hcut
    have hpath := Route.path_cut hvia
    rw [idxOf_cut hcut ha, DsrSrt.eq_ofRoute hs, path_ofRoute]
    refine ⟨?_, fun rest hrest hdrop => ?_⟩
    · rw [← DsrSrt.route_path, hpath, List.take_left' (by simp [Route.cut])]
    · have hroute : rest.route = s.route.rest a post := by
        apply Route.path_injective
        rw [DsrSrt.route_path, hdrop, ← DsrSrt.route_path, hpath]
        simp [Route.path, Route.cut, Route.rest]
      rw [dsrSrtConcatenate_route laddrs_ofRoute hrest, route_ofRoute, hroute,
        Route.concat_cut_rest hvia]
  · refine ⟨?_, fun mem₁ mem₂ => ?_⟩
    · rw [dsrSrtConcatenate_route hs hs₂, path_ofRoute, Route.path_concat_joined hjoin]
      rfl
    · rw [dsrSrtConcatenate_route hs hs₂, dsrSrtNewRev_route hs, dsrSrtNewRev_route hs₂,
        dsrSrtNewRev_route laddrs_ofRoute, dsrSrtConcatenate_route laddrs_ofRoute laddrs_ofRoute,
        route_ofRoute, route_ofRoute, route_ofRoute, Route.rev_concat hjoin]

def fourHops : DsrSrt :=
  { src := ⟨10, 0, 0, 1⟩, dst := ⟨10, 0, 0, 4⟩, flags := 1, laddrs := 8
    addrs := [⟨10, 0, 0, 2⟩, ⟨10, 0, 0, 3⟩] }

theorem srt_algebra_four : fourHops.laddrs = 4 * fourHops.addrs.length ∧
    (dsrSrtNewRev 0 fourHops).path = [⟨10, 0, 0, 4⟩, ⟨10, 0, 0, 3⟩, ⟨10, 0, 0, 2⟩, ⟨10, 0, 0, 1⟩] ∧
    ∃ split, dsrSrtNewSplit 0 fourHops ⟨10, 0, 0, 3⟩ = some split ∧
      split.path = [⟨10, 0, 0, 1⟩, ⟨10, 0, 0, 2⟩, ⟨10, 0, 0, 3⟩] := by
  have hlaws := srt_algebra (s := fourHops) rfl 0 0
  refine ⟨rfl, hlaws.1.trans rfl, _, rfl, ?_⟩
  exact (hlaws.2.2.2.1 ⟨10, 0, 0, 3⟩ _ rfl).1.trans (by decide)

end DsrUu
