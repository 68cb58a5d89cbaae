import DsrUu.Node.Indices
import DsrUu.Node.Light

namespace DsrUu

open Effect

def routeLinks (bidir : Bool) : InAddr → List InAddr → List (InAddr × InAddr)
  | _, [] => []
  | a, b :: rest =>
      if bidir then (a, b) :: (b, a) :: routeLinks bidir b rest else (a, b) :: routeLinks bidir b rest

def srtLinks (srt : DsrSrt) : List (InAddr × InAddr) :=
  routeLinks srt.bidir srt.src (srt.addrs.take srt.n ++ [srt.dst])

def addLinks (now : Timeval) (timeout : ℕ) (ls : List (InAddr × InAddr)) (lc : LcGraph) : LcGraph :=
  ls.foldl (fun lc l => unlockedLinkAdd now l.1 l.2 timeout 0 1 lc) lc

def cacheTimeout (s : DsrNode) : ℕ := usecsOf .routeCacheTimeout (s.confvals .routeCacheTimeout)

theorem lcSrtAddLoop_links (now : Timeval) (timeout : ℕ) (bidir : Bool) (rest : List InAddr) :
    ∀ (a : InAddr) (lc : LcGraph), lcSrtAddLoop now timeout bidir a rest lc =
      addLinks now timeout (routeLinks bidir a rest) lc := by
  induction rest with
  | nil => exact fun _ _ => rfl
  | cons b rest ih =>
    intro a lc
    rw [lcSrtAddLoop, routeLinks]
    cases bidir with
    | true => exact ih b _
    | false => exact ih b _

theorem lcSrtAdd_links (now : Timeval) (srt : DsrSrt) (timeout : ℕ) (lc : LcGraph) :
    lcSrtAdd now srt timeout lc = addLinks now timeout (srtLinks srt) lc :=
  lcSrtAddLoop_links now timeout srt.bidir _ srt.src lc

def srtOptCached (mem : ℕ → UInt8) (me : InAddr) (dp : DsrPkt) (srt : DsrSrt) : Option DsrSrt :=
  if dp.dst = me then some srt
  else dsrSrtNewSplit (srtFlags mem) srt (if dp.promiscRecv then dp.prvHop else me)

def srtOptLinks (mem : ℕ → UInt8) (me : InAddr) (dp : DsrPkt) (srt : DsrSrt) : List (InAddr × InAddr) :=
  (if dp.promiscRecv then [] else [(me, dp.prvHop)]) ++
    match srtOptCached mem me dp srt with
    | none => []
    | some srt => srtLinks srt

def rrepOptLinks (mem : ℕ → UInt8) (dp : DsrPkt) (p : OptPtr) : List (InAddr × InAddr) :=
  if dp.promiscRecv || maxRrepOpts ≤ dp.rrepOpt.length then []
  else if dp.optLength p < 5 then [] else srtLinks (rrepOptSrt mem dp p)

structure SameCache (s₀ s : DsrNode) : Prop where
  lc : s.lc = s₀.lc
  now : s.now = s₀.now
  confvals : s.confvals = s₀.confvals

theorem sameCache_light (s₀ : DsrNode) : Light (SameCache s₀) :=
  ⟨fun _ _ h => ⟨h.lc, h.now, h.confvals⟩, fun _ _ h => ⟨h.lc, h.now, h.confvals⟩,
    fun _ _ h => ⟨h.lc, h.now, h.confvals⟩, fun _ _ h => ⟨h.lc, h.now, h.confvals⟩,
    fun _ _ h => ⟨h.lc, h.now, h.confvals⟩⟩

def Caches (ls : List (InAddr × InAddr)) (s s' : DsrNode) : Prop :=
  s'.lc = addLinks s.now (cacheTimeout s) ls s.lc ∧ s'.now = s.now ∧ s'.confvals = s.confvals

theorem SameCache.caches {s₀ s s' : DsrNode} {ls : List (InAddr × InAddr)} (h : SameCache s₀ s)
    (hc : Caches ls s s') : Caches ls s₀ s' := by
  obtain ⟨hlc, hnow, hconf⟩ := hc
  rw [h.now, h.lc] at hlc
  unfold cacheTimeout at hlc
  rw [h.confvals] at hlc
  exact ⟨hlc, hnow.trans h.now, hconf.trans h.confvals⟩

theorem Caches.same {s s₁ s' : DsrNode} {ls : List (InAddr × InAddr)} (h : Caches ls s s₁)
    (hs : SameCache s₁ s') : Caches ls s s' :=
  ⟨hs.lc.trans h.1, hs.now.trans h.2.1, hs.confvals.trans h.2.2⟩

theorem Caches.append {s s₁ s' : DsrNode} {ls ms : List (InAddr × InAddr)} (h : Caches ls s s₁)
    (h' : Caches ms s₁ s') : Caches (ls ++ ms) s s' := by
  obtain ⟨hlc, hnow, hconf⟩ := h
  obtain ⟨hlc', hnow', hconf'⟩ := h'
  refine ⟨?_, hnow'.trans hnow, hconf'.trans hconf⟩
  unfold cacheTimeout at hlc' hlc ⊢
  rw [hlc', hlc, hnow, hconf, addLinks, addLinks, addLinks, List.foldl_append]

theorem Caches.nil (s : DsrNode) : Caches [] s s := ⟨rfl, rfl, rfl⟩

section Runs

variable {s s' : DsrNode}

theorem locked_lc {f : Timeval → LcGraph → LcGraph}
    (h : locked .lc (do let s ← get; setLc (f s.now s.lc) : DsrM Unit) s = .ok () s') :
    s' = { s with lc := f s.now s.lc } := by
  obtain ⟨s₁, hm, rfl, -⟩ := locked_ok h
  cases hm
  have hnow : (acquire .lc s).now = s.now := by
    unfold acquire
    split <;> rfl
  rw [hnow, acquire_lc]
  exact release_acquire_lc .lc s _

theorem dsrRtcAdd_caches {srt : DsrSrt} (h : dsrRtcAdd srt s = .ok () s') : Caches (srtLinks srt) s s' := by
  obtain ⟨t, s₁, ht, h⟩ := bind_ok h
  cases ht
  rw [locked_lc (f := fun now lc => lcSrtAdd now srt (cacheTimeout s) lc) h]
  exact ⟨lcSrtAdd_links _ _ _ _, rfl, rfl⟩

theorem rtcLinkAdd_caches {src dst : InAddr} (h : rtcLinkAdd src dst s = .ok () s') :
    Caches [(src, dst)] s s' := by
  obtain ⟨t, s₁, ht, h⟩ := bind_ok h
  cases ht
  rw [locked_lc (f := fun now lc => lcLinkAdd now src dst (cacheTimeout s) 0 1 lc) h]
  exact ⟨rfl, rfl, rfl⟩

theorem srtOptCache_caches {mem : ℕ → UInt8} {me : InAddr} {dp : DsrPkt} {srt : DsrSrt}
    (h : srtOptCache me mem dp srt s = .ok () s') : Caches (srtOptLinks mem me dp srt) s s' := by
  have hrest : ∀ {s₁}, srtOptCacheSplit me mem dp srt s₁ = .ok () s' →
      Caches (match srtOptCached mem me dp srt with
        | none => []
        | some srt => srtLinks srt) s₁ s' := by
    intro s₁ h
    unfold srtOptCacheSplit at h
    unfold srtOptCached
    split at h
    · next hd =>
      rw [if_pos hd]
      exact dsrRtcAdd_caches h
    · next hd =>
      rw [if_neg hd]
      cases hn : dsrSrtNewSplit (srtFlags mem) srt (if dp.promiscRecv then dp.prvHop else me) with
      | none =>
        rw [hn] at h
        cases h
        exact Caches.nil _
      | some split =>
        rw [hn] at h
        exact dsrRtcAdd_caches h
  unfold srtOptCache at h
  unfold srtOptLinks
  by_cases hp : dp.promiscRecv = true
  · rw [if_pos hp] at h ⊢
    exact hrest h
  · rw [if_neg hp] at h ⊢
    obtain ⟨_, s₁, hadd, h⟩ := bind_ok h
    exact (rtcLinkAdd_caches hadd).append (hrest h)

end Runs

section Handlers

variable {s s' : DsrNode}

theorem automaticRouteShortening_same (s₀ : DsrNode) (me next : InAddr) (sleft : ℕ) (dp : DsrPkt)
    (srt : DsrSrt) : Keeps (SameCache s₀) (automaticRouteShortening me next sleft dp srt) := by
  have hl := sameCache_light s₀
  refine Keeps.bind (confVal_keeps _) fun enabled => Keeps.ite (fun _ => ?_) fun _ => Keeps.pure _
  refine Keeps.bind (hl.gratRrepTblFind _ _) fun found => Keeps.ite (fun _ => Keeps.pure _) fun _ => ?_
  refine Keeps.bind kmalloc_keeps fun mem => ?_
  dsimp only
  split
  · exact Keeps.pure _
  · refine Keeps.bind (hl.gratRrepTblAdd _ _) fun _ => ?_
    exact Keeps.bind (hl.dsrRrepSend _ _) fun _ => Keeps.pure _

theorem SameCache.refl (s : DsrNode) : SameCache s s := ⟨rfl, rfl, rfl⟩

theorem dsrSrtOptRecv_caches {dp : DsrPkt} {p : OptPtr} {r : DsrPkt × List DsrPktAction}
    (h : dsrSrtOptRecv dp p s = .ok r s') :
    Caches (srtOptLinks s.kmem s.ifaddr
      (srtOptNote dp p (srtOptSrt s.kmem dp p) (srtOptSleft dp p)) (srtOptSrt s.kmem dp p)) s s' := by
  obtain ⟨me, s₁, hme, h⟩ := bind_ok h
  cases hme
  obtain ⟨mem, s₁, hmem, h⟩ := bind_ok h
  cases hmem
  obtain ⟨_, s₁, hadd, h⟩ := bind_ok h
  obtain ⟨_, s₂, hcache, h⟩ := bind_ok h
  obtain ⟨ok, s₃, hars, h⟩ := bind_ok h
  have h₁ : SameCache s s₁ := ((sameCache_light s).neighTblAdd _ _).run (SameCache.refl s) hadd
  have h₃ : SameCache s₂ s₃ := (automaticRouteShortening_same s₂ _ _ _ _ _).run (SameCache.refl s₂) hars
  have h₄ : s₃ = s' := by
    split at h
    · cases h
      rfl
    · split at h
      · cases h
        rfl
      · split at h <;> cases h <;> rfl
  rw [← h₄]
  exact (h₁.caches (srtOptCache_caches hcache)).same h₃

theorem rreqTblRouteDiscoveryCancel_same (s₀ : DsrNode) (dst : InAddr) :
    Keeps (SameCache s₀) (rreqTblRouteDiscoveryCancel dst) := by
  have hl := sameCache_light s₀
  refine Keeps.bind (hl.emit _) fun _ => Keeps.bind (hl.locked ?_) fun found => ?_
  · refine Keeps.get_bind fun s hs => ?_
    split
    · exact hs
    · exact ⟨hs.lc, hs.now, hs.confvals⟩
  · cases found with
    | none => exact Keeps.pure ()
    | some e =>
      refine Keeps.bind gettime_keeps fun now => hl.locked (Keeps.get_bind fun s hs => ?_)
      exact ⟨hs.lc, hs.now, hs.confvals⟩

theorem dsrRrepOptRecv_caches {dp : DsrPkt} {p : OptPtr} {r : DsrPkt × List DsrPktAction}
    (h : dsrRrepOptRecv dp p s = .ok r s') : Caches (rrepOptLinks s.kmem dp p) s s' := by
  unfold dsrRrepOptRecv at h
  unfold rrepOptLinks
  split at h
  · next hc =>
    rw [if_pos hc]
    cases h
    exact Caches.nil s
  · next hc =>
    rw [if_neg hc]
    dsimp only at h
    split at h
    · next hlen =>
      rw [if_pos (show dp.optLength p < 5 from hlen)]
      cases h
      exact Caches.nil s
    · next hlen =>
      rw [if_neg (show ¬ dp.optLength p < 5 from hlen)]
      obtain ⟨mem, s₁, hmem, h⟩ := bind_ok h
      cases hmem
      obtain ⟨me, s₁, hme, h⟩ := bind_ok h
      cases hme
      obtain ⟨_, s₂, hadd, h⟩ := bind_ok h
      obtain ⟨_, s₃, hcancel, h⟩ := bind_ok h
      have h₃ := (rreqTblRouteDiscoveryCancel_same s₂ _).run (SameCache.refl s₂) hcancel
      have h₄ : s₃ = s' := by
        split at h <;> cases h <;> rfl
      rw [← h₄]
      exact (dsrRtcAdd_caches hadd).same h₃

end Handlers

end DsrUu
