import DsrUu.LinkCache.Forward
import DsrUu.Node.Cached
import DsrUu.Node.Walked

namespace DsrUu

open Bytes Effect

inductive SrtTerm
  | new (src dst : InAddr) (length : ℕ) (addrs : List UInt8)
  | rev (t : SrtTerm)
  | split (t : SrtTerm) (addr : InAddr)
  | shortcut (t : SrtTerm) (a1 a2 : InAddr)
  | concat (t u : SrtTerm)
  | found (src dst : InAddr)

inductive Builds (lc : LcGraph) : SrtTerm → DsrSrt → Prop
  | new (mem : ℕ) (src dst : InAddr) (length : ℕ) (addrs : List UInt8) :
      Builds lc (.new src dst length addrs) (dsrSrtNew mem src dst length addrs)
  | rev (mem : ℕ) {t srt} : Builds lc t srt → Builds lc (.rev t) (dsrSrtNewRev mem srt)
  | split (mem : ℕ) (addr : InAddr) {t srt r} : Builds lc t srt →
      dsrSrtNewSplit mem srt addr = some r → Builds lc (.split t addr) r
  | shortcut (mem : ℕ) (a1 a2 : InAddr) {t srt} : Builds lc t srt →
      Builds lc (.shortcut t a1 a2) (dsrSrtShortcut mem srt a1 a2)
  | concat (mem : ℕ) {t u srt1 srt2} : Builds lc t srt1 → Builds lc u srt2 →
      Builds lc (.concat t u) (dsrSrtConcatenate mem srt1 srt2)
  | found (mem : ℕ) (src dst : InAddr) {f lc' r} : lcSrtFind mem src dst lc = some (f, lc') →
      f.srt = some r → Builds lc (.found src dst) r

def DsrSrt.reflag (mem : ℕ) (srt : DsrSrt) : DsrSrt := { srt with flags := mem }

def SrtFind.reflag (mem : ℕ) (f : SrtFind) : SrtFind := { f with srt := f.srt.map (DsrSrt.reflag mem) }

theorem lcSrtBuild_reflag (mem mem' : ℕ) (src dst : InAddr) (n : NodeRef) (lc : LcGraph) :
    lcSrtBuild mem' src dst n lc = (lcSrtBuild mem src dst n lc).map (SrtFind.reflag mem') := by
  unfold lcSrtBuild
  simp only [Option.bind_eq_bind]
  rw [Option.map_bind]
  refine Option.bind_congr fun p _ => (Option.bind_congr fun ns _ => ?_).trans Option.map_bind.symm
  simp only [Option.pure_def, Function.comp, Option.map_some, SrtFind.reflag, Option.some.injEq,
    SrtFind.mk.injEq, and_true]
  generalize decide ((ns.length : Int) + 1 ≠ toInt32 (lc.heap n).hops) = wrong
  cases wrong <;> simp [DsrSrt.reflag]

theorem lcSrtFind_reflag (mem mem' : ℕ) (src dst : InAddr) (lc : LcGraph) :
    lcSrtFind mem' src dst lc =
      (lcSrtFind mem src dst lc).map fun p => (p.1.reflag mem', p.2) := by
  unfold lcSrtFind
  split
  · rfl
  · cases dijkstra src lc with
    | none => rfl
    | some lc₁ =>
      simp only [Option.bind_eq_bind, Option.bind_some]
      split
      · rfl
      · split
        · rw [lcSrtBuild_reflag mem mem']
          cases lcSrtBuild mem src dst _ lc₁ <;> rfl
        · rfl

theorem addrAt_reflag {mem : ℕ} {srt : DsrSrt} {i : Int} (h : i ≠ -2) :
    (srt.reflag mem).addrAt i = srt.addrAt i := by
  unfold DsrSrt.addrAt DsrSrt.headerAt DsrSrt.reflag
  split
  · rfl
  · split
    · rfl
    · omega
    all_goals rfl

theorem dsrSrtNewRev_reflag (mem mem' k : ℕ) (srt : DsrSrt) :
    dsrSrtNewRev mem' (srt.reflag k) = (dsrSrtNewRev mem srt).reflag mem' := by
  have haddrs : (dsrSrtNewRev mem' (srt.reflag k)).addrs = (dsrSrtNewRev mem srt).addrs := by
    refine List.map_congr_left fun i hi => addrAt_reflag ?_
    obtain ⟨j, hj, rfl⟩ : ∃ j < srt.n, i = (j : Int) := by simpa [DsrSrt.reflag, DsrSrt.n, eq_comm] using hi
    show (srt.n : Int) - 1 - j ≠ -2
    omega
  exact congrArg (fun as => (⟨srt.dst, srt.src, mem', srt.laddrs, as⟩ : DsrSrt)) haddrs

theorem dsrSrtNewSplit_reflag (mem mem' k : ℕ) (srt : DsrSrt) (addr : InAddr) :
    dsrSrtNewSplit mem' (srt.reflag k) addr = (dsrSrtNewSplit mem srt addr).map (DsrSrt.reflag mem') := by
  unfold dsrSrtNewSplit DsrSrt.reflag DsrSrt.n
  split
  · rfl
  · dsimp only
    split <;> rfl

theorem shortcutNum_reflag (mem : ℕ) (srt : DsrSrt) (a : InAddr) (num i : Int) (as : List InAddr) :
    shortcutNum (srt.reflag mem) a num i as = shortcutNum srt a num i as := by
  induction as generalizing num i with
  | nil => rfl
  | cons x xs ih => exact ih _ _

theorem Builds.same {lc : LcGraph} {t : SrtTerm} {r q : DsrSrt} (hr : Builds lc t r) (hq : Builds lc t q) :
    q = r.reflag q.flags := by
  induction hr generalizing q with
  | new mem src dst length addrs =>
    cases hq
    rfl
  | rev mem _ ih =>
    cases hq with
    | rev mem' h =>
      rw [ih h, dsrSrtNewRev_reflag mem]
      rfl
  | split mem addr _ hs ih =>
    cases hq with
    | split mem' _ h hs' =>
      rw [ih h, dsrSrtNewSplit_reflag mem, hs] at hs'
      cases hs'
      rfl
  | shortcut mem a1 a2 _ ih =>
    cases hq with
    | shortcut mem' _ _ h =>
      rw [ih h]
      simp only [dsrSrtShortcut, shortcutNum_reflag]
      rfl
  | concat mem _ _ ih₁ ih₂ =>
    cases hq with
    | concat mem' h₁ h₂ =>
      rw [ih₁ h₁, ih₂ h₂]
      rfl
  | found mem src dst hf hs =>
    cases hq with
    | found mem' _ _ hf' hs' =>
      rw [lcSrtFind_reflag mem, hf] at hf'
      cases hf'
      rw [SrtFind.reflag, hs] at hs'
      cases hs'
      rfl

theorem srtLinks_reflag {srt : DsrSrt} {mem : ℕ} (h : srt.bidir = (srt.reflag mem).bidir) :
    srtLinks (srt.reflag mem) = srtLinks srt := by
  rw [srtLinks, srtLinks, ← h]
  rfl

def forwardLinks (srt : DsrSrt) : List (InAddr × InAddr) := srt.path.zip srt.path.tail

theorem routeLinks_forward (rest : List InAddr) : ∀ a, routeLinks false a rest = (a :: rest).zip rest := by
  induction rest with
  | nil => exact fun _ => rfl
  | cons b rest ih => exact fun a => congrArg ((a, b) :: ·) (ih b)

theorem srtLinks_forward {srt : DsrSrt} (h : srt.bidir = false) : srtLinks srt = forwardLinks srt := by
  rw [srtLinks, h, routeLinks_forward]
  rfl

theorem mem_routeLinks_bidir (rest : List InAddr) : ∀ (a : InAddr) (l : InAddr × InAddr),
    l ∈ routeLinks true a rest ↔ l ∈ (a :: rest).zip rest ∨ l.swap ∈ (a :: rest).zip rest := by
  induction rest with
  | nil => simp [routeLinks]
  | cons b rest ih =>
    intro a l
    obtain ⟨x, y⟩ := l
    simp only [routeLinks, if_true, List.mem_cons, ih, List.zip_cons_cons, Prod.swap_prod_mk, Prod.mk.injEq]
    constructor
    · rintro (h | h | h | h)
      · exact Or.inl (Or.inl h)
      · exact Or.inr (Or.inl h.symm)
      · exact Or.inl (Or.inr h)
      · exact Or.inr (Or.inr h)
    · rintro ((h | h) | h | h)
      · exact Or.inl h
      · exact Or.inr (Or.inr (Or.inl h))
      · exact Or.inr (Or.inl h.symm)
      · exact Or.inr (Or.inr (Or.inr h))

theorem mem_srtLinks_bidir {srt : DsrSrt} (h : srt.bidir = true) (l : InAddr × InAddr) :
    l ∈ srtLinks srt ↔ l ∈ forwardLinks srt ∨ l.swap ∈ forwardLinks srt := by
  rw [srtLinks, h]
  exact mem_routeLinks_bidir _ srt.src l

def linksRoom (now : Timeval) (timeout : ℕ) : List (InAddr × InAddr) → LcGraph → Prop
  | [], _ => True
  | l :: ls, lc =>
      linkRoom lc l.1 l.2 ∧ linksRoom now timeout ls (unlockedLinkAdd now l.1 l.2 timeout 0 1 lc)

theorem addLinks_linkAt {now : Timeval} {timeout : ℕ} (ls : List (InAddr × InAddr)) :
    ∀ {lc : LcGraph}, LcRefs lc → linksRoom now timeout ls lc → ∀ a b,
      (addLinks now timeout ls lc).linkAt a b =
        if (a, b) ∈ ls then some (1, timevalAddUsecs now timeout) else lc.linkAt a b := by
  induction ls with
  | nil => exact fun _ _ _ _ => rfl
  | cons l ls ih =>
    intro lc h hroom a b
    have hset := unlockedLinkAdd_set h now timeout 0 1 hroom.1
    have hcost : toUint32 1 = 1 := rfl
    rw [addLinks, List.foldl_cons]
    refine (ih hset.refs hroom.2 a b).trans ?_
    rw [hset.at_eq, hcost]
    by_cases hm : (a, b) ∈ ls
    · rw [if_pos hm, if_pos (List.mem_cons_of_mem l hm)]
    · rw [if_neg hm]
      by_cases he : (a, b) = l
      · rw [if_pos he, if_pos (he ▸ List.mem_cons_self)]
      · rw [if_neg he, if_neg fun hc => (List.mem_cons.mp hc).elim he hm]

def AddsForward (now : Timeval) (timeout : ℕ) (srt : DsrSrt) (lc lc' : LcGraph) : Prop :=
  ∀ a b, lc'.linkAt a b =
    if (a, b) ∈ forwardLinks srt then some (1, timevalAddUsecs now timeout) else lc.linkAt a b

def BackLinked (now : Timeval) (timeout : ℕ) (srt : DsrSrt) (lc : LcGraph) : Prop :=
  ∀ a b, (a, b) ∈ forwardLinks srt →
    (b, a) ∈ forwardLinks srt ∨ lc.linkAt b a = some (1, timevalAddUsecs now timeout)

theorem lcSrtAdd_forward_iff {lc : LcGraph} (h : LcRefs lc) {now : Timeval} {timeout : ℕ} {srt : DsrSrt}
    (hroom : linksRoom now timeout (srtLinks srt) lc) :
    AddsForward now timeout srt lc (lcSrtAdd now srt timeout lc) ↔
      srt.bidir = false ∨ BackLinked now timeout srt lc := by
  have hat := addLinks_linkAt (srtLinks srt) h hroom
  unfold AddsForward
  rw [lcSrtAdd_links]
  cases hb : srt.bidir with
  | false =>
    refine iff_of_true (fun a b => ?_) (Or.inl rfl)
    rw [hat, srtLinks_forward hb]
  | true =>
    have hmem := mem_srtLinks_bidir hb
    constructor
    · intro hadds
      refine Or.inr fun a b hab => or_iff_not_imp_left.mpr fun hba => ?_
      have hl := hadds b a
      rw [hat, if_pos ((hmem (b, a)).mpr (Or.inr hab)), if_neg hba] at hl
      exact hl.symm
    · rintro (hf | hback)
      · cases hf
      · intro a b
        rw [hat]
        by_cases hf : (a, b) ∈ forwardLinks srt
        · rw [if_pos hf, if_pos ((hmem (a, b)).mpr (Or.inl hf))]
        · rw [if_neg hf]
          by_cases hr : (b, a) ∈ forwardLinks srt
          · rw [if_pos ((hmem (a, b)).mpr (Or.inr hr))]
            exact ((hback b a hr).resolve_left hf).symm
          · rw [if_neg fun hc => ((hmem (a, b)).mp hc).elim hf hr]

section Clear

variable {mem mem' : ℕ → UInt8} (hm : srtFlags mem % 2 = 0) (hm' : srtFlags mem' % 2 = 0)

include hm hm'

theorem srtOptLinks_of_clear (me : InAddr) (dp dp' : DsrPkt) {srt srt' : DsrSrt}
    (hs : srt.flags = srtFlags mem) (hs' : srt' = srt.reflag (srtFlags mem'))
    (hdst : dp'.dst = dp.dst) (hpr : dp'.promiscRecv = dp.promiscRecv) (hprv : dp'.prvHop = dp.prvHop) :
    srtOptLinks mem' me dp' srt' = srtOptLinks mem me dp srt := by
  have hclear : ∀ {r : DsrSrt}, r.flags = srtFlags mem →
      srtLinks (r.reflag (srtFlags mem')) = srtLinks r := by
    intro r hr
    refine srtLinks_reflag ?_
    rw [DsrSrt.bidir, DsrSrt.bidir, hr, DsrSrt.reflag, hm, hm']
  have hsplit : ∀ a, (dsrSrtNewSplit (srtFlags mem') srt' a) =
      (dsrSrtNewSplit (srtFlags mem) srt a).map (DsrSrt.reflag (srtFlags mem')) := by
    intro a
    rw [hs', dsrSrtNewSplit_reflag]
  have hflags : ∀ {a r}, dsrSrtNewSplit (srtFlags mem) srt a = some r → r.flags = srtFlags mem := by
    intro a r h
    unfold dsrSrtNewSplit at h
    split at h
    · cases h
    · split at h
      · cases h
      · cases h
        rfl
  have hcached : srtOptCached mem' me dp' srt' =
      (srtOptCached mem me dp srt).map (DsrSrt.reflag (srtFlags mem')) := by
    unfold srtOptCached
    rw [hdst, hpr, hprv]
    split
    · rw [hs']
      rfl
    · exact hsplit _
  have hmem : ∀ {r}, srtOptCached mem me dp srt = some r → r.flags = srtFlags mem := by
    intro r hr
    unfold srtOptCached at hr
    split at hr
    · cases hr
      exact hs
    · exact hflags hr
  rw [srtOptLinks, srtOptLinks, hpr, hprv, hcached]
  congr 1
  cases hr : srtOptCached mem me dp srt with
  | none => rfl
  | some r => exact hclear (hmem hr)

theorem bidir_reflag {srt : DsrSrt} (hs : srt.flags = srtFlags mem) :
    srt.bidir = (srt.reflag (srtFlags mem')).bidir := by
  rw [DsrSrt.bidir, DsrSrt.bidir, DsrSrt.reflag, hs, hm, hm']

end Clear

def areaOf (skb : Skb) (i : ℕ) : UInt8 := skb.data.getD i 0

def areaAddr (skb : Skb) (off i : ℕ) : InAddr :=
  ⟨areaOf skb (off + i), areaOf skb (off + (i + 1)), areaOf skb (off + (i + 2)), areaOf skb (off + (i + 3))⟩

def areaWalk (skb : Skb) : List Cursor :=
  optWalk (areaOf skb) (dsrOptsLenOf skb) (dsrOptsLenOf skb) ⟨dsrOptHdrLen, dsrOptHdrLen⟩

def WalkReads (skb : Skb) : Prop := ∀ c ∈ areaWalk skb, c.off + 1 < dsrOptsLenOf skb

structure HoldsArea (promisc : Bool) (skb : Skb) (dp : DsrPkt) : Prop where
  protocol : skb.iph.protocol = ipprotoDsr
  src : dp.src = skb.iph.saddr
  dst : dp.dst = skb.iph.daddr
  promisc : dp.promiscRecv = promisc
  optsLen : dp.optsLen = dsrOptsLenOf skb
  bytes : ∀ i < dsrOptsLenOf skb, dp.byteAt i = areaOf skb i

theorem dsrPktRecv_holdsArea {skb : Skb} (h : skb.iph.protocol = ipprotoDsr) (mem : ℕ → UInt8)
    (promisc : Bool) : HoldsArea promisc skb (dsrPktRecv mem promisc skb) := by
  have hdh := dsrPktRecv_dh h mem promisc
  have ha := dsrPktAlloc_dsr mem h
  refine ⟨h, ha.src, ha.dst, rfl, optsLen_dh hdh, fun i hi => ?_⟩
  rw [byteAt_dh hdh, getD_append_left (by rw [length_readAt]; exact hi), getD_readAt hi, Nat.zero_add]
  rfl

theorem parseWalk_carried {promisc : Bool} {skb : Skb} {dp : DsrPkt} (hc : HoldsArea promisc skb dp)
    (hw : WalkReads skb) : parseWalk dp = areaWalk skb := by
  unfold parseWalk areaWalk
  rw [hc.optsLen]
  refine trail_congr (fun c hmem => ?_) fun _ => rfl
  have hlt := hw c hmem
  unfold optNext optSize
  rw [hc.bytes c.off (Nat.lt_of_succ_lt hlt), hc.bytes (c.off + 1) hlt]

theorem rrepOpt_carried {skb : Skb} (h : skb.iph.protocol = ipprotoDsr) (hw : WalkReads skb)
    (mem mem' : ℕ → UInt8) (promisc : Bool) :
    (dsrPktRecv mem' promisc skb).rrepOpt.length = (dsrPktRecv mem promisc skb).rrepOpt.length := by
  have hlen : ∀ mem, (dsrPktRecv mem promisc skb).rrepOpt.length =
      min maxRrepOpts (ofType (areaOf skb) .rrep (areaWalk skb)).length := by
    intro mem
    have hc := dsrPktRecv_holdsArea h mem promisc
    have htypes : ofType (dsrPktRecv mem promisc skb).byteAt .rrep (areaWalk skb) =
        ofType (areaOf skb) .rrep (areaWalk skb) := by
      refine List.filter_congr fun c hmem => ?_
      rw [hc.bytes c.off (Nat.lt_of_succ_lt (hw c hmem))]
    rw [(dsrPktRecv_recorded h mem promisc).rrep, parseWalk_carried hc hw, htypes, List.length_take,
      List.length_map]
  rw [hlen, hlen]

theorem decodeAddrs_congr {xs ys : List UInt8} (hl : ys.length = xs.length)
    (h : ∀ i < 4 * (xs.length / 4), ys.getD i 0 = xs.getD i 0) : decodeAddrs ys = decodeAddrs xs := by
  have hn : (decodeAddrs ys).length = (decodeAddrs xs).length := by
    rw [length_decodeAddrs, length_decodeAddrs, hl]
  refine List.ext_getElem? fun i => ?_
  rcases Nat.lt_or_ge i (decodeAddrs xs).length with hi | hi
  · have hlt : i < xs.length / 4 := length_decodeAddrs xs ▸ hi
    obtain ⟨-, hx⟩ := getElem?_decodeAddrs hi
    obtain ⟨-, hy⟩ := getElem?_decodeAddrs (hn.symm ▸ hi)
    rw [hx, hy, h (4 * i) (by omega), h (4 * i + 1) (by omega), h (4 * i + 2) (by omega),
      h (4 * i + 3) (by omega)]
  · rw [List.getElem?_eq_none hi, List.getElem?_eq_none (hn.symm ▸ hi)]

section Carried

variable {promisc : Bool} {skb : Skb} {dp dp' : DsrPkt} (hc : HoldsArea promisc skb dp)
  (hc' : HoldsArea promisc skb dp') {off : ℕ}

include hc

theorem HoldsArea.live (off : ℕ) : dp.live (dp.ptr off) = true := by
  have hlen := hc.optsLen
  unfold DsrPkt.optsLen dsrOptsLenOf at hlen
  cases hd : dp.dh with
  | none =>
    rw [hd] at hlen
    exact absurd hlen.symm (Nat.succ_ne_zero _)
  | some b => exact live_ptr hd off

theorem HoldsArea.fieldAt {i : ℕ} (h : off + i < dsrOptsLenOf skb) :
    dp.fieldAt (dp.ptr off) i = areaOf skb (off + i) := by
  rw [fieldAt_live (hc.live off)]
  exact hc.bytes (off + i) h

theorem HoldsArea.addrField {i : ℕ} (h : off + i + 4 ≤ dsrOptsLenOf skb) :
    dp.addrField (dp.ptr off) i = areaAddr skb off i := by
  unfold DsrPkt.addrField areaAddr
  rw [hc.fieldAt (by omega), hc.fieldAt (by omega), hc.fieldAt (by omega), hc.fieldAt (by omega)]

include hc'

theorem HoldsArea.srtNew {mem mem' len i : ℕ} {src dst : InAddr}
    (h : off + i + 4 * (len / 4) ≤ dsrOptsLenOf skb) :
    dsrSrtNew mem' src dst len (dp'.fieldsAt (dp'.ptr off) i len) =
      (dsrSrtNew mem src dst len (dp.fieldsAt (dp.ptr off) i len)).reflag mem' := by
  have hfields : ∀ {q : DsrPkt}, HoldsArea promisc skb q → (q.fieldsAt (q.ptr off) i len).length = len ∧
      ∀ k < 4 * (len / 4), (q.fieldsAt (q.ptr off) i len).getD k 0 = areaOf skb (off + i + k) := by
    intro q hq
    rw [fieldsAt_live (hq.live off)]
    obtain ⟨b, hb⟩ : ∃ b, q.dh = some b := by
      have hl := hq.live off
      unfold DsrPkt.live at hl
      exact Option.isSome_iff_exists.mp (Bool.and_eq_true_iff.mp hl).1
    rw [bytesAt_dh hb]
    refine ⟨length_readAt _ _ _, fun k hk => ?_⟩
    rw [getD_readAt (by omega), ← byteAt_dh hb]
    exact hq.bytes _ (by show off + i + k < _; omega)
  obtain ⟨hl, hb⟩ := hfields hc
  obtain ⟨hl', hb'⟩ := hfields hc'
  have haddrs : decodeAddrs (dp'.fieldsAt (dp'.ptr off) i len) = decodeAddrs (dp.fieldsAt (dp.ptr off) i len) := by
    refine decodeAddrs_congr (hl'.trans hl.symm) fun k hk => ?_
    rw [hl] at hk
    rw [hb' k hk, hb k hk]
  unfold dsrSrtNew DsrSrt.reflag
  rw [List.take_of_length_le (Nat.le_of_eq hl'), List.take_of_length_le (Nat.le_of_eq hl), haddrs]

end Carried

def srtAreaSleft (skb : Skb) (off : ℕ) : ℕ :=
  ((areaOf skb (off + 2)).toNat + 256 * (areaOf skb (off + 3)).toNat) / 1024

def SrtInside (skb : Skb) (off : ℕ) : Prop :=
  let n := (areaOf skb (off + 1)).toNat / 4
  off + 4 + 4 * n ≤ dsrOptsLenOf skb ∧
    (srtAreaSleft skb off ≤ n ∨ srtAreaSleft skb off = n + 2 ∨ srtAreaSleft skb off = n + 3)

def RreqInside (skb : Skb) (off : ℕ) : Prop :=
  off + 8 + 4 * (((areaOf skb (off + 1)).toNat - 6) / 4) ≤ dsrOptsLenOf skb

def RrepInside (skb : Skb) (off : ℕ) : Prop :=
  off + 2 ≤ dsrOptsLenOf skb ∧ (5 ≤ (areaOf skb (off + 1)).toNat →
    off + 8 + 4 * (((areaOf skb (off + 1)).toNat - 5) / 4) ≤ dsrOptsLenOf skb)

section Memory

variable {promisc : Bool} {skb : Skb} {dp dp' : DsrPkt} (hc : HoldsArea promisc skb dp)
  (hc' : HoldsArea promisc skb dp') {off : ℕ} {mem mem' : ℕ → UInt8} (hm : srtFlags mem % 2 = 0)
  (hm' : srtFlags mem' % 2 = 0)

include hc hc' hm hm'

theorem srtOptLinks_same (hin : SrtInside skb off) (me : InAddr) :
    srtOptLinks mem' me (srtOptNote dp' (dp'.ptr off) (srtOptSrt mem' dp' (dp'.ptr off))
        (srtOptSleft dp' (dp'.ptr off))) (srtOptSrt mem' dp' (dp'.ptr off)) =
      srtOptLinks mem me (srtOptNote dp (dp.ptr off) (srtOptSrt mem dp (dp.ptr off))
        (srtOptSleft dp (dp.ptr off))) (srtOptSrt mem dp (dp.ptr off)) := by
  obtain ⟨hroom, hsleft⟩ := hin
  have hlen : ∀ {q}, HoldsArea promisc skb q → q.optLength (q.ptr off) = (areaOf skb (off + 1)).toNat :=
    fun hq => congrArg UInt8.toNat (hq.fieldAt (by omega))
  have hleft : ∀ {q}, HoldsArea promisc skb q → srtOptSleft q (q.ptr off) = srtAreaSleft skb off := by
    intro q hq
    unfold srtOptSleft srtOptWord srtAreaSleft
    rw [hq.fieldAt (by omega), hq.fieldAt (by omega)]
  have hsrt : srtOptSrt mem' dp' (dp'.ptr off) =
      (srtOptSrt mem dp (dp.ptr off)).reflag (srtFlags mem') := by
    unfold srtOptSrt
    rw [hlen hc, hlen hc', hc.src, hc'.src, hc.dst, hc'.dst]
    exact hc.srtNew hc' hroom
  have hn : (srtOptSrt mem dp (dp.ptr off)).n = (areaOf skb (off + 1)).toNat / 4 :=
    congrArg (· / 4) (hlen hc)
  refine srtOptLinks_of_clear hm hm' me _ _ rfl hsrt (hc'.dst.trans hc.dst.symm)
    (hc'.promisc.trans hc.promisc.symm) ?_
  show dsrSrtPrevHop _ _ = dsrSrtPrevHop _ _
  rw [hleft hc, hleft hc', hsrt]
  generalize srtOptSrt mem dp (dp.ptr off) = srt at hn
  unfold dsrSrtPrevHop
  split
  · rw [if_pos (by assumption)]
    rfl
  · rw [if_neg (by assumption), addrAt_reflag]
    · rfl
    · show (srt.n : Int) - 2 - (srtAreaSleft skb off - 1) ≠ -2
      omega

theorem rreqOptLinks_same (hin : RreqInside skb off) (me : InAddr) :
    srtLinks (dsrSrtNewRev (srtFlags mem') (rreqOptSrt mem' me dp' (dp'.ptr off))) =
      srtLinks (dsrSrtNewRev (srtFlags mem) (rreqOptSrt mem me dp (dp.ptr off))) := by
  unfold RreqInside at hin
  have hlen : ∀ {q}, HoldsArea promisc skb q → q.optLength (q.ptr off) = (areaOf skb (off + 1)).toNat :=
    fun hq => congrArg UInt8.toNat (hq.fieldAt (by omega))
  have hsrt : rreqOptSrt mem' me dp' (dp'.ptr off) =
      (rreqOptSrt mem me dp (dp.ptr off)).reflag (srtFlags mem') := by
    unfold rreqOptSrt
    rw [hlen hc, hlen hc', hc.src, hc'.src]
    exact hc.srtNew hc' hin
  rw [hsrt, dsrSrtNewRev_reflag (srtFlags mem)]
  exact srtLinks_reflag (bidir_reflag hm hm' rfl)

theorem rrepOptLinks_same (hin : RrepInside skb off) (hn : dp'.rrepOpt.length = dp.rrepOpt.length) :
    rrepOptLinks mem' dp' (dp'.ptr off) = rrepOptLinks mem dp (dp.ptr off) := by
  obtain ⟨htwo, hroom⟩ := hin
  have hlen : ∀ {q}, HoldsArea promisc skb q → q.optLength (q.ptr off) = (areaOf skb (off + 1)).toNat :=
    fun hq => congrArg UInt8.toNat (hq.fieldAt (by omega))
  unfold rrepOptLinks
  rw [hc.promisc, hc'.promisc, hn, hlen hc, hlen hc']
  split
  · rfl
  · split
    · rfl
    · next hshort =>
      have hfit := hroom (Nat.le_of_not_lt hshort)
      have hdst : ∀ {q}, HoldsArea promisc skb q → rrepOptDst q (q.ptr off) =
          areaAddr skb off (4 + 4 * (((areaOf skb (off + 1)).toNat - 5) / 4)) := by
        intro q hq
        unfold rrepOptDst rrepOptAddrsLen
        rw [hlen hq, if_neg (by omega), if_neg hshort]
        exact hq.addrField (by omega)
      have hsrt : rrepOptSrt mem' dp' (dp'.ptr off) =
          (rrepOptSrt mem dp (dp.ptr off)).reflag (srtFlags mem') := by
        unfold rrepOptSrt
        rw [hdst hc, hdst hc', hc.dst, hc'.dst, rrepOptAddrsLen, rrepOptAddrsLen, hlen hc, hlen hc']
        exact hc.srtNew hc' (by omega)
      rw [hsrt]
      exact srtLinks_reflag (bidir_reflag hm hm' rfl)

end Memory

inductive CacheCall
  | srtOpt (promisc : Bool) (skb : Skb) (off : ℕ)
  | rreqOpt (promisc : Bool) (skb : Skb) (off : ℕ)
  | rrepOpt (promisc : Bool) (skb : Skb) (off again : ℕ)
  | rtcAdd (t : SrtTerm)
  | linkAdd (src dst : InAddr)
  | linkDel (src dst : InAddr)
  | find (src dst : InAddr)
  | flush

def CacheCall.inside : CacheCall → Prop
  | .srtOpt _ skb off => WalkReads skb ∧ SrtInside skb off
  | .rreqOpt _ skb off => WalkReads skb ∧ RreqInside skb off
  | .rrepOpt _ skb off _ => WalkReads skb ∧ RrepInside skb off
  | _ => True

inductive CacheCall.Runs : CacheCall → DsrNode → ℕ → DsrNode → Prop
  | srtOpt {promisc skb off dp s s' r} : HoldsArea promisc skb dp →
      dsrSrtOptRecv dp (dp.ptr off) s = .ok r s' → Runs (.srtOpt promisc skb off) s (srtFlags s.kmem) s'
  | rreqOpt {promisc skb off dp s s'} : HoldsArea promisc skb dp →
      dsrRtcAdd (dsrSrtNewRev (srtFlags s.kmem) (rreqOptSrt s.kmem s.ifaddr dp (dp.ptr off))) s = .ok () s' →
      Runs (.rreqOpt promisc skb off) s (srtFlags s.kmem) s'
  | rrepOpt {promisc skb off again mem dp s s' r} : HoldsArea promisc skb dp →
      dp.rrepOpt.length = (dsrPktRecv mem promisc skb).rrepOpt.length + again →
      dsrRrepOptRecv dp (dp.ptr off) s = .ok r s' →
      Runs (.rrepOpt promisc skb off again) s (srtFlags s.kmem) s'
  | rtcAdd {t srt s s'} : Builds s.lc t srt → dsrRtcAdd srt s = .ok () s' →
      Runs (.rtcAdd t) s srt.flags s'
  | linkAdd {src dst s s'} : rtcLinkAdd src dst s = .ok () s' → Runs (.linkAdd src dst) s 0 s'
  | linkDel {src dst s s'} : rtcLinkDel src dst s = .ok () s' → Runs (.linkDel src dst) s 0 s'
  | find {src dst s s' r} : dsrRtcFind src dst s = .ok r s' → Runs (.find src dst) s 0 s'
  | flush {s s'} : lcFlushLocked s = .ok () s' → Runs .flush s 0 s'

structure Setting where
  ifaddr : InAddr
  now : Timeval
  confvals : ConfVal → ℕ

structure Setting.Of (e : Setting) (s : DsrNode) : Prop where
  ifaddr : s.ifaddr = e.ifaddr
  now : s.now = e.now
  confvals : s.confvals = e.confvals

theorem Caches.same_lc {ls : List (InAddr × InAddr)} {s₁ s₁' s₂ s₂' : DsrNode} {e : Setting}
    (h₁ : e.Of s₁) (h₂ : e.Of s₂) (hlc : s₂.lc = s₁.lc) (hc₁ : Caches ls s₁ s₁') (hc₂ : Caches ls s₂ s₂') :
    s₂'.lc = s₁'.lc := by
  rw [hc₁.1, hc₂.1, hlc, cacheTimeout, cacheTimeout, h₁.now, h₂.now, h₁.confvals, h₂.confvals]

theorem rtcLinkDel_ok {src dst : InAddr} {s s' : DsrNode} (h : rtcLinkDel src dst s = .ok () s') :
    lcLinkDel src dst s.lc = some s'.lc := by
  obtain ⟨s₁, hm, rfl, -⟩ := locked_ok h
  change (do let lc ← ofOption (lcLinkDel src dst (acquire .lc s).lc); setLc lc : DsrM Unit) (acquire .lc s) =
    _ at hm
  rw [acquire_lc] at hm
  cases hd : lcLinkDel src dst s.lc with
  | none =>
    rw [hd] at hm
    cases hm
  | some lc =>
    rw [hd] at hm
    cases hm
    rw [release_acquire_lc]

theorem lcFlushLocked_ok {s s' : DsrNode} (h : lcFlushLocked s = .ok () s') : s'.lc = lcFlush s.lc := by
  rw [locked_lc (f := fun _ lc => lcFlush lc) h]

theorem dsrRtcFind_lc {src dst : InAddr} {s s' : DsrNode} {r : Option DsrSrt}
    (h : dsrRtcFind src dst s = .ok r s') :
    ∃ f, lcSrtFind (srtFlags s.kmem) src dst s.lc = some (f, s'.lc) := by
  by_cases he : src = dst
  · rw [dsrRtcFind, if_pos he] at h
    cases h
    exact ⟨_, if_pos he⟩
  · obtain ⟨f, lc, hf, -, rfl⟩ := dsrRtcFind_lookup he h
    exact ⟨f, hf⟩

section Two

variable {e : Setting} {c : CacheCall} {s₁ s₁' s₂ s₂' : DsrNode} {k₁ k₂ : ℕ}

theorem CacheCall.Runs.same_lc (h₁ : e.Of s₁) (h₂ : e.Of s₂) (hlc : s₂.lc = s₁.lc)
    (hr₁ : c.Runs s₁ k₁ s₁') (hr₂ : c.Runs s₂ k₂ s₂') (hk₁ : k₁ % 2 = 0) (hk₂ : k₂ % 2 = 0)
    (hin : c.inside) : s₂'.lc = s₁'.lc := by
  cases hr₁ with
  | srtOpt hd₁ hok₁ =>
    cases hr₂ with
    | srtOpt hd₂ hok₂ =>
      have hc₂ := dsrSrtOptRecv_caches hok₂
      rw [h₂.ifaddr, ← h₁.ifaddr, srtOptLinks_same hd₁ hd₂ hk₁ hk₂ hin.2] at hc₂
      exact (dsrSrtOptRecv_caches hok₁).same_lc h₁ h₂ hlc hc₂
  | rreqOpt hd₁ hok₁ =>
    cases hr₂ with
    | rreqOpt hd₂ hok₂ =>
      have hc₂ := dsrRtcAdd_caches hok₂
      rw [h₂.ifaddr, ← h₁.ifaddr, rreqOptLinks_same hd₁ hd₂ hk₁ hk₂ hin.2] at hc₂
      exact (dsrRtcAdd_caches hok₁).same_lc h₁ h₂ hlc hc₂
  | rrepOpt hd₁ hn₁ hok₁ =>
    cases hr₂ with
    | rrepOpt hd₂ hn₂ hok₂ =>
      have hc₂ := dsrRrepOptRecv_caches hok₂
      have hn := hn₂.trans ((congrArg (· + _) (rrepOpt_carried hd₁.protocol hin.1 _ _ _)).trans hn₁.symm)
      rw [rrepOptLinks_same hd₁ hd₂ hk₁ hk₂ hin.2 hn] at hc₂
      exact (dsrRrepOptRecv_caches hok₁).same_lc h₁ h₂ hlc hc₂
  | rtcAdd hb₁ hok₁ =>
    cases hr₂ with
    | rtcAdd hb₂ hok₂ =>
      have hc₂ := dsrRtcAdd_caches hok₂
      rw [hlc] at hb₂
      rw [hb₁.same hb₂, srtLinks_reflag] at hc₂
      · exact (dsrRtcAdd_caches hok₁).same_lc h₁ h₂ hlc hc₂
      · rw [DsrSrt.bidir, DsrSrt.bidir, DsrSrt.reflag, hk₁, hk₂]
  | linkAdd hok₁ =>
    cases hr₂ with
    | linkAdd hok₂ => exact (rtcLinkAdd_caches hok₁).same_lc h₁ h₂ hlc (rtcLinkAdd_caches hok₂)
  | linkDel hok₁ =>
    cases hr₂ with
    | linkDel hok₂ =>
      have hd₁ := rtcLinkDel_ok hok₁
      have hd₂ := rtcLinkDel_ok hok₂
      rw [hlc, hd₁] at hd₂
      exact (Option.some_inj.mp hd₂).symm
  | find hok₁ =>
    cases hr₂ with
    | find hok₂ =>
      obtain ⟨f₁, hf₁⟩ := dsrRtcFind_lc hok₁
      obtain ⟨f₂, hf₂⟩ := dsrRtcFind_lc hok₂
      rw [hlc, lcSrtFind_reflag (srtFlags s₁.kmem), hf₁] at hf₂
      exact (Prod.mk.inj (Option.some_inj.mp hf₂)).2.symm
  | flush hok₁ =>
    cases hr₂ with
    | flush hok₂ => rw [lcFlushLocked_ok hok₁, lcFlushLocked_ok hok₂, hlc]

end Two

inductive CacheRun : List (Setting × CacheCall) → DsrNode → Prop
  | init (s) : s.lc = lcInit → CacheRun [] s
  | call {cs s e c t k t'} : CacheRun cs s → t.lc = s.lc → e.Of t → c.Runs t k t' → k % 2 = 0 → c.inside →
      CacheRun (cs ++ [(e, c)]) t'

theorem CacheRun.same_lc {cs : List (Setting × CacheCall)} {s₁ : DsrNode} (h₁ : CacheRun cs s₁) :
    ∀ {s₂}, CacheRun cs s₂ → s₂.lc = s₁.lc := by
  induction h₁ with
  | init s hs =>
    intro s₂ h₂
    generalize hcs : ([] : List (Setting × CacheCall)) = cs at h₂
    cases h₂ with
    | init _ hs₂ => exact hs₂.trans hs.symm
    | call => simp at hcs
  | @call cs s e c t k t' _ hlc he hr hk hin ih =>
    intro s₂ h₂
    generalize hcs : cs ++ [(e, c)] = ds at h₂
    cases h₂ with
    | init _ _ => simp at hcs
    | call hrun hlc₂ he₂ hr₂ hk₂ _ =>
      obtain ⟨rfl, hlast⟩ := List.append_inj' hcs rfl
      cases hlast
      exact hr.same_lc he he₂ (hlc₂.trans ((ih hrun).trans hlc.symm)) hr₂ hk hk₂ hin

theorem routes_same {lc lc₁ lc₂ : LcGraph} {mem₁ mem₂ : ℕ} {src dst : InAddr} {f₁ f₂ : SrtFind}
    (h₁ : lcSrtFind mem₁ src dst lc = some (f₁, lc₁)) (h₂ : lcSrtFind mem₂ src dst lc = some (f₂, lc₂)) :
    f₂.srt.map DsrSrt.path = f₁.srt.map DsrSrt.path := by
  rw [lcSrtFind_reflag mem₁, h₁] at h₂
  cases h₂
  rw [SrtFind.reflag, Option.map_map]
  rfl

theorem Builds.reflag {lc : LcGraph} {t : SrtTerm} {srt : DsrSrt} (h : Builds lc t srt) (mem : ℕ) :
    Builds lc t (srt.reflag mem) := by
  cases h with
  | new _ src dst length addrs => exact .new mem src dst length addrs
  | rev _ h => exact .rev mem h
  | @split mem₀ addr _ srt r h hs =>
    refine .split mem addr h ?_
    have hr := dsrSrtNewSplit_reflag mem₀ mem srt.flags srt addr
    rw [hs] at hr
    exact hr
  | shortcut _ a1 a2 h => exact .shortcut mem a1 a2 h
  | concat _ h₁ h₂ => exact .concat mem h₁ h₂
  | @found mem₀ src dst f lc' r hf hs =>
    have hr := lcSrtFind_reflag mem₀ mem src dst lc
    rw [hf] at hr
    refine .found mem src dst hr ?_
    rw [SrtFind.reflag, hs]
    rfl

def memHop : SrtTerm := .new ⟨10, 0, 0, 1⟩ ⟨10, 0, 0, 2⟩ 0 []

def memSrt (mem : ℕ) : DsrSrt := dsrSrtNew mem ⟨10, 0, 0, 1⟩ ⟨10, 0, 0, 2⟩ 0 []

theorem memSrt_builds (mem : ℕ) : Builds lcInit memHop (memSrt mem) := .new mem _ _ _ _

theorem memSrt_room (mem : ℕ) (h : mem ≤ 1) : linksRoom ⟨0, 0⟩ 1 (srtLinks (memSrt mem)) lcInit := by
  obtain rfl | rfl : mem = 0 ∨ mem = 1 := by omega
  · exact ⟨Or.inr (by decide), trivial⟩
  · exact ⟨Or.inr (by decide), Or.inr (by decide), trivial⟩

end DsrUu
