import DsrUu.LinkCache.Prune
import DsrUu.Maint.Calls
import DsrUu.Maint.Closed
import DsrUu.Maint.NextHop
import Mathlib.Algebra.Order.BigOperators.Group.List

namespace DsrUu

open Effect Graph Bytes

theorem lex_lt {a a' b b' n : ℕ} (ha : a' < a) (hb : b' < n) : a' * n + b' < a * n + b := by
  have hmul : (a' + 1) * n ≤ a * n := Nat.mul_le_mul_right n ha
  rw [Nat.add_mul, Nat.one_mul] at hmul
  omega

structure MaintBounds where
  len : ℕ
  rexmt : ℕ
  budget : ℕ

structure SkbFits (me : InAddr) (lc : LcGraph) (skb : Skb) : Prop where
  inside : SrtOptInside skb
  routes : RoutesFit me skb.iph.daddr lc

def EntryFits (me : InAddr) (lc : LcGraph) (m : MaintEntry) : Prop :=
  ∃ mem skb, m.dp = { dsrPktAlloc mem skb with nxtHop := m.nxtHop } ∧ SkbFits me lc skb

structure Maintained (B : MaintBounds) (s : DsrNode) : Prop where
  unlocked : s.locking = false
  lc : LcKept s.lc
  wf : s.maintBuf.WF
  len_le : s.maintBuf.len ≤ B.len
  maxLen_le : s.maintBuf.maxLen ≤ B.len
  rexmt : s.confvals .maxMaintRexmt = B.rexmt
  rexmt_lt : B.rexmt < 4294967296
  budget : s.budget = B.budget
  budget_lt : B.len < B.budget
  entries : ∀ m ∈ s.maintBuf.head, EntryFits s.ifaddr s.lc m

def DsrNode.hops (s : DsrNode) : Finset InAddr := s.lc.hops s.ifaddr

def toHop (h : InAddr) (m : MaintEntry) : Bool := m.nxtHop = h

def doomed (hops : Finset InAddr) (m : MaintEntry) : Bool := m.nxtHop ∉ hops

def rexmtLeft (max : ℕ) (m : MaintEntry) : ℕ := max - incUint32 m.rexmt + 1

def rexmtsLeft (max : ℕ) (ms : List MaintEntry) : ℕ := (ms.map (rexmtLeft max)).sum

def breakRank (B : MaintBounds) (s : DsrNode) : ℕ :=
  s.hops.card * (B.len + 1) + s.maintBuf.head.countP (doomed s.hops)

def rexmtBound (B : MaintBounds) : ℕ := B.len * (B.rexmt + 1) + 1

def timeoutRank (B : MaintBounds) (s : DsrNode) : ℕ :=
  breakRank B s * rexmtBound B + rexmtsLeft B.rexmt s.maintBuf.head

structure HopLeft (s : DsrNode) (h : InAddr) : Prop where
  unlinked : h ∉ s.hops
  none_left : s.maintBuf.head.countP (toHop h) = 0

def BreaksLeft (s s' : DsrNode) : Prop :=
  ∃ evs, s'.out = s.out ++ evs ∧ ∀ t m, Event.maint t (.linkBreak m) ∈ evs → HopLeft s' m.nxtHop

structure Onward (B : MaintBounds) (s s' : DsrNode) : Prop where
  keeps : Maintained B s'
  later : Later s s'
  pruned : LcPruned s.ifaddr s.lc s'.lc
  rank : breakRank B s' ≤ breakRank B s
  gone : ∀ h, h ∉ s.hops → s'.maintBuf.head.countP (toHop h) ≤ s.maintBuf.head.countP (toHop h)
  breaks : BreaksLeft s s'

section Bounds

variable {B : MaintBounds} {s s' : DsrNode}

theorem Maintained.length_le (h : Maintained B s) : s.maintBuf.head.length ≤ B.len := by
  have hwf := h.wf
  unfold Tbl.WF at hwf
  exact hwf ▸ h.len_le

theorem rexmtsLeft_le (max : ℕ) (ms : List MaintEntry) : rexmtsLeft max ms ≤ ms.length * (max + 1) := by
  have hle : ∀ x ∈ ms.map (rexmtLeft max), x ≤ max + 1 := by
    intro x hx
    obtain ⟨m, -, rfl⟩ := List.mem_map.mp hx
    exact Nat.add_le_add_right (Nat.sub_le _ _) 1
  simpa [rexmtsLeft] using List.sum_le_card_nsmul _ _ hle

theorem Maintained.rexmts_lt (h : Maintained B s) : rexmtsLeft B.rexmt s.maintBuf.head < rexmtBound B :=
  Nat.lt_succ_of_le ((rexmtsLeft_le _ _).trans (Nat.mul_le_mul_right _ h.length_le))

theorem Maintained.doomed_lt (h : Maintained B s) (hops : Finset InAddr) :
    s.maintBuf.head.countP (doomed hops) < B.len + 1 :=
  Nat.lt_succ_of_le (List.countP_le_length.trans h.length_le)

theorem Maintained.timeout_lt (h : Maintained B s') (hlt : breakRank B s' < breakRank B s) :
    timeoutRank B s' < timeoutRank B s :=
  lex_lt hlt h.rexmts_lt

theorem Maintained.nested_lt (h : Maintained B s') {c : ℕ} (hlt : breakRank B s' < c) :
    timeoutRank B s' < c * rexmtBound B := by
  have hl := lex_lt (b := 0) hlt h.rexmts_lt
  exact hl

end Bounds

structure Idle (s s' : DsrNode) : Prop where
  later : Later s s'
  lc_eq : s'.lc = s.lc
  maintBuf_eq : s'.maintBuf = s.maintBuf
  events : ∃ evs, s'.out = s.out ++ evs ∧ ∀ t m, Event.maint t (.linkBreak m) ∉ evs

theorem Idle.refl (s : DsrNode) : Idle s s := ⟨Later.refl s, rfl, rfl, [], by simp, by simp⟩

theorem Idle.trans {s s₁ s' : DsrNode} (h : Idle s s₁) (h' : Idle s₁ s') : Idle s s' := by
  obtain ⟨evs, he, hno⟩ := h.events
  obtain ⟨evs', he', hno'⟩ := h'.events
  refine ⟨h.later.trans h'.later, h'.lc_eq.trans h.lc_eq, h'.maintBuf_eq.trans h.maintBuf_eq, evs ++ evs',
    by rw [he', he, List.append_assoc], fun t m hm => ?_⟩
  exact (List.mem_append.mp hm).elim (hno t m) (hno' t m)

theorem Idle.emit (s : DsrNode) {e : Event} (h : ∀ t m, e ≠ .maint t (.linkBreak m)) :
    Idle s { s with out := s.out ++ [e] } :=
  ⟨Later.emit s e, rfl, rfl, [e], rfl, fun t m hm => h t m (List.mem_singleton.mp hm).symm⟩

def Thinner (s : DsrNode) (ms : List MaintEntry) : Prop :=
  ∀ p : InAddr → Bool, (∀ h, p h = true → h ∉ s.hops) →
    ms.countP (fun m => p m.nxtHop) ≤ s.maintBuf.head.countP fun m => p m.nxtHop

section Steps

variable {B : MaintBounds} {s s₁ s' : DsrNode}

theorem EntryFits.pruned {me : InAddr} {lc lc' : LcGraph} {m : MaintEntry} (h : EntryFits me lc m)
    (hp : LcPruned me lc lc') : EntryFits me lc' m := by
  obtain ⟨mem, skb, hd, hf⟩ := h
  exact ⟨mem, skb, hd, hf.inside, hf.routes.pruned hp⟩

theorem Onward.fits {m : MaintEntry} (h : Onward B s s') (hm : EntryFits s.ifaddr s.lc m) :
    EntryFits s'.ifaddr s'.lc m := by
  rw [h.later.ifaddr]
  exact hm.pruned h.pruned

theorem Onward.hops_subset (hs : Maintained B s) (h : Onward B s s') : s'.hops ⊆ s.hops := by
  unfold DsrNode.hops
  rw [h.later.ifaddr]
  exact DsrUu.hops_subset (h.pruned.joined hs.lc)

theorem HopLeft.onward {a : InAddr} (hl : HopLeft s a) (hs : Maintained B s) (h : Onward B s s') :
    HopLeft s' a := by
  have hle := h.gone a hl.unlinked
  rw [hl.none_left] at hle
  exact ⟨fun hc => hl.unlinked (h.hops_subset hs hc), Nat.le_zero.mp hle⟩

theorem Onward.trans (hs : Maintained B s) (h : Onward B s s₁) (h' : Onward B s₁ s') : Onward B s s' := by
  refine ⟨h'.keeps, h.later.trans h'.later, h.pruned.trans (h.later.ifaddr ▸ h'.pruned),
    h'.rank.trans h.rank, fun a ha => ?_, ?_⟩
  · exact (h'.gone a fun hc => ha (h.hops_subset hs hc)).trans (h.gone a ha)
  · obtain ⟨evs, he, hb⟩ := h.breaks
    obtain ⟨evs', he', hb'⟩ := h'.breaks
    refine ⟨evs ++ evs', by rw [he', he, List.append_assoc], fun t m hm => ?_⟩
    rcases List.mem_append.mp hm with hm | hm
    · exact (hb t m hm).onward h.keeps h'
    · exact hb' t m hm

theorem Idle.maintained (h : Idle s s') (hs : Maintained B s) : Maintained B s' := by
  refine ⟨h.later.locking.trans hs.unlocked, h.lc_eq ▸ hs.lc, h.maintBuf_eq ▸ hs.wf,
    h.maintBuf_eq ▸ hs.len_le, h.maintBuf_eq ▸ hs.maxLen_le, ?_, hs.rexmt_lt, ?_, hs.budget_lt, ?_⟩
  · rw [h.later.confvals]
    exact hs.rexmt
  · rw [h.later.budget]
    exact hs.budget
  · rw [h.maintBuf_eq, h.later.ifaddr, h.lc_eq]
    exact hs.entries

theorem Idle.hops (h : Idle s s') : s'.hops = s.hops := by
  rw [DsrNode.hops, h.lc_eq, h.later.ifaddr]
  rfl

theorem Idle.breakRank (h : Idle s s') : breakRank B s' = breakRank B s := by
  rw [DsrUu.breakRank, h.hops, h.maintBuf_eq]
  rfl

theorem Idle.timeoutRank (h : Idle s s') : timeoutRank B s' = timeoutRank B s := by
  rw [DsrUu.timeoutRank, h.breakRank, h.maintBuf_eq]
  rfl

theorem Idle.onward (h : Idle s s') (hs : Maintained B s) : Onward B s s' := by
  obtain ⟨evs, he, hno⟩ := h.events
  refine ⟨h.maintained hs, h.later, h.lc_eq ▸ LcPruned.refl s.ifaddr s.lc, Nat.le_of_eq h.breakRank,
    fun a _ => ?_, evs, he, fun t m hm => absurd hm (hno t m)⟩
  rw [h.maintBuf_eq]

theorem Onward.refl (hs : Maintained B s) : Onward B s s := (Idle.refl s).onward hs

theorem Maintained.setBuf (hs : Maintained B s) {t : Tbl MaintEntry} (hwf : t.WF) (hlen : t.len ≤ B.len)
    (hmax : t.maxLen = s.maintBuf.maxLen) (hent : ∀ m ∈ t.head, EntryFits s.ifaddr s.lc m) :
    Maintained B { s with maintBuf := t } :=
  ⟨hs.unlocked, hs.lc, hwf, hlen, hmax ▸ hs.maxLen_le, hs.rexmt, hs.rexmt_lt, hs.budget, hs.budget_lt, hent⟩

theorem Thinner.onward {t : Tbl MaintEntry} (h : Thinner s t.head)
    (ht : Maintained B { s with maintBuf := t }) : Onward B s { s with maintBuf := t } := by
  refine ⟨ht, Later.maintBuf s t, LcPruned.refl s.ifaddr s.lc, ?_, fun a ha => ?_, [], by simp, by simp⟩
  · have hle := h (fun a => decide (a ∉ s.hops)) fun a ha => of_decide_eq_true ha
    exact Nat.add_le_add_left hle _
  · refine h (fun b => decide (b = a)) fun b hb => ?_
    rw [of_decide_eq_true hb]
    exact ha

theorem thinner_sublist {ms : List MaintEntry} (h : ms.Sublist s.maintBuf.head) : Thinner s ms :=
  fun _ _ => h.countP_le

theorem thinner_of_hops {ms : List MaintEntry}
    (h : ms.map MaintEntry.nxtHop = s.maintBuf.head.map MaintEntry.nxtHop) : Thinner s ms := by
  intro p _
  have hc := congrArg (List.countP p) h
  rw [List.countP_map, List.countP_map] at hc
  exact Nat.le_of_eq hc

theorem thinner_snoc {m : MaintEntry} (h : m.nxtHop ∈ s.hops) : Thinner s (s.maintBuf.head ++ [m]) := by
  intro p hp
  have hm : p m.nxtHop = false := by
    by_contra hc
    exact hp _ (by simpa using hc) h
  simp [List.countP_append, hm]

end Steps

section Cache

variable {B : MaintBounds} {s : DsrNode}

theorem Maintained.free (hs : Maintained B s) (l : Lock) : s.locking = true → l ∉ s.held :=
  fun hc => absurd hc (by simp [hs.unlocked])

theorem Maintained.setLc (hs : Maintained B s) {op : LcOp} {lc : LcGraph} (hp : op.prunes s.ifaddr)
    (he : op.exec s.lc = some lc) : Maintained B { s with lc := lc } :=
  ⟨hs.unlocked, hs.lc.exec hp he, hs.wf, hs.len_le, hs.maxLen_le, hs.rexmt, hs.rexmt_lt, hs.budget,
    hs.budget_lt, fun m hm => (hs.entries m hm).pruned ((LcPruned.refl s.ifaddr s.lc).snoc hp he)⟩

theorem Maintained.onward_lc (hs : Maintained B s) {op : LcOp} {lc : LcGraph} (hp : op.prunes s.ifaddr)
    (he : op.exec s.lc = some lc) (hr : breakRank B { s with lc := lc } ≤ breakRank B s) :
    Onward B s { s with lc := lc } :=
  ⟨hs.setLc hp he, ⟨List.prefix_rfl, rfl, rfl, rfl, rfl, rfl, rfl, rfl⟩,
    (LcPruned.refl s.ifaddr s.lc).snoc hp he, hr, fun _ _ => Nat.le_refl _, [], by simp, by simp⟩

structure Detour (s : DsrNode) (dst : InAddr) (alt : DsrSrt) : Prop where
  src_eq : alt.src = s.ifaddr
  laddrs : alt.laddrs = 4 * alt.addrs.length
  head : (alt.addrs ++ [alt.dst]).headD default ∈ s.hops
  found : ∃ mem f lc, lcSrtFind mem s.ifaddr dst s.lc = some (f, lc) ∧ f.srt = some alt

theorem LcRoute.detour {dst : InAddr} {alt : DsrSrt} {c : ℕ} (h : LcRoute s.lc s.ifaddr dst alt c)
    (hf : ∃ mem f lc, lcSrtFind mem s.ifaddr dst s.lc = some (f, lc) ∧ f.srt = some alt) :
    Detour s dst alt := by
  refine ⟨h.src_eq, h.laddrs, ?_, hf⟩
  obtain ⟨a, q, haq⟩ := List.exists_cons_of_ne_nil (show alt.addrs ++ [dst] ≠ [] by simp)
  obtain ⟨k, hk⟩ := h.walk.head_edge a q haq
  rw [h.dst_eq, haq]
  exact mem_hops.mpr ⟨k, hk⟩

theorem dsrRtcFind_onward (hs : Maintained B s) (dst : InAddr) :
    wp (dsrRtcFind s.ifaddr dst) s (fun r s' => Onward B s s' ∧ s'.hops = s.hops ∧
      breakRank B s' = breakRank B s ∧ ∀ alt, r = some alt → Detour s dst alt) fun _ => False := by
  by_cases hne : s.ifaddr = dst
  · have hrun : dsrRtcFind s.ifaddr dst s = .ok none s := by
      rw [dsrRtcFind, if_pos hne]
      rfl
    exact wp_of_run hrun ⟨Onward.refl hs, rfl, rfl, fun _ h => by cases h⟩
  · obtain ⟨f, lc, hf, hg, hres⟩ := lcSrtFind_sound hs.lc.sound hne (srtFlags s.kmem)
    refine wp_of_run (dsrRtcFind_runs hne (hs.free .lc) hf) ?_
    have hhops : ({ s with lc := lc } : DsrNode).hops = s.hops := by
      ext a
      simp only [DsrNode.hops, mem_hops, LcGraph.joined, hg.hasLink]
    have hrank : breakRank B { s with lc := lc } = breakRank B s := by
      rw [breakRank, hhops]
      rfl
    have he : (LcOp.srtFind (srtFlags s.kmem) s.ifaddr dst).exec s.lc = some lc := by
      rw [LcOp.exec, hf, Option.map_some]
    have hp : (LcOp.srtFind (srtFlags s.kmem) s.ifaddr dst).prunes s.ifaddr := trivial
    refine ⟨hs.onward_lc hp he (Nat.le_of_eq hrank), hhops, hrank, fun alt ha => ?_⟩
    obtain ⟨c, hroute⟩ := hres.route ha
    exact hroute.detour ⟨_, f, lc, hf, ha⟩

theorem rtcLinkDel_onward (hs : Maintained B s) (a : InAddr) :
    wp (rtcLinkDel s.ifaddr a) s (fun _ s' => Onward B s s' ∧ s'.maintBuf = s.maintBuf ∧ a ∉ s'.hops ∧
      breakRank B s' < breakRank B s + if a ∈ s.hops then 0 else 1) fun _ => False := by
  obtain ⟨lc, hd, hgone, hlt, heq⟩ := lcLinkDel_hops hs.lc s.ifaddr a
  refine wp_unlocked hs.unlocked ?_
  have hrel := @release_unlocked { s with lc := lc } hs.unlocked .lc
  simp only [wp_bind, wp_get, hd, ofOption, wp_pure, wp_setLc, hrel]
  have hrank : breakRank B { s with lc := lc } < breakRank B s + if a ∈ s.hops then 0 else 1 := by
    split
    · next ha => exact lex_lt (hlt ha) (hs.doomed_lt _)
    · next ha =>
      have hhops : ({ s with lc := lc } : DsrNode).hops = s.hops := heq ha
      rw [breakRank, hhops]
      exact Nat.lt_succ_self _
  have hle : breakRank B { s with lc := lc } ≤ breakRank B s := by
    split at hrank
    · exact Nat.le_of_lt hrank
    · exact Nat.le_of_lt_succ hrank
  exact ⟨hs.onward_lc (show (LcOp.linkDel s.ifaddr a).prunes s.ifaddr from rfl) hd hle, trivial, hgone, hrank⟩

end Cache

def SetsTimeout (B : MaintBounds) (b : ℕ) (setTimeout : DsrM Unit) : Prop :=
  ∀ s, Maintained B s → timeoutRank B s < b → wp setTimeout s (fun _ s' => Onward B s s') fun _ => False

structure Sender (B : MaintBounds) (c : ℕ) (x : XmitSite → DsrPkt → DsrM Unit) : Prop where
  plain : ∀ s site dp, Maintained B s → dp.requestAck = false →
    wp (x site dp) s (fun _ s' => Idle s s') fun _ => False
  acked : ∀ s site dp skb, Maintained B s → breakRank B s < c → dp.skb = some skb →
    SkbFits s.ifaddr s.lc skb → dp.nxtHop ∈ s.hops →
    wp (x site dp) s (fun _ s' => Onward B s s') fun _ => False

section Senders

variable {B : MaintBounds} {c : ℕ} {x : XmitSite → DsrPkt → DsrM Unit} {s : DsrNode}

theorem dsrAckReqSend_idle (hx : Sender B c x) (hs : Maintained B s) (neigh : InAddr) (id : ℕ) :
    wp (dsrAckReqSend x neigh id) s (fun _ s' => Idle s s') fun _ => False := by
  change wp (xmitPkt x .ackReqSend (ackReqPkt s.kmem s.ifaddr neigh id)) s _ _
  cases hp : ackReqPkt s.kmem s.ifaddr neigh id with
  | none => exact Idle.refl s
  | some dp => exact hx.plain s _ dp hs (ackReqPkt_requestAck hp)

theorem dsrRerrSend_onward (hx : Sender B c x) (hs : Maintained B s) (trigg : DsrPkt) (unreach : InAddr) :
    wp (dsrRerrSend x trigg unreach) s (fun _ s' => Onward B s s') fun _ => False := by
  simp only [dsrRerrSend, kmalloc, myAddr, confVal, wp_bind, wp_get, wp_pure]
  rw [wp_ite]
  refine ⟨fun _ => Onward.refl hs, fun _ => ?_⟩
  cases trigg.srtOpt with
  | none => exact Onward.refl hs
  | some p =>
    dsimp only
    rw [wp_bind]
    refine wp_imp (dsrRtcFind_onward hs _) fun r s₁ h => ?_
    cases r with
    | none => exact h.1
    | some srt =>
      dsimp only
      unfold xmitPkt
      split
      · exact h.1
      · next dp hp =>
        refine wp_imp (hx.plain s₁ _ dp h.1.keeps (rerrPkt_requestAck hp)) fun _ s₂ h' => ?_
        exact h.1.trans hs (h'.onward h.1.keeps)

theorem maintBufSalvage_onward (hx : Sender B c x) (hs : Maintained B s) (hc : breakRank B s < c)
    {m : MaintEntry} (hm : EntryFits s.ifaddr s.lc m) :
    wp (maintBufSalvage x m.dp) s (fun _ s' => Onward B s s') fun _ => False := by
  obtain ⟨mem, skb, hdp, hfits⟩ := hm
  simp only [maintBufSalvage, kmalloc, myAddr, wp_bind, wp_get, wp_pure]
  refine wp_imp (dsrRtcFind_onward hs _) fun r s₁ hq => ?_
  obtain ⟨hon, hhops, hrank, hdet⟩ := hq
  cases r with
  | none => exact hon
  | some alt =>
    dsimp only
    split
    · exact hon
    · next dp' hpkt =>
      obtain ⟨p, -, -, hp, -⟩ := salvagePkt_eq hpkt
      have hopt : (dsrPktAlloc mem skb).srtOpt = some p := by rw [← hp, hdp]
      have halloc := dsrPktAlloc_dsr mem (dsrPktAlloc_srtOpt hopt)
      have hroom : OptRoom m.dp p := by
        rw [hdp]
        exact hfits.inside.room hopt
      have hdst : m.dp.dst = skb.iph.daddr := by
        rw [hdp]
        exact halloc.dst
      have hskb : m.dp.skb = some skb := by
        rw [hdp]
        exact halloc.skb_eq
      obtain ⟨hsrc, hladdrs, hhead, mem', f, lc, hf, halt⟩ := hdet alt rfl
      rw [hdst] at hf
      have hle := hfits.routes s.lc mem' f lc alt (LcPruned.refl _ _) hf halt
      obtain ⟨hsame, hhop⟩ := salvagePkt_nextHop hroom hsrc hladdrs hle hpkt
      rw [hroom.overrun dp', if_neg Bool.false_ne_true, wp_bind]
      have hfits₁ : SkbFits s₁.ifaddr s₁.lc skb := by
        rw [hon.later.ifaddr]
        exact ⟨hfits.inside, hfits.routes.pruned hon.pruned⟩
      refine wp_imp (hx.acked s₁ .salvage dp' skb hon.keeps (hrank ▸ hc) (hsame.skb_eq.trans hskb) hfits₁ ?_)
        fun _ s₂ h => hon.trans hs h
      rw [hhop, hhops]
      exact hhead

theorem Maintained.findDetach (hs : Maintained B s) {crit : MaintEntry → Bool} {m : MaintEntry}
    {t : Tbl MaintEntry} (h : s.maintBuf.findDetach crit = some (m, t)) :
    Onward B s { s with maintBuf := t } := by
  obtain ⟨e, he, hq⟩ := Option.map_eq_some_iff.mp h
  cases hq
  have hsub : (s.maintBuf.head.eraseP crit).Sublist s.maintBuf.head := List.eraseP_sublist
  have hmem := List.mem_of_find?_eq_some he
  have hlen := List.length_eraseP_of_mem hmem (List.find?_some he)
  have hwf := hs.wf
  unfold Tbl.WF at hwf
  refine Thinner.onward (thinner_sublist hsub) (hs.setBuf ?_ ?_ rfl fun m hm => hs.entries m (hsub.subset hm))
  · simp [Tbl.WF, hwf, hlen]
  · exact (Nat.sub_le _ _).trans hs.len_le

theorem countP_findDetach {crit : MaintEntry → Bool} {m : MaintEntry} {t t' : Tbl MaintEntry}
    (h : t.findDetach crit = some (m, t')) : t'.head.countP crit + 1 = t.head.countP crit := by
  obtain ⟨e, he, hq⟩ := Option.map_eq_some_iff.mp h
  cases hq
  have hmem := List.mem_of_find?_eq_some he
  obtain ⟨a, l₁, l₂, -, ha, hl, hers⟩ := List.exists_of_eraseP hmem (List.find?_some he)
  dsimp only
  rw [hers, hl]
  simp only [List.countP_append, List.countP_cons, ha, if_true]
  omega

theorem salvageLoop_onward (hx : Sender B c x) {a : InAddr} (fuel : ℕ) : ∀ {s : DsrNode}, Maintained B s →
    breakRank B s < c → a ∉ s.hops → s.maintBuf.head.countP (toHop a) < fuel →
    wp (salvageLoop x a fuel) s (fun _ s' => Onward B s s' ∧ HopLeft s' a) fun _ => False := by
  induction fuel with
  | zero =>
    intro s _ _ _ hlt
    exact absurd hlt (Nat.not_lt_zero _)
  | succ fuel ih =>
    intro s hs hc ha hlt
    unfold salvageLoop
    rw [wp_bind, wp_get]
    cases hf : s.maintBuf.findDetach fun m => m.nxtHop = a with
    | none =>
      refine ⟨Onward.refl hs, ha, List.countP_eq_zero.mpr fun m hm => ?_⟩
      have hnone := Option.map_eq_none_iff.mp hf
      exact List.find?_eq_none.mp hnone m hm
    | some q =>
      obtain ⟨m, t⟩ := q
      have hon := hs.findDetach hf
      have hcount : t.head.countP (toHop a) + 1 = s.maintBuf.head.countP (toHop a) := countP_findDetach hf
      have hm := hs.entries m (Tbl.findDetach_mem hf).1
      simp only [wp_bind, wp_setMaintBuf]
      refine wp_imp (maintBufSalvage_onward hx hon.keeps (Nat.lt_of_le_of_lt hon.rank hc) hm)
        fun _ s₂ h₂ => ?_
      have hgone : s₂.maintBuf.head.countP (toHop a) ≤ t.head.countP (toHop a) := h₂.gone a ha
      have hon₂ := hon.trans hs h₂
      refine wp_imp (ih hon₂.keeps (Nat.lt_of_le_of_lt hon₂.rank hc) (fun h => ha (hon₂.hops_subset hs h)) ?_)
        fun _ s₃ h₃ => ⟨hon₂.trans hs h₃.1, h₃.2⟩
      omega

theorem Onward.of_break {m : MaintEntry} {s' : DsrNode}
    (h : Onward B { s with out := s.out ++ [.maint s.now (.linkBreak m)] } s')
    (hl : HopLeft s' m.nxtHop) : Onward B s s' := by
  obtain ⟨evs, he, hb⟩ := h.breaks
  refine ⟨h.keeps, (Later.emit s _).trans h.later, h.pruned, h.rank, h.gone,
    .maint s.now (.linkBreak m) :: evs, by rw [he, List.append_assoc, List.singleton_append], ?_⟩
  intro t m' hm
  rcases List.mem_cons.mp hm with hm | hm
  · cases hm
    exact hl
  · exact hb t m' hm

theorem maintBufGiveUp_onward (hx : Sender B c x) (hs : Maintained B s) {m : MaintEntry}
    (hm : EntryFits s.ifaddr s.lc m) (hc : breakRank B s + (if m.nxtHop ∈ s.hops then 0 else 1) ≤ c) :
    wp (maintBufGiveUp x m) s (fun _ s' => Onward B s s' ∧ (m.ackReqSent = true → breakRank B s' < c) ∧
      (m.ackReqSent = false → s' = s)) fun _ => False := by
  unfold maintBufGiveUp
  rw [wp_bind, wp_get, wp_ite]
  refine ⟨fun hsent => ?_, fun hsent => ⟨Onward.refl hs, fun h => absurd h hsent, fun _ => rfl⟩⟩
  obtain ⟨s₁, hs₁⟩ : ∃ s₁ : DsrNode, s₁ = { s with out := s.out ++ [.maint s.now (.linkBreak m)] } :=
    ⟨_, rfl⟩
  have hk₁ : Maintained B s₁ := by
    rw [hs₁]
    exact ⟨hs.unlocked, hs.lc, hs.wf, hs.len_le, hs.maxLen_le, hs.rexmt, hs.rexmt_lt, hs.budget,
      hs.budget_lt, hs.entries⟩
  have hme : s.ifaddr = s₁.ifaddr := by rw [hs₁]
  have hc₁ : breakRank B s₁ + (if m.nxtHop ∈ s₁.hops then 0 else 1) ≤ c := by
    rw [hs₁]
    exact hc
  have hm₁ : EntryFits s₁.ifaddr s₁.lc m := by
    rw [hs₁]
    exact hm
  simp only [wp_bind, emitMaint, wp_modify]
  rw [← hs₁, hme]
  refine wp_imp (rtcLinkDel_onward hk₁ m.nxtHop) fun _ s₂ hq => ?_
  obtain ⟨h₂, _, hgone, hlt⟩ := hq
  have hc₂ : breakRank B s₂ < c := Nat.lt_of_lt_of_le hlt hc₁
  refine wp_imp (dsrRerrSend_onward hx h₂.keeps _ _) fun _ s₃ h₃ => ?_
  have h₁₃ := h₂.trans hk₁ h₃
  refine wp_imp (maintBufSalvage_onward hx h₃.keeps (Nat.lt_of_le_of_lt h₃.rank hc₂) (h₁₃.fits hm₁))
    fun _ s₄ h₄ => ?_
  have h₂₄ := h₃.trans h₂.keeps h₄
  have hfuel : s₄.maintBuf.head.countP (toHop m.nxtHop) < s.budget := by
    have hb := hs.budget_lt
    rw [hs.budget]
    exact Nat.lt_of_le_of_lt (List.countP_le_length.trans h₄.keeps.length_le) hb
  refine wp_imp (salvageLoop_onward hx s.budget h₄.keeps (Nat.lt_of_le_of_lt h₂₄.rank hc₂)
    (fun h => hgone (h₂₄.hops_subset h₂.keeps h)) hfuel) fun _ s₅ hq => ?_
  obtain ⟨h₅, hleft⟩ := hq
  have h₂₅ := h₂₄.trans h₂.keeps h₅
  refine ⟨Onward.of_break (hs₁ ▸ h₂.trans hk₁ h₂₅) hleft, fun _ => ?_, fun h => absurd hsent (by simp [h])⟩
  exact Nat.lt_of_le_of_lt h₂₅.rank hc₂

theorem maintBufRexmt_onward (hx : Sender B c x) (hs : Maintained B s) (m : MaintEntry) :
    wp (maintBufRexmt x m) s (fun _ s' => ∃ s₁ txTime expires crit, Idle s s₁ ∧ s' =
      { s₁ with maintBuf := (s.maintBuf.add { m with txTime := txTime, expires := expires } crit).getD
                  s.maintBuf }) fun _ => False := by
  unfold maintBufRexmt gettime
  simp only [wp_bind, wp_get, wp_pure]
  rw [wp_ite]
  refine ⟨fun _ => ?_, fun _ => ⟨s, _, _, _, Idle.refl s, rfl⟩⟩
  simp only [wp_bind, emitMaint, wp_modify, wp_get, wp_setMaintBuf]
  have hi := Idle.emit s (e := .maint s.now (.request { m with txTime := s.now
                                                               expires := timevalAddUsecs s.now m.rto }))
    (fun _ _ h => by cases h)
  refine wp_imp (dsrAckReqSend_idle hx (hi.maintained hs) _ _) fun _ s₁ h₁ => ?_
  have hbuf : s₁.maintBuf = s.maintBuf := h₁.maintBuf_eq
  rw [hbuf]
  exact ⟨s₁, s.now, timevalAddUsecs s.now m.rto, _, hi.trans h₁, rfl⟩

theorem add_getD_cases (t : Tbl MaintEntry) (m : MaintEntry) (crit : MaintEntry → Bool) :
    (t.add m crit).getD t = t ∨ (t.len < t.maxLen ∧ (t.add m crit).getD t =
      { t with head := Tbl.insertBefore crit m t.head, len := t.len + 1 }) := by
  unfold Tbl.add
  split
  · exact Or.inl rfl
  · next h => exact Or.inr ⟨Nat.lt_of_not_le h, rfl⟩

structure PutBack (t : Tbl MaintEntry) (m : MaintEntry) (t' : Tbl MaintEntry) : Prop where
  wf : t'.WF
  len_le : ∀ n, t.len ≤ n → t.maxLen ≤ n → t'.len ≤ n
  maxLen_eq : t'.maxLen = t.maxLen
  head : t'.head = t.head ∨ t'.head.Perm (m :: t.head)

theorem putBack_add {t : Tbl MaintEntry} (h : t.WF) (m : MaintEntry) (crit : MaintEntry → Bool) :
    PutBack t m ((t.add m crit).getD t) := by
  rcases add_getD_cases t m crit with he | ⟨hlt, he⟩
  · rw [he]
    exact ⟨h, fun _ hn _ => hn, rfl, Or.inl rfl⟩
  · rw [he]
    unfold Tbl.WF at h
    refine ⟨?_, fun n _ hn => ?_, rfl, Or.inr (Tbl.insertBefore_perm crit m t.head)⟩
    · simp [Tbl.WF, Tbl.length_insertBefore, h]
    · exact Nat.lt_of_lt_of_le hlt hn

theorem rexmtLeft_incr {max : ℕ} {m m' : MaintEntry} (hmax : max < 4294967296)
    (hm : m'.rexmt = incUint32 m.rexmt) (hlt : ¬ max ≤ m'.rexmt) : rexmtLeft max m' < rexmtLeft max m := by
  unfold rexmtLeft
  rw [← hm, incUint32, Nat.mod_eq_of_lt (by omega)]
  omega

structure Retried (m m' : MaintEntry) : Prop where
  nxtHop : m'.nxtHop = m.nxtHop
  rexmt : m'.rexmt = incUint32 m.rexmt
  dp : m'.dp = m.dp

theorem Maintained.detachFirst (hs : Maintained B s) {m : MaintEntry} {t : Tbl MaintEntry}
    (h : s.maintBuf.detachFirst = some (m, t)) : Maintained B { s with maintBuf := t } := by
  obtain ⟨hcons, ht⟩ := Tbl.detachFirst_eq h
  have hwf := hs.wf
  unfold Tbl.WF at hwf
  rw [hcons, List.length_cons] at hwf
  have hlen : t.len = s.maintBuf.len - 1 := by rw [ht]
  have hmax : t.maxLen = s.maintBuf.maxLen := by rw [ht]
  refine hs.setBuf ?_ ?_ hmax fun m' hm' => hs.entries m' ?_
  · rw [Tbl.WF, hlen, hwf, Nat.add_sub_cancel]
  · exact hlen ▸ (Nat.sub_le _ _).trans hs.len_le
  · exact hcons ▸ List.mem_cons_of_mem m hm'

theorem timeoutRank_lt {s' : DsrNode} (hr : breakRank B s' ≤ breakRank B s)
    (hl : rexmtsLeft B.rexmt s'.maintBuf.head < rexmtsLeft B.rexmt s.maintBuf.head) :
    timeoutRank B s' < timeoutRank B s :=
  Nat.add_lt_add_of_le_of_lt (Nat.mul_le_mul_right _ hr) hl

theorem detachFirst_rank {m : MaintEntry} {t : Tbl MaintEntry}
    (h : s.maintBuf.detachFirst = some (m, t)) :
    breakRank B { s with maintBuf := t } + (if m.nxtHop ∈ s.hops then 0 else 1) = breakRank B s ∧
      rexmtsLeft B.rexmt t.head < rexmtsLeft B.rexmt s.maintBuf.head := by
  have hcons := Tbl.detachFirst_cons h
  constructor
  · rw [breakRank, breakRank, hcons, List.countP_cons, ← Nat.add_assoc]
    refine congrArg _ ?_
    simp [doomed]
  · rw [hcons, rexmtsLeft, rexmtsLeft, List.map_cons, List.sum_cons]
    exact Nat.lt_add_of_pos_left (Nat.succ_pos _)

theorem PutBack.onward {t t' : Tbl MaintEntry} {m m' : MaintEntry} {s₁ : DsrNode} (hs : Maintained B s)
    (hd : s.maintBuf.detachFirst = some (m, t)) (hi : Idle { s with maintBuf := t } s₁)
    (hr : Retried m m') (hlt : ¬ B.rexmt ≤ m'.rexmt) (hp : PutBack t m' t') :
    Onward B s { s₁ with maintBuf := t' } ∧ timeoutRank B { s₁ with maintBuf := t' } < timeoutRank B s := by
  have hcons := Tbl.detachFirst_cons hd
  have ht := hs.detachFirst hd
  have h₁ := hi.maintained ht
  have hhops : ({ s₁ with maintBuf := t' } : DsrNode).hops = s.hops := hi.hops
  have hcount : ∀ p : InAddr → Bool, t'.head.countP (fun m => p m.nxtHop) ≤
      s.maintBuf.head.countP fun m => p m.nxtHop := by
    intro p
    rw [hcons, List.countP_cons]
    rcases hp.head with he | he
    · rw [he]
      exact Nat.le_add_right _ _
    · rw [he.countP_eq, List.countP_cons, hr.nxtHop]
  have hfits : EntryFits s.ifaddr s.lc m' := by
    obtain ⟨mem, skb, hdp, hf⟩ := hs.entries m (hcons ▸ List.mem_cons_self)
    exact ⟨mem, skb, by rw [hr.dp, hdp, hr.nxtHop], hf⟩
  have hlc : s₁.lc = s.lc := hi.lc_eq
  have hme : s₁.ifaddr = s.ifaddr := hi.later.ifaddr
  have hk : Maintained B { s₁ with maintBuf := t' } := by
    refine h₁.setBuf hp.wf (hp.len_le _ ht.len_le ht.maxLen_le) ?_ fun e he => ?_
    · rw [hp.maxLen_eq, hi.maintBuf_eq]
    · rw [hme, hlc]
      rcases hp.head with hh | hh
      · exact ht.entries e (hh ▸ he)
      · rcases List.mem_cons.mp (hh.mem_iff.mp he) with rfl | he
        · exact hfits
        · exact ht.entries e he
  have hrank : breakRank B { s₁ with maintBuf := t' } ≤ breakRank B s := by
    rw [breakRank, hhops]
    exact Nat.add_le_add_left (hcount fun a => decide (a ∉ s.hops)) _
  obtain ⟨evs, he, hno⟩ := hi.events
  refine ⟨⟨hk, (Later.maintBuf s t).trans (hi.later.trans (Later.maintBuf s₁ t')), ?_, hrank,
    fun a _ => hcount fun b => decide (b = a), evs, he, fun t m hm => absurd hm (hno t m)⟩, ?_⟩
  · change LcPruned s.ifaddr s.lc s₁.lc
    rw [hlc]
    exact LcPruned.refl _ _
  · refine timeoutRank_lt hrank ?_
    have hleft := rexmtLeft_incr hs.rexmt_lt hr.rexmt hlt
    rw [hcons]
    rcases hp.head with hh | hh
    · change rexmtsLeft B.rexmt t'.head < _
      rw [hh, rexmtsLeft, rexmtsLeft, List.map_cons, List.sum_cons]
      exact Nat.lt_add_of_pos_left (Nat.succ_pos _)
    · change rexmtsLeft B.rexmt t'.head < _
      rw [rexmtsLeft, (hh.map _).sum_eq, rexmtsLeft, List.map_cons, List.map_cons, List.sum_cons, List.sum_cons]
      exact Nat.add_lt_add_right hleft _

theorem maintBufTimeoutUnlocked_onward {setTimeout : DsrM Unit} (hs : Maintained B s)
    (hx : Sender B (breakRank B s) x) (hst : SetsTimeout B (timeoutRank B s) setTimeout) :
    wp (maintBufTimeoutUnlocked x setTimeout) s (fun _ s' => Onward B s s') fun _ => False := by
  unfold maintBufTimeoutUnlocked
  rw [wp_bind, wp_get, wp_ite]
  refine ⟨fun _ => Onward.refl hs, fun _ => ?_⟩
  cases hd : s.maintBuf.detachFirst with
  | none => exact Onward.refl hs
  | some q =>
    obtain ⟨m, t⟩ := q
    have ht := hs.detachFirst hd
    obtain ⟨hrank, hleft⟩ := detachFirst_rank (B := B) hd
    have hcons := Tbl.detachFirst_cons hd
    have hthin : Thinner s t.head := thinner_sublist (hcons ▸ List.sublist_cons_self m t.head)
    have hm : EntryFits s.ifaddr s.lc m := hs.entries m (hcons ▸ List.mem_cons_self)
    have hpop := hthin.onward ht
    simp only [confVal, wp_bind, wp_setMaintBuf, wp_get, wp_pure, hs.rexmt]
    rw [wp_ite]
    refine ⟨fun _ => ?_, fun hlt => ?_⟩
    · rw [wp_bind]
      refine wp_imp (maintBufGiveUp_onward hx ht (m := { m with rexmt := incUint32 m.rexmt }) hm
        (Nat.le_of_eq hrank)) fun _ s₁ hq => ?_
      obtain ⟨h₁, hsent, hunsent⟩ := hq
      refine wp_imp (hst s₁ h₁.keeps ?_) fun _ s₂ h₂ => (hpop.trans hs h₁).trans hs h₂
      cases hack : m.ackReqSent with
      | true => exact h₁.keeps.timeout_lt (hsent hack)
      | false =>
        rw [hunsent hack]
        exact timeoutRank_lt hpop.rank hleft
    · rw [wp_bind]
      refine wp_imp (maintBufRexmt_onward hx ht _) fun _ s₂ hq => ?_
      obtain ⟨s₁, txTime, expires, crit, hi, hs₂⟩ := hq
      have hr : Retried m { m with rexmt := incUint32 m.rexmt, txTime := txTime, expires := expires } :=
        ⟨rfl, rfl, rfl⟩
      obtain ⟨hon, hlt₂⟩ := PutBack.onward hs hd hi hr hlt (putBack_add ht.wf _ crit)
      rw [hs₂]
      exact wp_imp (hst _ hon.keeps hlt₂) fun _ s₃ h₃ => hon.trans hs h₃

end Senders

section Knot

variable {B : MaintBounds} {b c : ℕ} {s : DsrNode} {setTimeout : DsrM Unit}

theorem SetsTimeout.mono (h : SetsTimeout B b setTimeout) {b' : ℕ} (hle : b' ≤ b) :
    SetsTimeout B b' setTimeout :=
  fun s hs hlt => h s hs (Nat.lt_of_lt_of_le hlt hle)

theorem maintBufEnqueue_onward (hst : SetsTimeout B b setTimeout) (hb : c * rexmtBound B ≤ b)
    (hs : Maintained B s) (hc : breakRank B s < c) {m : MaintEntry} (hm : EntryFits s.ifaddr s.lc m)
    (hhop : m.nxtHop ∈ s.hops) :
    wp (maintBufEnqueue setTimeout m) s (fun _ s' => Onward B s s') fun _ => False := by
  have hrel : ∀ s', Onward B s s' → Onward B s (release .maintBuf s') := by
    intro s' h
    rw [release_unlocked h.keeps.unlocked]
    exact h
  unfold maintBufEnqueue
  refine wp_unlocked hs.unlocked ?_
  rw [wp_bind, wp_get]
  cases ha : s.maintBuf.addTail m with
  | none => exact hrel s (Onward.refl hs)
  | some t =>
    obtain ⟨hroom, rfl⟩ := Tbl.addTail_eq_some ha
    simp only [wp_bind, emitMaint, wp_modify, wp_setMaintBuf]
    have hi := Idle.emit s (e := .maint s.now (.buffered m s.maintBuf.head)) fun _ _ h => by cases h
    have h₁ := hi.onward hs
    have hwf := hs.wf.addTail ha
    have hk₂ := h₁.keeps.setBuf hwf (Nat.lt_of_lt_of_le hroom hs.maxLen_le) rfl fun e he => by
      rcases List.mem_append.mp he with he | he
      · exact hs.entries e he
      · rw [List.mem_singleton.mp he]
        exact hm
    have h₂ := (thinner_snoc (hi.hops ▸ hhop)).onward hk₂
    have hlt := hk₂.nested_lt (Nat.lt_of_le_of_lt (h₂.rank.trans h₁.rank) hc)
    refine wp_imp (hst _ hk₂ (Nat.lt_of_lt_of_le hlt hb)) fun _ s₃ h₃ => hrel s₃ ?_
    exact (h₁.trans hs h₂).trans hs h₃

theorem Idle.neighTbl (s : DsrNode) (t : Tbl Neighbor) : Idle s { s with neighTbl := t } :=
  ⟨⟨List.prefix_rfl, rfl, rfl, rfl, rfl, rfl, rfl, rfl⟩, rfl, rfl, [], by simp, by simp⟩

theorem neighTblFindDo_idle (hs : Maintained B s) (a : InAddr) (f : Neighbor → Neighbor) :
    wp (neighTblFindDo a f) s (fun _ s' => Idle s s') fun _ => False :=
  wp_neighTblFindDo hs.unlocked f (Idle.neighTbl s _)

theorem maintBufAdd_onward (hst : SetsTimeout B b setTimeout) (hb : c * rexmtBound B ≤ b)
    (hs : Maintained B s) (hc : breakRank B s < c) {dp : DsrPkt} {skb : Skb} (hskb : dp.skb = some skb)
    (hf : SkbFits s.ifaddr s.lc skb) (hhop : dp.nxtHop ∈ s.hops) :
    wp (maintBufAdd setTimeout dp) s (fun _ s' => Onward B s s') fun _ => False := by
  unfold maintBufAdd kmalloc gettime
  simp only [wp_bind, wp_get, wp_pure]
  obtain ⟨rto, hquery⟩ := @neighTblQuery_runs dp.nxtHop s (hs.free .neighTbl)
  refine wp_of_run hquery ?_
  cases s.neighTbl.find fun n => n.addr = dp.nxtHop with
  | none => exact Onward.refl hs
  | some n =>
    simp only [Option.map_some]
    rw [wp_bind]
    obtain ⟨m, hcreate, hnh, hdp⟩ := maintEntryCreate_of_skb hskb n.id (rto n) s
    refine wp_of_run hcreate ?_
    have hm : EntryFits s.ifaddr s.lc m := ⟨s.kmem, skb, by rw [hdp, hnh], hf⟩
    rw [wp_ite]
    refine ⟨fun _ => ?_, fun _ => Onward.refl hs⟩
    simp only [confValToUsecs, confVal, wp_bind, wp_get, wp_pure]
    rw [wp_ite]
    refine ⟨fun _ => ?_, fun _ => ?_⟩
    swap
    · rw [wp_bind]
      exact maintBufEnqueue_onward hst hb hs hc hm (hnh ▸ hhop)
    simp only [neighTblSetAckReqTime, neighTblIdInc, gettime, wp_bind, wp_get, wp_pure, wp_emit]
    refine wp_imp (neighTblFindDo_idle hs _ _) fun _ s₁ h₁ => ?_
    refine wp_imp (neighTblFindDo_idle (h₁.maintained hs) _ _) fun _ s₂ h₂ => ?_
    have hi := (h₁.trans h₂).trans (Idle.emit s₂ (e := .ackReq m.nxtHop m.id) fun _ _ h => by cases h)
    have hon := hi.onward hs
    have hm' : EntryFits s₂.ifaddr s₂.lc { m with ackReqSent := true } := hon.fits hm
    exact wp_imp (maintBufEnqueue_onward hst hb hon.keeps (Nat.lt_of_le_of_lt hon.rank hc) hm'
      (hi.hops ▸ hnh ▸ hhop)) fun _ s₃ h₃ => hon.trans hs h₃

theorem queue_idle {queue : XmitSite → DsrPkt → DsrM Unit} (hq : Emits queue) (hr : Settles queue)
    (hs : Maintained B s) (site : XmitSite) (dp : DsrPkt) :
    wp (queue site dp) s (fun _ s' => Idle s s') fun _ => False := by
  obtain ⟨s', hrun⟩ := hr site dp s (hs.free .neighTbl)
  refine wp_of_run hrun ?_
  cases hq site dp s s' hrun with
  | kept => exact Idle.refl s
  | sent hw => exact Idle.emit s fun _ _ h => by cases h

theorem xmitVia_sender {queue : XmitSite → DsrPkt → DsrM Unit} (hq : Emits queue) (hr : Settles queue)
    (hst : SetsTimeout B b setTimeout) (hb : c * rexmtBound B ≤ b) : Sender B c (xmitVia setTimeout queue) := by
  have hemit : ∀ (s : DsrNode) site dp,
      Idle s { s with out := s.out ++ [.xmit site dp (ackDue s dp)] } := fun s site dp =>
    Idle.emit s fun _ _ h => by cases h
  refine ⟨fun s site dp hs hack => ?_, fun s site dp skb hs hc hskb hf hhop => ?_⟩
  · have hi := hemit s site dp
    unfold xmitVia
    rw [wp_bind, wp_get, wp_bind, wp_emit, hack, if_neg Bool.false_ne_true, wp_bind, wp_pure]
    exact wp_imp (queue_idle hq hr (hi.maintained hs) site dp) fun _ s' h => hi.trans h
  · have hi := hemit s site dp
    have h₁ := hi.onward hs
    unfold xmitVia
    rw [wp_bind, wp_get, wp_bind, wp_emit]
    cases dp.requestAck with
    | true =>
      rw [if_pos rfl, wp_bind]
      refine wp_imp (maintBufAdd_onward hst hb h₁.keeps (Nat.lt_of_le_of_lt h₁.rank hc) hskb hf hhop)
        fun dp' s₂ h₂ => ?_
      exact wp_imp (queue_idle hq hr h₂.keeps site dp') fun _ s₃ h₃ =>
        (h₁.trans hs h₂).trans hs (h₃.onward h₂.keeps)
    | false =>
      rw [if_neg Bool.false_ne_true, wp_bind, wp_pure]
      exact wp_imp (queue_idle hq hr h₁.keeps site dp) fun _ s₃ h₃ => h₁.trans hs (h₃.onward h₁.keeps)

theorem buildXmit_sender (hst : SetsTimeout B b setTimeout) (hb : c * rexmtBound B ≤ b) :
    Sender B c (buildXmit setTimeout) := by
  have hx : ∀ locking, Sender B c (xmitVia setTimeout (buildQueue locking)) := fun locking =>
    xmitVia_sender (buildQueue_emits locking) (buildQueue_settles locking) hst hb
  refine ⟨fun s site dp hs hack => ?_, fun s site dp skb hs hlt hskb hf hhop => ?_⟩
  · rw [wp_congr (buildXmit_eq setTimeout site dp s)]
    exact (hx s.locking).plain s site dp hs hack
  · rw [wp_congr (buildXmit_eq setTimeout site dp s)]
    exact (hx s.locking).acked s site dp skb hs hlt hskb hf hhop

theorem findDo_rank (s : DsrNode) (crit : MaintEntry → Bool) (expires : Timeval) :
    Thinner s (s.maintBuf.findDo crit fun m => { m with expires := expires }).head ∧
      rexmtsLeft B.rexmt (s.maintBuf.findDo crit fun m => { m with expires := expires }).head =
        rexmtsLeft B.rexmt s.maintBuf.head := by
  have hkeep : ∀ {α : Type} (g : MaintEntry → α), (∀ m, g { m with expires := expires } = g m) → _ :=
    fun g hg => Tbl.updateFirst_map g crit (fun m => { m with expires := expires }) hg s.maintBuf.head
  exact ⟨thinner_of_hops (hkeep MaintEntry.nxtHop fun _ => rfl),
    congrArg List.sum (hkeep (rexmtLeft B.rexmt) fun _ => rfl)⟩

theorem maintBufSetTimeoutUnlocked_onward (B : MaintBounds) (fuel : ℕ) :
    SetsTimeout B fuel (maintBufSetTimeoutUnlocked fuel) := by
  induction fuel with
  | zero => exact fun _ _ hlt => absurd hlt (Nat.not_lt_zero _)
  | succ fuel ih =>
    intro s hs hlt
    unfold maintBufSetTimeoutUnlocked
    rw [wp_bind, wp_get]
    cases hf : s.maintBuf.find MaintEntry.ackReqSent with
    | none => exact Onward.refl hs
    | some m =>
      simp only [wp_bind, wp_setMaintBuf]
      generalize timevalAddUsecs m.txTime m.rto = expires
      obtain ⟨hthin, hleft⟩ := findDo_rank (B := B) s MaintEntry.ackReqSent expires
      have hk₁ := hs.setBuf (hs.wf.findDo MaintEntry.ackReqSent fun m => { m with expires := expires })
        hs.len_le rfl (Tbl.updateFirst_forall hs.entries fun m hm => hs.entries m hm)
      have h₁ := hthin.onward hk₁
      rw [wp_ite]
      refine ⟨fun _ => ?_, fun _ => ?_⟩
      · have hle : timeoutRank B { s with maintBuf := s.maintBuf.findDo MaintEntry.ackReqSent fun m =>
            { m with expires := expires } } ≤ fuel := by
          refine (Nat.add_le_add (Nat.mul_le_mul_right _ h₁.rank) (Nat.le_of_eq hleft)).trans ?_
          exact Nat.le_of_lt_succ hlt
        refine wp_imp (maintBufTimeoutUnlocked_onward hk₁
          (buildXmit_sender ih ((Nat.le_add_right _ _).trans hle)) (ih.mono hle)) fun _ s₂ h₂ => h₁.trans hs h₂
      · rw [setAckTimer, wp_modify]
        have hi : Idle { s with maintBuf := s.maintBuf.findDo MaintEntry.ackReqSent fun m =>
            { m with expires := expires } } { s with
              maintBuf := s.maintBuf.findDo MaintEntry.ackReqSent fun m => { m with expires := expires }
              ackTimer := some expires } :=
          ⟨⟨List.prefix_rfl, rfl, rfl, rfl, rfl, rfl, rfl, rfl⟩, rfl, rfl, [], by simp, by simp⟩
        exact h₁.trans hs (hi.onward hk₁)

end Knot

def boundsOf (s : DsrNode) (budget : ℕ) : MaintBounds :=
  { len := max s.maintBuf.len s.maintBuf.maxLen, rexmt := s.confvals .maxMaintRexmt, budget := budget }

def timeoutFuel (s : DsrNode) : ℕ :=
  timeoutRank (boundsOf s 0) s + max s.maintBuf.len s.maintBuf.maxLen + 1

def EndsWithin (fuel : ℕ) (m : DsrM Unit) (s : DsrNode) : Prop :=
  ∀ budget, fuel ≤ budget → ∃ s' evs, m { s with budget := budget } = .ok () s' ∧ s'.out = s.out ++ evs ∧
    ∀ t m, Event.maint t (.linkBreak m) ∈ evs → ∀ e ∈ s'.maintBuf.head, e.nxtHop ≠ m.nxtHop

structure TimeoutEnds (s : DsrNode) : Prop where
  timeout : EndsWithin (timeoutFuel s) (maintBufTimeoutUnlocked xmit maintBufSetTimeout) s
  setTimeout : EndsWithin (timeoutFuel s) maintBufSetTimeout s
  timer : EndsWithin (timeoutFuel s) maintBufTimeout s

section Ends

variable {s : DsrNode}

theorem xmit_sender {B : MaintBounds} {c : ℕ} (hc : c * rexmtBound B ≤ B.budget) : Sender B c xmit := by
  have hx := buildXmit_sender (maintBufSetTimeoutUnlocked_onward B B.budget) hc
  refine ⟨fun s site dp hs hack => ?_, fun s site dp skb hs hlt hskb hf hhop => ?_⟩
  · rw [xmit, wp_bind, wp_get, hs.budget]
    exact hx.plain s site dp hs hack
  · rw [xmit, wp_bind, wp_get, hs.budget]
    exact hx.acked s site dp skb hs hlt hskb hf hhop

theorem maintBufSetTimeout_onward (B : MaintBounds) : SetsTimeout B B.budget maintBufSetTimeout := by
  intro s hs hlt
  rw [maintBufSetTimeout, wp_bind, wp_get, hs.budget]
  exact maintBufSetTimeoutUnlocked_onward B B.budget s hs hlt

theorem timeout_onward {B : MaintBounds} (hs : Maintained B s) (hb : timeoutRank B s ≤ B.budget) :
    wp (maintBufTimeoutUnlocked xmit maintBufSetTimeout) s (fun _ s' => Onward B s s') fun _ => False :=
  maintBufTimeoutUnlocked_onward hs (xmit_sender ((Nat.le_add_right _ _).trans hb))
    ((maintBufSetTimeout_onward B).mono hb)

theorem maintBufTimeout_onward {B : MaintBounds} (hs : Maintained B s) (hb : timeoutRank B s ≤ B.budget) :
    wp maintBufTimeout s (fun _ s' => Onward B s s') fun _ => False := by
  have hi : Idle s { s with ackTimer := none } :=
    ⟨⟨List.prefix_rfl, rfl, rfl, rfl, rfl, rfl, rfl, rfl⟩, rfl, rfl, [], by simp, by simp⟩
  have hk := hi.maintained hs
  rw [maintBufTimeout, wp_bind, wp_setAckTimer]
  refine wp_unlocked hk.unlocked (wp_imp (timeout_onward hk ?_) fun _ s' h => ?_)
  · rw [hi.timeoutRank]
    exact hb
  · rw [release_unlocked h.keeps.unlocked]
    exact (hi.onward hs).trans hs h

theorem ends_of_onward {m : DsrM Unit}
    (hm : ∀ budget, timeoutFuel s ≤ budget → wp m { s with budget := budget }
      (fun _ s' => Onward (boundsOf s budget) { s with budget := budget } s') fun _ => False) : EndsWithin (timeoutFuel s) m s := by
  intro budget hb
  obtain ⟨_, s', hrun, hon⟩ := ok_of_wp (hm budget hb)
  obtain ⟨evs, he, hleft⟩ := hon.breaks
  refine ⟨s', evs, hrun, he, fun t m ht e hmem hhop => ?_⟩
  have hnone := List.countP_eq_zero.mp (hleft t m ht).none_left e hmem
  exact hnone (decide_eq_true hhop)

theorem maintTimeout_ends {ops : List LcOp} (hrun : lcRun ops lcInit = some s.lc)
    (hroom : lcRunRoom ops lcInit) (hunit : ∀ op ∈ ops, op.unit) (hl : s.locking = false)
    (hwf : s.maintBuf.WF) (hmax : s.confvals .maxMaintRexmt < 4294967296)
    (hfit : ∀ m ∈ s.maintBuf.head, EntryFits s.ifaddr s.lc m) : TimeoutEnds s := by
  have hk : ∀ budget, timeoutFuel s ≤ budget →
      Maintained (boundsOf s budget) { s with budget := budget } := by
    intro budget hb
    refine ⟨hl, .of_run hrun hroom hunit, hwf, Nat.le_max_left _ _, Nat.le_max_right _ _, rfl, hmax, rfl, ?_, hfit⟩
    unfold timeoutFuel at hb
    dsimp only [boundsOf]
    omega
  have hrank : ∀ budget, timeoutFuel s ≤ budget →
      timeoutRank (boundsOf s budget) { s with budget := budget } < budget := by
    intro budget hb
    have heq : timeoutRank (boundsOf s budget) { s with budget := budget } =
        timeoutRank (boundsOf s 0) s := rfl
    unfold timeoutFuel at hb
    omega
  refine ⟨ends_of_onward fun b hb => ?_, ends_of_onward fun b hb => ?_, ends_of_onward fun b hb => ?_⟩
  · exact timeout_onward (hk b hb) (Nat.le_of_lt (hrank b hb))
  · exact maintBufSetTimeout_onward (boundsOf s b) _ (hk b hb) (hrank b hb)
  · exact maintBufTimeout_onward (hk b hb) (Nat.le_of_lt (hrank b hb))

end Ends

theorem detourSkb_inside : SrtOptInside detourSkb := by
  intro mem p hp
  obtain ⟨post, hraw⟩ : ∃ post, writeAt (fill mem (16 + defaultTailroom)) 0 (readAt detourSkb.data 0 16) =
      readAt detourSkb.data 0 16 ++ post := by
    refine ⟨(fill mem (16 + defaultTailroom)).drop 16, writeAt_zero ?_⟩
    rw [length_fill]
    decide
  have h : (dsrPktAlloc mem detourSkb).srtOpt = some ⟨1, 4⟩ ∧ (dsrPktAlloc mem detourSkb).optLength ⟨1, 4⟩ = 10 ∧
      (dsrPktAlloc mem detourSkb).optsLen = 16 := by
    unfold dsrPktAlloc dsrPktAllocOpts DsrPkt.write
    have hlen : be16 (detourSkb.data.getD 2 0) (detourSkb.data.getD 3 0) + dsrOptHdrLen = 16 := by decide
    have hproto : decide (detourSkb.iph.protocol = ipprotoDsr) = true := rfl
    simp only [hproto, if_true, hlen, hraw]
    exact ⟨rfl, rfl, rfl⟩
  rw [h.1] at hp
  cases hp
  rw [h.2.1, h.2.2]

def staleNode : DsrNode :=
  let s := { dsrNodeInit (detourHost 2) confvalsDef false 8 ⟨100, 0⟩ (fun _ => 0) 0 with
    lc := (lcRun detourOps lcInit).getD lcInit }
  let m := { maintEntryNew s (neighTblCreate (detourHost 3) 3 1) (detourHost 3) detourPkt with
    txTime := ⟨90, 0⟩, rexmt := 16, ackReqSent := true }
  { s with maintBuf := { head := [m], len := 1, maxLen := maintBufMaxLen } }

theorem maintTimeout_ends_stale : TimeoutEnds staleNode := by
  have hrun : lcRun detourOps lcInit = some staleNode.lc := rfl
  have hunit : ∀ op ∈ detourOps, op.unit := by simp [detourOps, LcOp.unit]
  refine maintTimeout_ends hrun detourOps_room hunit rfl rfl (by decide) fun m hm => ?_
  obtain rfl := List.mem_singleton.mp hm
  exact ⟨fun _ => 0, detourSkb, rfl, detourSkb_inside,
    routesFit_of_ends (.of_run hrun detourOps_room hunit) _ _ (by decide +kernel)⟩

end DsrUu
