import DsrUu.LinkCache.Delete
import DsrUu.Maint.Succeed
import DsrUu.Node.Arrival
import DsrUu.Srt.Shortcut

namespace DsrUu

open Bytes Graph Effect

structure Carried (dp : DsrPkt) (p : OptPtr) (dp' : DsrPkt) (q : OptPtr) : Prop where
  srtOpt : dp'.srtOpt = some q
  src : dp'.src = dp.src
  dst : dp'.dst = dp.dst
  addrs : srtOptAddrs dp' q = srtOptAddrs dp p
  salv : srtOptSalv dp' q = srtOptSalv dp p

def SalvagedAs (s : DsrNode) (dp dp' : DsrPkt) : Prop :=
  ∀ xmit : XmitSite → DsrPkt → DsrM Unit, ∃ lc,
    maintBufSalvage xmit dp s = (do xmit .salvage dp'; pure 0) { s with lc := lc }

def salvagePos (dp : DsrPkt) (p : OptPtr) (me : InAddr) : ℕ :=
  if (srtOptAddrs dp p).head? = some dp.nxtHop then 0 else (srtOptAddrs dp p).idxOf me + 1

theorem getElem?_middle {α : Type} {pre post : List α} {a : α} (hnd : (pre ++ a :: post).Nodup) (i : ℕ) :
    (pre ++ a :: post)[i]? = some a ↔ i = pre.length := by
  have hat : (pre ++ a :: post)[pre.length]? = some a := by simp
  constructor
  · intro hi
    obtain ⟨hlt, -⟩ := List.getElem?_eq_some_iff.mp hi
    exact (List.getElem?_inj hlt hnd).mp (hi.trans hat.symm)
  · rintro rfl
    exact hat

theorem OptAt.srtOptAddrs_wrap {dp : DsrPkt} {p : OptPtr} {pre post : List UInt8} {salv sleft : ℕ}
    {as : List InAddr} (h : OptAt dp p pre (srtOptImage salv sleft as) post) :
    DsrUu.srtOptAddrs dp p = as.take (as.length % 64) := by
  have himg := length_srtOptImage salv sleft as
  have hlen : dp.optLength p = 4 * (as.length % 64) + 2 := by
    rw [DsrPkt.optLength, h.fieldAt (by omega)]
    simp only [srtOptImage, List.cons_append, List.getD_cons_succ, List.getD_cons_zero, UInt8.toNat_ofNat']
    omega
  have hle : as.length % 64 ≤ as.length := Nat.mod_le _ _
  have hdrop : (srtOptImage salv sleft as).drop 4 = encodeAddrs as := by
    simp [srtOptImage, srtWord]
  have htake : (encodeAddrs as).take (4 * (as.length % 64)) = encodeAddrs (as.take (as.length % 64)) := by
    obtain ⟨k, hk⟩ : ∃ k, k = as.length % 64 := ⟨_, rfl⟩
    rw [← hk] at hle ⊢
    conv_lhs => rw [← List.take_append_drop k as, encodeAddrs_append]
    apply List.take_left'
    rw [length_encodeAddrs, List.length_take, Nat.min_eq_left hle]
  rw [DsrUu.srtOptAddrs, hlen, Nat.add_sub_cancel, h.fieldsAt (by omega), hdrop, htake, decodeAddrs_encodeAddrs]

theorem FrameOf.carried {dp : DsrPkt} {as : List InAddr} {salv sleft : ℕ} {hdr rest : List UInt8} {f : Frame}
    (hf : FrameOf dp f) (hb : SrtBuf as salv sleft hdr rest dp) (has : as.length ≤ 63)
    (hh : HdrOk dp.src dp.dst dp) (hack : AckPtr as rest dp) (mem : ℕ → UInt8) (h : InAddr) :
    ∃ q, Carried dp (dp.ptr dsrOptHdrLen) { dsrPktAlloc mem f.skb with nxtHop := h } q := by
  obtain ⟨-, hw⟩ := hf.wire hb has hh rfl rfl hack
  obtain ⟨hdr', rest', hb', hp⟩ := hw.alloc has mem
  have ha := dsrPktAlloc_dsr mem hw.protocol
  obtain ⟨junk, hopt⟩ := hb.srtAt
  obtain ⟨junk', hopt'⟩ := hb'.srtAt
  have hopt'' : OptAt { dsrPktAlloc mem f.skb with nxtHop := h } ((dsrPktAlloc mem f.skb).ptr dsrOptHdrLen) hdr'
      (srtOptImage salv sleft as) (rest' ++ junk') := ⟨hopt'.dh, hopt'.gen, hopt'.off⟩
  exact ⟨_, hp.srtOpt, ha.src.trans hw.saddr, ha.dst.trans hw.daddr,
    hopt''.srtOptAddrs_wrap.trans hopt.srtOptAddrs_wrap.symm, hopt''.srtOptSalv.trans hopt.srtOptSalv.symm⟩

theorem SalvagedAs.pkt {s : DsrNode} {dp dp' : DsrPkt} (h : SalvagedAs s dp dp') :
    s.ifaddr ≠ dp.dst ∧ ∃ f lc alt, lcSrtFind (srtFlags s.kmem) s.ifaddr dp.dst s.lc = some (f, lc) ∧
      f.srt = some alt ∧ salvagePkt s.kmem s.ifaddr alt dp = some dp' := by
  obtain ⟨lc, hrun⟩ := h xmitLog
  have hok : maintBufSalvage xmitLog dp s =
      .ok 0 { s with lc := lc, out := s.out ++ [.xmit .salvage dp' false] } := hrun
  rcases maintBufSalvage_cases hok with ⟨hr, -⟩ | ⟨-, hne, f, lc', alt, dp'', hf, halt, hp, hx⟩
  · cases hr
  · have hout : s.out ++ [.xmit .salvage dp'' false] = s.out ++ [.xmit .salvage dp' false] :=
      congrArg (fun r : EStateM.Result Stop DsrNode Unit => match r with
        | .ok _ t => t.out
        | .error _ t => t.out) hx
    have hev := List.append_cancel_left hout
    simp only [List.cons.injEq, Event.xmit.injEq, and_true, true_and] at hev
    exact ⟨hne, f, lc', alt, hf, halt, hev ▸ hp⟩

structure Rerouted (s : DsrNode) (dp : DsrPkt) (p : OptPtr) (full : List InAddr) : Prop where
  second : full[1]? = some s.ifaddr ↔ salvagePos dp p s.ifaddr = 2

structure SalvageStep (s : DsrNode) (dp : DsrPkt) (p : OptPtr) (dp' : DsrPkt) : Prop where
  cached : ∃ ops, (∀ op ∈ ops, op.unit) ∧ lcRun ops lcInit = some s.lc
  copied : ∃ mem skb h, dp = { dsrPktAlloc mem skb with nxtHop := h }
  opt : SrtOptOk dp p
  salvaged : SalvagedAs s dp dp'

inductive Lineage (ok : DsrNode → Bool → DsrPkt → OptPtr → Prop) :
    Bool → ℕ → List (InAddr × ℕ) → DsrPkt → OptPtr → Prop
  | sent {dp p} : dp.srtOpt = some p → srtOptSalv dp p = 0 → Lineage ok false 0 [] dp p
  | carried {dp p dp' q again n l} : Lineage ok again n l dp p → Carried dp p dp' q → Lineage ok again n l dp' q
  | salvaged {s dp p dp' q again n l} : Lineage ok again n l dp p → ok s again dp p →
      SalvageStep s dp p dp' → dp'.srtOpt = some q →
      Lineage ok false (n + 1) (l ++ [(s.ifaddr, salvagePos dp p s.ifaddr)]) dp' q
  | kept {s dp p dp' m q again n l id rto s'} : Lineage ok again n l dp p → ok s again dp p →
      SalvageStep s dp p dp' → maintEntryCreate dp' id rto s' = .ok m s' → Carried dp p m.dp q →
      Lineage ok true n (l ++ [(s.ifaddr, (srtOptAddrs dp p).idxOf s.ifaddr + 1)]) m.dp q

theorem salvageSrt_rerouted {mem mem' : ℕ → UInt8} {skb : Skb} {s : DsrNode} {dp : DsrPkt} {p : OptPtr}
    {alt srt : DsrSrt} {c sleft : ℕ} (halloc : AllocOk mem' skb dp) (hok : SrtOptOk dp p)
    (hlr : LcRoute s.lc s.ifaddr dp.dst alt c)
    (hsal : salvageSrt mem s.ifaddr alt (oldSrt mem dp p) dp.nxtHop = some (srt, sleft))
    (hdup : srt.path.Nodup) : srt.laddrs = 4 * srt.addrs.length ∧ Rerouted s dp p srt.addrs := by
  obtain ⟨w0, w1, pre₀, rest₀, junk₀, hcopy⟩ := halloc.srtCopy hok
  have hold := oldSrt_eq mem hcopy
  have haddrs : (oldSrt mem dp p).addrs = srtOptAddrs dp p := by rw [hold]
  have hladdrs : (oldSrt mem dp p).laddrs = 4 * (oldSrt mem dp p).addrs.length := by rw [hold]
  unfold salvageSrt at hsal
  rw [haddrs] at hsal
  split at hsal
  · next hhead =>
    cases hsal
    refine ⟨hlr.laddrs, ?_, fun hpos => ?_⟩
    · intro hget
      have hmem : s.ifaddr ∈ alt.addrs := List.mem_of_getElem? hget
      exact absurd (List.mem_append_left _ hmem) (List.nodup_cons.mp hlr.nodup).1
    · unfold salvagePos at hpos
      cases has : srtOptAddrs dp p with
      | nil =>
        rw [has] at hpos
        simp at hpos
      | cons a as =>
        rw [has, List.headD_cons] at hhead
        rw [has, List.head?_cons, hhead, if_pos rfl] at hpos
        cases hpos
  · next hhead =>
    obtain ⟨toMe, hsplit, hcat⟩ := Option.map_eq_some_iff.mp hsal
    have hmem : s.ifaddr ∈ (oldSrt mem dp p).addrs := by
      by_contra habs
      rw [dsrSrtNewSplit_absent habs] at hsplit
      cases hsplit
    obtain ⟨pre, post, heq, hpre⟩ := List.eq_append_cons_of_mem hmem
    rw [dsrSrtNewSplit_at hladdrs heq hpre, Option.some_inj] at hsplit
    subst hsplit
    rw [dsrSrtConcatenate_exact rfl hlr.laddrs, hlr.src_eq] at hcat
    cases hcat
    refine ⟨rfl, ?_⟩
    rw [path_of_laddrs rfl] at hdup
    have hnd : (pre ++ s.ifaddr :: alt.addrs).Nodup :=
      (List.nodup_append.mp (List.nodup_cons.mp hdup).2).1
    rw [haddrs] at heq
    have hne : (srtOptAddrs dp p).head? ≠ some dp.nxtHop := by
      intro hh
      rw [List.headD_eq_head?_getD, hh] at hhead
      exact hhead rfl
    have hidx : (srtOptAddrs dp p).idxOf s.ifaddr = pre.length := by
      rw [heq, List.idxOf_append, if_neg hpre]
      simp
    refine ⟨?_⟩
    rw [salvagePos, if_neg hne, hidx, getElem?_middle hnd 1]
    omega

structure SalvageWrote (s : DsrNode) (dp : DsrPkt) (p : OptPtr) (dp' : DsrPkt) (q : OptPtr) : Prop where
  src : dp'.src = dp.src
  dst : dp'.dst = dp.dst
  salv : srtOptSalv dp' q = (srtOptSalv dp p + 1) % 16
  addrs : ∃ full : List InAddr, srtOptAddrs dp' q = full.take (full.length % 64) ∧ full.Nodup ∧
    Rerouted s dp p full

theorem SalvageStep.wrote {s : DsrNode} {dp dp' : DsrPkt} {p q : OptPtr} (h : SalvageStep s dp p dp')
    (hq : dp'.srtOpt = some q) : SalvageWrote s dp p dp' q := by
  obtain ⟨ops, hunit, hrun⟩ := h.cached
  obtain ⟨mem, skb, hop, hdp⟩ := h.copied
  obtain ⟨hne, f, lc, alt, hf, halt, hpkt⟩ := h.salvaged.pkt
  have halloc : AllocOk mem skb dp := by
    have hs := h.opt.srtOpt
    rw [hdp] at hs ⊢
    exact (dsrPktAlloc_dsr mem (dsrPktAlloc_srtOpt hs)).with_nxtHop hop
  obtain ⟨f', lc', hf', -, hres⟩ := lcSrtFind_sound (lcRun_sound ops lcInit s.lc lcInit_sound hunit hrun) hne
    (srtFlags s.kmem)
  rw [hf] at hf'
  cases hf'
  obtain ⟨c, hlr⟩ := hres.route halt
  obtain ⟨w0, w1, pre, rest, junk, hcopy⟩ := halloc.srtCopy h.opt
  cases hsal : salvageSrt s.kmem s.ifaddr alt (oldSrt s.kmem dp p) dp.nxtHop with
  | none =>
    unfold salvagePkt at hpkt
    simp only [h.opt.srtOpt, hsal] at hpkt
    cases hpkt
  | some r =>
    obtain ⟨srt, sleft⟩ := r
    obtain ⟨hdup, dp₁, dp₂, q', h₁, hq', h₂, rfl⟩ := salvagePkt_some h.opt.srtOpt hsal hpkt
    have hnd := (dsrSrtCheckDuplicate_false srt).mp hdup
    obtain ⟨hsrt, hrr⟩ := salvageSrt_rerouted halloc h.opt hlr hsal hnd
    have hrw := salvageRewrite_spec s.kmem hcopy halloc.pLen_mod hsrt
    rw [← h₁] at hrw
    obtain ⟨pre', junk', hopt₁, -, -⟩ := hrw.opt
    rw [hcopy.opt.off] at hq'
    rw [← hq'] at hopt₁
    have hopt₂ := hopt₁.srtOptSetSleft sleft
    rw [← h₂] at hopt₂
    have hqq : q = q' := by
      have hso : dp₂.srtOpt = some q' := by
        rw [h₂]
        exact (srtOptSetSleft_srtOpt dp₁ q' sleft).trans (hq' ▸ hrw.srtOpt)
      exact Option.some_inj.mp (hq.symm.trans hso)
    have hs := hrw.same.trans (srtOptSetSleft_same dp₁ q' sleft)
    rw [← h₂] at hs
    rw [path_of_laddrs hsrt] at hnd
    obtain ⟨dp'', hdp''⟩ : ∃ dp'', dp'' = { dp₂ with nxtHop := dsrSrtNextHop srt (srtOptSleft dp₂ q')
                                                     srt := some srt } := ⟨_, rfl⟩
    rw [← hdp'', hqq]
    have hopt : OptAt dp'' q' pre' (srtOptImage (srtOptSalv dp p + 1) sleft srt.addrs) (rest ++ junk') := by
      rw [hdp'']
      exact ⟨hopt₂.dh, hopt₂.gen, hopt₂.off⟩
    refine ⟨by rw [hdp'']; exact hs.src, by rw [hdp'']; exact hs.dst, hopt.srtOptSalv, srt.addrs,
      hopt.srtOptAddrs_wrap, (List.nodup_append.mp (List.nodup_cons.mp hnd).2).1, hrr⟩

structure Traced (n : ℕ) (l : List (InAddr × ℕ)) (dp : DsrPkt) (p : OptPtr) : Prop where
  salv : srtOptSalv dp p = n % 16
  count : n ≤ l.length
  nodup : n ≠ 0 → (srtOptAddrs dp p).Nodup
  last : ∀ r, l.getLast? = some r → n ≠ 0 → 1 < (srtOptAddrs dp p).length →
    ((srtOptAddrs dp p)[1]? = some r.1 ↔ r.2 = 2)

theorem Traced.carry {n : ℕ} {l : List (InAddr × ℕ)} {dp dp' : DsrPkt} {p q : OptPtr} (h : Traced n l dp p)
    (hc : Carried dp p dp' q) : Traced n l dp' q :=
  ⟨hc.salv.trans h.salv, h.count, hc.addrs ▸ h.nodup, hc.addrs ▸ h.last⟩

theorem Traced.salvage {n : ℕ} {l : List (InAddr × ℕ)} {s : DsrNode} {dp dp' : DsrPkt} {p q : OptPtr}
    (h : Traced n l dp p) (hw : SalvageWrote s dp p dp' q) :
    Traced (n + 1) (l ++ [(s.ifaddr, salvagePos dp p s.ifaddr)]) dp' q := by
  obtain ⟨full, hfull, hnd, hrr⟩ := hw.addrs
  refine ⟨?_, ?_, fun _ => ?_, ?_⟩
  · have hs := hw.salv
    rw [h.salv] at hs
    omega
  · have hc := h.count
    simpa using hc
  · rw [hfull]
    exact hnd.sublist (List.take_sublist _ _)
  · intro r hr _ hlen
    rw [List.getLast?_concat, Option.some_inj] at hr
    subst hr
    rw [← hrr.second, hfull, List.getElem?_take_of_lt]
    rw [hfull, List.length_take] at hlen
    omega

theorem Traced.keep {n : ℕ} {l : List (InAddr × ℕ)} {dp : DsrPkt} {p : OptPtr} (h : Traced n l dp p)
    (me : InAddr) : Traced n (l ++ [(me, (srtOptAddrs dp p).idxOf me + 1)]) dp p := by
  refine ⟨h.salv, ?_, h.nodup, ?_⟩
  · have hc := h.count
    rw [List.length_append]
    omega
  · intro r hr hn hlen
    rw [List.getLast?_concat, Option.some_inj] at hr
    subst hr
    have hnd := h.nodup hn
    constructor
    · intro hget
      obtain ⟨hlt, hget⟩ := List.getElem?_eq_some_iff.mp hget
      have hidx := hnd.idxOf_getElem 1 hlt
      rw [hget] at hidx
      rw [hidx]
    · intro hidx
      have h1 : (srtOptAddrs dp p).idxOf me = 1 := by omega
      have hlt : (srtOptAddrs dp p).idxOf me < (srtOptAddrs dp p).length := by omega
      rw [← h1, List.getElem?_eq_getElem hlt, List.getElem_idxOf hlt]

theorem Lineage.traced {ok : DsrNode → Bool → DsrPkt → OptPtr → Prop} {again : Bool} {n : ℕ}
    {l : List (InAddr × ℕ)} {dp : DsrPkt} {p : OptPtr} (h : Lineage ok again n l dp p) : Traced n l dp p := by
  induction h with
  | sent _ hs => exact ⟨hs, Nat.zero_le _, fun hn => absurd rfl hn, nofun⟩
  | carried _ hc ih => exact ih.carry hc
  | salvaged _ _ hst hq ih => exact ih.salvage (hst.wrote hq)
  | kept _ _ _ _ hc ih => exact (ih.keep _).carry hc

theorem Lineage.srtOpt {ok : DsrNode → Bool → DsrPkt → OptPtr → Prop} {again : Bool} {n : ℕ}
    {l : List (InAddr × ℕ)} {dp : DsrPkt} {p : OptPtr} (h : Lineage ok again n l dp p) : dp.srtOpt = some p := by
  cases h with
  | sent ho _ => exact ho
  | carried _ hc => exact hc.srtOpt
  | salvaged _ _ _ ho => exact ho
  | kept _ _ _ _ hc => exact hc.srtOpt

def rerrDst (dp : DsrPkt) (p : OptPtr) : InAddr := if srtOptSalv dp p = 0 then dp.src else dp.addrField p 8

theorem rerrPkt_dst {mem : ℕ → UInt8} {me dst unreach : InAddr} {maxSalvage salv : ℕ} {srt : DsrSrt}
    {trigg dp : DsrPkt} (h : rerrPkt mem me dst unreach maxSalvage srt trigg salv = some dp) : dp.dst = dst := by
  have hopts : ∀ (os : List (List UInt8)) (dp : DsrPkt) (off : ℕ), (writeOpts dp off os).dst = dp.dst := by
    intro os
    induction os with
    | nil => exact fun _ _ => rfl
    | cons o os ih => exact fun dp off => (ih _ _).trans (write_same dp _ _).dst
  obtain ⟨dp₁, h₁, h⟩ := Option.bind_eq_some_iff.mp h
  obtain ⟨dp₂, h₂, h⟩ := Option.bind_eq_some_iff.mp h
  obtain ⟨dp₃, h₃, rfl⟩ := Option.map_eq_some_iff.mp h
  rw [hopts]
  unfold dsrOptHdrAdd at h₁
  unfold dsrSrtOptAdd at h₂
  unfold dsrRerrOptAdd at h₃
  split at h₁ <;> cases h₁
  split at h₂ <;> cases h₂
  split at h₃ <;> cases h₃
  simp only [(write_same _ _ _).dst]
  rfl

theorem dsrRerrSend_to {xmit : XmitSite → DsrPkt → DsrM Unit} {trigg : DsrPkt} {p : OptPtr} {unreach : InAddr}
    {s s' : DsrNode} (hopt : trigg.srtOpt = some p) (h : dsrRerrSend xmit trigg unreach s = .ok () s') :
    s'.out = s.out ∨ ∃ lc e, xmit .rerrSend e { s with lc := lc } = .ok () s' ∧ e.dst = rerrDst trigg p := by
  unfold dsrRerrSend kmalloc myAddr confVal at h
  obtain ⟨mem, s₁, hk, h⟩ := bind_ok h
  cases hk
  obtain ⟨me, s₂, hme, h⟩ := bind_ok h
  cases hme
  obtain ⟨k, s₃, hc, h⟩ := bind_ok h
  cases hc
  split at h
  · cases h
    exact .inl rfl
  · rw [hopt] at h
    obtain ⟨srt, s₄, hf, h⟩ := bind_ok h
    change dsrRtcFind s.ifaddr (rerrDst trigg p) s = .ok srt s₄ at hf
    cases srt with
    | none =>
      cases h
      rcases dsrRtcFind_ok hf with ⟨-, rfl⟩ | ⟨-, f, lc, -, -, rfl⟩
      · exact .inl rfl
      · exact .inl rfl
    | some srt =>
      rcases dsrRtcFind_ok hf with ⟨hnone, -⟩ | ⟨-, f, lc, -, -, rfl⟩
      · cases hnone
      · cases hp : rerrPkt s.kmem s.ifaddr (rerrDst trigg p) unreach (s.confvals .maxSalvageCount) srt trigg
            (srtOptSalv trigg p) with
        | none =>
          change xmitPkt xmit .rerrSend (rerrPkt s.kmem s.ifaddr (rerrDst trigg p) unreach
            (s.confvals .maxSalvageCount) srt trigg (srtOptSalv trigg p)) _ = _ at h
          rw [hp] at h
          cases h
          exact .inl rfl
        | some e =>
          change xmitPkt xmit .rerrSend (rerrPkt s.kmem s.ifaddr (rerrDst trigg p) unreach
            (s.confvals .maxSalvageCount) srt trigg (srtOptSalv trigg p)) _ = _ at h
          rw [hp] at h
          exact .inr ⟨lc, e, h, rerrPkt_dst hp⟩

theorem getD_fieldsAt {dp : DsrPkt} {p : OptPtr} {i len j : ℕ} (h : j < len) :
    (dp.fieldsAt p i len).getD j 0 = dp.fieldAt p (i + j) := by
  unfold DsrPkt.fieldsAt DsrPkt.fieldAt
  split
  · unfold DsrPkt.bytesAt DsrPkt.byteAt
    cases dp.dh with
    | none =>
      dsimp only
      rw [getD_readAt h]
      rfl
    | some b =>
      dsimp only
      rw [getD_readAt h, Nat.add_assoc]
  · rw [getD_readAt h]
    rfl

theorem addrField_srtOptAddrs {dp : DsrPkt} {p : OptPtr} {i : ℕ} (h : i < (srtOptAddrs dp p).length) :
    (srtOptAddrs dp p)[i]? = some (dp.addrField p (4 * i + 4)) := by
  obtain ⟨hlen, hget⟩ := getElem?_decodeAddrs h
  rw [length_fieldsAt] at hlen
  rw [srtOptAddrs, hget, getD_fieldsAt (by omega), getD_fieldsAt (by omega), getD_fieldsAt (by omega),
    getD_fieldsAt (by omega), DsrPkt.addrField]
  simp only [Nat.add_comm 4, Nat.add_right_comm _ _ 4]

structure RerrRight (l : List (InAddr × ℕ)) (dp : DsrPkt) (p : OptPtr) : Prop where
  dst : rerrDst dp p = (l.getLast?.map Prod.fst).getD dp.src
  read : srtOptSalv dp p ≠ 0 → 1 < (srtOptAddrs dp p).length
  mem : rerrDst dp p ∈ dp.src :: srtOptAddrs dp p

def SecondSalvager (n : ℕ) (l : List (InAddr × ℕ)) (dp : DsrPkt) (p : OptPtr) : Prop :=
  if n % 16 = 0 then ∀ r, l.getLast? = some r → r.1 = dp.src
  else 1 < (srtOptAddrs dp p).length ∧ ∀ r, l.getLast? = some r → r.2 = 2

theorem rerr_salvager_iff {again : Bool} {n : ℕ} {l : List (InAddr × ℕ)} {dp : DsrPkt} {p : OptPtr}
    (h : Lineage (fun _ _ _ _ => True) again n l dp p) :
    (∀ xmit unreach s s', dsrRerrSend xmit dp unreach s = .ok () s' → s'.out = s.out ∨
      ∃ lc e, xmit .rerrSend e { s with lc := lc } = .ok () s' ∧ e.dst = rerrDst dp p) ∧
    (RerrRight l dp p ↔ SecondSalvager n l dp p) := by
  have ht := h.traced
  refine ⟨fun xmit unreach s s' hrun => dsrRerrSend_to h.srtOpt hrun, ?_⟩
  unfold SecondSalvager
  split
  · next hn =>
    have hdst : rerrDst dp p = dp.src := if_pos (ht.salv.trans hn)
    constructor
    · intro hr r hl
      have hdst' := hr.dst
      rw [hdst, hl] at hdst'
      exact hdst'.symm
    · intro hl
      refine ⟨?_, fun hs => absurd (ht.salv.trans hn) hs, hdst ▸ List.mem_cons_self⟩
      rw [hdst]
      cases hlast : l.getLast? with
      | none => rfl
      | some r => exact (hl r hlast).symm
  · next hn =>
    have hn0 : n ≠ 0 := fun h0 => hn (by rw [h0])
    have hs : srtOptSalv dp p ≠ 0 := fun h0 => hn (ht.salv ▸ h0)
    have hdst : rerrDst dp p = dp.addrField p 8 := if_neg hs
    obtain ⟨r, hlast⟩ : ∃ r, l.getLast? = some r := by
      cases hl : l.getLast? with
      | none =>
        have hc := ht.count
        rw [List.getLast?_eq_none_iff.mp hl] at hc
        exact absurd (Nat.le_zero.mp hc) hn0
      | some r => exact ⟨r, rfl⟩
    have hsecond : 1 < (srtOptAddrs dp p).length → (srtOptAddrs dp p)[1]? = some (dp.addrField p 8) :=
      fun hlen => addrField_srtOptAddrs hlen
    constructor
    · intro hr
      refine ⟨hr.read hs, fun r' hr' => (ht.last r' hr' hn0 (hr.read hs)).mp ?_⟩
      have hdst' := hr.dst
      rw [hr', hdst] at hdst'
      rw [hsecond (hr.read hs), hdst']
      rfl
    · rintro ⟨hlen, hpos⟩
      have hget := (ht.last r hlast hn0 hlen).mpr (hpos r hlast)
      rw [hsecond hlen, Option.some_inj] at hget
      refine ⟨?_, fun _ => hlen, ?_⟩
      · rw [hdst, hlast, hget]
        rfl
      · rw [hdst]
        exact List.mem_cons_of_mem _ (List.mem_of_getElem? (hsecond hlen))

def salvageOf (s : DsrNode) (dp : DsrPkt) : Option DsrPkt :=
  (lcSrtFind (srtFlags s.kmem) s.ifaddr dp.dst s.lc).bind fun r =>
    r.1.srt.bind fun alt => salvagePkt s.kmem s.ifaddr alt dp

theorem salvageOf_step {s : DsrNode} {dp dp' : DsrPkt} {p : OptPtr} {ops : List LcOp}
    (hunit : ∀ op ∈ ops, op.unit) (hrun : lcRun ops lcInit = some s.lc)
    (hfree : s.locking = true → Lock.lc ∉ s.held) {mem : ℕ → UInt8} {skb : Skb} {h : InAddr}
    (hdp : dp = { dsrPktAlloc mem skb with nxtHop := h }) (hok : SrtOptOk dp p) (hne : s.ifaddr ≠ dp.dst)
    (hs : salvageOf s dp = some dp') : SalvageStep s dp p dp' := by
  obtain ⟨⟨f, lc⟩, hf, hs⟩ := Option.bind_eq_some_iff.mp hs
  obtain ⟨alt, halt, hpkt⟩ := Option.bind_eq_some_iff.mp hs
  exact ⟨⟨ops, hunit, hrun⟩, ⟨mem, skb, h, hdp⟩, hok,
    fun xmit => ⟨lc, maintBufSalvage_transmits hne hfree hf halt hpkt hok.overrun⟩⟩

def routeSkb (data : List UInt8) : Skb :=
  { hSource := 0
    iph := { ihl := 5, totLen := 20 + data.length, ttl := 64, protocol := ipprotoDsr, saddr := detourHost 1
             daddr := detourHost 4 }
    data := data }

def routePkt (data : List UInt8) (h : InAddr) : DsrPkt := { dsrPktAlloc (fun _ => 0) (routeSkb data) with nxtHop := h }

def routeView (dp : DsrPkt) : Option (InAddr × InAddr × List InAddr × ℕ) :=
  dp.srtOpt.map fun q => (dp.src, dp.dst, srtOptAddrs dp q, srtOptSalv dp q)

theorem salvageOf_lineage {ok : DsrNode → Bool → DsrPkt → OptPtr → Prop} {s : DsrNode} {again : Bool} {n : ℕ}
    {l : List (InAddr × ℕ)} {data : List UInt8} {h : InAddr} {p : OptPtr} (ops : List LcOp)
    (data' : List UInt8) (h' : InAddr) (q : OptPtr) (hl : Lineage ok again n l (routePkt data h) p) (hokay : ok s again (routePkt data h) p)
    (hunit : ∀ op ∈ ops, op.unit) (hrun : lcRun ops lcInit = some s.lc)
    (hfree : s.locking = true → Lock.lc ∉ s.held) (hok : SrtOptOk (routePkt data h) p)
    (hne : s.ifaddr ≠ (routePkt data h).dst)
    (hview : (salvageOf s (routePkt data h)).bind routeView = routeView (routePkt data' h'))
    (hq : (routePkt data' h').srtOpt = some q) :
    Lineage ok false (n + 1) (l ++ [(s.ifaddr, salvagePos (routePkt data h) p s.ifaddr)]) (routePkt data' h') q := by
  cases hs : salvageOf s (routePkt data h) with
  | none =>
    rw [hs, Option.bind_none, routeView, hq] at hview
    cases hview
  | some dp' =>
    rw [hs, Option.bind_some, routeView, routeView, hq, Option.map_some] at hview
    obtain ⟨r, hr, hview⟩ := Option.map_eq_some_iff.mp hview
    simp only [Prod.mk.injEq] at hview
    obtain ⟨hsrc, hdst, haddrs, hsalv⟩ := hview
    exact .carried (.salvaged hl hokay (salvageOf_step hunit hrun hfree rfl hok hne hs) hr)
      ⟨hq, hsrc.symm, hdst.symm, haddrs.symm, hsalv.symm⟩

def bridgeOps : List LcOp :=
  [.linkAdd ⟨0, 0⟩ (detourHost 2) (detourHost 3) 0 0 1, .linkAdd ⟨0, 0⟩ (detourHost 3) (detourHost 4) 0 0 1,
    .linkAdd ⟨0, 0⟩ (detourHost 2) (detourHost 5) 0 0 1, .linkAdd ⟨0, 0⟩ (detourHost 5) (detourHost 6) 0 0 1,
    .linkAdd ⟨0, 0⟩ (detourHost 6) (detourHost 4) 0 0 1, .linkAdd ⟨0, 0⟩ (detourHost 6) (detourHost 5) 0 0 1,
    .linkDel (detourHost 2) (detourHost 3)]

def routeNode (me : InAddr) (ops : List LcOp) : DsrNode :=
  { dsrNodeInit me confvalsDef true 8 ⟨0, 0⟩ (fun _ => 0) 0 with lc := (lcRun ops lcInit).getD lcInit }

def detourData : List UInt8 := [17, 0, 0, 12, 96, 10, 0, 8, 10, 0, 0, 2, 10, 0, 0, 3, 255]

def bridgeData : List UInt8 := [17, 0, 0, 16, 96, 14, 64, 4, 10, 0, 0, 2, 10, 0, 0, 5, 10, 0, 0, 6, 255]

def secondData : List UInt8 := [17, 0, 0, 16, 96, 14, 0, 8, 10, 0, 0, 6, 10, 0, 0, 2, 10, 0, 0, 3, 255]

def secondLater : List UInt8 := [17, 0, 0, 16, 96, 14, 64, 4, 10, 0, 0, 6, 10, 0, 0, 2, 10, 0, 0, 5, 255]

theorem bridge_lineage (c : ConfVal → ℕ) (ok : DsrNode → Bool → DsrPkt → OptPtr → Prop)
    (hok : ok { routeNode (detourHost 2) bridgeOps with confvals := c } false
      (routePkt detourData (detourHost 3)) ⟨1, 4⟩) :
    Lineage ok false 1 [(detourHost 2, 1)] (routePkt bridgeData (detourHost 4)) ⟨1, 4⟩ := by
  have hsent : Lineage ok false 0 [] (routePkt detourData (detourHost 3)) ⟨1, 4⟩ :=
    .sent (by decide +kernel) (by decide +kernel)
  have hpos : salvagePos (routePkt detourData (detourHost 3)) ⟨1, 4⟩ (detourHost 2) = 1 := by decide +kernel
  have hview : (salvageOf (routeNode (detourHost 2) bridgeOps) (routePkt detourData (detourHost 3))).bind routeView =
      routeView (routePkt bridgeData (detourHost 4)) := by decide +kernel
  have hne : detourHost 2 ≠ (routePkt detourData (detourHost 3)).dst := by decide +kernel
  have hrun : lcRun bridgeOps lcInit = some (routeNode (detourHost 2) bridgeOps).lc := rfl
  have hl := salvageOf_lineage bridgeOps bridgeData (detourHost 4) ⟨1, 4⟩ hsent hok
    (by simp [bridgeOps, LcOp.unit]) hrun (fun _ => List.not_mem_nil)
    ⟨by decide +kernel, by decide +kernel, by decide +kernel⟩ hne hview
    (by decide +kernel)
  change Lineage ok false 1 [(detourHost 2, salvagePos _ _ (detourHost 2))] _ _ at hl
  rwa [hpos] at hl

def rerrTo (s : DsrNode) (dp : DsrPkt) (unreach : InAddr) : List InAddr :=
  match dsrRerrSend xmitLog dp unreach s with
  | .ok _ s' => (s'.out.drop s.out.length).filterMap fun e =>
      match e with
      | .xmit .rerrSend d _ => some d.dst
      | _ => none
  | .error _ _ => []

theorem rerr_salvager_second : RerrRight [(detourHost 2, 2)] (routePkt secondLater (detourHost 4)) ⟨1, 4⟩ := by
  have hsent : Lineage (fun _ _ _ _ => True) false 0 [] (routePkt secondData (detourHost 3)) ⟨1, 4⟩ :=
    .sent (by decide +kernel) (by decide +kernel)
  have hpos : salvagePos (routePkt secondData (detourHost 3)) ⟨1, 4⟩ (detourHost 2) = 2 := by decide +kernel
  have hl := @salvageOf_lineage _ detourNode _ _ _ _ _ _ (detourOps ++ [.linkDel (detourHost 2) (detourHost 3)])
    secondLater (detourHost 4) ⟨1, 4⟩ hsent trivial (by simp [detourOps, LcOp.unit]) rfl (fun _ => List.not_mem_nil)
    ⟨by decide +kernel, by decide +kernel, by decide +kernel⟩ (by decide +kernel) (by decide +kernel)
    (by decide +kernel)
  change Lineage _ false 1 [(detourHost 2, salvagePos _ _ (detourHost 2))] _ _ at hl
  rw [hpos] at hl
  refine (rerr_salvager_iff hl).2.mpr ⟨by decide +kernel, ?_⟩
  intro r hr
  cases hr
  rfl

theorem rerr_salvager_missed : ∃ n l dp p, Lineage (fun _ _ _ _ => True) false n l dp p ∧
    l.map Prod.fst = [detourHost 2] ∧ ¬ RerrRight l dp p ∧
    rerrTo (routeNode (detourHost 6) bridgeOps) dp (detourHost 4) = [detourHost 5] := by
  refine ⟨1, [(detourHost 2, 1)], routePkt bridgeData (detourHost 4), ⟨1, 4⟩, bridge_lineage confvalsDef _ trivial, rfl, ?_,
    by decide +kernel⟩
  intro hr
  exact absurd hr.dst (by decide +kernel)

def SalvageAllowed (k : ℕ) (s : DsrNode) (again : Bool) (dp : DsrPkt) (p : OptPtr) : Prop :=
  s.confvals .maxSalvageCount = k ∧ again = false ∧ srtOptSalv dp p < k

structure SalvageCount (k : ℕ) (again : Bool) (n : ℕ) (l : List (InAddr × ℕ)) (dp : DsrPkt) (p : OptPtr) :
    Prop where
  le : l.length ≤ k
  salv : srtOptSalv dp p = n
  once : l.length = if again then n + 1 else n

theorem Lineage.salvageCount {k : ℕ} (hk : k ≤ 15) {again : Bool} {n : ℕ} {l : List (InAddr × ℕ)} {dp : DsrPkt}
    {p : OptPtr} (h : Lineage (SalvageAllowed k) again n l dp p) : SalvageCount k again n l dp p := by
  induction h with
  | sent _ hs => exact ⟨Nat.zero_le _, hs, rfl⟩
  | carried _ hc ih => exact ⟨ih.le, hc.salv.trans ih.salv, ih.once⟩
  | salvaged _ hok hst hq ih =>
    obtain ⟨-, rfl, hlt⟩ := hok
    have hsalv := (hst.wrote hq).salv
    have honce := ih.once
    rw [ih.salv] at hsalv hlt
    rw [if_neg Bool.false_ne_true] at honce
    refine ⟨?_, ?_, ?_⟩
    · rw [List.length_append, List.length_singleton]
      omega
    · omega
    · rw [if_neg Bool.false_ne_true, List.length_append, List.length_singleton, honce]
  | kept _ hok _ _ hc ih =>
    obtain ⟨-, rfl, hlt⟩ := hok
    have honce := ih.once
    rw [ih.salv] at hlt
    rw [if_neg Bool.false_ne_true] at honce
    refine ⟨?_, hc.salv.trans ih.salv, ?_⟩
    · rw [List.length_append, List.length_singleton]
      omega
    · rw [if_pos rfl, List.length_append, List.length_singleton, honce]

theorem salvages_bounded {k : ℕ} (hk : k ≤ 15) {again : Bool} {n : ℕ} {l : List (InAddr × ℕ)} {dp : DsrPkt}
    {p : OptPtr} (h : Lineage (SalvageAllowed k) again n l dp p) :
    l.length ≤ k ∧ (again = false → srtOptSalv dp p = l.length) := by
  have hc := h.salvageCount hk
  refine ⟨hc.le, ?_⟩
  rintro rfl
  rw [hc.salv, hc.once, if_neg Bool.false_ne_true]

theorem salvages_bounded_once : [(detourHost 2, 1)].length ≤ 15 ∧
    srtOptSalv (routePkt bridgeData (detourHost 4)) ⟨1, 4⟩ = [(detourHost 2, 1)].length := by
  obtain ⟨hle, hsalv⟩ := salvages_bounded (le_refl 15)
    (bridge_lineage confvalsDef (SalvageAllowed 15) ⟨rfl, rfl, by decide +kernel⟩)
  exact ⟨hle, hsalv rfl⟩

def onceOnly (c : ConfVal) : ℕ := if c = .maxSalvageCount then 1 else confvalsDef c

def againOps : List LcOp :=
  [.linkAdd ⟨0, 0⟩ (detourHost 6) (detourHost 4) 0 0 1, .linkAdd ⟨0, 0⟩ (detourHost 6) (detourHost 7) 0 0 1,
    .linkAdd ⟨0, 0⟩ (detourHost 7) (detourHost 4) 0 0 1, .linkDel (detourHost 6) (detourHost 4)]

def againData : List UInt8 :=
  [17, 0, 0, 20, 96, 18, 128, 4, 10, 0, 0, 2, 10, 0, 0, 5, 10, 0, 0, 6, 10, 0, 0, 7, 255]

theorem salvages_unbounded : ∃ n l dp p, Lineage (fun s _ _ _ => s.confvals .maxSalvageCount = 1) false n l dp p ∧
    l.map Prod.fst = [detourHost 2, detourHost 6] ∧ ¬ l.length ≤ 1 := by
  have hview : (salvageOf (routeNode (detourHost 6) againOps) (routePkt bridgeData (detourHost 4))).bind routeView =
      routeView (routePkt againData (detourHost 4)) := by decide +kernel
  have hne : detourHost 6 ≠ (routePkt bridgeData (detourHost 4)).dst := by decide +kernel
  have hrun : lcRun againOps lcInit = some (routeNode (detourHost 6) againOps).lc := rfl
  have hl := @salvageOf_lineage (fun s _ _ _ => s.confvals .maxSalvageCount = 1)
    { routeNode (detourHost 6) againOps with confvals := onceOnly } _ _ _ _ _ _
    againOps againData (detourHost 4) ⟨1, 4⟩ (bridge_lineage onceOnly _ rfl) rfl (by simp [againOps, LcOp.unit])
    hrun (fun _ => List.not_mem_nil) ⟨by decide +kernel, by decide +kernel, by decide +kernel⟩
    hne hview (by decide +kernel)
  exact ⟨2, _, _, _, hl, rfl, by decide⟩

end DsrUu
