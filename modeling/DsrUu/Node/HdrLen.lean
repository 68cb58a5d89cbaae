import DsrUu.Node.Handed
import DsrUu.Node.RerrSend

namespace DsrUu

open Bytes Effect

def dsrOptsMaxSize : ℕ := 50

structure OptsOf (n : ℕ) (dp : DsrPkt) : Prop where
  dh : ∃ raw, dp.dh = some { raw := raw, tail := n }

namespace OptsOf

variable {n : ℕ} {dp dp' : DsrPkt}

theorem optsLen (h : OptsOf n dp) : dp.optsLen = n := by
  obtain ⟨raw, hdh⟩ := h.dh
  exact optsLen_dh hdh

theorem of_dh {dp : DsrPkt} (h : OptsOf n dp) {dp' : DsrPkt} (hdh : dp'.dh = dp.dh) : OptsOf n dp' := by
  obtain ⟨raw, hraw⟩ := h.dh
  exact ⟨raw, hdh.trans hraw⟩

theorem alloc (mem : ℕ → UInt8) (dp : DsrPkt) (n : ℕ) : OptsOf n (dsrPktAllocOpts mem dp n) :=
  ⟨_, rfl⟩

theorem write (h : OptsOf n dp) (off : ℕ) (xs : List UInt8) : OptsOf n (dp.write off xs) := by
  obtain ⟨raw, hraw⟩ := h.dh
  rw [write_dh hraw]
  exact ⟨_, rfl⟩

theorem writeField (h : OptsOf n dp) (p : OptPtr) (i : ℕ) (xs : List UInt8) :
    OptsOf n (dp.writeField p i xs) := by
  unfold DsrPkt.writeField
  split
  · exact h.write _ _
  · exact h

theorem buildIp (h : OptsOf n dp) (src dst : InAddr) (tot prot ttl : ℕ) :
    OptsOf n (dsrBuildIp dp src dst tot prot ttl) := h.of_dh rfl

theorem writeOpts (os : List (List UInt8)) : ∀ {dp : DsrPkt} {off : ℕ}, OptsOf n dp →
    OptsOf n (writeOpts dp off os) := by
  induction os with
  | nil => exact fun h => h
  | cons o os ih => exact fun h => ih (h.write _ o)

theorem setDaddr (h : OptsOf n dp) (a : InAddr) : OptsOf n (dp.setDaddr a) := by
  refine h.of_dh ?_
  unfold DsrPkt.setDaddr
  split <;> rfl

theorem expand (h : OptsOf n dp) (mem : ℕ → UInt8) (len : ℕ) :
    ∃ dp₁, dsrPktAllocOptsExpand mem dp len = some (dp₁, n) ∧ OptsOf (n + len) dp₁ := by
  obtain ⟨raw, hraw⟩ := h.dh
  unfold dsrPktAllocOptsExpand
  rw [hraw]
  dsimp only
  split
  · exact ⟨_, rfl, ⟨_, rfl⟩⟩
  · exact ⟨_, rfl, (alloc mem dp (n + len)).write _ _⟩

theorem hdrAdd {len prot : ℕ} (h : OptsOf n dp) (ha : dsrOptHdrAdd dp len prot = some dp') :
    OptsOf n dp' := by
  unfold dsrOptHdrAdd at ha
  split at ha
  · cases ha
  · cases ha
    exact h.write _ _

theorem srtOptAdd {off len salv : ℕ} {srt : DsrSrt} (h : OptsOf n dp)
    (ha : dsrSrtOptAdd dp off len salv srt = some dp') : OptsOf n dp' := by
  unfold dsrSrtOptAdd at ha
  split at ha
  · cases ha
  · cases ha
    exact h.write _ _

theorem rreqForward (h : OptsOf n dp) (mem : ℕ → UInt8) (me : InAddr) (p : OptPtr) :
    OptsOf (n + 4) (rreqForward mem me dp p) := by
  obtain ⟨dp₁, he, hx⟩ := h.expand mem 4
  unfold DsrUu.rreqForward
  rw [he, Option.map_some, Option.getD_some]
  have hmove : OptsOf (n + 4) (if dsrLastOpt dp₁ p then dp₁
      else dp₁.writeField p (dp₁.optLength p + 6) (dp₁.fieldsAt p (dp₁.optLength p + 2) 4)) := by
    split
    · exact hx
    · exact hx.writeField _ _ _
  exact (((hmove.writeField _ _ _).writeField _ _ _).write _ _).of_dh rfl

theorem ackReqOptAdd (h : OptsOf n dp) (hn : dsrOptHdrLen ≤ n) (mem : ℕ → UInt8) (id : ℕ) :
    OptsOf (n + if dp.ackReqOpt = none then dsrAckReqHdrLen else 0) (dsrAckReqOptAdd mem dp id) := by
  unfold dsrAckReqOptAdd
  cases dp.ackReqOpt with
  | some p => exact h.writeField _ _ _
  | none =>
    obtain ⟨dp₁, he, hx⟩ := h.expand mem dsrAckReqHdrLen
    have hne : dp.optsLen ≠ 0 := by
      rw [h.optsLen]
      unfold dsrOptHdrLen at hn
      omega
    dsimp only
    rw [if_neg hne, he, if_pos rfl]
    exact ((hx.buildIp _ _ _ _ _).write _ _).write _ _

end OptsOf

section Built

variable {mem : ℕ → UInt8} {me : InAddr} {dp : DsrPkt}

theorem rreqPkt_opts {target : InAddr} {ttl seqno : ℕ}
    (h : rreqPkt mem me target ttl seqno = some dp) : OptsOf (dsrOptHdrLen + dsrRreqHdrLen) dp := by
  unfold rreqPkt at h
  obtain ⟨dp₁, h₁, h⟩ := Option.bind_eq_some_iff.mp h
  obtain ⟨dp₂, h₂, rfl⟩ := Option.map_eq_some_iff.mp h
  have hb := ((OptsOf.alloc mem _ _).buildIp _ _ _ _ _).hdrAdd h₁
  refine OptsOf.of_dh (?_ : OptsOf _ dp₂) rfl
  unfold dsrRreqOptAdd at h₂
  split at h₂
  · cases h₂
  · cases h₂
    exact hb.write _ _

theorem ackPkt_opts {dst : InAddr} {id : ℕ} (h : ackPkt mem me dst id = some dp) :
    OptsOf (dsrOptHdrLen + dsrAckHdrLen) dp := by
  unfold ackPkt at h
  obtain ⟨dp₁, h₁, h⟩ := Option.bind_eq_some_iff.mp h
  obtain ⟨dp₂, h₂, rfl⟩ := Option.map_eq_some_iff.mp h
  have hb := ((OptsOf.alloc mem _ _).buildIp _ _ _ _ _).hdrAdd h₁
  refine OptsOf.of_dh (?_ : OptsOf _ dp₂) rfl
  unfold dsrAckOptAdd at h₂
  split at h₂
  · cases h₂
  · cases h₂
    exact hb.write _ _

theorem ackReqPkt_opts {neigh : InAddr} {id : ℕ} (h : ackReqPkt mem me neigh id = some dp) :
    OptsOf (dsrOptHdrLen + dsrAckReqHdrLen) dp := by
  unfold ackReqPkt at h
  obtain ⟨dp₁, h₁, h₂⟩ := Option.bind_eq_some_iff.mp h
  have hb := ((OptsOf.alloc mem _ _).buildIp _ _ _ _ _).hdrAdd h₁
  unfold dsrAckReqOptCreate at h₂
  split at h₂
  · cases h₂
  · cases h₂
    exact hb.write _ _

theorem rrepPkt_opts {srt srtToMe : DsrSrt} (h : rrepPkt mem me srt srtToMe = some dp) :
    OptsOf (dsrOptHdrLen + dsrSrtOptLen srt + dsrRrepOptLen srtToMe) dp := by
  unfold rrepPkt at h
  obtain ⟨dp₁, h₁, h⟩ := Option.bind_eq_some_iff.mp h
  obtain ⟨dp₂, h₂, h⟩ := Option.bind_eq_some_iff.mp h
  obtain ⟨dp₃, h₃, rfl⟩ := Option.map_eq_some_iff.mp h
  have hb := (((OptsOf.alloc mem _ _).buildIp _ _ _ _ _).hdrAdd h₁).srtOptAdd h₂
  refine OptsOf.of_dh (?_ : OptsOf _ dp₃) rfl
  unfold dsrRrepOptAdd at h₃
  split at h₃
  · cases h₃
  · cases h₃
    exact ((hb.write _ _).write _ _).write _ _

theorem rerrPkt_opts {dst unreach : InAddr} {maxSalvage salv : ℕ} {srt : DsrSrt}
    {trigg : DsrPkt} (h : rerrPkt mem me dst unreach maxSalvage srt trigg salv = some dp) :
    OptsOf (rerrSendLen maxSalvage srt trigg) dp := by
  unfold rerrPkt at h
  obtain ⟨dp₁, h₁, h⟩ := Option.bind_eq_some_iff.mp h
  obtain ⟨dp₂, h₂, h⟩ := Option.bind_eq_some_iff.mp h
  obtain ⟨dp₃, h₃, rfl⟩ := Option.map_eq_some_iff.mp h
  have hb := ((OptsOf.alloc mem _ _).hdrAdd h₁).srtOptAdd h₂
  refine OptsOf.writeOpts _ (OptsOf.of_dh (?_ : OptsOf _ dp₃) rfl)
  unfold dsrRerrOptAdd at h₃
  split at h₃
  · cases h₃
  · cases h₃
    exact hb.write _ _

theorem dsrSrtAdd_opts {srt : DsrSrt} {dp' : DsrPkt} (hs : dp.srt = some srt)
    (h : dsrSrtAdd mem dp = some dp') : OptsOf (dsrOptHdrLen + dsrSrtOptLen srt) dp' := by
  unfold dsrSrtAdd at h
  rw [hs] at h
  obtain ⟨dp₁, h₁, h⟩ := Option.bind_eq_some_iff.mp h
  obtain ⟨dp₂, h₂, rfl⟩ := Option.map_eq_some_iff.mp h
  have hb := (((OptsOf.alloc mem _ _).buildIp _ _ _ _ _).hdrAdd h₁).srtOptAdd h₂
  exact hb.of_dh rfl

end Built

def salvageLen (dp : DsrPkt) (p : OptPtr) (srt : DsrSrt) : ℕ :=
  if dp.optLength p + 2 = dsrSrtOptLen srt then dp.optsLen
  else dp.optsLen - (dp.optLength p + 2) + dsrSrtOptLen srt

theorem salvageRealloc_opts (mem : ℕ → UInt8) (dp : DsrPkt) (p : OptPtr) (oldLen salv : ℕ)
    (srt : DsrSrt) : OptsOf (dp.optsLen - oldLen + dsrSrtOptLen srt)
      (salvageRealloc mem dp p oldLen salv srt) := by
  obtain ⟨n, hn⟩ : ∃ n, n = dp.optsLen - oldLen + dsrSrtOptLen srt := ⟨_, rfl⟩
  have hb := (((OptsOf.alloc mem dp n).write 0 (dp.bytesAt 0 p.off)).write p.off
    (srtOptBytes (salv + 1) srt)).write (p.off + dsrSrtOptLen srt)
      (dp.bytesAt (p.off + oldLen) (dp.optsLen - (p.off + oldLen)))
  unfold salvageRealloc
  dsimp only
  rw [← hn]
  obtain ⟨raw, hraw⟩ := (hb.write 2 (toBe16 ((n - dsrOptHdrLen) % 65536))).dh
  exact ⟨raw, hraw⟩

theorem salvageRewrite_opts {mem : ℕ → UInt8} {n : ℕ} {dp : DsrPkt} (h : OptsOf n dp) (p : OptPtr)
    (srt : DsrSrt) : OptsOf (salvageLen dp p srt) (salvageRewrite mem dp p srt) := by
  unfold salvageRewrite salvageLen
  dsimp only
  split
  · rw [h.optsLen]
    exact (h.writeField _ _ _).of_dh rfl
  · exact salvageRealloc_opts _ _ _ _ _ _

theorem salvagePkt_opts {mem : ℕ → UInt8} {n : ℕ} {me : InAddr} {alt : DsrSrt} {dp dp' : DsrPkt}
    (hn : OptsOf n dp) (h : salvagePkt mem me alt dp = some dp') :
    ∃ p srt sleft, dp.srtOpt = some p ∧
      salvageSrt mem me alt (oldSrt mem dp p) dp.nxtHop = some (srt, sleft) ∧
      OptsOf (salvageLen dp p srt) dp' := by
  obtain ⟨p, srt, sleft, hp, hsal, dp₁, dp₂, q, a, h₁, -, h₂, rfl⟩ := salvagePkt_eq h
  refine ⟨p, srt, sleft, hp, hsal, OptsOf.of_dh (?_ : OptsOf _ dp₂) rfl⟩
  rw [h₂, h₁]
  exact (salvageRewrite_opts hn p srt).writeField _ _ _

inductive EditedBy (dp₀ : DsrPkt) : ℕ → DsrPkt → Prop
  | refl : EditedBy dp₀ 0 dp₀
  | note {k : ℕ} {dp dp' : DsrPkt} : EditedBy dp₀ k dp → dp'.core = dp.core → EditedBy dp₀ k dp'
  | setDaddr {k : ℕ} {dp : DsrPkt} (a : InAddr) : EditedBy dp₀ k dp → EditedBy dp₀ k (dp.setDaddr a)
  | setSleft {k : ℕ} {dp : DsrPkt} (p : OptPtr) (sleft : ℕ) : EditedBy dp₀ k dp →
      EditedBy dp₀ k (srtOptSetSleft dp p sleft)
  | rreqAppend {k : ℕ} {dp : DsrPkt} (mem : ℕ → UInt8) (me : InAddr) (p : OptPtr) :
      EditedBy dp₀ k dp → EditedBy dp₀ (k + 1) (rreqForward mem me dp p)

theorem EditedBy.opts {dp₀ dp : DsrPkt} {n k : ℕ} (h₀ : OptsOf n dp₀) (h : EditedBy dp₀ k dp) :
    OptsOf (n + 4 * k) dp := by
  induction h with
  | refl => exact h₀
  | note _ hc ih => exact ih.of_dh (core_dh hc)
  | setDaddr a _ ih => exact ih.setDaddr a
  | setSleft p sleft _ ih => exact ih.writeField _ _ _
  | rreqAppend mem me p _ ih => exact ih.rreqForward mem me p

inductive HdrLen : XmitSite → ℕ → DsrPkt → Prop
  | rreqSend {mem : ℕ → UInt8} {me target : InAddr} {ttl seqno : ℕ} {dp : DsrPkt} :
      rreqPkt mem me target ttl seqno = some dp →
      HdrLen .rreqSend (dsrOptHdrLen + dsrRreqHdrLen) dp
  | rrepSend {mem : ℕ → UInt8} {me : InAddr} {srt srtToMe : DsrSrt} {dp : DsrPkt} :
      rrepPkt mem me srt srtToMe = some dp →
      HdrLen .rrepSend (dsrOptHdrLen + dsrSrtOptLen srt + dsrRrepOptLen srtToMe) dp
  | rerrSend {mem : ℕ → UInt8} {me dst unreach : InAddr} {maxSalvage salv : ℕ} {srt : DsrSrt}
      {trigg dp : DsrPkt} : rerrPkt mem me dst unreach maxSalvage srt trigg salv = some dp →
      HdrLen .rerrSend (rerrSendLen maxSalvage srt trigg) dp
  | ackSend {mem : ℕ → UInt8} {me dst : InAddr} {id : ℕ} {dp : DsrPkt} :
      ackPkt mem me dst id = some dp → HdrLen .ackSend (dsrOptHdrLen + dsrAckHdrLen) dp
  | ackReqSend {mem : ℕ → UInt8} {me neigh : InAddr} {id : ℕ} {dp : DsrPkt} :
      ackReqPkt mem me neigh id = some dp → HdrLen .ackReqSend (dsrOptHdrLen + dsrAckReqHdrLen) dp
  | originate {site : XmitSite} {mem : ℕ → UInt8} {f : SrtFind} {lc lc' : LcGraph} {srt : DsrSrt}
      {dp dp' : DsrPkt} : (site = .startXmit ∨ site = .sendBuf) →
      lcSrtFind (srtFlags mem) dp.src dp.dst lc = some (f, lc') → f.srt = some srt →
      dsrSrtAdd mem { dp with srt := some srt } = some dp' →
      HdrLen site (dsrOptHdrLen + dsrSrtOptLen srt) dp'
  | forward {site : XmitSite} {mem : ℕ → UInt8} {skb : Skb} {promisc : Bool} {k : ℕ} {dp : DsrPkt} :
      (site = .forward ∨ site = .forwardRreq) → skb.iph.protocol = ipprotoDsr →
      EditedBy { dsrPktAlloc mem skb with promiscRecv := promisc } k dp →
      HdrLen site (dsrOptsLenOf skb + 4 * k) dp
  | salvage {mem mem' : ℕ → UInt8} {me h : InAddr} {alt srt : DsrSrt} {skb : Skb} {p : OptPtr}
      {sleft : ℕ} {m dp : DsrPkt} : m = { dsrPktAlloc mem skb with nxtHop := h } →
      m.srtOpt = some p → salvageSrt mem' me alt (oldSrt mem' m p) h = some (srt, sleft) →
      salvagePkt mem' me alt m = some dp → HdrLen .salvage (salvageLen m p srt) dp

theorem HdrLen.opts {site : XmitSite} {n : ℕ} {dp : DsrPkt} (h : HdrLen site n dp) :
    OptsOf n dp ∧ dsrOptHdrLen ≤ n := by
  cases h with
  | rreqSend h => exact ⟨rreqPkt_opts h, Nat.le_add_right _ _⟩
  | rrepSend h =>
    refine ⟨rrepPkt_opts h, ?_⟩
    rw [Nat.add_assoc]
    exact Nat.le_add_right _ _
  | rerrSend h =>
    refine ⟨rerrPkt_opts h, ?_⟩
    unfold rerrSendLen
    omega
  | ackSend h => exact ⟨ackPkt_opts h, Nat.le_add_right _ _⟩
  | ackReqSend h => exact ⟨ackReqPkt_opts h, Nat.le_add_right _ _⟩
  | originate _ _ _ h => exact ⟨dsrSrtAdd_opts rfl h, Nat.le_add_right _ _⟩
  | @forward _ mem skb promisc k _ _ hproto h =>
    have h₀ : OptsOf (dsrOptsLenOf skb) { dsrPktAlloc mem skb with promiscRecv := promisc } :=
      ⟨_, (dsrPktAlloc_dsr mem hproto).dh⟩
    exact ⟨h.opts h₀, Nat.le_trans (Nat.le_add_left 4 _) (Nat.le_add_right _ _)⟩
  | @salvage mem mem' me h alt srt skb p sleft m _ hm hp hsal hs =>
    have hproto : skb.iph.protocol = ipprotoDsr := by
      rw [hm] at hp
      exact dsrPktAlloc_srtOpt hp
    have ha : AllocOk mem skb m := by
      rw [hm]
      exact (dsrPktAlloc_dsr mem hproto).with_nxtHop h
    have hopts : OptsOf (dsrOptsLenOf skb) m := ⟨_, ha.dh⟩
    have hnh : m.nxtHop = h := by rw [hm]
    obtain ⟨p', srt', sleft', hp', hsal', hdp⟩ := salvagePkt_opts hopts hs
    obtain rfl := Option.some_inj.mp (hp.symm.trans hp')
    rw [hnh, hsal, Option.some_inj, Prod.mk.injEq] at hsal'
    rw [hsal'.1]
    refine ⟨hdp, ?_⟩
    have hlen : 4 ≤ dsrOptsLenOf skb := Nat.le_add_left _ _
    unfold salvageLen dsrSrtOptLen dsrSrtHdrLen dsrOptHdrLen
    rw [hopts.optsLen]
    split <;> omega

def ackReqLen (dp : DsrPkt) (due : Bool) : ℕ :=
  if dp.requestAck = true ∧ due = true ∧ dp.ackReqOpt = none then dsrAckReqHdrLen else 0

theorem Sent.opts {s₀ s : DsrNode} {site : XmitSite} {n : ℕ} {dp dp' : DsrPkt}
    (h : Sent s₀ s site dp dp') (hdp : OptsOf n dp) (hn : dsrOptHdrLen ≤ n) :
    OptsOf (n + ackReqLen dp (ackDue s₀ dp)) dp' := by
  obtain ⟨b, -, hcase⟩ := h.block
  rcases hcase with ⟨rfl, hdue⟩ | ⟨hack, hdue, id, -, rfl⟩
  · have hz : ackReqLen dp' (ackDue s₀ dp') = 0 := by
      refine if_neg fun hc => ?_
      rw [hdue hc.1] at hc
      exact absurd hc.2.1 (by decide)
    rw [hz]
    exact hdp
  · have hadd := hdp.ackReqOptAdd hn s.kmem id
    simpa [ackReqLen, hack, hdue] using hadd

def HdrLenSent (out : List Event) : Event → Prop
  | .xmit site dp _ => ∃ n, HdrLen site n dp
  | .send site f => ∃ n dp due dp', .xmit site dp due ∈ out ∧ HdrLen site n dp ∧
      f.skb = dsrSkbCreate dp' ∧ OptsOf (n + ackReqLen dp due) dp'
  | _ => True

theorem HdrLenSent.mono {out out' : List Event} {e : Event} (h : HdrLenSent out e)
    (hout : ∀ e ∈ out, e ∈ out') : HdrLenSent out' e := by
  cases e with
  | send site f =>
    obtain ⟨n, dp, due, dp', hx, hn, hf, hdp⟩ := h
    exact ⟨n, dp, due, dp', hout _ hx, hn, hf, hdp⟩
  | xmit site dp due => exact h
  | deliver dp => trivial
  | icmp dp => trivial
  | ackReq nxtHop id => trivial
  | discovery dst status => trivial
  | maint now e => trivial
  | sendBuf e => trivial

def AllocEntry (m : MaintEntry) : Prop :=
  ∃ mem skb, m.dp = { dsrPktAlloc mem skb with nxtHop := m.nxtHop }

structure HdrLenInv (s : DsrNode) : Prop where
  out : ∀ e ∈ s.out, HdrLenSent s.out e
  maintBuf : ∀ m ∈ s.maintBuf.head, AllocEntry m

theorem HdrLenInv.emit {s : DsrNode} (h : HdrLenInv s) {e : Event}
    (he : HdrLenSent s.out e) : HdrLenInv { s with out := s.out ++ [e] } := by
  have hmono : ∀ x ∈ s.out, x ∈ s.out ++ [e] := fun x hx => List.mem_append_left _ hx
  refine ⟨fun x hx => ?_, h.maintBuf⟩
  rcases List.mem_append.mp hx with hx | hx
  · exact (h.out x hx).mono hmono
  · rw [List.mem_singleton.mp hx]
    exact he.mono hmono

def GrownRecv (dp : DsrPkt) : Prop :=
  ∃ mem skb promisc k, skb.iph.protocol = ipprotoDsr ∧
    EditedBy { dsrPktAlloc mem skb with promiscRecv := promisc } k dp

theorem hdrLen_recvClosed : RecvClosed HdrLenInv (fun _ m => AllocEntry m)
    (fun _ site dp => ∃ n, HdrLen site n dp) (fun _ => True) GrownRecv where
  held _ _ h := ⟨h.out, h.maintBuf⟩
  lc _ _ _ _ _ h := ⟨h.out, h.maintBuf⟩
  neighTbl _ _ h := ⟨h.out, h.maintBuf⟩
  gratRrepTbl _ _ h := ⟨h.out, h.maintBuf⟩
  gratTimer _ _ h := ⟨h.out, h.maintBuf⟩
  ackTimer _ _ h := ⟨h.out, h.maintBuf⟩
  carry _ _ _ hm _ := hm
  retime _ _ _ _ _ hm := hm
  entries _ h := h.maintBuf
  maintBuf _ _ h ht := ⟨h.out, ht⟩
  ackReqSend _ _ _ _ _ _ hp := ⟨_, .ackReqSend hp⟩
  rerrSend _ _ _ _ _ _ _ _ _ _ _ _ _ hp := ⟨_, .rerrSend hp⟩
  salvage _ m _ _ _ _ _ hm _ _ hp _ := by
    obtain ⟨mem, skb, hdp⟩ := hm
    obtain ⟨p, srt, sleft, hsrt, hsal, -⟩ := salvagePkt_eq hp
    rw [show m.dp.nxtHop = m.nxtHop by rw [hdp]] at hsal
    exact ⟨_, .salvage hdp hsrt hsal hp⟩
  emitXmit _ _ _ h hp := h.emit hp
  emitMaint _ _ h := h.emit trivial
  emitAckReq _ _ _ h := h.emit trivial
  newEntry _ s _ _ skb _ _ _ _ _ _ hnh hdp _ := ⟨s.kmem, skb, by rw [hdp, hnh]⟩
  emitSend _ _ _ dp dp' _ hp _ h hsent := by
    obtain ⟨n, hn⟩ := hp
    obtain ⟨hopts, hle⟩ := hn.opts
    obtain ⟨b, hb, -⟩ := hsent.block
    refine h.emit ⟨n, dp, _, dp', ?_, hn, rfl, hsent.opts hopts hle⟩
    rw [hb]
    exact List.mem_append_right _ List.mem_cons_self
  rreqTbl _ _ h := ⟨h.out, h.maintBuf⟩
  rreqBrk _ _ h := ⟨h.out, h.maintBuf⟩
  rreqSeqno _ _ h := ⟨h.out, h.maintBuf⟩
  sendBufTimer _ _ h := ⟨h.out, h.maintBuf⟩
  waiting _ _ _ _ := trivial
  sendBuf _ _ h _ := ⟨h.out, h.maintBuf⟩
  emitDeliver _ _ h := h.emit trivial
  emitIcmp _ _ h := h.emit trivial
  emitDiscovery _ _ _ h := h.emit trivial
  emitSendBuf _ _ h := h.emit trivial
  rreqSend _ _ _ _ _ _ hp := ⟨_, .rreqSend hp⟩
  srtAdd _ _ _ _ _ _ _ hsite _ _ hf hsrt hp := ⟨_, .originate hsite hf hsrt hp⟩
  rrepSend _ _ _ _ _ hp := ⟨_, .rrepSend hp⟩
  ackSend _ _ _ _ _ hp := ⟨_, .ackSend hp⟩
  forward _ _ _ hQ := by
    obtain ⟨mem, skb, promisc, k, hproto, he⟩ := hQ
    exact ⟨_, .forward (Or.inl rfl) hproto he⟩
  forwardRreq _ _ _ hQ := by
    obtain ⟨mem, skb, promisc, k, hproto, he⟩ := hQ
    exact ⟨_, .forward (Or.inr rfl) hproto he⟩
  notes _ _ hc _ hQ := by
    obtain ⟨mem, skb, promisc, k, hproto, he⟩ := hQ
    exact ⟨mem, skb, promisc, k, hproto, he.note hc⟩
  setDaddr _ a hQ := by
    obtain ⟨mem, skb, promisc, k, hproto, he⟩ := hQ
    exact ⟨mem, skb, promisc, k, hproto, he.setDaddr a⟩
  setSleft _ p sleft _ hQ := by
    obtain ⟨mem, skb, promisc, k, hproto, he⟩ := hQ
    exact ⟨mem, skb, promisc, k, hproto, he.setSleft p sleft⟩
  rreqAppend mem' me _ p _ _ hQ := by
    obtain ⟨mem, skb, promisc, k, hproto, he⟩ := hQ
    exact ⟨mem, skb, promisc, k + 1, hproto, he.rreqAppend mem' me p⟩

theorem hdrLen_environmental : Environmental HdrLenInv where
  init _ _ _ _ _ _ _ := ⟨fun _ he => absurd he List.not_mem_nil,
    fun _ hm => absurd hm List.not_mem_nil⟩
  env _ _ _ _ _ _ h := ⟨h.out, h.maintBuf⟩

def anyInput (_ : DsrNode) (_ : Input) : Prop := True

theorem anyInput_admits (s : DsrNode) (i : Input) : Admits (fun _ => True) GrownRecv s i := by
  cases i with
  | recv promisc skb => exact fun hproto _ => ⟨s.kmem, skb, promisc, 0, hproto, .refl⟩
  | startXmit skb => trivial
  | _ => trivial

theorem nodeReach_reserved_iff {s : DsrNode} (h : NodeReach anyInput s) :
    (∀ site dp due, .xmit site dp due ∈ s.out →
      ∃ n, HdrLen site n dp ∧ (dp.optsLen ≤ dsrOptsMaxSize ↔ n ≤ dsrOptsMaxSize)) ∧
    (∀ site f, .send site f ∈ s.out → ∃ n dp due dp', .xmit site dp due ∈ s.out ∧
      HdrLen site n dp ∧ f.skb = dsrSkbCreate dp' ∧
      (dp'.optsLen ≤ dsrOptsMaxSize ↔ n + ackReqLen dp due ≤ dsrOptsMaxSize)) := by
  have hinv := hdrLen_recvClosed.reach hdrLen_environmental (fun s i _ => anyInput_admits s i) h
  refine ⟨fun site dp due he => ?_, fun site f he => ?_⟩
  · obtain ⟨n, hn⟩ := hinv.out _ he
    refine ⟨n, hn, ?_⟩
    rw [hn.opts.1.optsLen]
  · obtain ⟨n, dp, due, dp', hx, hn, hf, hdp⟩ := hinv.out _ he
    refine ⟨n, dp, due, dp', hx, hn, hf, ?_⟩
    rw [hdp.optsLen]

def longRoute : List InAddr := (List.range 12).map fun i => detourHost (UInt8.ofNat (i + 2))

def longReply : Skb :=
  { hSource := 2
    iph := { ihl := 5, totLen := 80, ttl := 1, protocol := ipprotoDsr, saddr := detourHost 2
             daddr := detourHost 1 }
    data := [0, 0, 0, 56, 96, 2, 0, 0, 1, 49, 0, 0] ++ encodeAddrs longRoute }

def longSkb : Skb :=
  { hSource := 0
    iph := { ihl := 5, totLen := 21, ttl := 64, protocol := 17, saddr := detourHost 1
             daddr := detourHost 13 }
    data := [7] }

def longInputs : List (Timeval × Input) :=
  [(⟨100, 0⟩, .recv false longReply), (⟨101, 0⟩, .startXmit longSkb)]

def longStart : DsrNode :=
  dsrNodeInit (detourHost 1) confvalsDef true 20 ⟨100, 0⟩ (fun _ => 0) 0

def exceeds : Event → Bool
  | .xmit .startXmit dp _ => dp.optsLen > dsrOptsMaxSize
  | _ => false

instance (s : DsrNode) (i : Input) : Decidable (anyInput s i) := inferInstanceAs (Decidable True)

theorem long_exceeds : ∃ s dp due, drive anyInput longStart longInputs = some s ∧
    .xmit .startXmit dp due ∈ s.out ∧ ¬ dp.optsLen ≤ dsrOptsMaxSize := by
  have hrun : (drive anyInput longStart longInputs).any (fun s => s.out.any exceeds) = true := by
    decide +kernel
  obtain ⟨s, hs, hbad⟩ := (Option.any_eq_true _ _).mp hrun
  obtain ⟨e, he, hb⟩ := List.any_eq_true.mp hbad
  unfold exceeds at hb
  split at hb
  · next dp due => exact ⟨s, dp, due, hs, he, by simpa using hb⟩
  · cases hb

theorem nodeReach_not_reserved : ¬ ∀ s, NodeReach anyInput s → ∀ site dp due,
    .xmit site dp due ∈ s.out → dp.optsLen ≤ dsrOptsMaxSize := by
  intro h
  obtain ⟨s, dp, due, hs, he, hbad⟩ := long_exceeds
  exact hbad (h s (.drive _ (.init _ _ _ _ _ _ _) hs) _ dp due he)

theorem nodeReach_reserved_iff_long : ∃ s dp due, NodeReach anyInput s ∧
    .xmit .startXmit dp due ∈ s.out ∧
    ∃ n, HdrLen .startXmit n dp ∧ (dp.optsLen ≤ dsrOptsMaxSize ↔ n ≤ dsrOptsMaxSize) := by
  obtain ⟨s, dp, due, hs, he, _⟩ := long_exceeds
  have hreach : NodeReach anyInput s := .drive _ (.init _ _ _ _ _ _ _) hs
  exact ⟨s, dp, due, hreach, he, (nodeReach_reserved_iff hreach).1 _ _ _ he⟩

end DsrUu
