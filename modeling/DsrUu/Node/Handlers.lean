import DsrUu.Node.Length

namespace DsrUu

open Bytes Effect

structure Touch (dp : DsrPkt) (p : OptPtr) (dp' : DsrPkt) : Prop where
  gen : dp'.gen = dp.gen
  promisc : dp'.promiscRecv = dp.promiscRecv
  src : dp'.src = dp.src
  dst : dp'.dst = dp.dst
  optsLen : dp'.optsLen = dp.optsLen
  tailroom : dp'.tailroom = dp.tailroom
  isSome : dp'.dh.isSome = dp.dh.isSome
  bytes : ∀ i, (4 ≤ dp.optLength p → i ≠ p.off + 2 ∧ i ≠ p.off + 3) → dp'.byteAt i = dp.byteAt i

theorem Touch.of_core {dp dp' : DsrPkt} (p : OptPtr) (h : dp'.core = dp.core) : Touch dp p dp' := by
  have hdh : dp'.dh = dp.dh := core_dh h
  have hgen := congrArg DsrPkt.gen h
  have hpr := congrArg DsrPkt.promiscRecv h
  have hsrc := congrArg DsrPkt.src h
  have hdst := congrArg DsrPkt.dst h
  refine ⟨hgen, hpr, hsrc, hdst, ?_, ?_, by rw [hdh], fun i _ => ?_⟩
  · unfold DsrPkt.optsLen
    rw [hdh]
  · unfold DsrPkt.tailroom
    rw [hdh]
  · unfold DsrPkt.byteAt
    rw [hdh]

theorem Touch.core_left {dp dp₁ dp' : DsrPkt} {p : OptPtr} (h : Touch dp₁ p dp')
    (hc : dp₁.core = dp.core) : Touch dp p dp' := by
  have h₁ := Touch.of_core p hc
  have hdh : dp₁.dh = dp.dh := core_dh hc
  have hgen : dp₁.gen = dp.gen := h₁.gen
  have hlen : dp₁.optLength p = dp.optLength p := by
    unfold DsrPkt.optLength DsrPkt.fieldAt DsrPkt.live DsrPkt.byteAt
    rw [hdh, hgen]
  refine ⟨h.gen.trans hgen, h.promisc.trans h₁.promisc, h.src.trans h₁.src, h.dst.trans h₁.dst,
    h.optsLen.trans h₁.optsLen, h.tailroom.trans h₁.tailroom, h.isSome.trans h₁.isSome, fun i hi => ?_⟩
  rw [h.bytes i fun hl => hi (hlen ▸ hl)]
  unfold DsrPkt.byteAt
  rw [hdh]

theorem tailroom_write (dp : DsrPkt) (off : ℕ) (xs : List UInt8) :
    (dp.write off xs).tailroom = dp.tailroom := by
  unfold DsrPkt.write
  split
  · rfl
  · next b hb =>
    unfold DsrPkt.tailroom
    rw [hb]
    dsimp only
    rw [length_writeAt]

theorem write_promiscRecv (dp : DsrPkt) (off : ℕ) (xs : List UInt8) :
    (dp.write off xs).promiscRecv = dp.promiscRecv := by
  unfold DsrPkt.write
  split <;> rfl

theorem srtOptSetSleft_touch {dp : DsrPkt} {p : OptPtr} (h : 4 ≤ dp.optLength p) (sleft : ℕ) :
    Touch dp p (srtOptSetSleft dp p sleft) := by
  unfold srtOptSetSleft DsrPkt.writeField
  dsimp only
  split
  · refine ⟨write_gen dp _ _, write_promiscRecv dp _ _, (write_same dp _ _).src, (write_same dp _ _).dst,
      optsLen_write dp _ _, tailroom_write dp _ _, isSome_write dp _ _, fun i hi => ?_⟩
    have hne := hi h
    by_cases hlt : i < p.off + 2
    · exact byteAt_write_lt dp _ hlt
    · refine byteAt_write_ge dp ?_
      simp only [List.length_cons, List.length_nil]
      omega
  · exact Touch.of_core p rfl

section Forward

variable {dp : DsrPkt} {p : OptPtr}

theorem fieldAt_writeField_lt {i j : ℕ} (xs : List UInt8) (h : i < j) :
    (dp.writeField p j xs).fieldAt p i = dp.fieldAt p i := by
  unfold DsrPkt.fieldAt
  rw [live_writeField]
  unfold DsrPkt.writeField
  split
  · exact byteAt_write_lt dp xs (by omega)
  · rfl

theorem length_raw_writeField (i : ℕ) (xs : List UInt8) {b : OptBuf} (hb : dp.dh = some b) :
    ∃ b', (dp.writeField p i xs).dh = some b' ∧ b'.raw.length = b.raw.length := by
  unfold DsrPkt.writeField
  split
  · rw [write_dh hb]
    exact ⟨_, rfl, length_writeAt⟩
  · exact ⟨b, hb, rfl⟩

theorem fieldAt_writeField_self {i : ℕ} (x : UInt8) {b : OptBuf} (hb : dp.dh = some b)
    (hp : dp.live p = true) (hlt : p.off + i < b.raw.length) :
    (dp.writeField p i [x]).fieldAt p i = x := by
  rw [fieldAt_live (by rw [live_writeField]; exact hp), writeField_live hp]
  exact byteAt_write_head (i := 0) hb (by simp) hlt

theorem rreqForward_optLength (mem : ℕ → UInt8) (me : InAddr) (hp : dp.live p = true)
    (hroom : 4 < dp.tailroom) (hoff : dsrOptHdrLen ≤ p.off) (hlong : 6 ≤ dp.optLength p) :
    (rreqForward mem me dp p).live p = true ∧
      (rreqForward mem me dp p).optLength p = (dp.optLength p + 4) % 256 := by
  obtain ⟨b, hb⟩ : ∃ b, dp.dh = some b := by
    rw [DsrPkt.live, Bool.and_eq_true] at hp
    exact Option.isSome_iff_exists.mp hp.1
  obtain ⟨dp₁, hdp₁⟩ : ∃ dp₁ : DsrPkt, dp₁ = { dp with dh := some { b with tail := b.tail + 4 } } :=
    ⟨_, rfl⟩
  have hexp : (dsrPktAllocOptsExpand mem dp 4).map Prod.fst = some dp₁ := by
    rw [dsrPktAllocOptsExpand, hb]
    dsimp only
    rw [if_pos hroom, hdp₁]
    rfl
  have hb₁ : dp₁.dh = some { b with tail := b.tail + 4 } := by rw [hdp₁]
  have hlive₁ : dp₁.live p = true := by
    rw [hdp₁]
    rw [DsrPkt.live, Bool.and_eq_true] at hp ⊢
    exact ⟨rfl, hp.2⟩
  have hlen₁ : dp₁.optLength p = dp.optLength p := by
    rw [DsrPkt.optLength, DsrPkt.optLength, fieldAt_live hlive₁, fieldAt_live hp, byteAt_dh hb₁,
      byteAt_dh hb]
  obtain ⟨dp₂, hdp₂⟩ : ∃ dp₂, dp₂ = if dsrLastOpt dp₁ p then dp₁
    else dp₁.writeField p (dp₁.optLength p + 6) (dp₁.fieldsAt p (dp₁.optLength p + 2) 4) := ⟨_, rfl⟩
  have h₂ : (∃ b₂, dp₂.dh = some b₂ ∧ b₂.raw.length = b.raw.length) ∧ dp₂.live p = true ∧
      dp₂.fieldAt p 1 = dp₁.fieldAt p 1 := by
    rw [hdp₂]
    split
    · exact ⟨⟨_, hb₁, rfl⟩, hlive₁, rfl⟩
    · exact ⟨(length_raw_writeField _ _ hb₁ :), (live_writeField _ _).trans hlive₁,
        fieldAt_writeField_lt _ (by omega)⟩
  obtain ⟨⟨b₂, hb₂, hraw₂⟩, hlive₂, hf₂⟩ := h₂
  obtain ⟨dp₃, hdp₃⟩ : ∃ dp₃, dp₃ = dp₂.writeField p (8 + 4 * ((dp.optLength p - 6) / 4)) me.bytes :=
    ⟨_, rfl⟩
  obtain ⟨b₃, hb₃, hraw₃⟩ : ∃ b₃, dp₃.dh = some b₃ ∧ b₃.raw.length = b₂.raw.length := by
    rw [hdp₃]
    exact length_raw_writeField _ _ hb₂
  have hlive₃ : dp₃.live p = true := by
    rw [hdp₃]
    exact (live_writeField _ _).trans hlive₂
  have hf₃ : dp₃.fieldAt p 1 = dp₂.fieldAt p 1 := by
    rw [hdp₃]
    exact fieldAt_writeField_lt _ (by omega)
  have hlen₃ : dp₃.optLength p = dp.optLength p := by
    rw [← hlen₁, DsrPkt.optLength, DsrPkt.optLength, hf₃, hf₂]
  obtain ⟨dp₄, hdp₄⟩ : ∃ dp₄, dp₄ = dp₃.writeField p 1 [UInt8.ofNat (dp₃.optLength p + 4)] := ⟨_, rfl⟩
  have hlive₄ : dp₄.live p = true := by
    rw [hdp₄]
    exact (live_writeField _ _).trans hlive₃
  have hin : p.off + 1 < b.raw.length := by
    by_contra hge
    rw [DsrPkt.optLength, fieldAt_live hp, byteAt_dh hb, List.getD_eq_getElem?_getD,
      List.getElem?_eq_none (Nat.le_of_not_lt hge)] at hlong
    exact absurd hlong (by decide)
  have hf₄ : dp₄.fieldAt p 1 = UInt8.ofNat (dp₃.optLength p + 4) := by
    rw [hdp₄]
    exact fieldAt_writeField_self _ hb₃ hlive₃ (by omega)
  obtain ⟨dp₅, hdp₅⟩ : ∃ dp₅, dp₅ = dp₄.write 2 (toBe16 ((dp₄.pLen + 4) % 65536)) := ⟨_, rfl⟩
  have hlive₅ : dp₅.live p = true := by
    rw [hdp₅]
    unfold DsrPkt.live
    rw [isSome_write, write_gen]
    exact hlive₄
  have hf₅ : dp₅.fieldAt p 1 = dp₄.fieldAt p 1 := by
    rw [fieldAt_live hlive₅, fieldAt_live hlive₄, hdp₅]
    refine byteAt_write_ge dp₄ ?_
    rw [length_toBe16]
    unfold dsrOptHdrLen at hoff
    omega
  have heq : rreqForward mem me dp p =
      dsrBuildIp dp₅ dp₅.src dp₅.dst (dp₅.iph.totLen + 4) ipprotoDsr dp₅.iph.ttl := by
    rw [hdp₅, hdp₄, hdp₃, hdp₂, rreqForward, hexp]
    rfl
  rw [heq]
  refine ⟨hlive₅, ?_⟩
  change (dp₅.fieldAt p 1).toNat = _
  rw [hf₅, hf₄, hlen₃, UInt8.toNat_ofNat']

end Forward

structure ForwardsRreq (dp : DsrPkt) (p : OptPtr) (dp' : DsrPkt) (act : List DsrPktAction) : Prop where
  type : optTypeOf (dp.fieldAt p 0) = .rreq
  promisc : dp.promiscRecv = false
  first : dp.numRreqOpts = 0
  long : 6 ≤ dp.optLength p
  action : act = [.forwardRreq]
  pkt : ∃ mem me dp₁, dp₁.core = dp.core ∧ dp' = rreqForward mem me dp₁ p

def rrepTaken (dp : DsrPkt) (p : OptPtr) : Prop :=
  optTypeOf (dp.fieldAt p 0) = .rrep ∧ dp.promiscRecv = false ∧ dp.rrepOpt.length < maxRrepOpts

def rerrTaken (dp : DsrPkt) (p : OptPtr) : Prop :=
  optTypeOf (dp.fieldAt p 0) = .rerr ∧ dp.promiscRecv = false ∧ dp.rerrOpt.length < maxRerrOpts

def ackTaken (dp : DsrPkt) (p : OptPtr) : Prop :=
  optTypeOf (dp.fieldAt p 0) = .ack ∧ dp.promiscRecv = false ∧ dp.ackOpt.length < maxAckOpts

instance (dp : DsrPkt) (p : OptPtr) : Decidable (rrepTaken dp p) := inferInstanceAs (Decidable (_ ∧ _ ∧ _))
instance (dp : DsrPkt) (p : OptPtr) : Decidable (rerrTaken dp p) := inferInstanceAs (Decidable (_ ∧ _ ∧ _))
instance (dp : DsrPkt) (p : OptPtr) : Decidable (ackTaken dp p) := inferInstanceAs (Decidable (_ ∧ _ ∧ _))

def rreqTaken (dp : DsrPkt) (p : OptPtr) : Prop :=
  optTypeOf (dp.fieldAt p 0) = .rreq ∧ dp.promiscRecv = false

instance (dp : DsrPkt) (p : OptPtr) : Decidable (rreqTaken dp p) := inferInstanceAs (Decidable (_ ∧ _))

def DsrPkt.optLists (dp : DsrPkt) : ℕ × List OptPtr × List OptPtr × List OptPtr :=
  (dp.numRreqOpts, dp.rrepOpt, dp.rerrOpt, dp.ackOpt)

def takenLists (dp : DsrPkt) (p : OptPtr) : ℕ × List OptPtr × List OptPtr × List OptPtr :=
  (if rreqTaken dp p then dp.numRreqOpts + 1 else dp.numRreqOpts,
    if rrepTaken dp p then dp.rrepOpt ++ [p] else dp.rrepOpt,
    if rerrTaken dp p then dp.rerrOpt ++ [p] else dp.rerrOpt,
    if ackTaken dp p then dp.ackOpt ++ [p] else dp.ackOpt)

structure Received (dp : DsrPkt) (p : OptPtr) (r : DsrPkt × List DsrPktAction) : Prop where
  area : Touch dp p r.1 ∨ ForwardsRreq dp p r.1 r.2
  lists : r.1.optLists = takenLists dp p

section Lists

variable {dp : DsrPkt} {p : OptPtr}

theorem takenLists_of_none (h₀ : ¬ rreqTaken dp p) (h₁ : ¬ rrepTaken dp p) (h₂ : ¬ rerrTaken dp p)
    (h₃ : ¬ ackTaken dp p) : takenLists dp p = dp.optLists := by
  rw [takenLists, if_neg h₀, if_neg h₁, if_neg h₂, if_neg h₃]
  rfl

theorem takenLists_of_type (h₀ : optTypeOf (dp.fieldAt p 0) ≠ .rreq)
    (h₁ : optTypeOf (dp.fieldAt p 0) ≠ .rrep) (h₂ : optTypeOf (dp.fieldAt p 0) ≠ .rerr)
    (h₃ : optTypeOf (dp.fieldAt p 0) ≠ .ack) : takenLists dp p = dp.optLists :=
  takenLists_of_none (fun h => h₀ h.1) (fun h => h₁ h.1) (fun h => h₂ h.1) fun h => h₃ h.1

def DsrPkt.notes (dp : DsrPkt) : DsrPkt :=
  { dp with dh := none, gen := 0, nh := .null, ipData := default, skb := none }

theorem write_notes (dp : DsrPkt) (off : ℕ) (xs : List UInt8) : (dp.write off xs).notes = dp.notes := by
  unfold DsrPkt.write
  split <;> rfl

theorem writeField_notes (dp : DsrPkt) (p : OptPtr) (i : ℕ) (xs : List UInt8) :
    (dp.writeField p i xs).notes = dp.notes := by
  unfold DsrPkt.writeField
  split
  · exact write_notes dp _ xs
  · rfl

theorem setDaddr_notes (dp : DsrPkt) (a : InAddr) : (dp.setDaddr a).notes = dp.notes := by
  unfold DsrPkt.setDaddr
  split <;> rfl

theorem expand_notes (mem : ℕ → UInt8) (dp : DsrPkt) (len : ℕ) :
    (((dsrPktAllocOptsExpand mem dp len).map Prod.fst).getD dp).notes = dp.notes := by
  unfold dsrPktAllocOptsExpand
  split
  · rfl
  · next b _ =>
    split
    · rfl
    · exact (write_notes (dsrPktAllocOpts mem dp (b.tail + len)) 0 _).trans rfl

theorem rreqForward_notes (mem : ℕ → UInt8) (me : InAddr) (dp : DsrPkt) (p : OptPtr) :
    (rreqForward mem me dp p).notes = dp.notes := by
  rw [← expand_notes mem dp 4, rreqForward]
  generalize ((dsrPktAllocOptsExpand mem dp 4).map Prod.fst).getD dp = dp₁
  refine Eq.trans (b := (if dsrLastOpt dp₁ p then dp₁ else
    dp₁.writeField p (dp₁.optLength p + 6) (dp₁.fieldsAt p (dp₁.optLength p + 2) 4)).notes) ?_ ?_
  · refine (write_notes _ _ _).trans ((writeField_notes _ _ _ _).trans ?_)
    exact writeField_notes _ _ _ _
  · split
    · rfl
    · exact writeField_notes _ _ _ _

theorem rreqForward_optLists (mem : ℕ → UInt8) (me : InAddr) (dp : DsrPkt) (p : OptPtr) :
    (rreqForward mem me dp p).optLists = dp.optLists :=
  (congrArg DsrPkt.optLists (rreqForward_notes mem me dp p) :)

theorem setDaddr_touch (dp : DsrPkt) (p : OptPtr) (a : InAddr) : Touch dp p (dp.setDaddr a) := by
  unfold DsrPkt.setDaddr
  split <;> exact ⟨rfl, rfl, rfl, rfl, rfl, rfl, rfl, fun _ _ => rfl⟩

def DsrPkt.ends (dp : DsrPkt) : Bool × InAddr × InAddr := (dp.promiscRecv, dp.src, dp.dst)

theorem Touch.ends {dp dp' : DsrPkt} {p : OptPtr} (h : Touch dp p dp') : dp'.ends = dp.ends := by
  rw [DsrPkt.ends, h.promisc, h.src, h.dst]
  rfl

end Lists

section Results

variable {dp : DsrPkt} {p : OptPtr}

theorem Received.same (act : List DsrPktAction) (h : takenLists dp p = dp.optLists) :
    Received dp p (dp, act) :=
  ⟨Or.inl (Touch.of_core p rfl), h.symm⟩

theorem dsrRrepOptRecv_received (ht : optTypeOf (dp.fieldAt p 0) = .rrep) :
    Returns (Received dp p) (dsrRrepOptRecv dp p) := by
  have hn₀ : ¬ rreqTaken dp p := fun h => absurd (ht.symm.trans h.1) nofun
  have hn₂ : ¬ rerrTaken dp p := fun h => absurd (ht.symm.trans h.1) nofun
  have hn₃ : ¬ ackTaken dp p := fun h => absurd (ht.symm.trans h.1) nofun
  refine Returns.ite (fun hc => Returns.pure ?_) fun hc => ?_
  · refine Received.same _ (takenLists_of_none hn₀ (fun h => ?_) hn₂ hn₃)
    have hf : ¬ maxRrepOpts ≤ dp.rrepOpt.length := Nat.not_le_of_lt h.2.2
    simp [h.2.1, hf] at hc
  · have htaken : rrepTaken dp p := by
      simp only [Bool.or_eq_true, decide_eq_true_eq, not_or, Bool.not_eq_true, Nat.not_le] at hc
      exact ⟨ht, hc.1, hc.2⟩
    have hres : ∀ act, Received dp p ({ dp with rrepOpt := dp.rrepOpt ++ [p] }, act) := by
      intro act
      refine ⟨Or.inl (Touch.of_core p rfl), ?_⟩
      rw [takenLists, if_neg hn₀, if_pos htaken, if_neg hn₂, if_neg hn₃]
      rfl
    dsimp only
    refine Returns.ite (fun _ => Returns.pure (hres _)) fun _ => ?_
    refine Returns.bind fun mem => Returns.bind fun me => Returns.bind fun _ => Returns.bind fun _ => ?_
    exact Returns.ite (fun _ => Returns.pure (hres _)) fun _ => Returns.pure (hres _)

theorem dsrRerrOptRecv_received (ht : rerrTaken dp p) : Returns (Received dp p) (dsrRerrOptRecv dp p) := by
  have hn₀ : ¬ rreqTaken dp p := fun h => absurd (ht.1.symm.trans h.1) nofun
  have hn₁ : ¬ rrepTaken dp p := fun h => absurd (ht.1.symm.trans h.1) nofun
  have hn₃ : ¬ ackTaken dp p := fun h => absurd (ht.1.symm.trans h.1) nofun
  have hres : Received dp p ({ dp with rerrOpt := dp.rerrOpt ++ [p] }, []) := by
    refine ⟨Or.inl (Touch.of_core p rfl), ?_⟩
    rw [takenLists, if_neg hn₀, if_neg hn₁, if_pos ht, if_neg hn₃]
    rfl
  refine Returns.ite (fun _ => ?_) fun _ => Returns.pure hres
  exact Returns.bind fun _ => Returns.bind fun _ => Returns.pure hres

theorem dsrAckReqOptRecv_received (ht : optTypeOf (dp.fieldAt p 0) = .ackReq) :
    Returns (Received dp p) (dsrAckReqOptRecv dp p) := by
  have hl : takenLists dp p = dp.optLists :=
    takenLists_of_type (ht ▸ nofun) (ht ▸ nofun) (ht ▸ nofun) (ht ▸ nofun)
  refine Returns.ite (fun _ => Returns.pure (Received.same _ hl)) fun _ => ?_
  dsimp only
  refine Returns.bind fun _ => Returns.pure ?_
  split
  · exact ⟨Or.inl (Touch.of_core p rfl), hl.symm⟩
  · exact ⟨Or.inl (Touch.of_core p rfl), hl.symm⟩

theorem dsrSrtOptRecv_received (ht : optTypeOf (dp.fieldAt p 0) = .srt) :
    Returns (Received dp p) (dsrSrtOptRecv dp p) := by
  have hl : takenLists dp p = dp.optLists :=
    takenLists_of_type (ht ▸ nofun) (ht ▸ nofun) (ht ▸ nofun) (ht ▸ nofun)
  refine Returns.bind fun me => Returns.bind fun mem => ?_
  dsimp only
  have hnote : ∀ act, Received dp p (srtOptNote dp p (srtOptSrt mem dp p) (srtOptSleft dp p), act) :=
    fun act => ⟨Or.inl (Touch.of_core p rfl), hl.symm⟩
  refine Returns.bind fun _ => Returns.bind fun _ => Returns.bind fun ok => ?_
  refine Returns.ite (fun _ => Returns.pure (hnote _)) fun _ => ?_
  refine Returns.ite (fun _ => Returns.pure (hnote _)) fun hz => ?_
  refine Returns.ite (fun _ => Returns.pure (hnote _)) fun hgt => Returns.pure ?_
  have hfour : 4 ≤ dp.optLength p := by
    have hn : (srtOptSrt mem dp p).n = dp.optLength p / 4 := rfl
    omega
  refine ⟨Or.inl (Touch.core_left (srtOptSetSleft_touch ?_ _) rfl), ?_⟩
  · exact hfour
  · exact (congrArg DsrPkt.optLists (writeField_notes _ _ _ _)).trans hl.symm

theorem dsrRreqOptRecv_received (ht : optTypeOf (dp.fieldAt p 0) = .rreq) (hpr : dp.promiscRecv = false) :
    Returns (Received dp p) (dsrRreqOptRecv dp p) := by
  have hn₁ : ¬ rrepTaken dp p := fun h => absurd (ht.symm.trans h.1) nofun
  have hn₂ : ¬ rerrTaken dp p := fun h => absurd (ht.symm.trans h.1) nofun
  have hn₃ : ¬ ackTaken dp p := fun h => absurd (ht.symm.trans h.1) nofun
  have hl : takenLists dp p = { dp with numRreqOpts := dp.numRreqOpts + 1 }.optLists := by
    rw [takenLists, if_pos ⟨ht, hpr⟩, if_neg hn₁, if_neg hn₂, if_neg hn₃]
    rfl
  have hnote : ∀ (dp₁ : DsrPkt) act, dp₁.core = dp.core →
      dp₁.optLists = { dp with numRreqOpts := dp.numRreqOpts + 1 }.optLists → Received dp p (dp₁, act) :=
    fun dp₁ act hc hol => ⟨Or.inl (Touch.of_core p hc), hol.trans hl.symm⟩
  refine Returns.ite (fun hp => absurd (hpr.symm.trans hp) nofun) fun _ => ?_
  dsimp only
  refine Returns.ite (fun _ => Returns.pure (hnote _ _ rfl rfl)) fun hnum => ?_
  refine Returns.bind fun me => Returns.bind fun mem => Returns.bind fun dup => ?_
  refine Returns.ite (fun _ => Returns.pure (hnote _ _ rfl rfl)) fun _ => Returns.bind fun _ => ?_
  refine Returns.ite (fun _ => Returns.pure (hnote _ _ rfl rfl)) fun hlong => ?_
  refine Returns.bind fun _ => Returns.bind fun _ => Returns.bind fun _ => ?_
  have hreply : ∀ (dp₁ : DsrPkt) a act, dp₁.core = dp.core →
      dp₁.optLists = { dp with numRreqOpts := dp.numRreqOpts + 1 }.optLists →
      Received dp p (dp₁.setDaddr a, act) := by
    intro dp₁ a act hc hol
    exact ⟨Or.inl ((setDaddr_touch dp₁ p a).core_left hc),
      (congrArg DsrPkt.optLists (setDaddr_notes dp₁ a)).trans (hol.trans hl.symm)⟩
  have hfwd : ∀ dp₁ : DsrPkt, dp₁.core = dp.core →
      dp₁.optLists = { dp with numRreqOpts := dp.numRreqOpts + 1 }.optLists →
      Received dp p (rreqForward mem me dp₁ p, [.forwardRreq]) := by
    intro dp₁ hc hol
    refine ⟨Or.inr ⟨ht, hpr, by omega, Nat.le_of_not_lt hlong, rfl, mem, me, dp₁, hc, rfl⟩, ?_⟩
    exact (rreqForward_optLists mem me dp₁ p).trans (hol.trans hl.symm)
  refine Returns.ite (fun _ => Returns.bind fun _ => Returns.pure (hreply _ _ _ rfl rfl)) fun _ => ?_
  refine Returns.ite (fun _ => Returns.pure (hnote _ _ rfl rfl)) fun _ => ?_
  refine Returns.ite (fun _ => Returns.pure (hnote _ _ rfl rfl)) fun _ => Returns.bind fun rc => ?_
  cases rc with
  | none => exact Returns.pure (hfwd _ rfl rfl)
  | some rc =>
    refine Returns.ite (fun _ => Returns.pure (hfwd _ rfl rfl)) fun _ => ?_
    exact Returns.bind fun _ => Returns.pure (hreply _ _ _ rfl rfl)

theorem dsrOptRecvOne_received (dp : DsrPkt) (p : OptPtr) :
    Returns (Received dp p) (dsrOptRecvOne dp p) := by
  unfold dsrOptRecvOne
  have hpromisc : dp.promiscRecv = true → takenLists dp p = dp.optLists := fun hp =>
    takenLists_of_none (fun h => absurd (hp.symm.trans h.2) nofun)
      (fun h => absurd (hp.symm.trans h.2.1) nofun)
      (fun h => absurd (hp.symm.trans h.2.1) nofun) fun h => absurd (hp.symm.trans h.2.1) nofun
  split
  · next ht =>
    refine Returns.ite (fun hp => Returns.pure (Received.same _ (hpromisc hp))) fun hp => ?_
    exact dsrRreqOptRecv_received ht (Bool.not_eq_true _ ▸ hp)
  · next ht =>
    refine Returns.ite (fun hp => Returns.pure (Received.same _ (hpromisc hp))) fun _ => ?_
    exact dsrRrepOptRecv_received ht
  · next ht =>
    refine Returns.ite (fun hc => Returns.pure (Received.same _ ?_)) fun hc => ?_
    · refine takenLists_of_none (fun h => absurd (ht.symm.trans h.1) nofun)
        (fun h => absurd (ht.symm.trans h.1) nofun) (fun h => ?_)
        fun h => absurd (ht.symm.trans h.1) nofun
      have hf : ¬ maxRerrOpts ≤ dp.rerrOpt.length := Nat.not_le_of_lt h.2.2
      simp [h.2.1, hf] at hc
    · simp only [Bool.or_eq_true, decide_eq_true_eq, not_or, Bool.not_eq_true, Nat.not_le] at hc
      exact dsrRerrOptRecv_received ⟨ht, hc.1, hc.2⟩
  · next ht =>
    have hn₀ : ¬ rreqTaken dp p := fun h => absurd (ht.symm.trans h.1) nofun
    have hn₁ : ¬ rrepTaken dp p := fun h => absurd (ht.symm.trans h.1) nofun
    have hn₂ : ¬ rerrTaken dp p := fun h => absurd (ht.symm.trans h.1) nofun
    refine Returns.ite (fun hc => Returns.pure (Received.same _ ?_)) fun hc => ?_
    · refine takenLists_of_none hn₀ hn₁ hn₂ fun h => ?_
      have hf : ¬ maxAckOpts ≤ dp.ackOpt.length := Nat.not_le_of_lt h.2.2
      simp [h.2.1, hf] at hc
    · simp only [Bool.or_eq_true, decide_eq_true_eq, not_or, Bool.not_eq_true, Nat.not_le] at hc
      have htaken : ackTaken dp p := ⟨ht, hc.1, hc.2⟩
      refine Returns.bind fun act => Returns.pure ⟨Or.inl (Touch.of_core p rfl), ?_⟩
      rw [takenLists, if_neg hn₀, if_neg hn₁, if_neg hn₂, if_pos htaken]
      rfl
  · next ht => exact dsrSrtOptRecv_received ht
  · next ht => exact dsrAckReqOptRecv_received ht
  · next h₁ h₂ h₃ h₄ h₅ h₆ => exact Returns.pure (Received.same _ (takenLists_of_type h₁ h₂ h₃ h₄))

end Results

end DsrUu
