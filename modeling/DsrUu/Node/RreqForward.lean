import DsrUu.Node.Walked

namespace DsrUu

open Bytes Effect

structure RreqAt (dp : DsrPkt) (p : OptPtr) (n : ℕ) : Prop where
  live : dp.live p = true
  tailroom : dp.tailroom = defaultTailroom
  pLen : dp.pLen + dsrOptHdrLen = dp.optsLen
  off_le : dsrOptHdrLen ≤ p.off
  length : dp.optLength p = 6 + 4 * n
  few : n ≤ 61
  inside : p.off + (dp.optLength p + 2) ≤ dp.optsLen

def optEnd (dp : DsrPkt) (p : OptPtr) : ℕ := p.off + (dp.optLength p + 2)

def rreqArea (me : InAddr) (dp : DsrPkt) (p : OptPtr) : List UInt8 :=
  let area := dp.bytesAt 0 dp.optsLen
  let grown := area.take (optEnd dp p) ++ me.bytes ++ area.drop (optEnd dp p)
  writeAt (writeAt grown (p.off + 1) [UInt8.ofNat (dp.optLength p + 4)]) 2 (toBe16 (dp.pLen + 4))

structure Holds (dp : DsrPkt) (gen : ℕ) (raw : List UInt8) (tail : ℕ) : Prop where
  dh : dp.dh = some { raw := raw, tail := tail }
  gen_eq : dp.gen = gen

section Holds

variable {dp : DsrPkt} {p : OptPtr} {raw : List UInt8} {tail : ℕ}

theorem Holds.live (h : Holds dp p.gen raw tail) : dp.live p = true :=
  (live_iff h.dh p).mpr h.gen_eq.symm

theorem Holds.write {gen : ℕ} (h : Holds dp gen raw tail) (off : ℕ) (xs : List UInt8) :
    Holds (dp.write off xs) gen (writeAt raw off xs) tail := by
  rw [write_dh h.dh]
  exact ⟨rfl, h.gen_eq⟩

theorem Holds.writeField (h : Holds dp p.gen raw tail) (i : ℕ) (xs : List UInt8) :
    Holds (dp.writeField p i xs) p.gen (writeAt raw (p.off + i) xs) tail := by
  rw [writeField_live h.live]
  exact h.write _ _

theorem Holds.optLength (h : Holds dp p.gen raw tail) :
    dp.optLength p = (raw.getD (p.off + 1) 0).toNat := by
  rw [DsrPkt.optLength, fieldAt_live h.live, byteAt_dh h.dh]

theorem Holds.pLen {gen : ℕ} (h : Holds dp gen raw tail) :
    dp.pLen = be16 (raw.getD 2 0) (raw.getD 3 0) := by
  rw [DsrPkt.pLen, byteAt_dh h.dh, byteAt_dh h.dh]

end Holds

section Raw

variable {dp : DsrPkt} {p : OptPtr} (hlive : dp.live p = true) (hroom : 4 < dp.tailroom)
  (hoff : dsrOptHdrLen ≤ p.off) (mem : ℕ → UInt8) (me : InAddr)

theorem dsrBuildIp_dh (dp : DsrPkt) (src dst : InAddr) (tot prot ttl : ℕ) :
    (dsrBuildIp dp src dst tot prot ttl).dh = dp.dh := rfl

def rreqEnd (dp : DsrPkt) (p : OptPtr) : ℕ := p.off + (8 + 4 * ((dp.optLength p - 6) / 4))

include hlive hroom hoff

theorem rreqForward_raw {b : OptBuf} (hb : dp.dh = some b) : (rreqForward mem me dp p).dh = some
    { raw := writeAt (writeAt (writeAt (if dsrLastOpt dp p then b.raw
          else writeAt b.raw (optEnd dp p + 4) (readAt b.raw (optEnd dp p) 4))
          (rreqEnd dp p) me.bytes) (p.off + 1) [UInt8.ofNat (dp.optLength p + 4)])
        2 (toBe16 ((dp.pLen + 4) % 65536))
      tail := b.tail + 4 } := by
  have hhdr : 4 ≤ p.off := hoff
  have hgen := (live_iff hb p).mp hlive
  have hexp : ((dsrPktAllocOptsExpand mem dp 4).map Prod.fst).getD dp =
      { dp with dh := some { b with tail := b.tail + 4 } } := by
    rw [dsrPktAllocOptsExpand, hb]
    dsimp only
    rw [if_pos hroom]
    rfl
  have h₀ : Holds dp p.gen b.raw b.tail := ⟨hb, hgen.symm⟩
  obtain ⟨dp₁, hdp₁⟩ : ∃ dp₁ : DsrPkt, dp₁ = { dp with dh := some { b with tail := b.tail + 4 } } :=
    ⟨_, rfl⟩
  have h₁ : Holds dp₁ p.gen b.raw (b.tail + 4) := by
    rw [hdp₁]
    exact ⟨rfl, hgen.symm⟩
  have hlen₁ : dp₁.optLength p = dp.optLength p := h₁.optLength.trans h₀.optLength.symm
  have hlast₁ : dsrLastOpt dp₁ p = dsrLastOpt dp p := by
    rw [dsrLastOpt, dsrLastOpt, hlen₁, h₁.pLen, h₀.pLen]
  obtain ⟨raw₂, hraw₂⟩ : ∃ raw₂, raw₂ = if dsrLastOpt dp p then b.raw
    else writeAt b.raw (optEnd dp p + 4) (readAt b.raw (optEnd dp p) 4) := ⟨_, rfl⟩
  obtain ⟨dp₂, hdp₂⟩ : ∃ dp₂, dp₂ = if dsrLastOpt dp₁ p then dp₁
    else dp₁.writeField p (dp₁.optLength p + 6) (dp₁.fieldsAt p (dp₁.optLength p + 2) 4) := ⟨_, rfl⟩
  have h₂ : Holds dp₂ p.gen raw₂ (b.tail + 4) := by
    rw [hdp₂, hraw₂, hlast₁, hlen₁, fieldsAt_live h₁.live, bytesAt_dh h₁.dh]
    split
    · exact h₁
    · exact h₁.writeField _ _
  have hsame₂ : ∀ i, i < optEnd dp p → raw₂.getD i 0 = b.raw.getD i 0 := by
    intro i hi
    rw [hraw₂]
    split
    · rfl
    · exact getD_writeAt_before (by omega) 0
  have hend : p.off + 1 < optEnd dp p := by
    rw [optEnd]
    omega
  have hfirst : p.off + 1 < rreqEnd dp p := by
    rw [rreqEnd]
    omega
  have h₃ : Holds (dp₂.writeField p (8 + 4 * ((dp.optLength p - 6) / 4)) me.bytes) p.gen
      (writeAt raw₂ (rreqEnd dp p) me.bytes) (b.tail + 4) := h₂.writeField _ me.bytes
  have hlen₃ : (dp₂.writeField p (8 + 4 * ((dp.optLength p - 6) / 4)) me.bytes).optLength p =
      dp.optLength p := by
    rw [h₃.optLength, getD_writeAt_before hfirst, hsame₂ _ hend, h₀.optLength]
  have h₄ := h₃.writeField 1 [UInt8.ofNat (dp.optLength p + 4)]
  have hplen₄ := h₄.pLen
  rw [getD_writeAt_before (by omega : 2 < p.off + 1), getD_writeAt_before (by omega : 3 < p.off + 1),
    getD_writeAt_before (by omega : 2 < rreqEnd dp p), getD_writeAt_before (by omega : 3 < rreqEnd dp p),
    hsame₂ _ (by omega), hsame₂ _ (by omega), ← h₀.pLen] at hplen₄
  have h₅ := h₄.write 2 (toBe16 ((dp.pLen + 4) % 65536))
  rw [rreqForward, hexp, ← hdp₁]
  rw [← hdp₂, dsrBuildIp_dh, hlen₃, hplen₄, h₅.dh, hraw₂]

end Raw

section Forward

variable {dp : DsrPkt} {p : OptPtr} {n : ℕ} (h : RreqAt dp p n) (mem : ℕ → UInt8) (me : InAddr)

include h

theorem RreqAt.buffer : ∃ b, dp.dh = some b ∧ p.gen = dp.gen ∧
    b.raw.length = b.tail + defaultTailroom := by
  obtain ⟨b, hb⟩ : ∃ b, dp.dh = some b := by
    have hl := h.live
    rw [DsrPkt.live, Bool.and_eq_true] at hl
    exact Option.isSome_iff_exists.mp hl.1
  refine ⟨b, hb, (live_iff hb p).mp h.live, ?_⟩
  have ht := h.tailroom
  simp only [DsrPkt.tailroom, hb, defaultTailroom] at ht ⊢
  omega

theorem rreqForward_dh {b : OptBuf} (hb : dp.dh = some b) : (rreqForward mem me dp p).dh = some
    { raw := writeAt (writeAt (writeAt (if dsrLastOpt dp p then b.raw
          else writeAt b.raw (optEnd dp p + 4) (readAt b.raw (optEnd dp p) 4))
          (optEnd dp p) me.bytes) (p.off + 1) [UInt8.ofNat (dp.optLength p + 4)])
        2 (toBe16 ((dp.pLen + 4) % 65536))
      tail := b.tail + 4 } := by
  have hlen := h.length
  have hend : rreqEnd dp p = optEnd dp p := by
    rw [rreqEnd, optEnd]
    omega
  have hraw := rreqForward_raw h.live (by rw [h.tailroom]; decide) h.off_le mem me hb
  rwa [hend] at hraw

theorem rreqForward_byteAt (i : ℕ) : (rreqForward mem me dp p).byteAt i =
    if i = 2 ∨ i = 3 then (toBe16 (dp.pLen + 4)).getD (i - 2) 0
    else if i = p.off + 1 then UInt8.ofNat (dp.optLength p + 4)
    else if optEnd dp p ≤ i ∧ i < optEnd dp p + 4 then me.bytes.getD (i - optEnd dp p) 0
    else if dsrLastOpt dp p = false ∧ optEnd dp p + 4 ≤ i ∧ i < optEnd dp p + 8 then dp.byteAt (i - 4)
    else dp.byteAt i := by
  obtain ⟨b, hb, hgen, hraw⟩ := h.buffer
  have hin := h.inside
  have hoff := h.off_le
  have hend : optEnd dp p ≤ b.tail := by
    rw [optsLen_dh hb] at hin
    exact hin
  have hfirst : p.off + 1 < optEnd dp p := by
    rw [optEnd]
    omega
  have hme : me.bytes.length = 4 := rfl
  have hpl : toBe16 ((dp.pLen + 4) % 65536) = toBe16 (dp.pLen + 4) := by
    simp only [toBe16, List.cons.injEq, and_true]
    constructor <;> apply UInt8.toNat_inj.mp <;> simp only [UInt8.toNat_ofNat'] <;> omega
  rw [byteAt_dh (rreqForward_dh h mem me hb), getD_writeAt, getD_writeAt, getD_writeAt, hpl]
  simp only [length_writeAt, length_toBe16, List.length_singleton, hme]
  have hlen : (if dsrLastOpt dp p then b.raw
      else writeAt b.raw (optEnd dp p + 4) (readAt b.raw (optEnd dp p) 4)).length = b.raw.length := by
    split <;> simp
  simp only [dsrOptHdrLen] at hoff
  simp only [defaultTailroom] at hraw
  rw [hlen, byteAt_dh hb, byteAt_dh hb]
  by_cases h₁ : i = 2 ∨ i = 3
  · rw [if_pos h₁, if_pos (by omega)]
  rw [if_neg h₁, if_neg (by omega)]
  by_cases h₂ : i = p.off + 1
  · rw [if_pos h₂, if_pos (by omega), h₂, Nat.sub_self]
    rfl
  rw [if_neg h₂, if_neg (by omega)]
  by_cases h₃ : optEnd dp p ≤ i ∧ i < optEnd dp p + 4
  · rw [if_pos h₃, if_pos (by omega)]
  rw [if_neg h₃, if_neg (by omega)]
  by_cases hl : dsrLastOpt dp p = true
  · rw [if_pos hl, if_neg (by simp [hl])]
  · rw [if_neg hl, getD_writeAt, length_readAt]
    by_cases h₄ : optEnd dp p + 4 ≤ i ∧ i < optEnd dp p + 8
    · rw [if_pos (by omega), if_pos ⟨Bool.eq_false_iff.mpr hl, h₄⟩, getD_readAt (by omega)]
      congr 1
      omega
    · rw [if_neg (by omega), if_neg fun hc => h₄ hc.2]

omit h in
def rreqKept (dp : DsrPkt) (p : OptPtr) (j : ℕ) : Prop :=
  (dsrLastOpt dp p = false ∧ j < 4) ∨ dp.byteAt (optEnd dp p + 4 + j) = dp.byteAt (optEnd dp p + j)

theorem rreqForward_kept_iff (j : ℕ) :
    (rreqForward mem me dp p).byteAt (optEnd dp p + 4 + j) = dp.byteAt (optEnd dp p + j) ↔
      rreqKept dp p j := by
  have hoff := h.off_le
  have hend : p.off + 2 ≤ optEnd dp p := by
    rw [optEnd]
    omega
  simp only [dsrOptHdrLen] at hoff
  rw [rreqForward_byteAt h mem me, if_neg (by omega), if_neg (by omega), if_neg (by omega), rreqKept]
  by_cases hc : dsrLastOpt dp p = false ∧ j < 4
  · rw [if_pos ⟨hc.1, by omega, by omega⟩]
    refine iff_of_true ?_ (Or.inl hc)
    congr 1
    omega
  · rw [if_neg fun h' => hc ⟨h'.1, by omega⟩]
    exact (or_iff_right hc).symm

theorem length_rreqArea : (rreqArea me dp p).length = dp.optsLen + 4 := by
  have hin := h.inside
  obtain ⟨b, hb, _⟩ := h.buffer
  have hme : me.bytes.length = 4 := rfl
  have ha : (dp.bytesAt 0 dp.optsLen).length = dp.optsLen := by
    rw [bytesAt_dh hb, length_readAt]
  simp only [rreqArea, length_writeAt, List.length_append, List.length_take, List.length_drop, ha, hme]
  rw [optEnd]
  omega

theorem rreqArea_getD {i : ℕ} (hi : i < dp.optsLen + 4) : (rreqArea me dp p).getD i 0 =
    if i = 2 ∨ i = 3 then (toBe16 (dp.pLen + 4)).getD (i - 2) 0
    else if i = p.off + 1 then UInt8.ofNat (dp.optLength p + 4)
    else if optEnd dp p ≤ i ∧ i < optEnd dp p + 4 then me.bytes.getD (i - optEnd dp p) 0
    else if i < optEnd dp p then dp.byteAt i else dp.byteAt (i - 4) := by
  have hlen := length_rreqArea h me
  have hin := h.inside
  have hoff := h.off_le
  have hfirst : p.off + 1 < optEnd dp p := by
    rw [optEnd]
    omega
  obtain ⟨b, hb, _, hraw⟩ := h.buffer
  have hend : optEnd dp p ≤ b.tail := by
    rw [optsLen_dh hb] at hin
    exact hin
  simp only [dsrOptHdrLen] at hoff
  rw [optsLen_dh hb] at hi
  have hme : me.bytes.length = 4 := rfl
  have harea : dp.bytesAt 0 dp.optsLen = readAt b.raw 0 b.tail := by rw [bytesAt_dh hb, optsLen_dh hb]
  have htake : ((readAt b.raw 0 b.tail).take (optEnd dp p)).length = optEnd dp p := by
    rw [List.length_take, length_readAt, Nat.min_eq_left hend]
  rw [rreqArea, harea, getD_writeAt, getD_writeAt]
  simp only [length_writeAt, List.length_append, htake, List.length_drop, length_readAt, length_toBe16,
    List.length_singleton, hme]
  by_cases h₁ : i = 2 ∨ i = 3
  · rw [if_pos h₁, if_pos (by omega)]
  rw [if_neg h₁, if_neg (by omega)]
  by_cases h₂ : i = p.off + 1
  · rw [if_pos h₂, if_pos (by omega), h₂, Nat.sub_self]
    rfl
  rw [if_neg h₂, if_neg (by omega), byteAt_dh hb, byteAt_dh hb]
  by_cases h₃ : optEnd dp p ≤ i
  · obtain ⟨j, rfl⟩ := Nat.exists_eq_add_of_le h₃
    have hsplit : (List.take (optEnd dp p) (readAt b.raw 0 b.tail) ++ me.bytes ++
        List.drop (optEnd dp p) (readAt b.raw 0 b.tail)).getD (optEnd dp p + j) 0 =
          (me.bytes ++ List.drop (optEnd dp p) (readAt b.raw 0 b.tail)).getD j 0 := by
      have hr : (List.take (optEnd dp p) (readAt b.raw 0 b.tail) ++ (me.bytes ++
          List.drop (optEnd dp p) (readAt b.raw 0 b.tail))).getD
            ((List.take (optEnd dp p) (readAt b.raw 0 b.tail)).length + j) 0 =
              (me.bytes ++ List.drop (optEnd dp p) (readAt b.raw 0 b.tail)).getD j 0 :=
        getD_append_right j 0
      rw [htake, ← List.append_assoc] at hr
      exact hr
    rw [hsplit]
    by_cases h₄ : j < 4
    · rw [if_pos ⟨h₃, by omega⟩, getD_append_left (by rw [hme]; exact h₄), Nat.add_sub_cancel_left]
    · obtain ⟨k, rfl⟩ := Nat.exists_eq_add_of_le (Nat.le_of_not_lt h₄)
      rw [if_neg (by omega), if_neg (by omega)]
      have hr : (me.bytes ++ List.drop (optEnd dp p) (readAt b.raw 0 b.tail)).getD
          (me.bytes.length + k) 0 = (List.drop (optEnd dp p) (readAt b.raw 0 b.tail)).getD k 0 :=
        getD_append_right k 0
      rw [hme] at hr
      rw [hr, List.getD_eq_getElem?_getD, List.getElem?_drop, ← List.getD_eq_getElem?_getD,
        getD_readAt (by omega)]
      congr 1
      omega
  · rw [if_neg fun hc => h₃ hc.1, if_pos (Nat.lt_of_not_le h₃), List.append_assoc,
      getD_append_left (by rw [htake]; omega), List.getD_eq_getElem?_getD,
      List.getElem?_take_of_lt (by omega), ← List.getD_eq_getElem?_getD, getD_readAt (by omega),
      Nat.zero_add]

theorem rreqForward_area_iff :
    (rreqForward mem me dp p).bytesAt 0 (rreqForward mem me dp p).optsLen = rreqArea me dp p ↔
      ∀ j, optEnd dp p + j < dp.optsLen → rreqKept dp p j := by
  obtain ⟨b, hb, _⟩ := h.buffer
  have hdh := rreqForward_dh h mem me hb
  have hlen : (rreqForward mem me dp p).optsLen = dp.optsLen + 4 := by
    rw [optsLen_dh hdh, optsLen_dh hb]
  rw [hlen, bytesAt_dh hdh, readAt_eq_iff (length_rreqArea h me)]
  constructor
  · intro heq j hj
    have hi := heq (optEnd dp p + 4 + j) (by omega)
    have hend : p.off + 2 ≤ optEnd dp p := by
      rw [optEnd]
      omega
    have hoff : 4 ≤ p.off := h.off_le
    rw [← byteAt_dh hdh, rreqArea_getD h me (by omega), if_neg (by omega), if_neg (by omega),
      if_neg (by omega), if_neg (by omega)] at hi
    refine (rreqForward_kept_iff h mem me j).mp (hi.trans ?_)
    congr 1
    omega
  · intro hkept i hi
    rw [← byteAt_dh hdh, rreqArea_getD h me hi]
    by_cases hge : optEnd dp p + 4 ≤ i
    · obtain ⟨j, rfl⟩ := Nat.exists_eq_add_of_le hge
      have hend : p.off + 2 ≤ optEnd dp p := by
        rw [optEnd]
        omega
      have hoff : 4 ≤ p.off := h.off_le
      rw [(rreqForward_kept_iff h mem me j).mpr (hkept j (by omega)), if_neg (by omega),
        if_neg (by omega), if_neg (by omega), if_neg (by omega)]
      congr 1
      omega
    · rw [rreqForward_byteAt h mem me]
      split_ifs <;> first | rfl | omega

end Forward

section Walk

variable {byte byte' : ℕ → UInt8}

def Cursor.shift (c : Cursor) : Cursor := ⟨c.l + 4, c.off + 4⟩

def optHeads (byte : ℕ → UInt8) (cs : List Cursor) : List (UInt8 × UInt8) :=
  cs.map fun c => (byte c.off, byte (c.off + 1))

theorem optWalk_off_le {fuel dsrLen : ℕ} : ∀ {c c' : Cursor}, c' ∈ optWalk byte fuel dsrLen c →
    c.off ≤ c'.off := by
  induction fuel with
  | zero => exact fun h => absurd h List.not_mem_nil
  | succ fuel ih =>
    intro c c' h
    rw [optWalk, trail] at h
    split at h
    · rcases List.mem_cons.mp h with rfl | h
      · exact Nat.le_refl _
      · refine Nat.le_trans ?_ (ih h)
        rw [optNext]
        split <;> exact Nat.le_add_right _ _
    · exact absurd h List.not_mem_nil

theorem optWalk_shift_iff (byte byte' : ℕ → UInt8) (fuel dsrLen : ℕ) : ∀ c : Cursor,
    (optWalk byte' fuel dsrLen c.shift = (optWalk byte fuel dsrLen c).map Cursor.shift ∧
      optHeads byte' (optWalk byte' fuel dsrLen c.shift) = optHeads byte (optWalk byte fuel dsrLen c)) ↔
    ∀ d ∈ optWalk byte fuel dsrLen c, d.l + 6 < dsrLen ∧ byte' (d.off + 4) = byte d.off ∧
      byte' (d.off + 5) = byte (d.off + 1) := by
  induction fuel with
  | zero => simp [optWalk, trail, optHeads]
  | succ fuel ih =>
    intro c
    have hgo : optGo dsrLen c.shift = true ↔ c.l + 6 < dsrLen := by
      simp only [optGo_iff, Cursor.shift]
      omega
    have hgo' : optGo dsrLen c = true ↔ c.l + 2 < dsrLen := by
      rw [optGo_iff]
      omega
    have hunfold : ∀ (b : ℕ → UInt8) (d : Cursor), optWalk b (fuel + 1) dsrLen d =
        if optGo dsrLen d then d :: optWalk b fuel dsrLen (optNext b d) else [] := fun _ _ => rfl
    rw [hunfold, hunfold]
    by_cases hs : c.l + 6 < dsrLen
    · rw [if_pos (hgo.mpr hs), if_pos (hgo'.mpr (by omega))]
      simp only [List.map_cons, List.cons.injEq, true_and, optHeads, List.forall_mem_cons, hs]
      by_cases hb : byte' (c.off + 4) = byte c.off ∧ byte' (c.off + 5) = byte (c.off + 1)
      · have hnext : optNext byte' c.shift = (optNext byte c).shift := by
          simp only [optNext, optSize, Cursor.shift, hb.1, hb.2]
          split
          · rfl
          · simp only [Cursor.mk.injEq]
            omega
        rw [hnext, ← ih]
        simp only [Cursor.shift, optHeads, hb.1, hb.2, and_self, true_and]
      · refine iff_of_false (fun hc => hb ?_) fun hc => hb hc.1
        have h₂ := hc.2.1
        simp only [Cursor.shift, Prod.mk.injEq] at h₂
        exact h₂
    · rw [if_neg fun hc => hs (hgo.mp hc)]
      by_cases hl : c.l + 2 < dsrLen
      · rw [if_pos (hgo'.mpr hl)]
        simp [hs]
      · rw [if_neg fun hc => hl (hgo'.mp hc)]
        simp [optHeads]

end Walk

def RreqForwarded (me : InAddr) (dp : DsrPkt) (p : OptPtr) (r : DsrPkt × List DsrPktAction) : Prop :=
  .forwardRreq ∈ r.2 → dp.promiscRecv = false ∧ dp.numRreqOpts = 0 ∧ 6 ≤ dp.optLength p ∧
    ∃ mem dp₁, dp₁.core = dp.core ∧ dp₁.numRreqOpts = 1 ∧ r.1 = rreqForward mem me dp₁ p

section Decides

variable {me : InAddr} {dp : DsrPkt} {p : OptPtr}

theorem RreqForwarded.other {q : DsrPkt} {act : List DsrPktAction} (hn : .forwardRreq ∉ act) :
    RreqForwarded me dp p (q, act) :=
  fun hm => absurd hm hn

theorem RreqForwarded.forward (mem : ℕ → UInt8) {dp₁ : DsrPkt} (hp : dp.promiscRecv = false)
    (hn : dp.numRreqOpts = 0) (hlong : 6 ≤ dp.optLength p) (hc : dp₁.core = dp.core)
    (hn₁ : dp₁.numRreqOpts = 1) :
    RreqForwarded me dp p (rreqForward mem me dp₁ p, [.forwardRreq]) :=
  fun _ => ⟨hp, hn, hlong, mem, dp₁, hc, hn₁, rfl⟩

theorem dsrRreqOptRecv_forwarded {s s' : DsrNode} {r : DsrPkt × List DsrPktAction}
    (h : dsrRreqOptRecv dp p s = .ok r s') : RreqForwarded s.ifaddr dp p r := by
  have hdrop : ∀ q, RreqForwarded s.ifaddr dp p (q, [.drop]) := fun q => .other (by decide)
  have herr : ∀ q, RreqForwarded s.ifaddr dp p (q, [.error]) := fun q => .other (by decide)
  have hrep : ∀ q, RreqForwarded s.ifaddr dp p (q, [.none]) := fun q => .other (by decide)
  change (if dp.promiscRecv then _ else _ : DsrM _) s = _ at h
  by_cases hp : dp.promiscRecv = true
  · rw [if_pos hp] at h
    cases h
    exact hdrop dp
  rw [if_neg hp] at h
  change (if dp.numRreqOpts + 1 > 1 then _ else _ : DsrM _) s = _ at h
  by_cases hn : dp.numRreqOpts + 1 > 1
  · rw [if_pos hn] at h
    cases h
    exact herr _
  rw [if_neg hn] at h
  obtain ⟨me, s₁, hme, h⟩ := bind_ok h
  cases hme
  obtain ⟨mem, s₂, hmem, h⟩ := bind_ok h
  cases hmem
  have hzero : dp.numRreqOpts = 0 := by omega
  have hfwd : 6 ≤ dp.optLength p → ∀ dp₁ : DsrPkt, dp₁.core = dp.core →
      dp₁.numRreqOpts = dp.numRreqOpts + 1 →
      RreqForwarded s.ifaddr dp p (rreqForward s.kmem s.ifaddr dp₁ p, [.forwardRreq]) :=
    fun hlong dp₁ hc hnum =>
      .forward s.kmem (Bool.eq_false_iff.mpr hp) hzero hlong hc (hnum.trans (congrArg (· + 1) hzero))
  refine Returns.bind (fun dup => ?_) _ _ _ h
  refine Returns.ite (fun _ => Returns.pure (hdrop _)) fun _ => Returns.bind fun _ => ?_
  refine Returns.ite (fun _ => Returns.pure (herr _)) fun hshort => ?_
  have hlong : 6 ≤ dp.optLength p := Nat.le_of_not_lt hshort
  refine Returns.bind fun _ => Returns.bind fun _ => Returns.bind fun _ => ?_
  refine Returns.ite (fun _ => Returns.bind fun _ => Returns.pure (hrep _)) fun _ => ?_
  refine Returns.ite (fun _ => Returns.pure (hdrop _)) fun _ => ?_
  refine Returns.ite (fun _ => Returns.pure (hdrop _)) fun _ => Returns.bind fun rc => ?_
  cases rc with
  | none => exact Returns.pure (hfwd hlong _ rfl rfl)
  | some rc =>
    refine Returns.ite (fun _ => Returns.pure (hfwd hlong _ rfl rfl)) fun _ => ?_
    exact Returns.bind fun _ => Returns.pure (hrep _)

end Decides

def rreqFollow (l : ℕ) (dp : DsrPkt) (p : OptPtr) : List Cursor :=
  optWalk dp.byteAt dp.optsLen dp.optsLen ⟨l + (dp.optLength p + 2), optEnd dp p⟩

def rreqFollowed (dsrLen l : ℕ) (dp : DsrPkt) (p : OptPtr) : List Cursor :=
  optWalk dp.byteAt dsrLen dsrLen ⟨l + (dp.optLength p + 2), optEnd dp p⟩

structure RreqAppends (me : InAddr) (l : ℕ) (dp : DsrPkt) (p : OptPtr) (dp' : DsrPkt) (cs : List Cursor)
    (heads : List (UInt8 × UInt8)) : Prop where
  optsLen : dp'.optsLen = dp.optsLen + 4
  pLen : dp'.pLen = dp.pLen + 4
  length : dp'.optLength p = dp.optLength p + 4
  area : dp'.bytesAt 0 dp'.optsLen = rreqArea me dp p
  follow : cs = (rreqFollow l dp p).map Cursor.shift
  heads : heads = optHeads dp.byteAt (rreqFollow l dp p)

structure RreqTail (l : ℕ) (dp : DsrPkt) (p : OptPtr) : Prop where
  pLen : dp.pLen + 4 < 65536
  ends : ∀ c ∈ rreqFollow l dp p, c.l + 6 < dp.optsLen
  kept : ∀ j, (optEnd dp p + j < dp.optsLen ∨ ∃ c ∈ rreqFollow l dp p,
    optEnd dp p + j = c.off ∨ optEnd dp p + j = c.off + 1) → rreqKept dp p j

section Appends

variable {dp : DsrPkt} {p : OptPtr} {n : ℕ} (h : RreqAt dp p n) (mem : ℕ → UInt8) (me : InAddr) (l : ℕ)

include h

theorem rreqForward_optLength_eq : (rreqForward mem me dp p).optLength p = dp.optLength p + 4 := by
  have hlen := h.length
  have hfew := h.few
  have hoff : 4 ≤ p.off := h.off_le
  have hl := rreqForward_optLength mem me h.live (by rw [h.tailroom]; decide) h.off_le (by omega)
  rw [hl.2]
  omega

theorem rreqForward_pLen_iff : (rreqForward mem me dp p).pLen = dp.pLen + 4 ↔ dp.pLen + 4 < 65536 := by
  rw [DsrPkt.pLen, rreqForward_byteAt h mem me, rreqForward_byteAt h mem me, if_pos (Or.inl rfl),
    if_pos (Or.inr rfl)]
  simp only [toBe16, be16, Nat.sub_self, List.getD_cons_zero, List.getD_cons_succ, UInt8.toNat_ofNat']
  omega

theorem rreqForward_appends_iff {cs : List Cursor}
    (hcs : cs = rreqFollowed dp.optsLen l (rreqForward mem me dp p) p) :
    RreqAppends me l dp p (rreqForward mem me dp p) cs (optHeads (rreqForward mem me dp p).byteAt cs) ↔
      RreqTail l dp p := by
  subst hcs
  have hlen := rreqForward_optLength_eq h mem me
  have hend : optEnd (rreqForward mem me dp p) p = optEnd dp p + 4 := by
    rw [optEnd, optEnd, hlen]
    omega
  have hfollowed : rreqFollowed dp.optsLen l (rreqForward mem me dp p) p =
      optWalk (rreqForward mem me dp p).byteAt dp.optsLen dp.optsLen
        (Cursor.shift ⟨l + (dp.optLength p + 2), optEnd dp p⟩) := by
    rw [rreqFollowed, hlen, hend, Cursor.shift]
    congr 2
  have hwalk := optWalk_shift_iff dp.byteAt (rreqForward mem me dp p).byteAt
    dp.optsLen dp.optsLen ⟨l + (dp.optLength p + 2), optEnd dp p⟩
  rw [← hfollowed] at hwalk
  have hkept : ∀ d ∈ rreqFollow l dp p, ∀ i, (rreqForward mem me dp p).byteAt (d.off + i + 4) =
      dp.byteAt (d.off + i) ↔ rreqKept dp p (d.off + i - optEnd dp p) := by
    intro d hd i
    have hoff : optEnd dp p ≤ d.off := optWalk_off_le hd
    rw [← rreqForward_kept_iff h mem me]
    have h₁ : optEnd dp p + 4 + (d.off + i - optEnd dp p) = d.off + i + 4 := by omega
    have h₂ : optEnd dp p + (d.off + i - optEnd dp p) = d.off + i := by omega
    rw [h₁, h₂]
  constructor
  · intro ha
    have hw := hwalk.mp ⟨ha.follow, ha.heads⟩
    refine ⟨(rreqForward_pLen_iff h mem me).mp ha.pLen, fun c hc => (hw c hc).1, ?_⟩
    rintro j (hj | ⟨c, hc, hj | hj⟩)
    · exact (rreqForward_area_iff h mem me).mp ha.area j hj
    · have hk := (hkept c hc 0).mp (hw c hc).2.1
      rw [Nat.add_zero, ← hj, Nat.add_sub_cancel_left] at hk
      exact hk
    · have hk := (hkept c hc 1).mp (hw c hc).2.2
      rw [← hj, Nat.add_sub_cancel_left] at hk
      exact hk
  · intro ht
    obtain ⟨b, hb, _⟩ := h.buffer
    have hw := hwalk.mpr fun d hd => by
      have hoff : optEnd dp p ≤ d.off := optWalk_off_le hd
      refine ⟨ht.ends d hd, (hkept d hd 0).mpr (ht.kept _ (Or.inr ⟨d, hd, Or.inl ?_⟩)),
        (hkept d hd 1).mpr (ht.kept _ (Or.inr ⟨d, hd, Or.inr ?_⟩))⟩
      all_goals omega
    refine ⟨?_, (rreqForward_pLen_iff h mem me).mpr ht.pLen, hlen,
      (rreqForward_area_iff h mem me).mpr fun j hj => ht.kept j (Or.inl hj), hw.1, hw.2⟩
    rw [optsLen_dh (rreqForward_dh h mem me hb), optsLen_dh hb]

end Appends

section Core

variable {dp dp₁ : DsrPkt} {p : OptPtr} (hdh : dp₁.dh = dp.dh) (hgen : dp₁.gen = dp.gen)

include hdh

theorem byteAt_congr_dh : dp₁.byteAt = dp.byteAt := by
  funext i
  rw [DsrPkt.byteAt, DsrPkt.byteAt, hdh]

theorem optsLen_congr_dh : dp₁.optsLen = dp.optsLen := by rw [DsrPkt.optsLen, DsrPkt.optsLen, hdh]

include hgen

theorem optLength_congr_dh (p : OptPtr) : dp₁.optLength p = dp.optLength p := by
  rw [DsrPkt.optLength, DsrPkt.optLength, DsrPkt.fieldAt, DsrPkt.fieldAt, DsrPkt.live, DsrPkt.live,
    byteAt_congr_dh hdh, hdh, hgen]

theorem RreqAt.congr {n : ℕ} (h : RreqAt dp p n) : RreqAt dp₁ p n := by
  have hb := byteAt_congr_dh hdh
  have hl := optLength_congr_dh hdh hgen p
  have ho := optsLen_congr_dh hdh
  refine ⟨?_, ?_, ?_, h.off_le, hl ▸ h.length, h.few, by rw [hl, ho]; exact h.inside⟩
  · rw [DsrPkt.live, hdh, hgen]
    exact h.live
  · rw [DsrPkt.tailroom, hdh]
    exact h.tailroom
  · rw [DsrPkt.pLen, hb, ho]
    exact h.pLen

theorem RreqTail.congr_iff (l : ℕ) : RreqTail l dp₁ p ↔ RreqTail l dp p := by
  have hb := byteAt_congr_dh hdh
  have hl := optLength_congr_dh hdh hgen p
  have ho := optsLen_congr_dh hdh
  have hp : dp₁.pLen = dp.pLen := by rw [DsrPkt.pLen, DsrPkt.pLen, hb]
  have he : optEnd dp₁ p = optEnd dp p := by rw [optEnd, optEnd, hl]
  have hk : rreqKept dp₁ p = rreqKept dp p := by
    funext j
    rw [rreqKept, rreqKept, dsrLastOpt, dsrLastOpt, hb, hl, hp, he]
  have hf : rreqFollow l dp₁ p = rreqFollow l dp p := by rw [rreqFollow, rreqFollow, hb, ho, hl, he]
  constructor
  · intro h
    exact ⟨hp ▸ h.pLen, by rw [← hf, ← ho]; exact h.ends, by rw [← hf, ← ho, ← he, ← hk]; exact h.kept⟩
  · intro h
    exact ⟨hp ▸ h.pLen, by rw [hf, ho]; exact h.ends, by rw [hf, ho, he, hk]; exact h.kept⟩

theorem RreqAppends.congr_iff (me : InAddr) (l : ℕ) (dp' : DsrPkt) (cs : List Cursor)
    (heads : List (UInt8 × UInt8)) :
    RreqAppends me l dp₁ p dp' cs heads ↔ RreqAppends me l dp p dp' cs heads := by
  have hb := byteAt_congr_dh hdh
  have hl := optLength_congr_dh hdh hgen p
  have ho := optsLen_congr_dh hdh
  have hp : dp₁.pLen = dp.pLen := by rw [DsrPkt.pLen, DsrPkt.pLen, hb]
  have he : optEnd dp₁ p = optEnd dp p := by rw [optEnd, optEnd, hl]
  have hf : rreqFollow l dp₁ p = rreqFollow l dp p := by rw [rreqFollow, rreqFollow, hb, ho, hl, he]
  have ha : rreqArea me dp₁ p = rreqArea me dp p := by
    rw [rreqArea, rreqArea, DsrPkt.bytesAt, DsrPkt.bytesAt, hdh, ho, he, hl, hp]
  constructor
  · intro h
    exact ⟨ho ▸ h.optsLen, hp ▸ h.pLen, hl ▸ h.length, ha ▸ h.area, hf ▸ h.follow, hf ▸ hb ▸ h.heads⟩
  · intro h
    exact ⟨ho ▸ h.optsLen, hp ▸ h.pLen, hl ▸ h.length, ha ▸ h.area, hf ▸ h.follow, hf ▸ hb ▸ h.heads⟩

end Core

section Others

variable {me : InAddr} {dp : DsrPkt} {p : OptPtr}

theorem dsrRrepOptRecv_forwarded : Returns (RreqForwarded me dp p) (dsrRrepOptRecv dp p) := by
  refine Returns.ite (fun _ => Returns.pure (.other (by decide))) fun _ => ?_
  dsimp only
  refine Returns.ite (fun _ => Returns.pure (.other (by decide))) fun _ => ?_
  refine Returns.bind fun _ => Returns.bind fun _ => Returns.bind fun _ => Returns.bind fun _ => ?_
  exact Returns.ite (fun _ => Returns.pure (.other (by decide))) fun _ => Returns.pure (.other (by decide))

theorem dsrRerrOptRecv_forwarded : Returns (RreqForwarded me dp p) (dsrRerrOptRecv dp p) := by
  refine Returns.ite (fun _ => Returns.bind fun _ => Returns.bind fun _ => ?_) fun _ => ?_
  all_goals exact Returns.pure (.other (by decide))

theorem dsrAckReqOptRecv_forwarded : Returns (RreqForwarded me dp p) (dsrAckReqOptRecv dp p) := by
  refine Returns.ite (fun _ => Returns.pure (.other (by decide))) fun _ => ?_
  exact Returns.bind fun _ => Returns.pure (.other (by decide))

theorem dsrAckOptRecv_forwarded :
    Returns (fun act : List DsrPktAction => .forwardRreq ∉ act) (dsrAckOptRecv dp p) := by
  refine Returns.bind fun _ => Returns.ite (fun _ => Returns.pure (by decide)) fun _ => ?_
  exact Returns.bind fun _ => Returns.pure (by decide)

theorem dsrSrtOptRecv_forwarded : Returns (RreqForwarded me dp p) (dsrSrtOptRecv dp p) := by
  refine Returns.bind fun _ => Returns.bind fun _ => Returns.bind fun _ => Returns.bind fun _ => ?_
  refine Returns.bind fun _ => Returns.ite (fun _ => Returns.pure (.other (by decide))) fun _ => ?_
  refine Returns.ite (fun _ => Returns.pure (.other (by decide))) fun _ => ?_
  exact Returns.ite (fun _ => Returns.pure (.other (by decide))) fun _ => Returns.pure (.other (by decide))

end Others

theorem dsrOptRecvOne_forwarded {dp : DsrPkt} {p : OptPtr} {s s' : DsrNode}
    {r : DsrPkt × List DsrPktAction} (h : dsrOptRecvOne dp p s = .ok r s') :
    RreqForwarded s.ifaddr dp p r := by
  have hnone : Returns (RreqForwarded s.ifaddr dp p)
      (pure (dp, []) : DsrM (DsrPkt × List DsrPktAction)) := Returns.pure (.other (by decide))
  unfold dsrOptRecvOne at h
  generalize optTypeOf (dp.fieldAt p 0) = t at h
  cases t
  case rreq =>
    change (if dp.promiscRecv then _ else _ : DsrM _) s = _ at h
    by_cases hp : dp.promiscRecv = true
    · rw [if_pos hp] at h
      exact hnone _ _ _ h
    · rw [if_neg hp] at h
      exact dsrRreqOptRecv_forwarded h
  case rrep => exact Returns.ite (fun _ => hnone) (fun _ => dsrRrepOptRecv_forwarded) _ _ _ h
  case rerr => exact Returns.ite (fun _ => hnone) (fun _ => dsrRerrOptRecv_forwarded) _ _ _ h
  case ack =>
    refine Returns.ite (fun _ => hnone) (fun _ => ?_) _ _ _ h
    exact Returns.bind_returns dsrAckOptRecv_forwarded fun act hact => Returns.pure (.other hact)
  case srt => exact dsrSrtOptRecv_forwarded _ _ _ h
  case ackReq => exact dsrAckReqOptRecv_forwarded _ _ _ h
  all_goals exact hnone _ _ _ h

structure AreaKept (len : ℕ) (dp : DsrPkt) (p : OptPtr) : Prop where
  live : dp.live p = true
  tailroom : dp.tailroom = defaultTailroom
  optsLen : dp.optsLen = len
  pLen : dp.pLen + dsrOptHdrLen = len

section Kept

variable {len : ℕ} {dp dp₁ : DsrPkt} {p : OptPtr}

theorem AreaKept.touch (h : AreaKept len dp p) (ht : Touch dp p dp₁) (hoff : dsrOptHdrLen ≤ p.off)
    (off : ℕ) : AreaKept len dp₁ { p with off := off } := by
  have hlive := h.live
  have hfour : 4 ≤ p.off := hoff
  refine ⟨?_, ht.tailroom.trans h.tailroom, ht.optsLen.trans h.optsLen, ?_⟩
  · rw [DsrPkt.live] at hlive ⊢
    rw [ht.isSome, ht.gen]
    exact hlive
  · rw [DsrPkt.pLen, ht.bytes 2 fun _ => by omega, ht.bytes 3 fun _ => by omega]
    exact h.pLen

theorem dsrPktRecv_areaKept {skb : Skb} (h : skb.iph.protocol = ipprotoDsr) (mem : ℕ → UInt8)
    (promisc : Bool) : AreaKept (dsrPktRecv mem promisc skb).optsLen (dsrPktRecv mem promisc skb)
      ((dsrPktRecv mem promisc skb).ptr dsrOptHdrLen) := by
  have hdh := dsrPktRecv_dh h mem promisc
  refine ⟨dsrPktRecv_live h mem promisc, ?_, rfl, ?_⟩
  · rw [DsrPkt.tailroom, hdh]
    simp [fill]
  · have hlt : 4 ≤ dsrOptsLenOf skb := Nat.le_add_left _ _
    rw [DsrPkt.pLen, byteAt_dh hdh, byteAt_dh hdh, optsLen_dh hdh]
    simp only
    rw [getD_append_left (by rw [length_readAt]; omega), getD_append_left (by rw [length_readAt]; omega),
      getD_readAt (by omega), getD_readAt (by omega)]
    rfl

theorem AreaKept.rreqAt {n : ℕ} (h : AreaKept len dp p) (hoff : dsrOptHdrLen ≤ p.off)
    (hlen : dp.optLength p = 6 + 4 * n) (hfew : n ≤ 61) (hin : optEnd dp p ≤ len) : RreqAt dp p n :=
  ⟨h.live, h.tailroom, h.pLen.trans h.optsLen.symm, hoff, hlen, hfew, by rw [h.optsLen]; exact hin⟩

end Kept

def nextPkt (dp' : DsrPkt) : List Dispatch → DsrPkt
  | [] => dp'
  | d :: _ => d.before

theorem Walked.nextPkt_eq {dsrLen l : ℕ} {p : OptPtr} {dp dp' : DsrPkt} {s s' : DsrNode}
    {tr : List Dispatch} (h : Walked dsrLen l p dp s tr dp' s') : nextPkt dp' tr = dp := by
  cases h <;> rfl

structure Forwards (me : InAddr) (dsrLen : ℕ) (d : Dispatch) (post : List Dispatch) (dp' : DsrPkt)
    (s' : DsrNode) : Prop where
  kept : AreaKept dsrLen d.before d.p
  off_le : dsrOptHdrLen ≤ d.p.off
  next : ∃ mem dp₁, dp₁.core = d.before.core ∧ dp₁.numRreqOpts = 1 ∧
    nextPkt dp' post = rreqForward mem me dp₁ d.p
  walk : ∃ s₁, Walked dsrLen (d.l + ((nextPkt dp' post).optLength d.p + 2))
    { d.p with off := optEnd (nextPkt dp' post) d.p } (nextPkt dp' post) s₁ post dp' s'

theorem Walked.forwards {dsrLen l : ℕ} {p : OptPtr} {dp dp' : DsrPkt} {s s' : DsrNode}
    {tr : List Dispatch} (h : Walked dsrLen l p dp s tr dp' s') :
    (dp.numRreqOpts = 0 → AreaKept dsrLen dp p) → dsrOptHdrLen ≤ p.off →
    ∀ {pre post : List Dispatch} {d : Dispatch}, tr = pre ++ d :: post → .forwardRreq ∈ d.act →
    Forwards s.ifaddr dsrLen d post dp' s' := by
  induction h with
  | done _ =>
    intro _ _ pre post d htr
    cases pre <;> cases htr
  | @pad1 l p dp s tr dp' s' hg hp _ ih =>
    intro hkept hoff pre post d htr hf
    cases pre with
    | nil =>
      cases htr
      exact absurd hf List.not_mem_nil
    | cons x pre =>
      cases htr
      refine ih (fun hn => ?_) (Nat.le_trans hoff (Nat.le_add_right _ _)) rfl hf
      exact ⟨(hkept hn).live, (hkept hn).tailroom, (hkept hn).optsLen, (hkept hn).pLen⟩
  | @opt l p dp s dp₁ act s₁ tr dp' s' hg hp hone hw ih =>
    intro hkept hoff pre post d htr hf
    cases pre with
    | nil =>
      cases htr
      obtain ⟨-, hnum, -, hnext⟩ := dsrOptRecvOne_forwarded hone hf
      rw [← hw.nextPkt_eq] at hnext hw
      exact ⟨hkept hnum, hoff, hnext, s₁, hw⟩
    | cons x pre =>
      cases htr
      have hres := dsrOptRecvOne_received dp p s _ s₁ hone
      have hnum : dp₁.numRreqOpts = if rreqTaken dp p then dp.numRreqOpts + 1 else dp.numRreqOpts :=
        congrArg Prod.fst hres.lists
      rw [← (dsrOptRecvOne_later hoff hone).ifaddr]
      refine ih (fun hn => ?_) (Nat.le_trans hoff (Nat.le_add_right _ _)) rfl hf
      rcases hres.area with ht | hfw
      · refine (hkept ?_).touch ht hoff _
        split at hnum <;> omega
      · rw [if_pos ⟨hfw.type, hfw.promisc⟩] at hnum
        omega

theorem Forwards.appends_iff {me : InAddr} {dsrLen n : ℕ} {d : Dispatch} {post : List Dispatch}
    {dp' : DsrPkt} {s' : DsrNode} (h : Forwards me dsrLen d post dp' s')
    (hlen : d.before.optLength d.p = 6 + 4 * n) (hfew : n ≤ 61) (hin : optEnd d.before d.p ≤ dsrLen) :
    RreqAppends me d.l d.before d.p (nextPkt dp' post) (post.map Dispatch.cursor) (post.map Dispatch.head) ↔
      RreqTail d.l d.before d.p := by
  obtain ⟨mem, dp₁, hc, hnum, hnext⟩ := h.next
  obtain ⟨s₁, hw⟩ := h.walk
  have hdh : dp₁.dh = d.before.dh := core_dh hc
  have hgen := congrArg DsrPkt.gen hc
  change dp₁.gen = d.before.gen at hgen
  have hat : RreqAt dp₁ d.p n := (h.kept.rreqAt h.off_le hlen hfew hin).congr hdh hgen
  have hlen' := rreqForward_optLength_eq hat mem me
  obtain ⟨b, hb, -, hraw⟩ := hat.buffer
  rw [hnext] at hw ⊢
  have hlive : (rreqForward mem me dp₁ d.p).live d.p = true :=
    (rreqForward_optLength mem me hat.live (by rw [hat.tailroom]; decide) hat.off_le
      (by have := hat.length; omega)).1
  have hroom : 4 < (rreqForward mem me dp₁ d.p).tailroom := by
    rw [DsrPkt.tailroom, rreqForward_dh hat mem me hb]
    simp only [length_writeAt]
    split <;> simp [hraw, defaultTailroom]
  have hsafe : (rreqForward mem me dp₁ d.p).numRreqOpts ≠ 0 := by
    have hl : (rreqForward mem me dp₁ d.p).numRreqOpts = dp₁.numRreqOpts :=
      congrArg Prod.fst (rreqForward_optLists mem me dp₁ d.p)
    omega
  obtain ⟨hcur, hfaith⟩ :
      post.map Dispatch.cursor = rreqFollowed dsrLen d.l (rreqForward mem me dp₁ d.p) d.p ∧
        ∀ x ∈ post, Faithful (rreqForward mem me dp₁ d.p).byteAt _ x :=
    hw.follows hlive (Nat.le_trans h.off_le (Nat.le_add_right _ _)) hroom (fun _ _ => rfl)
      (Nat.le_add_left _ _) (Or.inr (Or.inl hsafe))
  have hheads : post.map Dispatch.head =
      optHeads (rreqForward mem me dp₁ d.p).byteAt (post.map Dispatch.cursor) := by
    rw [optHeads, List.map_map]
    exact List.map_congr_left fun x hx => (hfaith x hx).head
  rw [hheads, ← RreqAppends.congr_iff hdh hgen, ← RreqTail.congr_iff hdh hgen]
  refine rreqForward_appends_iff hat mem me d.l ?_
  rw [hcur, optsLen_congr_dh hdh, h.kept.optsLen]

theorem rreq_forward_appends_iff {skb : Skb} (h : skb.iph.protocol = ipprotoDsr) (mem : ℕ → UInt8)
    (promisc : Bool) {s s' : DsrNode} {dp' : DsrPkt} {pre post : List Dispatch} {d : Dispatch} {n : ℕ}
    (htr : RecvTrace (dsrPktRecv mem promisc skb) s (pre ++ d :: post) dp' s')
    (hf : .forwardRreq ∈ d.act) (hlen : d.before.optLength d.p = 6 + 4 * n) (hfew : n ≤ 61)
    (hin : optEnd d.before d.p ≤ (dsrPktRecv mem promisc skb).optsLen) :
    RreqAppends s.ifaddr d.l d.before d.p (nextPkt dp' post) (post.map Dispatch.cursor)
      (post.map Dispatch.head) ↔ RreqTail d.l d.before d.p :=
  (htr.forwards (fun _ => dsrPktRecv_areaKept h mem promisc) (Nat.le_refl _) rfl hf).appends_iff hlen hfew
    hin

def rreqSkb (after : List UInt8) : Skb :=
  { hSource := 0
    iph := { ihl := 5, totLen := 32 + after.length, ttl := 64, protocol := ipprotoDsr
             saddr := ⟨10, 0, 0, 2⟩, daddr := ⟨255, 255, 255, 255⟩ }
    data := [0, 0, 0, UInt8.ofNat (8 + after.length)] ++ rreqOptBytes ⟨10, 0, 0, 3⟩ 1 ++ after }

def rreqPktOf (after : List UInt8) : DsrPkt := dsrPktRecv (fun _ => 0) false (rreqSkb after)

def rreqNode : DsrNode := dsrNodeInit ⟨10, 0, 0, 1⟩ confvalsDef true 8 ⟨100, 0⟩ (fun _ => 0) 0

def rreqDispatch (after : List UInt8) (act : List DsrPktAction) : Dispatch :=
  ⟨4, ⟨1, 4⟩, rreqPktOf after, rreqNode, act⟩

theorem rreqPktOf_forwards {after : List UInt8} (hlen : (rreqPktOf after).optsLen = 12 + after.length)
    (hafter : after.length ≤ 4) (hptr : (rreqPktOf after).ptr 4 = ⟨1, 4⟩)
    (htype : optTypeOf ((rreqPktOf after).fieldAt ⟨1, 4⟩ 0) ≠ .pad1)
    (hrun : (okVal (dsrOptRecvOne (rreqPktOf after) ⟨1, 4⟩ rreqNode)).map
      (fun r => (r.1.optLength ⟨1, 4⟩, r.2)) = some (10, [.forwardRreq])) :
    ∃ dp' s', RecvTrace (rreqPktOf after) rreqNode [rreqDispatch after [.forwardRreq]] dp' s' := by
  obtain ⟨⟨dp', act⟩, hok, heq⟩ := Option.map_eq_some_iff.mp hrun
  obtain ⟨s', hone⟩ := okVal_eq_some hok
  have hl : dp'.optLength ⟨1, 4⟩ = 10 := congrArg Prod.fst heq
  have hact : act = [.forwardRreq] := congrArg Prod.snd heq
  subst hact
  refine ⟨dp', s', ?_⟩
  unfold RecvTrace
  rw [hlen, dsrOptHdrLen, hptr]
  refine Walked.opt (by omega) htype hone (Walked.done ?_)
  rw [hl]
  omega

theorem rreq_forward_appends_alone : RreqTail 4 (rreqPktOf []) ⟨1, 4⟩ ∧
    ∃ dp', RreqAppends ⟨10, 0, 0, 1⟩ 4 (rreqPktOf []) ⟨1, 4⟩ dp' [] [] := by
  obtain ⟨dp', s', htr⟩ := @rreqPktOf_forwards [] (by decide +kernel) (by decide) (by decide +kernel)
    (by decide +kernel) (by decide +kernel)
  have hend : optEnd (rreqPktOf []) ⟨1, 4⟩ = 12 := by decide +kernel
  have hlen : (rreqPktOf []).optsLen = 12 := by decide +kernel
  have hfollow : rreqFollow 4 (rreqPktOf []) ⟨1, 4⟩ = [] := by decide +kernel
  have htail : RreqTail 4 (rreqPktOf []) ⟨1, 4⟩ := by
    refine ⟨by decide +kernel, fun c hc => ?_, fun j hj => ?_⟩
    · rw [hfollow] at hc
      exact absurd hc List.not_mem_nil
    · rw [hfollow, hend, hlen] at hj
      rcases hj with hj | ⟨c, hc, -⟩
      · omega
      · exact absurd hc List.not_mem_nil
  have htr' : RecvTrace (rreqPktOf []) rreqNode ([] ++ rreqDispatch [] [.forwardRreq] :: []) dp' s' := htr
  exact ⟨htail, dp', (rreq_forward_appends_iff (show (rreqSkb []).iph.protocol = ipprotoDsr from rfl)
    (fun _ => 0) false (n := 0) htr' (List.mem_singleton_self _) (by decide +kernel) (by decide)
    (by decide +kernel)).mpr htail⟩

theorem rreq_forward_not_appends : ∃ dp' s',
    RecvTrace (rreqPktOf (ackReqOptBytes 1)) rreqNode [rreqDispatch (ackReqOptBytes 1) [.forwardRreq]] dp' s' ∧
      (rreqPktOf (ackReqOptBytes 1)).optLength ⟨1, 4⟩ = 6 + 4 * 0 ∧
      optEnd (rreqPktOf (ackReqOptBytes 1)) ⟨1, 4⟩ ≤ (rreqPktOf (ackReqOptBytes 1)).optsLen ∧
      ¬ RreqAppends rreqNode.ifaddr 4 (rreqPktOf (ackReqOptBytes 1)) ⟨1, 4⟩ dp' [] [] := by
  obtain ⟨dp', s', htr⟩ := @rreqPktOf_forwards (ackReqOptBytes 1) (by decide +kernel) (by decide)
    (by decide +kernel) (by decide +kernel) (by decide +kernel)
  refine ⟨dp', s', htr, by decide +kernel, by decide +kernel, fun h => ?_⟩
  have hf := h.follow
  revert hf
  decide +kernel

end DsrUu
