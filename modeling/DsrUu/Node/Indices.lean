import DsrUu.Node.Recv
import DsrUu.Pkt.Encode

namespace DsrUu

open Bytes

def nextHopIdx (n : ℕ) (sleft : Int) : List Int := if sleft ≤ 0 then [] else [n - sleft]

def prevHopIdx (n : ℕ) (sleft : Int) : List Int := if (n : Int) - 1 = sleft then [] else [n - 2 - sleft]

theorem dsrSrtNextHop_idx (srt : DsrSrt) (sleft : Int) :
    dsrSrtNextHop srt sleft = ((nextHopIdx srt.n sleft).map srt.addrAt).headD srt.dst := by
  unfold dsrSrtNextHop nextHopIdx
  split <;> rfl

theorem dsrSrtPrevHop_idx (srt : DsrSrt) (sleft : Int) :
    dsrSrtPrevHop srt sleft = ((prevHopIdx srt.n sleft).map srt.addrAt).headD srt.src := by
  unfold dsrSrtPrevHop prevHopIdx
  split <;> rfl

def srtBodyAddrs (length : ℕ) : ℕ := (length - 2) / 4

def rrepBodyAddrs (length : ℕ) : ℕ := (length - 2) / 4

def rreqBodyAddrs (length : ℕ) : ℕ := (length - 6) / 4

def dsrRrepAddrsLen (length : ℕ) : ℕ := toUint64 ((length : Int) - 1 - 4)

def dsrRreqAddrsLen (length : ℕ) : ℕ := toUint32 ((length : Int) - 6)

structure SrtIndexed (mem : ℕ → UInt8) (dp : DsrPkt) (p : OptPtr) : Prop where
  list : (srtOptSrt mem dp p).laddrs ≤ dp.optLength p
  index : ∀ i ∈ nextHopIdx (srtOptSrt mem dp p).n (srtOptSleft dp p) ++
      prevHopIdx (srtOptSrt mem dp p).n ((srtOptSleft dp p : Int) - 1) ++
      nextHopIdx (srtOptSrt mem dp p).n ((srtOptSleft dp p : Int) - 1),
    0 ≤ i ∧ i < srtBodyAddrs (dp.optLength p)

structure RrepIndexed (dp : DsrPkt) (p : OptPtr) : Prop where
  list : toUint32 (dsrRrepAddrsLen (dp.optLength p)) ≤ dp.optLength p
  index : dsrRrepAddrsLen (dp.optLength p) / 4 < rrepBodyAddrs (dp.optLength p)

structure RreqIndexed (dp : DsrPkt) (p : OptPtr) : Prop where
  list : dsrRreqAddrsLen (dp.optLength p) ≤ dp.optLength p
  read : ∀ i, i < dsrRreqAddrsLen (dp.optLength p) / 4 → i < rreqBodyAddrs (dp.optLength p)
  append : dsrRreqAddrsLen (dp.optLength p) / 4 < rreqBodyAddrs ((dp.optLength p + 4) % 256)

def RrepRefused (dp : DsrPkt) : Prop := dp.promiscRecv = true ∨ maxRrepOpts ≤ dp.rrepOpt.length

def RreqRefused (dp : DsrPkt) : Prop := dp.promiscRecv = true ∨ 0 < dp.numRreqOpts

theorem dsrRrepOptRecv_refused {dp : DsrPkt} (h : RrepRefused dp) (p : OptPtr) :
    dsrRrepOptRecv dp p = pure (dp, [.error]) := by
  rw [dsrRrepOptRecv, if_pos]
  rcases h with h | h
  · rw [h]
    rfl
  · rw [decide_eq_true h, Bool.or_true]

theorem dsrRreqOptRecv_refused {dp : DsrPkt} (h : RreqRefused dp) (p : OptPtr) :
    ∃ dp' act, dsrRreqOptRecv dp p = pure (dp', act) := by
  unfold dsrRreqOptRecv
  by_cases hp : dp.promiscRecv = true
  · rw [if_pos hp]
    exact ⟨_, _, rfl⟩
  · rw [if_neg hp]
    dsimp only
    rw [if_pos (by have := h.resolve_left hp; omega)]
    exact ⟨_, _, rfl⟩

section Arith

variable {dp : DsrPkt} {p : OptPtr}

theorem optLength_lt (dp : DsrPkt) (p : OptPtr) : dp.optLength p < 256 := UInt8.toNat_lt _

theorem rrepOptAddrsLen_eq (h : 5 ≤ dp.optLength p) :
    rrepOptAddrsLen dp p = dsrRrepAddrsLen (dp.optLength p) := by
  have hlt := optLength_lt dp p
  unfold rrepOptAddrsLen dsrRrepAddrsLen toUint64
  omega

theorem rreqOptSrt_laddrs (mem : ℕ → UInt8) (me : InAddr) (h : 6 ≤ dp.optLength p) :
    (rreqOptSrt mem me dp p).laddrs = dsrRreqAddrsLen (dp.optLength p) := by
  have hlt := optLength_lt dp p
  change dp.optLength p - 6 = _
  unfold dsrRreqAddrsLen toUint32
  omega

theorem srtIndexed_iff (mem : ℕ → UInt8) : SrtIndexed mem dp p ↔
    srtOptSleft dp p ≤ dp.optLength p / 4 ∧
      (dp.optLength p / 4 = (dp.optLength p - 2) / 4 ∨ 3 ≤ srtOptSleft dp p) := by
  have hn : (srtOptSrt mem dp p).n = dp.optLength p / 4 := rfl
  refine ⟨fun h => ?_, fun h => ⟨Nat.le_refl _, fun i hi => ?_⟩⟩
  · have hall := h.index
    rw [hn] at hall
    generalize srtOptSleft dp p = sleft at hall ⊢
    generalize dp.optLength p = len at hall ⊢
    simp only [nextHopIdx, prevHopIdx, srtBodyAddrs, List.mem_append] at hall
    have h₁ : 1 ≤ sleft → (0 : Int) ≤ (len / 4 : ℕ) - sleft ∧
        ((len / 4 : ℕ) : Int) - sleft < ((len - 2) / 4 : ℕ) := by
      intro hs
      exact hall _ (Or.inl (Or.inl (by rw [if_neg (by omega)]; exact List.mem_singleton_self _)))
    have h₂ : len / 4 ≠ sleft → (0 : Int) ≤ (len / 4 : ℕ) - 2 - ((sleft : Int) - 1) ∧
        ((len / 4 : ℕ) : Int) - 2 - ((sleft : Int) - 1) < ((len - 2) / 4 : ℕ) := by
      intro hs
      exact hall _ (Or.inl (Or.inr (by rw [if_neg (by omega)]; exact List.mem_singleton_self _)))
    have h₃ : 2 ≤ sleft → (0 : Int) ≤ (len / 4 : ℕ) - ((sleft : Int) - 1) ∧
        ((len / 4 : ℕ) : Int) - ((sleft : Int) - 1) < ((len - 2) / 4 : ℕ) := by
      intro hs
      exact hall _ (Or.inr (by rw [if_neg (by omega)]; exact List.mem_singleton_self _))
    omega
  · rw [hn] at hi
    generalize srtOptSleft dp p = sleft at hi h
    generalize dp.optLength p = len at hi h ⊢
    simp only [nextHopIdx, prevHopIdx, List.mem_append] at hi
    unfold srtBodyAddrs
    rcases hi with (hi | hi) | hi
    · split at hi
      · exact absurd hi List.not_mem_nil
      · rw [List.mem_singleton.mp hi]
        omega
    · split at hi
      · exact absurd hi List.not_mem_nil
      · rw [List.mem_singleton.mp hi]
        omega
    · split at hi
      · exact absurd hi List.not_mem_nil
      · rw [List.mem_singleton.mp hi]
        omega

theorem rrepIndexed_iff : RrepIndexed dp p ↔ 5 ≤ dp.optLength p ∧ (dp.optLength p - 5) % 4 ≠ 0 := by
  have hlt := optLength_lt dp p
  refine ⟨fun ⟨hl, hi⟩ => ?_, fun h => ⟨?_, ?_⟩⟩
  · unfold dsrRrepAddrsLen toUint64 rrepBodyAddrs at hi
    omega
  · unfold dsrRrepAddrsLen toUint64 toUint32
    omega
  · unfold dsrRrepAddrsLen toUint64 rrepBodyAddrs
    omega

theorem rreqIndexed_iff : RreqIndexed dp p ↔ 6 ≤ dp.optLength p ∧ dp.optLength p ≤ 251 := by
  have hlt := optLength_lt dp p
  refine ⟨fun ⟨hl, _, ha⟩ => ?_, fun h => ⟨?_, fun i hi => ?_, ?_⟩⟩
  · unfold dsrRreqAddrsLen toUint32 at hl ha
    unfold rreqBodyAddrs at ha
    omega
  · unfold dsrRreqAddrsLen toUint32
    omega
  · unfold dsrRreqAddrsLen toUint32 at hi
    unfold rreqBodyAddrs
    omega
  · unfold dsrRreqAddrsLen toUint32 rreqBodyAddrs
    omega

end Arith

theorem options_indexed_iff (mem : ℕ → UInt8) (dp : DsrPkt) (p : OptPtr) :
    (SrtIndexed mem dp p ↔ srtOptSleft dp p ≤ dp.optLength p / 4 ∧
      (dp.optLength p / 4 = (dp.optLength p - 2) / 4 ∨ 3 ≤ srtOptSleft dp p)) ∧
    (RrepRefused dp ∨ RrepIndexed dp p ↔
      RrepRefused dp ∨ 5 ≤ dp.optLength p ∧ (dp.optLength p - 5) % 4 ≠ 0) ∧
    (RreqRefused dp ∨ RreqIndexed dp p ↔
      RreqRefused dp ∨ 6 ≤ dp.optLength p ∧ dp.optLength p ≤ 251) ∧
    ((∀ q ∈ dp.rrepOpt, RrepIndexed dp q) ↔
      ∀ q ∈ dp.rrepOpt, 5 ≤ dp.optLength q ∧ (dp.optLength q - 5) % 4 ≠ 0) :=
  ⟨srtIndexed_iff mem, or_congr_right rrepIndexed_iff, or_congr_right rreqIndexed_iff,
    forall₂_congr fun _ _ => rrepIndexed_iff⟩

def replyPkt : DsrPkt := encPkt [.rrep encRoute]

def sleftPkt : DsrPkt := srtOptSetSleft (encPkt [.srt 0 encRoute]) ⟨0, 4⟩ 5

theorem options_not_indexed :
    (¬ RrepRefused replyPkt ∧ ¬ RrepIndexed replyPkt ⟨0, 4⟩) ∧ ¬ SrtIndexed (fun _ => 0) sleftPkt ⟨0, 4⟩ := by
  refine ⟨⟨?_, fun h => ?_⟩, fun h => ?_⟩
  · unfold RrepRefused
    decide +kernel
  · have hi := h.index
    revert hi
    decide +kernel
  · have hi := h.index (-4) (by decide +kernel)
    revert hi
    decide +kernel

end DsrUu
