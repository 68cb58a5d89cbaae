import DsrUu.Node.RreqForward
import Mathlib.Data.List.Forall2

namespace DsrUu

open Bytes Effect

structure Met where
  cursor : Cursor
  pkt : DsrPkt

namespace Met

def ptr (m : Met) : OptPtr := m.pkt.ptr m.cursor.off

def type (m : Met) : OptType := optTypeOf (m.pkt.fieldAt m.ptr 0)

def size (m : Met) : ℕ := m.pkt.optLength m.ptr + 2

def bytes (m : Met) : List UInt8 := m.pkt.fieldsAt m.ptr 0 m.size

end Met

def metLoop (mem : ℕ → UInt8) (me : InAddr) (dsrLen : ℕ) : ℕ → Bool → DsrPkt → Cursor → List Met
  | 0, _, _, _ => []
  | fuel + 1, grows, q, c =>
      if optGo dsrLen c then
        ⟨c, q⟩ ::
          if grows ∧ optTypeOf (q.byteAt c.off) = .rreq then
            let q := rreqForward mem me q (q.ptr c.off)
            metLoop mem me dsrLen fuel false q (optNext q.byteAt c)
          else metLoop mem me dsrLen fuel grows q (optNext q.byteAt c)
      else []

def metWalk (s : DsrNode) (grows : Bool) (dp : DsrPkt) : List Met :=
  metLoop s.kmem s.ifaddr dp.optsLen dp.optsLen grows dp ⟨dsrOptHdrLen, dsrOptHdrLen⟩

def grew (tr : List Dispatch) : Bool := tr.any fun d => .forwardRreq ∈ d.act

theorem live_dh {dp : DsrPkt} {p : OptPtr} (h : dp.live p = true) : ∃ b, dp.dh = some b ∧ p.gen = dp.gen := by
  rw [DsrPkt.live, Bool.and_eq_true, decide_eq_true_eq] at h
  obtain ⟨b, hb⟩ := Option.isSome_iff_exists.mp h.1
  exact ⟨b, hb, h.2⟩

theorem ends_of_notes {dp dp' : DsrPkt} (h : dp'.notes = dp.notes) : dp'.ends = dp.ends :=
  (congrArg DsrPkt.ends h :)

theorem Touch.optLength {dp dp' : DsrPkt} {p : OptPtr} (h : Touch dp p dp') (hlive : dp.live p = true) :
    dp'.optLength p = dp.optLength p := by
  have hlive' : dp'.live p = true := by
    rw [DsrPkt.live] at hlive ⊢
    rw [h.isSome, h.gen]
    exact hlive
  rw [DsrPkt.optLength, DsrPkt.optLength, fieldAt_live hlive', fieldAt_live hlive,
    h.bytes (p.off + 1) fun _ => by omega]

theorem AreaKept.core {len : ℕ} {dp dp₁ : DsrPkt} {p : OptPtr} (h : AreaKept len dp p)
    (hc : dp₁.core = dp.core) : AreaKept len dp₁ p := by
  have hdh : dp₁.dh = dp.dh := core_dh hc
  have hgen : dp₁.gen = dp.gen := (congrArg DsrPkt.gen hc :)
  refine ⟨?_, ?_, (optsLen_congr_dh hdh).trans h.optsLen, ?_⟩
  · rw [DsrPkt.live, hdh, hgen]
    exact h.live
  · rw [DsrPkt.tailroom, hdh]
    exact h.tailroom
  · rw [DsrPkt.pLen, byteAt_congr_dh hdh]
    exact h.pLen

structure Agrees (p : OptPtr) (dp q : DsrPkt) : Prop where
  live : dp.live p = true
  live' : q.live p = true
  bytes : ∀ i, p.off ≤ i → dp.byteAt i = q.byteAt i
  ends : dp.ends = q.ends

namespace Agrees

variable {p : OptPtr} {dp q : DsrPkt} (h : Agrees p dp q)

theorem self (hl : dp.live p = true) : Agrees p dp dp := ⟨hl, hl, fun _ _ => rfl, rfl⟩

include h

theorem promisc : dp.promiscRecv = q.promiscRecv := congrArg Prod.fst h.ends

theorem src : dp.src = q.src := congrArg (·.2.1) h.ends

theorem dst : dp.dst = q.dst := congrArg (·.2.2) h.ends

theorem ptr : q.ptr p.off = p := by
  obtain ⟨b, -, hgen⟩ := live_dh h.live'
  rw [DsrPkt.ptr, ← hgen]

theorem fieldAt (i : ℕ) : dp.fieldAt p i = q.fieldAt p i := by
  rw [fieldAt_live h.live, fieldAt_live h.live', h.bytes _ (Nat.le_add_right _ _)]

theorem optLength : dp.optLength p = q.optLength p := congrArg UInt8.toNat (h.fieldAt 1)

theorem byteAt_type : optTypeOf (q.byteAt p.off) = optTypeOf (dp.fieldAt p 0) := by
  rw [h.fieldAt, fieldAt_live h.live', Nat.add_zero]

theorem optSize : optSize q.byteAt p.off = dp.optLength p + 2 := by
  rw [h.optLength, DsrPkt.optLength, fieldAt_live h.live']
  rfl

theorem fieldsAt (i n : ℕ) : dp.fieldsAt p i n = q.fieldsAt p i n := by
  obtain ⟨b, hb, -⟩ := live_dh h.live
  obtain ⟨b', hb', -⟩ := live_dh h.live'
  rw [fieldsAt_live h.live, fieldsAt_live h.live', bytesAt_dh hb, bytesAt_dh hb']
  refine readAt_congr fun j hj _ => ?_
  rw [← byteAt_dh hb, ← byteAt_dh hb', h.bytes j (Nat.le_trans (Nat.le_add_right _ _) hj)]

theorem core {dp₁ : DsrPkt} (hc : dp₁.core = dp.core) : Agrees p dp₁ q := by
  have hdh : dp₁.dh = dp.dh := core_dh hc
  have hgen : dp₁.gen = dp.gen := (congrArg DsrPkt.gen hc :)
  refine ⟨?_, h.live', fun i hi => ?_, (congrArg DsrPkt.ends hc).trans h.ends⟩
  · rw [DsrPkt.live, hdh, hgen]
    exact h.live
  · rw [byteAt_congr_dh hdh, h.bytes i hi]

theorem touch {dp₁ : DsrPkt} (ht : Touch dp p dp₁) :
    Agrees { p with off := p.off + (dp₁.optLength p + 2) } dp₁ q := by
  have hlive := h.live
  have hlen₁ := ht.optLength hlive
  refine ⟨?_, h.live', fun i hi => ?_, ht.ends.trans h.ends⟩
  · rw [DsrPkt.live] at hlive ⊢
    rw [ht.isSome, ht.gen]
    exact hlive
  · rw [hlen₁] at hi
    dsimp only at hi
    rw [ht.bytes i fun _ => by omega, h.bytes i (by omega)]

theorem moved (off : ℕ) (hoff : p.off ≤ off) : Agrees { p with off := off } dp q :=
  ⟨h.live, h.live', fun i hi => h.bytes i (Nat.le_trans hoff hi), h.ends⟩

end Agrees

section Grown

variable {len : ℕ} {p : OptPtr} {dp q : DsrPkt}

theorem AreaKept.buffer (h : AreaKept len dp p) :
    ∃ b, dp.dh = some b ∧ b.tail = len ∧ b.raw.length = len + defaultTailroom := by
  obtain ⟨b, hb, -⟩ := live_dh h.live
  have hlen := h.optsLen
  have hroom := h.tailroom
  rw [optsLen_dh hb] at hlen
  rw [DsrPkt.tailroom, hb] at hroom
  simp only [defaultTailroom] at hroom ⊢
  exact ⟨b, hb, hlen, by omega⟩

theorem Agrees.rreqForward (h : Agrees p dp q) (hk : AreaKept len dp p) (hk' : AreaKept len q p)
    (hoff : dsrOptHdrLen ≤ p.off) (hlong : 6 ≤ dp.optLength p) (mem mem' : ℕ → UInt8) (me : InAddr) :
    Agrees p (rreqForward mem me dp p) (rreqForward mem' me q p) := by
  obtain ⟨b, hb, htail, hraw⟩ := hk.buffer
  obtain ⟨b', hb', htail', hraw'⟩ := hk'.buffer
  have hroom : 4 < dp.tailroom := by
    rw [hk.tailroom]
    decide
  have hroom' : 4 < q.tailroom := by
    rw [hk'.tailroom]
    decide
  have hdh := rreqForward_raw h.live hroom hoff mem me hb
  have hdh' := rreqForward_raw h.live' hroom' hoff mem' me hb'
  have hpLen : dp.pLen = q.pLen := Nat.add_right_cancel (hk.pLen.trans hk'.pLen.symm)
  have hend : optEnd dp p = optEnd q p := by rw [optEnd, optEnd, h.optLength]
  have hlast : dsrLastOpt dp p = dsrLastOpt q p := by rw [dsrLastOpt, dsrLastOpt, hpLen, h.optLength]
  have hlen : b.raw.length = b'.raw.length := hraw.trans hraw'.symm
  have hbyte : ∀ i, p.off ≤ i → b.raw.getD i 0 = b'.raw.getD i 0 := by
    intro i hi
    rw [← byteAt_dh hb, ← byteAt_dh hb', h.bytes i hi]
  have hmoved : readAt b.raw (optEnd dp p) 4 = readAt b'.raw (optEnd dp p) 4 :=
    readAt_congr fun i hi _ => hbyte i (Nat.le_trans (Nat.le_add_right _ _) hi)
  refine ⟨(rreqForward_optLength mem me h.live hroom hoff hlong).1,
    (rreqForward_optLength mem' me h.live' hroom' hoff (h.optLength ▸ hlong)).1, fun i hi => ?_, ?_⟩
  · rw [byteAt_dh hdh, byteAt_dh hdh', ← hpLen, ← h.optLength, ← hlast, ← hend, ← hmoved]
    have hfirst : ∀ j, p.off ≤ j → (if dsrLastOpt dp p then b.raw
        else writeAt b.raw (optEnd dp p + 4) (readAt b.raw (optEnd dp p) 4)).getD j 0 =
      (if dsrLastOpt dp p then b'.raw
        else writeAt b'.raw (optEnd dp p + 4) (readAt b.raw (optEnd dp p) 4)).getD j 0 := by
      intro j hj
      split
      · exact hbyte j hj
      · exact getD_writeAt_congr hlen hbyte _ _ hj
    have hrlen : (if dsrLastOpt dp p then b.raw
        else writeAt b.raw (optEnd dp p + 4) (readAt b.raw (optEnd dp p) 4)).length =
      (if dsrLastOpt dp p then b'.raw
        else writeAt b'.raw (optEnd dp p + 4) (readAt b.raw (optEnd dp p) 4)).length := by
      split <;> simp [hlen]
    have hreq : rreqEnd dp p = rreqEnd q p := by rw [rreqEnd, rreqEnd, h.optLength]
    rw [← hreq]
    refine getD_writeAt_congr (by simp [hrlen]) (fun j hj => ?_) _ _ hi
    refine getD_writeAt_congr (by simp [hrlen]) (fun j hj => ?_) _ _ hj
    exact getD_writeAt_congr hrlen hfirst _ _ hj
  · rw [ends_of_notes (rreqForward_notes mem me dp p), ends_of_notes (rreqForward_notes mem' me q p), h.ends]

theorem rreqForward_byteAt_off (h : AreaKept len q p) (hoff : dsrOptHdrLen ≤ p.off) (mem : ℕ → UInt8)
    (me : InAddr) : (rreqForward mem me q p).byteAt p.off = q.byteAt p.off := by
  obtain ⟨b, hb, -⟩ := h.buffer
  have hfour : 4 ≤ p.off := hoff
  rw [byteAt_dh (rreqForward_raw h.live (by rw [h.tailroom]; decide) hoff mem me hb), byteAt_dh hb,
    getD_writeAt_after (by rw [length_toBe16]; omega), getD_writeAt_before (by omega),
    getD_writeAt_before (by rw [rreqEnd]; omega)]
  split
  · rfl
  · exact getD_writeAt_before (by rw [optEnd]; omega) 0

end Grown

structure Reads (m : Met) (d : Dispatch) : Prop where
  cursor : d.cursor = m.cursor
  agrees : Agrees d.p d.before m.pkt

namespace Reads

variable {m : Met} {d : Dispatch} (h : Reads m d)

include h

theorem off : m.cursor.off = d.p.off := congrArg Cursor.off h.cursor.symm

theorem ptr : m.ptr = d.p := by
  rw [Met.ptr, h.off]
  exact h.agrees.ptr

theorem type : d.type = m.type := by
  rw [Dispatch.type, Met.type, h.ptr, h.agrees.fieldAt]

theorem size : d.size = m.size := by
  rw [Dispatch.size, Met.size, h.ptr, h.agrees.optLength]

theorem bytes : d.before.fieldsAt d.p 0 d.size = m.bytes := by
  rw [Met.bytes, h.ptr, ← h.size]
  exact h.agrees.fieldsAt 0 d.size

end Reads

theorem grew_cons (d : Dispatch) (tr : List Dispatch) :
    grew (d :: tr) = (decide (.forwardRreq ∈ d.act) || grew tr) := rfl

theorem grew_opt {l : ℕ} {p : OptPtr} {dp : DsrPkt} {s : DsrNode} {act : List DsrPktAction}
    {tr : List Dispatch} (h : .forwardRreq ∉ act) : grew (⟨l, p, dp, s, act⟩ :: tr) = grew tr := by
  rw [grew_cons, decide_eq_false h, Bool.false_or]

section Step

variable {p : OptPtr} {dp dp₁ : DsrPkt} {s s₁ : DsrNode} {act : List DsrPktAction}
  (h : dsrOptRecvOne dp p s = .ok (dp₁, act) s₁)

include h

theorem dsrOptRecvOne_numRreq : dp₁.numRreqOpts = if rreqTaken dp p then dp.numRreqOpts + 1 else dp.numRreqOpts :=
  congrArg Prod.fst (dsrOptRecvOne_received dp p s _ s₁ h).lists

theorem dsrOptRecvOne_ends : dp₁.ends = dp.ends := by
  rcases (dsrOptRecvOne_received dp p s _ s₁ h).area with ht | hfw
  · exact ht.ends
  · obtain ⟨mem, me, dp₂, hcore, hnext⟩ := hfw.pkt
    have hends := congrArg DsrPkt.ends hcore
    rw [show dp₁ = _ from hnext, ends_of_notes (rreqForward_notes mem me dp₂ p)]
    exact hends

theorem dsrOptRecvOne_touch (hact : .forwardRreq ∉ act) : Touch dp p dp₁ := by
  rcases (dsrOptRecvOne_received dp p s _ s₁ h).area with ht | hfw
  · exact ht
  · have haction : act = [.forwardRreq] := hfw.action
    rw [haction] at hact
    exact absurd (List.mem_singleton_self _) hact

theorem dsrOptRecvOne_grown (hact : .forwardRreq ∈ act) (hlive : dp.live p = true) (hroom : 4 < dp.tailroom)
    (hoff : dsrOptHdrLen ≤ p.off) : ForwardsRreq dp p dp₁ act := by
  obtain ⟨-, -, hlong, mem, dp₂, hcore, -, hnext⟩ := dsrOptRecvOne_forwarded h hact
  rcases (dsrOptRecvOne_received dp p s _ s₁ h).area with ht | hfw
  · have hdh : dp₂.dh = dp.dh := core_dh hcore
    have hgen : dp₂.gen = dp.gen := (congrArg DsrPkt.gen hcore :)
    have hlive₂ : dp₂.live p = true := by
      rw [DsrPkt.live, hdh, hgen]
      exact hlive
    have hroom₂ : 4 < dp₂.tailroom := by
      rw [DsrPkt.tailroom, hdh]
      exact hroom
    have hlen₂ := optLength_congr_dh hdh hgen p
    obtain ⟨hlive₁, hlen₁⟩ := rreqForward_optLength mem s.ifaddr hlive₂ hroom₂ hoff (hlen₂ ▸ hlong)
    rw [← show dp₁ = _ from hnext] at hlive₁ hlen₁
    have hsame : dp₁.optLength p = dp.optLength p := ht.optLength hlive
    have hbyte : dp.optLength p < 256 := UInt8.toNat_lt _
    rw [hsame, hlen₂] at hlen₁
    omega
  · exact hfw

end Step

theorem Walked.grew_false {dsrLen l : ℕ} {p : OptPtr} {dp dp' : DsrPkt} {s s' : DsrNode}
    {tr : List Dispatch} (h : Walked dsrLen l p dp s tr dp' s') :
    dp.promiscRecv = true ∨ dp.numRreqOpts ≠ 0 → grew tr = false := by
  induction h with
  | done _ => exact fun _ => rfl
  | pad1 _ _ _ ih =>
    intro hn
    rw [grew_opt List.not_mem_nil, ih hn]
  | @opt l p dp s dp₁ act s₁ tr dp' s' _ _ hone _ ih =>
    intro hn
    have hact : .forwardRreq ∉ act := by
      intro hf
      obtain ⟨hp, hfirst, -⟩ := dsrOptRecvOne_forwarded hone hf
      exact absurd hn (by simp [hp, hfirst])
    rw [grew_opt hact]
    refine ih (hn.imp (fun hp => ?_) fun hnum => ?_)
    · exact (dsrOptRecvOne_touch hone hact).promisc.trans hp
    · rw [dsrOptRecvOne_numRreq hone]
      split <;> omega

theorem metLoop_done {mem : ℕ → UInt8} {me : InAddr} {dsrLen : ℕ} {c : Cursor}
    (h : ¬ (c.l < dsrLen ∧ dsrLen - c.l > 2)) (fuel : ℕ) (grows : Bool) (q : DsrPkt) :
    metLoop mem me dsrLen fuel grows q c = [] := by
  cases fuel with
  | zero => rfl
  | succ fuel => rw [metLoop, if_neg fun hg => h (optGo_iff.mp hg)]

theorem metLoop_go {mem : ℕ → UInt8} {me : InAddr} {fuel dsrLen l : ℕ} (off : ℕ)
    (h : l < dsrLen ∧ dsrLen - l > 2) (hf : dsrLen ≤ l + fuel) : ∃ k, dsrLen ≤ l + (k + 1) ∧
    ∀ (grows : Bool) (q : DsrPkt), metLoop mem me dsrLen fuel grows q ⟨l, off⟩ =
      ⟨⟨l, off⟩, q⟩ :: if grows ∧ optTypeOf (q.byteAt off) = .rreq then
          metLoop mem me dsrLen k false (rreqForward mem me q (q.ptr off))
            (optNext (rreqForward mem me q (q.ptr off)).byteAt ⟨l, off⟩)
        else metLoop mem me dsrLen k grows q (optNext q.byteAt ⟨l, off⟩) := by
  obtain ⟨k, rfl⟩ : ∃ k, fuel = k + 1 := ⟨fuel - 1, by omega⟩
  refine ⟨k, hf, fun grows q => ?_⟩
  rw [metLoop, if_pos (optGo_iff.mpr h)]

theorem optNext_tlv {byte : ℕ → UInt8} {c : Cursor} (h : optTypeOf (byte c.off) ≠ .pad1) :
    optNext byte c = ⟨c.l + optSize byte c.off, c.off + optSize byte c.off⟩ := if_neg h

theorem optNext_pad1 {byte : ℕ → UInt8} {c : Cursor} (h : optTypeOf (byte c.off) = .pad1) :
    optNext byte c = ⟨c.l + 1, c.off + 2⟩ := if_pos h

theorem Walked.reads {dsrLen l : ℕ} {p : OptPtr} {dp dp' : DsrPkt} {s s' : DsrNode} {tr : List Dispatch}
    (h : Walked dsrLen l p dp s tr dp' s') (mem : ℕ → UInt8) : ∀ {q : DsrPkt} {fuel : ℕ}, Agrees p dp q →
    (dp.numRreqOpts = 0 → AreaKept dsrLen dp p ∧ AreaKept dsrLen q p) → dsrOptHdrLen ≤ p.off →
    dsrLen ≤ l + fuel →
    List.Forall₂ Reads (metLoop mem s.ifaddr dsrLen fuel (grew tr) q ⟨l, p.off⟩) tr := by
  induction h with
  | done hg =>
    intro q fuel _ _ _ _
    rw [metLoop_done hg]
    exact .nil
  | @pad1 l p dp s tr dp' s' hg hp _ ih =>
    intro q fuel hagr hkept hoff hf
    obtain ⟨k, hk, hloop⟩ := metLoop_go p.off hg hf
    have hpad : optTypeOf (q.byteAt p.off) = .pad1 := hagr.byteAt_type.trans hp
    have hno : ¬ (grew tr ∧ optTypeOf (q.byteAt p.off) = .rreq) := by
      rw [hpad]
      exact fun hr => nomatch hr.2
    rw [grew_opt List.not_mem_nil, hloop, if_neg hno, optNext_pad1 hpad]
    refine .cons ⟨rfl, hagr⟩ (ih (hagr.moved _ (Nat.le_add_right _ _)) (fun hn => ?_) ?_ ?_)
    · obtain ⟨hd, hq⟩ := hkept hn
      exact ⟨⟨hd.live, hd.tailroom, hd.optsLen, hd.pLen⟩, ⟨hq.live, hq.tailroom, hq.optsLen, hq.pLen⟩⟩
    · exact Nat.le_trans hoff (Nat.le_add_right _ _)
    · omega
  | @opt l p dp s dp₁ act s₁ tr dp' s' hg hp hone hw ih =>
    intro q fuel hagr hkept hoff hf
    obtain ⟨k, hk, hloop⟩ := metLoop_go p.off hg hf
    have htlv : optTypeOf (q.byteAt p.off) ≠ .pad1 := hagr.byteAt_type ▸ hp
    have hifaddr := (dsrOptRecvOne_later hoff hone).ifaddr
    have hfar : dsrOptHdrLen ≤ p.off + (dp₁.optLength p + 2) := Nat.le_trans hoff (Nat.le_add_right _ _)
    by_cases hact : .forwardRreq ∈ act
    · obtain ⟨-, hnum, hlong, mem₂, dp₂, hcore, hnum₂, hnext⟩ := dsrOptRecvOne_forwarded hone hact
      obtain ⟨hd, hq⟩ := hkept hnum
      have hfw := dsrOptRecvOne_grown hone hact hd.live (by rw [hd.tailroom]; decide) hoff
      have hrreq : optTypeOf (q.byteAt p.off) = .rreq := hagr.byteAt_type.trans hfw.type
      have hagr₁ : Agrees p dp₁ (rreqForward mem s.ifaddr q p) := by
        rw [show dp₁ = _ from hnext]
        have hlong₂ : 6 ≤ dp₂.optLength p := by
          rw [optLength_congr_dh (core_dh hcore) (congrArg DsrPkt.gen hcore :)]
          exact hlong
        exact (hagr.core hcore).rreqForward (hd.core hcore) hq hoff hlong₂ mem₂ mem s.ifaddr
      have htype : optTypeOf ((rreqForward mem s.ifaddr q p).byteAt p.off) = .rreq := by
        rw [rreqForward_byteAt_off hq hoff, hrreq]
      have hnum₁ : dp₁.numRreqOpts ≠ 0 := by
        have hl := dsrOptRecvOne_numRreq hone
        rw [if_pos ⟨hfw.type, hfw.promisc⟩] at hl
        omega
      have hrest := hw.grew_false (Or.inr hnum₁)
      have hgrew : grew (⟨l, p, dp, s, act⟩ :: tr) = true := by
        rw [grew_cons, decide_eq_true hact, Bool.true_or]
      rw [hgrew, hloop, if_pos ⟨rfl, hrreq⟩, hagr.ptr, optNext_tlv (by rw [htype]; decide), hagr₁.optSize]
      refine .cons ⟨rfl, hagr⟩ ?_
      have htail := ih (hagr₁.moved _ (Nat.le_add_right _ _)) (fun hz => absurd hz hnum₁) hfar (by omega : dsrLen ≤ _ + k)
      rw [hrest, hifaddr] at htail
      exact htail
    · have htouch := dsrOptRecvOne_touch hone hact
      have hnum := dsrOptRecvOne_numRreq hone
      have hno : ¬ (grew tr ∧ optTypeOf (q.byteAt p.off) = .rreq) := by
        rintro ⟨hg', hrreq⟩
        have hfalse : grew tr = false := by
          refine hw.grew_false ?_
          by_cases hpr : dp.promiscRecv = true
          · exact Or.inl (htouch.promisc.trans hpr)
          · rw [if_pos ⟨hagr.byteAt_type.symm.trans hrreq, Bool.eq_false_iff.mpr hpr⟩] at hnum
            exact Or.inr (by omega)
        rw [hfalse] at hg'
        cases hg'
      have hlen₁ : dp₁.optLength p = dp.optLength p := htouch.optLength hagr.live
      rw [grew_opt hact, hloop, if_neg hno, optNext_tlv htlv, hagr.optSize, ← hlen₁]
      refine .cons ⟨rfl, hagr⟩ ?_
      have htail := ih (hagr.touch htouch) (fun hz => ?_) hfar (by omega : dsrLen ≤ _ + k)
      · rw [hifaddr] at htail
        exact htail
      · obtain ⟨hd, hq⟩ := hkept (by split at hnum <;> omega)
        exact ⟨hd.touch htouch hoff _, ⟨hq.live, hq.tailroom, hq.optsLen, hq.pLen⟩⟩

theorem metLoop_cursors (mem : ℕ → UInt8) (me : InAddr) (fuel dsrLen : ℕ) (q : DsrPkt) : ∀ c,
    (metLoop mem me dsrLen fuel false q c).map Met.cursor = optWalk q.byteAt fuel dsrLen c ∧
      ∀ m ∈ metLoop mem me dsrLen fuel false q c, m.pkt = q := by
  induction fuel with
  | zero => exact fun _ => ⟨rfl, fun _ hm => absurd hm List.not_mem_nil⟩
  | succ fuel ih =>
    intro c
    unfold metLoop optWalk trail
    split
    · obtain ⟨hc, hm⟩ := ih (optNext q.byteAt c)
      rw [if_neg fun h => Bool.false_ne_true h.1]
      exact ⟨congrArg (c :: ·) hc, List.forall_mem_cons.mpr ⟨rfl, hm⟩⟩
    · exact ⟨rfl, fun _ hm => absurd hm List.not_mem_nil⟩

theorem Walked.ends {dsrLen l : ℕ} {p : OptPtr} {dp dp' : DsrPkt} {s s' : DsrNode} {tr : List Dispatch}
    (h : Walked dsrLen l p dp s tr dp' s') : ∀ d ∈ tr, d.before.ends = dp.ends := by
  induction h with
  | done _ => exact fun _ hd => absurd hd List.not_mem_nil
  | pad1 _ _ _ ih => exact List.forall_mem_cons.mpr ⟨rfl, ih⟩
  | opt _ _ hone _ ih =>
    exact List.forall_mem_cons.mpr ⟨rfl, fun d hd => (ih d hd).trans (dsrOptRecvOne_ends hone)⟩

section Trace

variable {skb : Skb} {mem : ℕ → UInt8} {promisc : Bool} {s s' : DsrNode} {dp' : DsrPkt} {tr : List Dispatch}

theorem RecvTrace.reads (h : skb.iph.protocol = ipprotoDsr)
    (htr : RecvTrace (dsrPktRecv mem promisc skb) s tr dp' s') :
    List.Forall₂ Reads (metWalk s (grew tr) (dsrPktRecv mem promisc skb)) tr := by
  have hkept := dsrPktRecv_areaKept h mem promisc
  exact Walked.reads htr s.kmem (.self hkept.live) (fun _ => ⟨hkept, hkept⟩) (Nat.le_refl _)
    (Nat.le_add_left _ _)

theorem RecvTrace.overheard (htr : RecvTrace (dsrPktRecv mem promisc skb) s tr dp' s') :
    ∀ d ∈ tr, d.before.promiscRecv = promisc := fun d hd => congrArg Prod.fst (Walked.ends htr d hd)

end Trace

def metsOf (t : OptType) (ms : List Met) : List Met := ms.filter fun m => m.type = t

def dispatchesOf (t : OptType) (tr : List Dispatch) : List Dispatch := tr.filter fun d => d.type = t

section Reading

variable {ms : List Met} {tr : List Dispatch}

theorem reads_ofType (h : List.Forall₂ Reads ms tr) (t : OptType) :
    List.Forall₂ Reads (metsOf t ms) (dispatchesOf t tr) := by
  induction h with
  | nil => exact .nil
  | @cons m d ms tr hmd _ ih =>
    rw [metsOf, dispatchesOf, List.filter_cons, List.filter_cons, hmd.type]
    split
    · exact .cons hmd ih
    · exact ih

theorem reads_forall_iff {P : Met → Prop} {Q : Dispatch → Prop} (h : List.Forall₂ Reads ms tr)
    (hiff : ∀ {m d}, Reads m d → (P m ↔ Q d)) : (∀ m ∈ ms, P m) ↔ ∀ d ∈ tr, Q d := by
  induction h with
  | nil => exact ⟨fun _ _ hd => absurd hd List.not_mem_nil, fun _ _ hm => absurd hm List.not_mem_nil⟩
  | cons hmd _ ih => rw [List.forall_mem_cons, List.forall_mem_cons, hiff hmd, ih]

theorem reads_map {β : Type} {f : Met → β} {g : Dispatch → β} (h : List.Forall₂ Reads ms tr)
    (heq : ∀ {m d}, Reads m d → f m = g d) : ms.map f = tr.map g := by
  induction h with
  | nil => rfl
  | cons hmd _ ih => rw [List.map_cons, List.map_cons, heq hmd, ih]

end Reading

end DsrUu
