import DsrUu.Node.Handlers
import DsrUu.Pkt.Options

namespace DsrUu

open Bytes Effect

structure Dispatch where
  l : ℕ
  p : OptPtr
  before : DsrPkt
  node : DsrNode
  act : List DsrPktAction

namespace Dispatch

def cursor (d : Dispatch) : Cursor := ⟨d.l, d.p.off⟩

def head (d : Dispatch) : UInt8 × UInt8 := (d.before.fieldAt d.p 0, d.before.fieldAt d.p 1)

def type (d : Dispatch) : OptType := optTypeOf (d.before.fieldAt d.p 0)

def size (d : Dispatch) : ℕ := d.before.optLength d.p + 2

def rrepTaken (d : Dispatch) : Bool := DsrUu.rrepTaken d.before d.p

def rerrTaken (d : Dispatch) : Bool := DsrUu.rerrTaken d.before d.p

def ackTaken (d : Dispatch) : Bool := DsrUu.ackTaken d.before d.p

end Dispatch

inductive Walked (dsrLen : ℕ) :
    ℕ → OptPtr → DsrPkt → DsrNode → List Dispatch → DsrPkt → DsrNode → Prop
  | done {l p dp s} : ¬ (l < dsrLen ∧ dsrLen - l > 2) → Walked dsrLen l p dp s [] dp s
  | pad1 {l p dp s tr dp' s'} : l < dsrLen ∧ dsrLen - l > 2 → optTypeOf (dp.fieldAt p 0) = .pad1 →
      Walked dsrLen (l + 1) { p with off := p.off + 2 } dp s tr dp' s' →
      Walked dsrLen l p dp s (⟨l, p, dp, s, []⟩ :: tr) dp' s'
  | opt {l p dp s dp₁ act s₁ tr dp' s'} : l < dsrLen ∧ dsrLen - l > 2 →
      optTypeOf (dp.fieldAt p 0) ≠ .pad1 → dsrOptRecvOne dp p s = .ok (dp₁, act) s₁ →
      Walked dsrLen (l + (dp₁.optLength p + 2)) { p with off := p.off + (dp₁.optLength p + 2) } dp₁ s₁
        tr dp' s' →
      Walked dsrLen l p dp s (⟨l, p, dp, s, act⟩ :: tr) dp' s'

theorem dsrOptRecvLoop_walked (fuel : ℕ) : ∀ {dsrLen l : ℕ} {p : OptPtr} {dp : DsrPkt}
    {action : List DsrPktAction} {s s' : DsrNode} {r : DsrPkt × List DsrPktAction},
    dsrLen ≤ l + fuel → dsrOptRecvLoop fuel dsrLen l p dp action s = .ok r s' →
    ∃ tr, Walked dsrLen l p dp s tr r.1 s' ∧ r.2 = action ++ tr.flatMap Dispatch.act := by
  induction fuel with
  | zero =>
    intro dsrLen l p dp action s s' r hf h
    cases h
    exact ⟨[], Walked.done (by omega), (List.append_nil _).symm⟩
  | succ fuel ih =>
    intro dsrLen l p dp action s s' r hf h
    unfold dsrOptRecvLoop at h
    split at h
    · next hg =>
      split at h
      · next hp =>
        obtain ⟨tr, hw, ha⟩ := ih (by omega) h
        exact ⟨_, Walked.pad1 hg hp hw, ha⟩
      · next hp =>
        obtain ⟨⟨dp₁, act⟩, s₁, hone, h⟩ := bind_ok h
        obtain ⟨tr, hw, ha⟩ := ih (by omega) h
        refine ⟨_, Walked.opt hg hp hone hw, ?_⟩
        rw [ha, List.flatMap_cons, List.append_assoc]
    · next hg =>
      cases h
      exact ⟨[], Walked.done hg, (List.append_nil _).symm⟩

theorem Walked.loop {dsrLen l : ℕ} {p : OptPtr} {dp dp' : DsrPkt} {s s' : DsrNode} {tr : List Dispatch}
    (h : Walked dsrLen l p dp s tr dp' s') : ∀ {fuel : ℕ} {action : List DsrPktAction},
    dsrLen ≤ l + fuel →
    dsrOptRecvLoop fuel dsrLen l p dp action s = .ok (dp', action ++ tr.flatMap Dispatch.act) s' := by
  induction h with
  | done hg =>
    intro fuel action _
    rw [List.flatMap_nil, List.append_nil]
    cases fuel with
    | zero => rfl
    | succ fuel =>
      unfold dsrOptRecvLoop
      rw [if_neg hg]
      rfl
  | pad1 hg hp _ ih =>
    intro fuel action hf
    obtain ⟨fuel, rfl⟩ : ∃ k, fuel = k + 1 := ⟨fuel - 1, by omega⟩
    unfold dsrOptRecvLoop
    rw [if_pos hg, if_pos hp]
    exact ih (by omega)
  | opt hg hp hone _ ih =>
    intro fuel action hf
    obtain ⟨fuel, rfl⟩ : ∃ k, fuel = k + 1 := ⟨fuel - 1, by omega⟩
    unfold dsrOptRecvLoop
    rw [if_pos hg, if_neg hp, bind_of_ok hone, List.flatMap_cons, ← List.append_assoc]
    exact ih (by omega)

def RecvTrace (dp : DsrPkt) (s : DsrNode) (tr : List Dispatch) (dp' : DsrPkt) (s' : DsrNode) : Prop :=
  Walked dp.optsLen dsrOptHdrLen (dp.ptr dsrOptHdrLen) dp s tr dp' s'

theorem dsrOptRecv_trace {dp : DsrPkt} {s s' : DsrNode} {r : DsrPkt × List DsrPktAction}
    (h : dsrOptRecv dp s = .ok r s') : ∃ tr, RecvTrace dp s tr r.1 s' ∧
      r.2 = (if dp.dst = s.ifaddr ∧ dp.payloadLen ≠ 0 then [.deliver] else []) ++
        tr.flatMap Dispatch.act := by
  obtain ⟨me, s₁, hme, h⟩ := bind_ok h
  cases hme
  exact dsrOptRecvLoop_walked _ (Nat.le_add_left _ _) h

def RreqEnds (byte : ℕ → UInt8) : List Cursor → Prop
  | [] => True
  | c :: cs =>
      if optTypeOf (byte c.off) = .rreq then 8 ≤ optSize byte c.off → cs = [] ∧ optSize byte c.off ≤ 253
      else RreqEnds byte cs

def RreqSafe (byte : ℕ → UInt8) (dp : DsrPkt) (cs : List Cursor) : Prop :=
  dp.promiscRecv = true ∨ dp.numRreqOpts ≠ 0 ∨ RreqEnds byte cs

structure Faithful (byte : ℕ → UInt8) (promisc : Bool) (d : Dispatch) : Prop where
  head : d.head = (byte d.p.off, byte (d.p.off + 1))
  type : d.type = optTypeOf (byte d.p.off)
  size : d.size = optSize byte d.p.off
  promisc : d.before.promiscRecv = promisc

structure Intact (byte : ℕ → UInt8) (promisc : Bool) (len : ℕ) (d : Dispatch) : Prop where
  live : d.before.live d.p = true
  bytes : ∀ i, d.p.off ≤ i → d.before.byteAt i = byte i
  promisc : d.before.promiscRecv = promisc
  optsLen : d.before.optsLen = len
  room : 4 < d.before.tailroom

namespace Intact

variable {byte : ℕ → UInt8} {promisc : Bool} {len : ℕ} {d : Dispatch}

theorem fieldAt (h : Intact byte promisc len d) (i : ℕ) : d.before.fieldAt d.p i = byte (d.p.off + i) := by
  rw [fieldAt_live h.live, h.bytes _ (Nat.le_add_right _ _)]

theorem faithful (h : Intact byte promisc len d) : Faithful byte promisc d :=
  ⟨Prod.ext (h.fieldAt 0) (h.fieldAt 1), congrArg optTypeOf (h.fieldAt 0),
    congrArg (fun b => UInt8.toNat b + 2) (h.fieldAt 1), h.promisc⟩

end Intact

def Calm : List Dispatch → Prop
  | [] => True
  | d :: ds => (rreqTaken d.before d.p → d.before.numRreqOpts = 0 → 6 ≤ d.before.optLength d.p → ds = []) ∧
      Calm ds

theorem calm_of_type {d : Dispatch} {ds : List Dispatch} (h : d.type ≠ .rreq) (hs : Calm ds) :
    Calm (d :: ds) := ⟨fun ht => absurd ht.1 h, hs⟩

theorem optWalk_nil {byte : ℕ → UInt8} {fuel dsrLen : ℕ} {c : Cursor} (hf : dsrLen < c.l + fuel + 3)
    (h : optWalk byte fuel dsrLen c = []) : ¬ (c.l < dsrLen ∧ dsrLen - c.l > 2) := by
  cases fuel with
  | zero => omega
  | succ fuel =>
    unfold optWalk trail at h
    split at h
    · cases h
    · next hg => exact fun hlt => hg (optGo_iff.mpr hlt)

theorem optWalk_go (byte : ℕ → UInt8) {fuel dsrLen l : ℕ} (off : ℕ) (hg : l < dsrLen ∧ dsrLen - l > 2)
    (hf : dsrLen ≤ l + fuel) : ∃ k, fuel = k + 1 ∧ optWalk byte fuel dsrLen ⟨l, off⟩ =
      ⟨l, off⟩ :: optWalk byte k dsrLen (optNext byte ⟨l, off⟩) := by
  obtain ⟨k, rfl⟩ : ∃ k, fuel = k + 1 := ⟨fuel - 1, by omega⟩
  refine ⟨k, rfl, ?_⟩
  rw [optWalk, trail, if_pos (optGo_iff.mpr hg)]
  rfl

theorem Walked.intact {dsrLen l : ℕ} {p : OptPtr} {dp dp' : DsrPkt} {s s' : DsrNode}
    {tr : List Dispatch} (h : Walked dsrLen l p dp s tr dp' s') {byte : ℕ → UInt8} :
    ∀ {fuel : ℕ}, dp.live p = true → dsrOptHdrLen ≤ p.off → 4 < dp.tailroom →
    (∀ i, p.off ≤ i → dp.byteAt i = byte i) → dsrLen ≤ l + fuel →
    RreqSafe byte dp (optWalk byte fuel dsrLen ⟨l, p.off⟩) →
    tr.map Dispatch.cursor = optWalk byte fuel dsrLen ⟨l, p.off⟩ ∧
      (∀ d ∈ tr, Intact byte dp.promiscRecv dp.optsLen d) ∧ (dp.promiscRecv = false → Calm tr) := by
  induction h with
  | @done l p dp s hg =>
    intro fuel _ _ _ _ _ _
    refine ⟨?_, fun _ hd => absurd hd List.not_mem_nil, fun _ => trivial⟩
    cases fuel with
    | zero => rfl
    | succ fuel =>
      unfold optWalk trail
      rw [if_neg fun h => hg (optGo_iff.mp h)]
      rfl
  | @pad1 l p dp s tr dp' s' hg hp _ ih =>
    intro fuel hlive hoff hroom hbyte hf hr
    obtain ⟨k, rfl, hwalk⟩ := optWalk_go byte p.off hg hf
    have hb0 : dp.fieldAt p 0 = byte p.off := by
      rw [fieldAt_live hlive, Nat.add_zero, hbyte _ (Nat.le_refl _)]
    have hself : Intact byte dp.promiscRecv dp.optsLen ⟨l, p, dp, s, []⟩ := ⟨hlive, hbyte, rfl, rfl, hroom⟩
    have hnext : optNext byte ⟨l, p.off⟩ = ⟨l + 1, p.off + 2⟩ := by
      rw [hb0] at hp
      rw [optNext, if_pos hp]
    rw [hwalk, hnext] at hr ⊢
    obtain ⟨hc, hd, hcalm⟩ := @ih k hlive (Nat.le_trans hoff (Nat.le_add_right _ _)) hroom
      (fun i hi => hbyte i (Nat.le_trans (Nat.le_add_right _ _) hi)) (by omega)
      (hr.imp_right (Or.imp_right fun he => by
        rw [hb0] at hp
        rwa [RreqEnds, if_neg (by rw [hp]; decide)] at he))
    refine ⟨congrArg _ hc, fun d hm => ?_, fun hpr => calm_of_type ?_ (hcalm hpr)⟩
    · rcases List.mem_cons.mp hm with rfl | hm
      · exact hself
      · exact hd d hm
    · rw [Dispatch.type, hp]
      decide
  | @opt l p dp s dp₁ act s₁ tr dp' s' hg hp hone hw ih =>
    intro fuel hlive hoff hroom hbyte hf hr
    obtain ⟨k, rfl, hwalk⟩ := optWalk_go byte p.off hg hf
    have hb0 : dp.fieldAt p 0 = byte p.off := by
      rw [fieldAt_live hlive, Nat.add_zero, hbyte _ (Nat.le_refl _)]
    have hb1 : dp.fieldAt p 1 = byte (p.off + 1) := by
      rw [fieldAt_live hlive, hbyte _ (Nat.le_succ _)]
    have hsize : dp.optLength p + 2 = optSize byte p.off := congrArg (fun b => UInt8.toNat b + 2) hb1
    have hself : Intact byte dp.promiscRecv dp.optsLen ⟨l, p, dp, s, act⟩ := ⟨hlive, hbyte, rfl, rfl, hroom⟩
    have hend : dp.promiscRecv = false → rreqTaken dp p → dp.numRreqOpts = 0 → 6 ≤ dp.optLength p →
        optWalk byte k dsrLen (optNext byte ⟨l, p.off⟩) = [] := by
      intro hpr htaken hnum hlong
      rw [hwalk] at hr
      have hends := (hr.resolve_left (by rw [hpr]; exact Bool.false_ne_true)).resolve_left
        fun hn => hn hnum
      have htype := htaken.1
      rw [hb0] at htype
      rw [RreqEnds, if_pos htype] at hends
      exact (hends (by dsimp only; omega)).1
    have hnext : optNext byte ⟨l, p.off⟩ = ⟨l + optSize byte p.off, p.off + optSize byte p.off⟩ := by
      rw [hb0] at hp
      rw [optNext, if_neg hp]
    rw [hwalk, hnext] at hr ⊢
    rw [hnext] at hend
    have hres := dsrOptRecvOne_received dp p s _ s₁ hone
    rcases hres.area with ht | hfw
    · have hlive₁ : dp₁.live p = true := by
        have hgen := ht.gen
        have hsome := ht.isSome
        unfold DsrPkt.live at hlive ⊢
        rw [hgen, hsome]
        exact hlive
      have hlen₁ : dp₁.optLength p = dp.optLength p := by
        rw [DsrPkt.optLength, DsrPkt.optLength, fieldAt_live hlive₁, fieldAt_live hlive]
        dsimp only at ht
        rw [ht.bytes (p.off + 1) fun _ => by omega]
      rw [hlen₁, hsize] at ih
      have hbyte₁ : ∀ i, p.off + optSize byte p.off ≤ i → dp₁.byteAt i = byte i := by
        intro i hi
        dsimp only at ht
        rw [ht.bytes i fun _ => by omega, hbyte i (by omega)]
      have hpr : dp₁.promiscRecv = dp.promiscRecv := ht.promisc
      have hroom₁ : 4 < dp₁.tailroom := by
        rw [ht.tailroom]
        exact hroom
      have hr₁ : RreqSafe byte dp₁ (optWalk byte k dsrLen ⟨l + optSize byte p.off, p.off + optSize byte p.off⟩) := by
        have hnum : dp₁.numRreqOpts = (takenLists dp p).1 := congrArg Prod.fst hres.lists
        unfold RreqSafe at hr ⊢
        rw [hpr]
        by_cases htaken : rreqTaken dp p
        · rw [takenLists, if_pos htaken] at hnum
          exact Or.inr (Or.inl (by rw [hnum]; exact Nat.succ_ne_zero _))
        · rw [takenLists, if_neg htaken] at hnum
          rcases hr with hpm | hn | he
          · exact Or.inl hpm
          · exact Or.inr (Or.inl (by rw [hnum]; exact hn))
          · rw [RreqEnds] at he
            split at he
            · next hq =>
              refine Or.inl ((Bool.not_eq_false _).mp fun hf => htaken ⟨?_, hf⟩)
              rw [hb0]
              exact hq
            · exact Or.inr (Or.inr he)
      have hopts : dp₁.optsLen = dp.optsLen := ht.optsLen
      obtain ⟨hc, hd, hcalm⟩ := @ih k hlive₁ (Nat.le_trans hoff (Nat.le_add_right _ _)) hroom₁ hbyte₁
        (by omega) hr₁
      rw [hpr, hopts] at hd
      rw [hpr] at hcalm
      refine ⟨congrArg _ hc, fun d hm => ?_, fun hp' => ⟨fun htaken hnum hlong => ?_, hcalm hp'⟩⟩
      · rcases List.mem_cons.mp hm with rfl | hm
        · exact hself
        · exact hd d hm
      · rw [hend hp' htaken hnum hlong] at hc
        exact List.map_eq_nil_iff.mp hc
    · obtain ⟨mem, me, dpc, hcore, hpkt⟩ := hfw.pkt
      have htype := hfw.type
      rw [hb0] at htype
      have hends := (hr.resolve_left (by rw [hfw.promisc]; exact Bool.false_ne_true)).resolve_left
        fun hn => hn hfw.first
      rw [RreqEnds, if_pos htype] at hends
      obtain ⟨hnil, hle⟩ := hends (by have := hfw.long; dsimp only; omega)
      have hcdh : dpc.dh = dp.dh := core_dh hcore
      have hcgen : dpc.gen = dp.gen := by
        have he := congrArg DsrPkt.gen hcore
        exact he
      have hclive : dpc.live p = true := by
        unfold DsrPkt.live at hlive ⊢
        rw [hcdh, hcgen]
        exact hlive
      have hcroom : dpc.tailroom = dp.tailroom := by
        unfold DsrPkt.tailroom
        rw [hcdh]
      have hclen : dpc.optLength p = dp.optLength p := by
        unfold DsrPkt.optLength DsrPkt.fieldAt DsrPkt.live DsrPkt.byteAt
        rw [hcdh, hcgen]
      have hlen₁ := (rreqForward_optLength mem me hclive (hcroom ▸ hroom) hoff (hclen ▸ hfw.long)).2
      dsimp only at hpkt
      rw [← hpkt, hclen] at hlen₁
      rw [hnil]
      have hstop := optWalk_nil (by dsimp only; omega) hnil
      dsimp only at hstop hle
      rw [hlen₁] at hw
      cases hw with
      | done _ =>
        refine ⟨rfl, fun d hm => ?_, fun _ => ⟨fun _ _ _ => rfl, trivial⟩⟩
        rw [List.mem_singleton.mp hm]
        exact hself
      | pad1 hg' _ _ => omega
      | opt hg' _ _ _ => omega

theorem Walked.follows {dsrLen l : ℕ} {p : OptPtr} {dp dp' : DsrPkt} {s s' : DsrNode}
    {tr : List Dispatch} (h : Walked dsrLen l p dp s tr dp' s') {byte : ℕ → UInt8} {fuel : ℕ}
    (hlive : dp.live p = true) (hoff : dsrOptHdrLen ≤ p.off) (hroom : 4 < dp.tailroom)
    (hbyte : ∀ i, p.off ≤ i → dp.byteAt i = byte i) (hf : dsrLen ≤ l + fuel)
    (hr : RreqSafe byte dp (optWalk byte fuel dsrLen ⟨l, p.off⟩)) :
    tr.map Dispatch.cursor = optWalk byte fuel dsrLen ⟨l, p.off⟩ ∧
      ∀ d ∈ tr, Faithful byte dp.promiscRecv d := by
  obtain ⟨hc, hd, -⟩ := h.intact hlive hoff hroom hbyte hf hr
  exact ⟨hc, fun d hm => (hd d hm).faithful⟩

def dsrPktRecv (mem : ℕ → UInt8) (promisc : Bool) (skb : Skb) : DsrPkt :=
  { dsrPktAlloc mem skb with promiscRecv := promisc }

section Alloc

variable {skb : Skb} (h : skb.iph.protocol = ipprotoDsr) (mem : ℕ → UInt8) (promisc : Bool)

include h

theorem dsrPktRecv_dh :
    (dsrPktRecv mem promisc skb).dh = some { raw := readAt skb.data 0 (dsrOptsLenOf skb) ++
                        (fill mem (dsrOptsLenOf skb + defaultTailroom)).drop (dsrOptsLenOf skb)
                                             tail := dsrOptsLenOf skb } :=
  (dsrPktAlloc_dsr mem h).dh

theorem dsrPktRecv_live :
    (dsrPktRecv mem promisc skb).live ((dsrPktRecv mem promisc skb).ptr dsrOptHdrLen) = true :=
  live_ptr (dsrPktRecv_dh h mem promisc) dsrOptHdrLen

theorem dsrPktRecv_tailroom : 4 < (dsrPktRecv mem promisc skb).tailroom := by
  unfold DsrPkt.tailroom
  rw [dsrPktRecv_dh h mem promisc]
  simp only [List.length_append, length_readAt, List.length_drop, length_fill, defaultTailroom]
  omega

theorem dsrPktRecv_recorded :
    Recorded (parseWalk (dsrPktRecv mem promisc skb)) (dsrPktRecv mem promisc skb) := by
  have hr := dsrPktAlloc_recorded mem h
  exact ⟨hr.srt, hr.ackReq, hr.rreq, hr.rrep, hr.rerr, hr.ack⟩

end Alloc

end DsrUu
