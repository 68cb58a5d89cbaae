import DsrUu.Node.Walked

namespace DsrUu

open Bytes Effect

structure OptDatagram (os : List DsrOpt) (skb : Skb) : Prop where
  protocol : skb.iph.protocol = ipprotoDsr
  data : ∃ hdr rest, skb.data = hdr ++ (optBytes os ++ rest) ∧ hdr.length = dsrOptHdrLen ∧
    be16 (hdr.getD 2 0) (hdr.getD 3 0) = (optBytes os).length

def RreqLast : List DsrOpt → Prop
  | [] => True
  | o :: os =>
      if o.type = .rreq then 8 ≤ o.bytes.length → os = [] ∧ o.bytes.length ≤ 253 else RreqLast os

structure WalksOptions (os : List DsrOpt) (dp : DsrPkt) : Prop where
  parse : parseWalk dp = optStarts os
  count : dsrOptParseRet dp = (os.filter fun o => o.type ≠ .pad1).length
  recorded : Recorded (optStarts os) dp
  recv : ∀ s r s', dsrOptRecv dp s = .ok r s' → ∃ tr, RecvTrace dp s tr r.1 s' ∧
    tr.map Dispatch.cursor = optStarts os ∧ tr.map Dispatch.type = os.map DsrOpt.type

section Received

variable {os : List DsrOpt} {skb : Skb}

theorem OptDatagram.pLen (h : OptDatagram os skb) :
    dsrOptsLenOf skb = dsrOptHdrLen + (optBytes os).length := by
  obtain ⟨hdr, rest, hd, hl, hp⟩ := h.data
  unfold dsrOptHdrLen at hl
  rw [dsrOptsLenOf, hd, getD_append_left (by omega), getD_append_left (by omega), hp, Nat.add_comm]

theorem OptDatagram.area (h : OptDatagram os skb) (mem : ℕ → UInt8) (promisc : Bool) :
    OptArea os (dsrPktRecv mem promisc skb) := by
  have hdh := dsrPktRecv_dh h.protocol mem promisc
  have hp := h.pLen
  obtain ⟨hdr, rest, hd, hl, -⟩ := h.data
  refine ⟨by rw [optsLen_dh hdh, hp], fun i hi => ?_⟩
  rw [byteAt_dh hdh, getD_append_left (by rw [length_readAt]; omega), getD_readAt (by omega), Nat.zero_add,
    hd, ← hl, getD_append_right, getD_append_left hi]

end Received

theorem rreqEnds_of_last {byte : ℕ → UInt8} (os : List DsrOpt) : ∀ {o : ℕ}, Laid byte o (optSlots os) →
    (∀ x ∈ os, x.type ≠ .pad1) → RreqLast os → RreqEnds byte (slotStarts o (optSlots os)) := by
  induction os with
  | nil => exact fun _ _ _ => trivial
  | cons x xs ih =>
    intro o hl hp hr
    have ht : optTypeOf (byte o) = x.type := by rw [hl.1]; exact x.type_slot
    have hsteps := DsrOpt.steps_iff.mpr (hp x List.mem_cons_self)
    have hsize : optSize byte o = x.bytes.length := by
      rw [optSize, hl.2.1 (DsrOpt.size_of_tlv (hp x List.mem_cons_self)), x.length_bytes, hsteps.2]
    change if optTypeOf (byte o) = .rreq then _ else RreqEnds byte (slotStarts (o + x.slot.size) (optSlots xs))
    rw [RreqLast] at hr
    rw [ht, hsize]
    split
    · next hq =>
      rw [if_pos hq] at hr
      intro hlong
      obtain ⟨hnil, hle⟩ := hr hlong
      subst hnil
      exact ⟨rfl, hle⟩
    · next hq =>
      rw [if_neg hq] at hr
      exact ih hl.2.2 (fun y hy => hp y (List.mem_cons_of_mem _ hy)) hr

theorem OptDatagram.trace {os : List DsrOpt} {skb : Skb} (h : OptDatagram os skb) {mem : ℕ → UInt8}
    {promisc : Bool} (hp : Plain os) (hr : promisc = true ∨ RreqLast os) {s s' : DsrNode} {dp' : DsrPkt}
    {tr : List Dispatch} (htr : RecvTrace (dsrPktRecv mem promisc skb) s tr dp' s') :
    tr.map Dispatch.cursor = optStarts os ∧ tr.map Dispatch.type = os.map DsrOpt.type := by
  have ha := h.area mem promisc
  have hwalk := (parseWalk_eq_iff ha).mpr hp
  have hsafe : RreqSafe (dsrPktRecv mem promisc skb).byteAt (dsrPktRecv mem promisc skb)
      (parseWalk (dsrPktRecv mem promisc skb)) := by
    rw [hwalk]
    exact hr.imp_right fun hl => Or.inr (rreqEnds_of_last os ha.laid hp.noPad1 hl)
  obtain ⟨hc, hd⟩ := htr.follows (dsrPktRecv_live h.protocol mem promisc) (Nat.le_refl _)
    (dsrPktRecv_tailroom h.protocol mem promisc) (fun _ _ => rfl) (Nat.le_add_left _ _) hsafe
  have hc' : tr.map Dispatch.cursor = optStarts os := hc.trans hwalk
  refine ⟨hc', ?_⟩
  rw [← starts_types os ha.laid]
  change _ = (optStarts os).map _
  rw [← hc', List.map_map]
  exact List.map_congr_left fun d hm => (hd d hm).type

theorem options_walked (mem : ℕ → UInt8) (promisc : Bool) {os : List DsrOpt} {skb : Skb}
    (h : OptDatagram os skb) :
    (WalksOptions os (dsrPktRecv mem promisc skb) → Plain os) ∧
      (Plain os → promisc = true ∨ RreqLast os → WalksOptions os (dsrPktRecv mem promisc skb)) := by
  have ha := h.area mem promisc
  refine ⟨fun hw => (parseWalk_eq_iff ha).mp hw.parse, fun hp hr => ?_⟩
  have hwalk := (parseWalk_eq_iff ha).mpr hp
  have hrec := dsrPktRecv_recorded h.protocol mem promisc
  rw [hwalk] at hrec
  refine ⟨hwalk, dsrOptParseRet_plain ha hp, hrec, fun s r s' hrun => ?_⟩
  obtain ⟨tr, htr, -⟩ := dsrOptRecv_trace hrun
  exact ⟨tr, htr, h.trace hp hr htr⟩

def padOpt : DsrOpt := .tlv { type := 0, body := [0, 0], notPad1 := by decide, short := by decide }

def ackReqOpt : DsrOpt := .tlv { type := 160, body := [0, 1], notPad1 := by decide, short := by decide }

def optSkb (os : List DsrOpt) : Skb :=
  { hSource := 0
    iph := { ihl := 5, totLen := 24 + (optBytes os).length, ttl := 64, protocol := ipprotoDsr
             saddr := ⟨10, 0, 0, 2⟩, daddr := ⟨10, 0, 0, 1⟩ }
    data := 0 :: 0 :: toBe16 (optBytes os).length ++ optBytes os }

theorem optSkb_datagram {os : List DsrOpt} (h : (optBytes os).length < 65536) :
    OptDatagram os (optSkb os) := by
  refine ⟨rfl, 0 :: 0 :: toBe16 (optBytes os).length, [], ?_, rfl, be16_toBe16 _ h⟩
  rw [List.append_nil]
  rfl

theorem options_walked_pad : WalksOptions [padOpt, ackReqOpt]
    (dsrPktRecv (fun _ => 0) false (optSkb [padOpt, ackReqOpt])) := by
  refine (options_walked (fun _ => 0) false (optSkb_datagram (by decide))).2 ⟨?_, ?_⟩ (Or.inr ?_)
  · decide
  · decide
  · simp [RreqLast, padOpt, ackReqOpt, DsrOpt.type, optTypeOf]

theorem options_not_walked_pad1 : OptDatagram [.pad1, ackReqOpt] (optSkb [.pad1, ackReqOpt]) ∧
    ¬ WalksOptions [.pad1, ackReqOpt] (dsrPktRecv (fun _ => 0) false (optSkb [.pad1, ackReqOpt])) := by
  refine ⟨optSkb_datagram (by decide), fun h => ?_⟩
  have hp := h.parse
  revert hp
  decide +kernel

def numOf (t : OptType) (os : List DsrOpt) : ℕ := (os.filter fun o => o.type = t).length

theorem length_ofType_starts {byte : ℕ → UInt8} {os : List DsrOpt}
    (h : Laid byte dsrOptHdrLen (optSlots os)) (t : OptType) :
    (ofType byte t (optStarts os)).length = numOf t os := by
  have ht := congrArg (fun ts => (ts.filter fun u => decide (u = t)).length) (starts_types os h)
  simp only [List.filter_map, List.length_map] at ht
  exact ht

theorem mem_of_numOf {t : OptType} {os : List DsrOpt} : numOf t os = 0 ↔ ∀ o ∈ os, o.type ≠ t := by
  rw [numOf, List.length_eq_zero_iff, List.filter_eq_nil_iff]
  simp only [decide_eq_true_eq]

theorem ofType_nil {byte : ℕ → UInt8} {t : OptType} {cs : List Cursor} :
    ofType byte t cs = [] ↔ ∀ c ∈ cs, optTypeOf (byte c.off) ≠ t := by
  rw [ofType, List.filter_eq_nil_iff]
  simp only [decide_eq_true_eq]

def optNode : DsrNode := dsrNodeInit ⟨10, 0, 0, 1⟩ confvalsDef true 8 ⟨100, 0⟩ (fun _ => 0) 0

end DsrUu
