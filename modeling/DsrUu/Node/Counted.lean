import DsrUu.Node.Grammar
import DsrUu.Node.Met

namespace DsrUu

open Bytes Effect

def Counted (t : OptType) : Prop := t = .rrep ∨ t = .rerr ∨ t = .ack

structure Counts (t : OptType) (ps : DsrPkt → List OptPtr) (taken : Dispatch → Bool) : Prop where
  counted : Counted t
  taken_iff : ∀ d, taken d = true ↔ d.type = t ∧ d.before.promiscRecv = false ∧ (ps d.before).length < 10
  step : ∀ {l p dp s dp₁ act s₁}, dsrOptRecvOne dp p s = .ok (dp₁, act) s₁ →
    ps dp₁ = if taken ⟨l, p, dp, s, act⟩ then ps dp ++ [p] else ps dp
  parsed : ∀ {cs dp}, Recorded cs dp → ps dp = ((ofType dp.byteAt t cs).map fun c => dp.ptr c.off).take 10

section Kinds

theorem takenLists_step {p : OptPtr} {dp dp₁ : DsrPkt} {s s₁ : DsrNode} {act : List DsrPktAction}
    (h : dsrOptRecvOne dp p s = .ok (dp₁, act) s₁) : dp₁.optLists = takenLists dp p :=
  (dsrOptRecvOne_received dp p s _ s₁ h).lists

theorem rrep_counts : Counts .rrep DsrPkt.rrepOpt Dispatch.rrepTaken where
  counted := .inl rfl
  taken_iff _ := decide_eq_true_iff
  step h := by
    refine Eq.trans (congrArg (·.2.1) (takenLists_step h) :) ?_
    simp only [takenLists, Dispatch.rrepTaken, decide_eq_true_eq]
  parsed h := h.rrep

theorem rerr_counts : Counts .rerr DsrPkt.rerrOpt Dispatch.rerrTaken where
  counted := .inr (.inl rfl)
  taken_iff _ := decide_eq_true_iff
  step h := by
    refine Eq.trans (congrArg (·.2.2.1) (takenLists_step h) :) ?_
    simp only [takenLists, Dispatch.rerrTaken, decide_eq_true_eq]
  parsed h := h.rerr

theorem ack_counts : Counts .ack DsrPkt.ackOpt Dispatch.ackTaken where
  counted := .inr (.inr rfl)
  taken_iff _ := decide_eq_true_iff
  step h := by
    refine Eq.trans (congrArg (·.2.2.2) (takenLists_step h) :) ?_
    simp only [takenLists, Dispatch.ackTaken, decide_eq_true_eq]
  parsed h := h.ack

end Kinds

namespace Counts

variable {t : OptType} {ps : DsrPkt → List OptPtr} {taken : Dispatch → Bool} (hc : Counts t ps taken)

include hc

theorem not_pad1 : t ≠ .pad1 := by
  rcases hc.counted with rfl | rfl | rfl <;> decide

theorem not_taken {d : Dispatch} (h : d.type ≠ t) : taken d = false :=
  Bool.eq_false_iff.mpr fun ht => h ((hc.taken_iff d).mp ht).1

theorem final {dsrLen l : ℕ} {p : OptPtr} {dp dp' : DsrPkt} {s s' : DsrNode} {tr : List Dispatch}
    (h : Walked dsrLen l p dp s tr dp' s') : ps dp' = ps dp ++ (tr.filter taken).map Dispatch.p := by
  induction h with
  | done _ => exact (List.append_nil _).symm
  | @pad1 l p dp s tr dp' s' _ hp _ ih =>
    have hne : Dispatch.type ⟨l, p, dp, s, []⟩ ≠ t := fun ht => hc.not_pad1 (ht.symm.trans hp)
    rw [ih, List.filter_cons, hc.not_taken hne, if_neg nofun]
  | @opt l p dp s dp₁ act s₁ tr dp' s' _ _ hone _ ih =>
    rw [ih, List.filter_cons, hc.step (l := l) hone]
    split
    · rw [List.map_cons, List.append_assoc, List.singleton_append]
    · rfl

theorem filter_taken {dsrLen l : ℕ} {p : OptPtr} {dp dp' : DsrPkt} {s s' : DsrNode} {tr : List Dispatch}
    (h : Walked dsrLen l p dp s tr dp' s') : dp.promiscRecv = false →
    tr.filter taken = (dispatchesOf t tr).take (10 - (ps dp).length) := by
  induction h with
  | done _ => exact fun _ => (List.take_nil).symm
  | @pad1 l p dp s tr dp' s' _ hp _ ih =>
    intro hpr
    have hne : Dispatch.type ⟨l, p, dp, s, []⟩ ≠ t := fun ht => hc.not_pad1 (ht.symm.trans hp)
    rw [List.filter_cons, hc.not_taken hne, if_neg nofun, ih hpr, dispatchesOf, dispatchesOf,
      List.filter_cons, if_neg (by rw [decide_eq_true_eq]; exact hne)]
  | @opt l p dp s dp₁ act s₁ tr dp' s' _ _ hone _ ih =>
    intro hpr
    have hpr₁ : dp₁.promiscRecv = false := (congrArg Prod.fst (dsrOptRecvOne_ends hone)).trans hpr
    have hstep := hc.step (l := l) hone
    have hiff := hc.taken_iff ⟨l, p, dp, s, act⟩
    rw [List.filter_cons, ih hpr₁, hstep, dispatchesOf, dispatchesOf, List.filter_cons]
    by_cases ht : Dispatch.type ⟨l, p, dp, s, act⟩ = t
    · rw [if_pos (decide_eq_true ht)]
      by_cases hlt : (ps dp).length < 10
      · obtain ⟨k, hk⟩ : ∃ k, 10 - (ps dp).length = k + 1 := ⟨9 - (ps dp).length, by omega⟩
        rw [if_pos (hiff.mpr ⟨ht, hpr, hlt⟩), if_pos (hiff.mpr ⟨ht, hpr, hlt⟩), hk, List.take_succ_cons,
          List.length_append, List.length_singleton]
        congr 2
        omega
      · have hno : ¬ taken ⟨l, p, dp, s, act⟩ = true := fun hk => hlt (hiff.mp hk).2.2
        rw [if_neg hno, if_neg hno, Nat.sub_eq_zero_of_le (Nat.le_of_not_lt hlt), List.take_zero,
          List.take_zero]
    · have hno : ¬ taken ⟨l, p, dp, s, act⟩ = true := fun hk => ht (hiff.mp hk).1
      rw [if_neg hno, if_neg hno, if_neg (by rw [decide_eq_true_eq]; exact ht)]

end Counts

def Dispatch.opt (d : Dispatch) : Cursor × List UInt8 := (d.cursor, d.before.fieldsAt d.p 0 d.size)

def Met.opt (m : Met) : Cursor × List UInt8 := (m.cursor, m.bytes)

def placed (t : OptType) (os : List DsrOpt) : List (Cursor × List UInt8) :=
  (((optStarts os).zip os).filter fun x => x.2.type = t).map fun x => (x.1, x.2.bytes)

structure OncePerOption (os : List DsrOpt) (tr : List Dispatch) (dp' : DsrPkt) : Prop where
  rrep : (tr.filter Dispatch.rrepTaken).map Dispatch.opt = placed .rrep os
  rerr : (tr.filter Dispatch.rerrTaken).map Dispatch.opt = placed .rerr os
  ack : (tr.filter Dispatch.ackTaken).map Dispatch.opt = placed .ack os
  numRrep : dp'.rrepOpt.length = numOf .rrep os
  numRerr : dp'.rerrOpt.length = numOf .rerr os
  numAck : dp'.ackOpt.length = numOf .ack os

structure CountedOnce (os : List DsrOpt) (dp : DsrPkt) (ms : List Met) : Prop where
  unparsed : ∀ c ∈ parseWalk dp, ¬ Counted (optTypeOf (dp.byteAt c.off))
  met : ∀ t, Counted t → ((metsOf t ms).take 10).map Met.opt = placed t os

theorem length_filter_zip {α β : Type} (q : β → Bool) (xs : List α) : ∀ ys : List β,
    xs.length = ys.length → ((xs.zip ys).filter fun x => q x.2).length = (ys.filter q).length := by
  induction xs with
  | nil =>
    intro ys h
    rw [List.eq_nil_of_length_eq_zero h.symm]
    rfl
  | cons x xs ih =>
    intro ys h
    cases ys with
    | nil => cases h
    | cons y ys =>
      have htail := ih ys (Nat.succ.inj h)
      rw [List.zip_cons_cons, List.filter_cons, List.filter_cons]
      split
      · exact congrArg (· + 1) htail
      · exact htail

theorem length_placed (t : OptType) (os : List DsrOpt) : (placed t os).length = numOf t os := by
  rw [placed, List.length_map, numOf]
  refine length_filter_zip (fun o : DsrOpt => decide (o.type = t)) _ _ ?_
  rw [optStarts, length_slotStarts, optSlots, List.length_map]

theorem placed_nil {t : OptType} {os : List DsrOpt} : placed t os = [] ↔ ∀ o ∈ os, o.type ≠ t := by
  rw [← List.length_eq_zero_iff, length_placed, mem_of_numOf]

section Once

variable {dp dp' : DsrPkt} {s s' : DsrNode} {tr : List Dispatch} {ms : List Met}

theorem Counts.once_iff (os : List DsrOpt) {t : OptType} {ps : DsrPkt → List OptPtr} {taken : Dispatch → Bool}
    (hc : Counts t ps taken) (hrec : Recorded (parseWalk dp) dp) (hpr : dp.promiscRecv = false)
    (htr : RecvTrace dp s tr dp' s') (hreads : List.Forall₂ Reads ms tr) :
    ((tr.filter taken).map Dispatch.opt = placed t os ∧ (ps dp').length = numOf t os) ↔
      (∀ c ∈ parseWalk dp, optTypeOf (dp.byteAt c.off) ≠ t) ∧
        ((metsOf t ms).take 10).map Met.opt = placed t os := by
  have hfinal := hc.final htr
  have hfilter := hc.filter_taken htr hpr
  have hparsed := hc.parsed hrec
  have hmet : ((metsOf t ms).take 10).map Met.opt = ((dispatchesOf t tr).take 10).map Dispatch.opt :=
    reads_map (List.forall₂_take 10 (reads_ofType hreads t)) fun h =>
      (Prod.ext h.cursor h.bytes : Dispatch.opt _ = Met.opt _).symm
  rw [hmet]
  constructor
  · rintro ⟨honce, hnum⟩
    have hlen : (tr.filter taken).length = numOf t os := by
      rw [← length_placed, ← honce, List.length_map]
    rw [hfinal, List.length_append, List.length_map, hlen] at hnum
    have hz : (ps dp).length = 0 := by omega
    rw [hz, Nat.sub_zero] at hfilter
    rw [hparsed, List.length_take, List.length_map] at hz
    exact ⟨ofType_nil.mp (List.length_eq_zero_iff.mp (by omega)), hfilter ▸ honce⟩
  · rintro ⟨hnone, honce⟩
    have hz : ps dp = [] := by
      rw [hparsed, ofType_nil.mpr hnone]
      rfl
    rw [hz, List.length_nil, Nat.sub_zero] at hfilter
    rw [← hfilter] at honce
    refine ⟨honce, ?_⟩
    rw [hfinal, hz, List.nil_append, List.length_map, ← length_placed, ← honce, List.length_map]

theorem oncePerOption_iff (os : List DsrOpt) (hrec : Recorded (parseWalk dp) dp) (hpr : dp.promiscRecv = false)
    (htr : RecvTrace dp s tr dp' s') (hreads : List.Forall₂ Reads ms tr) :
    OncePerOption os tr dp' ↔ CountedOnce os dp ms := by
  have hrrep := rrep_counts.once_iff os hrec hpr htr hreads
  have hrerr := rerr_counts.once_iff os hrec hpr htr hreads
  have hack := ack_counts.once_iff os hrec hpr htr hreads
  constructor
  · intro h
    obtain ⟨hp₁, hm₁⟩ := hrrep.mp ⟨h.rrep, h.numRrep⟩
    obtain ⟨hp₂, hm₂⟩ := hrerr.mp ⟨h.rerr, h.numRerr⟩
    obtain ⟨hp₃, hm₃⟩ := hack.mp ⟨h.ack, h.numAck⟩
    refine ⟨fun c hc ht => ?_, fun t ht => ?_⟩
    · rcases ht with ht | ht | ht
      · exact hp₁ c hc ht
      · exact hp₂ c hc ht
      · exact hp₃ c hc ht
    · rcases ht with rfl | rfl | rfl
      · exact hm₁
      · exact hm₂
      · exact hm₃
  · intro h
    obtain ⟨h₁, hn₁⟩ := hrrep.mpr ⟨fun c hc ht => h.unparsed c hc (.inl ht), h.met _ (.inl rfl)⟩
    obtain ⟨h₂, hn₂⟩ := hrerr.mpr ⟨fun c hc ht => h.unparsed c hc (.inr (.inl ht)), h.met _ (.inr (.inl rfl))⟩
    obtain ⟨h₃, hn₃⟩ := hack.mpr ⟨fun c hc ht => h.unparsed c hc (.inr (.inr ht)), h.met _ (.inr (.inr rfl))⟩
    exact ⟨h₁, h₂, h₃, hn₁, hn₂, hn₃⟩

end Once

section Walk

variable {mem : ℕ → UInt8} {promisc : Bool} {skb : Skb} {os : List DsrOpt} {s s' : DsrNode} {dp' : DsrPkt}
  {tr : List Dispatch}

theorem OptDatagram.steady (h : OptDatagram os skb) (hp : Plain os)
    (htr : RecvTrace (dsrPktRecv mem promisc skb) s tr dp' s') (hg : grew tr = false) :
    tr.map Dispatch.type = os.map DsrOpt.type := by
  have ha := h.area mem promisc
  have hreads := htr.reads h.protocol
  have hdh := dsrPktRecv_dh h.protocol mem promisc
  rw [hg] at hreads
  generalize dsrPktRecv mem promisc skb = dp at ha hreads hdh
  obtain ⟨hcur, hpkt⟩ := metLoop_cursors s.kmem s.ifaddr dp.optsLen dp.optsLen dp ⟨dsrOptHdrLen, dsrOptHdrLen⟩
  have hwalk : (metWalk s false dp).map Met.cursor = optStarts os := hcur.trans ((parseWalk_eq_iff ha).mpr hp)
  have htypes : (metWalk s false dp).map Met.type = tr.map Dispatch.type := reads_map hreads fun hr => hr.type.symm
  rw [← htypes, ← starts_types os ha.laid]
  change _ = (optStarts os).map _
  rw [← hwalk, List.map_map]
  refine List.map_congr_left fun m hm => ?_
  rw [Met.type, Met.ptr, hpkt m hm, fieldAt_live (live_ptr hdh _)]
  rfl

theorem OptDatagram.types (h : OptDatagram os skb) (hp : Plain os)
    (htr : RecvTrace (dsrPktRecv mem promisc skb) s tr dp' s') (hg : grew tr = false ∨ RreqLast os) :
    tr.map Dispatch.type = os.map DsrOpt.type :=
  hg.elim (h.steady hp htr) fun hr => (h.trace hp (Or.inr hr) htr).2

theorem OptDatagram.countedOnce_iff (h : OptDatagram os skb) (hp : Plain os)
    (htr : RecvTrace (dsrPktRecv mem promisc skb) s tr dp' s') (hg : grew tr = false ∨ RreqLast os) :
    CountedOnce os (dsrPktRecv mem promisc skb) (metWalk s (grew tr) (dsrPktRecv mem promisc skb)) ↔
      ∀ o ∈ os, ¬ Counted o.type := by
  have ha := h.area mem promisc
  have hreads := htr.reads h.protocol
  have htypes := h.types hp htr hg
  have hwalk := (parseWalk_eq_iff ha).mpr hp
  have hstart : (parseWalk (dsrPktRecv mem promisc skb)).map
      (fun c => optTypeOf ((dsrPktRecv mem promisc skb).byteAt c.off)) = os.map DsrOpt.type := by
    rw [hwalk]
    exact starts_types os ha.laid
  constructor
  · intro hc o ho ht
    have hin : o.type ∈ os.map DsrOpt.type := List.mem_map_of_mem ho
    rw [← hstart] at hin
    obtain ⟨c, hcw, heq⟩ := List.mem_map.mp hin
    exact hc.unparsed c hcw (heq ▸ ht)
  · intro hnone
    refine ⟨fun c hcw ht => ?_, fun t ht => ?_⟩
    · have hin := List.mem_map_of_mem (f := fun c : Cursor =>
        optTypeOf ((dsrPktRecv mem promisc skb).byteAt c.off)) hcw
      rw [hstart] at hin
      obtain ⟨o, ho, heq⟩ := List.mem_map.mp hin
      exact hnone o ho (heq ▸ ht)
    · have hnil : dispatchesOf t tr = [] := by
        rw [dispatchesOf, List.filter_eq_nil_iff]
        intro d hd hdt
        have hin : d.type ∈ tr.map Dispatch.type := List.mem_map_of_mem hd
        rw [htypes] at hin
        obtain ⟨o, ho, heq⟩ := List.mem_map.mp hin
        exact hnone o ho (heq.trans (of_decide_eq_true hdt) ▸ ht)
      have hmets := reads_ofType hreads t
      rw [hnil, List.forall₂_nil_right_iff] at hmets
      rw [hmets, placed_nil.mpr fun o ho hot => hnone o ho (hot ▸ ht)]
      rfl

end Walk

theorem options_once (mem : ℕ → UInt8) {os : List DsrOpt} {skb : Skb} (h : OptDatagram os skb)
    {s s' : DsrNode} {r : DsrPkt × List DsrPktAction}
    (hrun : dsrOptRecv (dsrPktRecv mem false skb) s = .ok r s') :
    ∃ tr, RecvTrace (dsrPktRecv mem false skb) s tr r.1 s' ∧
      (OncePerOption os tr r.1 ↔ CountedOnce os (dsrPktRecv mem false skb)
        (metWalk s (grew tr) (dsrPktRecv mem false skb))) ∧
      (Plain os → grew tr = false ∨ RreqLast os →
        (OncePerOption os tr r.1 ↔ ∀ o ∈ os, ¬ Counted o.type)) := by
  obtain ⟨tr, htr, -⟩ := dsrOptRecv_trace hrun
  have honce := oncePerOption_iff os (dsrPktRecv_recorded h.protocol mem false) rfl htr
    (htr.reads h.protocol)
  exact ⟨tr, htr, honce, fun hp hg => honce.trans (h.countedOnce_iff hp htr hg)⟩

theorem options_once_pad : ∃ r s' tr, dsrOptRecv (dsrPktRecv (fun _ => 0) false (optSkb [padOpt])) optNode =
      .ok r s' ∧ RecvTrace (dsrPktRecv (fun _ => 0) false (optSkb [padOpt])) optNode tr r.1 s' ∧
    OncePerOption [padOpt] tr r.1 := by
  have hsome : (okVal (dsrOptRecv (dsrPktRecv (fun _ => 0) false (optSkb [padOpt])) optNode)).isSome =
      true := by decide +kernel
  obtain ⟨r, hr⟩ := Option.isSome_iff_exists.mp hsome
  obtain ⟨s', hrun⟩ := okVal_eq_some hr
  obtain ⟨tr, htr, -, hplain⟩ := options_once (fun _ => 0) (optSkb_datagram (by decide)) hrun
  refine ⟨r, s', tr, hrun, htr, (hplain ⟨by decide, by decide⟩ (Or.inr ?_)).mpr ?_⟩
  · simp [RreqLast, padOpt, DsrOpt.type, optTypeOf]
  · simp [Counted, padOpt, DsrOpt.type, optTypeOf]

def ackOpt : DsrOpt :=
  .tlv { type := 32, body := [0, 1, 10, 0, 0, 2, 10, 0, 0, 1], notPad1 := by decide, short := by decide }

def okLists (r : EStateM.Result Stop DsrNode (DsrPkt × List DsrPktAction)) : Option (ℕ × ℕ × ℕ) :=
  (okVal r).map fun r => (r.1.rrepOpt.length, r.1.rerrOpt.length, r.1.ackOpt.length)

theorem options_not_once_ack : OptDatagram [ackOpt] (optSkb [ackOpt]) ∧
    ∃ r s', dsrOptRecv (dsrPktRecv (fun _ => 0) false (optSkb [ackOpt])) optNode = .ok r s' ∧
    ¬ ∃ tr, RecvTrace (dsrPktRecv (fun _ => 0) false (optSkb [ackOpt])) optNode tr r.1 s' ∧
      OncePerOption [ackOpt] tr r.1 := by
  have hlen : okLists (dsrOptRecv (dsrPktRecv (fun _ => 0) false (optSkb [ackOpt])) optNode) =
      some (0, 0, 2) := by
    decide +kernel
  obtain ⟨r, hr, hl⟩ := Option.map_eq_some_iff.mp hlen
  obtain ⟨s', hrun⟩ := okVal_eq_some hr
  refine ⟨optSkb_datagram (by decide), r, s', hrun, ?_⟩
  rintro ⟨tr, -, honce⟩
  have hnum := honce.numAck
  have hack : r.1.ackOpt.length = 2 := congrArg (·.2.2) hl
  rw [hack] at hnum
  exact absurd hnum (by decide)

end DsrUu
