import DsrUu.Node.Counted

namespace DsrUu

open Bytes Effect

def recordedPtrs (dp : DsrPkt) : List OptPtr :=
  dp.srtOpt.toList ++ dp.rreqOpt.toList ++ dp.rrepOpt ++ dp.rerrOpt ++ dp.ackOpt ++ dp.ackReqOpt.toList

def Dispatch.handed (d : Dispatch) : Bool :=
  match d.type with
  | .rreq | .rrep => !d.before.promiscRecv
  | .rerr => !d.before.promiscRecv && d.before.rerrOpt.length < maxRerrOpts
  | .ack => !d.before.promiscRecv && d.before.ackOpt.length < maxAckOpts
  | .srt | .ackReq => true
  | _ => false

def Rejected (skb : Skb) : Prop := skb.data.length + 4 * skb.iph.ihl < skb.iph.totLen

instance (skb : Skb) : Decidable (Rejected skb) := inferInstanceAs (Decidable (_ < _))

structure ParseInside (dp : DsrPkt) : Prop where
  payload : 0 ≤ dp.payloadLen
  recorded : ∀ p ∈ recordedPtrs dp, p.off + (dp.optLength p + 2) ≤ dp.optsLen

structure WalkInside (dp : DsrPkt) (tr : List Dispatch) : Prop extends ParseInside dp where
  handed : ∀ d ∈ tr, d.handed = true → d.p.off + d.size ≤ dp.optsLen

def recordedAt (byte : ℕ → UInt8) (cs : List Cursor) : List Cursor :=
  (ofType byte .srt cs).take 1 ++ (ofType byte .rreq cs).getLast?.toList ++
    (ofType byte .rrep cs).take maxRrepOpts ++ (ofType byte .rerr cs).take maxRerrOpts ++
    (ofType byte .ack cs).take maxAckOpts ++ (ofType byte .ackReq cs).take 1

def handedMets (promisc : Bool) (byte : ℕ → UInt8) (cs : List Cursor) (ms : List Met) : List Met :=
  metsOf .srt ms ++ metsOf .ackReq ms ++
    if promisc then []
    else metsOf .rreq ms ++ metsOf .rrep ms ++
      (metsOf .rerr ms).take (maxRerrOpts - (ofType byte .rerr cs).length) ++
      (metsOf .ack ms).take (maxAckOpts - (ofType byte .ack cs).length)

def Covers (skb : Skb) : Prop := 4 * skb.iph.ihl + dsrOptsLenOf skb ≤ skb.iph.totLen

def InsideAt (byte : ℕ → UInt8) (dsrLen : ℕ) (c : Cursor) : Prop := c.off + optSize byte c.off ≤ dsrLen

theorem firstPtr_toList (ps : List OptPtr) : (firstPtr ps).toList = ps.take 1 := by
  cases ps <;> rfl

theorem lastPtr_eq (ps : List OptPtr) : ∀ o, lastPtr o ps = ps.getLast?.or o := by
  induction ps with
  | nil => exact fun _ => rfl
  | cons p ps ih =>
    intro o
    rw [lastPtr, ih]
    cases ps with
    | nil => rfl
    | cons q qs =>
      rw [List.getLast?_cons_cons, List.getLast?_eq_some_getLast (List.cons_ne_nil q qs)]
      rfl

theorem Recorded.ptrs {cs : List Cursor} {dp : DsrPkt} (h : Recorded cs dp) :
    recordedPtrs dp = (recordedAt dp.byteAt cs).map fun c => dp.ptr c.off := by
  have hlast : dp.rreqOpt.toList =
      ((ofType dp.byteAt .rreq cs).getLast?.toList).map fun c => dp.ptr c.off := by
    rw [h.rreq, lastPtr_eq, Option.or_none, List.getLast?_map]
    cases (ofType dp.byteAt .rreq cs).getLast? <;> rfl
  rw [recordedPtrs, recordedAt, hlast, h.srt, h.ackReq, firstPtr_toList, firstPtr_toList, h.rrep, h.rerr,
    h.ack]
  simp only [List.map_append, List.map_take]

section Inside

variable {skb : Skb} {mem : ℕ → UInt8} {promisc : Bool}

theorem parseInside_iff (h : skb.iph.protocol = ipprotoDsr) :
    ParseInside (dsrPktRecv mem promisc skb) ↔ Covers skb ∧
      ∀ c ∈ recordedAt (dsrPktRecv mem promisc skb).byteAt (parseWalk (dsrPktRecv mem promisc skb)),
        InsideAt (dsrPktRecv mem promisc skb).byteAt (dsrOptsLenOf skb) c := by
  have hptrs := (dsrPktRecv_recorded h mem promisc).ptrs
  have hdh := dsrPktRecv_dh h mem promisc
  have hpay : (dsrPktRecv mem promisc skb).payloadLen =
      (skb.iph.totLen : Int) - 4 * skb.iph.ihl - dsrOptsLenOf skb := (dsrPktAlloc_dsr mem h).payloadLen
  have hlen : (dsrPktRecv mem promisc skb).optsLen = dsrOptsLenOf skb := optsLen_dh hdh
  generalize dsrPktRecv mem promisc skb = dp at hptrs hdh hpay hlen ⊢
  have hsize : ∀ c : Cursor, (dp.ptr c.off).off + (dp.optLength (dp.ptr c.off) + 2) =
      c.off + optSize dp.byteAt c.off := by
    intro c
    rw [DsrPkt.optLength, fieldAt_live (live_ptr hdh _)]
    rfl
  refine ⟨fun hp => ⟨?_, fun c hc => ?_⟩, fun hboth => ⟨?_, fun p hp => ?_⟩⟩
  · have h0 := hp.payload
    unfold Covers
    omega
  · have hle := hp.recorded (dp.ptr c.off) (by rw [hptrs]; exact List.mem_map.mpr ⟨c, hc, rfl⟩)
    rw [hsize, hlen] at hle
    exact hle
  · have hcov := hboth.1
    unfold Covers at hcov
    omega
  · rw [hptrs] at hp
    obtain ⟨c, hc, rfl⟩ := List.mem_map.mp hp
    rw [hsize, hlen]
    exact hboth.2 c hc

theorem mem_dispatchesOf {t : OptType} {tr : List Dispatch} {d : Dispatch} :
    d ∈ dispatchesOf t tr ↔ d ∈ tr ∧ d.type = t := by
  rw [dispatchesOf, List.mem_filter, decide_eq_true_eq]

theorem Counts.mem_handed {t : OptType} {ps : DsrPkt → List OptPtr} {taken : Dispatch → Bool}
    (hc : Counts t ps taken) {dp dp' : DsrPkt} {s s' : DsrNode} {tr : List Dispatch}
    (htr : RecvTrace dp s tr dp' s') (hrec : Recorded (parseWalk dp) dp) (hpr : dp.promiscRecv = false)
    {d : Dispatch} : d ∈ (dispatchesOf t tr).take (10 - (ofType dp.byteAt t (parseWalk dp)).length) ↔
      d ∈ tr ∧ d.type = t ∧ (ps d.before).length < 10 := by
  have hlen : 10 - (ps dp).length = 10 - (ofType dp.byteAt t (parseWalk dp)).length := by
    rw [hc.parsed hrec, List.length_take, List.length_map]
    omega
  rw [← hlen, ← hc.filter_taken htr hpr, List.mem_filter, hc.taken_iff]
  refine and_congr_right fun hd => ⟨fun h => ⟨h.1, h.2.2⟩, fun h => ⟨h.1, ?_, h.2⟩⟩
  exact (congrArg Prod.fst (Walked.ends htr d hd)).trans hpr

def handedOf (promisc : Bool) (byte : ℕ → UInt8) (cs : List Cursor) (tr : List Dispatch) : List Dispatch :=
  dispatchesOf .srt tr ++ dispatchesOf .ackReq tr ++
    if promisc then []
    else dispatchesOf .rreq tr ++ dispatchesOf .rrep tr ++
      (dispatchesOf .rerr tr).take (maxRerrOpts - (ofType byte .rerr cs).length) ++
      (dispatchesOf .ack tr).take (maxAckOpts - (ofType byte .ack cs).length)

theorem reads_handed {ms : List Met} {tr : List Dispatch} (h : List.Forall₂ Reads ms tr) (byte : ℕ → UInt8)
    (cs : List Cursor) : List.Forall₂ Reads (handedMets promisc byte cs ms) (handedOf promisc byte cs tr) := by
  refine List.rel_append (List.rel_append (reads_ofType h _) (reads_ofType h _)) ?_
  split
  · exact .nil
  · exact List.rel_append (List.rel_append (List.rel_append (reads_ofType h _) (reads_ofType h _))
      (List.forall₂_take _ (reads_ofType h _))) (List.forall₂_take _ (reads_ofType h _))

theorem mem_handedOf (h : skb.iph.protocol = ipprotoDsr) {s s' : DsrNode} {dp' : DsrPkt} {tr : List Dispatch}
    (htr : RecvTrace (dsrPktRecv mem promisc skb) s tr dp' s') {d : Dispatch} :
    d ∈ handedOf promisc (dsrPktRecv mem promisc skb).byteAt (parseWalk (dsrPktRecv mem promisc skb)) tr ↔
      d ∈ tr ∧ d.handed = true := by
  have hrec := dsrPktRecv_recorded h mem promisc
  have hpr : (dsrPktRecv mem promisc skb).promiscRecv = promisc := rfl
  have hbefore := htr.overheard
  generalize dsrPktRecv mem promisc skb = dp at htr hrec hpr hbefore ⊢
  cases promisc with
  | true =>
    simp only [handedOf, if_true, List.append_nil, List.mem_append, mem_dispatchesOf, ← and_or_left]
    refine and_congr_right fun hd => ?_
    rw [Dispatch.handed, hbefore d hd]
    cases d.type <;> simp
  | false =>
    have hrerr : d ∈ (dispatchesOf .rerr tr).take (maxRerrOpts - (ofType dp.byteAt .rerr (parseWalk dp)).length) ↔ _ :=
      rerr_counts.mem_handed htr hrec hpr
    have hack : d ∈ (dispatchesOf .ack tr).take (maxAckOpts - (ofType dp.byteAt .ack (parseWalk dp)).length) ↔ _ :=
      ack_counts.mem_handed htr hrec hpr
    simp only [handedOf, Bool.false_eq_true, if_false, List.mem_append, mem_dispatchesOf, hrerr, hack,
      ← and_or_left]
    refine and_congr_right fun hd => ?_
    rw [Dispatch.handed, hbefore d hd]
    cases d.type with
    | rerr =>
      dsimp only
      rw [Bool.not_false, Bool.true_and, decide_eq_true_iff]
      simp [maxRerrOpts]
    | ack =>
      dsimp only
      rw [Bool.not_false, Bool.true_and, decide_eq_true_iff]
      simp [maxAckOpts]
    | _ => simp

theorem walkInside_iff (h : skb.iph.protocol = ipprotoDsr) {s s' : DsrNode} {dp' : DsrPkt}
    {tr : List Dispatch} (htr : RecvTrace (dsrPktRecv mem promisc skb) s tr dp' s') :
    WalkInside (dsrPktRecv mem promisc skb) tr ↔ (Covers skb ∧
      ∀ c ∈ recordedAt (dsrPktRecv mem promisc skb).byteAt (parseWalk (dsrPktRecv mem promisc skb)),
        InsideAt (dsrPktRecv mem promisc skb).byteAt (dsrOptsLenOf skb) c) ∧
      ∀ m ∈ handedMets promisc (dsrPktRecv mem promisc skb).byteAt (parseWalk (dsrPktRecv mem promisc skb))
          (metWalk s (grew tr) (dsrPktRecv mem promisc skb)),
        m.cursor.off + m.size ≤ dsrOptsLenOf skb := by
  have hlen : (dsrPktRecv mem promisc skb).optsLen = dsrOptsLenOf skb :=
    optsLen_dh (dsrPktRecv_dh h mem promisc)
  rw [← parseInside_iff h, reads_forall_iff (reads_handed (htr.reads h) _ _)
    (Q := fun d => d.p.off + d.size ≤ dsrOptsLenOf skb) fun hr => by rw [hr.off, hr.size]]
  refine ⟨fun hw => ⟨hw.toParseInside, fun d hd => ?_⟩, fun ⟨hp, hin⟩ => ⟨hp, fun d hd hh => ?_⟩⟩
  · obtain ⟨hm, hh⟩ := (mem_handedOf h htr).mp hd
    exact hlen ▸ hw.handed d hm hh
  · rw [hlen]
    exact hin d ((mem_handedOf h htr).mpr ⟨hd, hh⟩)

end Inside

def srtOpt : DsrOpt :=
  .tlv { type := 96, body := [0, 0, 10, 0, 0, 3], notPad1 := by decide, short := by decide }

def optSrtPkt : DsrPkt := dsrPktRecv (fun _ => 0) true (optSkb [srtOpt])

theorem optSrtPkt_walk : parseWalk optSrtPkt = [⟨4, 4⟩] := by decide +kernel

theorem optSrtPkt_recordedAt : recordedAt optSrtPkt.byteAt [⟨4, 4⟩] = [⟨4, 4⟩] := by decide +kernel

theorem optSrtPkt_inside : optSize optSrtPkt.byteAt 4 = 8 := by decide +kernel

def overrunSkb : Skb :=
  { hSource := 0
    iph := { ihl := 5, totLen := 28, ttl := 64, protocol := ipprotoDsr, saddr := ⟨10, 0, 0, 2⟩
             daddr := ⟨10, 0, 0, 1⟩ }
    data := [0, 0, 0, 4, 96, 200, 0, 0] }

def shortSkb : Skb :=
  { hSource := 0
    iph := { ihl := 5, totLen := 28, ttl := 64, protocol := ipprotoDsr, saddr := ⟨10, 0, 0, 2⟩
             daddr := ⟨10, 0, 0, 1⟩ }
    data := [0, 0, 1, 0, 0, 2, 0, 0] }

end DsrUu
