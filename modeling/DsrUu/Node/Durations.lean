import DsrUu.LinkCache.Route
import DsrUu.Node.Lemmas

namespace DsrUu

open Effect

inductive ConfvalKind
  | seconds | milliseconds | microseconds | nanoseconds | quanta | binary | command
deriving DecidableEq, Repr

inductive Confval
  | printDebug | automaticRouteShortening | roundTripTimeout | flushLinkCache | promiscOperation
  | broadCastJitter | routeCacheTimeout | sendBufferTimeout | sendBufferSize | requestTableSize
  | requestTableIds | maxRequestRexmt | maxRequestPeriod | requestPeriod | nonpropRequestTimeout
  | rexmtBufferSize | maintHoldoffTime | maxMaintRexmt | useNetworkLayerAck | tryPassiveAcks
  | passiveAckTimeout | gratReplyHoldOff | maxSalvageCount
deriving DecidableEq, Repr

def Confval.kind : Confval → ConfvalKind
  | printDebug | automaticRouteShortening | promiscOperation | useNetworkLayerAck => .binary
  | flushLinkCache => .command
  | roundTripTimeout | broadCastJitter | requestPeriod | nonpropRequestTimeout | maintHoldoffTime
  | passiveAckTimeout => .milliseconds
  | routeCacheTimeout | sendBufferTimeout | maxRequestPeriod | gratReplyHoldOff
  | rexmtBufferSize => .seconds
  | sendBufferSize | requestTableSize | requestTableIds | maxRequestRexmt | maxMaintRexmt
  | tryPassiveAcks | maxSalvageCount => .quanta

def confvalToUsecs (confvals : Confval → UInt32) (cv : Confval) : ℕ :=
  match cv.kind with
  | .seconds => (confvals cv * 1000000).toNat
  | .milliseconds => (confvals cv * 1000).toNat
  | .microseconds => (confvals cv).toNat
  | .nanoseconds => (confvals cv).toNat / 1000
  | .quanta | .binary | .command => 0

def ConfVal.full : ConfVal → Confval
  | .automaticRouteShortening => .automaticRouteShortening
  | .roundTripTimeout => .roundTripTimeout
  | .routeCacheTimeout => .routeCacheTimeout
  | .sendBufferTimeout => .sendBufferTimeout
  | .requestTableIds => .requestTableIds
  | .maxRequestRexmt => .maxRequestRexmt
  | .maxRequestPeriod => .maxRequestPeriod
  | .requestPeriod => .requestPeriod
  | .nonpropRequestTimeout => .nonpropRequestTimeout
  | .maintHoldoffTime => .maintHoldoffTime
  | .maxMaintRexmt => .maxMaintRexmt
  | .gratReplyHoldOff => .gratReplyHoldOff
  | .maxSalvageCount => .maxSalvageCount

theorem toUint32_natCast (n : ℕ) : toUint32 n = n % 4294967296 := by
  rw [toUint32]
  exact Int.toNat_natCast (n % 4294967296)

theorem usecsOf_full (confvals : Confval → UInt32) (cv : ConfVal) :
    usecsOf cv (confvals cv.full).toNat = confvalToUsecs confvals cv.full := by
  have hsecs (v : ℕ) : toUint32 (v * 1000000) = v * 1000000 % 4294967296 := by
    have h := toUint32_natCast (v * 1000000)
    rwa [Nat.cast_mul] at h
  have hmillis (v : ℕ) : toUint32 (v * 1000) = v * 1000 % 4294967296 := by
    have h := toUint32_natCast (v * 1000)
    rwa [Nat.cast_mul] at h
  cases cv <;> simp only [usecsOf, confvalToUsecs, ConfVal.full, ConfVal.type, Confval.kind, hsecs, hmillis,
    UInt32.toNat_mul, UInt32.reduceToNat, Nat.reducePow]

theorem usecs_of_seconds (confvals : Confval → UInt32) {cv : Confval} (h : cv.kind = .seconds) :
    confvalToUsecs confvals cv = (confvals cv).toNat * 1000000 ↔ (confvals cv).toNat ≤ 4294 := by
  rw [confvalToUsecs, h]
  simp only [UInt32.toNat_mul, UInt32.reduceToNat]
  omega

theorem usecs_of_milliseconds (confvals : Confval → UInt32) {cv : Confval}
    (h : cv.kind = .milliseconds) :
    confvalToUsecs confvals cv = (confvals cv).toNat * 1000 ↔ (confvals cv).toNat ≤ 4294967 := by
  rw [confvalToUsecs, h]
  simp only [UInt32.toNat_mul, UInt32.reduceToNat]
  omega

def critGarbage (s : DsrNode) (e : SendBufEntry) : Bool :=
  timevalDiff s.now e.qtime ≥ toInt32 (usecsOf .sendBufferTimeout (s.confvals .sendBufferTimeout))

def sendBufCollected (s : DsrNode) : DsrNode :=
  { s with sendBufTimer := none, sendBuf := s.sendBuf.forEachDel (critGarbage s)
           out := s.out ++ (s.sendBuf.head.filter (critGarbage s)).map fun e => .sendBuf (.expired e) }

theorem release_collected (s : DsrNode) :
    release .sendBuf { acquire .sendBuf { s with sendBufTimer := none } with
      sendBuf := s.sendBuf.forEachDel (critGarbage s)
      out := s.out ++ (s.sendBuf.head.filter (critGarbage s)).map fun e => .sendBuf (.expired e) } =
      sendBufCollected s := by
  unfold acquire release sendBufCollected
  cases s.locking <;> simp

theorem sendBufTimeout_runs {s : DsrNode} (hfree : s.locking = true → Lock.sendBuf ∉ s.held) :
    ∃ s', sendBufTimeout s = .ok () s' ∧ s'.sendBuf = s.sendBuf.forEachDel (critGarbage s) := by
  have hcollect : locked .sendBuf (do
      let t ← get
      setSendBuf (t.sendBuf.forEachDel (critGarbage s))
      emitSendBuf .expired (t.sendBuf.head.filter (critGarbage s))) { s with sendBufTimer := none } =
      .ok () (sendBufCollected s) := by
    rw [← release_collected]
    refine locked_runs hfree ?_
    show EStateM.Result.ok () _ = _
    unfold acquire
    cases hk : s.locking <;> rfl
  have hrun : wp sendBufTimeout s (fun _ s' => s'.sendBuf = s.sendBuf.forEachDel (critGarbage s))
      fun _ => False := by
    unfold sendBufTimeout setSendBufTimer confValToUsecs confVal gettime
    simp only [wp_bind, wp_modify, wp_get, wp_pure]
    refine wp_of_run hcollect ?_
    refine wp_locked (s := sendBufCollected s) hfree ?_
    rw [wp_bind, wp_get, wp_pure, release_acquire]
    split
    · rw [wp_pure]
      rfl
    · rw [wp_modify]
      rfl
  obtain ⟨_, s', hs', hbuf⟩ := ok_of_wp hrun
  exact ⟨s', hs', hbuf⟩

theorem sendBufTimeout_removes {s s' : DsrNode} (h : s'.sendBuf = s.sendBuf.forEachDel (critGarbage s))
    {e : SendBufEntry} (he : e ∈ s.sendBuf.head) :
    e ∉ s'.sendBuf.head ↔ toInt32 (usecsOf .sendBufferTimeout (s.confvals .sendBufferTimeout)) ≤
      timevalDiff s.now e.qtime := by
  rw [h, Tbl.forEachDel, List.mem_filter]
  simp [he, critGarbage]

structure DurationsMeant (confvals : Confval → UInt32) : Prop where
  seconds : ∀ cv : Confval, cv.kind = .seconds →
    confvalToUsecs confvals cv = (confvals cv).toNat * 1000000
  milliseconds : ∀ cv : Confval, cv.kind = .milliseconds →
    confvalToUsecs confvals cv = (confvals cv).toNat * 1000
  sendBuf : ∀ s : DsrNode, (∀ cv : ConfVal, s.confvals cv = (confvals cv.full).toNat) →
    (s.locking = true → Lock.sendBuf ∉ s.held) →
    ∃ s', sendBufTimeout s = .ok () s' ∧ ∀ e ∈ s.sendBuf.head, e ∉ s'.sendBuf.head ↔
      ((confvals .sendBufferTimeout).toNat * 1000000 : ℕ) ≤ timevalDiff s.now e.qtime

structure DurationsFit (confvals : Confval → UInt32) : Prop where
  seconds : ∀ cv : Confval, cv.kind = .seconds → (confvals cv).toNat ≤ 4294
  milliseconds : ∀ cv : Confval, cv.kind = .milliseconds → (confvals cv).toNat ≤ 4294967
  sendBuf : (confvals .sendBufferTimeout).toNat ≤ 2147

def agedNode (confvals : Confval → UInt32) (age : ℕ) : DsrNode :=
  { dsrNodeInit ⟨10, 0, 0, 1⟩ (fun cv => (confvals cv.full).toNat) true 0
      ⟨(age / 1000000 : ℕ), (age % 1000000 : ℕ)⟩ (fun _ => 0) 0 with
    sendBuf := { head := [{ dp := {}, qtime := ⟨0, 0⟩, born := 0 }], len := 1, maxLen := sendBufMaxLen } }

theorem usecsOf_sendBuf (confvals : Confval → UInt32) {s : DsrNode}
    (h : ∀ cv : ConfVal, s.confvals cv = (confvals cv.full).toNat) :
    usecsOf .sendBufferTimeout (s.confvals .sendBufferTimeout) =
      confvalToUsecs confvals .sendBufferTimeout := by
  rw [h, usecsOf_full]
  rfl

theorem toInt32_lt (v : ℕ) : toInt32 v < 2147483648 := by
  unfold toInt32
  split <;> omega

theorem agedNode_age (confvals : Confval → UInt32) (age : ℕ) :
    timevalDiff (agedNode confvals age).now ⟨0, 0⟩ = age := by
  simp only [timevalDiff, agedNode, dsrNodeInit]
  omega

namespace DurationsMeant

variable {confvals : Confval → UInt32}

theorem sendBuf_le (h : DurationsMeant confvals) : (confvals .sendBufferTimeout).toNat ≤ 2147 := by
  by_contra hlong
  obtain ⟨age, hage⟩ : ∃ age, age = (toInt32 (confvalToUsecs confvals .sendBufferTimeout)).toNat := ⟨_, rfl⟩
  have hfree : (agedNode confvals age).locking = true → Lock.sendBuf ∉ (agedNode confvals age).held :=
    fun _ => List.not_mem_nil
  obtain ⟨s', hrun, hbuf⟩ := sendBufTimeout_runs hfree
  obtain ⟨s'', hrun', hiff⟩ := h.sendBuf (agedNode confvals age) (fun _ => rfl) hfree
  rw [hrun] at hrun'
  cases hrun'
  have hremoved := sendBufTimeout_removes hbuf List.mem_cons_self
  have hclaimed := hiff _ List.mem_cons_self
  rw [agedNode_age, usecsOf_sendBuf confvals fun _ => rfl] at hremoved
  rw [agedNode_age] at hclaimed
  have hlt := toInt32_lt (confvalToUsecs confvals .sendBufferTimeout)
  have hgone := hclaimed.mp (hremoved.mpr (hage ▸ Int.self_le_toNat _))
  omega

theorem fit (h : DurationsMeant confvals) : DurationsFit confvals where
  seconds cv hcv := (usecs_of_seconds confvals hcv).mp (h.seconds cv hcv)
  milliseconds cv hcv := (usecs_of_milliseconds confvals hcv).mp (h.milliseconds cv hcv)
  sendBuf := h.sendBuf_le

end DurationsMeant

theorem DurationsFit.meant {confvals : Confval → UInt32} (h : DurationsFit confvals) :
    DurationsMeant confvals where
  seconds cv hcv := (usecs_of_seconds confvals hcv).mpr (h.seconds cv hcv)
  milliseconds cv hcv := (usecs_of_milliseconds confvals hcv).mpr (h.milliseconds cv hcv)
  sendBuf s hconf hfree := by
    obtain ⟨s', hrun, hbuf⟩ := sendBufTimeout_runs hfree
    refine ⟨s', hrun, fun e he => ?_⟩
    have hkind : Confval.kind .sendBufferTimeout = .seconds := rfl
    have hsecs := (usecs_of_seconds confvals hkind).mpr (h.seconds _ hkind)
    have hfit := h.sendBuf
    rw [sendBufTimeout_removes hbuf he, usecsOf_sendBuf confvals hconf, hsecs, toInt32_of_lt (by omega)]

theorem durations_meant_iff (confvals : Confval → UInt32) :
    DurationsMeant confvals ↔ DurationsFit confvals :=
  ⟨fun h => h.fit, fun h => h.meant⟩

def Confval.default : Confval → UInt32
  | printDebug => 0
  | automaticRouteShortening | flushLinkCache | promiscOperation | useNetworkLayerAck | tryPassiveAcks
  | gratReplyHoldOff => 1
  | roundTripTimeout => 2000
  | broadCastJitter => 20
  | routeCacheTimeout => 300
  | sendBufferTimeout | nonpropRequestTimeout => 30
  | sendBufferSize | rexmtBufferSize | passiveAckTimeout => 100
  | requestTableSize => 64
  | requestTableIds | maxRequestRexmt => 16
  | maxRequestPeriod => 10
  | requestPeriod => 500
  | maintHoldoffTime => 250
  | maxMaintRexmt => 2
  | maxSalvageCount => 15

theorem default_durations : DurationsFit Confval.default := by
  constructor
  · intro cv _
    cases cv <;> decide
  · intro cv _
    cases cv <;> decide
  · decide

def hourLong : Confval → UInt32 := Function.update Confval.default .sendBufferTimeout 3600

theorem durations_not_meant : hourLong .sendBufferTimeout = 3600 ∧ ¬ DurationsMeant hourLong := by
  refine ⟨rfl, fun h => ?_⟩
  have hle := h.fit.sendBuf
  revert hle
  decide

end DsrUu
