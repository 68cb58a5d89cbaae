import DsrUu.Node.Recv
import DsrUu.Node.Closed
import DsrUu.Maint.Earliest
import DsrUu.Maint.Once
import DsrUu.Queue.Ledger

namespace DsrUu

open Effect Ledger

namespace SendBufEvent

def entry : SendBufEvent → SendBufEntry
  | given e => e
  | overflow e => e
  | refused e => e
  | expired e => e
  | dropped e => e
  | noRoute e => e
  | sent e _ => e
  | flushed e => e

def move : SendBufEvent → Move SendBufEntry
  | given e => .give e
  | overflow e => .evict e
  | refused e => .drop e
  | expired e => .drop e
  | dropped e => .drop e
  | noRoute e => .drop e
  | sent e _ => .ship e
  | flushed e => .drop e

def pkt? : SendBufEvent → Option DsrPkt
  | sent _ dp => some dp
  | _ => none

def Routed : SendBufEvent → Prop
  | sent e dp => ∃ mem srt, dsrSrtAdd mem { e.dp with srt := some srt } = some dp
  | _ => True

theorem routed_of_none {ev : SendBufEvent} (h : ev.pkt? = none) : ev.Routed := by
  cases ev with
  | sent e dp => cases h
  | _ => trivial

end SendBufEvent

def sendBufEvent? : Event → Option SendBufEvent
  | .sendBuf e => some e
  | _ => none

def sendBufXmit? : Event → Option DsrPkt
  | .xmit .sendBuf dp _ => some dp
  | _ => none

def sendBufEvents (out : List Event) : List SendBufEvent := out.filterMap sendBufEvent?

def sendBufXmits (out : List Event) : List DsrPkt := out.filterMap sendBufXmit?

def sendBufMoves (out : List Event) : List (Move SendBufEntry) := (sendBufEvents out).map SendBufEvent.move

theorem sendBufEvents_append (out es : List Event) :
    sendBufEvents (out ++ es) = sendBufEvents out ++ sendBufEvents es := List.filterMap_append

theorem sendBufXmits_append (out es : List Event) :
    sendBufXmits (out ++ es) = sendBufXmits out ++ sendBufXmits es := List.filterMap_append

theorem sendBufEvents_map (evs : List SendBufEvent) : sendBufEvents (evs.map .sendBuf) = evs := by
  rw [sendBufEvents, List.filterMap_map]
  exact List.filterMap_some

theorem sendBufXmits_map (evs : List SendBufEvent) : sendBufXmits (evs.map .sendBuf) = [] := by
  rw [sendBufXmits, List.filterMap_map]
  exact List.filterMap_eq_nil_iff.mpr fun _ _ => rfl

def Unbuffered (e : Event) : Prop := sendBufEvent? e = none

def Foreign (e : Event) : Prop := Unbuffered e ∧ sendBufXmit? e = none

theorem sendBufEvents_unbuffered {es : List Event} (h : ∀ e ∈ es, Unbuffered e) :
    sendBufEvents es = [] := List.filterMap_eq_nil_iff.mpr h

theorem sendBufXmits_foreign {es : List Event} (h : ∀ e ∈ es, Foreign e) : sendBufXmits es = [] :=
  List.filterMap_eq_nil_iff.mpr fun e he => (h e he).2

theorem foreign_of_maintEvent {dp : DsrPkt} {e : Event} (h : maintEvent .sendBuf dp e) : Foreign e := by
  cases e with
  | xmit site dp' due =>
    cases site with
    | ackReqSend => exact ⟨rfl, rfl⟩
    | rerrSend => exact ⟨rfl, rfl⟩
    | salvage => exact ⟨rfl, rfl⟩
    | _ => cases h
  | send site f => exact ⟨rfl, rfl⟩
  | ackReq nxtHop id => exact ⟨rfl, rfl⟩
  | maint now e => exact ⟨rfl, rfl⟩
  | _ => cases h

structure Kept (s s' : DsrNode) : Prop where
  locking : s'.locking = s.locking
  timeout : s'.confvals .sendBufferTimeout = s.confvals .sendBufferTimeout
  now : 0 ≤ timevalDiff s'.now s.now
  sendBufTimer : s'.sendBufTimer = s.sendBufTimer

theorem Kept.refl (s : DsrNode) : Kept s s := ⟨rfl, rfl, Int.le_of_eq (timevalDiff_self _).symm, rfl⟩

structure Beside (N : Event → Prop) (s s' : DsrNode) : Prop extends Kept s s' where
  sendBuf : s'.sendBuf = s.sendBuf
  out : ∃ es, s'.out = s.out ++ es ∧ ∀ e ∈ es, N e

def Elsewhere (s s' : DsrNode) : Prop := Beside Foreign s s'

namespace Beside

variable {N : Event → Prop} {s₀ s s₁ s₂ : DsrNode}

theorem refl (s : DsrNode) : Beside N s s :=
  ⟨Kept.refl s, rfl, [], (List.append_nil _).symm, fun _ he => absurd he List.not_mem_nil⟩

theorem trans (h₁ : Beside N s s₁) (h₂ : Beside N s₁ s₂) : Beside N s s₂ := by
  obtain ⟨es₁, hout₁, hes₁⟩ := h₁.out
  obtain ⟨es₂, hout₂, hes₂⟩ := h₂.out
  refine ⟨⟨h₂.locking.trans h₁.locking, h₂.timeout.trans h₁.timeout, ?_,
    h₂.sendBufTimer.trans h₁.sendBufTimer⟩, h₂.sendBuf.trans h₁.sendBuf, es₁ ++ es₂, ?_, fun e he => ?_⟩
  · rw [timevalDiff_trans s₂.now s₁.now]
    exact Int.add_nonneg h₂.now h₁.now
  · rw [hout₂, hout₁, List.append_assoc]
  · rcases List.mem_append.mp he with he | he
    · exact hes₁ e he
    · exact hes₂ e he

theorem mono {N' : Event → Prop} (h : Beside N s s₁) (hN : ∀ e, N e → N' e) : Beside N' s s₁ := by
  obtain ⟨es, hout, hes⟩ := h.out
  exact ⟨h.toKept, h.sendBuf, es, hout, fun e he => hN e (hes e he)⟩

theorem emit (h : Beside N s₀ s) {e : Event} (he : N e) :
    Beside N s₀ { s with out := s.out ++ [e] } := by
  obtain ⟨es, hout, hes⟩ := h.out
  exact ⟨⟨h.locking, h.timeout, h.now, h.sendBufTimer⟩, h.sendBuf, es ++ [e],
    by rw [hout, List.append_assoc], forall_mem_snoc hes he⟩

theorem length_le (h : Beside N s s₁) : s.out.length ≤ s₁.out.length := by
  obtain ⟨es, hout, -⟩ := h.out
  rw [hout, List.length_append]
  exact Nat.le_add_right _ _

theorem events (h : Beside N s s₁) (hN : ∀ e, N e → Unbuffered e) :
    sendBufEvents s₁.out = sendBufEvents s.out := by
  obtain ⟨es, hout, hes⟩ := h.out
  rw [hout, sendBufEvents_append, sendBufEvents_unbuffered fun e he => hN e (hes e he), List.append_nil]

theorem closed (hN : ∀ e, Foreign e → N e) (s₀ : DsrNode) : RreqClosed (Beside N s₀) (fun _ _ => True)
    fun _ site _ => ∀ dp due, N (.xmit site dp due) := by
  constructor
  case toMaintClosed =>
    constructor
    case toQuiet =>
      constructor
      case lc =>
        exact fun s op lc _ _ h =>
          ⟨⟨h.locking, h.timeout, h.now, h.sendBufTimer⟩, h.sendBuf, h.out⟩
      all_goals exact fun s _ h => ⟨⟨h.locking, h.timeout, h.now, h.sendBufTimer⟩, h.sendBuf, h.out⟩
    case maintBuf =>
      exact fun s _ h _ => ⟨⟨h.locking, h.timeout, h.now, h.sendBufTimer⟩, h.sendBuf, h.out⟩
    case emitXmit => exact fun s site dp h hp => h.emit (hp _ _)
    case emitMaint => exact fun s e h => h.emit (hN _ ⟨rfl, rfl⟩)
    case emitAckReq => exact fun s nxtHop id h => h.emit (hN _ ⟨rfl, rfl⟩)
    case emitSend => exact fun s₁ s site dp dp' hwDest _ _ h _ => h.emit (hN _ ⟨rfl, rfl⟩)
    case ackReqSend => exact fun _ _ _ _ _ _ _ dp due => hN (.xmit .ackReqSend dp due) ⟨rfl, rfl⟩
    case rerrSend =>
      exact fun _ _ _ _ _ _ _ _ _ _ _ _ _ _ dp due => hN (.xmit .rerrSend dp due) ⟨rfl, rfl⟩
    case salvage =>
      exact fun _ _ _ _ _ _ _ _ _ _ _ _ dp due => hN (.xmit .salvage dp due) ⟨rfl, rfl⟩
    all_goals intros; trivial
  case emitDiscovery => exact fun s d st h => h.emit (hN _ ⟨rfl, rfl⟩)
  case rreqSend => exact fun _ _ _ _ _ _ _ dp due => hN (.xmit .rreqSend dp due) ⟨rfl, rfl⟩
  all_goals exact fun s _ h => ⟨⟨h.locking, h.timeout, h.now, h.sendBufTimer⟩, h.sendBuf, h.out⟩

end Beside

namespace Elsewhere

variable {s s₁ : DsrNode} {dp : DsrPkt}

theorem closed (s₀ : DsrNode) : RreqClosed (Elsewhere s₀) (fun _ _ => True)
    fun _ site _ => ∀ dp due, Foreign (.xmit site dp due) := Beside.closed (fun _ he => he) s₀

theorem events (h : Elsewhere s s₁) : sendBufEvents s₁.out = sendBufEvents s.out :=
  Beside.events h fun _ he => he.1

theorem xmits (h : Elsewhere s s₁) : sendBufXmits s₁.out = sendBufXmits s.out := by
  obtain ⟨es, hout, hes⟩ := h.out
  rw [hout, sendBufXmits_append, sendBufXmits_foreign hes, List.append_nil]

theorem startXmit (h : xmit .startXmit dp s = .ok () s₁) : Elsewhere s s₁ :=
  (wp_ok ((closed s).xmit_transmits s .startXmit dp (Beside.refl s) fun _ _ => ⟨rfl, rfl⟩) h).1

theorem buffered (h : xmit .sendBuf dp s = .ok () s₁) :
    ∃ due, Elsewhere { s with out := s.out ++ [.xmit .sendBuf dp due] } s₁ := by
  obtain ⟨due, c, hout, hc⟩ := xmit_once (by exact id) h
  have hb := (wp_ok ((Beside.closed (fun _ he => he.1) s).xmit_transmits s .sendBuf dp (Beside.refl s)
    fun _ _ => rfl) h).1
  refine ⟨due, ⟨hb.locking, hb.timeout, hb.now, hb.sendBufTimer⟩, hb.sendBuf, c, ?_,
    fun e he => foreign_of_maintEvent (hc e he)⟩
  rw [hout, List.append_assoc]
  rfl

theorem dsrRtcFind {src dst : InAddr} {r : Option DsrSrt} (h : DsrUu.dsrRtcFind src dst s = .ok r s₁) :
    Elsewhere s s₁ := ((closed s).toQuiet.dsrRtcFind src dst).run (Beside.refl s) h

theorem dsrRreqRouteDiscovery {target : InAddr} (h : DsrUu.dsrRreqRouteDiscovery target s = .ok () s₁) :
    Elsewhere s s₁ :=
  (((closed s).dsrRreqRouteDiscovery s target).run ⟨Beside.refl s, Later.refl s⟩ h).1

end Elsewhere

structure SendBufBooked (out : List Event) (live : List SendBufEntry) : Prop where
  balanced : Ledger.Balanced SendBufEntry.born (fun e => e.dp.dst) out.length (sendBufMoves out) live
  transmitted : sendBufXmits out = (sendBufEvents out).filterMap SendBufEvent.pkt?
  routed : ∀ ev ∈ sendBufEvents out, ev.Routed

def ArmedBy (timeout : ℕ) (timer : Option Timeval) (es : List SendBufEntry) : Prop :=
  ∀ e ∈ es, ∃ t, timer = some t ∧ timevalDiff t (timevalAddUsecs e.qtime timeout) ≤ 0

structure SendBufInv (timeout cap : ℕ) (s : DsrNode) : Prop where
  locking : s.locking = false
  fixed : usecsOf .sendBufferTimeout (s.confvals .sendBufferTimeout) = timeout
  booked : SendBufBooked s.out s.sendBuf.head
  wf : s.sendBuf.WF
  maxLen : s.sendBuf.maxLen ≤ cap
  bounded : s.sendBuf.head.length ≤ cap
  queued : s.sendBuf.head.Pairwise fun a b => 0 ≤ timevalDiff b.qtime a.qtime
  past : ∀ e ∈ s.sendBuf.head, 0 ≤ timevalDiff s.now e.qtime
  armed : ArmedBy timeout s.sendBufTimer s.sendBuf.head

section Booked

variable {out : List Event} {live live' pre post : List SendBufEntry} {e : SendBufEntry}

theorem SendBufBooked.record (h : SendBufBooked out live) (evs : List SendBufEvent)
    (hpkt : ∀ ev ∈ evs, ev.pkt? = none)
    (hb : Ledger.Balanced SendBufEntry.born (fun e => e.dp.dst) (out ++ evs.map Event.sendBuf).length
      (sendBufMoves out ++ evs.map SendBufEvent.move) live') :
    SendBufBooked (out ++ evs.map .sendBuf) live' := by
  have hevents : sendBufEvents (out ++ evs.map .sendBuf) = sendBufEvents out ++ evs := by
    rw [sendBufEvents_append, sendBufEvents_map]
  refine ⟨?_, ?_, fun ev hev => ?_⟩
  · rw [sendBufMoves, hevents, List.map_append]
    exact hb
  · rw [hevents, List.filterMap_append, ← h.transmitted, List.filterMap_eq_nil_iff.mpr hpkt,
      sendBufXmits_append, sendBufXmits_map]
  · rw [hevents] at hev
    rcases List.mem_append.mp hev with hev | hev
    · exact h.routed ev hev
    · exact SendBufEvent.routed_of_none (hpkt ev hev)

theorem SendBufBooked.given (h : SendBufBooked out live) (hb : e.born = out.length) :
    SendBufBooked (out ++ [.sendBuf (.given e)]) (live ++ [e]) := by
  refine h.record [.given e] (by simp [SendBufEvent.pkt?]) ?_
  refine Ledger.Balanced.give h.balanced (Nat.le_of_eq hb.symm) ?_
  rw [hb, List.length_append]
  exact Nat.lt_succ_self _

theorem SendBufBooked.dropped (h : SendBufBooked out (pre ++ e :: post)) {ev : SendBufEvent}
    (hev : ev.move = .drop e) : SendBufBooked (out ++ [.sendBuf ev]) (pre ++ post) := by
  have hpkt : ev.pkt? = none := by
    cases ev with
    | sent e dp => cases hev
    | _ => rfl
  refine h.record [ev] (fun ev' h' => by rw [List.mem_singleton.mp h', hpkt]) ?_
  change Ledger.Balanced _ _ _ (sendBufMoves out ++ [ev.move]) _
  rw [hev]
  exact (Ledger.Balanced.drop h.balanced).mono (List.prefix_append _ _).length_le

theorem SendBufBooked.overflow (h : SendBufBooked out (e :: post)) :
    SendBufBooked (out ++ [.sendBuf (.overflow e)]) post := by
  refine h.record [.overflow e] (by simp [SendBufEvent.pkt?]) ?_
  exact (Ledger.Balanced.evict h.balanced).mono (List.prefix_append _ _).length_le

theorem SendBufBooked.droppedAll (h : SendBufBooked out live) (p : SendBufEntry → Bool)
    {f : SendBufEntry → SendBufEvent} (hf : ∀ e, (f e).move = .drop e) :
    SendBufBooked (out ++ (live.filter p).map fun e => .sendBuf (f e))
      (live.filter fun e => !p e) := by
  have hmoves : ((live.filter p).map f).map SendBufEvent.move = (live.filter p).map .drop := by
    rw [List.map_map]
    exact List.map_congr_left fun e _ => hf e
  have hpkt : ∀ ev ∈ (live.filter p).map f, ev.pkt? = none := by
    intro ev hev
    obtain ⟨e, -, rfl⟩ := List.mem_map.mp hev
    have he := hf e
    cases hfe : f e with
    | sent e' dp =>
      rw [hfe] at he
      cases he
    | _ => rfl
  have hbook : SendBufBooked (out ++ ((live.filter p).map f).map .sendBuf) (live.filter fun e => !p e) := by
    refine h.record _ hpkt ?_
    rw [hmoves]
    exact (Ledger.Balanced.dropAll h.balanced p).mono (List.prefix_append _ _).length_le
  rw [List.map_map] at hbook
  exact hbook

theorem SendBufBooked.sent (h : SendBufBooked out (pre ++ e :: post)) {out' : List Event} {dp : DsrPkt}
    (hlen : out.length ≤ out'.length) (hevents : sendBufEvents out' = sendBufEvents out)
    (hxmits : sendBufXmits out' = sendBufXmits out ++ [dp]) (hrouted : (SendBufEvent.sent e dp).Routed)
    (hpre : ∀ b ∈ pre, b.dp.dst ≠ e.dp.dst) :
    SendBufBooked (out' ++ [.sendBuf (.sent e dp)]) (pre ++ post) := by
  have hevents' : sendBufEvents (out' ++ [.sendBuf (.sent e dp)]) = sendBufEvents out ++ [.sent e dp] := by
    rw [sendBufEvents_append, hevents]
    rfl
  refine ⟨?_, ?_, fun ev hev => ?_⟩
  · rw [sendBufMoves, hevents', List.map_append]
    refine (Ledger.Balanced.ship h.balanced hpre).mono ?_
    rw [List.length_append]
    exact Nat.le_trans hlen (Nat.le_add_right _ _)
  · rw [hevents', List.filterMap_append, ← h.transmitted, sendBufXmits_append, hxmits]
    exact List.append_nil _
  · rw [hevents'] at hev
    rcases List.mem_append.mp hev with hev | hev
    · exact h.routed ev hev
    · rw [List.mem_singleton.mp hev]
      exact hrouted

theorem SendBufBooked.elsewhere {s s' : DsrNode} (h : SendBufBooked s.out live)
    (he : Elsewhere s s') : SendBufBooked s'.out live := by
  refine ⟨?_, ?_, ?_⟩
  · rw [sendBufMoves, he.events]
    exact h.balanced.mono he.length_le
  · rw [he.xmits, he.events]
    exact h.transmitted
  · rw [he.events]
    exact h.routed

end Booked

theorem ArmedBy.subset {timeout : ℕ} {timer : Option Timeval} {es es' : List SendBufEntry}
    (h : ArmedBy timeout timer es) (hs : ∀ e ∈ es', e ∈ es) : ArmedBy timeout timer es' :=
  fun e he => h e (hs e he)

theorem timevalDiff_deadlines (a b : Timeval) (u : ℕ) :
    timevalDiff (timevalAddUsecs a u) (timevalAddUsecs b u) = timevalDiff a b := by
  rw [timevalDiff_addUsecs, timevalDiff_neg a, timevalDiff_addUsecs, timevalDiff_neg b]
  omega

namespace SendBufInv

variable {timeout cap : ℕ} {s s' : DsrNode}

theorem shrink (h : SendBufInv timeout cap s) (hk : Kept s s')
    (hs : s'.sendBuf.head.Sublist s.sendBuf.head) (hwf : s'.sendBuf.WF)
    (hmax : s'.sendBuf.maxLen = s.sendBuf.maxLen) (hb : SendBufBooked s'.out s'.sendBuf.head) :
    SendBufInv timeout cap s' := by
  refine ⟨hk.locking.trans h.locking, by rw [hk.timeout]; exact h.fixed, hb, hwf, by rw [hmax]; exact h.maxLen,
    Nat.le_trans hs.length_le h.bounded, h.queued.sublist hs, fun e he => ?_, ?_⟩
  · rw [timevalDiff_trans s'.now s.now]
    exact Int.add_nonneg hk.now (h.past e (hs.subset he))
  · rw [hk.sendBufTimer]
    exact h.armed.subset fun _ he => hs.subset he

theorem elsewhere (h : SendBufInv timeout cap s) (he : Elsewhere s s') : SendBufInv timeout cap s' := by
  refine h.shrink he.toKept ?_ ?_ ?_ ?_
  · rw [he.sendBuf]
  · rw [he.sendBuf]
    exact h.wf
  · rw [he.sendBuf]
  · rw [he.sendBuf]
    exact h.booked.elsewhere he

theorem remove (h : SendBufInv timeout cap s) {t : Tbl SendBufEntry} {out : List Event}
    (hs : t.head.Sublist s.sendBuf.head) (hwf : t.WF) (hmax : t.maxLen = s.sendBuf.maxLen)
    (hb : SendBufBooked out t.head) : SendBufInv timeout cap { s with sendBuf := t, out := out } :=
  h.shrink ⟨rfl, rfl, (Kept.refl s).now, rfl⟩ hs hwf hmax hb

end SendBufInv

theorem findDetach_split {t t' : Tbl SendBufEntry} {crit : SendBufEntry → Bool} {e : SendBufEntry}
    (h : t.findDetach crit = some (e, t')) : ∃ pre post, t.head = pre ++ e :: post ∧
      t'.head = pre ++ post ∧ t'.len = t.len - 1 ∧ t'.maxLen = t.maxLen ∧ crit e = true ∧
        ∀ b ∈ pre, crit b = false := by
  unfold Tbl.findDetach at h
  obtain ⟨e', hf, hp⟩ := Option.map_eq_some_iff.mp h
  cases hp
  obtain ⟨hc, pre, post, heq, hpre⟩ := List.find?_eq_some_iff_append.mp hf
  refine ⟨pre, post, heq, ?_, rfl, rfl, hc, fun b hb => by simpa using hpre b hb⟩
  have hpre' : ∀ b ∈ pre, ¬ crit b = true := fun b hb => by simpa using hpre b hb
  dsimp only
  rw [heq, List.eraseP_append_right _ hpre', List.eraseP_cons_of_pos hc]

theorem findDetach_filter {t t' : Tbl SendBufEntry} {crit : SendBufEntry → Bool} {e : SendBufEntry}
    (h : t.findDetach crit = some (e, t')) : t.head.filter crit = e :: t'.head.filter crit ∧
      t'.head.filter (fun e => !crit e) = t.head.filter fun e => !crit e := by
  obtain ⟨pre, post, heq, heq', -, -, hc, hpre⟩ := findDetach_split h
  have hnone : pre.filter crit = [] := List.filter_eq_nil_iff.mpr fun b hb => by simp [hpre b hb]
  rw [heq, heq']
  refine ⟨?_, ?_⟩
  · rw [List.filter_append, List.filter_append, hnone, List.filter_cons_of_pos hc]
    rfl
  · rw [List.filter_append, List.filter_append, List.filter_cons_of_neg (by simp [hc])]

theorem findDetach_unmatched {t : Tbl SendBufEntry} {crit : SendBufEntry → Bool} (h : t.findDetach crit = none) :
    t.head.filter crit = [] ∧ t.head.filter (fun e => !crit e) = t.head := by
  have hno := List.find?_eq_none.mp (Option.map_eq_none_iff.mp h)
  exact ⟨List.filter_eq_nil_iff.mpr hno, List.filter_eq_self.mpr fun e he => by simpa using hno e he⟩

theorem findDetach_wf {t t' : Tbl SendBufEntry} {crit : SendBufEntry → Bool} {e : SendBufEntry}
    (hwf : t.WF) (h : t.findDetach crit = some (e, t')) : t'.WF := by
  obtain ⟨pre, post, heq, heq', hlen, -, -, -⟩ := findDetach_split h
  unfold Tbl.WF at hwf ⊢
  rw [hlen, hwf, heq, heq', List.length_append, List.length_append, List.length_cons]
  omega

theorem detachFirst_wf {t t' : Tbl SendBufEntry} {e : SendBufEntry} (hwf : t.WF)
    (h : t.detachFirst = some (e, t')) : t.head = e :: t'.head ∧ t'.WF ∧ t'.maxLen = t.maxLen := by
  unfold Tbl.detachFirst at h
  unfold Tbl.WF at hwf ⊢
  split at h
  · cases h
  · next hd =>
    cases h
    refine ⟨hd, ?_, rfl⟩
    dsimp only
    rw [hwf, hd, List.length_cons, Nat.add_sub_cancel]

theorem unlocked_ok {α : Type} {l : Lock} {m : DsrM α} {s s' : DsrNode} {a : α}
    (hl : s.locking = false) (h : locked l m s = .ok a s') :
    ∃ s₁, m s = .ok a s₁ ∧ s' = release l s₁ := by
  obtain ⟨s₁, hm, rfl, -⟩ := locked_ok h
  rw [acquire, hl, if_neg (by decide)] at hm
  exact ⟨s₁, hm, rfl⟩

theorem release_of_unlocked {l : Lock} {s : DsrNode} (hl : s.locking = false) : release l s = s := by
  rw [release, hl, if_neg (by decide)]

theorem locked_unlocked {α : Type} {l : Lock} {m : DsrM α} {s s₁ : DsrNode} {a : α}
    (hl : s.locking = false) (hm : m s = .ok a s₁) (hl₁ : s₁.locking = false) :
    locked l m s = .ok a s₁ := by
  have hac : acquire l s = s := by rw [acquire, hl, if_neg (by decide)]
  have hrun := locked_runs (l := l) (fun h => absurd (hl.symm.trans h) (by decide)) (hac.symm ▸ hm)
  rw [release_of_unlocked hl₁] at hrun
  exact hrun

structure Consumes (p : SendBufEntry → Bool) (evs : List SendBufEvent) (s s' : DsrNode) : Prop where
  kept : s'.sendBuf.head = s.sendBuf.head.filter fun e => !p e
  taken : evs.map SendBufEvent.entry = s.sendBuf.head.filter p
  maxLen : s'.sendBuf.maxLen = s.sendBuf.maxLen
  events : sendBufEvents s'.out = sendBufEvents s.out ++ evs

theorem Consumes.none {s s' : DsrNode} (h : Elsewhere s s') : Consumes (fun _ => false) [] s s' := by
  refine ⟨?_, ?_, by rw [h.sendBuf], ?_⟩
  · rw [h.sendBuf]
    exact (List.filter_eq_self.mpr fun _ _ => rfl).symm
  · exact (List.filter_eq_nil_iff.mpr fun _ _ => Bool.false_ne_true).symm
  · rw [h.events, List.append_nil]

theorem Consumes.all {s : DsrNode} (p : SendBufEntry → Bool) {f : SendBufEntry → SendBufEvent}
    (hf : ∀ e, (f e).entry = e) (timer : Option Timeval) : Consumes p ((s.sendBuf.head.filter p).map f) s
      { s with sendBuf := s.sendBuf.forEachDel p, sendBufTimer := timer
               out := s.out ++ (s.sendBuf.head.filter p).map fun e => .sendBuf (f e) } := by
  refine ⟨rfl, ?_, rfl, ?_⟩
  · rw [List.map_map]
    exact (List.map_congr_left fun e _ => hf e).trans (List.map_id _)
  · have hmap : (s.sendBuf.head.filter p).map (fun e => Event.sendBuf (f e)) =
        ((s.sendBuf.head.filter p).map f).map .sendBuf := List.map_map.symm
    rw [hmap, sendBufEvents_append, sendBufEvents_map]

theorem forEachDel_wf {t : Tbl SendBufEntry} (h : t.WF) (crit : SendBufEntry → Bool) :
    (t.forEachDel crit).WF := by
  have hlen := List.length_eq_length_filter_add (l := t.head) crit
  unfold Tbl.WF at h ⊢
  simp only [Tbl.forEachDel]
  omega

theorem sendBufDropLoop_eq {dst : InAddr} (fuel : ℕ) : ∀ {first : Bool} {s : DsrNode}, s.locking = false →
    (s.sendBuf.head.filter fun e => e.dp.dst = dst).length < fuel →
    sendBufDropLoop dst fuel first s = .ok () { s with
      sendBuf := s.sendBuf.forEachDel fun e => e.dp.dst = dst
      out := s.out ++ (s.sendBuf.head.filter fun e => e.dp.dst = dst).map fun e => .sendBuf (.dropped e) } := by
  induction fuel with
  | zero => exact fun _ h => absurd h (Nat.not_lt_zero _)
  | succ fuel ih =>
    intro first s hl hfuel
    unfold sendBufDropLoop
    refine (bind_of_ok (rfl : (get : DsrM DsrNode) s = .ok s s) _).trans ?_
    cases hd : s.sendBuf.findDetach fun e => e.dp.dst = dst with
    | none =>
      obtain ⟨hnil, hall⟩ := findDetach_unmatched hd
      have hsame : s.sendBuf.forEachDel (fun e => e.dp.dst = dst) = s.sendBuf := by
        rw [Tbl.forEachDel, hnil, hall]
        rfl
      rw [hsame, hnil, List.map_nil, List.append_nil]
      rfl
    | some q =>
      obtain ⟨e, t⟩ := q
      obtain ⟨-, -, -, -, hlen, hmax, -, -⟩ := findDetach_split hd
      obtain ⟨hcons, hrest⟩ := findDetach_filter hd
      have hnot : ¬ (first && s.locking) = true := by simp [hl]
      have hnext := @ih false { s with sendBuf := t, out := s.out ++ [.sendBuf (.dropped e)] } hl
        (by rw [hcons] at hfuel; exact Nat.lt_of_succ_lt_succ hfuel)
      have hdel : t.forEachDel (fun e => e.dp.dst = dst) = s.sendBuf.forEachDel fun e => e.dp.dst = dst := by
        rw [Tbl.forEachDel, Tbl.forEachDel, hcons, hrest, hmax, hlen, List.length_cons, Nat.sub_sub,
          Nat.add_comm 1]
      dsimp only
      refine (bind_of_ok (rfl : setSendBuf t s = .ok () { s with sendBuf := t }) _).trans ?_
      rw [if_neg hnot]
      refine (bind_of_ok (rfl : emitSendBuf .dropped [e] { s with sendBuf := t } =
        .ok () { s with sendBuf := t, out := s.out ++ [.sendBuf (.dropped e)] }) _).trans ?_
      refine hnext.trans ?_
      dsimp only
      rw [hdel, hcons, List.map_cons, List.append_assoc]
      rfl

inductive SendTurn (s : DsrNode) (e : SendBufEntry) : SendBufEvent → DsrNode → Prop
  | noRoute {r : Option DsrSrt} {s₁ : DsrNode} : dsrRtcFind e.dp.src e.dp.dst s = .ok r s₁ →
      (∀ srt, r = some srt → dsrSrtAdd s.kmem { e.dp with srt := some srt } = none) →
      SendTurn s e (.noRoute e) s₁
  | sent {srt : DsrSrt} {dp : DsrPkt} {s₁ s₂ : DsrNode} :
      dsrRtcFind e.dp.src e.dp.dst s = .ok (some srt) s₁ →
      dsrSrtAdd s.kmem { e.dp with srt := some srt } = some dp → xmit .sendBuf dp s₁ = .ok () s₂ →
      SendTurn s e (.sent e dp) s₂

inductive SendTurns (dst : InAddr) : DsrNode → List SendBufEvent → DsrNode → Prop
  | done {s : DsrNode} : (s.sendBuf.findDetach fun e => e.dp.dst = dst) = none → SendTurns dst s [] s
  | turn {s s₁ s' : DsrNode} {e : SendBufEntry} {t : Tbl SendBufEntry} {ev : SendBufEvent}
      {evs : List SendBufEvent} : (s.sendBuf.findDetach fun e => e.dp.dst = dst) = some (e, t) →
      SendTurn { s with sendBuf := t } e ev s₁ →
      SendTurns dst { s₁ with out := s₁.out ++ [.sendBuf ev] } evs s' → SendTurns dst s (ev :: evs) s'

theorem sendBufSendOne_ok {e : SendBufEntry} {s s' : DsrNode} (h : sendBufSendOne e s = .ok () s') :
    ∃ ev s₁, SendTurn s e ev s₁ ∧ s' = { s₁ with out := s₁.out ++ [.sendBuf ev] } := by
  unfold sendBufSendOne kmalloc at h
  obtain ⟨mem, s₁, hk, h⟩ := bind_ok h
  cases hk
  obtain ⟨r, s₂, hf, h⟩ := bind_ok h
  cases r with
  | none =>
    cases h
    exact ⟨.noRoute e, s₂, .noRoute hf nofun, rfl⟩
  | some srt =>
    dsimp only at h
    generalize hadd : dsrSrtAdd _ _ = o at h
    cases o with
    | none =>
      cases h
      exact ⟨.noRoute e, s₂, .noRoute hf fun srt' hs => by cases hs; exact hadd, rfl⟩
    | some dp =>
      obtain ⟨_, s₃, hx, h⟩ := bind_ok h
      cases h
      exact ⟨.sent e dp, s₃, .sent hf hadd hx, rfl⟩

theorem sendBufSendLoop_ok {dst : InAddr} (fuel : ℕ) : ∀ {s s' : DsrNode},
    sendBufSendLoop dst fuel s = .ok () s' → ∃ evs, SendTurns dst s evs s' := by
  induction fuel with
  | zero =>
    intro s s' h
    cases h
  | succ fuel ih =>
    intro s s' h
    unfold sendBufSendLoop at h
    obtain ⟨t, s₁, hg, h⟩ := bind_ok h
    cases hg
    cases hd : s.sendBuf.findDetach fun e => e.dp.dst = dst with
    | none =>
      simp only [hd] at h
      cases h
      exact ⟨[], .done hd⟩
    | some q =>
      obtain ⟨e, t⟩ := q
      simp only [hd] at h
      obtain ⟨_, s₂, hset, h⟩ := bind_ok h
      cases hset
      obtain ⟨_, s₃, hone, h⟩ := bind_ok h
      obtain ⟨ev, s₄, hturn, rfl⟩ := sendBufSendOne_ok hone
      obtain ⟨evs, hrest⟩ := ih h
      exact ⟨ev :: evs, .turn hd hturn hrest⟩

namespace SendTurn

variable {s s₁ : DsrNode} {e : SendBufEntry} {ev : SendBufEvent}

theorem entry (h : SendTurn s e ev s₁) : ev.entry = e := by
  cases h with
  | noRoute _ _ => rfl
  | sent _ _ _ => rfl

theorem beside (h : SendTurn s e ev s₁) : Beside Unbuffered s s₁ := by
  cases h with
  | noRoute hf _ => exact (Elsewhere.dsrRtcFind hf).mono fun _ he => he.1
  | @sent srt dp s₂ _ hf _ hx =>
    obtain ⟨due, hb⟩ := Elsewhere.buffered hx
    have hxmit : Beside Unbuffered s₂ { s₂ with out := s₂.out ++ [.xmit .sendBuf dp due] } :=
      (Beside.refl s₂).emit rfl
    exact ((Elsewhere.dsrRtcFind hf).mono fun _ he => he.1).trans (hxmit.trans (hb.mono fun _ he => he.1))

theorem booked (h : SendTurn s e ev s₁) {pre post : List SendBufEntry}
    (hb : SendBufBooked s.out (pre ++ e :: post)) (hpre : ∀ b ∈ pre, b.dp.dst ≠ e.dp.dst) :
    SendBufBooked (s₁.out ++ [.sendBuf ev]) (pre ++ post) := by
  cases h with
  | noRoute hf _ => exact (hb.elsewhere (Elsewhere.dsrRtcFind hf)).dropped rfl
  | @sent srt dp s₂ _ hf hadd hx =>
    have hb₂ := hb.elsewhere (Elsewhere.dsrRtcFind hf)
    obtain ⟨due, hx⟩ := Elsewhere.buffered hx
    refine hb₂.sent ?_ ?_ ?_ ⟨s.kmem, srt, hadd⟩ hpre
    · exact Nat.le_trans (List.prefix_append _ _).length_le hx.length_le
    · rw [hx.events, sendBufEvents_append]
      exact List.append_nil _
    · rw [hx.xmits, sendBufXmits_append]
      rfl

end SendTurn

theorem SendTurns.consumes {dst : InAddr} {s s' : DsrNode} {evs : List SendBufEvent}
    (h : SendTurns dst s evs s') : Consumes (fun e => e.dp.dst = dst) evs s s' := by
  induction h with
  | done hd =>
    obtain ⟨hnil, hall⟩ := findDetach_unmatched hd
    exact ⟨hall.symm, hnil.symm, rfl, (List.append_nil _).symm⟩
  | @turn s s₁ s' e t ev evs hd hturn _ ih =>
    obtain ⟨hcons, hrest⟩ := findDetach_filter hd
    obtain ⟨-, -, -, -, -, hmax, -, -⟩ := findDetach_split hd
    have hb := hturn.beside
    have hbuf : s₁.sendBuf = t := hb.sendBuf
    have hkept := ih.kept
    have htaken := ih.taken
    have hmaxLen := ih.maxLen
    have hevents := ih.events
    rw [hbuf] at hkept htaken hmaxLen
    refine ⟨?_, ?_, hmaxLen.trans hmax, ?_⟩
    · rw [hkept, hrest]
    · rw [List.map_cons, hturn.entry, htaken, hcons]
    · rw [hevents, sendBufEvents_append, hb.events fun _ he => he, List.append_assoc]
      rfl

theorem SendTurns.locking {dst : InAddr} {s s' : DsrNode} {evs : List SendBufEvent}
    (h : SendTurns dst s evs s') : s'.locking = s.locking := by
  induction h with
  | done _ => rfl
  | turn _ hturn _ ih => exact ih.trans hturn.beside.locking

namespace SendBufInv

variable {timeout cap : ℕ} {s s' : DsrNode}

theorem turn (h : SendBufInv timeout cap s) {dst : InAddr} {e : SendBufEntry} {t : Tbl SendBufEntry}
    {ev : SendBufEvent} {s₁ : DsrNode} (hd : (s.sendBuf.findDetach fun e => e.dp.dst = dst) = some (e, t))
    (hturn : SendTurn { s with sendBuf := t } e ev s₁) :
    SendBufInv timeout cap { s₁ with out := s₁.out ++ [.sendBuf ev] } := by
  obtain ⟨pre, post, heq, heq', -, hmax, hc, hpre⟩ := findDetach_split hd
  have hb := hturn.beside
  have hbuf : s₁.sendBuf = t := hb.sendBuf
  have hbook := h.booked
  rw [heq] at hbook
  refine h.shrink ⟨hb.locking, hb.timeout, hb.now, hb.sendBufTimer⟩ ?_ ?_ ?_ ?_
  · rw [hbuf]
    exact Tbl.findDetach_sublist hd
  · rw [hbuf]
    exact findDetach_wf h.wf hd
  · rw [hbuf]
    exact hmax
  · rw [hbuf, heq']
    refine hturn.booked hbook fun b hb => ?_
    rw [of_decide_eq_true hc]
    exact of_decide_eq_false (hpre b hb)

theorem turns (h : SendBufInv timeout cap s) {dst : InAddr} {evs : List SendBufEvent}
    (hs : SendTurns dst s evs s') : SendBufInv timeout cap s' := by
  induction hs with
  | done _ => exact h
  | turn hd hturn _ ih => exact ih (h.turn hd hturn)

theorem drop (h : SendBufInv timeout cap s) (p : SendBufEntry → Bool) {f : SendBufEntry → SendBufEvent}
    (hf : ∀ e, (f e).move = .drop e) : SendBufInv timeout cap { s with
      sendBuf := s.sendBuf.forEachDel p
      out := s.out ++ (s.sendBuf.head.filter p).map fun e => .sendBuf (f e) } :=
  h.remove List.filter_sublist (forEachDel_wf h.wf p) rfl (h.booked.droppedAll p hf)

end SendBufInv

theorem sendBufSetVerdict_drop {dst : InAddr} {s : DsrNode} (hl : s.locking = false) :
    sendBufSetVerdict .drop dst s = .ok () { s with
      sendBuf := s.sendBuf.forEachDel fun e => e.dp.dst = dst
      out := s.out ++ (s.sendBuf.head.filter fun e => e.dp.dst = dst).map fun e => .sendBuf (.dropped e) } := by
  unfold sendBufSetVerdict
  refine locked_unlocked hl ?_ hl
  refine (bind_of_ok (rfl : (get : DsrM DsrNode) s = .ok s s) _).trans ?_
  exact sendBufDropLoop_eq _ hl (Nat.lt_succ_of_le (List.length_filter_le _ _))

theorem sendBufSetVerdict_send {dst : InAddr} {s s' : DsrNode} (hl : s.locking = false)
    (h : sendBufSetVerdict .send dst s = .ok () s') : ∃ evs, SendTurns dst s evs s' := by
  obtain ⟨s₁, hm, rfl⟩ := unlocked_ok hl h
  obtain ⟨t, s₂, hg, hm⟩ := bind_ok hm
  cases hg
  obtain ⟨evs, hturns⟩ := sendBufSendLoop_ok _ hm
  rw [release_of_unlocked (hturns.locking.trans hl)]
  exact ⟨evs, hturns⟩

theorem sendBufFlush_eq {s : DsrNode} (hl : s.locking = false) : sendBufFlush s = .ok () { s with
    sendBuf := s.sendBuf.forEachDel fun _ => true
    out := s.out ++ (s.sendBuf.head.filter fun _ => true).map fun e => .sendBuf (.flushed e) } := by
  have hall : s.sendBuf.head.filter (fun _ => true) = s.sendBuf.head := List.filter_eq_self.mpr fun _ _ => rfl
  have hflush : s.sendBuf.forEachDel (fun _ => true) = s.sendBuf.flush := by
    rw [Tbl.forEachDel, Tbl.flush, hall]
    congr 1
    exact List.filter_eq_nil_iff.mpr fun _ _ => Bool.false_ne_true
  rw [hflush, hall]
  exact locked_unlocked hl rfl hl

def sendBufExpired (timeout : ℕ) (s : DsrNode) (e : SendBufEntry) : Bool :=
  timevalDiff s.now e.qtime ≥ toInt32 timeout

theorem sendBufTimeout_eq {timeout : ℕ} {s : DsrNode} (hl : s.locking = false)
    (hu : usecsOf .sendBufferTimeout (s.confvals .sendBufferTimeout) = timeout) :
    sendBufTimeout s = .ok () { s with
      sendBuf := s.sendBuf.forEachDel (sendBufExpired timeout s)
      sendBufTimer := (s.sendBuf.forEachDel (sendBufExpired timeout s)).head.head?.map
        fun e => timevalAddUsecs e.qtime timeout
      out := s.out ++ (s.sendBuf.head.filter (sendBufExpired timeout s)).map
        fun e => .sendBuf (.expired e) } := by
  obtain ⟨s₁, hs₁⟩ : ∃ s₁ : DsrNode, s₁ = { s with
      sendBuf := s.sendBuf.forEachDel (sendBufExpired timeout s)
      sendBufTimer := none
      out := s.out ++ (s.sendBuf.head.filter (sendBufExpired timeout s)).map
        fun e => .sendBuf (.expired e) } := ⟨_, rfl⟩
  have hl₁ : s₁.locking = false := by rw [hs₁]; exact hl
  have hcollect : locked .sendBuf (do
      let t ← get
      setSendBuf (t.sendBuf.forEachDel fun e => timevalDiff s.now e.qtime ≥ toInt32 timeout)
      emitSendBuf .expired (t.sendBuf.head.filter fun e => timevalDiff s.now e.qtime ≥ toInt32 timeout))
      { s with sendBufTimer := none } = .ok () s₁ :=
    locked_unlocked hl (by rw [hs₁]; rfl) hl₁
  have hfirst : locked .sendBuf (do
      let t ← get
      pure t.sendBuf.head.head?) s₁ = .ok s₁.sendBuf.head.head? s₁ := locked_unlocked hl₁ rfl hl₁
  unfold sendBufTimeout
  refine (bind_of_ok (rfl : setSendBufTimer none s = .ok () { s with sendBufTimer := none }) _).trans ?_
  refine (bind_of_ok (rfl : gettime { s with sendBufTimer := none } =
    .ok s.now { s with sendBufTimer := none }) _).trans ?_
  refine (bind_of_ok (rfl : confValToUsecs .sendBufferTimeout { s with sendBufTimer := none } =
    .ok (usecsOf .sendBufferTimeout (s.confvals .sendBufferTimeout)) { s with sendBufTimer := none }) _).trans ?_
  rw [hu]
  refine (bind_of_ok hcollect _).trans ((bind_of_ok hfirst _).trans ?_)
  rw [hs₁]
  cases (s.sendBuf.forEachDel (sendBufExpired timeout s)).head.head? <;> rfl

namespace SendBufInv

variable {timeout cap : ℕ} {s s' : DsrNode}

theorem timeout_step (hi : SendBufInv timeout cap s) (h : sendBufTimeout s = .ok () s') :
    SendBufInv timeout cap s' := by
  rw [sendBufTimeout_eq hi.locking hi.fixed] at h
  cases h
  have hkept := hi.drop (sendBufExpired timeout s) (f := .expired) fun _ => rfl
  refine ⟨hkept.locking, hkept.fixed, hkept.booked, hkept.wf, hkept.maxLen, hkept.bounded,
    hkept.queued, hkept.past, fun e he => ?_⟩
  have hq := hkept.queued
  cases hhead : (s.sendBuf.forEachDel (sendBufExpired timeout s)).head with
  | nil =>
    dsimp only at he
    rw [hhead] at he
    cases he
  | cons f rest =>
    dsimp only at he hq
    rw [hhead] at he hq
    refine ⟨_, rfl, ?_⟩
    rw [timevalDiff_deadlines, timevalDiff_neg]
    rcases List.mem_cons.mp he with rfl | he
    · rw [timevalDiff_self]
      decide
    · have hle := (List.pairwise_cons.mp hq).1 e he
      omega

theorem armed_snoc (hi : SendBufInv timeout cap s) {e : SendBufEntry} (hq : e.qtime = s.now)
    (hne : s.sendBuf.head ≠ []) : ArmedBy timeout s.sendBufTimer (s.sendBuf.head ++ [e]) := by
  refine forall_mem_snoc hi.armed ?_
  obtain ⟨f, hf⟩ := List.exists_mem_of_ne_nil _ hne
  obtain ⟨u, hu, hle⟩ := hi.armed f hf
  have hpast := hi.past f hf
  refine ⟨u, hu, ?_⟩
  rw [timevalDiff_trans u (timevalAddUsecs f.qtime timeout), timevalDiff_deadlines, hq,
    timevalDiff_neg f.qtime]
  omega

theorem added (hi : SendBufInv timeout cap s) {e : SendBufEntry} {t : Tbl SendBufEntry}
    {out : List Event} {timer : Option Timeval} (hq : e.qtime = s.now)
    (hadd : s.sendBuf.addTail e = some t) (hb : SendBufBooked out (s.sendBuf.head ++ [e]))
    (harmed : ArmedBy timeout timer (s.sendBuf.head ++ [e])) :
    SendBufInv timeout cap { s with sendBuf := t, sendBufTimer := timer, out := out } := by
  have hwf := hi.wf.addTail hadd
  obtain ⟨hlt, rfl⟩ := Tbl.addTail_eq_some hadd
  have hlen : s.sendBuf.len = s.sendBuf.head.length := hi.wf
  have hmax := hi.maxLen
  refine ⟨hi.locking, hi.fixed, hb, hwf, hmax, ?_, ?_, forall_mem_snoc hi.past ?_, harmed⟩
  · rw [List.length_append]
    change _ + 1 ≤ cap
    omega
  · refine List.pairwise_append.mpr ⟨hi.queued, List.pairwise_singleton _ _, fun a ha b hb => ?_⟩
    rw [List.mem_singleton.mp hb, hq]
    exact hi.past a ha
  · rw [hq, timevalDiff_self]

end SendBufInv

def sendBufEntryCreate (dp : DsrPkt) (s : DsrNode) : SendBufEntry :=
  { dp := dp, qtime := s.now, born := s.out.length }

def sendBufPush (maxLen : ℕ) (e : SendBufEntry) : List SendBufEntry → List SendBufEntry × List SendBufEvent
  | [] => if 0 < maxLen then ([e], [.given e]) else ([], [.given e, .refused e])
  | f :: rest =>
      if rest.length + 1 < maxLen then (f :: rest ++ [e], [.given e])
      else if rest.length < maxLen then (rest ++ [e], [.given e, .overflow f])
      else (rest, [.given e, .overflow f, .refused e])

structure Enqueued (dp : DsrPkt) (s s' : DsrNode) : Prop where
  head : s'.sendBuf.head =
    (sendBufPush s.sendBuf.maxLen (sendBufEntryCreate dp s) s.sendBuf.head).1
  maxLen : s'.sendBuf.maxLen = s.sendBuf.maxLen
  events : sendBufEvents s'.out = sendBufEvents s.out ++
    (sendBufPush s.sendBuf.maxLen (sendBufEntryCreate dp s) s.sendBuf.head).2

section Enqueue

variable {dp : DsrPkt} {s s₁ : DsrNode}

theorem sendBufEnqueuePacket_run {empty res : Bool} (hl : s.locking = false) (hl₁ : s₁.locking = false)
    (hin : (do
      let s₀ ← get
      let empty : Bool := s₀.sendBuf.head = []
      match s₀.sendBuf.addTail (sendBufEntryCreate dp s) with
      | some t =>
          setSendBuf t
          pure (empty, true)
      | none =>
          sendBufEvict
          let res ← sendBufAddAgain (sendBufEntryCreate dp s)
          pure (empty, res) : DsrM (Bool × Bool))
      { s with out := s.out ++ [.sendBuf (.given (sendBufEntryCreate dp s))] } = .ok (empty, res) s₁) :
    sendBufEnqueuePacket dp s = .ok res { s₁ with
      sendBufTimer := if res && empty then
        some (timevalAddUsecs s.now (usecsOf .sendBufferTimeout (s.confvals .sendBufferTimeout)))
        else s₁.sendBufTimer } := by
  unfold sendBufEnqueuePacket
  refine (bind_of_ok (rfl : gettime s = .ok s.now s) _).trans ?_
  refine (bind_of_ok (rfl : confValToUsecs .sendBufferTimeout s =
    .ok (usecsOf .sendBufferTimeout (s.confvals .sendBufferTimeout)) s) _).trans ?_
  refine (bind_of_ok (rfl : (get : DsrM DsrNode) s = .ok s s) _).trans ?_
  refine (bind_of_ok (rfl : emitSendBuf .given [sendBufEntryCreate dp s] s =
    .ok () { s with out := s.out ++ [.sendBuf (.given (sendBufEntryCreate dp s))] }) _).trans ?_
  refine (bind_of_ok (locked_unlocked (by exact hl) hin hl₁) _).trans ?_
  cases res <;> cases empty <;> rfl

theorem sendBufEnqueuePacket_added (hl : s.locking = false) {t : Tbl SendBufEntry}
    (hadd : s.sendBuf.addTail (sendBufEntryCreate dp s) = some t) :
    sendBufEnqueuePacket dp s = .ok true { s with
      sendBuf := t
      sendBufTimer := if s.sendBuf.head = [] then
        some (timevalAddUsecs s.now (usecsOf .sendBufferTimeout (s.confvals .sendBufferTimeout)))
        else s.sendBufTimer
      out := s.out ++ [.sendBuf (.given (sendBufEntryCreate dp s))] } := by
  refine (@sendBufEnqueuePacket_run dp s { s with
    sendBuf := t, out := s.out ++ [.sendBuf (.given (sendBufEntryCreate dp s))] }
    (decide (s.sendBuf.head = [])) true hl hl ?_).trans ?_
  · refine (bind_of_ok (rfl : (get : DsrM DsrNode) _ = .ok _ _) _).trans ?_
    dsimp only
    rw [hadd]
    rfl
  · rw [Bool.true_and]
    by_cases hempty : s.sendBuf.head = [] <;> simp [hempty]

theorem sendBufEvict_first {f : SendBufEntry} {t : Tbl SendBufEntry}
    (h : s.sendBuf.detachFirst = some (f, t)) :
    sendBufEvict s = .ok () { s with sendBuf := t, out := s.out ++ [.sendBuf (.overflow f)] } := by
  unfold sendBufEvict
  refine (bind_of_ok (rfl : (get : DsrM DsrNode) s = .ok s s) _).trans ?_
  rw [h]
  rfl

theorem sendBufEvict_none (h : s.sendBuf.detachFirst = none) : sendBufEvict s = .ok () s := by
  unfold sendBufEvict
  refine (bind_of_ok (rfl : (get : DsrM DsrNode) s = .ok s s) _).trans ?_
  rw [h]
  rfl

theorem sendBufAddAgain_eq {e : SendBufEntry} (hl : s.locking = false) :
    sendBufAddAgain e s = match s.sendBuf.addTail e with
      | some t => .ok true { s with sendBuf := t }
      | none => .ok false { s with out := s.out ++ [.sendBuf (.refused e)] } := by
  unfold sendBufAddAgain
  cases hadd : s.sendBuf.addTail e with
  | none =>
    refine locked_unlocked hl ?_ hl
    refine (bind_of_ok (rfl : (get : DsrM DsrNode) s = .ok s s) _).trans ?_
    rw [hadd]
    rfl
  | some t =>
    refine locked_unlocked hl ?_ hl
    refine (bind_of_ok (rfl : (get : DsrM DsrNode) s = .ok s s) _).trans ?_
    rw [hadd]
    rfl

theorem sendBufEnqueuePacket_full {e : SendBufEntry} {res : Bool} {s₂ : DsrNode}
    (he : e = sendBufEntryCreate dp s) (hl : s.locking = false) (hl₂ : s₂.locking = false)
    (hadd : s.sendBuf.addTail e = none)
    (hevict : sendBufEvict { s with out := s.out ++ [.sendBuf (.given e)] } = .ok () s₁)
    (hagain : sendBufAddAgain e s₁ = .ok res s₂)
    (htimer : res = true → s.sendBuf.head ≠ []) : sendBufEnqueuePacket dp s = .ok res s₂ := by
  subst he
  refine (@sendBufEnqueuePacket_run dp s s₂ (decide (s.sendBuf.head = [])) res hl hl₂ ?_).trans ?_
  · refine (bind_of_ok (rfl : (get : DsrM DsrNode) _ = .ok _ _) _).trans ?_
    dsimp only
    rw [hadd]
    refine (bind_of_ok hevict _).trans ((bind_of_ok hagain _).trans ?_)
    rfl
  · cases res with
    | false => rfl
    | true =>
      rw [decide_eq_false (htimer rfl)]
      rfl

theorem sendBufPush_fits {maxLen : ℕ} (e : SendBufEntry) {xs : List SendBufEntry} (h : xs.length < maxLen) :
    sendBufPush maxLen e xs = (xs ++ [e], [.given e]) := by
  cases xs with
  | nil => exact if_pos h
  | cons f rest => exact if_pos h

theorem Enqueued.of_push {s' : DsrNode} (evs : List SendBufEvent) (hmax : s'.sendBuf.maxLen = s.sendBuf.maxLen)
    (hpush : sendBufPush s.sendBuf.maxLen (sendBufEntryCreate dp s) s.sendBuf.head = (s'.sendBuf.head, evs))
    (hout : s'.out = s.out ++ evs.map .sendBuf) : Enqueued dp s s' := by
  refine ⟨by rw [hpush], hmax, ?_⟩
  rw [hout, hpush, sendBufEvents_append, sendBufEvents_map]

theorem Enqueued.elsewhere {s' : DsrNode} (h : Enqueued dp s s₁) (he : Elsewhere s₁ s') : Enqueued dp s s' := by
  refine ⟨?_, ?_, ?_⟩
  · rw [he.sendBuf]
    exact h.head
  · rw [he.sendBuf]
    exact h.maxLen
  · rw [he.events]
    exact h.events

end Enqueue

namespace SendBufInv

variable {timeout cap : ℕ} {s : DsrNode}

theorem enqueue_fits (hi : SendBufInv timeout cap s) (dp : DsrPkt) (hlt : s.sendBuf.len < s.sendBuf.maxLen) :
    ∃ s', sendBufEnqueuePacket dp s = .ok true s' ∧ SendBufInv timeout cap s' ∧ Enqueued dp s s' := by
  have hadd := Tbl.addTail_of_lt (sendBufEntryCreate dp s) hlt
  refine ⟨_, sendBufEnqueuePacket_added hi.locking hadd, ?_, ?_⟩
  · refine hi.added rfl hadd (hi.booked.given rfl) ?_
    by_cases hempty : s.sendBuf.head = []
    · rw [if_pos hempty, hempty, hi.fixed]
      intro e he
      rw [List.mem_singleton.mp he]
      exact ⟨_, rfl, Int.le_of_eq (timevalDiff_self _)⟩
    · rw [if_neg hempty]
      exact hi.armed_snoc rfl hempty
  · have hlen : s.sendBuf.len = s.sendBuf.head.length := hi.wf
    exact .of_push [.given _] rfl (sendBufPush_fits _ (hlen ▸ hlt)) rfl

theorem enqueue_refused (hi : SendBufInv timeout cap s) (dp : DsrPkt) (hfull : s.sendBuf.maxLen ≤ s.sendBuf.len)
    (hempty : s.sendBuf.head = []) :
    ∃ s', sendBufEnqueuePacket dp s = .ok false s' ∧ SendBufInv timeout cap s' ∧ Enqueued dp s s' := by
  have hadd := Tbl.addTail_of_full (sendBufEntryCreate dp s) hfull
  have hlen : s.sendBuf.len = s.sendBuf.head.length := hi.wf
  rw [hempty] at hlen
  have hevict := sendBufEvict_none
    (s := { s with out := s.out ++ [.sendBuf (.given (sendBufEntryCreate dp s))] })
    (by dsimp only; rw [Tbl.detachFirst, hempty])
  have hagain := sendBufAddAgain_eq (e := sendBufEntryCreate dp s)
    (s := { s with out := s.out ++ [.sendBuf (.given (sendBufEntryCreate dp s))] }) hi.locking
  dsimp only at hagain
  rw [hadd] at hagain
  refine ⟨_, sendBufEnqueuePacket_full rfl hi.locking (by exact hi.locking) hadd hevict hagain nofun, ?_, ?_⟩
  · refine hi.remove (List.Sublist.refl _) hi.wf rfl ?_
    have hdrop : SendBufBooked (s.out ++ [.sendBuf (.given (sendBufEntryCreate dp s))] ++
        [.sendBuf (.refused (sendBufEntryCreate dp s))]) (s.sendBuf.head ++ []) :=
      (hi.booked.given rfl).dropped rfl
    rwa [List.append_nil] at hdrop
  · refine .of_push [.given (sendBufEntryCreate dp s), .refused (sendBufEntryCreate dp s)] rfl ?_ ?_
    · rw [hempty]
      exact if_neg (by rw [List.length_nil] at hlen; omega)
    · exact List.append_assoc _ _ _

section Evicts

variable {dp : DsrPkt} {e f : SendBufEntry} {rest : List SendBufEntry} {t : Tbl SendBufEntry}
  (hi : SendBufInv timeout cap s) (he : e = sendBufEntryCreate dp s) (hfull : s.sendBuf.maxLen ≤ s.sendBuf.len)
  (hhead : s.sendBuf.head = f :: rest) (hd : s.sendBuf.detachFirst = some (f, t)) (hrest : t.head = rest)
  (hlen : t.len = rest.length) (hmax : t.maxLen = s.sendBuf.maxLen)

include hi he hhead in
theorem overflowed : SendBufBooked (s.out ++ [.sendBuf (.given e)] ++ [.sendBuf (.overflow f)]) (rest ++ [e]) := by
  have hgiven := hi.booked.given (e := e) (by rw [he]; rfl)
  rw [hhead] at hgiven
  exact hgiven.overflow

include hi he hfull hhead hd hrest hlen hmax

theorem enqueue_evicts (hlt : rest.length < s.sendBuf.maxLen) :
    ∃ s', sendBufEnqueuePacket dp s = .ok true s' ∧ SendBufInv timeout cap s' ∧ Enqueued dp s s' := by
  have hne : s.sendBuf.head ≠ [] := by
    rw [hhead]
    exact List.cons_ne_nil _ _
  have hq : e.qtime = s.now := by rw [he]; rfl
  have hadd : t.addTail e = some { t with head := t.head ++ [e], len := t.len + 1 } :=
    Tbl.addTail_of_lt e (by rw [hlen, hmax]; exact hlt)
  have hagain := sendBufAddAgain_eq (e := e) (s := { s with
    sendBuf := t, out := s.out ++ [.sendBuf (.given e)] ++ [.sendBuf (.overflow f)] }) hi.locking
  dsimp only at hagain
  rw [hadd] at hagain
  have hi₁ : SendBufInv timeout cap { s with sendBuf := t, out := s.out ++ [.sendBuf (.overflow f)] } := by
    have hbook := hi.booked
    rw [hhead] at hbook
    refine hi.remove (Tbl.detachFirst_sublist hd) (detachFirst_wf hi.wf hd).2.1 hmax ?_
    rw [hrest]
    exact hbook.overflow
  refine ⟨_, sendBufEnqueuePacket_full he hi.locking (by exact hi.locking) (Tbl.addTail_of_full e hfull)
    (sendBufEvict_first hd) hagain fun _ => hne, ?_, ?_⟩
  · refine hi₁.added hq hadd (by rw [hrest]; exact hi.overflowed he hhead) ?_
    refine (hi.armed_snoc hq hne).subset fun x hx => ?_
    exact ((Tbl.detachFirst_sublist hd).append_right [e]).subset hx
  · refine .of_push [.given e, .overflow f] hmax ?_ (List.append_assoc _ _ _)
    have hwf : s.sendBuf.len = s.sendBuf.head.length := hi.wf
    rw [hhead, List.length_cons] at hwf
    rw [hhead, ← he]
    refine (if_neg (by omega)).trans ((if_pos hlt).trans ?_)
    rw [hrest]

theorem enqueue_shrunk (hge : s.sendBuf.maxLen ≤ rest.length) :
    ∃ s', sendBufEnqueuePacket dp s = .ok false s' ∧ SendBufInv timeout cap s' ∧ Enqueued dp s s' := by
  have hadd : t.addTail e = none := Tbl.addTail_of_full e (by rw [hlen, hmax]; exact hge)
  have hagain := sendBufAddAgain_eq (e := e) (s := { s with
    sendBuf := t, out := s.out ++ [.sendBuf (.given e)] ++ [.sendBuf (.overflow f)] }) hi.locking
  dsimp only at hagain
  rw [hadd] at hagain
  refine ⟨_, sendBufEnqueuePacket_full he hi.locking (by exact hi.locking) (Tbl.addTail_of_full e hfull)
    (sendBufEvict_first hd) hagain nofun, ?_, ?_⟩
  · refine hi.remove (Tbl.detachFirst_sublist hd) (detachFirst_wf hi.wf hd).2.1 hmax ?_
    have hdrop : SendBufBooked (s.out ++ [.sendBuf (.given e)] ++ [.sendBuf (.overflow f)] ++
        [.sendBuf (.refused e)]) (rest ++ []) := (hi.overflowed he hhead).dropped rfl
    rw [List.append_nil] at hdrop
    rw [hrest]
    exact hdrop
  · refine .of_push [.given e, .overflow f, .refused e] hmax ?_ ?_
    · have hwf : s.sendBuf.len = s.sendBuf.head.length := hi.wf
      rw [hhead, List.length_cons] at hwf
      rw [hhead, ← he]
      refine (if_neg (by omega)).trans ((if_neg (Nat.not_lt.mpr hge)).trans ?_)
      rw [hrest]
    · rw [List.append_assoc, List.append_assoc]
      rfl

end Evicts

theorem enqueue (hi : SendBufInv timeout cap s) (dp : DsrPkt) :
    ∃ r s', sendBufEnqueuePacket dp s = .ok r s' ∧ SendBufInv timeout cap s' ∧ Enqueued dp s s' := by
  rcases Nat.lt_or_ge s.sendBuf.len s.sendBuf.maxLen with hlt | hfull
  · exact ⟨true, hi.enqueue_fits dp hlt⟩
  · cases hhead : s.sendBuf.head with
    | nil => exact ⟨false, hi.enqueue_refused dp hfull hhead⟩
    | cons f rest =>
      obtain ⟨t, hd⟩ : ∃ t, s.sendBuf.detachFirst = some (f, t) :=
        ⟨{ s.sendBuf with head := rest, len := s.sendBuf.len - 1 }, by rw [Tbl.detachFirst, hhead]⟩
      obtain ⟨hsplit, hlen, hmax⟩ := detachFirst_wf hi.wf hd
      have hrest : t.head = rest := (List.cons.inj (hhead.symm.trans hsplit)).2.symm
      rw [Tbl.WF, hrest] at hlen
      rcases Nat.lt_or_ge rest.length s.sendBuf.maxLen with hlt | hge
      · exact ⟨true, hi.enqueue_evicts rfl hfull hhead hd hrest hlen hmax hlt⟩
      · exact ⟨false, hi.enqueue_shrunk rfl hfull hhead hd hrest hlen hmax hge⟩

end SendBufInv

inductive SendBufOp
  | startXmit (dp : DsrPkt)
  | enqueue (dp : DsrPkt)
  | setVerdict (verdict : Verdict) (dst : InAddr)
  | timeout
  | setMaxLen (maxLen : ℕ)
  | flush

def SendBufOp.exec : SendBufOp → DsrM Unit
  | .startXmit dp => dsrStartXmit dp
  | .enqueue dp => do
      let _ ← sendBufEnqueuePacket dp
      pure ()
  | .setVerdict verdict dst => sendBufSetVerdict verdict dst
  | .timeout => sendBufTimeout
  | .setMaxLen maxLen => sendBufSetMaxLen maxLen
  | .flush => sendBufFlush

def SendBufOp.Local : SendBufOp → Prop
  | .startXmit _ => False
  | .setVerdict .send _ => False
  | _ => True

def SendBufActs (timeout : ℕ) (s s' : DsrNode) : SendBufOp → Prop
  | .startXmit dp => ∃ r s₁, dsrRtcFind dp.src dp.dst s = .ok r s₁ ∧
      (r.isSome → Consumes (fun _ => false) [] s s') ∧ (r = none → Enqueued dp s s')
  | .enqueue dp => Enqueued dp s s'
  | .setVerdict .drop dst => Consumes (fun e => e.dp.dst = dst)
      ((s.sendBuf.head.filter fun e => e.dp.dst = dst).map .dropped) s s'
  | .setVerdict .send dst => ∃ evs, SendTurns dst s evs s' ∧ Consumes (fun e => e.dp.dst = dst) evs s s'
  | .timeout => Consumes (sendBufExpired timeout s)
      ((s.sendBuf.head.filter (sendBufExpired timeout s)).map .expired) s s'
  | .setMaxLen maxLen => s' = { s with sendBuf := { s.sendBuf with maxLen := maxLen } }
  | .flush => Consumes (fun _ => true) ((s.sendBuf.head.filter fun _ => true).map .flushed) s s'

def SendBufOp.cap (cap : ℕ) : SendBufOp → ℕ
  | .setMaxLen maxLen => max cap maxLen
  | _ => cap

inductive SendBufRun (timeout : ℕ) : ℕ → DsrNode → Prop
  | init (ifaddr : InAddr) (confvals : ConfVal → ℕ) (budget : ℕ) (now : Timeval) (kmem : ℕ → UInt8)
      (rreqSeqno : ℕ) : usecsOf .sendBufferTimeout (confvals .sendBufferTimeout) = timeout →
      SendBufRun timeout sendBufMaxLen (dsrNodeInit ifaddr confvals false budget now kmem rreqSeqno)
  | elsewhere {cap : ℕ} {s s' : DsrNode} : SendBufRun timeout cap s → Elsewhere s s' →
      SendBufRun timeout cap s'
  | step {cap : ℕ} {s s' : DsrNode} (op : SendBufOp) : SendBufRun timeout cap s →
      op.exec s = .ok () s' → SendBufRun timeout (op.cap cap) s'

namespace SendBufInv

variable {timeout cap : ℕ} {s s' : DsrNode}

theorem setMaxLen (hi : SendBufInv timeout cap s) (maxLen : ℕ) :
    SendBufInv timeout (max cap maxLen) { s with sendBuf := { s.sendBuf with maxLen := maxLen } } :=
  ⟨hi.locking, hi.fixed, hi.booked, hi.wf, Nat.le_max_right _ _,
    Nat.le_trans hi.bounded (Nat.le_max_left _ _), hi.queued, hi.past, hi.armed⟩

theorem startXmit (hi : SendBufInv timeout cap s) {dp : DsrPkt} (h : dsrStartXmit dp s = .ok () s') :
    SendBufInv timeout cap s' ∧ SendBufActs timeout s s' (.startXmit dp) := by
  unfold dsrStartXmit kmalloc at h
  obtain ⟨mem, s₁, hk, h⟩ := bind_ok h
  cases hk
  obtain ⟨r, s₂, hf, h⟩ := bind_ok h
  have he := Elsewhere.dsrRtcFind hf
  cases r with
  | some srt =>
    have hx : Elsewhere s s' := by
      dsimp only at h
      unfold xmitPkt at h
      generalize dsrSrtAdd _ _ = o at h
      cases o with
      | none =>
        cases h
        exact he
      | some dp' => exact he.trans (Elsewhere.startXmit h)
    exact ⟨hi.elsewhere hx, _, s₂, hf, fun _ => .none hx, nofun⟩
  | none =>
    dsimp only at h
    obtain ⟨res, s₃, henq, h⟩ := bind_ok h
    obtain ⟨_, _, hrun, hi₃, hacts⟩ := (hi.elsewhere he).enqueue dp
    rw [henq] at hrun
    cases hrun
    have hsame : Enqueued dp s s₃ := by
      rcases dsrRtcFind_ok hf with ⟨-, rfl⟩ | ⟨-, f, lc, -, -, rfl⟩
      · exact hacts
      · exact ⟨hacts.head, hacts.maxLen, hacts.events⟩
    cases res with
    | true =>
      have hd := Elsewhere.dsrRreqRouteDiscovery h
      exact ⟨hi₃.elsewhere hd, _, s₂, hf, nofun, fun _ => hsame.elsewhere hd⟩
    | false =>
      cases h
      exact ⟨hi₃, _, s₂, hf, nofun, fun _ => hsame⟩

theorem step (hi : SendBufInv timeout cap s) (op : SendBufOp) (h : op.exec s = .ok () s') :
    SendBufInv timeout (op.cap cap) s' ∧ SendBufActs timeout s s' op := by
  cases op with
  | startXmit dp => exact hi.startXmit h
  | enqueue dp =>
    obtain ⟨_, _, hrun, hi', hacts⟩ := hi.enqueue dp
    obtain ⟨res, s₁, henq, h⟩ := bind_ok h
    cases h
    rw [henq] at hrun
    cases hrun
    exact ⟨hi', hacts⟩
  | setVerdict verdict dst =>
    cases verdict with
    | drop =>
      change sendBufSetVerdict .drop dst s = .ok () s' at h
      rw [sendBufSetVerdict_drop hi.locking] at h
      cases h
      exact ⟨hi.drop _ (f := .dropped) fun _ => rfl, .all _ (fun _ => rfl) _⟩
    | send =>
      obtain ⟨evs, hturns⟩ := sendBufSetVerdict_send hi.locking h
      exact ⟨hi.turns hturns, evs, hturns, hturns.consumes⟩
  | timeout =>
    refine ⟨hi.timeout_step h, ?_⟩
    change sendBufTimeout s = .ok () s' at h
    rw [sendBufTimeout_eq hi.locking hi.fixed] at h
    cases h
    exact .all _ (fun _ => rfl) _
  | setMaxLen maxLen =>
    cases h
    exact ⟨hi.setMaxLen maxLen, rfl⟩
  | flush =>
    change sendBufFlush s = .ok () s' at h
    rw [sendBufFlush_eq hi.locking] at h
    cases h
    exact ⟨hi.drop _ (f := .flushed) fun _ => rfl, .all _ (fun _ => rfl) _⟩

theorem returns (hi : SendBufInv timeout cap s) {op : SendBufOp} (h : op.Local) :
    ∃ s', op.exec s = .ok () s' := by
  cases op with
  | startXmit dp => exact h.elim
  | enqueue dp =>
    obtain ⟨r, s', hrun, -, -⟩ := hi.enqueue dp
    exact ⟨s', bind_of_ok hrun _⟩
  | setVerdict verdict dst =>
    cases verdict with
    | drop => exact ⟨_, sendBufSetVerdict_drop hi.locking⟩
    | send => exact h.elim
  | timeout => exact ⟨_, sendBufTimeout_eq hi.locking hi.fixed⟩
  | setMaxLen maxLen => exact ⟨_, rfl⟩
  | flush => exact ⟨_, sendBufFlush_eq hi.locking⟩

end SendBufInv

theorem SendBufRun.inv {timeout cap : ℕ} {s : DsrNode} (h : SendBufRun timeout cap s) :
    SendBufInv timeout cap s := by
  induction h with
  | init ifaddr confvals budget now kmem rreqSeqno hu =>
    refine ⟨rfl, hu, ⟨Ledger.Balanced.nil, rfl, ?_⟩, rfl, Nat.le_refl _, Nat.zero_le _, .nil, ?_, ?_⟩
    · exact fun ev hev => absurd hev List.not_mem_nil
    · exact fun e he => absurd he List.not_mem_nil
    · exact fun e he => absurd he List.not_mem_nil
  | elsewhere _ he ih => exact ih.elsewhere he
  | step op _ hrun ih => exact (ih.step op hrun).1

structure SendBufFifo (timeout cap : ℕ) (s : DsrNode) : Prop where
  once : ∀ e ∈ given (sendBufMoves s.out),
    s.sendBuf.head.count e + (taken (sendBufMoves s.out)).count e = 1
  known : ∀ e, e ∈ s.sendBuf.head ∨ e ∈ taken (sendBufMoves s.out) → e ∈ given (sendBufMoves s.out)
  givenInOrder : (given (sendBufMoves s.out)).Pairwise fun a b => a.born < b.born
  transmitted : sendBufXmits s.out = (sendBufEvents s.out).filterMap SendBufEvent.pkt?
  routed : ∀ ev ∈ sendBufEvents s.out, ev.Routed
  sentInOrder : ∀ dst, (shipped (fun e : SendBufEntry => e.dp.dst) dst (sendBufMoves s.out)).Pairwise
    fun a b => a.born < b.born
  overflow : OldestEvicted SendBufEntry.born (sendBufMoves s.out)
  bounded : s.sendBuf.head.length ≤ cap
  armed : ∀ e ∈ s.sendBuf.head, ∃ t, s.sendBufTimer = some t ∧
    timevalDiff t (timevalAddUsecs e.qtime timeout) ≤ 0
  acts : ∀ op s', op.exec s = .ok () s' → SendBufActs timeout s s' op
  returns : ∀ op : SendBufOp, op.Local → ∃ s', op.exec s = .ok () s'

def sendBufDrive (s : DsrNode) : List (Timeval × SendBufOp) → Option DsrNode
  | [] => some s
  | (now, op) :: rest =>
      if 0 ≤ timevalDiff now s.now then
        match op.exec { s with now := now } with
        | .ok _ s' => sendBufDrive s' rest
        | .error _ _ => none
      else none

theorem SendBufRun.drive {timeout : ℕ} (ops : List (Timeval × SendBufOp)) : ∀ {cap : ℕ} {s s' : DsrNode},
    SendBufRun timeout cap s → sendBufDrive s ops = some s' → ∃ cap', SendBufRun timeout cap' s' := by
  induction ops with
  | nil =>
    intro cap s s' h hd
    cases hd
    exact ⟨cap, h⟩
  | cons x rest ih =>
    obtain ⟨now, op⟩ := x
    intro cap s s' h hd
    unfold sendBufDrive at hd
    split at hd
    · next hnow =>
      have hlater : Elsewhere s { s with now := now } :=
        ⟨⟨rfl, rfl, hnow, rfl⟩, rfl, [], (List.append_nil _).symm, fun _ he => absurd he List.not_mem_nil⟩
      split at hd
      · next s₁ hrun => exact ih ((h.elsewhere hlater).step op hrun) hd
      · cases hd
    · cases hd

def shrinkingBuf : List (Timeval × SendBufOp) :=
  [(⟨100, 0⟩, .startXmit (hopPkt (detourHost 2))), (⟨101, 0⟩, .startXmit (hopPkt (detourHost 3))),
    (⟨102, 0⟩, .enqueue (hopPkt (detourHost 2))), (⟨103, 0⟩, .setMaxLen 3),
    (⟨104, 0⟩, .enqueue (hopPkt (detourHost 4))), (⟨105, 0⟩, .enqueue (hopPkt (detourHost 3)))]

def drainingBuf : List (Timeval × SendBufOp) :=
  [(⟨106, 0⟩, .setVerdict .send (detourHost 3)), (⟨107, 0⟩, .setVerdict .drop (detourHost 2)),
    (⟨131, 500000⟩, .timeout)]

def learnedLc : LcGraph :=
  (lcRun [.linkAdd ⟨105, 0⟩ (detourHost 1) (detourHost 5) 0 0 1,
    .linkAdd ⟨105, 0⟩ (detourHost 5) (detourHost 3) 0 0 1] lcInit).getD lcInit

end DsrUu
