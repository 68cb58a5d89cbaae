import DsrUu.Node.LockOrder
import DsrUu.Node.RreqPath

namespace DsrUu

open Effect

def Input.leaves (i : Input) (s : DsrNode) : DsrNode :=
  match i.handle s with
  | .ok _ s' => s'
  | .error _ s' => s'

structure FreeStep (s : DsrNode) (i : Input) : Prop where
  roomy : ∀ skb, i = .startXmit skb → ¬ Crowded s skb
  alone : ¬ Reentered s (i.leaves s)

structure LocksFree (s : DsrNode) (i : Input) : Prop where
  returned : ∀ s', i.handle s = .ok () s' → s'.held = []
  unlocked : ∀ l s', i.handle s ≠ .error (.relock l) s'

section Crowded

variable {s : DsrNode} {skb : Skb} {α : Type} {Q : α → DsrNode → Prop} {E : Stop → Prop}

theorem wp_relocked {l : Lock} {m : DsrM α} (hk : s.locking = true) (hl : l ∈ s.held) (he : E (.relock l)) :
    wp (locked l m) s Q E := by
  unfold locked lockBh
  simpa [hk, hl] using he

theorem sendBufEvict_held (s : DsrNode) :
    wp sendBufEvict s (fun _ s' => s'.locking = s.locking ∧ s'.held = s.held) E := by
  unfold sendBufEvict
  rw [wp_bind, wp_get]
  cases s.sendBuf.detachFirst with
  | none => exact ⟨rfl, rfl⟩
  | some o => exact ⟨rfl, rfl⟩

theorem sendBufEnqueuePacket_relocks (hk : s.locking = true) (hfree : Lock.sendBuf ∉ s.held) (hfull : Overfull s)
    (dp : DsrPkt) : wp (sendBufEnqueuePacket dp) s (fun _ _ => False) (· = .relock .sendBuf) := by
  unfold sendBufEnqueuePacket
  simp only [gettime, confValToUsecs, confVal, emitSendBuf, wp_bind, wp_get, wp_pure, wp_modify]
  refine wp_locked (fun _ => hfree) ?_
  rw [wp_bind, wp_get, acquire_sendBuf, Tbl.addTail_of_full _ hfull, wp_bind]
  refine wp_imp (sendBufEvict_held _) fun _ t ⟨hkt, hlt⟩ => ?_
  rw [wp_bind]
  refine wp_relocked (hkt.trans ((acquire_locking _ _).trans hk)) ?_ rfl
  rw [hlt, held_acquire]
  · exact List.mem_cons_self
  · exact hk

theorem dsrRtcFind_unrouted_runs {src dst : InAddr} (hfree : s.locking = true → Lock.lc ∉ s.held)
    (h : Unrouted s src dst) : ∃ lc, dsrRtcFind src dst s = .ok none { s with lc := lc } := by
  by_cases hne : src = dst
  · refine ⟨s.lc, ?_⟩
    rw [dsrRtcFind, if_pos hne]
    rfl
  · obtain ⟨f, lc, hf, hnone⟩ := h.resolve_left hne
    exact ⟨lc, hnone ▸ dsrRtcFind_runs hne hfree hf⟩

theorem crowded_relocks (hk : s.locking = true) (hs : s.held = []) (hc : Crowded s skb) :
    ∃ s', (Input.startXmit skb).handle s = .error (.relock .sendBuf) s' := by
  have hfree : ∀ l, l ∉ s.held := fun l => hs ▸ List.not_mem_nil
  have hends := dsrPktAlloc_head s.kmem skb
  obtain ⟨lc, hfind⟩ := dsrRtcFind_unrouted_runs (fun _ => hfree .lc) hc.unrouted
  rw [← hends.src, ← hends.dst] at hfind
  have hput := sendBufEnqueuePacket_relocks (s := { s with lc := lc }) hk (hfree .sendBuf) hc.overfull
    (dsrPktAlloc s.kmem skb)
  have hmem : kmalloc s = .ok s.kmem s := rfl
  have hrun : wp (dsrDevStartXmit skb) s (fun _ _ => False) (· = .relock .sendBuf) := by
    unfold dsrDevStartXmit dsrStartXmit
    rw [wp_bind, wp_get, if_pos hc.slaveDev, wp_bind]
    refine wp_of_run hmem ?_
    rw [wp_bind]
    refine wp_of_run hmem ?_
    rw [wp_bind]
    refine wp_of_run hfind ?_
    rw [wp_bind]
    exact wp_imp hput fun _ _ h => h.elim
  exact error_of_wp hrun

end Crowded

section Salvaged

variable {s : DsrNode} {dp : DsrPkt} {setTimeout : DsrM Unit} (hk : s.locking = true)
  (hheld : Lock.maintBuf ∈ s.held) (hfree : Lock.neighTbl ∉ s.held)

include hk hheld hfree

theorem maintBufAdd_relocks (hskb : dp.skb.isSome = true) (hack : dp.requestAck = true) (hn : Known s dp.nxtHop) :
    wp (maintBufAdd setTimeout dp) s (fun _ _ => False) (· = .relock .maintBuf) := by
  obtain ⟨n, hn⟩ := Option.isSome_iff_exists.mp hn
  obtain ⟨skb, hskb⟩ := Option.isSome_iff_exists.mp hskb
  obtain ⟨rto, hq⟩ := @neighTblQuery_runs dp.nxtHop s fun _ => hfree
  rw [hn, Option.map_some] at hq
  obtain ⟨m, hm, -, -⟩ := maintEntryCreate_of_skb hskb n.id (rto n) s
  unfold maintBufAdd
  simp only [kmalloc, gettime, confValToUsecs, confVal, wp_bind, wp_get, wp_pure]
  refine wp_of_run hq ?_
  rw [wp_bind]
  refine wp_of_run hm ?_
  rw [if_pos hack]
  simp only [wp_bind, wp_get, wp_pure]
  rw [wp_ite]
  refine ⟨fun _ => ?_, fun _ => ?_⟩
  · simp only [neighTblSetAckReqTime, neighTblIdInc, gettime, wp_bind, wp_get, wp_pure, wp_emit]
    refine wp_of_run (neighTblFindDo_runs fun _ => hfree) ?_
    refine wp_of_run (neighTblFindDo_runs fun _ => hfree) ?_
    exact wp_relocked hk hheld rfl
  · rw [wp_bind]
    exact wp_relocked hk hheld rfl

theorem xmit_relocks_iff (site : XmitSite) (hskb : dp.skb.isSome = true) :
    (∃ s', xmit site dp s = .error (.relock .maintBuf) s') ↔ dp.requestAck = true ∧ Known s dp.nxtHop := by
  obtain ⟨t, ht⟩ : ∃ t, t = { s with out := s.out ++ [Event.xmit site dp (ackDue s dp)] } := ⟨_, rfl⟩
  have hkt : t.locking = true := by
    rw [ht]
    exact hk
  have hlt : t.held = s.held := by rw [ht]
  have hnt : t.neighTbl = s.neighTbl := by rw [ht]
  have hft : Lock.neighTbl ∉ t.held := by rwa [hlt]
  have hrun : xmit site dp s = (if dp.requestAck then
      maintBufAdd (maintBufSetTimeoutUnlocked s.budget) dp >>= buildQueue s.locking site
      else buildQueue s.locking site dp : DsrM Unit) t := by
    rw [xmit_eq, ht]
    rfl
  have hqueue : ∀ s', buildQueue s.locking site dp t ≠ .error (.relock .maintBuf) s' := by
    obtain ⟨t', hq⟩ := buildQueue_settles s.locking site dp t fun _ => hft
    intro s' he
    rw [hq] at he
    cases he
  rw [hrun]
  by_cases hack : dp.requestAck = true
  · rw [if_pos hack]
    rw [← Known.of_eq hnt]
    by_cases hn : Known t dp.nxtHop
    · have hadd := @maintBufAdd_relocks t dp (maintBufSetTimeoutUnlocked s.budget) hkt (hlt ▸ hheld) hft hskb hack hn
      have hrest : wp (maintBufAdd (maintBufSetTimeoutUnlocked s.budget) dp >>= buildQueue s.locking site) t
          (fun _ _ => False) (· = .relock .maintBuf) := by
        rw [wp_bind]
        exact wp_imp hadd fun _ _ h => h.elim
      exact iff_of_true (error_of_wp hrest) ⟨hack, hn⟩
    · rw [bind_of_ok (Tidy.maintBufAdd_unknown (fun _ => hft) hn)]
      exact ⟨fun ⟨s', he⟩ => absurd he (hqueue s'), fun h => absurd h.2 hn⟩
  · rw [if_neg hack]
    exact ⟨fun ⟨s', he⟩ => absurd he (hqueue s'), fun h => absurd h.1 hack⟩

end Salvaged

def reenters (s' : DsrNode) : Event → Bool
  | .xmit .salvage dp _ => dp.requestAck && (s'.neighTbl.find fun n => n.addr = dp.nxtHop).isSome
  | _ => false

def Alone (s : DsrNode) (i : Input) : Prop :=
  (match i with
    | .startXmit _ => false
    | _ => !(newEvents s (i.leaves s)).any (reenters (i.leaves s))) = true

instance (s : DsrNode) (i : Input) : Decidable (Alone s i) := inferInstanceAs (Decidable (_ = true))

theorem Reentered.any {s s' : DsrNode} (h : Reentered s s') : (newEvents s s').any (reenters s') = true := by
  obtain ⟨es, dp, due, hes, hx, hack, hk⟩ := h
  rw [newEvents, hes, List.drop_left, List.any_eq_true]
  exact ⟨_, hx, Bool.and_eq_true _ _ ▸ ⟨hack, hk⟩⟩

theorem FreeStep.of_alone {s : DsrNode} {i : Input} (h : Alone s i) : FreeStep s i := by
  unfold Alone at h
  split at h
  · cases h
  · next hi =>
    refine ⟨fun skb he => absurd he (hi skb), fun hr => ?_⟩
    rw [hr.any] at h
    cases h

def salvages : Event → Bool
  | .xmit .salvage _ _ => true
  | _ => false

def aloneSalvage (s : DsrNode) : Bool :=
  s.locking && decide (Alone s .ackTimer) &&
    (okState (Input.ackTimer.handle s)).any fun s' => (newEvents s s').any salvages

end DsrUu
