import DsrUu.Node.RreqTbl
import DsrUu.Maint.Earliest

namespace DsrUu

open Effect

section MaintBuf

def maintBufPuts (t : Tbl MaintEntry) (m : MaintEntry) : Prop := m ∈ (maintBufPut t m).head

theorem MaintPut.puts {put : Tbl MaintEntry → MaintEntry → Prop} {c : MaintCall} {s s' : DsrNode}
    (h : MaintPut put c s s') :
    s.maintBuf.Fits → MaintPut maintBufPuts c s s' ∧ s'.maintBuf.Fits := by
  induction h with
  | before ha _ ih =>
    intro hf
    obtain ⟨hp, hf'⟩ := ih (by rw [ha.maintBuf]; exact hf)
    exact ⟨.before ha hp, hf'⟩
  | after _ ha ih =>
    intro hf
    obtain ⟨hp, hf'⟩ := ih hf
    exact ⟨.after hp ha, by rw [ha.maintBuf]; exact hf'⟩
  | idle hn => exact fun hf => ⟨.idle hn, hf⟩
  | arm hn hx => exact fun hf => ⟨.arm hn hx, hf.findDo _ _⟩
  | expired hn hx _ ih =>
    intro hf
    obtain ⟨hp, hf'⟩ := ih (hf.findDo _ _)
    exact ⟨.expired hn hx hp, hf'⟩
  | pending hn => exact fun hf => ⟨.pending hn, hf⟩
  | empty hd => exact fun hf => ⟨.empty hd, hf⟩
  | drop hn hd hle hack _ ih =>
    intro hf
    obtain ⟨hp, hf'⟩ := ih (hf.detachFirst hd).fits
    exact ⟨.drop hn hd hle hack hp, hf'⟩
  | giveUp hn hd hle hack _ _ _ ih₁ ih₂ ih₃ =>
    intro hf
    obtain ⟨hp₁, hf₁⟩ := ih₁ (hf.detachFirst hd).fits
    obtain ⟨hp₂, hf₂⟩ := ih₂ hf₁
    obtain ⟨hp₃, hf₃⟩ := ih₃ hf₂
    exact ⟨.giveUp hn hd hle hack hp₁ hp₂ hp₃, hf₃⟩
  | rexmt hn hd hlt _ _ ih =>
    intro hf
    obtain ⟨hput, hmem⟩ := (hf.detachFirst hd).add _ _
    obtain ⟨hp, hf'⟩ := ih hput
    exact ⟨.rexmt hn hd hlt hmem hp, hf'⟩
  | lost => exact fun hf => ⟨.lost, hf⟩
  | salvaged _ ih =>
    intro hf
    obtain ⟨hp, hf'⟩ := ih hf
    exact ⟨.salvaged hp, hf'⟩
  | loopDone hd => exact fun hf => ⟨.loopDone hd, hf⟩
  | loopNext hd _ _ ih₁ ih₂ =>
    intro hf
    obtain ⟨hp₁, hf₁⟩ := ih₁ (hf.findDetach hd).fits
    obtain ⟨hp₂, hf₂⟩ := ih₂ hf₁
    exact ⟨.loopNext hd hp₁ hp₂, hf₂⟩
  | plain hack => exact fun hf => ⟨.plain hack, hf⟩
  | request hack _ ih =>
    intro hf
    obtain ⟨hp, hf'⟩ := ih hf
    exact ⟨.request hack hp, hf'⟩
  | unknown hn => exact fun hf => ⟨.unknown hn, hf⟩
  | ignored hack => exact fun hf => ⟨.ignored hack, hf⟩
  | holdoff hn hdue hack _ ih =>
    intro hf
    obtain ⟨hp, hf'⟩ := ih hf
    exact ⟨.holdoff hn hdue hack hp, hf'⟩
  | due hn hdue hack _ ih =>
    intro hf
    obtain ⟨hp, hf'⟩ := ih hf
    exact ⟨.due hn hdue hack hp, hf'⟩
  | full ha => exact fun hf => ⟨.full ha, hf⟩
  | enqueued ha _ ih =>
    intro hf
    obtain ⟨hp, hf'⟩ := ih (hf.addTail ha)
    exact ⟨.enqueued ha hp, hf'⟩

theorem MaintPut.rreqTbl {put : Tbl MaintEntry → MaintEntry → Prop} {c : MaintCall} {s s' : DsrNode}
    (h : MaintPut put c s s') : s'.rreqTbl = s.rreqTbl :=
  h.unchanged DsrNode.rreqTbl (fun _ _ ha => ha.rreqTbl) fun _ _ _ _ _ => rfl

theorem MaintPut.rreqBrk {put : Tbl MaintEntry → MaintEntry → Prop} {c : MaintCall} {s s' : DsrNode}
    (h : MaintPut put c s s') : s'.rreqBrk = s.rreqBrk :=
  h.unchanged DsrNode.rreqBrk (fun _ _ ha => ha.rreqBrk) fun _ _ _ _ _ => rfl

theorem MaintStepPut.rreq {put : Tbl MaintEntry → MaintEntry → Prop} {i : MaintInput} {s s' : DsrNode}
    (h : MaintStepPut put i s s') : s'.rreqTbl = s.rreqTbl ∧ s'.rreqBrk = s.rreqBrk := by
  cases h with
  | apart ha => exact ⟨ha.rreqTbl, ha.rreqBrk⟩
  | add h => exact ⟨h.rreqTbl, h.rreqBrk⟩
  | ack _ h => exact ⟨h.rreqTbl, h.rreqBrk⟩
  | rerr h => exact ⟨h.rreqTbl, h.rreqBrk⟩
  | ackTimer h => exact ⟨h.rreqTbl, h.rreqBrk⟩
  | neighAdd _ => exact ⟨rfl, rfl⟩
  | setMaxLen => exact ⟨rfl, rfl⟩

def MaintInput.Fits (t : Tbl MaintEntry) : MaintInput → Prop
  | .neighAdd _ _ | .setMaxLen _ => True
  | _ => t.len ≤ t.maxLen

theorem MaintStepPut.puts {put : Tbl MaintEntry → MaintEntry → Prop} {i : MaintInput} {s s' : DsrNode}
    (h : MaintStepPut put i s s') (hwf : s.maintBuf.WF) (hfits : i.Fits s.maintBuf) :
    MaintStepPut maintBufPuts i s s' ∧ s'.maintBuf.WF := by
  cases h with
  | apart ha => exact ⟨.apart ha, by rw [ha.maintBuf]; exact hwf⟩
  | add h =>
    obtain ⟨hp, hf⟩ := h.puts ⟨hwf, hfits⟩
    exact ⟨.add hp, hf.wf⟩
  | ack hme h =>
    have hfits : s.maintBuf.Fits := ⟨hwf, hfits⟩
    obtain ⟨hp, hf⟩ := h.puts (hfits.forEachDel _)
    exact ⟨.ack hme hp, hf.wf⟩
  | rerr h =>
    have hfits : s.maintBuf.Fits := ⟨hwf, hfits⟩
    obtain ⟨hp, hf⟩ := h.puts (hfits.forEachDel _)
    exact ⟨.rerr hp, hf.wf⟩
  | ackTimer h =>
    obtain ⟨hp, hf⟩ := h.puts ⟨hwf, hfits⟩
    exact ⟨.ackTimer hp, hf.wf⟩
  | neighAdd hn => exact ⟨.neighAdd hn, hwf⟩
  | setMaxLen => exact ⟨.setMaxLen, hwf⟩

end MaintBuf

structure RreqShape (s : DsrNode) : Prop where
  len : s.rreqTbl.len = s.rreqTbl.head.length
  addrs : (s.rreqTbl.head.map RreqTblEntry.nodeAddr).Nodup
  refs : (s.rreqTbl.head.map RreqTblEntry.ref).Nodup
  brk : ∀ e ∈ s.rreqTbl.head, e.ref < s.rreqBrk

theorem RreqWf.shape {s : DsrNode} (h : RreqWf s) : RreqShape s := ⟨h.len, h.addrs, h.refs, h.brk⟩

theorem RreqShape.wf {s : DsrNode} (h : RreqShape s) (hpos : 1 ≤ s.rreqTbl.maxLen)
    (hle : s.rreqTbl.len ≤ s.rreqTbl.maxLen) : RreqWf s :=
  ⟨hpos, h.len, by rw [← h.len]; exact hle, h.addrs, h.refs, h.brk⟩

theorem RreqShape.wf_of_mem {s : DsrNode} (h : RreqShape s) {e : RreqTblEntry}
    (he : e ∈ s.rreqTbl.head) (hle : s.rreqTbl.len ≤ s.rreqTbl.maxLen) : RreqWf s := by
  have hpos := List.length_pos_of_mem he
  have hlen := h.len
  exact h.wf (by omega) hle

inductive TblOp
  | addId (initiator target : InAddr) (id : ℕ)
  | discover (target : InAddr)
  | timeout (ref : ℕ)
  | cancel (dst : InAddr)
  | rreqMaxLen (maxLen : ℕ)
  | maint (i : MaintInput)

namespace TblOp

def exec : TblOp → DsrM Unit
  | addId initiator target id => rreqTblAddId initiator target id
  | discover target => dsrRreqRouteDiscovery target
  | timeout ref => rreqTblTimeout ref
  | cancel dst => rreqTblRouteDiscoveryCancel dst
  | rreqMaxLen maxLen => rreqTblSetMaxLen maxLen
  | maint i => i.handle

def ready (timers : List ℕ) (s : DsrNode) : TblOp → Prop
  | timeout ref => ref ∈ timers ∧ s.held = []
  | addId _ _ _ | discover _ | cancel _ => s.held = []
  | rreqMaxLen _ | maint _ => True

def Fits (s : DsrNode) : TblOp → Prop
  | addId _ _ _ | discover _ => 1 ≤ s.rreqTbl.maxLen ∧ s.rreqTbl.len ≤ s.rreqTbl.maxLen
  | timeout _ => s.rreqTbl.len ≤ s.rreqTbl.maxLen
  | cancel dst => (s.rreqFind dst).isSome → s.rreqTbl.len ≤ s.rreqTbl.maxLen
  | rreqMaxLen _ => True
  | maint i => i.Fits s.maintBuf

end TblOp

def DsrNode.rreqFreed (s : DsrNode) (addr : InAddr) : List ℕ :=
  if s.rreqEvicts addr then s.rreqTbl.head.head?.toList.map RreqTblEntry.ref else []

def TblOp.timers (s : DsrNode) (timers : List ℕ) : TblOp → List ℕ
  | addId initiator _ _ => timers.filter (· ∉ s.rreqFreed initiator)
  | discover target =>
      if (s.rreqEntry target).state = .inRouteDisc then timers.filter (· ∉ s.rreqFreed target)
      else (s.rreqEntry target).ref :: timers.filter (· ∉ s.rreqFreed target)
  | timeout ref =>
      if (s.rreqTbl.find fun e => e.ref = ref && s.confvals .maxRequestRexmt ≤ e.numRexmts).isSome
      then timers.filter (· ≠ ref) else timers
  | cancel dst =>
      match s.rreqFind dst with
      | some e => if e.state = .inRouteDisc then timers.filter (· ≠ e.ref) else timers
      | none => timers
  | rreqMaxLen _ | maint _ => timers

inductive TblRun (ok : DsrNode → TblOp → Prop) : List ℕ → DsrNode → Prop
  | init (ifaddr : InAddr) (confvals : ConfVal → ℕ) (locking : Bool) (budget : ℕ) (now : Timeval)
      (kmem : ℕ → UInt8) (rreqSeqno : ℕ) :
      TblRun ok [] (dsrNodeInit ifaddr confvals locking budget now kmem rreqSeqno)
  | env {timers : List ℕ} {s s' : DsrNode} : TblRun ok timers s → s'.rreqTbl = s.rreqTbl →
      s'.rreqBrk = s.rreqBrk → s'.maintBuf = s.maintBuf → TblRun ok timers s'
  | step {timers : List ℕ} {s s' : DsrNode} (op : TblOp) : TblRun ok timers s →
      op.ready timers s → ok s op → op.exec s = .ok () s' → TblRun ok (op.timers s timers) s'

structure TblInv (timers : List ℕ) (s : DsrNode) : Prop where
  shape : RreqShape s
  maint : s.maintBuf.WF
  members : ∀ r ∈ timers, ∃ e ∈ s.rreqTbl.head, e.ref = r
  timer : ∀ e ∈ s.rreqTbl.head, e.timer.isSome = true ↔ e.ref ∈ timers

section Timers

variable {timers timers' : List ℕ} {s s' : DsrNode} {addr : InAddr}

theorem rreqFreed_found (h : (s.rreqFind addr).isSome) : s.rreqFreed addr = [] := by
  obtain ⟨e, he⟩ := Option.isSome_iff_exists.mp h
  rw [DsrNode.rreqFreed, DsrNode.rreqEvicts, he]
  rfl

theorem mem_rreqFreed (h : RreqWf s) {r : ℕ} (hr : r ∈ s.rreqFreed addr) :
    ∃ f rest, s.rreqFind addr = none ∧ s.rreqTbl.head = f :: rest ∧ r = f.ref ∧
      s.rreqOthers addr = rest := by
  unfold DsrNode.rreqFreed at hr
  rcases rreqEvicts_cases h addr with ⟨hev, -⟩ | ⟨f, rest, hev, hf, hh, ho⟩
  · rw [hev] at hr
    exact absurd hr List.not_mem_nil
  · rw [if_pos hev, hh] at hr
    exact ⟨f, rest, hf, hh, List.mem_singleton.mp hr, ho⟩

theorem rreqEntry_kept (h : RreqWf s) : (s.rreqEntry addr).ref ∉ s.rreqFreed addr := by
  intro hr
  obtain ⟨f, rest, hf, hh, href, -⟩ := mem_rreqFreed h hr
  have hbrk := h.brk f (by rw [hh]; exact List.mem_cons_self)
  rw [DsrNode.rreqEntry, hf] at href
  exact absurd href hbrk.ne'

theorem rreqOthers_kept (h : RreqWf s) {x : RreqTblEntry} (hx : x ∈ s.rreqOthers addr) :
    x.ref ∉ s.rreqFreed addr := by
  intro hr
  obtain ⟨f, rest, -, hh, href, ho⟩ := mem_rreqFreed h hr
  have hn := h.refs
  rw [hh, List.map_cons, List.nodup_cons] at hn
  rw [ho] at hx
  exact hn.1 (href ▸ List.mem_map_of_mem hx)

theorem rreq_stays (h : RreqWf s) {x : RreqTblEntry} (hx : x ∈ s.rreqTbl.head)
    (hfree : x.ref ∉ s.rreqFreed addr) : x ∈ s.rreqOthers addr ∨ x = s.rreqEntry addr := by
  by_cases ha : x.nodeAddr = addr
  · refine Or.inr ?_
    subst ha
    rw [DsrNode.rreqEntry, rreqFind_of_mem h hx]
    rfl
  · refine Or.inl ?_
    unfold DsrNode.rreqFreed at hfree
    rcases rreqEvicts_cases h addr with ⟨-, ho⟩ | ⟨f, rest, hev, -, hh, ho⟩
    · rw [ho]
      exact List.mem_filter.mpr ⟨hx, decide_eq_true ha⟩
    · rw [if_pos hev, hh] at hfree
      rw [ho]
      rw [hh] at hx
      rcases List.mem_cons.mp hx with rfl | hx
      · exact absurd (List.mem_singleton_self _) hfree
      · exact hx

theorem TblInv.entry (h : TblInv timers s) (hwf : RreqWf s) (addr : InAddr) :
    (s.rreqEntry addr).timer.isSome = true ↔ (s.rreqEntry addr).ref ∈ timers := by
  unfold DsrNode.rreqEntry
  cases hf : s.rreqFind addr with
  | some e => exact h.timer e (rreqFind_mem hf).1
  | none =>
    constructor
    · exact fun ht => nomatch ht
    · intro hr
      obtain ⟨e, he, href⟩ := h.members _ hr
      exact absurd href (hwf.brk e he).ne

theorem TblInv.touched (h : TblInv timers s) (hwf : RreqWf s) {f : RreqTblEntry → RreqTblEntry}
    (haddr : ∀ e, (f e).nodeAddr = e.nodeAddr) (href : ∀ e, (f e).ref = e.ref)
    (htbl : s'.rreqTbl = (s.touched addr f).rreqTbl) (hbrk : s'.rreqBrk = (s.touched addr f).rreqBrk)
    (hmaint : s'.maintBuf = s.maintBuf)
    (htimers : ∀ r, r ∈ timers' ↔ (r ∈ timers ∧ r ∉ s.rreqFreed addr ∧ r ≠ (s.rreqEntry addr).ref) ∨
      (r = (s.rreqEntry addr).ref ∧ (f (s.rreqEntry addr)).timer.isSome = true)) :
    TblInv timers' s' := by
  have hwf' := hwf.touched addr haddr href
  have hhead : s'.rreqTbl.head = s.rreqOthers addr ++ [f (s.rreqEntry addr)] := by rw [htbl]; rfl
  refine ⟨⟨?_, ?_, ?_, ?_⟩, by rw [hmaint]; exact h.maint, fun r hr => ?_, fun x hx => ?_⟩
  · rw [htbl]; exact hwf'.len
  · rw [htbl]; exact hwf'.addrs
  · rw [htbl]; exact hwf'.refs
  · rw [htbl, hbrk]; exact hwf'.brk
  · rw [hhead]
    have hlast := List.mem_append_right (s.rreqOthers addr) (List.mem_singleton_self (f (s.rreqEntry addr)))
    rcases (htimers r).mp hr with ⟨hr, hfree, hne⟩ | ⟨rfl, -⟩
    · obtain ⟨e, he, rfl⟩ := h.members r hr
      rcases rreq_stays hwf he hfree with ho | rfl
      · exact ⟨e, List.mem_append_left _ ho, rfl⟩
      · exact absurd rfl hne
    · exact ⟨_, hlast, href _⟩
  · rw [hhead] at hx
    rcases List.mem_append.mp hx with hx | hx
    · rw [h.timer x (mem_rreqOthers hx).1, htimers]
      have hne := (rreqEntry_ref hwf addr).1 x hx
      constructor
      · exact fun hr => Or.inl ⟨hr, rreqOthers_kept hwf hx, hne⟩
      · rintro (hr | ⟨hr, -⟩)
        · exact hr.1
        · exact absurd hr hne
    · rw [List.mem_singleton.mp hx, href, htimers]
      constructor
      · exact fun ht => Or.inr ⟨rfl, ht⟩
      · rintro (hr | ⟨-, ht⟩)
        · exact absurd rfl hr.2.2
        · exact ht

theorem TblInv.sameTimer (h : TblInv timers s) (hwf : RreqWf s) (r : ℕ) :
    r ∈ timers.filter (· ∉ s.rreqFreed addr) ↔
      (r ∈ timers ∧ r ∉ s.rreqFreed addr ∧ r ≠ (s.rreqEntry addr).ref) ∨
        (r = (s.rreqEntry addr).ref ∧ (s.rreqEntry addr).timer.isSome = true) := by
  rw [h.entry hwf addr, List.mem_filter, decide_eq_true_eq]
  by_cases hr : r = (s.rreqEntry addr).ref
  · subst hr
    have hkept : (s.rreqEntry addr).ref ∉ s.rreqFreed addr := rreqEntry_kept hwf
    exact ⟨fun hm => Or.inr ⟨rfl, hm.1⟩, fun hm => ⟨hm.elim And.left And.right, hkept⟩⟩
  · exact ⟨fun hm => Or.inl ⟨hm.1, hm.2, hr⟩, fun hm => hm.elim (fun hm => ⟨hm.1, hm.2.1⟩)
      fun hm => absurd hm.1 hr⟩

theorem touched_mem (s : DsrNode) (addr : InAddr) (f : RreqTblEntry → RreqTblEntry)
    (haddr : ∀ e, (f e).nodeAddr = e.nodeAddr) (href : ∀ e, (f e).ref = e.ref) :
    ∃ e ∈ (s.touched addr f).rreqTbl.head, e.nodeAddr = addr ∧ e.ref = (s.rreqEntry addr).ref :=
  ⟨f (s.rreqEntry addr), List.mem_append_right _ (List.mem_singleton_self _),
    (haddr _).trans (rreqEntry_addr s addr), href _⟩

theorem rreqEntry_found {e : RreqTblEntry} (hf : s.rreqFind addr = some e) : s.rreqEntry addr = e := by
  rw [DsrNode.rreqEntry, hf]
  rfl

def TblOp.Reinserts (s s' : DsrNode) : TblOp → Prop
  | addId initiator _ _ =>
      ∃ e ∈ s'.rreqTbl.head, e.nodeAddr = initiator ∧ e.ref = (s.rreqEntry initiator).ref
  | discover target =>
      ∃ e ∈ s'.rreqTbl.head, e.nodeAddr = target ∧ e.ref = (s.rreqEntry target).ref
  | timeout ref => ∃ e ∈ s'.rreqTbl.head, e.ref = ref
  | cancel dst => ∀ e, s.rreqFind dst = some e → ∃ e' ∈ s'.rreqTbl.head, e'.ref = e.ref
  | rreqMaxLen _ => s'.rreqTbl.head = s.rreqTbl.head
  | maint i => MaintStepPut maintBufPuts i s s'

theorem TblInv.addId (h : TblInv timers s) (hwf : RreqWf s) (hheld : s.held = []) {target : InAddr}
    {id : ℕ} (hrun : rreqTblAddId addr target id s = .ok () s') :
    TblInv (TblOp.timers s timers (.addId addr target id)) s' ∧
      TblOp.Reinserts s s' (.addId addr target id) := by
  have hs' := wp_ok (rreqTblAddId_wp hwf hheld target id) hrun
  subst hs'
  generalize hi : IdEntry.mk target (id % 65536) = i
  have haddr : ∀ e, (noteId s.now i e).nodeAddr = e.nodeAddr := by
    intro e
    unfold noteId
    split <;> rfl
  have htimer : ∀ e, (noteId s.now i e).timer = e.timer := by
    intro e
    unfold noteId
    split <;> rfl
  refine ⟨h.touched hwf haddr (noteId_ref _ _) rfl rfl rfl fun r => ?_,
    touched_mem s addr _ haddr (noteId_ref _ _)⟩
  rw [htimer]
  exact h.sameTimer hwf r

theorem TblInv.discover (h : TblInv timers s) (hwf : RreqWf s) (hheld : s.held = [])
    (hrun : dsrRreqRouteDiscovery addr s = .ok () s') :
    TblInv (TblOp.timers s timers (.discover addr)) s' ∧ TblOp.Reinserts s s' (.discover addr) := by
  obtain ⟨hbusy, hstart⟩ := wp_ok (dsrRreqRouteDiscovery_wp hwf hheld) hrun
  by_cases hst : (s.rreqEntry addr).state = .inRouteDisc
  · have hs' := hbusy hst
    subst hs'
    refine ⟨?_, touched_mem s addr id (fun _ => rfl) fun _ => rfl⟩
    rw [TblOp.timers, if_pos hst]
    exact h.touched hwf (fun _ => rfl) (fun _ => rfl) rfl rfl rfl (h.sameTimer hwf)
  · obtain ⟨dp, due, tail, -, rfl, -⟩ := (hstart hst).dp
    refine ⟨?_, touched_mem s addr (startDisc s.now (nonpropUsecs s)) (fun _ => rfl) fun _ => rfl⟩
    rw [TblOp.timers, if_neg hst]
    refine h.touched (f := startDisc s.now (nonpropUsecs s)) hwf (fun _ => rfl) (fun _ => rfl) rfl rfl rfl
      fun r => ?_
    rw [List.mem_cons, List.mem_filter, decide_eq_true_eq]
    constructor
    · rintro (rfl | hm)
      · exact Or.inr ⟨rfl, rfl⟩
      · by_cases hr : r = (s.rreqEntry addr).ref
        · exact Or.inr ⟨hr, rfl⟩
        · exact Or.inl ⟨hm.1, hm.2, hr⟩
    · rintro (hm | hm)
      · exact Or.inr ⟨hm.1, hm.2.1⟩
      · exact Or.inl hm.1

theorem TblInv.disarmed (h : TblInv timers s) (hwf : RreqWf s) {e : RreqTblEntry}
    (hf : s.rreqFind addr = some e) {f : RreqTblEntry → RreqTblEntry}
    (haddr : ∀ e, (f e).nodeAddr = e.nodeAddr) (href : ∀ e, (f e).ref = e.ref)
    (htbl : s'.rreqTbl = (s.touched addr f).rreqTbl) (hbrk : s'.rreqBrk = (s.touched addr f).rreqBrk)
    (hmaint : s'.maintBuf = s.maintBuf) (htimer : (f e).timer = none) :
    TblInv (timers.filter (· ≠ e.ref)) s' := by
  refine h.touched hwf haddr href htbl hbrk hmaint fun r => ?_
  rw [rreqFreed_found (by rw [hf]; rfl), rreqEntry_found hf, htimer]
  simp

theorem TblInv.stillArmed (h : TblInv timers s) (hwf : RreqWf s) {e : RreqTblEntry}
    (hf : s.rreqFind addr = some e) {f : RreqTblEntry → RreqTblEntry}
    (haddr : ∀ e, (f e).nodeAddr = e.nodeAddr) (href : ∀ e, (f e).ref = e.ref)
    (htbl : s'.rreqTbl = (s.touched addr f).rreqTbl) (hbrk : s'.rreqBrk = (s.touched addr f).rreqBrk)
    (hmaint : s'.maintBuf = s.maintBuf) (htimer : (f e).timer.isSome = true ↔ e.ref ∈ timers) :
    TblInv timers s' := by
  refine h.touched hwf haddr href htbl hbrk hmaint fun r => ?_
  rw [rreqFreed_found (by rw [hf]; rfl), rreqEntry_found hf, htimer]
  by_cases hr : r = e.ref
  · simp [hr]
  · simp [hr]

theorem TblInv.timeout (h : TblInv timers s) (hle : s.rreqTbl.len ≤ s.rreqTbl.maxLen) {ref : ℕ}
    (href : ref ∈ timers) (hheld : s.held = []) :
    (∃ s', rreqTblTimeout ref s = .ok () s') ∧ ∀ s', rreqTblTimeout ref s = .ok () s' →
      TblInv (TblOp.timers s timers (.timeout ref)) s' ∧ TblOp.Reinserts s s' (.timeout ref) := by
  obtain ⟨e, he, rfl⟩ := h.members ref href
  have hwf := h.shape.wf_of_mem he hle
  have hf := rreqFind_of_mem hwf he
  have hwp := rreqTblTimeout_wp hwf hheld he
  refine ⟨?_, fun s' hrun => ?_⟩
  · obtain ⟨_, s', hrun, -⟩ := ok_of_wp hwp
    exact ⟨s', hrun⟩
  have hfind : (s.rreqTbl.find fun x => x.ref = e.ref && s.confvals .maxRequestRexmt ≤ x.numRexmts).isSome =
      decide (s.confvals .maxRequestRexmt ≤ e.numRexmts) := by
    by_cases hmax : s.confvals .maxRequestRexmt ≤ e.numRexmts
    · rw [decide_eq_true hmax, Tbl.find, List.find?_isSome]
      exact ⟨e, he, by simp [hmax]⟩
    · rw [decide_eq_false hmax, Tbl.find, Option.isSome_eq_false_iff, Option.isNone_iff_eq_none,
        List.find?_eq_none]
      intro x hx hc
      rw [Bool.and_eq_true, decide_eq_true_eq, decide_eq_true_eq] at hc
      rw [List.inj_on_of_nodup_map hwf.refs hx he hc.1] at hc
      exact hmax hc.2
  obtain ⟨hend, hretry⟩ := wp_ok hwp hrun
  rw [TblOp.timers, hfind]
  by_cases hmax : s.confvals .maxRequestRexmt ≤ e.numRexmts
  · have hs' := hend hmax
    subst hs'
    rw [if_pos (decide_eq_true hmax)]
    refine ⟨h.disarmed (f := giveUpDisc) hwf hf (fun _ => rfl) (fun _ => rfl) rfl rfl rfl rfl, ?_⟩
    obtain ⟨e', he', -, hr⟩ := touched_mem s e.nodeAddr giveUpDisc (fun _ => rfl) fun _ => rfl
    exact ⟨e', he', by rw [hr, rreqEntry_found hf]⟩
  · obtain ⟨s₁, hsent, rfl⟩ := hretry (by omega)
    obtain ⟨dp, due, tail, -, rfl, -⟩ := hsent.dp
    rw [if_neg (by rw [decide_eq_true_eq]; exact hmax)]
    generalize usecsOf .maxRequestPeriod _ = period
    refine ⟨h.stillArmed (f := retryDisc s.now period) hwf hf (fun _ => rfl) (fun _ => rfl) rfl rfl rfl
      ⟨fun _ => href, fun _ => rfl⟩, ?_⟩
    obtain ⟨e', he', -, hr⟩ := touched_mem s e.nodeAddr (retryDisc s.now period) (fun _ => rfl)
      fun _ => rfl
    exact ⟨e', he', by rw [hr, rreqEntry_found hf]⟩

theorem rreqTblRouteDiscoveryCancel_none (hf : s.rreqFind addr = none) (hheld : s.held = []) :
    rreqTblRouteDiscoveryCancel addr s = .ok () (s.emits [.discovery addr .cancelled]) := by
  suffices hw : wp (rreqTblRouteDiscoveryCancel addr) s
      (fun _ s' => s' = s.emits [.discovery addr .cancelled]) fun _ => False by
    obtain ⟨_, s', hrun, rfl⟩ := ok_of_wp hw
    exact hrun
  unfold rreqTblRouteDiscoveryCancel
  rw [wp_bind, wp_emit, wp_bind]
  refine wp_locked (fun _ => by rw [hheld]; exact List.not_mem_nil) ?_
  have hfd : s.rreqTbl.findDetach (fun e => e.nodeAddr = addr) = none := by
    unfold Tbl.findDetach
    rw [show s.rreqTbl.head.find? _ = none from hf]
    rfl
  rw [wp_bind, wp_get, acquire_rreqTbl, hfd, wp_pure, release_acquire]
  exact rfl

theorem TblInv.cancel (h : TblInv timers s)
    (hle : (s.rreqFind addr).isSome → s.rreqTbl.len ≤ s.rreqTbl.maxLen) (hheld : s.held = []) :
    (∃ s', rreqTblRouteDiscoveryCancel addr s = .ok () s') ∧
      ∀ s', rreqTblRouteDiscoveryCancel addr s = .ok () s' →
        TblInv (TblOp.timers s timers (.cancel addr)) s' ∧ TblOp.Reinserts s s' (.cancel addr) := by
  cases hf : s.rreqFind addr with
  | none =>
    have htimers : TblOp.timers s timers (.cancel addr) = timers := by simp only [TblOp.timers, hf]
    rw [rreqTblRouteDiscoveryCancel_none hf hheld]
    refine ⟨⟨_, rfl⟩, fun s' hrun => ?_⟩
    cases hrun
    rw [htimers]
    refine ⟨⟨⟨h.shape.len, h.shape.addrs, h.shape.refs, h.shape.brk⟩, h.maint, h.members, h.timer⟩,
      fun e hfe => ?_⟩
    rw [hf] at hfe
    cases hfe
  | some e =>
    have he := (rreqFind_mem hf).1
    have hwf := h.shape.wf_of_mem he (hle (by rw [hf]; rfl))
    have hwp : wp (rreqTblRouteDiscoveryCancel addr) s _ _ := rreqTblRouteDiscoveryCancel_wp hwf hheld
    refine ⟨?_, fun s' hrun => ?_⟩
    · obtain ⟨_, s', hrun, -⟩ := ok_of_wp hwp
      exact ⟨s', hrun⟩
    have hs' := (wp_ok hwp hrun).2 (by rw [hf]; exact Option.some_ne_none e)
    subst hs'
    refine ⟨?_, fun e' hfe => ?_⟩
    · simp only [TblOp.timers, hf]
      split
      · next hst =>
        refine h.disarmed (f := stopDisc s.now) hwf hf (fun _ => rfl) (fun _ => rfl) rfl rfl rfl ?_
        unfold stopDisc
        rw [if_pos hst]
      · next hst =>
        refine h.stillArmed (f := stopDisc s.now) hwf hf (fun _ => rfl) (fun _ => rfl) rfl rfl rfl ?_
        unfold stopDisc
        rw [if_neg hst]
        exact h.timer e he
    · obtain rfl := Option.some_inj.mp (hf.symm.trans hfe)
      obtain ⟨e', he', -, hr⟩ := touched_mem s addr (stopDisc s.now) (fun _ => rfl) fun _ => rfl
      exact ⟨e', he', by rw [hr, rreqEntry_found hf]⟩

theorem TblInv.env (h : TblInv timers s) (htbl : s'.rreqTbl = s.rreqTbl) (hbrk : s'.rreqBrk = s.rreqBrk)
    (hmaint : s'.maintBuf.WF) : TblInv timers s' := by
  refine ⟨⟨?_, ?_, ?_, ?_⟩, hmaint, ?_, ?_⟩
  · rw [htbl]; exact h.shape.len
  · rw [htbl]; exact h.shape.addrs
  · rw [htbl]; exact h.shape.refs
  · rw [htbl, hbrk]; exact h.shape.brk
  · rw [htbl]; exact h.members
  · rw [htbl]; exact h.timer

theorem TblInv.step (h : TblInv timers s) (op : TblOp) (hready : op.ready timers s) (hfits : op.Fits s)
    (hrun : op.exec s = .ok () s') : TblInv (op.timers s timers) s' ∧ op.Reinserts s s' := by
  cases op with
  | addId initiator target id => exact h.addId (h.shape.wf hfits.1 hfits.2) hready hrun
  | discover target => exact h.discover (h.shape.wf hfits.1 hfits.2) hready hrun
  | timeout ref => exact (h.timeout hfits hready.1 hready.2).2 s' hrun
  | cancel dst => exact (h.cancel hfits hready).2 s' hrun
  | rreqMaxLen maxLen =>
    cases hrun
    exact ⟨⟨⟨h.shape.len, h.shape.addrs, h.shape.refs, h.shape.brk⟩, h.maint, h.members, h.timer⟩, rfl⟩
  | maint i =>
    have hstep := MaintInput.step hrun
    obtain ⟨hputs, hwf⟩ := hstep.puts h.maint hfits
    exact ⟨h.env hstep.rreq.1 hstep.rreq.2 hwf, hputs⟩

theorem TblRun.inv (h : TblRun (fun s op => op.Fits s) timers s) : TblInv timers s := by
  induction h with
  | init ifaddr confvals locking budget now kmem rreqSeqno =>
    refine ⟨⟨rfl, List.nodup_nil, List.nodup_nil, ?_⟩, rfl, ?_, ?_⟩
    · exact fun e he => absurd he List.not_mem_nil
    · exact fun r hr => absurd hr List.not_mem_nil
    · exact fun e he => absurd he List.not_mem_nil
  | env _ htbl hbrk hmaint ih => exact ih.env htbl hbrk (by rw [hmaint]; exact ih.maint)
  | step op _ hready hfits hrun ih => exact (ih.step op hready hfits hrun).1

def TblOp.onRreqTbl : TblOp → Bool
  | addId _ _ _ | discover _ | timeout _ | cancel _ => true
  | rreqMaxLen _ | maint _ => false

theorem TblInv.runs (h : TblInv timers s) (op : TblOp) (hop : op.onRreqTbl) (hready : op.ready timers s)
    (hfits : op.Fits s) : ∃ s', op.exec s = .ok () s' := by
  cases op with
  | addId initiator target id =>
    obtain ⟨_, s', hrun, -⟩ := ok_of_wp (rreqTblAddId_wp (h.shape.wf hfits.1 hfits.2) hready target id)
    exact ⟨s', hrun⟩
  | discover target =>
    obtain ⟨_, s', hrun, -⟩ := ok_of_wp (dsrRreqRouteDiscovery_wp (h.shape.wf hfits.1 hfits.2) hready)
    exact ⟨s', hrun⟩
  | timeout ref => exact (h.timeout hfits hready.1 hready.2).1
  | cancel dst => exact (h.cancel hfits hready).1
  | rreqMaxLen maxLen => cases hop
  | maint i => cases hop

theorem rreqTblAdd_mem (hwf : RreqWf s) (hl : ∀ r, Lock.rreqIdTbl r ∉ s.held) (hf : s.rreqFind addr = none)
    {ref : ℕ} (hrun : rreqTblAdd addr s = .ok ref s') :
    ∃ e ∈ s'.rreqTbl.head, e.nodeAddr = addr ∧ e.ref = ref := by
  have hfd : s.rreqTbl.findDetach (fun e => e.nodeAddr = addr) = none := by
    unfold Tbl.findDetach
    rw [show s.rreqTbl.head.find? _ = none from hf]
    rfl
  have hwp : wp (rreqTblFindLast addr) s _ _ := rreqTblFindLast_wp hwf hl
  unfold rreqTblFindLast at hwp
  rw [wp_bind, wp_get, hfd] at hwp
  obtain ⟨rfl, rfl⟩ := wp_ok hwp hrun
  exact touched_mem s addr id (fun _ => rfl) fun _ => rfl

structure TblsIntact (timers : List ℕ) (s : DsrNode) : Prop where
  rreqLen : s.rreqTbl.len = s.rreqTbl.head.length
  maintLen : s.maintBuf.len = s.maintBuf.head.length
  members : ∀ r ∈ timers, ∃ e ∈ s.rreqTbl.head, e.ref = r ∧ e.timer.isSome
  timer : ∀ e ∈ s.rreqTbl.head, e.timer.isSome = true ↔ e.ref ∈ timers
  added : 1 ≤ s.rreqTbl.maxLen → s.rreqTbl.len ≤ s.rreqTbl.maxLen → (∀ r, Lock.rreqIdTbl r ∉ s.held) →
    ∀ addr ref s', s.rreqFind addr = none → rreqTblAdd addr s = .ok ref s' →
      ∃ e ∈ s'.rreqTbl.head, e.nodeAddr = addr ∧ e.ref = ref
  runs : ∀ op : TblOp, op.onRreqTbl → op.ready timers s → op.Fits s → ∃ s', op.exec s = .ok () s'
  reinserts : ∀ (op : TblOp) s', op.ready timers s → op.Fits s → op.exec s = .ok () s' →
    op.Reinserts s s'

theorem tables_keep_reinserted (h : TblRun (fun s op => op.Fits s) timers s) : TblsIntact timers s where
  rreqLen := h.inv.shape.len
  maintLen := h.inv.maint
  members r hr := by
    obtain ⟨e, he, href⟩ := h.inv.members r hr
    exact ⟨e, he, href, (h.inv.timer e he).mpr (by rw [href]; exact hr)⟩
  timer := h.inv.timer
  added hpos hle hl addr ref s' hf hrun := rreqTblAdd_mem (h.inv.shape.wf hpos hle) hl hf hrun
  runs := h.inv.runs
  reinserts op s' hready hfits hrun := (h.inv.step op hready hfits hrun).2

end Timers

instance TblOp.decidableReady (timers : List ℕ) (s : DsrNode) (op : TblOp) :
    Decidable (op.ready timers s) := by
  cases op <;> unfold TblOp.ready <;> infer_instance

instance TblOp.decidableFits (s : DsrNode) (op : TblOp) : Decidable (op.Fits s) := by
  cases op with
  | maint i => cases i <;> unfold TblOp.Fits MaintInput.Fits <;> infer_instance
  | _ => unfold TblOp.Fits; infer_instance

def tblDrive (ok : DsrNode → TblOp → Prop) [∀ s op, Decidable (ok s op)] (timers : List ℕ)
    (s : DsrNode) : List (Timeval × TblOp) → Option (List ℕ × DsrNode)
  | [] => some (timers, s)
  | (now, op) :: rest =>
      let t := { s with now := now }
      if op.ready timers t ∧ ok t op then
        match op.exec t with
        | .ok _ s' => tblDrive ok (op.timers t timers) s' rest
        | .error _ _ => none
      else none

theorem TblRun.drive {ok : DsrNode → TblOp → Prop} [∀ s op, Decidable (ok s op)]
    (ops : List (Timeval × TblOp)) : ∀ {timers timers' : List ℕ} {s s' : DsrNode},
    TblRun ok timers s → tblDrive ok timers s ops = some (timers', s') → TblRun ok timers' s' := by
  induction ops with
  | nil =>
    intro timers timers' s s' h hd
    cases hd
    exact h
  | cons x rest ih =>
    obtain ⟨now, op⟩ := x
    intro timers timers' s s' h hd
    unfold tblDrive at hd
    dsimp only at hd
    split at hd
    · next hc =>
      split at hd
      · next s₁ hrun =>
        have hnow : TblRun ok timers { s with now := now } := h.env rfl rfl rfl
        exact ih (hnow.step op hc.1 hc.2 hrun) hd
      · cases hd
    · cases hd

def tblNode : DsrNode := dsrNodeInit (detourHost 1) confvalsDef true 20 ⟨100, 0⟩ (fun _ => 0) 0

def resizedTbls : List (Timeval × TblOp) :=
  [(⟨100, 0⟩, .discover (detourHost 3)), (⟨101, 0⟩, .discover (detourHost 4)),
    (⟨102, 0⟩, .maint (.neighAdd (detourHost 2) 2)), (⟨103, 0⟩, .maint (.add (hopPkt (detourHost 2)))),
    (⟨103, 0⟩, .maint (.setMaxLen 1)), (⟨104, 0⟩, .rreqMaxLen 2),
    (⟨105, 0⟩, .addId (detourHost 3) (detourHost 1) 7), (⟨106, 0⟩, .timeout 0),
    (⟨107, 0⟩, .discover (detourHost 5)), (⟨108, 0⟩, .maint .ackTimer)]

theorem tables_keep_reinserted_resized : ∃ timers s, TblRun (fun s op => op.Fits s) timers s ∧
    timers ≠ [] ∧ s.maintBuf.head ≠ [] ∧ TblsIntact timers s := by
  have hrun : (tblDrive (fun s op => op.Fits s) [] tblNode resizedTbls).any
      (fun r => r.1 ≠ [] ∧ r.2.maintBuf.head.length = 1) = true := by decide +kernel
  obtain ⟨⟨timers, s⟩, hd, hs⟩ := (Option.any_eq_true _ _).mp hrun
  obtain ⟨ht, hm⟩ := of_decide_eq_true hs
  have hreach := TblRun.drive resizedTbls (.init (detourHost 1) confvalsDef true 20 ⟨100, 0⟩ (fun _ => 0) 0) hd
  exact ⟨timers, s, hreach, ht, List.ne_nil_of_length_pos (Nat.lt_of_lt_of_eq Nat.one_pos hm.symm),
    tables_keep_reinserted hreach⟩

def shrunkTbl : List (Timeval × TblOp) :=
  [(⟨100, 0⟩, .discover (detourHost 3)), (⟨101, 0⟩, .discover (detourHost 4)),
    (⟨102, 0⟩, .rreqMaxLen 1)]

def addIdLoses (s : DsrNode) : Bool :=
  match rreqTblAddId (detourHost 3) (detourHost 1) 7 s with
  | .ok _ s' => s'.rreqTbl.head.all fun e => e.nodeAddr ≠ detourHost 3
  | .error _ _ => false

theorem reinserted_entry_lost : ¬ ∀ timers s, TblRun (fun _ _ => True) timers s →
    ∀ (op : TblOp) s', op.ready timers s → op.exec s = .ok () s' → op.Reinserts s s' := by
  intro hall
  have hrun : (tblDrive (fun _ _ => True) [] tblNode shrunkTbl).any
      (fun r => decide (r.2.held = []) && addIdLoses r.2) = true := by decide +kernel
  obtain ⟨⟨timers, s⟩, hd, hs⟩ := (Option.any_eq_true _ _).mp hrun
  have hreach := TblRun.drive shrunkTbl (.init (detourHost 1) confvalsDef true 20 ⟨100, 0⟩ (fun _ => 0) 0) hd
  obtain ⟨hheld, hs⟩ := Bool.and_eq_true_iff.mp hs
  unfold addIdLoses at hs
  split at hs
  · next s' hadd =>
    obtain ⟨e, he, ha, -⟩ := hall timers s hreach (.addId (detourHost 3) (detourHost 1) 7) s'
      (of_decide_eq_true hheld) hadd
    exact of_decide_eq_true (List.all_eq_true.mp hs e he) ha
  · exact Bool.false_ne_true hs

end DsrUu
