import DsrUu.Maint.Broken

namespace DsrUu

open Effect

def Event.ackReqTo (nxtHop : InAddr) : Event → Bool
  | .ackReq h _ => h = nxtHop
  | _ => false

def ackReqCount (nxtHop : InAddr) (out : List Event) : ℕ := out.countP (Event.ackReqTo nxtHop)

def requestNo (nxtHop : InAddr) (out : List Event) (i : ℕ) : ℕ := ackReqCount nxtHop (out.take i) + 1

theorem ackReqCount_append (nxtHop : InAddr) (out es : List Event) :
    ackReqCount nxtHop (out ++ es) = ackReqCount nxtHop out + ackReqCount nxtHop es :=
  List.countP_append

theorem ackReqCount_quiet {nxtHop : InAddr} {es : List Event} (h : ∀ e ∈ es, e.ackReqTo nxtHop = false) :
    ackReqCount nxtHop es = 0 := by
  refine List.countP_eq_zero.mpr fun e he => ?_
  rw [h e he]
  decide

theorem requestNo_append {nxtHop : InAddr} {out : List Event} {i : ℕ} (h : i ≤ out.length)
    (es : List Event) : requestNo nxtHop (out ++ es) i = requestNo nxtHop out i := by
  unfold requestNo
  rw [List.take_append_of_le_length h]

theorem requestNo_length (nxtHop : InAddr) (out : List Event) :
    requestNo nxtHop out out.length = ackReqCount nxtHop out + 1 := by
  unfold requestNo
  rw [List.take_length]

theorem ackReqTo_apart {e : Event} (h : e.apart) (nxtHop : InAddr) : e.ackReqTo nxtHop = false := by
  unfold Event.ackReqTo
  split
  · exact h.elim
  · rfl

structure Numbered (out : List Event) (m : MaintEntry) : Prop where
  born : m.born ≤ out.length
  id : m.id = requestNo m.nxtHop out m.born % 65536

theorem Numbered.append {out : List Event} {m : MaintEntry} (h : Numbered out m) (es : List Event) :
    Numbered (out ++ es) m := by
  refine ⟨?_, by rw [requestNo_append h.born]; exact h.id⟩
  rw [List.length_append]
  exact Nat.le_trans h.born (Nat.le_add_right _ _)

def RequestsNumbered (out : List Event) : Prop :=
  ∀ i nxtHop id, out[i]? = some (.ackReq nxtHop id) → id = requestNo nxtHop out i % 65536

theorem RequestsNumbered.append {out es : List Event} (h : RequestsNumbered out)
    (hes : ∀ i nxtHop id, es[i]? = some (.ackReq nxtHop id) →
      id = requestNo nxtHop (out ++ es) (out.length + i) % 65536) :
    RequestsNumbered (out ++ es) := by
  intro i nxtHop id hi
  by_cases hlt : i < out.length
  · rw [List.getElem?_append_left hlt] at hi
    rw [requestNo_append (Nat.le_of_lt hlt)]
    exact h i nxtHop id hi
  · rw [List.getElem?_append_right (Nat.le_of_not_lt hlt)] at hi
    have hid := hes _ nxtHop id hi
    rwa [Nat.add_sub_cancel' (Nat.le_of_not_lt hlt)] at hid

def NeighborNumbered (t : Tbl Neighbor) (out : List Event) : Prop :=
  ∀ a, (∀ n, t.find (fun n => n.addr = a) = some n → n.id = (ackReqCount a out + 1) % 65536) ∧
    (t.find (fun n => n.addr = a) = none → ackReqCount a out = 0)

structure PurgeInv (t : Tbl Neighbor) (b : Tbl MaintEntry) (out : List Event) : Prop where
  neighbors : NeighborNumbered t out
  entries : ∀ m ∈ b.head, Numbered out m
  requests : RequestsNumbered out

namespace PurgeInv

variable {t : Tbl Neighbor} {b b' : Tbl MaintEntry} {out es : List Event}

theorem subset (h : PurgeInv t b out) (hs : ∀ m ∈ b'.head, m ∈ b.head) : PurgeInv t b' out :=
  ⟨h.neighbors, fun m hm => h.entries m (hs m hm), h.requests⟩

theorem append (h : PurgeInv t b out) (hes : ∀ e ∈ es, ∀ a, e.ackReqTo a = false) :
    PurgeInv t b (out ++ es) := by
  refine ⟨fun a => ?_, fun m hm => (h.entries m hm).append es, h.requests.append fun i a id hi => ?_⟩
  · rw [ackReqCount_append, ackReqCount_quiet fun e he => hes e he a]
    exact h.neighbors a
  · have hno := hes _ (List.mem_of_getElem? hi) a
    simp [Event.ackReqTo] at hno

theorem snoc (h : PurgeInv t b out) {e : Event} (he : ∀ a, e.ackReqTo a = false) :
    PurgeInv t b (out ++ [e]) :=
  h.append fun e' he' a => by rw [List.mem_singleton.mp he']; exact he a

theorem put (h : PurgeInv t b out) {m : MaintEntry} (hm : Numbered out m) :
    PurgeInv t (maintBufPut b m) out := by
  refine ⟨h.neighbors, fun x hx => ?_, h.requests⟩
  rcases Tbl.mem_add_getD hx with rfl | hx
  · exact hm
  · exact h.entries x hx

theorem findDo (h : PurgeInv t b out) {f : Neighbor → Neighbor} (hf : ∀ n, (f n).addr = n.addr)
    (hid : ∀ n, (f n).id = n.id) (a : InAddr) :
    PurgeInv (t.findDo (fun n => n.addr = a) f) b out := by
  refine ⟨fun c => ?_, h.entries, h.requests⟩
  obtain ⟨hsome, hnone⟩ := h.neighbors c
  rw [neighTbl_find_findDo hf]
  split
  · refine ⟨fun n hn => ?_, fun hn => hnone (Option.map_eq_none_iff.mp hn)⟩
    obtain ⟨n₀, hn₀, rfl⟩ := Option.map_eq_some_iff.mp hn
    rw [hid]
    exact hsome n₀ hn₀
  · exact ⟨hsome, hnone⟩

theorem find_issue (s : DsrNode) (a c : InAddr) :
    (neighTblIssue s a).find (fun n => n.addr = c) =
      if a = c then (s.neighTbl.find fun n => n.addr = c).map fun n =>
        { n with lastAckReq := s.now, id := (n.id + 1) % 65536 }
      else s.neighTbl.find fun n => n.addr = c := by
  unfold neighTblIssue
  rw [neighTbl_find_findDo (f := fun n => { n with id := (n.id + 1) % 65536 }) fun _ => rfl,
    neighTbl_find_findDo (f := fun n => { n with lastAckReq := s.now }) fun _ => rfl]
  split
  · rw [Option.map_map]
    rfl
  · rfl

theorem issue {s : DsrNode} (h : PurgeInv s.neighTbl b s.out) {a : InAddr} {n : Neighbor}
    (hn : s.neighTbl.find (fun n => n.addr = a) = some n) :
    PurgeInv (neighTblIssue s a) b (s.out ++ [.ackReq a n.id]) := by
  have hid := (h.neighbors a).1 n hn
  have hcount : ∀ c, ackReqCount c [.ackReq a n.id] = if a = c then 1 else 0 := by
    intro c
    by_cases hac : a = c <;> simp [ackReqCount, Event.ackReqTo, hac]
  refine ⟨fun c => ?_, fun m hm => (h.entries m hm).append _, h.requests.append fun i c id hi => ?_⟩
  · rw [ackReqCount_append, hcount, find_issue]
    split
    · next hac =>
      subst hac
      rw [hn]
      refine ⟨fun n' hn' => ?_, nofun⟩
      obtain rfl := Option.some_inj.mp hn'
      dsimp only
      omega
    · exact h.neighbors c
  · cases i with
    | zero =>
      cases hi
      rw [Nat.add_zero, requestNo_append (Nat.le_refl _), requestNo_length]
      exact hid
    | succ i =>
      rw [List.getElem?_cons_succ, List.getElem?_nil] at hi
      cases hi

theorem added {s : DsrNode} (h : PurgeInv s.neighTbl b s.out) {a : InAddr} (hwAddr : HwAddr)
    (hn : s.neighTbl.find (fun n => n.addr = a) = none) :
    PurgeInv (neighTblAdded s a hwAddr).neighTbl b s.out := by
  refine ⟨fun c => ?_, h.entries, h.requests⟩
  unfold neighTblAdded Tbl.add
  split
  · exact h.neighbors c
  · have hins : Tbl.insertBefore (fun _ => true) (neighTblCreate a hwAddr 1) s.neighTbl.head =
        neighTblCreate a hwAddr 1 :: s.neighTbl.head := by
      cases s.neighTbl.head <;> rfl
    have hfind : (Tbl.find { s.neighTbl with
        head := Tbl.insertBefore (fun _ => true) (neighTblCreate a hwAddr 1) s.neighTbl.head
        len := s.neighTbl.len + 1 } fun n => n.addr = c) =
        if a = c then some (neighTblCreate a hwAddr 1) else s.neighTbl.find fun n => n.addr = c := by
      rw [Tbl.find, hins, List.find?_cons]
      by_cases hac : a = c
      · simp [neighTblCreate, hac]
      · simp [neighTblCreate, hac, Tbl.find]
    dsimp only [Option.getD_some]
    rw [hfind]
    split
    · next hac =>
      refine ⟨fun n hn' => ?_, fun hnone => absurd hnone (Option.some_ne_none _)⟩
      obtain rfl := Option.some_inj.mp hn'
      rw [← hac, (h.neighbors a).2 hn]
      rfl
    · exact h.neighbors c

end PurgeInv

theorem Numbered.new {s : DsrNode} (h : PurgeInv s.neighTbl s.maintBuf s.out) {n : Neighbor}
    {nxtHop : InAddr} (hn : s.neighTbl.find (fun n => n.addr = nxtHop) = some n) (mdp : DsrPkt) :
    Numbered s.out (maintEntryNew s n nxtHop mdp) := by
  refine ⟨Nat.le_refl _, ?_⟩
  change n.id = requestNo nxtHop s.out s.out.length % 65536
  rw [requestNo_length]
  exact (h.neighbors nxtHop).1 n hn

theorem Numbered.keeps {out : List Event} {m m' : MaintEntry} (h : Numbered out m)
    (hb : m'.born = m.born) (hid : m'.id = m.id) (hop : m'.nxtHop = m.nxtHop) : Numbered out m' := by
  refine ⟨by rw [hb]; exact h.born, ?_⟩
  rw [hid, hop, hb]
  exact h.id

theorem PurgeInv.touch {s : DsrNode} (h : PurgeInv s.neighTbl s.maintBuf s.out) (m : MaintEntry) :
    PurgeInv s.neighTbl (maintBufTouch s m) s.out := by
  refine ⟨h.neighbors, Tbl.updateFirst_forall h.entries fun x hx => ?_, h.requests⟩
  exact (h.entries x hx).keeps rfl rfl rfl

def DsrNode.Purges (s : DsrNode) : Prop := PurgeInv s.neighTbl s.maintBuf s.out

theorem Apart.purges {s s' : DsrNode} (ha : Apart s s') (h : s.Purges) : s'.Purges := by
  obtain ⟨b, hb, hapart⟩ := ha.out
  unfold DsrNode.Purges
  rw [ha.neighTbl, ha.maintBuf, hb]
  exact h.append fun e he => ackReqTo_apart (hapart e he)

def MaintCall.Numbered (out : List Event) : MaintCall → Prop
  | enqueue m => DsrUu.Numbered out m
  | _ => True

theorem MaintCall.Numbered.append {c : MaintCall} {out : List Event} (h : c.Numbered out)
    (es : List Event) : c.Numbered (out ++ es) := by
  cases c with
  | enqueue m => exact DsrUu.Numbered.append h es
  | _ => trivial

theorem MaintPut.purges {put : Tbl MaintEntry → MaintEntry → Prop} {c : MaintCall} {s s' : DsrNode}
    (h : MaintPut put c s s') : c.Numbered s.out → s.Purges → s'.Purges := by
  induction h with
  | before ha _ ih =>
    intro hm hp
    obtain ⟨b, hb, -⟩ := ha.out
    exact ih (by rw [hb]; exact hm.append b) (ha.purges hp)
  | after _ ha ih => exact fun hm hp => ha.purges (ih hm hp)
  | arm _ _ => exact fun _ hp => PurgeInv.touch hp _
  | expired _ _ _ ih => exact fun _ hp => ih trivial (PurgeInv.touch hp _)
  | drop _ hd _ _ _ ih => exact fun _ hp => ih trivial (PurgeInv.subset hp (Tbl.detachFirst_mem hd).2)
  | giveUp _ hd _ _ _ _ _ ih₁ ih₂ ih₃ =>
    intro _ hp
    have hsub := PurgeInv.subset hp (Tbl.detachFirst_mem hd).2
    exact ih₃ trivial (ih₂ trivial (ih₁ trivial (hsub.snoc fun _ => rfl)))
  | @rexmt s s' m t _ hd _ _ _ ih =>
    intro _ hp
    have hsub := PurgeInv.subset hp (Tbl.detachFirst_mem hd).2
    have hm := hp.entries m (Tbl.detachFirst_mem hd).1
    refine ih trivial ?_
    have hkeep : DsrUu.Numbered s.out (m.rexmtAt s.now) := hm.keeps rfl rfl rfl
    have hput := hsub.put hkeep
    unfold DsrNode.Purges
    dsimp only
    split
    · exact hput.snoc fun _ => rfl
    · exact hput
  | salvaged _ ih => exact fun _ => ih trivial
  | loopNext hd _ _ ih₁ ih₂ =>
    exact fun _ hp => ih₂ trivial (ih₁ trivial (PurgeInv.subset hp (Tbl.findDetach_mem hd).2))
  | request _ _ ih => exact fun _ => ih trivial
  | holdoff hn _ _ _ ih => exact fun _ hp => ih (.new hp hn _) hp
  | @due s s' dp n mdp hn _ _ _ ih =>
    intro _ hp
    have hnew := (DsrUu.Numbered.new hp hn mdp).append [.ackReq dp.nxtHop n.id]
    exact ih (hnew.keeps rfl rfl rfl) (PurgeInv.issue hp hn)
  | @enqueued s s' m t ha _ ih =>
    intro hm hp
    refine ih trivial ?_
    obtain ⟨-, rfl⟩ := Tbl.addTail_eq_some ha
    have hnew : PurgeInv s.neighTbl { s.maintBuf with
        head := s.maintBuf.head ++ [m], len := s.maintBuf.len + 1 } s.out :=
      ⟨hp.neighbors, forall_mem_snoc hp.entries hm, hp.requests⟩
    exact hnew.snoc fun _ => rfl
  | _ => exact fun _ hp => hp

theorem rtoCalc_same (rtt : ℕ) (n : Neighbor) : (rtoCalc rtt n).addr = n.addr ∧ (rtoCalc rtt n).id = n.id :=
  ⟨rfl, rfl⟩

theorem MaintStep.purges {i : MaintInput} {s s' : DsrNode} (h : MaintStep i s s') (hp : s.Purges) :
    s'.Purges := by
  cases h with
  | apart ha => exact ha.purges hp
  | add h => exact h.purges trivial hp
  | @ack dp p s s' _ h =>
    refine h.purges trivial ?_
    have hdel : PurgeInv s.neighTbl
        (maintBufAcked s (dp.addrField p 4) (dp.be16Field p 2)).maintBuf s.out :=
      PurgeInv.subset hp fun _ hm => (List.mem_filter.mp hm).1
    unfold DsrNode.Purges maintBufAcked
    dsimp only
    split
    · exact (hdel.snoc fun _ => rfl).findDo (fun n => (rtoCalc_same _ n).1)
        (fun n => (rtoCalc_same _ n).2) _
    · exact hdel.snoc fun _ => rfl
  | rerr h => exact h.purges trivial (PurgeInv.subset hp fun _ hm => (List.mem_filter.mp hm).1)
  | ackTimer h => exact h.purges trivial hp
  | neighAdd hn => exact PurgeInv.added hp _ hn
  | setMaxLen => exact PurgeInv.subset hp fun _ hm => hm

theorem maintReach_purges {env : DsrNode → DsrNode → Prop} {ok : DsrNode → MaintInput → Prop}
    {s : DsrNode} (h : MaintReach env ok s) : s.Purges := by
  induction h with
  | init ifaddr confvals locking budget now kmem rreqSeqno =>
    refine ⟨fun a => ⟨nofun, fun _ => rfl⟩, fun m hm => absurd hm List.not_mem_nil, fun i a id hi => ?_⟩
    exact absurd (List.mem_of_getElem? hi) List.not_mem_nil
  | env _ ho _ ih =>
    obtain ⟨b, hb, hapart⟩ := ho.out
    unfold DsrNode.Purges
    rw [ho.neighTbl, ho.maintBuf, hb]
    exact PurgeInv.append ih fun e he => ackReqTo_apart (hapart e he)
  | step i _ _ hrun ih => exact (MaintInput.step hrun).purges ih

theorem ackReqCount_take_le (nxtHop : InAddr) (out : List Event) {i j : ℕ} (h : i ≤ j) :
    ackReqCount nxtHop (out.take i) ≤ ackReqCount nxtHop (out.take j) :=
  (List.take_sublist_take_left h).countP_le

theorem ackReqCount_take_succ {nxtHop : InAddr} {id i : ℕ} {out : List Event}
    (h : out[i]? = some (.ackReq nxtHop id)) :
    ackReqCount nxtHop (out.take (i + 1)) = ackReqCount nxtHop (out.take i) + 1 := by
  rw [List.take_add_one, h, ackReqCount_append]
  simp [ackReqCount, Event.ackReqTo]

theorem born_le_iff {nxtHop : InAddr} {id i : ℕ} {out : List Event}
    (h : out[i]? = some (.ackReq nxtHop id)) (born : ℕ) :
    born ≤ i ↔ requestNo nxtHop out born ≤ requestNo nxtHop out i := by
  unfold requestNo
  constructor
  · intro hle
    exact Nat.succ_le_succ (ackReqCount_take_le nxtHop out hle)
  · intro hle
    refine Nat.le_of_not_lt fun hlt => ?_
    have hmono := ackReqCount_take_le nxtHop out (Nat.succ_le_of_lt hlt)
    rw [Nat.succ_eq_add_one, ackReqCount_take_succ h] at hmono
    omega

def IdsInOrder (a j : ℕ) : Prop :=
  (a / 65536 < j / 65536 → a % 65536 ≤ j % 65536) ∧ (j / 65536 < a / 65536 → j % 65536 < a % 65536)

instance (a j : ℕ) : Decidable (IdsInOrder a j) := inferInstanceAs (Decidable (_ ∧ _))

theorem idsInOrder_iff (a j : ℕ) : (a % 65536 ≤ j % 65536 ↔ a ≤ j) ↔ IdsInOrder a j := by
  unfold IdsInOrder
  omega

theorem filter_eq_filter_iff {α : Type} {p q : α → Bool} (xs : List α) :
    xs.filter p = xs.filter q ↔ ∀ x ∈ xs, p x = q x := by
  refine ⟨fun h x hx => ?_, fun h => List.filter_congr h⟩
  rw [Bool.eq_iff_iff]
  have hmem : x ∈ xs.filter p ↔ x ∈ xs.filter q := by rw [h]
  simpa [hx] using hmem

def PurgedExactly (s : DsrNode) (nxtHop : InAddr) (i : ℕ) (t : Tbl MaintEntry) : Prop :=
  t.head = s.maintBuf.head.filter fun m => !(m.nxtHop = nxtHop && m.born ≤ i)

theorem ack_purges_iff {s s' : DsrNode} (h : MaintReach anyEnv anyMaint s) {dp : DsrPkt} {p : OptPtr}
    {act : List DsrPktAction} {nxtHop : InAddr} {id i : ℕ}
    (hreq : s.out[i]? = some (.ackReq nxtHop id)) (hdst : dp.addrField p 8 = s.ifaddr)
    (hsrc : dp.addrField p 4 = nxtHop) (hid : dp.be16Field p 2 = id)
    (hrun : dsrAckOptRecv dp p s = .ok act s') :
    (∃ s₁, maintBufSetTimeout (maintBufPurged s nxtHop id) = .ok () s₁ ∧ s' = release .maintBuf s₁) ∧
      (PurgedExactly s nxtHop i (maintBufPurged s nxtHop id).maintBuf ↔
        ∀ m ∈ s.maintBuf.head, m.nxtHop = nxtHop →
          IdsInOrder (requestNo nxtHop s.out m.born) (requestNo nxtHop s.out i)) := by
  have hp := maintReach_purges h
  constructor
  · obtain ⟨me, s₁, hme, hrun⟩ := bind_ok hrun
    cases hme
    rw [if_neg (not_not.mpr hdst)] at hrun
    obtain ⟨_, s₂, hd, hrun⟩ := bind_ok hrun
    cases hrun
    rw [hsrc, hid] at hd
    exact maintBufDelAllId_purged hd
  · unfold PurgedExactly
    change s.maintBuf.head.filter (fun m => !(m.nxtHop = nxtHop && m.id ≤ id)) = _ ↔ _
    rw [filter_eq_filter_iff]
    refine forall₂_congr fun m hm => ?_
    by_cases hop : m.nxtHop = nxtHop
    · have hmid := (hp.entries m hm).id
      rw [hop] at hmid
      rw [← idsInOrder_iff, ← hmid, ← hp.requests i nxtHop id hreq, ← born_le_iff hreq]
      simp only [hop, decide_true, Bool.true_and, forall_const]
      by_cases h₁ : m.id ≤ id <;> by_cases h₂ : m.born ≤ i <;> simp [h₁, h₂]
    · simp [hop]

section Unlocked

variable {s : DsrNode} (hl : s.locking = false)

include hl

theorem wp_neighTblQuery {n : Neighbor} {a : InAddr} {Q : Option NeighborInfo → DsrNode → Prop}
    {E : Stop → Prop} (hn : s.neighTbl.find (fun n => n.addr = a) = some n)
    (hq : Q (some { hwAddr := n.hwAddr, id := n.id, lastAckReq := n.lastAckReq, rto := rtoOf s n }) s) :
    wp (neighTblQuery a) s Q E := by
  simp only [neighTblQuery, confValToUsecs, confVal, neighTblFind, wp_bind, wp_get, wp_pure]
  refine wp_unlocked hl ?_
  simp only [wp_bind, wp_get, wp_pure, release_unlocked hl, hn]
  exact hq

end Unlocked

theorem wp_maintBufSetTimeout_arm {s : DsrNode} {m : MaintEntry} {b : ℕ} {Q : Unit → DsrNode → Prop}
    {E : Stop → Prop} (hb : s.budget = b + 1) (hf : s.maintBuf.find MaintEntry.ackReqSent = some m)
    (hx : ¬ m.expired s.now)
    (hq : Q () { s with maintBuf := maintBufTouch s m, ackTimer := some m.deadline }) :
    wp maintBufSetTimeout s Q E := by
  unfold maintBufSetTimeout
  rw [wp_bind, wp_get, hb]
  unfold maintBufSetTimeoutUnlocked
  rw [wp_bind, wp_get]
  simp only [hf]
  rw [wp_bind, wp_setMaintBuf, wp_ite]
  exact ⟨fun h => absurd h hx, fun _ => hq⟩

theorem wp_maintBufSetTimeout_idle {s : DsrNode} {b : ℕ} {Q : Unit → DsrNode → Prop} {E : Stop → Prop}
    (hb : s.budget = b + 1) (hf : s.maintBuf.find MaintEntry.ackReqSent = none) (hq : Q () s) :
    wp maintBufSetTimeout s Q E := by
  unfold maintBufSetTimeout
  rw [wp_bind, wp_get, hb]
  unfold maintBufSetTimeoutUnlocked
  rw [wp_bind, wp_get]
  simp only [hf]
  exact hq

def ackReqAdded (s : DsrNode) (n : Neighbor) (m : MaintEntry) : DsrNode :=
  { s with neighTbl := neighTblIssue s m.nxtHop
           maintBuf := { head := [m], len := 1, maxLen := maintBufMaxLen }
           ackTimer := some m.deadline
           out := s.out ++ [.ackReq m.nxtHop n.id] ++ [.maint s.now (.buffered m [])] }

theorem maintBufAdd_due (dp : DsrPkt) {s : DsrNode} {n : Neighbor} {skb : Skb} {b : ℕ}
    (hl : s.locking = false) (hb : s.budget = b + 1) (hempty : s.maintBuf = Tbl.init maintBufMaxLen)
    (hn : s.neighTbl.find (fun n => n.addr = dp.nxtHop) = some n) (hskb : dp.skb = some skb)
    (hreq : dp.requestAck = true) (hdue : ackDue s dp = true) (hrto : rtoOf s n < 2147483648) :
    ∃ dp' m, maintBufAdd maintBufSetTimeout dp s = .ok dp' (ackReqAdded s n m) ∧
      m.nxtHop = dp.nxtHop ∧ m.id = n.id := by
  suffices hw : wp (maintBufAdd maintBufSetTimeout dp) s (fun _ s' => ∃ m, s' = ackReqAdded s n m ∧
      m.nxtHop = dp.nxtHop ∧ m.id = n.id) fun _ => False by
    obtain ⟨dp', s', hrun, m, rfl, hm⟩ := ok_of_wp hw
    exact ⟨dp', m, hrun, hm⟩
  unfold ackDue at hdue
  rw [hn] at hdue
  unfold maintBufAdd kmalloc gettime
  simp only [wp_bind, wp_get, wp_pure]
  refine wp_neighTblQuery hl hn ?_
  simp only [maintEntryCreate, kmalloc, gettime, hskb, ofOption, confValToUsecs, confVal, wp_bind,
    wp_get, wp_pure, hreq, if_true]
  rw [if_pos (of_decide_eq_true hdue)]
  simp only [neighTblSetAckReqTime, neighTblIdInc, gettime, wp_bind, wp_get, wp_pure]
  refine wp_neighTblFindDo hl _ ?_
  refine wp_neighTblFindDo (by exact hl) _ ?_
  rw [wp_emit]
  unfold maintBufEnqueue
  refine wp_unlocked (by exact hl) ?_
  rw [wp_bind, wp_get, Tbl.addTail_of_lt _ (by rw [hempty]; decide)]
  simp only [wp_bind, emitMaint, wp_modify, wp_setMaintBuf, hempty]
  refine wp_maintBufSetTimeout_arm hb rfl ?_ ?_
  · rw [MaintEntry.expired_iff hrto, MaintEntry.deadline, timevalDiff_addUsecs, timevalDiff_self]
    omega
  · rw [release_unlocked]
    · exact ⟨{ maintEntryNew s n dp.nxtHop { dsrPktAlloc s.kmem skb with nxtHop := dp.nxtHop } with
          ackReqSent := true }, rfl, rfl, rfl⟩
    · exact hl

theorem maintBufAdd_holdoff (dp : DsrPkt) {s : DsrNode} {n : Neighbor} {skb : Skb} {b : ℕ}
    (hl : s.locking = false) (hb : s.budget = b + 1) (hempty : s.maintBuf = Tbl.init maintBufMaxLen)
    (hn : s.neighTbl.find (fun n => n.addr = dp.nxtHop) = some n) (hskb : dp.skb = some skb)
    (hreq : dp.requestAck = true) (hdue : ackDue s dp = false) :
    ∃ m, maintBufAdd maintBufSetTimeout dp s = .ok dp
        { s with maintBuf := { head := [m], len := 1, maxLen := maintBufMaxLen }
                 out := s.out ++ [.maint s.now (.buffered m [])] } ∧
      m.nxtHop = dp.nxtHop ∧ m.id = n.id ∧ m.ackReqSent = false ∧ m.born = s.out.length := by
  suffices hw : wp (maintBufAdd maintBufSetTimeout dp) s (fun dp' s' => ∃ m, dp' = dp ∧
      s' = { s with maintBuf := { head := [m], len := 1, maxLen := maintBufMaxLen }
                    out := s.out ++ [.maint s.now (.buffered m [])] } ∧
        m.nxtHop = dp.nxtHop ∧ m.id = n.id ∧ m.ackReqSent = false ∧ m.born = s.out.length)
      fun _ => False by
    obtain ⟨dp', s', hrun, m, rfl, rfl, hm⟩ := ok_of_wp hw
    exact ⟨m, hrun, hm⟩
  unfold ackDue at hdue
  rw [hn] at hdue
  unfold maintBufAdd kmalloc gettime
  simp only [wp_bind, wp_get, wp_pure]
  refine wp_neighTblQuery hl hn ?_
  simp only [maintEntryCreate, kmalloc, gettime, hskb, ofOption, confValToUsecs, confVal, wp_bind,
    wp_get, wp_pure, hreq, if_true]
  rw [if_neg (of_decide_eq_false hdue)]
  unfold maintBufEnqueue
  rw [wp_bind]
  refine wp_unlocked hl ?_
  rw [wp_bind, wp_get, Tbl.addTail_of_lt _ (by rw [hempty]; decide)]
  simp only [wp_bind, emitMaint, wp_modify, wp_setMaintBuf, hempty]
  refine wp_maintBufSetTimeout_idle hb rfl ?_
  rw [release_unlocked]
  · exact ⟨maintEntryNew s n dp.nxtHop { dsrPktAlloc s.kmem skb with nxtHop := dp.nxtHop },
      rfl, rfl, rfl, rfl, rfl, rfl⟩
  · exact hl

theorem wp_ack_idle {s : DsrNode} {dp : DsrPkt} {p : OptPtr} {b : ℕ}
    {Q : List DsrPktAction → DsrNode → Prop} {E : Stop → Prop} (hl : s.locking = false)
    (hb : s.budget = b + 1) (hdst : dp.addrField p 8 = s.ifaddr)
    (hf : (maintBufAcked s (dp.addrField p 4) (dp.be16Field p 2)).maintBuf.find
      MaintEntry.ackReqSent = none)
    (hq : Q [.none] (maintBufAcked s (dp.addrField p 4) (dp.be16Field p 2))) :
    wp (dsrAckOptRecv dp p) s Q E := by
  unfold dsrAckOptRecv myAddr
  rw [wp_bind, wp_bind, wp_get, wp_pure, if_neg (not_not.mpr hdst), wp_bind]
  unfold maintBufDelAllId
  refine wp_unlocked hl ?_
  simp only [wp_bind, wp_setAckTimer, emitMaint, wp_modify, wp_get, wp_setMaintBuf, wp_pure]
  unfold maintBufAcked at hf hq
  dsimp only at hf hq
  split
  · next hrtt =>
    rw [if_pos hrtt] at hq
    rw [wp_bind]
    refine wp_neighTblFindDo (by exact hl) _ (wp_maintBufSetTimeout_idle hb hf ?_)
    rw [release_unlocked]
    · exact hq
    · exact hl
  · next hrtt =>
    rw [if_neg hrtt] at hq
    refine wp_maintBufSetTimeout_idle hb hf ?_
    rw [release_unlocked]
    · exact hq
    · exact hl

def pingAck (id : ℕ) : DsrPkt :=
  { dh := some { raw := optHdrBytes 16 dsrNoNextHdrType ++ ackOptBytes (detourHost 2) (detourHost 1) id
                 tail := 16 } }

def pingPtr : OptPtr := { gen := 0, off := dsrOptHdrLen }

theorem pingAck_id {id : ℕ} (h : id < 65536) : (pingAck id).be16Field pingPtr 2 = id := by
  have hbytes : (pingAck id).be16Field pingPtr 2 =
      Bytes.be16 ((Bytes.toBe16 (id % 65536)).getD 0 0) ((Bytes.toBe16 (id % 65536)).getD 1 0) := rfl
  rw [hbytes, Nat.mod_eq_of_lt h, Bytes.be16_toBe16 id h]

structure Pinged (k : ℕ) (s : DsrNode) : Prop where
  reach : MaintReach anyEnv anyMaint s
  ifaddr : s.ifaddr = detourHost 1
  locking : s.locking = false
  budget : s.budget = 1
  confvals : s.confvals = confvalsDef
  maintBuf : s.maintBuf = Tbl.init maintBufMaxLen
  neighbor : ∃ n, s.neighTbl.find (fun n => n.addr = detourHost 2) = some n ∧ n.lastAckReq = s.now
  requests : ackReqCount (detourHost 2) s.out = k

theorem pinged_zero : ∃ s, Pinged 0 s := by
  refine ⟨neighTblAdded (dsrNodeInit (detourHost 1) confvalsDef false 1 ⟨0, 0⟩ (fun _ => 0) 0)
    (detourHost 2) 2, ?_, rfl, rfl, rfl, rfl, rfl, ⟨neighTblCreate (detourHost 2) 2 1, rfl, rfl⟩, rfl⟩
  have hinit : MaintReach anyEnv anyMaint
    (dsrNodeInit (detourHost 1) confvalsDef false 1 ⟨0, 0⟩ (fun _ => 0) 0) := .init _ _ _ _ _ _ _
  exact hinit.step (.neighAdd (detourHost 2) 2) trivial rfl

theorem pinged_of_due {k : ℕ} {s : DsrNode} {n : Neighbor} (h : MaintReach anyEnv anyMaint s)
    (hme : s.ifaddr = detourHost 1) (hl : s.locking = false) (hb : s.budget = 1)
    (hconf : s.confvals = confvalsDef) (hempty : s.maintBuf = Tbl.init maintBufMaxLen)
    (hn : s.neighTbl.find (fun n => n.addr = detourHost 2) = some n)
    (hdue : ackDue s (hopPkt (detourHost 2)) = true) (hk : ackReqCount (detourHost 2) s.out = k) :
    ∃ s', Pinged (k + 1) s' := by
  have hrto : rtoOf s n < 2147483648 := by
    have hfixed : usecsOf .roundTripTimeout (confvalsDef .roundTripTimeout) = 2000000 := by decide
    unfold rtoOf
    rw [hconf, hfixed, if_neg (by decide)]
    decide
  obtain ⟨dp', m, hadd, hop, hid⟩ := maintBufAdd_due (hopPkt (detourHost 2)) hl hb hempty hn rfl
    (by decide +kernel) hdue hrto
  replace hop : m.nxtHop = detourHost 2 := hop
  have hadded : MaintReach anyEnv anyMaint (ackReqAdded s n m) := by
    refine h.step (.add (hopPkt (detourHost 2))) trivial ?_
    change (maintBufAdd _ _ >>= fun _ => pure ()) _ = _
    rw [bind_of_ok hadd]
    rfl
  have hmid : m.id < 65536 := by
    rw [hid, ((maintReach_purges h).neighbors _).1 n hn]
    exact Nat.mod_lt _ (by decide)
  have hcleared : (maintBufAcked (ackReqAdded s n m) (detourHost 2) m.id).maintBuf =
      Tbl.init maintBufMaxLen := by
    simp [maintBufAcked, ackReqAdded, Tbl.forEachDel, Tbl.init, hop]
  have hack : wp (dsrAckOptRecv (pingAck m.id) pingPtr) (ackReqAdded s n m)
      (fun _ s' => s' = maintBufAcked (ackReqAdded s n m) (detourHost 2) m.id) fun _ => False := by
    refine wp_ack_idle (b := 0) hl hb hme.symm ?_ ?_
    · rw [pingAck_id hmid]
      change (maintBufAcked _ (detourHost 2) _).maintBuf.find _ = _
      rw [hcleared]
      rfl
    · rw [pingAck_id hmid]
      rfl
  obtain ⟨act, s', hrun, hs'⟩ := ok_of_wp hack
  have hreach : MaintReach anyEnv anyMaint s' := by
    refine hadded.step (.ack (pingAck m.id) pingPtr) trivial ?_
    change (dsrAckOptRecv _ _ >>= fun _ => pure ()) _ = _
    rw [bind_of_ok hrun]
    rfl
  have hfind : (ackReqAdded s n m).neighTbl.find (fun n => n.addr = detourHost 2) =
      some { n with lastAckReq := s.now, id := (n.id + 1) % 65536 } := by
    change (neighTblIssue s m.nxtHop).find _ = _
    rw [hop, PurgeInv.find_issue, if_pos rfl, hn]
    rfl
  subst hs'
  refine ⟨_, ⟨hreach, hme, hl, hb, hconf, hcleared, ?_, ?_⟩⟩
  · unfold maintBufAcked
    dsimp only
    split
    · rw [neighTbl_find_findDo fun n => (rtoCalc_same _ n).1, if_pos rfl, hfind]
      exact ⟨_, rfl, rfl⟩
    · exact ⟨_, hfind, rfl⟩
  · change ackReqCount _ ((s.out ++ [.ackReq m.nxtHop n.id] ++ [_]) ++ [_]) = _
    rw [ackReqCount_append, ackReqCount_append, ackReqCount_append, hk, hop]
    rfl

theorem Pinged.next {k : ℕ} {s : DsrNode} (h : Pinged k s) : ∃ s', Pinged (k + 1) s' := by
  obtain ⟨n, hn, hlast⟩ := h.neighbor
  have hlater : MaintReach anyEnv anyMaint { s with now := ⟨s.now.tvSec + 1, s.now.tvUsec⟩ } :=
    h.reach.env ⟨rfl, rfl, rfl, rfl, [], by simp, fun _ he => absurd he List.not_mem_nil⟩ trivial
  have hdiff : timevalDiff ⟨s.now.tvSec + 1, s.now.tvUsec⟩ s.now = 1000000 := by
    simp only [timevalDiff]
    omega
  refine pinged_of_due hlater h.ifaddr h.locking h.budget h.confvals h.maintBuf hn (by
    unfold ackDue
    have hn' : s.neighTbl.find (fun n => n.addr = (hopPkt (detourHost 2)).nxtHop) = some n := hn
    simp only [hn', hlast, hdiff, h.confvals]
    decide) h.requests

theorem pinged (k : ℕ) : ∃ s, Pinged k s := by
  induction k with
  | zero => exact pinged_zero
  | succ k ih =>
    obtain ⟨s, h⟩ := ih
    exact h.next

theorem exists_first_request (nxtHop : InAddr) : ∀ out : List Event, 0 < ackReqCount nxtHop out →
    ∃ i id, out[i]? = some (.ackReq nxtHop id) ∧ ackReqCount nxtHop (out.take i) = 0 := by
  intro out
  induction out with
  | nil => exact fun h => absurd h (Nat.lt_irrefl 0)
  | cons e out ih =>
    intro h
    unfold ackReqCount at h
    rw [List.countP_cons] at h
    by_cases he : e.ackReqTo nxtHop = true
    · unfold Event.ackReqTo at he
      split at he
      · next a id =>
        obtain rfl := of_decide_eq_true he
        exact ⟨0, id, rfl, rfl⟩
      · cases he
    · rw [if_neg he, Nat.add_zero] at h
      obtain ⟨i, id, hi, hcount⟩ := ih h
      refine ⟨i + 1, id, hi, ?_⟩
      rw [List.take_succ_cons, ackReqCount, List.countP_cons, if_neg he, Nat.add_zero]
      exact hcount

theorem ack_purges_early : ¬ ∀ (s s' : DsrNode) (dp : DsrPkt) (p : OptPtr) (act : List DsrPktAction)
    (nxtHop : InAddr) (id i : ℕ), MaintReach anyEnv anyMaint s →
      s.out[i]? = some (.ackReq nxtHop id) → dp.addrField p 8 = s.ifaddr →
      dp.addrField p 4 = nxtHop → dp.be16Field p 2 = id → dsrAckOptRecv dp p s = .ok act s' →
      PurgedExactly s nxtHop i (maintBufPurged s nxtHop id).maintBuf := by
  intro hall
  obtain ⟨s, h⟩ := pinged 65535
  obtain ⟨n, hn, hlast⟩ := h.neighbor
  have hid := ((maintReach_purges h.reach).neighbors _).1 n hn
  rw [h.requests] at hid
  have hdue : ackDue s (hopPkt (detourHost 2)) = false := by
    unfold ackDue
    have hn' : s.neighTbl.find (fun n => n.addr = (hopPkt (detourHost 2)).nxtHop) = some n := hn
    simp only [hn']
    rw [hlast, timevalDiff_self, h.confvals]
    decide
  obtain ⟨m, hadd, hop, hmid, hack, hborn⟩ := maintBufAdd_holdoff (hopPkt (detourHost 2))
    h.locking h.budget h.maintBuf hn rfl (by decide +kernel) hdue
  have hop : m.nxtHop = detourHost 2 := hop
  obtain ⟨t, ht⟩ : ∃ t, t = { s with
      maintBuf := ({ head := [m], len := 1, maxLen := maintBufMaxLen } : Tbl MaintEntry)
      out := s.out ++ [Event.maint s.now (.buffered m [])] } := ⟨_, rfl⟩
  rw [← ht] at hadd
  have hreach : MaintReach anyEnv anyMaint t := by
    refine h.reach.step (.add (hopPkt (detourHost 2))) trivial ?_
    change (maintBufAdd _ _ >>= fun _ => pure ()) _ = _
    rw [bind_of_ok hadd]
    rfl
  obtain ⟨i, id, hi, hfirst⟩ := exists_first_request (detourHost 2) s.out (by rw [h.requests]; decide)
  have hlt : i < s.out.length := (List.getElem?_eq_some_iff.mp hi).1
  obtain rfl : id = 1 := by
    rw [(maintReach_purges h.reach).requests i _ id hi, requestNo, hfirst]
  have hpid : (pingAck 1).be16Field pingPtr 2 = 1 := pingAck_id (by decide)
  have hempty : (maintBufAcked t (detourHost 2) 1).maintBuf.head = [] := by
    rw [ht]
    simp [maintBufAcked, Tbl.forEachDel, hop, hmid, hid]
  obtain ⟨act, s', hrun, -⟩ : ∃ act s', dsrAckOptRecv (pingAck 1) pingPtr t = .ok act s' ∧ True := by
    refine ok_of_wp (wp_ack_idle (b := 0) (by rw [ht]; exact h.locking) (by rw [ht]; exact h.budget)
      (by rw [ht]; exact h.ifaddr.symm) ?_ trivial)
    rw [hpid]
    change (maintBufAcked _ (detourHost 2) _).maintBuf.find _ = _
    rw [Tbl.find, hempty]
    rfl
  have hpurged := hall t s' (pingAck 1) pingPtr act (detourHost 2) 1 i hreach
    (by rw [ht]; exact (List.getElem?_append_left hlt).trans hi) (by rw [ht]; exact h.ifaddr.symm) rfl hpid hrun
  have hkept : m ∈ t.maintBuf.head.filter fun m => !(m.nxtHop = detourHost 2 && m.born ≤ i) := by
    rw [ht]
    simp [hop, hborn, hlt]
  unfold PurgedExactly at hpurged
  rw [← hpurged] at hkept
  change m ∈ (maintBufAcked t (detourHost 2) 1).maintBuf.head at hkept
  rw [hempty] at hkept
  cases hkept

def okRun {α : Type} (m : DsrM α) (s : DsrNode) : Bool :=
  match m s with
  | .ok _ _ => true
  | .error _ _ => false

theorem okRun_ok {α : Type} {m : DsrM α} {s : DsrNode} (h : okRun m s = true) :
    ∃ a s', m s = .ok a s' := by
  unfold okRun at h
  split at h
  · next a s' hm => exact ⟨a, s', hm⟩
  · cases h

theorem ack_purges_iff_first : ∃ s s' act, MaintReach anyEnv anyMaint s ∧
    (∃ m ∈ s.maintBuf.head, m.nxtHop = detourHost 2) ∧
    dsrAckOptRecv (pingAck 1) pingPtr s = .ok act s' ∧
    PurgedExactly s (detourHost 2) 0 (maintBufPurged s (detourHost 2) 1).maintBuf := by
  have hrun : (maintDrive (hopStart 2000) loneHop).any (fun s =>
      s.ifaddr = detourHost 1 && s.out[0]? = some (.ackReq (detourHost 2) 1) &&
        okRun (dsrAckOptRecv (pingAck 1) pingPtr) s &&
        s.maintBuf.head.any (fun m => m.nxtHop = detourHost 2) &&
        s.maintBuf.head.all fun m => requestNo (detourHost 2) s.out m.born = 1) = true := by
    decide +kernel
  obtain ⟨s, hs, hb⟩ := (Option.any_eq_true _ _).mp hrun
  simp only [Bool.and_eq_true, decide_eq_true_eq] at hb
  obtain ⟨⟨⟨⟨hme, hreq⟩, hok⟩, hany⟩, hall⟩ := hb
  obtain ⟨act, s', hack⟩ := okRun_ok hok
  have hreach : MaintReach anyEnv anyMaint s := .drive _ (.init _ _ _ _ _ _ _) hs
  have hdst : (pingAck 1).addrField pingPtr 8 = s.ifaddr := hme.symm
  have hiff := ack_purges_iff hreach hreq hdst rfl (pingAck_id (by decide)) hack
  refine ⟨s, s', act, hreach, by simpa using hany, hack, hiff.2.mpr fun m hm _ => ?_⟩
  rw [of_decide_eq_true (List.all_eq_true.mp hall m hm)]
  change IdsInOrder 1 1
  decide

end DsrUu
