import DsrUu.Node.RreqTbl
import Mathlib.Data.List.DropRight

namespace DsrUu

open Effect

structure RreqUse where
  addr : InAddr
  recorded : Option IdEntry

def recent : List RreqUse → List InAddr
  | [] => []
  | u :: past => u.addr :: (recent past).filter (· ≠ u.addr)

def window (M : ℕ) (past : List RreqUse) : List InAddr := (recent past).take M

def recordedFor (M : ℕ) (i : InAddr) : List RreqUse → List IdEntry
  | [] => []
  | u :: past =>
      if u.addr = i then (if i ∈ window M past then recordedFor M i past else []) ++ u.recorded.toList
      else recordedFor M i past

inductive RreqRun (M K : ℕ) : DsrNode → List RreqUse → Prop
  | init {s : DsrNode} : s.rreqTbl = Tbl.init M → s.confvals .requestTableIds = K → s.held = [] →
      RreqRun M K s []
  | env {s s' : DsrNode} {past : List RreqUse} : RreqRun M K s past → s'.rreqTbl = s.rreqTbl →
      s'.rreqBrk = s.rreqBrk → s'.confvals .requestTableIds = K → s'.held = [] → RreqRun M K s' past
  | duplicate {s s' : DsrNode} {past : List RreqUse} (i t : InAddr) (id : ℕ) : RreqRun M K s past →
      dsrRreqDuplicate i t (id % 65536) s = .ok true s' → RreqRun M K s' past
  | record {s s₁ s' : DsrNode} {past : List RreqUse} (i t : InAddr) (id : ℕ) : RreqRun M K s past →
      dsrRreqDuplicate i t (id % 65536) s = .ok false s₁ →
      rreqTblAddId i t (id % 65536) s₁ = .ok () s' → RreqRun M K s' (⟨i, some ⟨t, id % 65536⟩⟩ :: past)
  | discover {s s' : DsrNode} {past : List RreqUse} (t : InAddr) : RreqRun M K s past →
      dsrRreqRouteDiscovery t s = .ok () s' → RreqRun M K s' (⟨t, none⟩ :: past)
  | timeout {s s' : DsrNode} {past : List RreqUse} (e : RreqTblEntry) : RreqRun M K s past →
      e ∈ s.rreqTbl.head → e.timer.isSome → rreqTblTimeout e.ref s = .ok () s' →
      RreqRun M K s' (⟨e.nodeAddr, none⟩ :: past)
  | cancel {s s' : DsrNode} {past : List RreqUse} (d : InAddr) : RreqRun M K s past →
      rreqTblRouteDiscoveryCancel d s = .ok () s' →
      RreqRun M K s' (if (s.rreqFind d).isSome then ⟨d, none⟩ :: past else past)

section Lists

theorem take_filter_ne {α : Type} [DecidableEq α] (a : α) (xs : List α) : ∀ m, xs.Nodup →
    (xs.filter (· ≠ a)).take m =
      if a ∈ xs.take (m + 1) then (xs.take (m + 1)).filter (· ≠ a) else xs.take m := by
  induction xs with
  | nil => simp
  | cons x xs ih =>
    intro m hn
    rw [List.nodup_cons] at hn
    by_cases hx : x = a
    · subst hx
      have hself : ∀ l : List α, l.Sublist xs → l.filter (· ≠ x) = l := fun l hl =>
        List.filter_eq_self.mpr fun y hy => decide_eq_true fun he => hn.1 (hl.subset (he ▸ hy))
      rw [List.filter_cons_of_neg (by simp), List.take_succ_cons, if_pos List.mem_cons_self,
        List.filter_cons_of_neg (by simp), hself xs (List.Sublist.refl _), hself _ (List.take_sublist _ _)]
    · have hne : a ≠ x := fun h => hx h.symm
      rw [List.filter_cons_of_pos (by simpa using hx), List.take_succ_cons]
      cases m with
      | zero => simp [hne]
      | succ k =>
        rw [List.take_succ_cons, ih k hn.2, List.take_succ_cons]
        by_cases hm : a ∈ xs.take (k + 1)
        · rw [if_pos hm, if_pos (List.mem_cons_of_mem _ hm), List.filter_cons_of_pos (by simpa using hx)]
        · rw [if_neg hm, if_neg fun h => hm ((List.mem_cons.mp h).resolve_left hne)]

theorem rtake_rtake_append {α : Type} (k : ℕ) (xs ys : List α) :
    ((xs.rtake k) ++ ys).rtake k = (xs ++ ys).rtake k := by
  unfold List.rtake
  simp only [List.length_append, List.length_drop, List.drop_append, List.drop_drop]
  congr 1
  · congr 1
    omega
  · congr 1
    omega

theorem recent_nodup (past : List RreqUse) : (recent past).Nodup := by
  induction past with
  | nil => exact List.nodup_nil
  | cons u past ih =>
    rw [recent, List.nodup_cons]
    refine ⟨fun h => ?_, ih.filter _⟩
    have := (List.mem_filter.mp h).2
    simp at this

end Lists

structure RreqRefines (M K : ℕ) (s : DsrNode) (past : List RreqUse) : Prop where
  wf : RreqWf s
  maxLen : s.rreqTbl.maxLen = M
  ids : s.confvals .requestTableIds = K
  held : s.held = []
  addrs : s.rreqTbl.head.map RreqTblEntry.nodeAddr = (window M past).reverse
  idTbl : ∀ e ∈ s.rreqTbl.head, e.rreqIdTbl.maxLen = K ∧ e.rreqIdTbl.len = e.rreqIdTbl.head.length ∧
    e.rreqIdTbl.head.length ≤ K
  lists : ∀ e ∈ s.rreqTbl.head, e.rreqIdTbl.head = (recordedFor M e.nodeAddr past).rtake K
  once : ∀ e ∈ s.rreqTbl.head, e.rreqIdTbl.head.Nodup

structure Records (K : ℕ) (u : Option IdEntry) (f : RreqTblEntry → RreqTblEntry) : Prop where
  addr : ∀ e, (f e).nodeAddr = e.nodeAddr
  ref : ∀ e, (f e).ref = e.ref
  idTbl : ∀ e : RreqTblEntry, e.rreqIdTbl.maxLen = K → e.rreqIdTbl.len = e.rreqIdTbl.head.length →
    e.rreqIdTbl.head.length ≤ K → (f e).rreqIdTbl =
      { head := (e.rreqIdTbl.head ++ u.toList).rtake K
        len := ((e.rreqIdTbl.head ++ u.toList).rtake K).length, maxLen := K }

theorem Records.keep {K : ℕ} {f : RreqTblEntry → RreqTblEntry} (haddr : ∀ e, (f e).nodeAddr = e.nodeAddr)
    (href : ∀ e, (f e).ref = e.ref) (hids : ∀ e, (f e).rreqIdTbl = e.rreqIdTbl) : Records K none f := by
  refine ⟨haddr, href, fun e hm hl hk => ?_⟩
  have hself : (e.rreqIdTbl.head ++ (none : Option IdEntry).toList).rtake K = e.rreqIdTbl.head := by
    rw [Option.toList_none, List.append_nil, List.rtake, Nat.sub_eq_zero_of_le hk, List.drop_zero]
  rw [hids, hself, ← hm, ← hl]

theorem noteId_records {K : ℕ} (hK : 1 ≤ K) (now : Timeval) (i : IdEntry) :
    Records K (some i) (noteId now i) := by
  refine ⟨fun e => ?_, noteId_ref now i, fun e hm hl hk => ?_⟩
  · unfold noteId
    split <;> rfl
  · unfold noteId Tbl.full
    rw [hm, hl, Option.toList_some]
    by_cases hfull : K ≤ e.rreqIdTbl.head.length
    · obtain ⟨x, xs, hxs⟩ := List.exists_cons_of_length_pos (by omega : 0 < e.rreqIdTbl.head.length)
      have hlen : xs.length + 1 = K := by
        rw [hxs, List.length_cons] at hfull hk
        omega
      have htake : (x :: xs ++ [i]).rtake K = xs ++ [i] := by
        rw [List.rtake, List.cons_append, List.length_cons, List.length_append, List.length_singleton]
        rw [show xs.length + 1 + 1 - K = 1 by omega]
        rfl
      rw [if_pos (decide_eq_true hfull)]
      unfold idTblAddTail idTblDelFirst Tbl.detachFirst
      dsimp only
      rw [hxs, htake]
      dsimp only [Option.map_some, Option.getD_some]
      rw [Tbl.addTail_of_lt]
      · dsimp only [Option.getD_some]
        rw [hm, hl, hxs, List.length_append, List.length_cons, List.length_singleton, Nat.add_sub_cancel]
      · dsimp only
        rw [hm, hl, hxs, List.length_cons]
        omega
    · have htake : (e.rreqIdTbl.head ++ [i]).rtake K = e.rreqIdTbl.head ++ [i] := by
        rw [List.rtake, List.length_append, List.length_singleton, Nat.sub_eq_zero_of_le (by omega), List.drop_zero]
      rw [if_neg (by rw [decide_eq_true_eq]; exact hfull), htake]
      unfold idTblAddTail
      dsimp only
      rw [Tbl.addTail_of_lt _ (by rw [hm, hl]; omega), Option.getD_some, hm, hl, List.length_append,
        List.length_singleton]

section Refines

variable {M K : ℕ} {s s' : DsrNode} {past : List RreqUse}

theorem RreqRefines.mem_window (h : RreqRefines M K s past) {i : InAddr} :
    i ∈ window M past ↔ (s.rreqFind i).isSome := by
  rw [← List.mem_reverse, ← h.addrs, List.mem_map]
  constructor
  · rintro ⟨e, he, rfl⟩
    rw [rreqFind_of_mem h.wf he]
    rfl
  · intro hs
    obtain ⟨e, he⟩ := Option.isSome_iff_exists.mp hs
    exact ⟨e, rreqFind_mem he⟩

theorem RreqRefines.others (h : RreqRefines M K s past) (a : InAddr) :
    (s.rreqOthers a).map RreqTblEntry.nodeAddr = (((recent past).filter (· ≠ a)).take (M - 1)).reverse := by
  have hM := h.wf.pos
  rw [h.maxLen] at hM
  have hlen : s.rreqTbl.head.length = ((recent past).take M).length := by
    rw [← List.length_map (f := RreqTblEntry.nodeAddr), h.addrs, List.length_reverse, window]
  have htake := take_filter_ne a (recent past) (M - 1) (recent_nodup past)
  rw [show M - 1 + 1 = M by omega] at htake
  rw [htake]
  cases hf : s.rreqFind a with
  | some e =>
    have hmem : a ∈ (recent past).take M := h.mem_window.mpr (by rw [hf]; rfl)
    rw [if_pos hmem, ← List.filter_reverse, ← window, ← h.addrs, List.filter_map, ← rreqOthers_found h.wf hf,
      eraseP_eq_filter RreqTblEntry.nodeAddr _ _ h.wf.addrs]
    rfl
  | none =>
    have hmem : a ∉ (recent past).take M := fun hm => by
      have := h.mem_window.mp hm
      rw [hf] at this
      cases this
    rw [if_neg hmem, rreqOthers_missing hf, h.maxLen]
    split
    · next hfull =>
      rw [hlen, List.length_take] at hfull
      rw [List.map_tail, h.addrs, window, List.tail_reverse, List.dropLast_eq_take, List.take_take,
        List.length_take, show min (min M (recent past).length - 1) M = M - 1 by omega]
    · next hfull =>
      rw [hlen, List.length_take] at hfull
      rw [h.addrs, window, List.take_of_length_le (by omega), List.take_of_length_le (by omega)]

theorem RreqRefines.touched (h : RreqRefines M K s past) {a : InAddr} {u : Option IdEntry}
    {f : RreqTblEntry → RreqTblEntry} (hf : Records K u f)
    (hnew : ∀ i ∈ u, ∀ e ∈ s.rreqTbl.head, e.nodeAddr = a → i ∉ e.rreqIdTbl.head)
    (htbl : s'.rreqTbl = (s.touched a f).rreqTbl) (hbrk : s'.rreqBrk = (s.touched a f).rreqBrk)
    (hids : s'.confvals .requestTableIds = K) (hheld : s'.held = []) :
    RreqRefines M K s' (⟨a, u⟩ :: past) := by
  have hM := h.wf.pos
  rw [h.maxLen] at hM
  have hwf := h.wf.touched a hf.addr hf.ref
  have hhead : s'.rreqTbl.head = s.rreqOthers a ++ [f (s.rreqEntry a)] := by rw [htbl]; rfl
  have hentry : (s.rreqEntry a).rreqIdTbl.maxLen = K ∧
      (s.rreqEntry a).rreqIdTbl.len = (s.rreqEntry a).rreqIdTbl.head.length ∧
      (s.rreqEntry a).rreqIdTbl.head.length ≤ K ∧ (s.rreqEntry a).rreqIdTbl.head =
        (if a ∈ window M past then recordedFor M a past else []).rtake K ∧
      (s.rreqEntry a).rreqIdTbl.head.Nodup ∧ ∀ i ∈ u, i ∉ (s.rreqEntry a).rreqIdTbl.head := by
    unfold DsrNode.rreqEntry
    cases hfa : s.rreqFind a with
    | some e =>
      obtain ⟨hm, ha⟩ := rreqFind_mem hfa
      have hid := h.idTbl e hm
      rw [if_pos (h.mem_window.mpr (by rw [hfa]; rfl)), Option.getD_some]
      refine ⟨hid.1, hid.2.1, hid.2.2, ?_, h.once e hm, fun i hi => hnew i hi e hm ha⟩
      rw [h.lists e hm, ha]
    | none =>
      have hno : a ∉ window M past := fun hm => by
        have := h.mem_window.mp hm
        rw [hfa] at this
        cases this
      rw [if_neg hno, Option.getD_none, List.rtake_nil]
      exact ⟨h.ids, rfl, Nat.zero_le _, rfl, List.nodup_nil, fun _ _ => List.not_mem_nil⟩
  obtain ⟨hm, hl, hk, hlist, honce, hfresh⟩ := hentry
  have hid := hf.idTbl _ hm hl hk
  refine ⟨⟨?_, ?_, ?_, ?_, ?_, ?_⟩, ?_, hids, hheld, ?_, ?_, ?_, ?_⟩
  · rw [htbl]; exact hwf.pos
  · rw [htbl]; exact hwf.len
  · rw [htbl]; exact hwf.bound
  · rw [htbl]; exact hwf.addrs
  · rw [htbl]; exact hwf.refs
  · rw [htbl, hbrk]; exact hwf.brk
  · rw [htbl]; exact h.maxLen
  · rw [hhead, List.map_append, h.others, List.map_singleton, hf.addr, rreqEntry_addr, window, recent,
      show M = M - 1 + 1 by omega, List.take_succ_cons, List.reverse_cons]
    rfl
  · intro e he
    rw [hhead] at he
    rcases List.mem_append.mp he with he | he
    · exact h.idTbl e (mem_rreqOthers he).1
    · rw [List.mem_singleton.mp he, hid]
      refine ⟨rfl, rfl, ?_⟩
      dsimp only [List.rtake]
      rw [List.length_drop]
      omega
  · intro e he
    rw [hhead] at he
    rcases List.mem_append.mp he with he | he
    · obtain ⟨hmem, hne⟩ := mem_rreqOthers he
      rw [h.lists e hmem, recordedFor, if_neg fun heq => hne heq.symm]
    · rw [List.mem_singleton.mp he, hf.addr, rreqEntry_addr, hid, recordedFor, if_pos rfl]
      dsimp only
      rw [hlist, rtake_rtake_append]
  · intro e he
    rw [hhead] at he
    rcases List.mem_append.mp he with he | he
    · exact h.once e (mem_rreqOthers he).1
    · rw [List.mem_singleton.mp he, hid]
      dsimp only [List.rtake]
      refine List.Nodup.sublist (List.drop_sublist _ _) ?_
      cases u with
      | none => simpa using honce
      | some i =>
        rw [Option.toList_some, List.nodup_append]
        refine ⟨honce, List.nodup_singleton i, fun x hx y hy hxy => ?_⟩
        rw [List.mem_singleton.mp hy] at hxy
        exact hfresh i rfl (hxy ▸ hx)

theorem RreqRefines.env (h : RreqRefines M K s past) (htbl : s'.rreqTbl = s.rreqTbl)
    (hbrk : s'.rreqBrk = s.rreqBrk) (hids : s'.confvals .requestTableIds = K) (hheld : s'.held = []) :
    RreqRefines M K s' past := by
  refine ⟨⟨?_, ?_, ?_, ?_, ?_, ?_⟩, ?_, hids, hheld, ?_, ?_, ?_, ?_⟩
  · rw [htbl]; exact h.wf.pos
  · rw [htbl]; exact h.wf.len
  · rw [htbl]; exact h.wf.bound
  · rw [htbl]; exact h.wf.addrs
  · rw [htbl]; exact h.wf.refs
  · rw [htbl, hbrk]; exact h.wf.brk
  · rw [htbl]; exact h.maxLen
  · rw [htbl]; exact h.addrs
  · rw [htbl]; exact h.idTbl
  · rw [htbl]; exact h.lists
  · rw [htbl]; exact h.once

theorem RreqRefines.duplicate (h : RreqRefines M K s past) (i t : InAddr) (id : ℕ) :
    dsrRreqDuplicate i t id s =
      .ok (decide (i ∈ window M past ∧ ⟨t, id⟩ ∈ (recordedFor M i past).rtake K)) s := by
  have hwp := dsrRreqDuplicate_wp h.held i t id
  unfold wp at hwp
  split at hwp
  · next r s₁ hrun =>
    obtain ⟨rfl, rfl⟩ := hwp
    rw [hrun]
    congr 1
    rw [Bool.eq_iff_iff, decide_eq_true_eq, Tbl.find, List.find?_isSome]
    constructor
    · rintro ⟨e, he, hp⟩
      simp only [Bool.and_eq_true, decide_eq_true_eq, List.any_eq_true] at hp
      obtain ⟨rfl, x, hx, rfl, rfl⟩ := hp
      refine ⟨h.mem_window.mpr (by rw [rreqFind_of_mem h.wf he]; rfl), ?_⟩
      rw [← h.lists e he]
      exact hx
    · rintro ⟨hi, hx⟩
      obtain ⟨e, he⟩ := Option.isSome_iff_exists.mp (h.mem_window.mp hi)
      obtain ⟨hm, rfl⟩ := rreqFind_mem he
      rw [← h.lists e hm] at hx
      refine ⟨e, hm, ?_⟩
      simp only [Bool.and_eq_true, decide_eq_true_eq, List.any_eq_true]
      exact ⟨trivial, _, hx, rfl, rfl⟩
  · exact hwp.elim

theorem RreqRun.refines (hM : 1 ≤ M) (hK : 1 ≤ K) (h : RreqRun M K s past) : RreqRefines M K s past := by
  induction h with
  | init ht hids hheld =>
    refine ⟨⟨?_, ?_, ?_, ?_, ?_, ?_⟩, ?_, hids, hheld, ?_, ?_, ?_, ?_⟩ <;> rw [ht]
    · exact hM
    · rfl
    · exact Nat.zero_le _
    · exact List.nodup_nil
    · exact List.nodup_nil
    · exact fun e he => absurd he List.not_mem_nil
    · rfl
    · exact (congrArg List.reverse List.take_nil).symm
    · exact fun e he => absurd he List.not_mem_nil
    · exact fun e he => absurd he List.not_mem_nil
    · exact fun e he => absurd he List.not_mem_nil
  | env _ htbl hbrk hids hheld ih => exact ih.env htbl hbrk hids hheld
  | duplicate i t id _ hrun ih =>
    rw [ih.duplicate] at hrun
    injection hrun with _ hs
    subst hs
    exact ih
  | record i t id _ hdup hrun ih =>
    rw [ih.duplicate] at hdup
    injection hdup with hno hs
    subst hs
    rw [decide_eq_false_iff_not] at hno
    have hs' := wp_ok (rreqTblAddId_wp ih.wf ih.held t (id % 65536)) hrun
    rw [Nat.mod_mod] at hs'
    subst hs'
    refine ih.touched (noteId_records hK _ _) ?_ rfl rfl ih.ids ih.held
    rintro _ ⟨⟩ e he rfl hin
    refine hno ⟨ih.mem_window.mpr (by rw [rreqFind_of_mem ih.wf he]; rfl), ?_⟩
    rw [← ih.lists e he]
    exact hin
  | @discover s₀ _ _ t _ hrun ih =>
    obtain ⟨hbusy, hstart⟩ := wp_ok (dsrRreqRouteDiscovery_wp ih.wf ih.held) hrun
    by_cases hst : (s₀.rreqEntry t).state = .inRouteDisc
    · have hk : Records K none id := Records.keep (fun _ => rfl) (fun _ => rfl) fun _ => rfl
      rw [hbusy hst]
      exact ih.touched hk nofun rfl rfl ih.ids ih.held
    · have hk : ∀ now timeout, Records K none (startDisc now timeout) := fun _ _ =>
        Records.keep (fun _ => rfl) (fun _ => rfl) fun _ => rfl
      obtain ⟨dp, due, tail, -, rfl, -⟩ := (hstart hst).dp
      exact ih.touched (hk _ _) nofun rfl rfl ih.ids ih.held
  | @timeout s₀ _ _ e _ he _ hrun ih =>
    obtain ⟨hmax, hretry⟩ := wp_ok (rreqTblTimeout_wp ih.wf ih.held he) hrun
    rcases Nat.lt_or_ge e.numRexmts (s₀.confvals .maxRequestRexmt) with hlt | hge
    · have hk : ∀ now maxPeriod, Records K none (retryDisc now maxPeriod) := fun _ _ =>
        Records.keep (fun _ => rfl) (fun _ => rfl) fun _ => rfl
      obtain ⟨s₁, hsent, rfl⟩ := hretry hlt
      obtain ⟨dp, due, tail, -, rfl, -⟩ := hsent.dp
      exact ih.touched (hk _ _) nofun rfl rfl ih.ids ih.held
    · have hk : Records K none giveUpDisc := Records.keep (fun _ => rfl) (fun _ => rfl) fun _ => rfl
      rw [hmax hge]
      exact ih.touched hk nofun rfl rfl ih.ids ih.held
  | cancel d _ hrun ih =>
    obtain ⟨hno, hstop⟩ := wp_ok (rreqTblRouteDiscoveryCancel_wp ih.wf ih.held) hrun
    split
    · next hs =>
      have hk : ∀ now, Records K none (stopDisc now) := fun _ =>
        Records.keep (fun _ => rfl) (fun _ => rfl) fun _ => rfl
      rw [hstop (Option.isSome_iff_ne_none.mp hs)]
      exact ih.touched (hk _) nofun rfl rfl ih.ids ih.held
    · next hs =>
      rw [hno (Option.not_isSome_iff_eq_none.mp hs)]
      exact ih.env rfl rfl ih.ids ih.held

end Refines

theorem rreqTbl_window {M K : ℕ} (hM : 1 ≤ M) (hK : 1 ≤ K) {s : DsrNode} {past : List RreqUse}
    (h : RreqRun M K s past) :
    (∀ i t id, dsrRreqDuplicate i t (id % 65536) s =
      .ok (decide (i ∈ window M past ∧ ⟨t, id % 65536⟩ ∈ (recordedFor M i past).rtake K)) s) ∧
    (∀ i ∈ window M past, ((recordedFor M i past).rtake K).Nodup) ∧
    (s.rreqTbl.head.map RreqTblEntry.nodeAddr).Nodup ∧ s.rreqTbl.head.length ≤ M := by
  have hr := h.refines hM hK
  refine ⟨fun i t id => hr.duplicate i t (id % 65536), fun i hi => ?_, hr.wf.addrs, ?_⟩
  · obtain ⟨e, he⟩ := Option.isSome_iff_exists.mp (hr.mem_window.mp hi)
    obtain ⟨hm, rfl⟩ := rreqFind_mem he
    rw [← hr.lists e hm]
    exact hr.once e hm
  · rw [← hr.maxLen]
    exact hr.wf.bound

def recordAll (s : DsrNode) : List (InAddr × IdEntry) → Option DsrNode
  | [] => some s
  | (i, e) :: rest =>
      match dsrRreqDuplicate i e.trgAddr (e.id % 65536) s with
      | .ok false s₁ =>
          match rreqTblAddId i e.trgAddr (e.id % 65536) s₁ with
          | .ok _ s' => recordAll s' rest
          | .error _ _ => none
      | _ => none

def usesOf (rs : List (InAddr × IdEntry)) (past : List RreqUse) : List RreqUse :=
  rs.foldl (fun past r => ⟨r.1, some ⟨r.2.trgAddr, r.2.id % 65536⟩⟩ :: past) past

theorem RreqRun.records {M K : ℕ} (rs : List (InAddr × IdEntry)) : ∀ {s s' : DsrNode} {past : List RreqUse},
    RreqRun M K s past → recordAll s rs = some s' → RreqRun M K s' (usesOf rs past) := by
  induction rs with
  | nil =>
    intro s s' past h hr
    cases hr
    exact h
  | cons r rest ih =>
    obtain ⟨i, e⟩ := r
    intro s s' past h hr
    unfold recordAll at hr
    split at hr
    · next s₁ hdup =>
      split at hr
      · next s₂ hadd => exact ih (h.record i e.trgAddr e.id hdup hadd) hr
      · cases hr
    · cases hr

def windowNode : DsrNode :=
  { dsrNodeInit ⟨10, 0, 0, 1⟩ (fun cv => if cv = .requestTableIds then 2 else confvalsDef cv) true 8 ⟨100, 0⟩
      (fun _ => 0) 0 with rreqTbl := Tbl.init 2 }

def windowRecords : List (InAddr × IdEntry) :=
  [(⟨10, 0, 0, 4⟩, ⟨⟨10, 0, 0, 3⟩, 1⟩), (⟨10, 0, 0, 2⟩, ⟨⟨10, 0, 0, 3⟩, 7⟩),
    (⟨10, 0, 0, 2⟩, ⟨⟨10, 0, 0, 3⟩, 8⟩), (⟨10, 0, 0, 2⟩, ⟨⟨10, 0, 0, 3⟩, 9⟩),
    (⟨10, 0, 0, 5⟩, ⟨⟨10, 0, 0, 3⟩, 65537⟩)]

theorem rreqTbl_window_recorded : ∃ s, RreqRun 2 2 s (usesOf windowRecords []) ∧
    dsrRreqDuplicate ⟨10, 0, 0, 4⟩ ⟨10, 0, 0, 3⟩ 1 s = .ok false s ∧
    dsrRreqDuplicate ⟨10, 0, 0, 2⟩ ⟨10, 0, 0, 3⟩ 7 s = .ok false s ∧
    dsrRreqDuplicate ⟨10, 0, 0, 2⟩ ⟨10, 0, 0, 3⟩ 9 s = .ok true s ∧
    dsrRreqDuplicate ⟨10, 0, 0, 5⟩ ⟨10, 0, 0, 3⟩ 1 s = .ok true s := by
  obtain ⟨s, hs⟩ : ∃ s, recordAll windowNode windowRecords = some s :=
    Option.isSome_iff_exists.mp (by decide +kernel)
  have hr : RreqRun 2 2 s (usesOf windowRecords []) :=
    RreqRun.records windowRecords (RreqRun.init (s := windowNode) rfl rfl rfl) hs
  have hw := (rreqTbl_window (by decide) (by decide) hr).1
  exact ⟨s, hr, hw ⟨10, 0, 0, 4⟩ ⟨10, 0, 0, 3⟩ 1, hw ⟨10, 0, 0, 2⟩ ⟨10, 0, 0, 3⟩ 7,
    hw ⟨10, 0, 0, 2⟩ ⟨10, 0, 0, 3⟩ 9, hw ⟨10, 0, 0, 5⟩ ⟨10, 0, 0, 3⟩ 1⟩

end DsrUu
