import DsrUu.Node.Light
import Mathlib.Data.List.Find

namespace DsrUu

open Effect

theorem eraseP_eq_filter {α β : Type} [DecidableEq β] (g : α → β) (b : β) (xs : List α)
    (h : (xs.map g).Nodup) : xs.eraseP (fun x => g x = b) = xs.filter fun x => g x ≠ b := by
  induction xs with
  | nil => rfl
  | cons x xs ih =>
    rw [List.map_cons, List.nodup_cons] at h
    by_cases hx : g x = b
    · rw [List.eraseP_cons_of_pos (by simpa using hx), List.filter_cons_of_neg (by simpa using hx),
        List.filter_eq_self.mpr]
      intro y hy
      refine decide_eq_true fun hyb => h.1 ?_
      rw [hx, ← hyb]
      exact List.mem_map_of_mem hy
    · rw [List.eraseP_cons_of_neg (by simpa using hx), List.filter_cons_of_pos (by simpa using hx), ih h.2]

namespace DsrNode

def rreqFind (s : DsrNode) (addr : InAddr) : Option RreqTblEntry :=
  s.rreqTbl.find fun e => e.nodeAddr = addr

def rreqEntry (s : DsrNode) (addr : InAddr) : RreqTblEntry :=
  (s.rreqFind addr).getD (rreqTblEntryCreate s.rreqBrk addr (s.confvals .requestTableIds))

def rreqEvicts (s : DsrNode) (addr : InAddr) : Bool :=
  (s.rreqFind addr).isNone && s.rreqTbl.maxLen ≤ s.rreqTbl.head.length

def rreqOthers (s : DsrNode) (addr : InAddr) : List RreqTblEntry :=
  (if s.rreqEvicts addr then s.rreqTbl.head.tail else s.rreqTbl.head).filter fun e => e.nodeAddr ≠ addr

def rreqEvicted (s : DsrNode) (addr : InAddr) : List Event :=
  if s.rreqEvicts addr then s.rreqTbl.head.head?.toList.map fun f => .discovery f.nodeAddr .evicted else []

def touched (s : DsrNode) (addr : InAddr) (f : RreqTblEntry → RreqTblEntry) : DsrNode :=
  { s with
    rreqTbl :=
      { head := s.rreqOthers addr ++ [f (s.rreqEntry addr)], len := (s.rreqOthers addr).length + 1
        maxLen := s.rreqTbl.maxLen }
    rreqBrk := if (s.rreqFind addr).isSome then s.rreqBrk else s.rreqBrk + 1
    out := s.out ++ s.rreqEvicted addr }

def emits (s : DsrNode) (es : List Event) : DsrNode := { s with out := s.out ++ es }

end DsrNode

structure RreqWf (s : DsrNode) : Prop where
  pos : 1 ≤ s.rreqTbl.maxLen
  len : s.rreqTbl.len = s.rreqTbl.head.length
  bound : s.rreqTbl.head.length ≤ s.rreqTbl.maxLen
  addrs : (s.rreqTbl.head.map RreqTblEntry.nodeAddr).Nodup
  refs : (s.rreqTbl.head.map RreqTblEntry.ref).Nodup
  brk : ∀ e ∈ s.rreqTbl.head, e.ref < s.rreqBrk

section Table

variable {s : DsrNode} {addr : InAddr}

theorem rreqFind_mem {e : RreqTblEntry} (h : s.rreqFind addr = some e) :
    e ∈ s.rreqTbl.head ∧ e.nodeAddr = addr :=
  ⟨List.mem_of_find?_eq_some h, by simpa using List.find?_some h⟩

theorem rreqFind_none (h : s.rreqFind addr = none) : ∀ e ∈ s.rreqTbl.head, e.nodeAddr ≠ addr := by
  intro e he
  have := List.find?_eq_none.mp h e he
  simpa using this

theorem rreqFind_of_mem (h : RreqWf s) {e : RreqTblEntry} (he : e ∈ s.rreqTbl.head) :
    s.rreqFind e.nodeAddr = some e := by
  cases hf : s.rreqFind e.nodeAddr with
  | none => exact absurd rfl (rreqFind_none hf e he)
  | some e' =>
    obtain ⟨hm, ha⟩ := rreqFind_mem hf
    rw [List.inj_on_of_nodup_map h.addrs hm he ha]

theorem rreqEntry_addr (s : DsrNode) (addr : InAddr) : (s.rreqEntry addr).nodeAddr = addr := by
  unfold DsrNode.rreqEntry
  cases hf : s.rreqFind addr with
  | none => rfl
  | some e => exact (rreqFind_mem hf).2

theorem mem_rreqOthers {x : RreqTblEntry} (h : x ∈ s.rreqOthers addr) :
    x ∈ s.rreqTbl.head ∧ x.nodeAddr ≠ addr := by
  unfold DsrNode.rreqOthers at h
  obtain ⟨hm, ha⟩ := List.mem_filter.mp h
  refine ⟨?_, of_decide_eq_true ha⟩
  split at hm
  · exact List.mem_of_mem_tail hm
  · exact hm

theorem rreqOthers_sublist (s : DsrNode) (addr : InAddr) :
    (s.rreqOthers addr).Sublist s.rreqTbl.head := by
  unfold DsrNode.rreqOthers
  split
  · exact List.filter_sublist.trans (List.tail_sublist _)
  · exact List.filter_sublist

theorem rreqOthers_found {e : RreqTblEntry} (h : RreqWf s) (hf : s.rreqFind addr = some e) :
    s.rreqTbl.head.eraseP (fun e => e.nodeAddr = addr) = s.rreqOthers addr := by
  rw [DsrNode.rreqOthers, DsrNode.rreqEvicts, hf, Option.isNone_some, Bool.false_and,
    if_neg Bool.false_ne_true]
  exact eraseP_eq_filter RreqTblEntry.nodeAddr addr _ h.addrs

theorem rreqOthers_missing (hf : s.rreqFind addr = none) : s.rreqOthers addr =
    if s.rreqTbl.maxLen ≤ s.rreqTbl.head.length then s.rreqTbl.head.tail else s.rreqTbl.head := by
  have hne := rreqFind_none hf
  rw [DsrNode.rreqOthers, DsrNode.rreqEvicts, hf, Option.isNone_none, Bool.true_and]
  simp only [decide_eq_true_eq]
  refine List.filter_eq_self.mpr fun x hx => decide_eq_true (hne x ?_)
  split at hx
  · exact List.mem_of_mem_tail hx
  · exact hx

theorem rreqEvicts_cases (h : RreqWf s) (addr : InAddr) :
    (s.rreqEvicts addr = false ∧ s.rreqOthers addr = s.rreqTbl.head.filter fun e => e.nodeAddr ≠ addr) ∨
      ∃ f rest, s.rreqEvicts addr = true ∧ s.rreqFind addr = none ∧ s.rreqTbl.head = f :: rest ∧
        s.rreqOthers addr = rest := by
  unfold DsrNode.rreqOthers
  by_cases hev : s.rreqEvicts addr = true
  · refine Or.inr ?_
    have hparts := hev
    rw [DsrNode.rreqEvicts, Bool.and_eq_true, Option.isNone_iff_eq_none, decide_eq_true_eq] at hparts
    have hpos := h.pos
    obtain ⟨f, rest, hh⟩ := List.exists_cons_of_length_pos (by omega : 0 < s.rreqTbl.head.length)
    refine ⟨f, rest, hev, hparts.1, hh, ?_⟩
    rw [if_pos hev, hh, List.tail_cons]
    refine List.filter_eq_self.mpr fun x hx => decide_eq_true (rreqFind_none hparts.1 x ?_)
    rw [hh]
    exact List.mem_cons_of_mem _ hx
  · exact Or.inl ⟨Bool.eq_false_iff.mpr hev, by rw [if_neg hev]⟩

theorem length_rreqOthers (h : RreqWf s) (addr : InAddr) :
    (s.rreqOthers addr).length + 1 ≤ s.rreqTbl.maxLen := by
  have hpos := h.pos
  have hb := h.bound
  cases hf : s.rreqFind addr with
  | none =>
    rw [rreqOthers_missing hf]
    split
    · rw [List.length_tail]
      omega
    · omega
  | some e =>
    have hm := (rreqFind_mem hf).1
    have hlen := List.length_eraseP_of_mem (p := fun e => e.nodeAddr = addr) hm
      (by simpa using (rreqFind_mem hf).2)
    rw [rreqOthers_found h hf] at hlen
    have := List.length_pos_of_mem hm
    omega

theorem rreqEntry_ref (h : RreqWf s) (addr : InAddr) :
    (∀ x ∈ s.rreqOthers addr, x.ref ≠ (s.rreqEntry addr).ref) ∧
      (s.rreqEntry addr).ref < if (s.rreqFind addr).isSome then s.rreqBrk else s.rreqBrk + 1 := by
  unfold DsrNode.rreqEntry
  cases hf : s.rreqFind addr with
  | none =>
    refine ⟨fun x hx => ?_, Nat.lt_succ_self _⟩
    exact (h.brk x (mem_rreqOthers hx).1).ne
  | some e =>
    obtain ⟨hm, ha⟩ := rreqFind_mem hf
    refine ⟨fun x hx he => ?_, h.brk e hm⟩
    have := List.inj_on_of_nodup_map h.refs (mem_rreqOthers hx).1 hm he
    rw [this] at hx
    exact (mem_rreqOthers hx).2 ha

theorem RreqWf.touched (h : RreqWf s) (addr : InAddr) {f : RreqTblEntry → RreqTblEntry}
    (haddr : ∀ e, (f e).nodeAddr = e.nodeAddr) (href : ∀ e, (f e).ref = e.ref) :
    RreqWf (s.touched addr f) where
  pos := h.pos
  len := by
    change _ = (s.rreqOthers addr ++ [_]).length
    rw [List.length_append, List.length_singleton]
    rfl
  bound := by
    change (s.rreqOthers addr ++ [_]).length ≤ s.rreqTbl.maxLen
    rw [List.length_append, List.length_singleton]
    exact length_rreqOthers h addr
  addrs := by
    change ((s.rreqOthers addr ++ [_]).map _).Nodup
    rw [List.map_append, List.nodup_append]
    refine ⟨h.addrs.sublist ((rreqOthers_sublist s addr).map _), List.nodup_singleton _, ?_⟩
    intro a ha b hb
    obtain ⟨x, hx, rfl⟩ := List.mem_map.mp ha
    rw [List.mem_singleton.mp hb, haddr, rreqEntry_addr]
    exact (mem_rreqOthers hx).2
  refs := by
    change ((s.rreqOthers addr ++ [_]).map _).Nodup
    rw [List.map_append, List.nodup_append]
    refine ⟨h.refs.sublist ((rreqOthers_sublist s addr).map _), List.nodup_singleton _, ?_⟩
    intro a ha b hb
    obtain ⟨x, hx, rfl⟩ := List.mem_map.mp ha
    rw [List.mem_singleton.mp hb, href]
    exact (rreqEntry_ref h addr).1 x hx
  brk := by
    intro x hx
    change _ < if (s.rreqFind addr).isSome then s.rreqBrk else s.rreqBrk + 1
    rcases List.mem_append.mp hx with hx | hx
    · have := h.brk x (mem_rreqOthers hx).1
      split <;> omega
    · rw [List.mem_singleton.mp hx, href]
      exact (rreqEntry_ref h addr).2

end Table

def noteId (now : Timeval) (id : IdEntry) (e : RreqTblEntry) : RreqTblEntry :=
  idTblAddTail id (if e.rreqIdTbl.full then idTblDelFirst { e with lastUsed := now } else { e with lastUsed := now })

def startDisc (now : Timeval) (timeout : ℕ) (e : RreqTblEntry) : RreqTblEntry :=
  { e with lastUsed := now, ttl := ttlStart, timeout := timeout, state := .inRouteDisc, numRexmts := 0
           timer := some (timevalAddUsecs now timeout) }

section Locks

theorem acquire_touched (l : Lock) (s : DsrNode) (addr : InAddr) (f : RreqTblEntry → RreqTblEntry) :
    (acquire l s).touched addr f = acquire l (s.touched addr f) := by
  have hlock : (s.touched addr f).locking = s.locking := rfl
  unfold acquire
  rw [hlock]
  split
  · rfl
  · rfl

theorem acquire_rreqWf {s : DsrNode} (l : Lock) (h : RreqWf s) : RreqWf (acquire l s) := by
  unfold acquire
  split
  · exact ⟨h.pos, h.len, h.bound, h.addrs, h.refs, h.brk⟩
  · exact h

@[simp] theorem acquire_locking (l : Lock) (s : DsrNode) : (acquire l s).locking = s.locking := by
  unfold acquire
  split <;> rfl

@[simp] theorem acquire_now (l : Lock) (s : DsrNode) : (acquire l s).now = s.now := by
  unfold acquire
  split <;> rfl

@[simp] theorem acquire_rreqTbl (l : Lock) (s : DsrNode) : (acquire l s).rreqTbl = s.rreqTbl := by
  unfold acquire
  split <;> rfl

@[simp] theorem acquire_confvals (l : Lock) (s : DsrNode) : (acquire l s).confvals = s.confvals := by
  unfold acquire
  split <;> rfl

theorem acquire_held {l l' : Lock} {s : DsrNode} (h : l' ∈ (acquire l s).held) : l' = l ∨ l' ∈ s.held := by
  unfold acquire at h
  split at h
  · exact List.mem_cons.mp h
  · exact Or.inr h

theorem release_set_rreqTbl (l : Lock) (s : DsrNode) (t : Tbl RreqTblEntry) :
    release l { acquire l s with rreqTbl := t } = { s with rreqTbl := t } := by
  unfold release acquire
  cases hk : s.locking <;> simp [hk]

theorem acquire_set_rreqTbl (l : Lock) (s : DsrNode) (t : Tbl RreqTblEntry) :
    { acquire l s with rreqTbl := t } = acquire l { s with rreqTbl := t } := by
  unfold acquire
  dsimp only
  split
  · rfl
  · rfl

theorem acquire_emits (l : Lock) (s : DsrNode) (es : List Event) :
    (acquire l s).emits es = acquire l (s.emits es) := by
  unfold acquire DsrNode.emits
  dsimp only
  split
  · rfl
  · rfl

theorem acquire_rreqEntry (l : Lock) (s : DsrNode) (addr : InAddr) :
    (acquire l s).rreqEntry addr = s.rreqEntry addr := by
  unfold acquire
  split
  · rfl
  · rfl

end Locks

def stopDisc (now : Timeval) (e : RreqTblEntry) : RreqTblEntry :=
  { e with timer := if e.state = .inRouteDisc then none else e.timer, state := .idle, lastUsed := now }

def giveUpDisc (e : RreqTblEntry) : RreqTblEntry := { e with timer := none, state := .idle }

def nextTtl (ttl : ℕ) : ℕ := if maxTtl < 2 * ttl then maxTtl else 2 * ttl

def nextTimeout (maxPeriod timeout : ℕ) : ℕ :=
  if maxPeriod < toUint64 (2 * timeout) then maxPeriod else toUint64 (2 * timeout)

def retryDisc (now : Timeval) (maxPeriod : ℕ) (e : RreqTblEntry) : RreqTblEntry :=
  { e with numRexmts := incUint32 e.numRexmts, ttl := nextTtl e.ttl, timeout := nextTimeout maxPeriod e.timeout
           lastUsed := now, timer := some (timevalAddUsecs now (nextTimeout maxPeriod e.timeout)) }

section Specs

variable {s : DsrNode} {addr : InAddr}

theorem rreqTblFindLast_wp (h : RreqWf s) (hl : ∀ r, Lock.rreqIdTbl r ∉ s.held) :
    wp (rreqTblFindLast addr) s (fun ref s' => ref = (s.rreqEntry addr).ref ∧ s' = s.touched addr id)
      fun _ => False := by
  have hfits := length_rreqOthers h addr
  have hlen := h.len
  have hadd : ∀ (t : Tbl RreqTblEntry) e, t.head = s.rreqOthers addr → t.len = t.head.length →
      t.maxLen = s.rreqTbl.maxLen → (t.addTail e).getD t =
        { head := s.rreqOthers addr ++ [e], len := (s.rreqOthers addr).length + 1
          maxLen := s.rreqTbl.maxLen } := by
    intro t e hh ht hm
    rw [Tbl.addTail_of_lt e (by rw [ht, hm, hh]; omega), Option.getD_some, hh, ht, hm, hh]
  unfold rreqTblFindLast
  rw [wp_bind, wp_get]
  cases hf : s.rreqFind addr with
  | some e =>
    have hm := (rreqFind_mem hf).1
    have hpos := List.length_pos_of_mem hm
    have hrm := List.length_eraseP_of_mem (p := fun e => e.nodeAddr = addr) hm (by simpa using (rreqFind_mem hf).2)
    have hothers := rreqOthers_found h hf
    have hfd : s.rreqTbl.findDetach (fun e => e.nodeAddr = addr) = some (e,
        { s.rreqTbl with head := s.rreqTbl.head.eraseP fun e => e.nodeAddr = addr, len := s.rreqTbl.len - 1 }) := by
      unfold Tbl.findDetach
      rw [show s.rreqTbl.head.find? _ = some e from hf]
      rfl
    have hput := hadd
      { s.rreqTbl with head := s.rreqTbl.head.eraseP fun e => e.nodeAddr = addr, len := s.rreqTbl.len - 1 } e
      hothers (by dsimp only; omega) rfl
    rw [hfd]
    refine ⟨?_, ?_⟩
    · rw [DsrNode.rreqEntry, hf]
      rfl
    · dsimp only
      rw [hput]
      unfold DsrNode.touched
      rw [DsrNode.rreqEntry, hf, DsrNode.rreqEvicted, DsrNode.rreqEvicts, hf]
      simp
  | none =>
    have hothers := rreqOthers_missing hf
    have hfd : s.rreqTbl.findDetach (fun e => e.nodeAddr = addr) = none := by
      unfold Tbl.findDetach
      rw [show s.rreqTbl.head.find? _ = none from hf]
      rfl
    rw [hfd]
    unfold rreqTblAdd confVal
    rw [wp_bind, wp_bind, wp_get, wp_pure, wp_bind, wp_get]
    dsimp only
    rw [wp_bind, wp_set]
    have hent : s.rreqEntry addr = rreqTblEntryCreate s.rreqBrk addr (s.confvals .requestTableIds) := by
      rw [DsrNode.rreqEntry, hf]
      rfl
    by_cases hfull : s.rreqTbl.maxLen ≤ s.rreqTbl.head.length
    · rw [if_pos hfull] at hothers
      obtain ⟨f, rest, hhead⟩ := List.exists_cons_of_length_pos (by have := h.pos; omega : 0 < s.rreqTbl.head.length)
      have hdf : s.rreqTbl.detachFirst = some (f, { s.rreqTbl with head := rest, len := s.rreqTbl.len - 1 }) := by
        unfold Tbl.detachFirst
        rw [hhead]
      have hnf : s.rreqTbl.full = true := by
        unfold Tbl.full
        rw [decide_eq_true_eq]
        omega
      rw [hhead, List.tail_cons] at hothers
      have hput := hadd { s.rreqTbl with head := rest, len := s.rreqTbl.len - 1 }
        (rreqTblEntryCreate s.rreqBrk addr (s.confvals .requestTableIds)) hothers.symm
        (by rw [hhead, List.length_cons] at hlen; dsimp only; omega) rfl
      rw [if_pos hnf, hdf, wp_bind, ofOption, wp_pure, wp_bind, wp_setRreqTbl, wp_bind, wp_emit, wp_bind]
      refine wp_locked (fun _ => hl f.ref) ?_
      rw [wp_pure, release_acquire, wp_bind, wp_get]
      dsimp only
      rw [hput]
      refine ⟨?_, ?_⟩
      · rw [hent]
      · unfold DsrNode.touched
        rw [hent, hf, DsrNode.rreqEvicted, DsrNode.rreqEvicts, hf, hhead]
        rw [hhead, List.length_cons] at hfull
        simp [hfull]
    · rw [if_neg hfull] at hothers
      have hnf : ¬ s.rreqTbl.full = true := by
        unfold Tbl.full
        rw [decide_eq_true_eq]
        omega
      rw [if_neg hnf]
      refine ⟨?_, ?_⟩
      · rw [hent]
      · dsimp only
        rw [hadd s.rreqTbl _ hothers.symm hlen rfl]
        unfold DsrNode.touched
        rw [hent, hf, DsrNode.rreqEvicted, DsrNode.rreqEvicts, hf]
        simp [hfull]

theorem rreqTblUpdate_touched (h : RreqWf s) (f g : RreqTblEntry → RreqTblEntry)
    (href : ∀ e, (g e).ref = e.ref) :
    { s.touched addr g with
      rreqTbl := (s.touched addr g).rreqTbl.findDo (fun e => e.ref = (s.rreqEntry addr).ref) f } =
      s.touched addr (f ∘ g) := by
  have hupd : Tbl.updateFirst (fun e => e.ref = (s.rreqEntry addr).ref) f
      (s.rreqOthers addr ++ [g (s.rreqEntry addr)]) = s.rreqOthers addr ++ [f (g (s.rreqEntry addr))] := by
    have hne := (rreqEntry_ref h addr).1
    generalize s.rreqOthers addr = xs at hne ⊢
    induction xs with
    | nil =>
      rw [List.nil_append, Tbl.updateFirst, if_pos (decide_eq_true (href _))]
      rfl
    | cons x xs ih =>
      rw [List.cons_append, Tbl.updateFirst,
        if_neg (by simpa using hne x List.mem_cons_self), ih fun y hy => hne y (List.mem_cons_of_mem _ hy)]
      rfl
  unfold DsrNode.touched Tbl.findDo
  dsimp only
  rw [hupd]
  rfl

theorem find_touched (h : RreqWf s) {f : RreqTblEntry → RreqTblEntry} (href : ∀ e, (f e).ref = e.ref)
    (p : RreqTblEntry → Bool) :
    ((s.touched addr f).rreqTbl.find fun e => e.ref = (s.rreqEntry addr).ref && p e).isSome =
      p (f (s.rreqEntry addr)) := by
  have hne := (rreqEntry_ref h addr).1
  change (List.find? _ (s.rreqOthers addr ++ [f (s.rreqEntry addr)])).isSome = _
  have hnone : List.find? (fun e => decide (e.ref = (s.rreqEntry addr).ref) && p e) (s.rreqOthers addr) = none := by
    rw [List.find?_eq_none]
    intro x hx
    rw [decide_eq_false (hne x hx)]
    exact Bool.false_ne_true
  rw [List.find?_append, hnone, Option.none_or, List.find?_singleton, href, decide_eq_true rfl, Bool.true_and]
  cases p (f (s.rreqEntry addr)) <;> rfl

theorem wp_update_touched (h : RreqWf s) {l : Lock} {f g : RreqTblEntry → RreqTblEntry}
    (href : ∀ e, (g e).ref = e.ref) {Q : Unit → DsrNode → Prop} {E : Stop → Prop}
    (hq : Q () (acquire l (s.touched addr (f ∘ g)))) :
    wp (rreqTblUpdate (s.rreqEntry addr).ref f) (acquire l (s.touched addr g)) Q E := by
  rw [rreqTblUpdate, wp_modify, acquire_rreqTbl, acquire_set_rreqTbl, rreqTblUpdate_touched h f g href]
  exact hq

theorem wp_locked_update_touched (h : RreqWf s) (hl : s.held = []) {r : ℕ}
    {f g : RreqTblEntry → RreqTblEntry} (href : ∀ e, (g e).ref = e.ref) {Q : Unit → DsrNode → Prop}
    {E : Stop → Prop} (hq : Q () (acquire .rreqTbl (s.touched addr (f ∘ g)))) :
    wp (locked (.rreqIdTbl r) (rreqTblUpdate (s.rreqEntry addr).ref f))
      (acquire .rreqTbl (s.touched addr g)) Q E := by
  refine wp_locked (fun _ hr => ?_) ?_
  · rcases acquire_held hr with hr | hr
    · cases hr
    · rw [show (s.touched addr g).held = [] from hl] at hr
      exact List.not_mem_nil hr
  · rw [rreqTblUpdate, wp_modify, acquire_rreqTbl, release_set_rreqTbl, acquire_rreqTbl, acquire_set_rreqTbl,
      rreqTblUpdate_touched h f g href]
    exact hq

theorem touched_congr {f g : RreqTblEntry → RreqTblEntry} (h : f (s.rreqEntry addr) = g (s.rreqEntry addr)) :
    s.touched addr f = s.touched addr g := by
  unfold DsrNode.touched
  rw [h]

theorem noteId_ref (now : Timeval) (i : IdEntry) (e : RreqTblEntry) : (noteId now i e).ref = e.ref := by
  unfold noteId
  split
  · rfl
  · rfl

theorem rreqTblAddId_wp (h : RreqWf s) (hl : s.held = []) (target : InAddr) (ident : ℕ) :
    wp (rreqTblAddId addr target ident) s
      (fun _ s' => s' = s.touched addr (noteId s.now { trgAddr := target, id := ident % 65536 }))
      fun _ => False := by
  have hfree : ∀ r, Lock.rreqIdTbl r ∉ (acquire .rreqTbl s).held := by
    intro r hr
    rcases acquire_held hr with hr | hr
    · cases hr
    · rw [hl] at hr
      exact absurd hr List.not_mem_nil
  refine wp_locked (fun _ => by rw [hl]; exact List.not_mem_nil) ?_
  rw [wp_bind]
  refine wp_imp (rreqTblFindLast_wp (acquire_rreqWf _ h) hfree) ?_
  rintro _ _ ⟨rfl, rfl⟩
  rw [acquire_touched, acquire_rreqEntry, wp_bind, gettime, wp_bind, wp_get, wp_pure, wp_bind]
  refine wp_update_touched (g := id) h (fun _ => rfl) ?_
  rw [wp_bind, wp_get, acquire_rreqTbl, acquire_now]
  have hnow : (s.touched addr id).now = s.now := rfl
  rw [hnow]
  have hfull : ((s.touched addr ((fun e => { e with lastUsed := s.now }) ∘ id)).rreqTbl.find fun e =>
      e.ref = (s.rreqEntry addr).ref && e.rreqIdTbl.full).isSome = (s.rreqEntry addr).rreqIdTbl.full :=
    find_touched (f := (fun e => { e with lastUsed := s.now }) ∘ id) h (fun _ => rfl) fun e => e.rreqIdTbl.full
  rw [hfull]
  split
  · next hf =>
    have hf : (s.rreqEntry addr).rreqIdTbl.full = true := hf
    rw [wp_bind]
    refine wp_locked_update_touched h hl ?_ ?_
    · exact fun _ => rfl
    · refine wp_locked_update_touched h hl ?_ ?_
      · exact fun _ => rfl
      · rw [release_acquire]
        refine touched_congr ?_
        rw [noteId, if_pos hf]
        rfl
  · next hf =>
    have hf : ¬ (s.rreqEntry addr).rreqIdTbl.full = true := hf
    refine wp_locked_update_touched h hl ?_ ?_
    · exact fun _ => rfl
    · rw [release_acquire]
      refine touched_congr ?_
      rw [noteId, if_neg hf]
      rfl

theorem dsrRreqDuplicate_wp (hl : s.held = []) (initiator target : InAddr) (ident : ℕ) :
    wp (dsrRreqDuplicate initiator target ident) s
      (fun r s' => s' = s ∧ r = (s.rreqTbl.find fun e => e.nodeAddr = initiator &&
        e.rreqIdTbl.head.any fun i => i.trgAddr = target && i.id = ident).isSome) fun _ => False := by
  refine wp_locked (fun _ => by rw [hl]; exact List.not_mem_nil) ?_
  rw [wp_bind, wp_get, wp_pure, release_acquire, acquire_rreqTbl]
  exact ⟨rfl, rfl⟩

structure RreqSent (target : InAddr) (ttl : ℕ) (s s' : DsrNode) : Prop where
  dp : ∃ dp due tail, rreqPkt s.kmem s.ifaddr target ttl (incUint32 s.rreqSeqno) = some dp ∧
    s' = { s with rreqSeqno := incUint32 s.rreqSeqno, out := s.out ++ .xmit .rreqSend dp due :: tail } ∧
    ∀ e ∈ tail, ∃ f, e = .send .rreqSend f

theorem rreqPkt_isSome (mem : ℕ → UInt8) (me target : InAddr) (ttl seqno : ℕ) :
    (rreqPkt mem me target ttl seqno).isSome := by
  unfold rreqPkt dsrOptHdrAdd dsrRreqOptAdd
  rfl

theorem rreqPkt_dst {mem : ℕ → UInt8} {me target : InAddr} {ttl seqno : ℕ} {dp : DsrPkt}
    (h : rreqPkt mem me target ttl seqno = some dp) : dp.dst = dsrBroadcast := by
  unfold rreqPkt at h
  obtain ⟨dp₁, h₁, h⟩ := Option.bind_eq_some_iff.mp h
  obtain ⟨dp₂, h₂, rfl⟩ := Option.map_eq_some_iff.mp h
  cases h₁
  cases h₂
  rfl

theorem buildQueue_broadcast (locking : Bool) (site : XmitSite) {dp : DsrPkt} (hb : dp.dst = dsrBroadcast)
    (s : DsrNode) : ∃ s', buildQueue locking site dp s = .ok () s' := by
  have hget : (get : DsrM DsrNode) s = .ok s s := rfl
  cases locking with
  | true =>
    show ∃ s', devQueueXmit site dp s = .ok () s'
    rw [devQueueXmit, bind_of_ok hget]
    split
    · rw [dsrHwHeaderCreate, if_pos hb]
      exact ⟨_, rfl⟩
    · exact ⟨_, rfl⟩
  | false =>
    show ∃ s', nsSchedule site dp s = .ok () s'
    have hdest : nsPacketDest dp s = .ok (some none) s := by
      rw [nsPacketDest, if_pos hb]
      rfl
    rw [nsSchedule, bind_of_ok hdest]
    dsimp only
    split <;> exact ⟨_, rfl⟩

theorem dsrRreqSend_wp (target : InAddr) (ttl : ℕ) :
    wp (dsrRreqSend xmit target ttl) s (fun _ s' => RreqSent target ttl s s') fun _ => False := by
  obtain ⟨dp, hdp⟩ := Option.isSome_iff_exists.mp
    (rreqPkt_isSome s.kmem s.ifaddr target ttl (incUint32 s.rreqSeqno))
  unfold dsrRreqSend kmalloc myAddr
  simp only [wp_bind, wp_get, wp_pure, wp_set]
  rw [hdp, xmitPkt, wp_congr (xmit_eq _ _ _), xmitVia, wp_bind, wp_get, wp_bind, wp_emit,
    rreqPkt_requestAck hdp, if_neg Bool.false_ne_true, wp_bind, wp_pure]
  obtain ⟨s', hrun⟩ := buildQueue_broadcast s.locking .rreqSend (rreqPkt_dst hdp)
    { s with rreqSeqno := incUint32 s.rreqSeqno
             out := s.out ++ [.xmit .rreqSend dp (ackDue { s with rreqSeqno := incUint32 s.rreqSeqno } dp)] }
  refine wp_of_run hrun ?_
  cases buildQueue_emits s.locking _ _ _ _ hrun with
  | kept => exact ⟨⟨dp, _, [], hdp, rfl, fun e he => absurd he List.not_mem_nil⟩⟩
  | sent hw =>
    refine ⟨⟨dp, ackDue { s with rreqSeqno := incUint32 s.rreqSeqno } dp,
      [.send .rreqSend { hwDest := hw, nxtHop := dp.nxtHop, skb := dsrSkbCreate dp }], hdp, ?_,
      fun e he => ⟨_, List.mem_singleton.mp he⟩⟩⟩
    rw [List.append_assoc, List.singleton_append]

def nonpropUsecs (s : DsrNode) : ℕ := usecsOf .nonpropRequestTimeout (s.confvals .nonpropRequestTimeout)

theorem rreqTblStart_wp (h : RreqWf s) (hl : ∀ r, Lock.rreqIdTbl r ∉ s.held) :
    wp (rreqTblStart addr) s (fun b s' =>
      ((s.rreqEntry addr).state = .inRouteDisc → b = false ∧ s' = s.touched addr id) ∧
      ((s.rreqEntry addr).state ≠ .inRouteDisc → b = true ∧
        s' = (s.touched addr (startDisc s.now (nonpropUsecs s))).emits [.discovery addr .started]))
      fun _ => False := by
  unfold rreqTblStart
  rw [wp_bind]
  refine wp_imp (rreqTblFindLast_wp h hl) ?_
  rintro _ _ ⟨rfl, rfl⟩
  unfold confValToUsecs confVal
  simp only [wp_bind, wp_get, wp_pure]
  have hdisc : ((s.touched addr id).rreqTbl.find fun e =>
      e.ref = (s.rreqEntry addr).ref && e.state = .inRouteDisc).isSome =
        decide ((s.rreqEntry addr).state = .inRouteDisc) :=
    find_touched h (fun _ => rfl) _
  rw [hdisc]
  by_cases hst : (s.rreqEntry addr).state = .inRouteDisc
  · rw [if_pos (decide_eq_true hst), wp_pure]
    exact ⟨fun _ => ⟨rfl, rfl⟩, fun hn => absurd hst hn⟩
  · rw [if_neg (by rw [decide_eq_true_eq]; exact hst), wp_bind, rreqTblUpdate, wp_modify,
      rreqTblUpdate_touched h _ id fun _ => rfl]
    exact ⟨fun hs => absurd hs hst, fun _ => ⟨rfl, rfl⟩⟩

theorem dsrRreqRouteDiscovery_wp (h : RreqWf s) (hl : s.held = []) :
    wp (dsrRreqRouteDiscovery addr) s (fun _ s' =>
      ((s.rreqEntry addr).state = .inRouteDisc → s' = s.touched addr id) ∧
      ((s.rreqEntry addr).state ≠ .inRouteDisc → RreqSent addr ttlStart
        ((s.touched addr (startDisc s.now (nonpropUsecs s))).emits [.discovery addr .started]) s'))
      fun _ => False := by
  have hfree : ∀ r, Lock.rreqIdTbl r ∉ (acquire .rreqTbl s).held := by
    intro r hr
    rcases acquire_held hr with hr | hr
    · cases hr
    · rw [hl] at hr
      exact absurd hr List.not_mem_nil
  unfold dsrRreqRouteDiscovery
  rw [wp_bind]
  refine wp_locked (fun _ => by rw [hl]; exact List.not_mem_nil) ?_
  refine wp_imp (rreqTblStart_wp (acquire_rreqWf _ h) hfree) fun b s₁ hs₁ => ?_
  have hnon : nonpropUsecs (acquire .rreqTbl s) = nonpropUsecs s := by
    rw [nonpropUsecs, acquire_confvals]
    rfl
  rw [acquire_rreqEntry, acquire_now, hnon] at hs₁
  by_cases hst : (s.rreqEntry addr).state = .inRouteDisc
  · obtain ⟨rfl, rfl⟩ := hs₁.1 hst
    rw [acquire_touched, release_acquire, if_neg Bool.false_ne_true]
    exact ⟨fun _ => rfl, fun hn => absurd hst hn⟩
  · obtain ⟨rfl, rfl⟩ := hs₁.2 hst
    rw [acquire_touched, acquire_emits, release_acquire, if_pos rfl]
    exact wp_imp (dsrRreqSend_wp _ _) fun _ s' hs' => ⟨fun hs => absurd hs hst, fun _ => hs'⟩

theorem findDetach_addr (h : RreqWf s) {e : RreqTblEntry} (hf : s.rreqFind addr = some e) :
    s.rreqTbl.findDetach (fun e => e.nodeAddr = addr) =
      some (e, { head := s.rreqOthers addr, len := (s.rreqOthers addr).length, maxLen := s.rreqTbl.maxLen }) := by
  have hm := (rreqFind_mem hf).1
  have hrm := List.length_eraseP_of_mem (p := fun e => e.nodeAddr = addr) hm (by simpa using (rreqFind_mem hf).2)
  have hlen := h.len
  rw [rreqOthers_found h hf] at hrm
  unfold Tbl.findDetach
  rw [show s.rreqTbl.head.find? _ = some e from hf, Option.map_some, rreqOthers_found h hf, hrm, hlen]

theorem findDetach_ref (h : RreqWf s) {e : RreqTblEntry} (he : e ∈ s.rreqTbl.head) :
    s.rreqTbl.findDetach (fun x => x.ref = e.ref) =
      some (e, { head := s.rreqOthers e.nodeAddr, len := (s.rreqOthers e.nodeAddr).length
                 maxLen := s.rreqTbl.maxLen }) := by
  have hfa := rreqFind_of_mem h he
  have hsame : ∀ x ∈ s.rreqTbl.head, (x.ref = e.ref ↔ x.nodeAddr = e.nodeAddr) := by
    intro x hx
    constructor
    · intro hr
      rw [List.inj_on_of_nodup_map h.refs hx he hr]
    · intro ha
      rw [List.inj_on_of_nodup_map h.addrs hx he ha]
  have hfind : s.rreqTbl.head.find? (fun x => decide (x.ref = e.ref)) = some e := by
    rw [← hfa, DsrNode.rreqFind, Tbl.find]
    exact List.find?_congr fun x hx => decide_eq_decide.mpr (hsame x hx)
  have herase : s.rreqTbl.head.eraseP (fun x => decide (x.ref = e.ref)) = s.rreqOthers e.nodeAddr := by
    rw [← rreqOthers_found h hfa, eraseP_eq_filter RreqTblEntry.ref _ _ h.refs,
      eraseP_eq_filter RreqTblEntry.nodeAddr _ _ h.addrs]
    exact List.filter_congr fun x hx => decide_eq_decide.mpr (not_congr (hsame x hx))
  have hrm := List.length_eraseP_of_mem (p := fun x => decide (x.ref = e.ref)) he (by simp)
  have hlen := h.len
  rw [herase] at hrm
  unfold Tbl.findDetach
  rw [hfind, Option.map_some, herase, hrm, hlen]

theorem touched_found {e : RreqTblEntry} (hf : s.rreqFind addr = some e) (f : RreqTblEntry → RreqTblEntry) :
    s.touched addr f = { s with
      rreqTbl := { head := s.rreqOthers addr ++ [f e], len := (s.rreqOthers addr).length + 1
                   maxLen := s.rreqTbl.maxLen } } := by
  unfold DsrNode.touched
  rw [DsrNode.rreqEntry, hf, DsrNode.rreqEvicted, DsrNode.rreqEvicts, hf]
  simp

theorem rreqOthers_addTail (h : RreqWf s) (e : RreqTblEntry) :
    (Tbl.addTail { head := s.rreqOthers addr, len := (s.rreqOthers addr).length, maxLen := s.rreqTbl.maxLen } e).getD
        { head := s.rreqOthers addr, len := (s.rreqOthers addr).length, maxLen := s.rreqTbl.maxLen } =
      { head := s.rreqOthers addr ++ [e], len := (s.rreqOthers addr).length + 1, maxLen := s.rreqTbl.maxLen } := by
  have hfits := length_rreqOthers h addr
  rw [Tbl.addTail_of_lt e (by dsimp only; omega), Option.getD_some]

theorem RreqWf.emits (h : RreqWf s) (es : List Event) : RreqWf (s.emits es) :=
  ⟨h.pos, h.len, h.bound, h.addrs, h.refs, h.brk⟩

theorem rreqTblRouteDiscoveryCancel_wp (h : RreqWf s) (hl : s.held = []) :
    wp (rreqTblRouteDiscoveryCancel addr) s (fun _ s' =>
      (s.rreqFind addr = none → s' = s.emits [.discovery addr .cancelled]) ∧
      (s.rreqFind addr ≠ none → s' = (s.emits [.discovery addr .cancelled]).touched addr (stopDisc s.now)))
      fun _ => False := by
  unfold rreqTblRouteDiscoveryCancel
  rw [wp_bind, wp_emit, wp_bind]
  refine wp_locked (fun _ => by rw [hl]; exact List.not_mem_nil) ?_
  rw [wp_bind, wp_get, acquire_rreqTbl]
  cases hf : s.rreqFind addr with
  | none =>
    have hfd : s.rreqTbl.findDetach (fun e => e.nodeAddr = addr) = none := by
      unfold Tbl.findDetach
      rw [show s.rreqTbl.head.find? _ = none from hf]
      rfl
    rw [hfd, wp_pure, release_acquire]
    exact ⟨fun _ => rfl, fun hn => absurd rfl hn⟩
  | some e =>
    have hf' : (s.emits [.discovery addr .cancelled]).rreqFind addr = some e := hf
    rw [findDetach_addr h hf, wp_bind, wp_setRreqTbl, wp_pure, release_set_rreqTbl, gettime, wp_bind, wp_bind, wp_get,
      wp_pure]
    refine wp_locked (fun _ => by rw [hl]; exact List.not_mem_nil) ?_
    rw [wp_bind, wp_get, wp_setRreqTbl, acquire_rreqTbl, release_set_rreqTbl, rreqOthers_addTail h]
    refine ⟨fun hn => absurd hn (Option.some_ne_none e), fun _ => ?_⟩
    rw [touched_found hf']
    rfl

theorem rreqTblTimeout_wp (h : RreqWf s) (hl : s.held = []) {e : RreqTblEntry} (he : e ∈ s.rreqTbl.head) :
    wp (rreqTblTimeout e.ref) s (fun _ s' =>
      (s.confvals .maxRequestRexmt ≤ e.numRexmts →
        s' = (s.emits [.discovery e.nodeAddr .maxRexmt]).touched e.nodeAddr giveUpDisc) ∧
      (e.numRexmts < s.confvals .maxRequestRexmt → ∃ s₁, RreqSent e.nodeAddr (nextTtl e.ttl) s s₁ ∧
        s' = s₁.touched e.nodeAddr (retryDisc s.now
          (usecsOf .maxRequestPeriod (s.confvals .maxRequestPeriod)))))
      fun _ => False := by
  have hfa := rreqFind_of_mem h he
  unfold rreqTblTimeout rreqTblTakeOut rreqTblPutBack
  rw [wp_bind]
  refine wp_locked (fun _ => by rw [hl]; exact List.not_mem_nil) ?_
  rw [wp_bind, wp_get, acquire_rreqTbl, findDetach_ref h he, ofOption, wp_bind, wp_pure, wp_bind, wp_setRreqTbl,
    wp_pure, release_set_rreqTbl, confVal, wp_bind, wp_bind, wp_get, wp_pure]
  dsimp only
  split
  · next hmax =>
    have hfa' : (s.emits [.discovery e.nodeAddr .maxRexmt]).rreqFind e.nodeAddr = some e := hfa
    rw [wp_bind, wp_emit]
    refine wp_locked (fun _ => by dsimp only; rw [hl]; exact List.not_mem_nil) ?_
    rw [wp_bind, wp_get, wp_setRreqTbl, acquire_rreqTbl, release_set_rreqTbl, rreqOthers_addTail h]
    refine ⟨fun _ => ?_, fun hlt => absurd hmax (by omega)⟩
    rw [touched_found hfa']
    rfl
  · next hmax =>
    rw [confValToUsecs, confVal, wp_bind, wp_bind, wp_bind, wp_get, wp_pure, wp_pure, gettime, wp_bind, wp_bind,
      wp_get, wp_pure, wp_bind]
    refine wp_imp (dsrRreqSend_wp _ _) fun _ s₂ hs₂ => ?_
    obtain ⟨dp, due, tail, hdp, rfl, htail⟩ := hs₂.dp
    refine wp_locked (fun _ => by dsimp only; rw [hl]; exact List.not_mem_nil) ?_
    rw [wp_bind, wp_get, wp_setRreqTbl, acquire_rreqTbl, release_set_rreqTbl, rreqOthers_addTail h]
    refine ⟨fun hle => absurd hle hmax, fun _ => ⟨_, ⟨dp, due, tail, hdp, rfl, htail⟩, ?_⟩⟩
    let s₁ : DsrNode :=
      { s with rreqSeqno := incUint32 s.rreqSeqno, out := s.out ++ .xmit .rreqSend dp due :: tail }
    have hf₁ : s₁.rreqFind e.nodeAddr = some e := hfa
    exact (touched_found hf₁ (retryDisc s.now (usecsOf .maxRequestPeriod (s.confvals .maxRequestPeriod)))).symm

end Specs

end DsrUu
