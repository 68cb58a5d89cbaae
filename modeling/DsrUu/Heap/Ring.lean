import DsrUu.Effect.Wp
import Mathlib.Data.List.Chain
import Mathlib.Data.List.Nodup

namespace DsrUu.Heap

open Effect

inductive Fault
  | wild
  | hang
deriving DecidableEq, Repr

structure Cell (P α : Type) where
  next : P
  prev : P
  data : α
deriving DecidableEq, Repr

abbrev Mem (P α : Type) := P → Option (Cell P α)

abbrev HeapM (P α : Type) := EStateM Fault (Mem P α)

variable {P α : Type}

def load (p : P) : HeapM P α (Cell P α) := do
  let m ← get
  match m p with
  | some c => pure c
  | none => throw .wild

def Mem.nextOf (m : Mem P α) (p : P) : Option P := (m p).map Cell.next

def Mem.prevOf (m : Mem P α) (p : P) : Option P := (m p).map Cell.prev

def Mem.dataOf (m : Mem P α) (p : P) : Option α := (m p).map Cell.data

theorem load_run {m : Mem P α} {p : P} {c : Cell P α} (h : m p = some c) : load p m = .ok c m := by
  change (match m p with
    | some c => pure c
    | none => throw Fault.wild : HeapM P α (Cell P α)) m = _
  rw [h]
  rfl

theorem isSome_of_nextOf {m : Mem P α} {p v : P} (h : m.nextOf p = some v) : (m p).isSome := by
  obtain ⟨c, hc, -⟩ := Option.map_eq_some_iff.mp h
  exact Option.isSome_of_eq_some hc

theorem isSome_of_prevOf {m : Mem P α} {p v : P} (h : m.prevOf p = some v) : (m p).isSome := by
  obtain ⟨c, hc, -⟩ := Option.map_eq_some_iff.mp h
  exact Option.isSome_of_eq_some hc

section Cells

variable [DecidableEq P]

def Mem.upd (m : Mem P α) (p : P) (f : Cell P α → Cell P α) : Mem P α :=
  fun q => if q = p then (m q).map f else m q

def update (p : P) (f : Cell P α → Cell P α) : HeapM P α Unit := do
  let _ ← load p
  modify fun m => m.upd p f

def setNext (p v : P) : HeapM P α Unit := update p fun c => { c with next := v }

def setPrev (p v : P) : HeapM P α Unit := update p fun c => { c with prev := v }

def Mem.free (m : Mem P α) (p : P) : Mem P α := fun q => if q = p then none else m q

def kfree (p : P) : HeapM P α Unit := do
  let _ ← load p
  modify fun m => m.free p

def Mem.alloc (m : Mem P α) (p : P) (c : Cell P α) : Mem P α := fun q => if q = p then some c else m q

def Mem.putNext (m : Mem P α) (p v : P) : Mem P α := m.upd p fun c => { c with next := v }

def Mem.putPrev (m : Mem P α) (p v : P) : Mem P α := m.upd p fun c => { c with prev := v }

def Mem.putData (m : Mem P α) (p : P) (f : α → α) : Mem P α := m.upd p fun c => { c with data := f c.data }

section Access

variable {m : Mem P α} {p q v : P}

theorem update_run (h : (m p).isSome) (f : Cell P α → Cell P α) : update p f m = .ok () (m.upd p f) := by
  obtain ⟨c, hc⟩ := Option.isSome_iff_exists.mp h
  rw [update, bind_of_ok (load_run hc)]
  rfl

theorem setNext_run (h : (m p).isSome) (v : P) : setNext p v m = .ok () (m.putNext p v) := update_run h _

theorem setPrev_run (h : (m p).isSome) (v : P) : setPrev p v m = .ok () (m.putPrev p v) := update_run h _

theorem kfree_run (h : (m p).isSome) : kfree p m = .ok () (m.free p) := by
  obtain ⟨c, hc⟩ := Option.isSome_iff_exists.mp h
  rw [kfree, bind_of_ok (load_run hc)]
  rfl

@[simp] theorem upd_isSome (f : Cell P α → Cell P α) : (m.upd p f q).isSome = (m q).isSome := by
  unfold Mem.upd
  split <;> simp

@[simp] theorem putNext_isSome : (m.putNext p v q).isSome = (m q).isSome := upd_isSome _

@[simp] theorem putPrev_isSome : (m.putPrev p v q).isSome = (m q).isSome := upd_isSome _

theorem upd_id (f : Cell P α → Cell P α) (h : ∀ c, m p = some c → f c = c) : m.upd p f = m := by
  funext q
  unfold Mem.upd
  split
  · next hq =>
    subst hq
    cases hm : m q with
    | none => rfl
    | some c => rw [Option.map_some, h c hm]
  · rfl

theorem upd_ne (f : Cell P α → Cell P α) (h : q ≠ p) : m.upd p f q = m q := if_neg h

@[simp] theorem dataOf_putNext : (m.putNext p v).dataOf q = m.dataOf q := by
  unfold Mem.putNext Mem.dataOf Mem.upd
  split <;> simp [Function.comp_def]

@[simp] theorem dataOf_putPrev : (m.putPrev p v).dataOf q = m.dataOf q := by
  unfold Mem.putPrev Mem.dataOf Mem.upd
  split <;> simp [Function.comp_def]

@[simp] theorem prevOf_putNext : (m.putNext p v).prevOf q = m.prevOf q := by
  unfold Mem.putNext Mem.prevOf Mem.upd
  split <;> simp [Function.comp_def]

@[simp] theorem nextOf_putPrev : (m.putPrev p v).nextOf q = m.nextOf q := by
  unfold Mem.putPrev Mem.nextOf Mem.upd
  split <;> simp [Function.comp_def]

@[simp] theorem nextOf_putData (f : α → α) : (m.putData p f).nextOf q = m.nextOf q := by
  unfold Mem.putData Mem.nextOf Mem.upd
  split <;> simp [Function.comp_def]

@[simp] theorem prevOf_putData (f : α → α) : (m.putData p f).prevOf q = m.prevOf q := by
  unfold Mem.putData Mem.prevOf Mem.upd
  split <;> simp [Function.comp_def]

theorem dataOf_putData (f : α → α) :
    (m.putData p f).dataOf q = if q = p then (m.dataOf q).map f else m.dataOf q := by
  unfold Mem.putData Mem.dataOf Mem.upd
  split <;> simp [Function.comp_def]

theorem nextOf_putNext_ne (h : q ≠ p) : (m.putNext p v).nextOf q = m.nextOf q := by
  rw [Mem.nextOf, Mem.putNext, upd_ne _ h, Mem.nextOf]

theorem prevOf_putPrev_ne (h : q ≠ p) : (m.putPrev p v).prevOf q = m.prevOf q := by
  rw [Mem.prevOf, Mem.putPrev, upd_ne _ h, Mem.prevOf]

theorem nextOf_putNext_self (h : (m p).isSome) : (m.putNext p v).nextOf p = some v := by
  obtain ⟨c, hc⟩ := Option.isSome_iff_exists.mp h
  simp [Mem.nextOf, Mem.putNext, Mem.upd, hc]

theorem prevOf_putPrev_self (h : (m p).isSome) : (m.putPrev p v).prevOf p = some v := by
  obtain ⟨c, hc⟩ := Option.isSome_iff_exists.mp h
  simp [Mem.prevOf, Mem.putPrev, Mem.upd, hc]

end Access

end Cells

def Linked (m : Mem P α) (x y : P) : Prop := m.nextOf x = some y ∧ m.prevOf y = some x

structure Ring (m : Mem P α) (h : P) (ps : List P) : Prop where
  links : (h :: ps ++ [h]).IsChain (Linked m)
  nodup : (h :: ps).Nodup

section Rings

variable {m m' : Mem P α} {h n e : P} {l r ps : List P}

theorem chain_congr {ys : List P} (hc : ys.IsChain (Linked m))
    (hn : ∀ x ∈ ys.dropLast, m'.nextOf x = m.nextOf x) (hp : ∀ y ∈ ys.tail, m'.prevOf y = m.prevOf y) :
    ys.IsChain (Linked m') := by
  rw [List.isChain_iff_forall_rel_of_append_cons_cons] at hc ⊢
  intro a b pre post he
  obtain ⟨hnext, hprev⟩ := hc he
  have ha : a ∈ ys.dropLast := by
    rw [he]
    simp
  have hb : b ∈ ys.tail := by
    rw [he]
    cases pre <;> simp
  exact ⟨(hn a ha).trans hnext, (hp b hb).trans hprev⟩

theorem getLast?_cons_getD (h : P) (l : List P) : (h :: l).getLast? = some (l.getLastD h) := by
  rw [List.getLast?_cons, List.getLastD_eq_getLast?]

theorem head?_append_headD (r : List P) (h : P) : (r ++ [h]).head? = some (r.headD h) := by
  cases r <;> rfl

structure Cut (m : Mem P α) (h : P) (l r : List P) : Prop where
  before : (h :: l).IsChain (Linked m)
  joint : Linked m (l.getLastD h) (r.headD h)
  after : (r ++ [h]).IsChain (Linked m)
  nodup : (h :: (l ++ r)).Nodup

structure Member (m : Mem P α) (h : P) (l : List P) (e : P) (r : List P) : Prop where
  before : (h :: l).IsChain (Linked m)
  enter : Linked m (l.getLastD h) e
  leave : Linked m e (r.headD h)
  after : (r ++ [h]).IsChain (Linked m)
  nodup : (e :: h :: (l ++ r)).Nodup

theorem ring_cut : Ring m h (l ++ r) ↔ Cut m h l r := by
  have hsplit : h :: (l ++ r) ++ [h] = (h :: l) ++ (r ++ [h]) := by simp
  have hlinks : (h :: (l ++ r) ++ [h]).IsChain (Linked m) ↔ (h :: l).IsChain (Linked m) ∧
      (r ++ [h]).IsChain (Linked m) ∧ Linked m (l.getLastD h) (r.headD h) := by
    rw [hsplit, List.isChain_append, getLast?_cons_getD, head?_append_headD]
    simp
  constructor
  · intro hr
    obtain ⟨hb, ha, hj⟩ := hlinks.mp hr.links
    exact ⟨hb, hj, ha, hr.nodup⟩
  · intro hc
    exact ⟨hlinks.mpr ⟨hc.before, hc.after, hc.joint⟩, hc.nodup⟩

theorem ring_member : Ring m h (l ++ e :: r) ↔ Member m h l e r := by
  have hsplit : h :: (l ++ e :: r) ++ [h] = (h :: l) ++ e :: (r ++ [h]) := by simp
  have hperm : (h :: (l ++ e :: r)).Perm (e :: h :: (l ++ r)) :=
    (List.perm_middle.cons h).trans (List.Perm.swap e h (l ++ r))
  have hlinks : (h :: (l ++ e :: r) ++ [h]).IsChain (Linked m) ↔ (h :: l).IsChain (Linked m) ∧
      (Linked m e (r.headD h) ∧ (r ++ [h]).IsChain (Linked m)) ∧ Linked m (l.getLastD h) e := by
    rw [hsplit, List.isChain_append, List.isChain_cons (x := e), getLast?_cons_getD, head?_append_headD]
    simp
  constructor
  · intro hr
    obtain ⟨hb, ⟨hlv, ha⟩, hen⟩ := hlinks.mp hr.links
    exact ⟨hb, hen, hlv, ha, hperm.nodup_iff.mp hr.nodup⟩
  · intro hm
    exact ⟨hlinks.mpr ⟨hm.before, ⟨hm.leave, hm.after⟩, hm.enter⟩, hperm.nodup_iff.mpr hm.nodup⟩

theorem getLastD_mem_cons (h : P) (l : List P) : l.getLastD h ∈ h :: l :=
  List.mem_of_getLast? (getLast?_cons_getD h l)

theorem headD_mem_append (r : List P) (h : P) : r.headD h ∈ r ++ [h] :=
  List.mem_of_head? (head?_append_headD r h)

theorem mem_of_headD (h : P) (l r : List P) : r.headD h ∈ h :: (l ++ r) := by
  cases r <;> simp

theorem mem_of_getLastD (h : P) (l r : List P) : l.getLastD h ∈ h :: (l ++ r) :=
  List.mem_append_left r (getLastD_mem_cons h l)

theorem dropLast_ne_getLastD (hnd : (h :: l).Nodup) : ∀ x ∈ (h :: l).dropLast, x ≠ l.getLastD h := by
  obtain ⟨ys, hys⟩ := List.getLast?_eq_some_iff.mp (getLast?_cons_getD h l)
  rw [hys] at hnd ⊢
  intro x hx he
  rw [List.dropLast_concat] at hx
  exact List.disjoint_of_nodup_append hnd hx (he ▸ List.mem_singleton_self _)

theorem tail_ne_headD (hnd : (r ++ [h]).Nodup) : ∀ x ∈ (r ++ [h]).tail, x ≠ r.headD h := by
  intro x hx he
  cases r with
  | nil => exact absurd hx List.not_mem_nil
  | cons a r =>
    obtain rfl : x = a := he
    exact (List.nodup_cons.mp hnd).1 hx

section Split

variable (hnd : (h :: (l ++ r)).Nodup)

include hnd

theorem nodup_before : (h :: l).Nodup := (List.nodup_append.mp (show (h :: l ++ r).Nodup from hnd)).1

theorem ne_getLastD : ∀ x ∈ r, x ≠ l.getLastD h := by
  intro x hx he
  have hlist : (h :: l ++ r).Nodup := hnd
  exact List.disjoint_of_nodup_append hlist (he ▸ getLastD_mem_cons h l) hx

theorem ne_headD : ∀ x ∈ l, x ≠ r.headD h := by
  intro x hx he
  obtain ⟨hh, hlr⟩ := List.nodup_cons.mp hnd
  rcases List.mem_append.mp (headD_mem_append r h) with hr | hr
  · exact List.disjoint_of_nodup_append hlr hx (he ▸ hr)
  · exact hh (List.mem_append_left r (List.mem_singleton.mp hr ▸ he ▸ hx))

theorem nodup_after : (r ++ [h]).Nodup := by
  have hlist : (h :: l ++ r).Nodup := hnd
  rw [List.nodup_append_comm, List.singleton_append, List.nodup_cons]
  exact ⟨fun hr => List.disjoint_of_nodup_append hlist List.mem_cons_self hr, hlist.of_append_right⟩

end Split

theorem chain_before (hc : (h :: l).IsChain (Linked m)) (hnd : (h :: (l ++ r)).Nodup)
    (hn : ∀ q ∈ h :: l, q ≠ l.getLastD h → m'.nextOf q = m.nextOf q)
    (hp : ∀ q ∈ l, q ≠ r.headD h → m'.prevOf q = m.prevOf q) : (h :: l).IsChain (Linked m') := by
  refine chain_congr hc (fun q hq => ?_) fun q hq => ?_
  · exact hn q (List.dropLast_subset _ hq) (dropLast_ne_getLastD (nodup_before hnd) q hq)
  · exact hp q hq (ne_headD hnd q hq)

theorem chain_after (hc : (r ++ [h]).IsChain (Linked m)) (hnd : (h :: (l ++ r)).Nodup)
    (hn : ∀ q ∈ r, q ≠ l.getLastD h → m'.nextOf q = m.nextOf q)
    (hp : ∀ q ∈ r ++ [h], q ≠ r.headD h → m'.prevOf q = m.prevOf q) : (r ++ [h]).IsChain (Linked m') := by
  refine chain_congr hc (fun q hq => ?_) fun q hq => ?_
  · rw [List.dropLast_concat] at hq
    exact hn q hq (ne_getLastD hnd q hq)
  · exact hp q (List.mem_of_mem_tail hq) (tail_ne_headD (nodup_after hnd) q hq)

theorem ne_of_fresh (hn : n ∉ h :: (l ++ r)) : (∀ q ∈ h :: l, q ≠ n) ∧ ∀ q ∈ r ++ [h], q ≠ n := by
  refine ⟨fun q hq he => hn (he ▸ List.mem_append_left r hq), fun q hq he => hn (he ▸ ?_)⟩
  rcases List.mem_append.mp hq with hq | hq
  · exact List.mem_cons_of_mem h (List.mem_append_right l hq)
  · exact List.mem_singleton.mp hq ▸ List.mem_cons_self

theorem Cut.alloc_before (hc : Cut m h l r) : (m (l.getLastD h)).isSome := isSome_of_nextOf hc.joint.1

theorem Cut.alloc_after (hc : Cut m h l r) : (m (r.headD h)).isSome := isSome_of_prevOf hc.joint.2

end Rings

section LinkIn

variable [DecidableEq P] {m : Mem P α} {h n x y q : P} {l r ps : List P}

def Mem.linkIn (m : Mem P α) (n x y : P) : Mem P α :=
  (((m.putPrev y n).putNext n y).putPrev n x).putNext x n

theorem nextOf_linkIn_ne (hx : q ≠ x) (hn : q ≠ n) : (m.linkIn n x y).nextOf q = m.nextOf q := by
  rw [Mem.linkIn, nextOf_putNext_ne hx, nextOf_putPrev, nextOf_putNext_ne hn, nextOf_putPrev]

theorem prevOf_linkIn_ne (hy : q ≠ y) (hn : q ≠ n) : (m.linkIn n x y).prevOf q = m.prevOf q := by
  rw [Mem.linkIn, prevOf_putNext, prevOf_putPrev_ne hn, prevOf_putNext, prevOf_putPrev_ne hy]

theorem linked_linkIn_enter (hx : (m x).isSome) (hn : (m n).isSome) :
    Linked (m.linkIn n x y) x n := by
  constructor
  · exact nextOf_putNext_self (by simpa)
  · rw [Mem.linkIn, prevOf_putNext]
    exact prevOf_putPrev_self (by simpa)

theorem linked_linkIn_leave (hn : (m n).isSome) (hy : (m y).isSome) (hxn : n ≠ x) (hyn : y ≠ n) :
    Linked (m.linkIn n x y) n y := by
  constructor
  · rw [Mem.linkIn, nextOf_putNext_ne hxn, nextOf_putPrev]
    exact nextOf_putNext_self (by simpa)
  · rw [Mem.linkIn, prevOf_putNext, prevOf_putPrev_ne hyn, prevOf_putNext]
    exact prevOf_putPrev_self hy

@[simp] theorem dataOf_linkIn : (m.linkIn n x y).dataOf q = m.dataOf q := by simp [Mem.linkIn]

@[simp] theorem linkIn_isSome : (m.linkIn n x y q).isSome = (m q).isSome := by simp [Mem.linkIn]

theorem linkIn_ne (hn : q ≠ n) (hx : q ≠ x) (hy : q ≠ y) : m.linkIn n x y q = m q := by
  rw [Mem.linkIn, Mem.putNext, upd_ne _ hx, Mem.putPrev, upd_ne _ hn, Mem.putNext, upd_ne _ hn,
    Mem.putPrev, upd_ne _ hy]

theorem Ring.linkIn (hr : Ring m h (l ++ r)) (hn : n ∉ h :: (l ++ r)) (ha : (m n).isSome) :
    Ring (m.linkIn n (l.getLastD h) (r.headD h)) h (l ++ n :: r) := by
  have hc := ring_cut.mp hr
  obtain ⟨hl, hrr⟩ := ne_of_fresh hn
  rw [ring_member]
  constructor
  · exact chain_before hc.before hc.nodup (fun q hq hx => nextOf_linkIn_ne hx (hl q hq)) fun q hq hy =>
      prevOf_linkIn_ne hy (hl q (List.mem_cons_of_mem h hq))
  · exact linked_linkIn_enter hc.alloc_before ha
  · exact linked_linkIn_leave ha hc.alloc_after (hl _ (getLastD_mem_cons h l)).symm
      (hrr _ (headD_mem_append r h))
  · exact chain_after hc.after hc.nodup (fun q hq hx => nextOf_linkIn_ne hx
      (hrr q (List.mem_append_left [h] hq))) fun q hq hy => prevOf_linkIn_ne hy (hrr q hq)
  · exact List.nodup_cons.mpr ⟨hn, hc.nodup⟩

end LinkIn

section Unlink

variable [DecidableEq P] [Zero P] {m : Mem P α} {h e x y q : P} {l r ps : List P}

def Mem.unlink (m : Mem P α) (e x y : P) : Mem P α :=
  (((m.putPrev y x).putNext x y).putNext e 0).putPrev e 0

theorem nextOf_unlink_ne (hx : q ≠ x) (he : q ≠ e) : (m.unlink e x y).nextOf q = m.nextOf q := by
  rw [Mem.unlink, nextOf_putPrev, nextOf_putNext_ne he, nextOf_putNext_ne hx, nextOf_putPrev]

theorem prevOf_unlink_ne (hy : q ≠ y) (he : q ≠ e) : (m.unlink e x y).prevOf q = m.prevOf q := by
  rw [Mem.unlink, prevOf_putPrev_ne he, prevOf_putNext, prevOf_putNext, prevOf_putPrev_ne hy]

theorem linked_unlink (hx : (m x).isSome) (hy : (m y).isSome) (hxe : x ≠ e) (hye : y ≠ e) :
    Linked (m.unlink e x y) x y := by
  constructor
  · rw [Mem.unlink, nextOf_putPrev, nextOf_putNext_ne hxe]
    exact nextOf_putNext_self (by simpa)
  · rw [Mem.unlink, prevOf_putPrev_ne hye, prevOf_putNext, prevOf_putNext]
    exact prevOf_putPrev_self hy

@[simp] theorem dataOf_unlink : (m.unlink e x y).dataOf q = m.dataOf q := by simp [Mem.unlink]

@[simp] theorem unlink_isSome : (m.unlink e x y q).isSome = (m q).isSome := by simp [Mem.unlink]

theorem unlink_ne (he : q ≠ e) (hx : q ≠ x) (hy : q ≠ y) : m.unlink e x y q = m q := by
  rw [Mem.unlink, Mem.putPrev, upd_ne _ he, Mem.putNext, upd_ne _ he, Mem.putNext, upd_ne _ hx,
    Mem.putPrev, upd_ne _ hy]

theorem Ring.unlink (hr : Ring m h (l ++ e :: r)) :
    Ring (m.unlink e (l.getLastD h) (r.headD h)) h (l ++ r) := by
  have hm := ring_member.mp hr
  obtain ⟨hfresh, hnd⟩ := List.nodup_cons.mp hm.nodup
  obtain ⟨hl, hrr⟩ := ne_of_fresh hfresh
  rw [ring_cut]
  constructor
  · exact chain_before hm.before hnd (fun q hq hx => nextOf_unlink_ne hx (hl q hq)) fun q hq hy =>
      prevOf_unlink_ne hy (hl q (List.mem_cons_of_mem h hq))
  · exact linked_unlink (isSome_of_nextOf hm.enter.1) (isSome_of_prevOf hm.leave.2)
      (hl _ (getLastD_mem_cons h l)) (hrr _ (headD_mem_append r h))
  · exact chain_after hm.after hnd (fun q hq hx => nextOf_unlink_ne hx
      (hrr q (List.mem_append_left [h] hq))) fun q hq hy => prevOf_unlink_ne hy (hrr q hq)
  · exact hnd

end Unlink

section Ops

variable [DecidableEq P]

def initListHead (list : P) : HeapM P α Unit := do
  setNext list list
  setPrev list list

def listAddBetween (new prev next : P) : HeapM P α Unit := do
  setPrev next new
  setNext new next
  setPrev new prev
  setNext prev new

def listAdd (new head : P) : HeapM P α Unit := do
  let c ← load head
  listAddBetween new head c.next

def listAddTail (new head : P) : HeapM P α Unit := do
  let c ← load head
  listAddBetween new c.prev head

def listDelBetween (prev next : P) : HeapM P α Unit := do
  setPrev next prev
  setNext prev next

def listDel [Zero P] (entry : P) : HeapM P α Unit := do
  let c ← load entry
  listDelBetween c.prev c.next
  setNext entry 0
  setPrev entry 0

def listEmpty (head : P) : HeapM P α Bool := do
  let c ← load head
  pure (c.next = head)

def listForEach (crit : α → Bool) (head : P) : ℕ → P → HeapM P α P
  | 0, _ => throw .hang
  | fuel + 1, pos =>
      if pos = head then pure pos
      else do
        let c ← load pos
        if crit c.data then pure pos else listForEach crit head fuel c.next

variable {m : Mem P α} {h n e x y : P} {l r ps : List P}

omit [DecidableEq P] in
theorem Ring.cell (hr : Ring m h (l ++ e :: r)) :
    ∃ c, m e = some c ∧ c.prev = l.getLastD h ∧ c.next = r.headD h := by
  have hm := ring_member.mp hr
  obtain ⟨c, hc, hn⟩ := Option.map_eq_some_iff.mp hm.leave.1
  have hp := hm.enter.2
  rw [Mem.prevOf, hc] at hp
  exact ⟨c, hc, Option.some.inj hp, hn⟩

omit [DecidableEq P] in
theorem Ring.headCell (hr : Ring m h ps) :
    ∃ c, m h = some c ∧ c.prev = ps.getLastD h ∧ c.next = ps.headD h := by
  have hfirst := (ring_cut (l := []) (r := ps)).mp hr
  have hlast := (ring_cut (l := ps) (r := [])).mp (by rwa [List.append_nil])
  have hnext : m.nextOf h = some (ps.headD h) := hfirst.joint.1
  obtain ⟨c, hc, hn⟩ := Option.map_eq_some_iff.mp hnext
  have hp : m.prevOf h = some (ps.getLastD h) := hlast.joint.2
  rw [Mem.prevOf, hc] at hp
  exact ⟨c, hc, Option.some.inj hp, hn⟩

omit [DecidableEq P] in
theorem Ring.alloc (hr : Ring m h ps) : ∀ p ∈ h :: ps, (m p).isSome := by
  intro p hp
  rcases List.mem_cons.mp hp with rfl | hp
  · obtain ⟨c, hc, -⟩ := hr.headCell
    exact Option.isSome_of_eq_some hc
  · obtain ⟨l, r, rfl⟩ := List.append_of_mem hp
    obtain ⟨c, hc, -⟩ := hr.cell
    exact Option.isSome_of_eq_some hc

omit [DecidableEq P] in
theorem Ring.congr {m' : Mem P α} (hr : Ring m h ps) (hm : ∀ p ∈ h :: ps, m' p = m p) : Ring m' h ps := by
  refine ⟨chain_congr hr.links (fun q hq => ?_) fun q hq => ?_, hr.nodup⟩
  · rw [List.dropLast_concat] at hq
    rw [Mem.nextOf, hm q hq, Mem.nextOf]
  · have hmem : q ∈ h :: ps := by
      rcases List.mem_append.mp (show q ∈ ps ++ [h] from hq) with hq | hq
      · exact List.mem_cons_of_mem h hq
      · exact List.mem_singleton.mp hq ▸ List.mem_cons_self
    rw [Mem.prevOf, hm q hmem, Mem.prevOf]

omit [DecidableEq P] in
theorem Ring.relink {m' : Mem P α} (hr : Ring m h ps) (hn : ∀ p, m'.nextOf p = m.nextOf p)
    (hp : ∀ p, m'.prevOf p = m.prevOf p) : Ring m' h ps :=
  ⟨chain_congr hr.links (fun q _ => hn q) fun q _ => hp q, hr.nodup⟩

omit [DecidableEq P] in
theorem Ring.tmp (hr : Ring m h (l ++ r)) :
    ∃ c, m (r.headD h) = some c ∧ ∀ p r', r = p :: r' → c.next = r'.headD h := by
  cases r with
  | nil =>
    obtain ⟨c, hc, -⟩ := hr.headCell
    exact ⟨c, hc, fun p r' he => by cases he⟩
  | cons p r =>
    obtain ⟨c, hc, -, hn⟩ := hr.cell
    refine ⟨c, hc, fun q r' he => ?_⟩
    cases he
    exact hn

theorem initListHead_ring (hh : (m h).isSome) :
    ∃ m', initListHead h m = .ok () m' ∧ Ring m' h [] ∧ ∀ p, p ≠ h → m' p = m p := by
  refine ⟨(m.putNext h h).putPrev h h, ?_, ⟨?_, List.nodup_singleton h⟩, fun p hp => ?_⟩
  · rw [initListHead, bind_of_ok (setNext_run hh h)]
    exact setPrev_run (by simpa) h
  · rw [List.cons_append, List.nil_append, List.isChain_pair]
    refine ⟨?_, prevOf_putPrev_self (by simpa)⟩
    rw [nextOf_putPrev]
    exact nextOf_putNext_self hh
  · rw [Mem.putPrev, upd_ne _ hp, Mem.putNext, upd_ne _ hp]

theorem listAddBetween_run (hx : (m x).isSome) (hn : (m n).isSome) (hy : (m y).isSome) :
    listAddBetween n x y m = .ok () (m.linkIn n x y) := by
  rw [listAddBetween, bind_of_ok (setPrev_run hy n), bind_of_ok (setNext_run (by simpa) y),
    bind_of_ok (setPrev_run (by simpa) x)]
  exact setNext_run (by simpa) n

theorem listAdd_run (hr : Ring m h (l ++ r)) (hn : (m n).isSome) :
    listAdd n (l.getLastD h) m = .ok () (m.linkIn n (l.getLastD h) (r.headD h)) := by
  have hc := ring_cut.mp hr
  obtain ⟨c, hl, hnext⟩ := Option.map_eq_some_iff.mp hc.joint.1
  rw [listAdd, bind_of_ok (load_run hl), hnext]
  exact listAddBetween_run hc.alloc_before hn hc.alloc_after

theorem listAddTail_run (hr : Ring m h (l ++ r)) (hn : (m n).isSome) :
    listAddTail n (r.headD h) m = .ok () (m.linkIn n (l.getLastD h) (r.headD h)) := by
  have hc := ring_cut.mp hr
  obtain ⟨c, hl, hprev⟩ := Option.map_eq_some_iff.mp hc.joint.2
  rw [listAddTail, bind_of_ok (load_run hl), hprev]
  exact listAddBetween_run hc.alloc_before hn hc.alloc_after

theorem listDel_run [Zero P] (hr : Ring m h (l ++ e :: r)) :
    listDel e m = .ok () (m.unlink e (l.getLastD h) (r.headD h)) := by
  have hm := ring_member.mp hr
  obtain ⟨c, hc, hp, hn⟩ := hr.cell
  have hprev : (m (l.getLastD h)).isSome := isSome_of_nextOf hm.enter.1
  have hnext : (m (r.headD h)).isSome := isSome_of_prevOf hm.leave.2
  have hself : (m e).isSome := Option.isSome_of_eq_some hc
  rw [listDel, bind_of_ok (load_run hc), hp, hn, listDelBetween, bind_assoc,
    bind_of_ok (setPrev_run hnext _), bind_of_ok (setNext_run (by rwa [putPrev_isSome]) _),
    bind_of_ok (setNext_run (by simpa) 0)]
  exact setPrev_run (by simpa) 0

theorem listEmpty_run (hr : Ring m h ps) : listEmpty h m = .ok (decide (ps = [])) m := by
  obtain ⟨c, hc, -, hn⟩ := hr.headCell
  have hiff : c.next = h ↔ ps = [] := by
    rw [hn]
    cases ps with
    | nil => simp
    | cons p ps =>
      have hne := (List.nodup_cons.mp hr.nodup).1
      simp only [List.headD_cons, List.mem_cons, not_or] at hne ⊢
      simpa using Ne.symm hne.1
  rw [listEmpty, bind_of_ok (load_run hc)]
  simp only [hiff]
  rfl

theorem listForEach_run (crit : α → Bool) (fuel : ℕ) : ∀ {l r : List P}, Ring m h (l ++ r) → r.length < fuel →
    listForEach crit h fuel (r.headD h) m = .ok ((r.find? fun p => (m.dataOf p).any crit).getD h) m := by
  induction fuel with
  | zero => intro l r _ hlt; exact absurd hlt (Nat.not_lt_zero _)
  | succ fuel ih =>
    intro l r hr hlt
    rw [listForEach]
    cases r with
    | nil => exact if_pos rfl ▸ rfl
    | cons p r =>
      obtain ⟨c, hc, -, hn⟩ := hr.cell
      have hne : p ≠ h := by
        rintro rfl
        exact (List.nodup_cons.mp hr.nodup).1 (List.mem_append_right l List.mem_cons_self)
      have hdata : (m.dataOf p).any crit = crit c.data := by simp [Mem.dataOf, hc]
      rw [List.headD_cons, if_neg hne, bind_of_ok (load_run hc), List.find?_cons, hdata, hn]
      cases crit c.data with
      | true => rfl
      | false =>
        refine ih (l := l ++ [p]) ?_ (Nat.lt_of_succ_lt_succ hlt)
        rwa [List.append_assoc]

end Ops

end DsrUu.Heap
