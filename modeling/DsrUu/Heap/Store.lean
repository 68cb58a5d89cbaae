import DsrUu.Heap.Table
import Mathlib.Algebra.Ring.Nat
import Mathlib.Data.Fintype.Basic
import Mathlib.Logic.Function.Basic

namespace DsrUu

open Effect Heap

structure Store (ι P α : Type) where
  mem : Mem P α
  heads : ι → TblHead P

abbrev StoreM (ι P α : Type) := EStateM Fault (Store ι P α)

inductive StoreOp (ι P α : Type)
  | kmalloc (p : P) (c : Cell P α)
  | kfree (p : P)
  | add (i : ι) (p : P) (crit : α → Bool)
  | addTail (i : ι) (p : P)
  | find (i : ι) (crit : α → Bool)
  | inTbl (i : ι) (crit : α → Bool)
  | findDo (i : ι) (crit : α → Bool) (f : α → α)
  | detach (i : ι) (p : P)
  | detachFirst (i : ι)
  | findDetach (i : ι) (crit : α → Bool)
  | del (i : ι) (p : P)
  | delFirst (i : ι)
  | findDel (i : ι) (crit : α → Bool)
  | forEachDel (i : ι) (crit : α → Bool)
  | flush (i : ι)

inductive StoreRes (P α : Type)
  | done
  | ptr (p : P)
  | len (n : Option ℕ)
  | code (c : Int)
  | found (b : Bool)
  | count (n : ℕ)
  | data (es : List α)
deriving DecidableEq, Repr

section Exec

variable {ι P α β : Type} [DecidableEq ι] [DecidableEq P] [Zero P]

def onMem (f : HeapM P α β) : StoreM ι P α β := fun s =>
  match f s.mem with
  | .ok b m => .ok b { s with mem := m }
  | .error e m => .error e { s with mem := m }

def onTbl (i : ι) (f : TblHead P → HeapM P α (β × TblHead P)) : StoreM ι P α β := fun s =>
  match f (s.heads i) s.mem with
  | .ok b m => .ok b.1 { mem := m, heads := Function.update s.heads i b.2 }
  | .error e m => .error e { s with mem := m }

def Heap.kmalloc (p : P) (c : Cell P α) : HeapM P α Unit := modify fun m => m.alloc p c

def keepHead (t : TblHead P) (f : HeapM P α β) : HeapM P α (β × TblHead P) := do
  let b ← f
  pure (b, t)

def storeExec (fuel : ℕ) : StoreOp ι P α → StoreM ι P α (StoreRes P α)
  | .kmalloc p c => (fun _ => .done) <$> onMem (Heap.kmalloc p c)
  | .kfree p => (fun _ => .done) <$> onMem (kfree p)
  | .add i p crit => .len <$> onTbl i fun t => tblAdd fuel t p crit
  | .addTail i p => .len <$> onTbl i fun t => tblAddTail t p
  | .find i crit => .ptr <$> onTbl i fun t => keepHead t (tblFind fuel t crit)
  | .inTbl i crit => .found <$> onTbl i fun t => keepHead t (inTbl fuel t crit)
  | .findDo i crit f => .found <$> onTbl i fun t => keepHead t (tblFindDo fuel t (findFunc crit f))
  | .detach i p => .ptr <$> onTbl i fun t => tblDetach t p
  | .detachFirst i => .ptr <$> onTbl i fun t => tblDetachFirst t
  | .findDetach i crit => .ptr <$> onTbl i fun t => tblFindDetach fuel t crit
  | .del i p => .code <$> onTbl i fun t => tblDel t p
  | .delFirst i => (fun _ => .code 0) <$> onTbl i fun t => (fun t => ((), t)) <$> tblDelFirst t
  | .findDel i crit => .code <$> onTbl i fun t => tblFindDel fuel t crit
  | .forEachDel i crit => .count <$> onTbl i fun t => tblForEachDel fuel t crit
  | .flush i => .data <$> onTbl i fun t => tblFlush fuel t

def storeRun (fuel : ℕ) : List (StoreOp ι P α) → StoreM ι P α (List (StoreRes P α))
  | [] => pure []
  | op :: ops => do
      let r ← storeExec fuel op
      let rs ← storeRun fuel ops
      pure (r :: rs)

def Store.init [Fintype ι] (anchor : ι → P) (maxLen : ι → ℕ) (d : α) : Store ι P α where
  mem p := if ∃ i, anchor i = p then some { next := p, prev := p, data := d } else none
  heads i := { head := anchor i, len := 0, maxLen := maxLen i }

end Exec

structure Shelf (ι P α : Type) where
  tbls : ι → Tbl (P × α)
  anchor : ι → P
  held : P → Option α

namespace Shelf

variable {ι P α : Type}

def cells (A : Shelf ι P α) (i : ι) : List P := A.anchor i :: ptrs (A.tbls i).head

def init (anchor : ι → P) (maxLen : ι → ℕ) : Shelf ι P α where
  tbls i := Tbl.init (maxLen i)
  anchor := anchor
  held _ := none

def Contract [Zero P] (A : Shelf ι P α) : StoreOp ι P α → Prop
  | .kmalloc p _ => p ≠ 0 ∧ A.held p = none ∧ ∀ i, p ∉ A.cells i
  | .kfree p => (A.held p).isSome
  | .add _ p _ => (A.held p).isSome
  | .addTail _ p => (A.held p).isSome
  | .detach i p => InTable (A.tbls i) p
  | .del i p => InTable (A.tbls i) p
  | _ => True

def setTbl [DecidableEq ι] (A : Shelf ι P α) (i : ι) (T : Tbl (P × α)) : Shelf ι P α :=
  { A with tbls := Function.update A.tbls i T }

def hold [DecidableEq P] (A : Shelf ι P α) (p : P) (o : Option α) : Shelf ι P α :=
  { A with held := Function.update A.held p o }

def drop [DecidableEq ι] (A : Shelf ι P α) (i : ι) (o : Option ((P × α) × Tbl (P × α))) : Shelf ι P α :=
  A.setTbl i ((o.map Prod.snd).getD (A.tbls i))

variable [DecidableEq ι] [DecidableEq P]

def put (A : Shelf ι P α) (i : ι) (p : P) : Option (Tbl (P × α)) → StoreRes P α × Shelf ι P α
  | none => (.len none, A)
  | some T => (.len (some T.len), (A.setTbl i T).hold p none)

def take [Zero P] (A : Shelf ι P α) (i : ι) : Option ((P × α) × Tbl (P × α)) → StoreRes P α × Shelf ι P α
  | none => (.ptr 0, A)
  | some o => (.ptr o.1.1, (A.setTbl i o.2).hold o.1.1 (some o.1.2))

def step [Zero P] (A : Shelf ι P α) : StoreOp ι P α → StoreRes P α × Shelf ι P α
  | .kmalloc p c => (.done, A.hold p (some c.data))
  | .kfree p => (.done, A.hold p none)
  | .add i p crit => A.put i p ((A.held p).bind fun e => (A.tbls i).add (p, e) (onData crit))
  | .addTail i p => A.put i p ((A.held p).bind fun e => (A.tbls i).addTail (p, e))
  | .find i crit => (.ptr ((((A.tbls i).find (onData crit)).map Prod.fst).getD 0), A)
  | .inTbl i crit => (.found ((A.tbls i).find (onData crit)).isSome, A)
  | .findDo i crit f =>
      (.found ((A.tbls i).find (onData crit)).isSome, A.setTbl i ((A.tbls i).findDo (onData crit) (mapData f)))
  | .detach i p => A.take i ((A.tbls i).findDetach (atPtr p))
  | .detachFirst i => A.take i (A.tbls i).detachFirst
  | .findDetach i crit => A.take i ((A.tbls i).findDetach (onData crit))
  | .del i p =>
      let o := (A.tbls i).findDetach (atPtr p)
      (.code (if o.isSome then 1 else -1), A.drop i o)
  | .delFirst i => (.code 0, A.drop i (A.tbls i).detachFirst)
  | .findDel i crit =>
      (.code (if ((A.tbls i).find (onData crit)).isSome then 1 else -1),
        A.drop i ((A.tbls i).findDetach (onData crit)))
  | .forEachDel i crit =>
      (.count ((A.tbls i).head.filter (onData crit)).length, A.setTbl i ((A.tbls i).forEachDel (onData crit)))
  | .flush i => (.data ((A.tbls i).head.map Prod.snd), A.setTbl i (A.tbls i).flush)

def run [Zero P] (A : Shelf ι P α) : List (StoreOp ι P α) → List (StoreRes P α) × Shelf ι P α
  | [] => ([], A)
  | op :: ops => ((A.step op).1 :: ((A.step op).2.run ops).1, ((A.step op).2.run ops).2)

def Contracts [Zero P] (A : Shelf ι P α) : List (StoreOp ι P α) → Prop
  | [] => True
  | op :: ops => A.Contract op ∧ (A.step op).2.Contracts ops

end Shelf

structure StoreRep {ι P α : Type} [Zero P] (s : Store ι P α) (A : Shelf ι P α) : Prop where
  tbl : ∀ i, TblRep s.mem (s.heads i) (A.tbls i)
  anchor : ∀ i, (s.heads i).head = A.anchor i
  null : s.mem 0 = none
  held : ∀ p e, A.held p = some e → s.mem.dataOf p = some e
  apart : ∀ i j p, p ∈ A.cells i → p ∈ A.cells j → i = j
  free : ∀ i p, p ∈ A.cells i → A.held p = none
  accounted : ∀ p, (s.mem p).isSome → (A.held p).isSome ∨ ∃ i, p ∈ A.cells i

section Lift

variable {ι P α : Type} [DecidableEq ι] [Zero P] {s : Store ι P α} {A : Shelf ι P α} {i : ι}
  {m' : Mem P α} {t' : TblHead P} {T' : Tbl (P × α)} {out : List P} {held' : P → Option α}

structure HandOver (m' : Mem P α) (A : Shelf ι P α) (i : ι) (T' : Tbl (P × α)) (out : List P)
    (held' : P → Option α) : Prop where
  came : ∀ p ∈ ptrs T'.head, p ∈ ptrs (A.tbls i).head ∨ (A.held p).isSome
  put : ∀ p ∈ ptrs T'.head, held' p = none
  keep : ∀ p, p ∉ ptrs T'.head → p ∉ out → held' p = A.held p
  took : ∀ p ∈ out, p ∈ ptrs (A.tbls i).head ∧ ∃ e, held' p = some e ∧ m'.dataOf p = some e

def Store.upd (s : Store ι P α) (i : ι) (m' : Mem P α) (t' : TblHead P) : Store ι P α :=
  { mem := m', heads := Function.update s.heads i t' }

def Shelf.upd (A : Shelf ι P α) (i : ι) (T' : Tbl (P × α)) (held' : P → Option α) : Shelf ι P α :=
  { A with tbls := Function.update A.tbls i T', held := held' }

omit [Zero P] in
theorem cells_upd_self : (A.upd i T' held').cells i = A.anchor i :: ptrs T'.head := by
  simp [Shelf.upd, Shelf.cells]

omit [Zero P] in
theorem cells_upd_ne {j : ι} (hj : j ≠ i) : (A.upd i T' held').cells j = A.cells j := by
  simp [Shelf.upd, Shelf.cells, hj]

omit [DecidableEq ι] in
theorem StoreRep.outside (h : StoreRep s A) {j : ι} {p : P} (hj : j ≠ i) (hp : p ∈ A.cells j) :
    p ∉ (s.heads i).head :: ptrs (A.tbls i).head := by
  rw [h.anchor i]
  exact fun hi => hj (h.apart j i p hp hi)

section Frame

variable (h : StoreRep s A) (hkept : TblKept s.mem m' (s.heads i) t' (A.tbls i) T' out)
  (hh : HandOver m' A i T' out held')

include h hh

omit [DecidableEq ι] in
theorem StoreRep.not_came {j : ι} {p : P} (hj : j ≠ i) (hp : p ∈ A.cells j) : p ∉ ptrs T'.head := by
  intro hT
  rcases hh.came p hT with hi | hheld
  · exact h.outside hj hp (List.mem_cons_of_mem _ hi)
  · rw [h.free j p hp] at hheld
    exact Bool.false_ne_true hheld

omit [DecidableEq ι] in
theorem StoreRep.not_out {j : ι} {p : P} (hj : j ≠ i) (hp : p ∈ A.cells j) : p ∉ out := fun ho =>
  h.outside hj hp (List.mem_cons_of_mem _ (hh.took p ho).1)

include hkept

omit [DecidableEq ι] in
theorem StoreRep.same {j : ι} {p : P} (hj : j ≠ i) (hp : p ∈ A.cells j) : m' p = s.mem p :=
  hkept.frame p (h.outside hj hp) (h.not_came hh hj hp)

omit [DecidableEq ι] in
theorem StoreRep.anchor_out : A.anchor i ∉ ptrs T'.head ∧ A.anchor i ∉ out := by
  have hnew := (List.nodup_cons.mp hkept.rep.ring.nodup).1
  have hold := (List.nodup_cons.mp (h.tbl i).ring.nodup).1
  rw [hkept.head, h.anchor i] at hnew
  rw [h.anchor i] at hold
  exact ⟨hnew, fun ho => hold (hh.took _ ho).1⟩

omit [DecidableEq ι] in
theorem StoreRep.held_upd {p : P} {e : α} (hp : held' p = some e) : m'.dataOf p = some e := by
  have hT : p ∉ ptrs T'.head := fun hT => by
    rw [hh.put p hT] at hp
    cases hp
  by_cases ho : p ∈ out
  · obtain ⟨-, e', he', hdata⟩ := hh.took p ho
    exact hdata.trans (he'.symm.trans hp)
  · have hheld : A.held p = some e := (hh.keep p hT ho).symm.trans hp
    have hcell : p ∉ (s.heads i).head :: ptrs (A.tbls i).head := by
      rw [h.anchor i]
      intro hi
      rw [h.free i p hi] at hheld
      cases hheld
    rw [Mem.dataOf, hkept.frame p hcell hT]
    exact h.held p e hheld

theorem StoreRep.apart_upd {j k : ι} {p : P} (hj : p ∈ (A.upd i T' held').cells j)
    (hk : p ∈ (A.upd i T' held').cells k) : j = k := by
  have hcross : ∀ {j}, j ≠ i → p ∈ A.cells j → p ∉ (A.upd i T' held').cells i := by
    intro j hji hp hi
    rw [cells_upd_self] at hi
    rcases List.mem_cons.mp hi with rfl | hT
    · exact hji (h.apart j i _ hp List.mem_cons_self)
    · exact h.not_came hh hji hp hT
  by_cases hji : j = i
  · subst hji
    by_cases hkj : k = j
    · exact hkj.symm
    · rw [cells_upd_ne hkj] at hk
      exact absurd hj (hcross hkj hk)
  · rw [cells_upd_ne hji] at hj
    by_cases hki : k = i
    · subst hki
      exact absurd hk (hcross hji hj)
    · rw [cells_upd_ne hki] at hk
      exact h.apart j k p hj hk

theorem StoreRep.free_upd {j : ι} {p : P} (hp : p ∈ (A.upd i T' held').cells j) : held' p = none := by
  by_cases hj : j = i
  · subst hj
    rw [cells_upd_self] at hp
    rcases List.mem_cons.mp hp with rfl | hT
    · obtain ⟨hT, ho⟩ := h.anchor_out hkept hh
      rw [hh.keep _ hT ho]
      exact h.free j _ List.mem_cons_self
    · exact hh.put p hT
  · rw [cells_upd_ne hj] at hp
    rw [hh.keep p (h.not_came hh hj hp) (h.not_out hh hj hp)]
    exact h.free j p hp

theorem StoreRep.accounted_upd {p : P} (hp : (m' p).isSome) :
    (held' p).isSome ∨ ∃ j, p ∈ (A.upd i T' held').cells j := by
  by_cases hi : p ∈ (A.upd i T' held').cells i
  · exact Or.inr ⟨i, hi⟩
  by_cases ho : p ∈ out
  · obtain ⟨-, e, he, -⟩ := hh.took p ho
    exact Or.inl (Option.isSome_of_eq_some he)
  rw [cells_upd_self, List.mem_cons, not_or] at hi
  have hT : p ∉ ptrs (A.tbls i).head := fun hT => by
    rw [hkept.freed p hT hi.2 ho] at hp
    exact Bool.false_ne_true hp
  have hcell : p ∉ (s.heads i).head :: ptrs (A.tbls i).head := by
    rw [h.anchor i, List.mem_cons, not_or]
    exact ⟨hi.1, hT⟩
  rw [hkept.frame p hcell hi.2] at hp
  rcases h.accounted p hp with hheld | ⟨j, hj⟩
  · rw [hh.keep p hi.2 ho]
    exact Or.inl hheld
  · have hji : j ≠ i := by
      rintro rfl
      exact (List.mem_cons.mp hj).elim hi.1 hT
    exact Or.inr ⟨j, (cells_upd_ne hji).symm ▸ hj⟩

theorem StoreRep.lift : StoreRep (s.upd i m' t') (A.upd i T' held') where
  tbl j := by
    by_cases hj : j = i
    · subst hj
      simpa [Store.upd, Shelf.upd] using hkept.rep
    · have hsame : ∀ p ∈ (s.heads j).head :: ptrs (A.tbls j).head, m' p = s.mem p := by
        rw [h.anchor j]
        exact fun p hp => h.same hkept hh hj hp
      have hcongr := (h.tbl j).congr hsame hkept.rep.null
      simpa [Store.upd, Shelf.upd, hj] using hcongr
  anchor j := by
    by_cases hj : j = i
    · subst hj
      simpa [Store.upd, Shelf.upd] using hkept.head.trans (h.anchor j)
    · simpa [Store.upd, Shelf.upd, hj] using h.anchor j
  null := hkept.rep.null
  held _ _ hp := h.held_upd hkept hh hp
  apart _ _ _ hj hk := h.apart_upd hkept hh hj hk
  free _ _ hp := h.free_upd hkept hh hp
  accounted _ hp := h.accounted_upd hkept hh hp

end Frame

theorem StoreRep.keep (h : StoreRep s A) (hkept : TblKept s.mem m' (s.heads i) t' (A.tbls i) T' [])
    (hsub : ∀ p ∈ ptrs T'.head, p ∈ ptrs (A.tbls i).head) : StoreRep (s.upd i m' t') (A.setTbl i T') := by
  refine h.lift hkept ⟨fun p hp => Or.inl (hsub p hp), fun p hp => ?_, fun _ _ _ => rfl, by simp⟩
  exact h.free i p (List.mem_cons_of_mem _ (hsub p hp))

variable [DecidableEq P] {p : P} {e : α}

theorem StoreRep.putIn (h : StoreRep s A) (hp : A.held p = some e)
    (hkept : TblKept s.mem m' (s.heads i) t' (A.tbls i) T' [])
    (hperm : (ptrs T'.head).Perm (p :: ptrs (A.tbls i).head)) :
    StoreRep (s.upd i m' t') ((A.setTbl i T').hold p none) := by
  have hmem : ∀ q, q ∈ ptrs T'.head ↔ q = p ∨ q ∈ ptrs (A.tbls i).head := fun q => by
    rw [hperm.mem_iff, List.mem_cons]
  refine h.lift hkept ⟨fun q hq => ?_, fun q hq => ?_, fun q hq _ => ?_, by simp⟩
  · rcases (hmem q).mp hq with rfl | hq
    · exact Or.inr (Option.isSome_of_eq_some hp)
    · exact Or.inl hq
  · by_cases hqp : q = p
    · subst hqp
      exact Function.update_self q none A.held
    · rw [Shelf.setTbl, Function.update_of_ne hqp]
      exact h.free i q (List.mem_cons_of_mem _ (((hmem q).mp hq).resolve_left hqp))
  · exact Function.update_of_ne (fun hqp => hq ((hmem q).mpr (Or.inl hqp))) none A.held

theorem StoreRep.takeOut (h : StoreRep s A) {x : P × α} (hx : x ∈ (A.tbls i).head)
    (hkept : TblKept s.mem m' (s.heads i) t' (A.tbls i) T' [x.1]) (hdata : m'.dataOf x.1 = some x.2)
    (hgone : x.1 ∉ ptrs T'.head) (hsub : ∀ p ∈ ptrs T'.head, p ∈ ptrs (A.tbls i).head) :
    StoreRep (s.upd i m' t') ((A.setTbl i T').hold x.1 (some x.2)) := by
  refine h.lift hkept ⟨fun q hq => Or.inl (hsub q hq), fun q hq => ?_, fun q _ hq => ?_, fun q hq => ?_⟩
  · have hqx : q ≠ x.1 := fun he => hgone (he ▸ hq)
    rw [Shelf.setTbl, Function.update_of_ne hqx]
    exact h.free i q (List.mem_cons_of_mem _ (hsub q hq))
  · exact Function.update_of_ne (fun hqx => hq (List.mem_singleton.mpr hqx)) _ A.held
  · obtain rfl := List.mem_singleton.mp hq
    exact ⟨mem_ptrs hx, x.2, Function.update_self _ _ _, hdata⟩

end Lift

section Members

variable {P α : Type} {T T' : Tbl (P × α)} {x : P × α} {crit : P × α → Bool}

theorem ptrs_add (h : T.add x crit = some T') : (ptrs T'.head).Perm (x.1 :: ptrs T.head) := by
  unfold Tbl.add at h
  split at h
  · cases h
  · cases h
    exact (Tbl.insertBefore_perm crit x T.head).map Prod.fst

theorem ptrs_addTail (h : T.addTail x = some T') : (ptrs T'.head).Perm (x.1 :: ptrs T.head) := by
  obtain ⟨-, rfl⟩ := Tbl.addTail_eq_some h
  exact (List.perm_append_singleton x T.head).map Prod.fst

theorem ptrs_findDetach {o : (P × α) × Tbl (P × α)} (h : T.findDetach crit = some o) :
    ∀ p ∈ ptrs o.2.head, p ∈ ptrs T.head := by
  obtain ⟨x, hfind, rfl⟩ := Option.map_eq_some_iff.mp h
  exact fun p hp => (List.eraseP_sublist.map Prod.fst).subset hp

theorem ptrs_detachFirst {o : (P × α) × Tbl (P × α)} (h : T.detachFirst = some o) :
    ∀ p ∈ ptrs o.2.head, p ∈ ptrs T.head := by
  unfold Tbl.detachFirst at h
  split at h
  · cases h
  · next hT =>
    cases h
    intro p hp
    rw [hT]
    exact List.mem_cons_of_mem _ hp

theorem ptrs_updateFirst (f : α → α) (es : List (P × α)) :
    ptrs (Tbl.updateFirst crit (mapData f) es) = ptrs es := by
  induction es with
  | nil => rfl
  | cons x es ih =>
    rw [Tbl.updateFirst]
    split
    · rfl
    · rw [ptrs_cons, ptrs_cons, ih]

theorem ptrs_forEachDel : ∀ p ∈ ptrs (T.forEachDel crit).head, p ∈ ptrs T.head := fun _ hp =>
  (List.filter_sublist.map Prod.fst).subset hp

theorem ptrs_dropped {o : Option ((P × α) × Tbl (P × α))}
    (h : ∀ o' ∈ o, ∀ p ∈ ptrs o'.2.head, p ∈ ptrs T.head) :
    ∀ p ∈ ptrs ((o.map Prod.snd).getD T).head, p ∈ ptrs T.head := by
  cases o with
  | none => exact fun _ hp => hp
  | some o => exact h o rfl

end Members

section Step

variable {ι P α β : Type} [DecidableEq ι] [DecidableEq P] [Zero P] {s : Store ι P α} {A : Shelf ι P α}
  {i : ι} {p : P} {e : α} {m' : Mem P α} {t' : TblHead P} {T' : Tbl (P × α)} {b : β} {fuel : ℕ}
  {f : TblHead P → HeapM P α (β × TblHead P)} {g : β → StoreRes P α}

def Serves (x : StoreM ι P α (StoreRes P α)) (s : Store ι P α) (a : StoreRes P α × Shelf ι P α) : Prop :=
  ∃ s', x s = .ok a.1 s' ∧ StoreRep s' a.2

omit [DecidableEq P] [Zero P] in
theorem onTbl_run (h : f (s.heads i) s.mem = .ok (b, t') m') : (g <$> onTbl i f) s = .ok (g b) (s.upd i m' t') := by
  change EStateM.map g (onTbl i f) s = _
  unfold EStateM.map onTbl
  rw [h]
  rfl

omit [DecidableEq ι] [DecidableEq P] [Zero P] in
theorem keepHead_run {t : TblHead P} {m : Mem P α} {x : HeapM P α β} (h : x m = .ok b m') :
    keepHead t x m = .ok (b, t) m' := by
  rw [keepHead, bind_of_ok h]
  rfl

omit [DecidableEq P] in
theorem serves_keep (h : StoreRep s A) (hrun : f (s.heads i) s.mem = .ok (b, t') m')
    (hkept : TblKept s.mem m' (s.heads i) t' (A.tbls i) T' [])
    (hsub : ∀ q ∈ ptrs T'.head, q ∈ ptrs (A.tbls i).head) :
    Serves (g <$> onTbl i f) s (g b, A.setTbl i T') :=
  ⟨s.upd i m' t', onTbl_run hrun, h.keep hkept hsub⟩

omit [DecidableEq P] in
theorem serves_look (h : StoreRep s A) (hrun : f (s.heads i) s.mem = .ok (b, s.heads i) s.mem) :
    Serves (g <$> onTbl i f) s (g b, A) := by
  have hkeep := serves_keep (g := g) h hrun (.refl (h.tbl i)) fun _ hq => hq
  rwa [Shelf.setTbl, Function.update_eq_self] at hkeep

theorem serves_put {f : TblHead P → HeapM P α (Option ℕ × TblHead P)} {o : Option (Tbl (P × α))}
    (h : StoreRep s A) (hp : A.held p = some e)
    (hrun : f (s.heads i) s.mem = .ok (o.map Tbl.len, t') m')
    (hkept : TblKept s.mem m' (s.heads i) t' (A.tbls i) (o.getD (A.tbls i)) [])
    (hperm : ∀ T' ∈ o, (ptrs T'.head).Perm (p :: ptrs (A.tbls i).head)) :
    Serves (.len <$> onTbl i f) s (A.put i p o) := by
  refine ⟨s.upd i m' t', ?_, ?_⟩
  · rw [onTbl_run hrun]
    cases o <;> rfl
  · cases o with
    | none =>
      have hkeep := h.keep hkept fun _ hq => hq
      rwa [Option.getD_none, Shelf.setTbl, Function.update_eq_self] at hkeep
    | some T' => exact h.putIn hp hkept (hperm T' rfl)

theorem serves_take {f : TblHead P → HeapM P α (P × TblHead P)} {o : Option ((P × α) × Tbl (P × α))}
    (h : StoreRep s A) (hrun : f (s.heads i) s.mem = .ok (p, t') m')
    (htook : Took s.mem (s.heads i) (A.tbls i) o p t' m')
    (hsub : ∀ o' ∈ o, ∀ q ∈ ptrs o'.2.head, q ∈ ptrs (A.tbls i).head) :
    Serves (.ptr <$> onTbl i f) s (A.take i o) := by
  refine ⟨s.upd i m' t', ?_, ?_⟩
  · rw [onTbl_run hrun]
    cases htook <;> rfl
  · cases htook with
    | none =>
      have hkeep := h.keep (.refl (h.tbl i)) fun _ hq => hq
      rwa [Shelf.setTbl, Function.update_eq_self] at hkeep
    | some hmem hgone hdata hkept => exact h.takeOut hmem hkept hdata hgone (hsub _ rfl)

omit [DecidableEq ι] [Zero P] in
@[simp] theorem held_hold_self (o : Option α) : (A.hold p o).held p = o := by simp [Shelf.hold]

omit [DecidableEq ι] [Zero P] in
theorem held_hold_ne {q : P} (o : Option α) (h : q ≠ p) : (A.hold p o).held q = A.held q := by
  simp [Shelf.hold, h]

omit [DecidableEq ι] in
theorem StoreRep.onHeld {m : Mem P α} {o : Option α} (h : StoreRep s A) (hne : p ≠ 0)
    (hcell : ∀ i, p ∉ A.cells i) (hm : ∀ q, q ≠ p → m q = s.mem q) (ho : m.dataOf p = o) :
    StoreRep { s with mem := m } (A.hold p o) where
  tbl i := by
    refine (h.tbl i).congr (fun q hq => hm q ?_) ((hm 0 hne.symm).trans h.null)
    rw [h.anchor i] at hq
    exact fun he : q = p => hcell i (he ▸ hq)
  anchor := h.anchor
  null := (hm 0 hne.symm).trans h.null
  held q e hq := by
    by_cases hqp : q = p
    · subst hqp
      rw [held_hold_self] at hq
      exact ho.trans hq
    · rw [held_hold_ne o hqp] at hq
      exact (congrArg (Option.map Cell.data) (hm q hqp)).trans (h.held q e hq)
  apart := h.apart
  free i q hq := by
    have hqp : q ≠ p := fun he => hcell i (he ▸ hq)
    rw [held_hold_ne o hqp]
    exact h.free i q hq
  accounted q hq := by
    by_cases hqp : q = p
    · subst hqp
      refine Or.inl ?_
      rw [held_hold_self, ← ho, Mem.dataOf, Option.isSome_map]
      exact hq
    · rw [held_hold_ne o hqp]
      exact h.accounted q (hm q hqp ▸ hq)

theorem serves_kmalloc {c : Cell P α} (h : StoreRep s A) (hc : A.Contract (.kmalloc p c)) :
    Serves (storeExec fuel (.kmalloc p c)) s (A.step (.kmalloc p c)) := by
  obtain ⟨hne, -, hcell⟩ := hc
  refine ⟨{ s with mem := s.mem.alloc p c }, rfl, h.onHeld hne hcell (fun q hq => if_neg hq) ?_⟩
  rw [Mem.dataOf, Mem.alloc, if_pos rfl]
  rfl

theorem serves_kfree (h : StoreRep s A) (hc : A.Contract (.kfree p)) :
    Serves (storeExec fuel (.kfree p)) s (A.step (.kfree p)) := by
  obtain ⟨e, he⟩ := Option.isSome_iff_exists.mp hc
  have halloc := alloc_of_data (h.held p e he)
  have hne : p ≠ 0 := by
    rintro rfl
    rw [h.null] at halloc
    exact Bool.false_ne_true halloc
  have hcell : ∀ i, p ∉ A.cells i := fun i hp => by
    rw [h.free i p hp] at he
    cases he
  refine ⟨{ s with mem := s.mem.free p }, ?_, h.onHeld hne hcell (fun q hq => if_neg hq) ?_⟩
  · change EStateM.map _ (onMem (kfree p)) s = _
    unfold EStateM.map onMem
    rw [Heap.kfree_run halloc]
    rfl
  · rw [Mem.dataOf, Mem.free, if_pos rfl]
    rfl

omit [DecidableEq ι] [DecidableEq P] in
theorem StoreRep.fits (h : StoreRep s A) (hf : 4294967296 ≤ fuel) (i : ι) : (A.tbls i).head.length < fuel := by
  have hwf : (A.tbls i).len = (A.tbls i).head.length := (h.tbl i).wf
  exact hwf ▸ Nat.lt_of_lt_of_le (h.tbl i).len_lt hf

omit [DecidableEq ι] [DecidableEq P] in
theorem StoreRep.away (h : StoreRep s A) (hp : A.held p = some e) (i : ι) :
    p ∉ (s.heads i).head :: ptrs (A.tbls i).head := by
  rw [h.anchor i]
  intro hi
  rw [h.free i p hi] at hp
  cases hp

theorem storeExec_serves (op : StoreOp ι P α) (h : StoreRep s A) (hc : A.Contract op)
    (hf : 4294967296 ≤ fuel) : Serves (storeExec fuel op) s (A.step op) := by
  have hfit := h.fits hf
  cases op with
  | kmalloc p c => exact serves_kmalloc h hc
  | kfree p => exact serves_kfree h hc
  | add i p crit =>
    obtain ⟨e, he⟩ := Option.isSome_iff_exists.mp hc
    obtain ⟨t', m', hrun, hkept⟩ :=
      tblAdd_refines (x := (p, e)) crit (h.tbl i) (h.away he i) (h.held p e he) (hfit i)
    rw [Shelf.step, he, Option.bind_some]
    exact serves_put h he hrun hkept fun T' hT' => ptrs_add hT'
  | addTail i p =>
    obtain ⟨e, he⟩ := Option.isSome_iff_exists.mp hc
    obtain ⟨t', m', hrun, hkept⟩ := tblAddTail_refines (x := (p, e)) (h.tbl i) (h.away he i) (h.held p e he)
    rw [Shelf.step, he, Option.bind_some]
    exact serves_put h he hrun hkept fun T' hT' => ptrs_addTail hT'
  | find i crit => exact serves_look h (keepHead_run (tblFind_run (h.tbl i) (hfit i)))
  | inTbl i crit => exact serves_look h (keepHead_run (inTbl_run (h.tbl i) (hfit i)))
  | findDo i crit f =>
    obtain ⟨m', hrun, hkept⟩ := tblFindDo_refines crit f (h.tbl i) (hfit i)
    refine serves_keep h (keepHead_run hrun) hkept fun q hq => ?_
    rwa [Tbl.findDo, ptrs_updateFirst] at hq
  | detach i p =>
    obtain ⟨q, t', m', hrun, htook⟩ := tblDetach_refines (h.tbl i) hc
    exact serves_take h hrun htook fun o ho => ptrs_findDetach ho
  | detachFirst i =>
    obtain ⟨q, t', m', hrun, htook⟩ := tblDetachFirst_refines (h.tbl i)
    exact serves_take h hrun htook fun o ho => ptrs_detachFirst ho
  | findDetach i crit =>
    obtain ⟨q, t', m', hrun, htook⟩ := tblFindDetach_refines crit (h.tbl i) (hfit i)
    exact serves_take h hrun htook fun o ho => ptrs_findDetach ho
  | del i p =>
    obtain ⟨t', m', hrun, hkept⟩ := tblDel_refines (h.tbl i) hc
    exact serves_keep h hrun hkept (ptrs_dropped fun o ho => ptrs_findDetach ho)
  | delFirst i =>
    obtain ⟨t', m', hrun, hkept⟩ := tblDelFirst_refines (h.tbl i)
    have hmap : ((fun t => ((), t)) <$> tblDelFirst (s.heads i)) s.mem = .ok ((), t') m' := by
      change EStateM.map _ (tblDelFirst (s.heads i)) s.mem = _
      unfold EStateM.map
      rw [hrun]
    exact serves_keep h hmap hkept (ptrs_dropped fun o ho => ptrs_detachFirst ho)
  | findDel i crit =>
    obtain ⟨t', m', hrun, hkept⟩ := tblFindDel_refines crit (h.tbl i) (hfit i)
    exact serves_keep h hrun hkept (ptrs_dropped fun o ho => ptrs_findDetach ho)
  | forEachDel i crit =>
    obtain ⟨t', m', hrun, hkept⟩ := tblForEachDel_refines crit (h.tbl i) (hfit i)
    exact serves_keep h hrun hkept ptrs_forEachDel
  | flush i =>
    obtain ⟨t', m', hrun, hkept⟩ := tblFlush_refines (h.tbl i) (hfit i)
    exact serves_keep h hrun hkept fun q hq => absurd hq List.not_mem_nil

theorem storeRun_serves (hf : 4294967296 ≤ fuel) (ops : List (StoreOp ι P α)) : ∀ {s : Store ι P α}
    {A : Shelf ι P α}, StoreRep s A → A.Contracts ops →
    ∃ s', storeRun fuel ops s = .ok (A.run ops).1 s' ∧ StoreRep s' (A.run ops).2 := by
  induction ops with
  | nil => exact fun {s A} h _ => ⟨s, rfl, h⟩
  | cons op ops ih =>
    intro s A h hc
    obtain ⟨s₁, hrun₁, h₁⟩ := storeExec_serves op h hc.1 hf
    obtain ⟨s₂, hrun₂, h₂⟩ := ih h₁ hc.2
    refine ⟨s₂, ?_, h₂⟩
    rw [storeRun, bind_of_ok hrun₁, bind_of_ok hrun₂]
    rfl

omit [DecidableEq ι] in
theorem store_init [Fintype ι] {anchor : ι → P} {maxLen : ι → ℕ} (d : α) (hinj : Function.Injective anchor)
    (hne : ∀ i, anchor i ≠ 0) (hmax : ∀ i, maxLen i < 4294967296) :
    StoreRep (Store.init anchor maxLen d) (Shelf.init anchor maxLen) := by
  have hhead : ∀ i, (Store.init anchor maxLen d : Store ι P α).mem (anchor i) =
      some { next := anchor i, prev := anchor i, data := d } := fun i => if_pos ⟨i, rfl⟩
  have hnull : (Store.init anchor maxLen d : Store ι P α).mem 0 = none := by
    refine if_neg ?_
    rintro ⟨i, hi⟩
    exact hne i hi
  constructor
  · intro i
    have hnext : (Store.init anchor maxLen d : Store ι P α).mem.nextOf (anchor i) = some (anchor i) := by
      rw [Mem.nextOf, hhead i]
      rfl
    have hprev : (Store.init anchor maxLen d : Store ι P α).mem.prevOf (anchor i) = some (anchor i) := by
      rw [Mem.prevOf, hhead i]
      rfl
    have hring : Ring (Store.init anchor maxLen d : Store ι P α).mem (anchor i) [] :=
      ⟨List.isChain_pair.mpr ⟨hnext, hprev⟩, List.nodup_singleton _⟩
    exact ⟨hring, hnull, fun x hx => absurd hx List.not_mem_nil, rfl, rfl, Tbl.wf_init _, Nat.zero_lt_succ _,
      hmax i⟩
  · exact fun i => rfl
  · exact hnull
  · exact fun p e hp => by cases hp
  · intro i j p hi hj
    exact hinj ((List.mem_singleton.mp hi).symm.trans (List.mem_singleton.mp hj))
  · exact fun i p hp => rfl
  · intro p hp
    by_cases hanchor : ∃ i, anchor i = p
    · obtain ⟨i, rfl⟩ := hanchor
      exact Or.inr ⟨i, List.mem_cons_self⟩
    · have hnone : (Store.init anchor maxLen d : Store ι P α).mem p = none := if_neg hanchor
      rw [hnone] at hp
      exact absurd hp Bool.false_ne_true

theorem storeRun_safe [Fintype ι] {anchor : ι → P} {maxLen : ι → ℕ} (d : α)
    (hinj : Function.Injective anchor) (hne : ∀ i, anchor i ≠ 0) (hmax : ∀ i, maxLen i < 4294967296)
    (hf : 4294967296 ≤ fuel) {ops : List (StoreOp ι P α)}
    (hc : (Shelf.init anchor maxLen : Shelf ι P α).Contracts ops) :
    ∃ s', storeRun fuel ops (Store.init anchor maxLen d) = .ok ((Shelf.init anchor maxLen).run ops).1 s' ∧
      StoreRep s' ((Shelf.init anchor maxLen).run ops).2 :=
  storeRun_serves hf ops (store_init d hinj hne hmax) hc

def moveOps : List (StoreOp Bool ℕ ℕ) :=
  [.kmalloc 10 ⟨7, 7, 5⟩, .addTail false 10, .kmalloc 11 ⟨7, 7, 6⟩, .addTail false 11, .detach false 11,
    .addTail true 11, .detachFirst false, .add true 10 fun e => e = 6, .del true 11, .find true fun e => e = 5,
    .delFirst true]

theorem storeRun_safe_move : ∃ s', storeRun 4294967296 moveOps
    (Store.init (fun b => cond b 2 1) (fun _ => 4) 0 : Store Bool ℕ ℕ) =
    .ok [.done, .len (some 1), .done, .len (some 2), .ptr 11, .len (some 1), .ptr 10, .len (some 2), .code 1,
      .ptr 10, .code 0] s' := by
  have hc : (Shelf.init (fun b => cond b 2 1) (fun _ => 4) : Shelf Bool ℕ ℕ).Contracts moveOps := by
    refine ⟨⟨by decide, rfl, Bool.forall_bool.mpr ⟨by decide, by decide⟩⟩, rfl,
      ⟨by decide, rfl, Bool.forall_bool.mpr ⟨by decide, by decide⟩⟩, rfl, ?_, rfl, trivial, rfl, ?_, trivial,
      trivial, trivial⟩
    · exact Or.inr (by decide)
    · exact Or.inr (by decide)
  have hinj : Function.Injective fun b => cond b 2 1 := by
    intro a b h
    cases a <;> cases b <;> first | rfl | cases h
  obtain ⟨s', hrun, -⟩ := storeRun_safe 0 hinj (Bool.forall_bool.mpr ⟨by decide, by decide⟩)
    (fun _ => by decide) (le_refl 4294967296) hc
  exact ⟨s', hrun⟩

end Step

end DsrUu
