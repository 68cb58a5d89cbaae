import DsrUu.Heap.Ring
import DsrUu.Tbl
import Mathlib.Data.List.Find

namespace DsrUu

open Effect Heap

structure TblHead (P : Type) where
  head : P
  len : ℕ
  maxLen : ℕ
deriving DecidableEq, Repr

section Functions

variable {P α : Type} [DecidableEq P] [Zero P]

def tblInsert (fuel : ℕ) (t : TblHead P) (l : P) (crit : α → Bool) : HeapM P α Unit := do
  if ← listEmpty t.head then listAdd l t.head
  else
    let h ← load t.head
    let pos ← listForEach crit t.head fuel h.next
    let c ← load pos
    listAdd l c.prev

def tblAdd (fuel : ℕ) (t : TblHead P) (l : P) (crit : α → Bool) : HeapM P α (Option ℕ × TblHead P) := do
  if t.maxLen ≤ t.len then pure (none, t)
  else
    tblInsert fuel t l crit
    let len := incUint32 t.len
    pure (some len, { t with len := len })

def tblAddTail (t : TblHead P) (l : P) : HeapM P α (Option ℕ × TblHead P) := do
  if t.maxLen ≤ t.len then pure (none, t)
  else
    listAddTail l t.head
    let len := incUint32 t.len
    pure (some len, { t with len := len })

def tblFind (fuel : ℕ) (t : TblHead P) (crit : α → Bool) : HeapM P α P := do
  let h ← load t.head
  let pos ← listForEach crit t.head fuel h.next
  pure (if pos = t.head then 0 else pos)

def tblDetach (t : TblHead P) (l : P) : HeapM P α (P × TblHead P) := do
  if ← listEmpty t.head then pure (0, t)
  else
    listDel l
    pure (l, { t with len := decUint32 t.len })

def tblDel (t : TblHead P) (l : P) : HeapM P α (Int × TblHead P) := do
  let r ← tblDetach t l
  if r.1 = 0 then pure (-1, r.2)
  else
    kfree l
    pure (1, r.2)

def findFunc (crit : α → Bool) (f : α → α) (e : α) : Bool × α := (crit e, if crit e then f e else e)

def tblFindDoLoop (func : α → Bool × α) (head : P) : ℕ → P → P → HeapM P α Bool
  | 0, _, _ => throw .hang
  | fuel + 1, pos, tmp =>
      if pos = head then pure false
      else do
        let c ← load pos
        update pos fun c => { c with data := (func c.data).2 }
        if (func c.data).1 then pure true
        else
          let n ← load tmp
          tblFindDoLoop func head fuel tmp n.next

def tblFindDo (fuel : ℕ) (t : TblHead P) (func : α → Bool × α) : HeapM P α Bool := do
  let h ← load t.head
  let f ← load h.next
  tblFindDoLoop func t.head fuel h.next f.next

def tblFindDetach (fuel : ℕ) (t : TblHead P) (crit : α → Bool) : HeapM P α (P × TblHead P) := do
  let e ← tblFind fuel t crit
  if e = 0 then pure (0, t)
  else
    listDel e
    pure (e, { t with len := decUint32 t.len })

def tblDetachFirst (t : TblHead P) : HeapM P α (P × TblHead P) := do
  if ← listEmpty t.head then pure (0, t)
  else
    let h ← load t.head
    listDel h.next
    pure (h.next, { t with len := decUint32 t.len })

def tblFindDel (fuel : ℕ) (t : TblHead P) (crit : α → Bool) : HeapM P α (Int × TblHead P) := do
  let e ← tblFind fuel t crit
  if e = 0 then pure (-1, t)
  else
    listDel e
    kfree e
    pure (1, { t with len := decUint32 t.len })

def tblDelFirst (t : TblHead P) : HeapM P α (TblHead P) := do
  let r ← tblDetachFirst t
  if r.1 = 0 then pure r.2
  else
    kfree r.1
    pure r.2

def tblForEachDelLoop (crit : α → Bool) : ℕ → TblHead P → P → P → ℕ → HeapM P α (ℕ × TblHead P)
  | 0, _, _, _, _ => throw .hang
  | fuel + 1, t, pos, tmp, n =>
      if pos = t.head then pure (n, t)
      else do
        let c ← load pos
        if crit c.data then
          listDel pos
          kfree pos
          let next ← load tmp
          tblForEachDelLoop crit fuel { t with len := decUint32 t.len } tmp next.next (n + 1)
        else
          let next ← load tmp
          tblForEachDelLoop crit fuel t tmp next.next n

def tblForEachDel (fuel : ℕ) (t : TblHead P) (crit : α → Bool) : HeapM P α (ℕ × TblHead P) := do
  let h ← load t.head
  let f ← load h.next
  tblForEachDelLoop crit fuel t h.next f.next 0

def inTbl (fuel : ℕ) (t : TblHead P) (crit : α → Bool) : HeapM P α Bool := do
  let e ← tblFind fuel t crit
  pure (e ≠ 0)

def tblFlushLoop : ℕ → TblHead P → P → P → List α → HeapM P α (List α × TblHead P)
  | 0, _, _, _, _ => throw .hang
  | fuel + 1, t, pos, tmp, out =>
      if pos = t.head then pure (out, t)
      else do
        listDel pos
        let c ← load pos
        kfree pos
        let next ← load tmp
        tblFlushLoop fuel { t with len := decUint32 t.len } tmp next.next (out ++ [c.data])

def tblFlush (fuel : ℕ) (t : TblHead P) : HeapM P α (List α × TblHead P) := do
  let h ← load t.head
  let f ← load h.next
  tblFlushLoop fuel t h.next f.next []

end Functions

def ptrs {P α : Type} (es : List (P × α)) : List P := es.map Prod.fst

section Ptrs

variable {P α : Type} {es l r : List (P × α)} {x : P × α}

@[simp] theorem ptrs_nil : ptrs ([] : List (P × α)) = [] := rfl

@[simp] theorem ptrs_cons : ptrs (x :: es) = x.1 :: ptrs es := rfl

@[simp] theorem ptrs_append : ptrs (l ++ r) = ptrs l ++ ptrs r := List.map_append

@[simp] theorem length_ptrs : (ptrs es).length = es.length := List.length_map _

theorem mem_ptrs (h : x ∈ es) : x.1 ∈ ptrs es := List.mem_map_of_mem h

theorem headD_ptrs (r : List (P × α)) (h : P) : (r.head?.map Prod.fst).getD h = (ptrs r).headD h := by
  cases r <;> rfl

end Ptrs

section Entries

variable {P α : Type} {T : Tbl (P × α)} {l r : List (P × α)} {x : P × α}

def mapData (f : α → α) (x : P × α) : P × α := (x.1, f x.2)

def onData (crit : α → Bool) (x : P × α) : Bool := crit x.2

def atPtr [DecidableEq P] (p : P) (x : P × α) : Bool := x.1 = p

theorem insertBefore_split {α : Type} (crit : α → Bool) (x : α) (es : List α) :
    ∃ l r, es = l ++ r ∧ Tbl.insertBefore crit x es = l ++ x :: r ∧ (∀ y ∈ l, crit y = false) ∧
      ∀ y ∈ r.head?, crit y = true := by
  induction es with
  | nil => exact ⟨[], [], rfl, rfl, by simp, by simp⟩
  | cons y es ih =>
    cases hy : crit y with
    | true => exact ⟨[], y :: es, rfl, by simp [Tbl.insertBefore, hy], by simp, by simp [hy]⟩
    | false =>
      obtain ⟨l, r, hes, hins, hl, hr⟩ := ih
      refine ⟨y :: l, r, by rw [hes]; rfl, by simp [Tbl.insertBefore, hy, hins], ?_, hr⟩
      simpa [hy] using hl

theorem find?_of_split {α : Type} {crit : α → Bool} {l r : List α} (hl : ∀ y ∈ l, crit y = false)
    (hr : ∀ y ∈ r.head?, crit y = true) : (l ++ r).find? crit = r.head? := by
  rw [List.find?_append, List.find?_eq_none.mpr fun y hy => by simp [hl y hy], Option.none_or]
  cases r with
  | nil => rfl
  | cons y r => rw [List.find?_cons, hr y rfl, List.head?_cons]

theorem find_split {crit : P × α → Bool} (hfind : T.find crit = some x) :
    ∃ l r, T.head = l ++ x :: r ∧ T.findDetach crit = some (x, { T with head := l ++ r, len := T.len - 1 }) := by
  obtain ⟨hx, l, r, hT, hl⟩ := List.find?_eq_some_iff_append.mp hfind
  refine ⟨l, r, hT, ?_⟩
  rw [Tbl.findDetach, ← Tbl.find, hfind, hT, List.eraseP_append_right _ fun y hy => by simpa using hl y hy,
    List.eraseP_cons_of_pos hx]
  rfl

theorem findDetach_none {crit : P × α → Bool} (hfind : T.find crit = none) : T.findDetach crit = none := by
  rw [Tbl.findDetach, ← Tbl.find, hfind]
  rfl

end Entries

theorem alloc_of_data {P α : Type} {m : Mem P α} {p : P} {a : α} (h : m.dataOf p = some a) :
    (m p).isSome := by
  obtain ⟨c, hc, -⟩ := Option.map_eq_some_iff.mp h
  exact Option.isSome_of_eq_some hc

structure TblRep {P α : Type} [Zero P] (m : Mem P α) (t : TblHead P) (T : Tbl (P × α)) : Prop where
  ring : Ring m t.head (ptrs T.head)
  null : m 0 = none
  data : ∀ x ∈ T.head, m.dataOf x.1 = some x.2
  len : t.len = T.len
  maxLen : t.maxLen = T.maxLen
  wf : T.WF
  len_lt : T.len < 4294967296
  maxLen_lt : T.maxLen < 4294967296

structure TblKept {P α : Type} [Zero P] (m m' : Mem P α) (t t' : TblHead P) (T T' : Tbl (P × α))
    (out : List P) : Prop where
  rep : TblRep m' t' T'
  head : t'.head = t.head
  frame : ∀ p, p ∉ t.head :: ptrs T.head → p ∉ ptrs T'.head → m' p = m p
  freed : ∀ p ∈ ptrs T.head, p ∉ ptrs T'.head → p ∉ out → m' p = none

inductive Took {P α : Type} [Zero P] (m : Mem P α) (t : TblHead P) (T : Tbl (P × α)) :
    Option ((P × α) × Tbl (P × α)) → P → TblHead P → Mem P α → Prop
  | none : Took m t T none 0 t m
  | some {x : P × α} {t' : TblHead P} {m' : Mem P α} {T' : Tbl (P × α)} (mem : x ∈ T.head)
      (gone : x.1 ∉ ptrs T'.head) (data : m'.dataOf x.1 = some x.2) (kept : TblKept m m' t t' T T' [x.1]) :
      Took m t T (some (x, T')) x.1 t' m'

section Steps

variable {P α : Type} [Zero P] {m m' : Mem P α} {t : TblHead P} {T : Tbl (P × α)} {l r es : List (P × α)}
  {x : P × α} {p : P} {crit : α → Bool}

theorem TblRep.congr (h : TblRep m t T) (hm : ∀ p ∈ t.head :: ptrs T.head, m' p = m p) (hnull : m' 0 = none) :
    TblRep m' t T := by
  refine ⟨h.ring.congr hm, hnull, fun x hx => ?_, h.len, h.maxLen, h.wf, h.len_lt, h.maxLen_lt⟩
  rw [Mem.dataOf, hm _ (List.mem_cons_of_mem _ (mem_ptrs hx)), ← Mem.dataOf]
  exact h.data x hx

theorem TblRep.ne_null (h : TblRep m t T) : ∀ p ∈ t.head :: ptrs T.head, p ≠ 0 := by
  rintro p hp rfl
  have ha := h.ring.alloc 0 hp
  rw [h.null] at ha
  exact absurd ha Bool.false_ne_true

theorem TblRep.room_iff (h : TblRep m t T) : t.maxLen ≤ t.len ↔ T.maxLen ≤ T.len := by
  rw [h.len, h.maxLen]

theorem TblRep.ne_head (h : TblRep m t T) (hx : x ∈ T.head) : x.1 ≠ t.head := by
  intro he
  exact (List.nodup_cons.mp h.ring.nodup).1 (he ▸ mem_ptrs hx)

theorem TblRep.ring_at (h : TblRep m t T) (hT : T.head = l ++ r) : Ring m t.head (ptrs l ++ ptrs r) := by
  rw [← ptrs_append, ← hT]
  exact h.ring

theorem TblRep.ring_mem (h : TblRep m t T) (hT : T.head = l ++ x :: r) :
    Ring m t.head (ptrs l ++ x.1 :: ptrs r) := h.ring_at hT

omit [Zero P] in
theorem mem_of_split (hT : T.head = l ++ x :: r) : x ∈ T.head := hT ▸ List.mem_append_right l List.mem_cons_self

theorem TblRep.fresh (h : TblRep m t T) (hT : T.head = l ++ x :: r) : x.1 ∉ t.head :: ptrs (l ++ r) := by
  rw [ptrs_append]
  exact (List.nodup_cons.mp (ring_member.mp (h.ring_mem hT)).nodup).1

theorem TblRep.count (h : TblRep m t T) (hT : T.head = l ++ r) : T.len = l.length + r.length := by
  have hwf : T.len = T.head.length := h.wf
  rw [hwf, hT, List.length_append]

theorem TblRep.find_ptrs (h : TblRep m t T) :
    ((ptrs T.head).find? fun p => (m.dataOf p).any crit) = (T.find (onData crit)).map Prod.fst := by
  rw [ptrs, List.find?_map, Tbl.find]
  refine congrArg (Option.map Prod.fst) (List.find?_congr fun x hx => ?_)
  rw [Function.comp_apply, h.data x hx, Option.any_some]
  rfl

theorem TblKept.refl (h : TblRep m t T) : TblKept m m t t T T [] :=
  ⟨h, rfl, fun _ _ _ => rfl, fun _ hp hp' => absurd hp hp'⟩

theorem TblKept.trans {m₁ : Mem P α} {t₁ t' : TblHead P} {T₁ T' : Tbl (P × α)} {out : List P}
    (hr : TblRep m t T) (h : TblKept m m₁ t t₁ T T₁ []) (h' : TblKept m₁ m' t₁ t' T₁ T' out)
    (hsub : ∀ q ∈ ptrs T₁.head, q ∈ ptrs T.head) : TblKept m m' t t' T T' out := by
  have hin : ∀ q, q ∉ t.head :: ptrs T.head → q ∉ ptrs T₁.head := fun q hq hq₁ =>
    hq (List.mem_cons_of_mem _ (hsub q hq₁))
  have hout : ∀ q, q ∉ t.head :: ptrs T.head → q ∉ t₁.head :: ptrs T₁.head := by
    intro q hq
    rw [h.head, List.mem_cons, not_or]
    exact ⟨fun he => hq (he ▸ List.mem_cons_self), hin q hq⟩
  refine ⟨h'.rep, h'.head.trans h.head, fun q hq hq' => ?_, fun q hq hq' hheld => ?_⟩
  · rw [h'.frame q (hout q hq) hq']
    exact h.frame q hq (hin q hq)
  · by_cases hq₁ : q ∈ ptrs T₁.head
    · exact h'.freed q hq₁ hq' hheld
    · have hhead : q ∉ t₁.head :: ptrs T₁.head := by
        rw [h.head, List.mem_cons, not_or]
        exact ⟨fun he => (List.nodup_cons.mp hr.ring.nodup).1 (he ▸ hq), hq₁⟩
      rw [h'.frame q hhead hq']
      exact h.freed q hq hq₁ List.not_mem_nil

variable [DecidableEq P]

theorem TblRep.insert (h : TblRep m t T) (hT : T.head = l ++ r) (hx : x.1 ∉ t.head :: ptrs T.head)
    (hdata : m.dataOf x.1 = some x.2) (hroom : T.len < T.maxLen) :
    TblKept m (m.linkIn x.1 ((ptrs l).getLastD t.head) ((ptrs r).headD t.head)) t
      { t with len := incUint32 t.len } T { T with head := l ++ x :: r, len := T.len + 1 } [] := by
  have hlt := h.maxLen_lt
  have hcount := h.count hT
  have hsplit : ptrs T.head = ptrs l ++ ptrs r := by rw [hT, ptrs_append]
  have hprev : (ptrs l).getLastD t.head ∈ t.head :: ptrs T.head := hsplit ▸ mem_of_getLastD t.head _ _
  have hnext : (ptrs r).headD t.head ∈ t.head :: ptrs T.head := hsplit ▸ mem_of_headD t.head _ _
  have hx0 : x.1 ≠ 0 := by
    intro he
    have ha := alloc_of_data hdata
    rw [he, h.null] at ha
    exact absurd ha Bool.false_ne_true
  have hnull := h.ne_null
  refine ⟨⟨?_, ?_, fun y hy => ?_, ?_, h.maxLen, ?_, ?_, hlt⟩, rfl, fun p hp hp' => ?_, fun p hp hp' => ?_⟩
  · rw [ptrs_append, ptrs_cons]
    exact (h.ring_at hT).linkIn (hsplit ▸ hx) (alloc_of_data hdata)
  · rw [linkIn_ne hx0.symm (hnull _ hprev).symm (hnull _ hnext).symm]
    exact h.null
  · rw [dataOf_linkIn]
    rcases List.mem_append.mp hy with hy | hy
    · exact h.data y (hT ▸ List.mem_append_left r hy)
    · rcases List.mem_cons.mp hy with rfl | hy
      · exact hdata
      · exact h.data y (hT ▸ List.mem_append_right l hy)
  · simp only [h.len, incUint32]
    omega
  · simp only [Tbl.WF, List.length_append, List.length_cons]
    omega
  · exact Nat.lt_of_le_of_lt hroom hlt
  · refine linkIn_ne (fun hpx => hp' (hpx ▸ ?_)) (fun hpl => hp (hpl ▸ hprev)) fun hpr => hp (hpr ▸ hnext)
    rw [ptrs_append, ptrs_cons]
    exact List.mem_append_right _ List.mem_cons_self
  · refine absurd ?_ hp'
    rw [hsplit, List.mem_append] at hp
    rw [ptrs_append, ptrs_cons, List.mem_append, List.mem_cons]
    exact hp.imp_right Or.inr

theorem TblRep.remove (h : TblRep m t T) (hT : T.head = l ++ x :: r) :
    TblKept m (m.unlink x.1 ((ptrs l).getLastD t.head) ((ptrs r).headD t.head)) t
      { t with len := decUint32 t.len } T { T with head := l ++ r, len := T.len - 1 } [x.1] := by
  have hlt := h.len_lt
  have hcount := h.count hT
  rw [List.length_cons] at hcount
  have hsplit : ptrs T.head = ptrs l ++ x.1 :: ptrs r := by rw [hT, ptrs_append, ptrs_cons]
  have hmem : ∀ q ∈ t.head :: (ptrs l ++ ptrs r), q ∈ t.head :: ptrs T.head := by
    rw [hsplit]
    intro q hq
    simp only [List.mem_cons, List.mem_append] at hq ⊢
    tauto
  have hx : x.1 ∈ t.head :: ptrs T.head := by simp [hT]
  have hprev := hmem _ (mem_of_getLastD t.head (ptrs l) (ptrs r))
  have hnext := hmem _ (mem_of_headD t.head (ptrs l) (ptrs r))
  have hnull := h.ne_null
  refine ⟨⟨?_, ?_, fun y hy => ?_, ?_, h.maxLen, ?_, ?_, h.maxLen_lt⟩, rfl, fun q hq _ => ?_,
    fun q hq hq' hqp => ?_⟩
  · rw [ptrs_append]
    exact (h.ring_mem hT).unlink
  · rw [unlink_ne (hnull _ hx).symm (hnull _ hprev).symm (hnull _ hnext).symm]
    exact h.null
  · rw [dataOf_unlink]
    refine h.data y (hT ▸ ?_)
    exact List.mem_append.mpr ((List.mem_append.mp hy).imp_right (List.mem_cons_of_mem x))
  · simp only [h.len, decUint32]
    omega
  · simp only [Tbl.WF, List.length_append]
    omega
  · exact Nat.lt_of_le_of_lt (Nat.sub_le _ _) hlt
  · exact unlink_ne (fun he => hq (he ▸ hx)) (fun he => hq (he ▸ hprev)) fun he => hq (he ▸ hnext)
  · rw [hsplit] at hq
    simp only [ptrs_append, List.mem_append, List.mem_cons, List.not_mem_nil, or_false] at hq hq' hqp
    tauto

theorem TblKept.free {t' : TblHead P} {T' : Tbl (P × α)} (h : TblKept m m' t t' T T' [p])
    (hp : p ∈ ptrs T.head) (hp' : p ∉ t'.head :: ptrs T'.head) : TblKept m (m'.free p) t t' T T' [] := by
  have hne : ∀ q, q ≠ p → m'.free p q = m' q := fun q hq => if_neg hq
  have hnull : m'.free p 0 = none := by
    unfold Mem.free
    split
    · rfl
    · exact h.rep.null
  refine ⟨h.rep.congr (fun q hq => hne q fun he => hp' (he ▸ hq)) hnull, h.head, fun q hq hq' => ?_,
    fun q hq hq' _ => ?_⟩
  · rw [hne q fun he => hq (he ▸ List.mem_cons_of_mem _ hp)]
    exact h.frame q hq hq'
  · by_cases he : q = p
    · exact if_pos he
    · rw [hne q he]
      exact h.freed q hq hq' fun hm => he (List.mem_singleton.mp hm)

theorem TblRep.removeFree (h : TblRep m t T) (hT : T.head = l ++ x :: r) :
    TblKept m ((m.unlink x.1 ((ptrs l).getLastD t.head) ((ptrs r).headD t.head)).free x.1) t
      { t with len := decUint32 t.len } T { T with head := l ++ r, len := T.len - 1 } [] :=
  (h.remove hT).free (mem_ptrs (mem_of_split hT)) (h.fresh hT)

theorem TblRep.kfree_run (h : TblRep m t T) (hT : T.head = l ++ x :: r) :
    kfree x.1 (m.unlink x.1 ((ptrs l).getLastD t.head) ((ptrs r).headD t.head)) =
      .ok () ((m.unlink x.1 ((ptrs l).getLastD t.head) ((ptrs r).headD t.head)).free x.1) := by
  refine Heap.kfree_run ?_
  rw [unlink_isSome]
  exact alloc_of_data (h.data x (mem_of_split hT))

theorem TblRep.listDel_run (h : TblRep m t T) (hT : T.head = l ++ x :: r) :
    listDel x.1 m = .ok () (m.unlink x.1 ((ptrs l).getLastD t.head) ((ptrs r).headD t.head)) :=
  Heap.listDel_run (h.ring_mem hT)

theorem TblRep.took (h : TblRep m t T) (hT : T.head = l ++ x :: r) :
    Took m t T (some (x, { T with head := l ++ r, len := T.len - 1 })) x.1 { t with len := decUint32 t.len }
      (m.unlink x.1 ((ptrs l).getLastD t.head) ((ptrs r).headD t.head)) :=
  .some (mem_of_split hT) (fun hx => h.fresh hT (List.mem_cons_of_mem _ hx)) (dataOf_unlink.trans (h.data x (mem_of_split hT))) (h.remove hT)

end Steps

section Ops

variable {P α : Type} [DecidableEq P] [Zero P] {m : Mem P α} {t : TblHead P} {T : Tbl (P × α)}
  {l r : List (P × α)} {x : P × α} {p : P} {crit : α → Bool} {fuel : ℕ}

theorem tblAddTail_refines (h : TblRep m t T) (hx : x.1 ∉ t.head :: ptrs T.head)
    (hdata : m.dataOf x.1 = some x.2) :
    ∃ t' m', tblAddTail t x.1 m = .ok ((T.addTail x).map Tbl.len, t') m' ∧
      TblKept m m' t t' T ((T.addTail x).getD T) [] := by
  by_cases hfull : T.maxLen ≤ T.len
  · rw [Tbl.addTail_of_full x hfull, tblAddTail, if_pos (h.room_iff.mpr hfull)]
    exact ⟨t, m, rfl, .refl h⟩
  · have hroom := Nat.lt_of_not_le hfull
    have hkept := h.insert (List.append_nil _).symm hx hdata hroom
    have hlen : incUint32 t.len = T.len + 1 := hkept.rep.len
    have hrun : listAddTail x.1 t.head m = .ok () (m.linkIn x.1 ((ptrs T.head).getLastD t.head) t.head) :=
      listAddTail_run (h.ring_at (List.append_nil _).symm) (alloc_of_data hdata)
    rw [Tbl.addTail_of_lt x hroom, tblAddTail, if_neg (mt h.room_iff.mp hfull)]
    refine ⟨_, _, ?_, hkept⟩
    rw [bind_of_ok hrun, ← hlen]
    rfl

theorem TblRep.search_run (h : TblRep m t T) (hf : T.head.length < fuel) :
    listForEach crit t.head fuel ((ptrs T.head).headD t.head) m =
      .ok (((T.find (onData crit)).map Prod.fst).getD t.head) m := by
  rw [← h.find_ptrs]
  exact listForEach_run crit fuel (l := []) h.ring (length_ptrs.symm ▸ hf)

variable (crit) in
theorem tblInsert_run (h : TblRep m t T) (hdata : m.dataOf x.1 = some x.2) (hf : T.head.length < fuel) :
    ∃ l r, T.head = l ++ r ∧ Tbl.insertBefore (onData crit) x T.head = l ++ x :: r ∧
      tblInsert fuel t x.1 crit m = .ok () (m.linkIn x.1 ((ptrs l).getLastD t.head) ((ptrs r).headD t.head)) := by
  obtain ⟨l, r, hT, hins, hl, hr⟩ := insertBefore_split (onData crit) x T.head
  have halloc := alloc_of_data hdata
  have hring := h.ring_at hT
  refine ⟨l, r, hT, hins, ?_⟩
  rw [tblInsert, bind_of_ok (listEmpty_run h.ring)]
  by_cases hempty : ptrs T.head = []
  · have hnil : l = [] ∧ r = [] := by
      rw [hT, ptrs_append, List.append_eq_nil_iff] at hempty
      exact ⟨List.map_eq_nil_iff.mp hempty.1, List.map_eq_nil_iff.mp hempty.2⟩
    obtain ⟨rfl, rfl⟩ := hnil
    rw [decide_eq_true hempty, if_pos rfl]
    exact listAdd_run hring halloc
  · obtain ⟨c, hc, -, hnext⟩ := h.ring.headCell
    have hpos : ((T.find (onData crit)).map Prod.fst).getD t.head = (ptrs r).headD t.head := by
      rw [Tbl.find, hT, find?_of_split hl hr, headD_ptrs]
    have hloop : listForEach crit t.head fuel c.next m = .ok ((ptrs r).headD t.head) m := by
      rw [hnext, ← hpos]
      exact h.search_run hf
    obtain ⟨c', hc', hprev⟩ := Option.map_eq_some_iff.mp (ring_cut.mp hring).joint.2
    rw [decide_eq_false hempty, if_neg Bool.false_ne_true, bind_of_ok (load_run hc), bind_of_ok hloop,
      bind_of_ok (load_run hc'), hprev]
    exact listAdd_run hring halloc

variable (crit) in
theorem tblAdd_refines (h : TblRep m t T) (hx : x.1 ∉ t.head :: ptrs T.head) (hdata : m.dataOf x.1 = some x.2)
    (hf : T.head.length < fuel) :
    ∃ t' m', tblAdd fuel t x.1 crit m = .ok ((T.add x (onData crit)).map Tbl.len, t') m' ∧
      TblKept m m' t t' T ((T.add x (onData crit)).getD T) [] := by
  by_cases hfull : T.maxLen ≤ T.len
  · rw [Tbl.add, if_pos hfull, tblAdd, if_pos (h.room_iff.mpr hfull)]
    exact ⟨t, m, rfl, .refl h⟩
  · obtain ⟨l, r, hT, hins, hrun⟩ := tblInsert_run crit h hdata hf
    have hkept := h.insert hT hx hdata (Nat.lt_of_not_le hfull)
    have hlen : incUint32 t.len = T.len + 1 := hkept.rep.len
    rw [Tbl.add, if_neg hfull, tblAdd, if_neg (mt h.room_iff.mp hfull), hins]
    refine ⟨_, _, ?_, hkept⟩
    rw [bind_of_ok hrun, ← hlen]
    rfl

theorem tblFind_run (h : TblRep m t T) (hf : T.head.length < fuel) :
    tblFind fuel t crit m = .ok (((T.find (onData crit)).map Prod.fst).getD 0) m := by
  obtain ⟨c, hc, -, hnext⟩ := h.ring.headCell
  rw [tblFind, bind_of_ok (load_run hc), hnext, bind_of_ok (h.search_run hf)]
  refine congrArg (EStateM.Result.ok · m) ?_
  cases hfind : T.find (onData crit) with
  | none => exact if_pos rfl
  | some y => exact if_neg (h.ne_head (List.mem_of_find?_eq_some hfind))

theorem inTbl_run (h : TblRep m t T) (hf : T.head.length < fuel) :
    inTbl fuel t crit m = .ok (T.find (onData crit)).isSome m := by
  rw [inTbl, bind_of_ok (tblFind_run h hf)]
  refine congrArg (EStateM.Result.ok · m) ?_
  cases hfind : T.find (onData crit) with
  | none => simp
  | some y =>
    have hne := h.ne_null y.1 (List.mem_cons_of_mem _ (mem_ptrs (List.mem_of_find?_eq_some hfind)))
    simp [hne]

variable (crit) in
theorem tblFindDetach_refines (h : TblRep m t T) (hf : T.head.length < fuel) :
    ∃ p t' m', tblFindDetach fuel t crit m = .ok (p, t') m' ∧ Took m t T (T.findDetach (onData crit)) p t' m' := by
  rw [tblFindDetach, bind_of_ok (tblFind_run h hf)]
  cases hfind : T.find (onData crit) with
  | none =>
    rw [findDetach_none hfind, Option.map_none, Option.getD_none, if_pos rfl]
    exact ⟨0, t, m, rfl, .none⟩
  | some x =>
    obtain ⟨l, r, hT, hdetach⟩ := find_split hfind
    have hne : x.1 ≠ 0 := h.ne_null x.1 (List.mem_cons_of_mem _ (mem_ptrs (mem_of_split hT)))
    rw [hdetach, Option.map_some, Option.getD_some, if_neg hne, bind_of_ok (h.listDel_run hT)]
    exact ⟨x.1, _, _, rfl, h.took hT⟩

variable (crit) in
theorem tblFindDel_refines (h : TblRep m t T) (hf : T.head.length < fuel) :
    ∃ t' m', tblFindDel fuel t crit m = .ok (if (T.find (onData crit)).isSome then 1 else -1, t') m' ∧
      TblKept m m' t t' T (((T.findDetach (onData crit)).map Prod.snd).getD T) [] := by
  rw [tblFindDel, bind_of_ok (tblFind_run h hf)]
  cases hfind : T.find (onData crit) with
  | none =>
    rw [findDetach_none hfind, Option.map_none, Option.getD_none, if_pos rfl]
    exact ⟨t, m, rfl, .refl h⟩
  | some x =>
    obtain ⟨l, r, hT, hdetach⟩ := find_split hfind
    have hne : x.1 ≠ 0 := h.ne_null x.1 (List.mem_cons_of_mem _ (mem_ptrs (mem_of_split hT)))
    rw [hdetach, Option.map_some, Option.getD_some, if_neg hne, bind_of_ok (h.listDel_run hT),
      bind_of_ok (h.kfree_run hT)]
    exact ⟨_, _, rfl, h.removeFree hT⟩

omit [Zero P] in
theorem find_atPtr (h : p ∈ ptrs T.head) : ∃ x, T.find (atPtr p) = some x ∧ x.1 = p := by
  obtain ⟨y, hy, rfl⟩ := List.mem_map.mp h
  cases hfind : T.find (atPtr y.1) with
  | none => exact absurd (decide_eq_true rfl) (List.find?_eq_none.mp hfind y hy)
  | some x =>
    have hx : atPtr y.1 x = true := List.find?_some hfind
    exact ⟨x, rfl, of_decide_eq_true hx⟩

omit [Zero P] in
theorem findDetach_ptr {o : (P × α) × Tbl (P × α)} (h : T.findDetach (atPtr p) = some o) : o.1.1 = p := by
  obtain ⟨x, hfind, rfl⟩ := Option.map_eq_some_iff.mp h
  have hx : atPtr p x = true := List.find?_some hfind
  exact of_decide_eq_true hx

theorem TblRep.empty_iff (h : TblRep m t T) : listEmpty t.head m = .ok (decide (T.head = [])) m := by
  rw [listEmpty_run h.ring]
  simp [ptrs]

def InTable (T : Tbl (P × α)) (p : P) : Prop := T.head = [] ∨ p ∈ ptrs T.head

theorem tblDetach_refines (h : TblRep m t T) (hp : InTable T p) :
    ∃ q t' m', tblDetach t p m = .ok (q, t') m' ∧ Took m t T (T.findDetach (atPtr p)) q t' m' := by
  rw [tblDetach, bind_of_ok h.empty_iff]
  by_cases hempty : T.head = []
  · rw [decide_eq_true hempty, if_pos rfl, Tbl.findDetach, hempty]
    exact ⟨0, t, m, rfl, .none⟩
  · obtain ⟨x, hfind, rfl⟩ := find_atPtr (hp.resolve_left hempty)
    obtain ⟨l, r, hT, hdetach⟩ := find_split hfind
    rw [decide_eq_false hempty, if_neg Bool.false_ne_true, hdetach, bind_of_ok (h.listDel_run hT)]
    exact ⟨x.1, _, _, rfl, h.took hT⟩

theorem took_released {o : Option ((P × α) × Tbl (P × α))} {t' : TblHead P} {m' : Mem P α} (h : TblRep m t T)
    (htook : Took m t T o p t' m') : (o = none ∧ p = 0 ∧ t' = t ∧ m' = m) ∨
      ∃ o', o = some o' ∧ o'.1.1 = p ∧ p ≠ 0 ∧ kfree p m' = .ok () (m'.free p) ∧
        TblKept m (m'.free p) t t' T o'.2 [] := by
  cases htook with
  | none => exact Or.inl ⟨rfl, rfl, rfl, rfl⟩
  | some hmem hgone hdata hkept =>
    refine Or.inr ⟨_, rfl, rfl, h.ne_null _ (List.mem_cons_of_mem _ (mem_ptrs hmem)),
      Heap.kfree_run (alloc_of_data hdata), hkept.free (mem_ptrs hmem) ?_⟩
    rw [hkept.head, List.mem_cons, not_or]
    exact ⟨h.ne_head hmem, hgone⟩

theorem tblDel_refines (h : TblRep m t T) (hp : InTable T p) :
    ∃ t' m', tblDel t p m = .ok (if (T.findDetach (atPtr p)).isSome then 1 else -1, t') m' ∧
      TblKept m m' t t' T (((T.findDetach (atPtr p)).map Prod.snd).getD T) [] := by
  obtain ⟨q, t', m', hrun, htook⟩ := tblDetach_refines h hp
  rw [tblDel, bind_of_ok hrun]
  rcases took_released h htook with ⟨ho, rfl, rfl, rfl⟩ | ⟨o, ho, hq, hne, hfree, hkept⟩
  · rw [ho]
    refine ⟨t', m', ?_, .refl h⟩
    rw [if_pos rfl]
    rfl
  · obtain rfl := hq.symm.trans (findDetach_ptr ho)
    rw [ho]
    refine ⟨t', m'.free q, ?_, hkept⟩
    rw [if_neg hne, bind_of_ok hfree]
    rfl

theorem tblDetachFirst_refines (h : TblRep m t T) :
    ∃ p t' m', tblDetachFirst t m = .ok (p, t') m' ∧ Took m t T T.detachFirst p t' m' := by
  rw [tblDetachFirst, bind_of_ok h.empty_iff]
  cases hT : T.head with
  | nil =>
    rw [decide_eq_true rfl, if_pos rfl, Tbl.detachFirst, hT]
    exact ⟨0, t, m, rfl, .none⟩
  | cons x r =>
    obtain ⟨c, hc, -, hnext⟩ := h.ring.headCell
    rw [hT, ptrs_cons, List.headD_cons] at hnext
    rw [decide_eq_false (List.cons_ne_nil x r), if_neg Bool.false_ne_true, bind_of_ok (load_run hc), hnext,
      bind_of_ok (h.listDel_run (l := []) hT), Tbl.detachFirst, hT]
    exact ⟨x.1, _, _, rfl, h.took (l := []) hT⟩

theorem tblDelFirst_refines (h : TblRep m t T) :
    ∃ t' m', tblDelFirst t m = .ok t' m' ∧ TblKept m m' t t' T ((T.detachFirst.map Prod.snd).getD T) [] := by
  obtain ⟨p, t', m', hrun, htook⟩ := tblDetachFirst_refines h
  rw [tblDelFirst, bind_of_ok hrun]
  generalize T.detachFirst = o at htook ⊢
  rcases took_released h htook with ⟨rfl, rfl, rfl, rfl⟩ | ⟨o, rfl, -, hne, hfree, hkept⟩
  · refine ⟨t', m', ?_, .refl h⟩
    rw [if_pos rfl]
    rfl
  · refine ⟨t', m'.free p, ?_, hkept⟩
    rw [if_neg hne, bind_of_ok hfree]
    rfl

end Ops

section Loops

variable {P α : Type} [DecidableEq P] [Zero P] {m : Mem P α} {t : TblHead P} {T : Tbl (P × α)}
  {l r : List (P × α)} {x : P × α} {tmp : P} {crit : α → Bool} {fuel : ℕ}

def Ahead (t : TblHead P) (r : List (P × α)) (tmp : P) : Prop :=
  ∀ p r', ptrs r = p :: r' → tmp = r'.headD t.head

omit [DecidableEq P] in
theorem TblRep.tmp_run (h : TblRep m t T) (hT : T.head = l ++ r) :
    ∃ c, load ((ptrs r).headD t.head) m = .ok c m ∧ Ahead t r c.next := by
  obtain ⟨c, hc, hnext⟩ := (h.ring_at hT).tmp
  exact ⟨c, load_run hc, hnext⟩

omit [DecidableEq P] in
theorem TblRep.start_run (h : TblRep m t T) :
    ∃ c f, load t.head m = .ok c m ∧ c.next = (ptrs T.head).headD t.head ∧
      load c.next m = .ok f m ∧ Ahead t T.head f.next := by
  obtain ⟨c, hc, -, hnext⟩ := h.ring.headCell
  obtain ⟨f, hf, hahead⟩ := h.tmp_run (l := []) rfl
  exact ⟨c, f, load_run hc, hnext, hnext ▸ hf, hahead⟩

theorem TblRep.putData (h : TblRep m t T) (hT : T.head = l ++ x :: r) (f : α → α) :
    TblKept m (m.putData x.1 f) t t T { T with head := l ++ mapData f x :: r } [] := by
  have hring := h.ring_mem hT
  have hptrs : ptrs (l ++ mapData f x :: r) = ptrs T.head := by
    rw [hT, ptrs_append, ptrs_append]
    rfl
  have hfresh := h.fresh hT
  rw [List.mem_cons, not_or] at hfresh
  have hother : ∀ y ∈ l ++ r, (m.putData x.1 f).dataOf y.1 = some y.2 := by
    intro y hy
    have hne : y.1 ≠ x.1 := fun he => hfresh.2 (he ▸ mem_ptrs hy)
    rw [dataOf_putData, if_neg hne]
    refine h.data y (hT ▸ ?_)
    exact List.mem_append.mpr ((List.mem_append.mp hy).imp_right (List.mem_cons_of_mem x))
  refine ⟨⟨?_, ?_, fun y hy => ?_, h.len, h.maxLen, ?_, h.len_lt, h.maxLen_lt⟩, rfl, fun p hp _ => ?_,
    fun p hp hp' => absurd (hptrs ▸ hp) hp'⟩
  · rw [hptrs]
    exact h.ring.relink (fun p => nextOf_putData f) fun p => prevOf_putData f
  · rw [Mem.putData, upd_ne _ (h.ne_null _ (List.mem_cons_of_mem _ (mem_ptrs (mem_of_split hT)))).symm]
    exact h.null
  · rcases List.mem_append.mp hy with hy | hy
    · exact hother y (List.mem_append_left r hy)
    · rcases List.mem_cons.mp hy with rfl | hy
      · rw [mapData, dataOf_putData, if_pos rfl, h.data x (mem_of_split hT)]
        rfl
      · exact hother y (List.mem_append_right l hy)
  · have hcount := h.count hT
    rw [List.length_cons] at hcount
    simp only [Tbl.WF, List.length_append, List.length_cons]
    exact hcount
  · refine upd_ne _ fun he => hp (he ▸ ?_)
    exact List.mem_cons_of_mem _ (mem_ptrs (mem_of_split hT))

variable (crit) in
theorem tblFindDoLoop_run (f : α → α) (h : TblRep m t T) (fuel : ℕ) : ∀ {l r : List (P × α)} {tmp : P},
    T.head = l ++ r → r.length < fuel → Ahead t r tmp → ∃ m',
      tblFindDoLoop (findFunc crit f) t.head fuel ((ptrs r).headD t.head) tmp m =
          .ok (r.any (onData crit)) m' ∧
        TblKept m m' t t T { T with head := l ++ Tbl.updateFirst (onData crit) (mapData f) r } [] := by
  induction fuel with
  | zero => intro l r tmp _ hlt; exact absurd hlt (Nat.not_lt_zero _)
  | succ fuel ih =>
    intro l r tmp hT hlt htmp
    rw [tblFindDoLoop]
    cases r with
    | nil =>
      rw [ptrs_nil, List.headD_nil, if_pos rfl, Tbl.updateFirst, ← hT]
      exact ⟨m, rfl, .refl h⟩
    | cons x r =>
      obtain ⟨c, hc, hdata⟩ := Option.map_eq_some_iff.mp (h.data x (mem_of_split hT))
      rw [ptrs_cons, List.headD_cons, if_neg (h.ne_head (mem_of_split hT)), bind_of_ok (load_run hc),
        bind_of_ok (update_run (Option.isSome_of_eq_some hc) _), hdata, Tbl.updateFirst, List.any_cons]
      cases hcrit : onData crit x with
      | true =>
        have hfunc : findFunc crit f x.2 = (true, f x.2) := by
          rw [findFunc, show crit x.2 = true from hcrit, if_pos rfl]
        have hmap : mapData (fun e => (findFunc crit f e).2) x = mapData f x := by
          rw [mapData, hfunc, mapData]
        rw [hfunc, if_pos rfl, if_pos rfl, Bool.true_or]
        exact ⟨_, rfl, hmap ▸ h.putData hT fun e => (findFunc crit f e).2⟩
      | false =>
        have hfunc : findFunc crit f x.2 = (false, x.2) := by
          rw [findFunc, show crit x.2 = false from hcrit, if_neg Bool.false_ne_true]
        have hsame : m.upd x.1 (fun c => { c with data := (findFunc crit f c.data).2 }) = m := by
          refine upd_id _ fun c' hc' => ?_
          obtain rfl := Option.some.inj (hc.symm.trans hc')
          rw [hdata, hfunc, ← hdata]
        have hT' : T.head = l ++ [x] ++ r := by rw [hT, List.append_assoc, List.singleton_append]
        obtain rfl := htmp x.1 (ptrs r) rfl
        obtain ⟨n, hn, hahead⟩ := h.tmp_run hT'
        obtain ⟨m', hrun, hkept⟩ := ih hT' (Nat.lt_of_succ_lt_succ hlt) hahead
        rw [hfunc, if_neg Bool.false_ne_true, if_neg Bool.false_ne_true, hsame, bind_of_ok hn, hrun,
          Bool.false_or]
        refine ⟨m', rfl, ?_⟩
        rwa [List.append_assoc, List.singleton_append] at hkept

variable (crit) in
theorem tblFindDo_refines (f : α → α) (h : TblRep m t T) (hf : T.head.length < fuel) :
    ∃ m', tblFindDo fuel t (findFunc crit f) m = .ok (T.find (onData crit)).isSome m' ∧
      TblKept m m' t t T (T.findDo (onData crit) (mapData f)) [] := by
  obtain ⟨c, n, hc, hnext, hn, hahead⟩ := h.start_run
  obtain ⟨m', hrun, hkept⟩ := tblFindDoLoop_run crit f h fuel (l := []) rfl hf hahead
  rw [tblFindDo, bind_of_ok hc, bind_of_ok hn, hnext, hrun, Tbl.find, List.isSome_find?]
  exact ⟨m', rfl, hkept⟩

variable (crit) in
theorem tblForEachDelLoop_run (fuel : ℕ) : ∀ {m : Mem P α} {t : TblHead P} {T : Tbl (P × α)}
    {l r : List (P × α)} {tmp : P} {n : ℕ}, TblRep m t T → T.head = l ++ r → r.length < fuel → Ahead t r tmp →
    ∃ t' m', tblForEachDelLoop crit fuel t ((ptrs r).headD t.head) tmp n m =
        .ok (n + (r.filter (onData crit)).length, t') m' ∧
      TblKept m m' t t' T { T with
        head := l ++ r.filter (fun e => !onData crit e)
        len := T.len - (r.filter (onData crit)).length } [] := by
  induction fuel with
  | zero => intro m t T l r tmp n _ _ hlt; exact absurd hlt (Nat.not_lt_zero _)
  | succ fuel ih =>
    intro m t T l r tmp n h hT hlt htmp
    rw [tblForEachDelLoop]
    cases r with
    | nil =>
      rw [ptrs_nil, List.headD_nil, if_pos rfl, List.filter_nil, List.filter_nil, ← hT]
      exact ⟨t, m, rfl, .refl h⟩
    | cons x r =>
      obtain ⟨c, hc, hdata⟩ := Option.map_eq_some_iff.mp (h.data x (mem_of_split hT))
      obtain rfl := htmp x.1 (ptrs r) rfl
      rw [ptrs_cons, List.headD_cons, if_neg (h.ne_head (mem_of_split hT)), bind_of_ok (load_run hc), hdata,
        List.filter_cons, List.filter_cons]
      cases hcrit : onData crit x with
      | true =>
        have hkept := h.removeFree hT
        obtain ⟨k, hk, hahead⟩ := hkept.rep.tmp_run rfl
        obtain ⟨t', m', hrun, hkept'⟩ := ih (n := n + 1) hkept.rep rfl (Nat.lt_of_succ_lt_succ hlt) hahead
        rw [show crit x.2 = true from hcrit, if_pos rfl, bind_of_ok (h.listDel_run hT),
          bind_of_ok (h.kfree_run hT), bind_of_ok hk]
        have hsub : ∀ q ∈ ptrs (l ++ r), q ∈ ptrs T.head := by
          rw [hT]
          exact fun q hq => List.map_subset _ ((List.Sublist.refl l).append (List.sublist_cons_self x r)).subset hq
        refine ⟨t', m', ?_, ?_⟩
        · have hsum : n + 1 + (r.filter (onData crit)).length = n + ((r.filter (onData crit)).length + 1) := by
            omega
          rw [if_pos rfl, List.length_cons, ← hsum]
          exact hrun
        · have htrans := hkept.trans h hkept' hsub
          rw [if_pos rfl, List.length_cons, Nat.add_comm _ 1, ← Nat.sub_sub]
          exact htrans
      | false =>
        have hT' : T.head = l ++ [x] ++ r := by rw [hT, List.append_assoc, List.singleton_append]
        obtain ⟨k, hk, hahead⟩ := h.tmp_run hT'
        obtain ⟨t', m', hrun, hkept⟩ := ih (n := n) h hT' (Nat.lt_of_succ_lt_succ hlt) hahead
        rw [show crit x.2 = false from hcrit, if_neg Bool.false_ne_true, bind_of_ok hk]
        refine ⟨t', m', hrun, ?_⟩
        rwa [List.append_assoc, List.singleton_append] at hkept

variable (crit) in
theorem tblForEachDel_refines (h : TblRep m t T) (hf : T.head.length < fuel) :
    ∃ t' m', tblForEachDel fuel t crit m = .ok ((T.head.filter (onData crit)).length, t') m' ∧
      TblKept m m' t t' T (T.forEachDel (onData crit)) [] := by
  obtain ⟨c, n, hc, hnext, hn, hahead⟩ := h.start_run
  obtain ⟨t', m', hrun, hkept⟩ := tblForEachDelLoop_run crit fuel (n := 0) h (l := []) rfl hf hahead
  rw [tblForEachDel, bind_of_ok hc, bind_of_ok hn, hnext, hrun, Nat.zero_add]
  exact ⟨t', m', rfl, hkept⟩

theorem tblFlushLoop_run (fuel : ℕ) : ∀ {m : Mem P α} {t : TblHead P} {T : Tbl (P × α)} {tmp : P}
    (out : List α), TblRep m t T → T.head.length < fuel → Ahead t T.head tmp →
    ∃ t' m', tblFlushLoop fuel t ((ptrs T.head).headD t.head) tmp out m =
        .ok (out ++ T.head.map Prod.snd, t') m' ∧ TblKept m m' t t' T T.flush [] := by
  induction fuel with
  | zero => intro m t T tmp out _ hlt; exact absurd hlt (Nat.not_lt_zero _)
  | succ fuel ih =>
    intro m t T tmp out h hlt htmp
    rw [tblFlushLoop, Tbl.flush]
    cases hT : T.head with
    | nil =>
      rw [ptrs_nil, List.headD_nil, if_pos rfl, List.map_nil, List.append_nil, List.length_nil, Nat.sub_zero, ← hT]
      exact ⟨t, m, rfl, .refl h⟩
    | cons x r =>
      rw [hT] at hlt htmp
      have hkept := h.removeFree (l := []) hT
      obtain rfl := htmp x.1 (ptrs r) rfl
      obtain ⟨c, hc, hcx⟩ := Option.map_eq_some_iff.mp
        ((dataOf_unlink (m := m) (e := x.1) (x := (ptrs []).getLastD t.head) (y := (ptrs r).headD t.head)).trans
          (h.data x (mem_of_split (l := []) hT)))
      obtain ⟨k, hk, hahead⟩ := hkept.rep.tmp_run (l := []) rfl
      obtain ⟨t', m', hrun, hkept'⟩ := ih (out ++ [c.data]) hkept.rep (Nat.lt_of_succ_lt_succ hlt) hahead
      rw [ptrs_cons, List.headD_cons, if_neg (h.ne_head (mem_of_split (l := []) hT)),
        bind_of_ok (h.listDel_run (l := []) hT), bind_of_ok (load_run hc), bind_of_ok (h.kfree_run (l := []) hT),
        bind_of_ok hk]
      refine ⟨t', m', ?_, ?_⟩
      · have happ : out ++ (x :: r).map Prod.snd = out ++ [c.data] ++ r.map Prod.snd := by simp [hcx]
        rw [happ]
        exact hrun
      · have htrans := hkept.trans h hkept' fun q hq => by rw [hT]; exact List.mem_cons_of_mem _ hq
        rw [List.length_cons, Nat.add_comm _ 1, ← Nat.sub_sub]
        exact htrans

theorem tblFlush_refines (h : TblRep m t T) (hf : T.head.length < fuel) :
    ∃ t' m', tblFlush fuel t m = .ok (T.head.map Prod.snd, t') m' ∧ TblKept m m' t t' T T.flush [] := by
  obtain ⟨c, n, hc, hnext, hn, hahead⟩ := h.start_run
  obtain ⟨t', m', hrun, hkept⟩ := tblFlushLoop_run fuel [] h hf hahead
  rw [tblFlush, bind_of_ok hc, bind_of_ok hn, hnext, hrun, List.nil_append]
  exact ⟨t', m', rfl, hkept⟩

end Loops

end DsrUu
