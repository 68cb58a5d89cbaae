import DsrUu.Heap.Store

namespace DsrUu

open Effect Heap

def Tbl.values {P α : Type} (T : Tbl (P × α)) : Tbl α :=
  { head := T.head.map Prod.snd, len := T.len, maxLen := T.maxLen }

section Tables

variable {P α : Type} {T : Tbl (P × α)} {x : P × α} {crit : α → Bool}

theorem values_insertBefore (es : List (P × α)) :
    (Tbl.insertBefore (onData crit) x es).map Prod.snd = Tbl.insertBefore crit x.2 (es.map Prod.snd) := by
  induction es with
  | nil => rfl
  | cons y es ih =>
    rw [Tbl.insertBefore, List.map_cons, Tbl.insertBefore, onData]
    split
    · rfl
    · rw [List.map_cons, ih]

theorem values_add : (T.add x (onData crit)).map Tbl.values = T.values.add x.2 crit := by
  unfold Tbl.add Tbl.values
  split
  · rfl
  · rw [Option.map_some, values_insertBefore]

theorem values_addTail : (T.addTail x).map Tbl.values = T.values.addTail x.2 := by
  unfold Tbl.addTail Tbl.values
  split
  · rfl
  · rw [Option.map_some, List.map_append]
    rfl

theorem values_eraseP (es : List (P × α)) :
    (es.eraseP (onData crit)).map Prod.snd = (es.map Prod.snd).eraseP crit := by
  rw [List.eraseP_map]
  rfl

theorem values_findDetach :
    (T.findDetach (onData crit)).map (fun o => (o.1.2, o.2.values)) = T.values.findDetach crit := by
  rw [Tbl.findDetach, Tbl.findDetach, Tbl.values, List.find?_map, Option.map_map, Option.map_map,
    ← values_eraseP]
  rfl

theorem values_detachFirst :
    T.detachFirst.map (fun o => (o.1.2, o.2.values)) = T.values.detachFirst := by
  unfold Tbl.detachFirst Tbl.values
  cases T.head <;> rfl

theorem values_updateFirst (f : α → α) (es : List (P × α)) :
    (Tbl.updateFirst (onData crit) (mapData f) es).map Prod.snd = Tbl.updateFirst crit f (es.map Prod.snd) := by
  induction es with
  | nil => rfl
  | cons y es ih =>
    rw [Tbl.updateFirst, List.map_cons, Tbl.updateFirst, onData]
    split
    · rfl
    · rw [List.map_cons, ih]

theorem values_findDo (f : α → α) : (T.findDo (onData crit) (mapData f)).values = T.values.findDo crit f := by
  rw [Tbl.findDo, Tbl.values, values_updateFirst]
  rfl

theorem values_forEachDel : (T.forEachDel (onData crit)).values = T.values.forEachDel crit := by
  rw [Tbl.forEachDel, Tbl.values, Tbl.forEachDel, Tbl.values, List.filter_map, List.filter_map,
    List.length_map]
  rfl

theorem values_flush : T.flush.values = T.values.flush := by
  rw [Tbl.flush, Tbl.values, Tbl.flush, Tbl.values, List.length_map]
  rfl

end Tables

section Shelves

variable {ι P α : Type} [DecidableEq ι] [DecidableEq P] [Zero P] {s : Store ι P α} {A : Shelf ι P α} {fuel : ℕ}

def Shelf.values (A : Shelf ι P α) (i : ι) : Tbl α := (A.tbls i).values

def StoreOp.byPtr : StoreOp ι P α → Bool
  | .detach _ _ => true
  | .del _ _ => true
  | _ => false

def StoreOp.onValues (held : P → Option α) (V : ι → Tbl α) : StoreOp ι P α → ι → Tbl α
  | .add i p crit => Function.update V i (((held p).bind fun e => (V i).add e crit).getD (V i))
  | .addTail i p => Function.update V i (((held p).bind fun e => (V i).addTail e).getD (V i))
  | .findDo i crit f => Function.update V i ((V i).findDo crit f)
  | .detachFirst i => Function.update V i (((V i).detachFirst.map Prod.snd).getD (V i))
  | .delFirst i => Function.update V i (((V i).detachFirst.map Prod.snd).getD (V i))
  | .findDetach i crit => Function.update V i ((((V i).findDetach crit).map Prod.snd).getD (V i))
  | .findDel i crit => Function.update V i ((((V i).findDetach crit).map Prod.snd).getD (V i))
  | .forEachDel i crit => Function.update V i ((V i).forEachDel crit)
  | .flush i => Function.update V i (V i).flush
  | _ => V

omit [DecidableEq P] [Zero P] in
theorem values_setTbl (i : ι) (T : Tbl (P × α)) :
    (A.setTbl i T).values = Function.update A.values i T.values := by
  funext j
  by_cases hj : j = i
  · subst hj
    simp [Shelf.values, Shelf.setTbl]
  · simp [Shelf.values, Shelf.setTbl, hj]

omit [Zero P] in
theorem values_put (i : ι) (p : P) (o : Option (Tbl (P × α))) :
    (A.put i p o).2.values = Function.update A.values i ((o.map Tbl.values).getD (A.values i)) := by
  cases o with
  | none => exact (Function.update_eq_self i A.values).symm
  | some T => exact values_setTbl i T

theorem values_take (i : ι) (o : Option ((P × α) × Tbl (P × α))) :
    (A.take i o).2.values =
      Function.update A.values i (((o.map fun o => (o.1.2, o.2.values)).map Prod.snd).getD (A.values i)) := by
  cases o with
  | none => exact (Function.update_eq_self i A.values).symm
  | some o => exact values_setTbl i o.2

omit [DecidableEq P] [Zero P] in
theorem values_drop (i : ι) (o : Option ((P × α) × Tbl (P × α))) :
    (A.drop i o).values =
      Function.update A.values i (((o.map fun o => (o.1.2, o.2.values)).map Prod.snd).getD (A.values i)) := by
  rw [Shelf.drop, values_setTbl]
  cases o <;> rfl

theorem step_values (op : StoreOp ι P α) (hptr : op.byPtr = false) :
    (A.step op).2.values = op.onValues A.held A.values := by
  cases op with
  | kmalloc p c => rfl
  | kfree p => rfl
  | add i p crit =>
    rw [Shelf.step, values_put, StoreOp.onValues]
    cases A.held p with
    | none => rfl
    | some e => rw [Option.bind_some, Option.bind_some, values_add]; rfl
  | addTail i p =>
    rw [Shelf.step, values_put, StoreOp.onValues]
    cases A.held p with
    | none => rfl
    | some e => rw [Option.bind_some, Option.bind_some, values_addTail]; rfl
  | find i crit => rfl
  | inTbl i crit => rfl
  | findDo i crit f =>
    rw [Shelf.step, values_setTbl, values_findDo]
    rfl
  | detach i p => cases hptr
  | detachFirst i =>
    rw [Shelf.step, values_take, values_detachFirst]
    rfl
  | findDetach i crit =>
    rw [Shelf.step, values_take, values_findDetach]
    rfl
  | del i p => cases hptr
  | delFirst i =>
    rw [Shelf.step, values_drop, values_detachFirst]
    rfl
  | findDel i crit =>
    rw [Shelf.step, values_drop, values_findDetach]
    rfl
  | forEachDel i crit =>
    rw [Shelf.step, values_setTbl, values_forEachDel]
    rfl
  | flush i =>
    rw [Shelf.step, values_setTbl, values_flush]
    rfl

def Shelf.runValues : List (StoreOp ι P α) → Shelf ι P α → (ι → Tbl α) → ι → Tbl α
  | [], _, V => V
  | op :: ops, A, V => runValues ops (A.step op).2 (op.onValues A.held V)

theorem run_values {ops : List (StoreOp ι P α)} (hptr : ∀ op ∈ ops, op.byPtr = false) :
    (A.run ops).2.values = A.runValues ops A.values := by
  induction ops generalizing A with
  | nil => rfl
  | cons op ops ih =>
    have hstep := step_values (A := A) op (hptr op List.mem_cons_self)
    simp only [Shelf.run, Shelf.runValues]
    rw [← hstep]
    exact ih fun o ho => hptr o (List.mem_cons_of_mem op ho)

theorem storeRun_values [Fintype ι] {anchor : ι → P} {maxLen : ι → ℕ} (d : α)
    (hinj : Function.Injective anchor) (hne : ∀ i, anchor i ≠ 0) (hmax : ∀ i, maxLen i < 4294967296)
    (hf : 4294967296 ≤ fuel) {ops : List (StoreOp ι P α)}
    (hc : (Shelf.init anchor maxLen : Shelf ι P α).Contracts ops) (hptr : ∀ op ∈ ops, op.byPtr = false) :
    ∃ r s' A', storeRun fuel ops (Store.init anchor maxLen d) = .ok r s' ∧ StoreRep s' A' ∧
      A'.values = (Shelf.init anchor maxLen).runValues ops fun i => Tbl.init (maxLen i) := by
  obtain ⟨s', hrun, hrep⟩ := storeRun_serves hf ops (store_init d hinj hne hmax) hc
  exact ⟨_, s', _, hrun, hrep, run_values hptr⟩

theorem storeRun_values_move : ∃ r s' A', storeRun 4294967296
    [.kmalloc 10 ⟨7, 7, 5⟩, .kmalloc 11 ⟨7, 7, 3⟩, .addTail false 10, .add false 11 (fun e => decide (4 ≤ e)),
      .detachFirst false, .addTail true 11]
      (Store.init (fun b => cond b 2 1) (fun _ => 4) 0 : Store Bool ℕ ℕ) = .ok r s' ∧ StoreRep s' A' ∧
      (A'.values true).head = [3] ∧ (A'.values false).head = [5] := by
  have hc : (Shelf.init (fun b => cond b 2 1) (fun _ => 4) : Shelf Bool ℕ ℕ).Contracts
      [.kmalloc 10 ⟨7, 7, 5⟩, .kmalloc 11 ⟨7, 7, 3⟩, .addTail false 10, .add false 11 (fun e => decide (4 ≤ e)),
        .detachFirst false, .addTail true 11] :=
    ⟨⟨by decide, rfl, Bool.forall_bool.mpr ⟨by decide, by decide⟩⟩,
      ⟨by decide, rfl, Bool.forall_bool.mpr ⟨by decide, by decide⟩⟩, rfl, rfl, trivial, rfl, trivial⟩
  have hinj : Function.Injective fun b => cond b 2 1 := by
    intro a b h
    cases a <;> cases b <;> first | rfl | cases h
  obtain ⟨r, s', A', hrun, hrep, hvals⟩ := storeRun_values 0 hinj (Bool.forall_bool.mpr ⟨by decide, by decide⟩)
    (fun _ => by decide) (le_refl 4294967296) hc (by simp [StoreOp.byPtr])
  refine ⟨r, s', A', hrun, hrep, ?_, ?_⟩
  · rw [hvals]
    rfl
  · rw [hvals]
    rfl

end Shelves

end DsrUu
