import Mathlib.Algebra.GroupWithZero.Nat
import Mathlib.Data.List.Basic
import Mathlib.Tactic.Common

namespace Bytes

def writeAt (b : List UInt8) (off : ℕ) (xs : List UInt8) : List UInt8 :=
  b.mapIdx fun i x => if off ≤ i then xs.getD (i - off) x else x

def readAt (b : List UInt8) (off len : ℕ) : List UInt8 :=
  (List.range len).map fun i => b.getD (off + i) 0

def be16 (hi lo : UInt8) : ℕ := 256 * hi.toNat + lo.toNat

def toBe16 (n : ℕ) : List UInt8 := [UInt8.ofNat (n / 256), UInt8.ofNat n]

def fill (mem : ℕ → UInt8) (len : ℕ) : List UInt8 := (List.range len).map mem

variable {b xs : List UInt8} {off i : ℕ}

@[simp]
theorem length_writeAt : (writeAt b off xs).length = b.length := by
  simp [writeAt]

@[simp]
theorem length_readAt (b : List UInt8) (off len : ℕ) : (readAt b off len).length = len := by
  simp [readAt]

@[simp]
theorem length_fill (mem : ℕ → UInt8) (len : ℕ) : (fill mem len).length = len := by
  simp [fill]

@[simp]
theorem length_toBe16 (n : ℕ) : (toBe16 n).length = 2 := rfl

theorem getElem?_writeAt (b : List UInt8) (off : ℕ) (xs : List UInt8) (i : ℕ) :
    (writeAt b off xs)[i]? =
      if off ≤ i ∧ i < off + xs.length ∧ i < b.length then xs[i - off]? else b[i]? := by
  unfold writeAt
  rw [List.getElem?_mapIdx]
  by_cases hi : i < b.length
  · rw [List.getElem?_eq_getElem hi]
    by_cases ho : off ≤ i
    · by_cases hx : i - off < xs.length
      · rw [if_pos ⟨ho, by omega, hi⟩]
        simp [ho, List.getD_eq_getElem?_getD, List.getElem?_eq_getElem hx]
      · rw [if_neg (by omega)]
        simp [ho, List.getD_eq_getElem?_getD, List.getElem?_eq_none (Nat.le_of_not_lt hx)]
    · rw [if_neg (by omega)]
      simp [ho]
  · rw [if_neg (by omega), List.getElem?_eq_none (Nat.le_of_not_lt hi)]
    rfl

theorem getD_writeAt (b : List UInt8) (off : ℕ) (xs : List UInt8) (i : ℕ) :
    (writeAt b off xs).getD i 0 =
      if off ≤ i ∧ i < off + xs.length ∧ i < b.length then xs.getD (i - off) 0 else b.getD i 0 := by
  simp only [List.getD_eq_getElem?_getD, getElem?_writeAt]
  split <;> rfl

theorem getD_writeAt_congr {b b' : List UInt8} {k : ℕ} (hlen : b.length = b'.length)
    (h : ∀ i, k ≤ i → b.getD i 0 = b'.getD i 0) (off : ℕ) (xs : List UInt8) {i : ℕ} (hi : k ≤ i) :
    (writeAt b off xs).getD i 0 = (writeAt b' off xs).getD i 0 := by
  rw [getD_writeAt, getD_writeAt, hlen, h i hi]

theorem getD_writeAt_before (h : i < off) (d : UInt8) :
    (writeAt b off xs).getD i d = b.getD i d := by
  rw [List.getD_eq_getElem?_getD, List.getD_eq_getElem?_getD, getElem?_writeAt, if_neg (by omega)]

theorem getD_writeAt_after (h : off + xs.length ≤ i) (d : UInt8) :
    (writeAt b off xs).getD i d = b.getD i d := by
  rw [List.getD_eq_getElem?_getD, List.getD_eq_getElem?_getD, getElem?_writeAt, if_neg (by omega)]

theorem getD_writeAt_inside (h : i < xs.length) (hb : off + xs.length ≤ b.length) (d : UInt8) :
    (writeAt b off xs).getD (off + i) d = xs.getD i d := by
  rw [List.getD_eq_getElem?_getD, List.getD_eq_getElem?_getD, getElem?_writeAt,
    if_pos (by omega), Nat.add_sub_cancel_left]

theorem writeAt_eq_append (h : off + xs.length ≤ b.length) :
    writeAt b off xs = b.take off ++ xs ++ b.drop (off + xs.length) := by
  refine List.ext_getElem? fun i => ?_
  rw [getElem?_writeAt, List.append_assoc, List.getElem?_append, List.length_take,
    Nat.min_eq_left (by omega)]
  split
  · next hin =>
    rw [if_neg (by omega), List.getElem?_append, if_pos (by omega)]
  · next hout =>
    by_cases hlt : i < off
    · rw [if_pos hlt, List.getElem?_take, if_pos hlt]
    · rw [if_neg hlt, List.getElem?_append]
      split
      · next hx =>
        rw [List.getElem?_eq_none (by omega)]
        omega
      · rw [List.getElem?_drop]
        congr 1
        omega

theorem writeAt_append (xs : List UInt8) {ys t : List UInt8} (h : ys.length ≤ t.length) :
    writeAt (xs ++ t) xs.length ys = xs ++ ys ++ t.drop ys.length := by
  rw [writeAt_eq_append (by rw [List.length_append]; omega), List.take_left,
    List.drop_append]
  congr 1
  rw [List.drop_eq_nil_of_le (by omega), List.nil_append, Nat.add_sub_cancel_left]

theorem readAt_eq (b : List UInt8) (off len : ℕ) (h : off + len ≤ b.length) :
    readAt b off len = (b.drop off).take len := by
  refine List.ext_getElem? fun i => ?_
  rw [readAt, List.getElem?_map, List.getElem?_take, List.getElem?_drop]
  by_cases hi : i < len
  · rw [List.getElem?_range hi, if_pos hi, Option.map_some, List.getD_eq_getElem?_getD,
      List.getElem?_eq_getElem (show off + i < b.length by omega)]
    rfl
  · rw [if_neg hi, List.getElem?_eq_none (by simpa using hi)]
    rfl

theorem readAt_writeAt_same (h : off + xs.length ≤ b.length) :
    readAt (writeAt b off xs) off xs.length = xs := by
  rw [readAt_eq _ _ _ (by simpa using h), writeAt_eq_append h, List.append_assoc,
    List.drop_append_of_le_length (by rw [List.length_take]; omega),
    List.drop_eq_nil_of_le (by rw [List.length_take]; omega), List.nil_append,
    List.take_left']
  rfl

theorem readAt_congr {b b' : List UInt8} {off len : ℕ}
    (h : ∀ i, off ≤ i → i < off + len → b.getD i 0 = b'.getD i 0) :
    readAt b off len = readAt b' off len := by
  refine List.map_congr_left fun i hi => h (off + i) (by omega) ?_
  rw [List.mem_range] at hi
  omega

theorem readAt_append_left (xs t : List UInt8) : readAt (xs ++ t) 0 xs.length = xs := by
  rw [readAt_eq _ _ _ (by simp), List.drop_zero, List.take_left]

theorem getD_append_left {xs t : List UInt8} {i : ℕ} (h : i < xs.length) (d : UInt8) :
    (xs ++ t).getD i d = xs.getD i d := by
  rw [List.getD_eq_getElem?_getD, List.getElem?_append_left h, ← List.getD_eq_getElem?_getD]

theorem getD_append_right {xs t : List UInt8} (i : ℕ) (d : UInt8) :
    (xs ++ t).getD (xs.length + i) d = t.getD i d := by
  rw [List.getD_eq_getElem?_getD, List.getElem?_append_right (Nat.le_add_right _ _),
    Nat.add_sub_cancel_left, ← List.getD_eq_getElem?_getD]

theorem readAt_append_mid (xs ys t : List UInt8) : readAt (xs ++ (ys ++ t)) xs.length ys.length = ys := by
  rw [readAt_eq _ _ _ (by simp), List.drop_left, List.take_left]

theorem readAt_succ (b : List UInt8) (off len : ℕ) :
    readAt b off (len + 1) = b.getD off 0 :: readAt b (off + 1) len := by
  rw [readAt, List.range_succ_eq_map, List.map_cons, List.map_map, readAt, Nat.add_zero]
  refine congrArg _ (List.map_congr_left fun i _ => ?_)
  simp only [Function.comp_apply]
  congr 1
  omega

theorem getD_readAt {b : List UInt8} {off len i : ℕ} (h : i < len) :
    (readAt b off len).getD i 0 = b.getD (off + i) 0 := by
  rw [readAt, List.getD_eq_getElem?_getD, List.getElem?_map, List.getElem?_range h]
  rfl

theorem readAt_eq_iff {b l : List UInt8} {len : ℕ} (h : l.length = len) :
    readAt b 0 len = l ↔ ∀ i < len, b.getD i 0 = l.getD i 0 := by
  constructor
  · rintro rfl i hi
    rw [getD_readAt hi, Nat.zero_add]
  · intro heq
    refine List.ext_getElem (by rw [length_readAt, h]) fun i h₁ h₂ => ?_
    have hi := heq i (h ▸ h₂)
    have hr : (readAt b 0 len).getD i 0 = b.getD (0 + i) 0 := getD_readAt (h ▸ h₂)
    rw [Nat.zero_add] at hr
    rw [← hr] at hi
    simpa [List.getD_eq_getElem?_getD, List.getElem?_eq_getElem h₁, List.getElem?_eq_getElem h₂] using hi

theorem drop_eq_readAt (b : List UInt8) (off len : ℕ) (h : off + len ≤ b.length) :
    b.drop off = readAt b off len ++ b.drop (off + len) := by
  rw [readAt_eq _ _ _ h, ← List.drop_drop, List.take_append_drop]

theorem be16_toBe16 (n : ℕ) (h : n < 65536) :
    be16 ((toBe16 n).getD 0 0) ((toBe16 n).getD 1 0) = n := by
  simp only [toBe16, List.getD_cons_zero, List.getD_cons_succ, be16, UInt8.toNat_ofNat']
  omega

end Bytes
