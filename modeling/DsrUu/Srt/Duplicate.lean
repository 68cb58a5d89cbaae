import DsrUu.Srt.Lemmas

namespace DsrUu

abbrev DupBuf := List (Option InAddr)

def bufGet (buf : DupBuf) (j : ℕ) : Option InAddr := buf.getD j none

def bufSet (buf : DupBuf) (j : ℕ) (a : InAddr) : Option DupBuf :=
  if j < buf.length then some (buf.set j (some a)) else none

def scanDuplicate (buf : DupBuf) (a : InAddr) : List ℕ → Option Bool
  | [] => some false
  | j :: js => (bufGet buf j).bind fun b => if b = a then some true else scanDuplicate buf a js

def buildDuplicate (srt : DsrSrt) : List ℕ → DupBuf → Option (Bool × DupBuf)
  | [], buf => some (false, buf)
  | i :: is, buf =>
      srt.addrs[i]?.bind fun a =>
        (scanDuplicate buf a (List.range (i + 1))).bind fun res =>
          if res then some (true, buf)
          else (bufSet buf (i + 1) a).bind (buildDuplicate srt is)

def lastDuplicate (srt : DsrSrt) (r : Bool × DupBuf) : Option Int :=
  if r.1 then some 1
  else (scanDuplicate r.2 srt.dst (List.range (srt.n + 1))).map fun res => if res then 1 else 0

def dsrSrtCheckDuplicateRes (alloc : Bool) (srt : DsrSrt) : Option Int :=
  if alloc then
    (bufSet (List.replicate (srt.n + 1) none) 0 srt.src).bind fun buf =>
      (buildDuplicate srt (List.range srt.n) buf).bind (lastDuplicate srt)
  else some (-1)

def written (k : ℕ) (as : List InAddr) : DupBuf := as.map some ++ List.replicate k none

section Buf

variable {k j : ℕ} {as : List InAddr} {a : InAddr}

theorem bufGet_written (h : j < as.length) : bufGet (written k as) j = some (as.get ⟨j, h⟩) := by
  simp [bufGet, written, List.getD_eq_getElem?_getD, List.getElem?_append_left, h]

theorem bufSet_written : bufSet (written (k + 1) as) as.length a = some (written k (as ++ [a])) := by
  simp [bufSet, written, List.replicate_succ]

theorem scanDuplicate_written (js : List ℕ) (h : ∀ j ∈ js, j < as.length) :
    scanDuplicate (written k as) a js = some (js.any fun j => as[j]? = some a) := by
  induction js with
  | nil => rfl
  | cons j js ih =>
    obtain ⟨hj, hjs⟩ := List.forall_mem_cons.mp h
    rw [scanDuplicate, bufGet_written hj, Option.bind_some, ih hjs]
    simp [List.getElem?_eq_getElem hj]
    split <;> simp [*]

theorem scanDuplicate_all : scanDuplicate (written k as) a (List.range as.length) =
    some (as.any (· = a)) := by
  rw [scanDuplicate_written _ fun j hj => List.mem_range.mp hj, Option.some.injEq, Bool.eq_iff_iff]
  simp only [List.any_eq_true, List.mem_range, decide_eq_true_eq, exists_eq_right]
  constructor
  · rintro ⟨j, -, hj⟩
    exact List.mem_of_getElem? hj
  · intro hmem
    obtain ⟨j, hj⟩ := List.mem_iff_getElem?.mp hmem
    exact ⟨j, (List.getElem?_eq_some_iff.mp hj).1, hj⟩

end Buf

section Check

variable {srt : DsrSrt} (h : srt.n ≤ srt.addrs.length)

include h

theorem taken_length {pre rest : List InAddr} (ht : srt.addrs.take srt.n = pre ++ rest) :
    srt.n = pre.length + rest.length := by
  rw [← List.length_append, ← ht, List.length_take, Nat.min_eq_left h]

theorem taken_getElem {pre rest : List InAddr} {a : InAddr}
    (ht : srt.addrs.take srt.n = pre ++ a :: rest) : srt.addrs[pre.length]? = some a := by
  have hn := taken_length h ht
  rw [List.length_cons] at hn
  rw [← List.getElem?_take_of_lt (j := srt.n) (by omega), ht, List.getElem?_append_right (Nat.le_refl _)]
  simp

theorem buildDuplicate_written (rest : List InAddr) : ∀ pre : List InAddr,
    srt.addrs.take srt.n = pre ++ rest →
    (buildDuplicate srt (List.range' pre.length rest.length)
      (written rest.length (srt.src :: pre))).bind (lastDuplicate srt) =
        some (if checkDuplicateLoop srt.dst (srt.src :: pre) rest then 1 else 0) := by
  induction rest with
  | nil =>
    intro pre hpre
    have hlen : srt.n + 1 = (srt.src :: pre).length := by
      rw [taken_length h hpre, List.length_cons, List.length_nil, Nat.add_zero]
    simp only [List.length_nil, List.range'_zero, buildDuplicate, Option.bind_some, lastDuplicate,
      Bool.false_eq_true, if_false, checkDuplicateLoop]
    rw [hlen, scanDuplicate_all, Option.map_some]
    rfl
  | cons a rest ih =>
    intro pre hpre
    have hscan : scanDuplicate (written (rest.length + 1) (srt.src :: pre)) a
        (List.range (pre.length + 1)) = some ((srt.src :: pre).any (· = a)) := scanDuplicate_all
    rw [List.length_cons, List.range'_succ, buildDuplicate, taken_getElem h hpre, Option.bind_some,
      hscan, Option.bind_some, checkDuplicateLoop]
    by_cases hdup : (srt.src :: pre).any (· = a)
    · rw [if_pos hdup, if_pos hdup]
      rfl
    · have hset : bufSet (written (rest.length + 1) (srt.src :: pre)) (pre.length + 1) a =
          some (written rest.length (srt.src :: pre ++ [a])) := bufSet_written
      have hrest := ih (pre ++ [a]) (by rw [hpre, List.append_assoc, List.singleton_append])
      rw [List.length_append, List.length_singleton] at hrest
      rw [if_neg hdup, if_neg hdup]
      rw [hset, Option.bind_some]
      exact hrest

theorem dsrSrtCheckDuplicateRes_eq :
    dsrSrtCheckDuplicateRes true srt = some (if dsrSrtCheckDuplicate srt then 1 else 0) := by
  have hlen : srt.n = (srt.addrs.take srt.n).length := by
    rw [List.length_take, Nat.min_eq_left h]
  have hrun := buildDuplicate_written h (srt.addrs.take srt.n) [] rfl
  rw [List.length_nil, ← hlen, ← List.range_eq_range'] at hrun
  exact hrun

end Check

theorem dsrSrtCheckDuplicate_exact {srt : DsrSrt} (h : srt.n ≤ srt.addrs.length) :
    ((∃ a, 2 ≤ srt.path.count a) → dsrSrtCheckDuplicateRes true srt = some 1) ∧
    (¬ (∃ a, 2 ≤ srt.path.count a) → dsrSrtCheckDuplicateRes true srt = some 0) := by
  have hdup : (∃ a, 2 ≤ srt.path.count a) ↔ dsrSrtCheckDuplicate srt = true := by
    rw [← Bool.not_eq_false, dsrSrtCheckDuplicate_false, List.nodup_iff_count_le_one]
    simp [Nat.lt_iff_add_one_le]
  rw [dsrSrtCheckDuplicateRes_eq h, hdup]
  constructor
  · intro hd
    rw [if_pos hd]
  · intro hd
    rw [if_neg hd]

def loopingSrt : DsrSrt :=
  { src := ⟨10, 0, 0, 1⟩, dst := ⟨10, 0, 0, 2⟩, flags := 0, laddrs := 8
    addrs := [⟨10, 0, 0, 2⟩, ⟨10, 0, 0, 3⟩] }

theorem dsrSrtCheckDuplicate_exact_loop : loopingSrt.n ≤ loopingSrt.addrs.length ∧
    2 ≤ loopingSrt.path.count ⟨10, 0, 0, 2⟩ ∧ dsrSrtCheckDuplicateRes true loopingSrt = some 1 :=
  ⟨by decide, by decide,
    (dsrSrtCheckDuplicate_exact (by decide)).1 ⟨⟨10, 0, 0, 2⟩, by decide⟩⟩

end DsrUu
