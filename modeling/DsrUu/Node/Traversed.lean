import DsrUu.Node.Cached
import DsrUu.Node.Run
import DsrUu.Srt.Lemmas

namespace DsrUu

open Effect

def Consecutive (path : List InAddr) (j : ℕ) (a b : InAddr) : Prop := path[j]? = some a ∧ path[j + 1]? = some b

def Traversed (path : List InAddr) (done : ℕ) (a b : InAddr) : Prop :=
  ∃ j < done, Consecutive path j a b ∨ Consecutive path j b a

def OnlyTraversed (path : List InAddr) (done : ℕ) (me prv : InAddr) (ls : List (InAddr × InAddr)) : Prop :=
  ∀ l ∈ ls, l ≠ (me, prv) → Traversed path done l.1 l.2

def srtOptDone (srt : DsrSrt) (sleft : ℕ) : ℕ := srt.n - sleft + 1

theorem mem_routeLinks {bidir : Bool} {l : InAddr × InAddr} (rest : List InAddr) : ∀ a : InAddr,
    l ∈ routeLinks bidir a rest ↔
      ∃ j, Consecutive (a :: rest) j l.1 l.2 ∨ bidir = true ∧ Consecutive (a :: rest) j l.2 l.1 := by
  induction rest with
  | nil =>
    intro a
    refine ⟨fun h => absurd h List.not_mem_nil, ?_⟩
    rintro ⟨j, h | ⟨-, h⟩⟩ <;> cases h.2
  | cons b rest ih =>
    intro a
    have hcons : ∀ x y, (∃ j, Consecutive (a :: b :: rest) j x y) ↔
        (x = a ∧ y = b) ∨ ∃ j, Consecutive (b :: rest) j x y := by
      intro x y
      constructor
      · rintro ⟨_ | j, hx, hy⟩
        · exact Or.inl ⟨(Option.some.inj hx).symm, (Option.some.inj hy).symm⟩
        · exact Or.inr ⟨j, hx, hy⟩
      · rintro (⟨rfl, rfl⟩ | ⟨j, hx, hy⟩)
        · exact ⟨0, rfl, rfl⟩
        · exact ⟨j + 1, hx, hy⟩
    have hab : l = (a, b) ↔ l.1 = a ∧ l.2 = b := Prod.ext_iff
    have hba : l = (b, a) ↔ l.2 = a ∧ l.1 = b := Prod.ext_iff.trans and_comm
    rw [exists_or, exists_and_left, hcons, hcons, routeLinks]
    cases bidir with
    | true =>
      rw [if_pos rfl, List.mem_cons, List.mem_cons, ih b, exists_or, exists_and_left, hab, hba]
      tauto
    | false =>
      rw [if_neg Bool.false_ne_true, List.mem_cons, ih b, exists_or, exists_and_left, hab]
      tauto

theorem mem_srtLinks {srt : DsrSrt} {l : InAddr × InAddr} : l ∈ srtLinks srt ↔
    ∃ j, Consecutive srt.path j l.1 l.2 ∨ srt.bidir = true ∧ Consecutive srt.path j l.2 l.1 :=
  mem_routeLinks _ _

section Distinct

variable {path : List InAddr} {done : ℕ} {me prv : InAddr} {ls : List (InAddr × InAddr)}

theorem nodup_idx (hd : path.Nodup) {i j : ℕ} {a : InAddr} (hi : path[i]? = some a)
    (hj : path[j]? = some a) : i = j :=
  (List.getElem?_inj (List.getElem?_eq_some_iff.mp hi).1 hd).mp (hi.trans hj.symm)

theorem not_traversed (hd : path.Nodup) {j : ℕ} {a b : InAddr} (h : Consecutive path j a b) (hj : done ≤ j) :
    ¬ Traversed path done a b ∧ ¬ Traversed path done b a := by
  have hno : ∀ i < done, ¬ Consecutive path i a b ∧ ¬ Consecutive path i b a := by
    intro i hi
    refine ⟨fun h' => ?_, fun h' => ?_⟩
    · have := nodup_idx hd h.1 h'.1
      omega
    · have h₁ := nodup_idx hd h.1 h'.2
      have h₂ := nodup_idx hd h.2 h'.1
      omega
  refine ⟨?_, ?_⟩
  · rintro ⟨i, hi, h' | h'⟩
    · exact (hno i hi).1 h'
    · exact (hno i hi).2 h'
  · rintro ⟨i, hi, h' | h'⟩
    · exact (hno i hi).2 h'
    · exact (hno i hi).1 h'

theorem not_onlyTraversed (hd : path.Nodup) (hprv : path[done - 1]? = some prv) (h1 : 1 ≤ done) {j : ℕ}
    {a b : InAddr} (h : Consecutive path j a b) (hj : done ≤ j) (hl : (a, b) ∈ ls ∨ (b, a) ∈ ls) :
    ¬ OnlyTraversed path done me prv ls := by
  intro hall
  rcases hl with hl | hl
  · refine (not_traversed hd h hj).1 (hall _ hl fun he => ?_)
    have hb : b = prv := congrArg Prod.snd he
    have := nodup_idx hd (hb ▸ h.2) hprv
    omega
  · refine (not_traversed hd h hj).2 (hall _ hl fun he => ?_)
    have ha : a = prv := congrArg Prod.snd he
    have := nodup_idx hd (ha ▸ h.1) hprv
    omega

theorem exists_hop {j : ℕ} (h : j + 1 < path.length) : ∃ a b, Consecutive path j a b :=
  ⟨_, _, List.getElem?_eq_getElem (by omega), List.getElem?_eq_getElem h⟩

theorem prefix_onlyTraversed_iff (hd : path.Nodup) (hprv : path[done - 1]? = some prv) (h1 : 1 ≤ done)
    {srt : DsrSrt} {k : ℕ} (hk : k ≤ path.length) (hp : srt.path = path.take k) :
    OnlyTraversed path done me prv (srtLinks srt) ↔ k ≤ done + 1 := by
  refine ⟨fun hall => ?_, fun hle l hl _ => ?_⟩
  · by_contra hlt
    obtain ⟨a, b, h⟩ : ∃ a b, Consecutive path done a b := exists_hop (by omega)
    refine not_onlyTraversed hd hprv h1 h (Nat.le_refl _) (Or.inl (mem_srtLinks.mpr ⟨done, Or.inl ?_⟩)) hall
    rw [hp]
    exact ⟨(List.getElem?_take_of_lt (by omega)).trans h.1, (List.getElem?_take_of_lt (by omega)).trans h.2⟩
  · have hhop : ∀ j x y, Consecutive srt.path j x y → j < done ∧ Consecutive path j x y := by
      intro j x y h
      rw [hp] at h
      have hj : j + 1 < k := by
        have := (List.getElem?_eq_some_iff.mp h.2).1
        rw [List.length_take] at this
        omega
      have h₁ := h.1
      have h₂ := h.2
      rw [List.getElem?_take_of_lt (by omega)] at h₁ h₂
      exact ⟨by omega, h₁, h₂⟩
    obtain ⟨j, h | ⟨-, h⟩⟩ := mem_srtLinks.mp hl
    · exact ⟨j, (hhop j _ _ h).1, Or.inl (hhop j _ _ h).2⟩
    · exact ⟨j, (hhop j _ _ h).1, Or.inr (hhop j _ _ h).2⟩

theorem reverse_onlyTraversed_iff (hd : path.Nodup) (hprv : path[done - 1]? = some prv) (h1 : 1 ≤ done)
    {srt : DsrSrt} (hp : srt.path = path.reverse) :
    OnlyTraversed path done me prv (srtLinks srt) ↔ path.length ≤ done + 1 := by
  have hhop : ∀ j x y, Consecutive path.reverse j x y → ∃ i, i + j + 2 = path.length ∧ Consecutive path i y x := by
    intro j x y h
    have hj : j + 1 < path.length := by
      have := (List.getElem?_eq_some_iff.mp h.2).1
      rwa [List.length_reverse] at this
    have h₁ := h.1
    have h₂ := h.2
    rw [List.getElem?_reverse (by omega)] at h₁ h₂
    refine ⟨path.length - 2 - j, by omega, ?_, ?_⟩
    · rw [← h₂]
      congr 1
      omega
    · rw [← h₁]
      congr 1
      omega
  refine ⟨fun hall => ?_, fun hle l hl _ => ?_⟩
  · by_contra hlt
    obtain ⟨x, y, h⟩ : ∃ x y, Consecutive path.reverse 0 x y := exists_hop (by rw [List.length_reverse]; omega)
    obtain ⟨i, hi, h'⟩ := hhop 0 x y h
    refine not_onlyTraversed hd hprv h1 h' (by omega) (Or.inr (mem_srtLinks.mpr ⟨0, Or.inl ?_⟩)) hall
    rw [hp]
    exact h
  · obtain ⟨j, h | ⟨-, h⟩⟩ := mem_srtLinks.mp hl
    · rw [hp] at h
      obtain ⟨i, hi, h'⟩ := hhop j _ _ h
      exact ⟨i, by omega, Or.inr h'⟩
    · rw [hp] at h
      obtain ⟨i, hi, h'⟩ := hhop j _ _ h
      exact ⟨i, by omega, Or.inl h'⟩

end Distinct

section Split

variable {mem : ℕ} {srt : DsrSrt} {addr : InAddr}

theorem dsrSrtNewSplit_none (h : dsrSrtNewSplit mem srt addr = none) : addr ∉ srt.addrs.take srt.n := by
  unfold dsrSrtNewSplit at h
  split at h
  · next hn =>
    rw [hn]
    exact List.not_mem_nil
  · split at h
    · next hf =>
      intro hm
      have := List.findIdx?_eq_none_iff.mp hf addr hm
      rw [decide_eq_false_iff_not] at this
      exact this rfl
    · cases h

theorem dsrSrtNewSplit_path {sp : DsrSrt} (h : dsrSrtNewSplit mem srt addr = some sp) :
    ∃ i, srt.path[i + 1]? = some addr ∧ i + 1 < srt.path.length - 1 ∧ sp.path = srt.path.take (i + 2) := by
  unfold dsrSrtNewSplit at h
  split at h
  · cases h
  · split at h
    · cases h
    · next i hi =>
      obtain ⟨hlt, hp, -⟩ := List.findIdx?_eq_some_iff_getElem.mp hi
      have ha := of_decide_eq_true hp
      have hat : (srt.addrs.take srt.n)[i]? = some addr := by
        rw [List.getElem?_eq_getElem hlt, ha]
      cases h
      have hle := hlt
      rw [List.length_take] at hle
      have hi' : srt.addrs[i]? = some addr := by
        rwa [List.getElem?_take_of_lt (by omega)] at hat
      have hpath : srt.path[i + 1]? = some addr := by
        rw [DsrSrt.path, List.getElem?_cons_succ, List.getElem?_append_left hlt, hat]
      have hn : 4 * i / 4 = i := by omega
      refine ⟨i, hpath, ?_, ?_⟩
      · rw [DsrSrt.path, List.length_cons, List.length_append, List.length_singleton]
        omega
      · simp only [DsrSrt.path, DsrSrt.n, hn, List.take_succ_cons]
        rw [List.take_append_of_le_length (by rw [List.length_take]; change _ ≤ min srt.n _; omega),
          List.take_take, List.take_take, addrAt_natCast, List.getD_eq_getElem?_getD, hi', Option.getD_some,
          Nat.min_self, Nat.min_eq_left (by change _ ≤ srt.n; omega), List.take_add_one, hi']
        rfl

end Split

section Carried

variable {mem : ℕ → UInt8} {me : InAddr} {dp : DsrPkt} {p : OptPtr}

theorem srtOptSrt_take (mem : ℕ → UInt8) (dp : DsrPkt) (p : OptPtr) :
    ((srtOptSrt mem dp p).addrs.take (srtOptSrt mem dp p).n).length = (srtOptSrt mem dp p).n := by
  have h : (srtOptSrt mem dp p).addrs.length = (srtOptSrt mem dp p).n := by
    change (decodeAddrs ((dp.fieldsAt p 4 (dp.optLength p)).take (dp.optLength p))).length = dp.optLength p / 4
    rw [length_decodeAddrs, List.length_take, length_fieldsAt, Nat.min_self]
  rw [List.length_take, h, Nat.min_self]

theorem srtOptSrt_path_length (mem : ℕ → UInt8) (dp : DsrPkt) (p : OptPtr) :
    (srtOptSrt mem dp p).path.length = (srtOptSrt mem dp p).n + 2 := by
  rw [DsrSrt.path, List.length_cons, List.length_append, srtOptSrt_take, List.length_singleton]

theorem srtOpt_prvHop (h : srtOptSleft dp p ≤ (srtOptSrt mem dp p).n) :
    (srtOptSrt mem dp p).path[srtOptDone (srtOptSrt mem dp p) (srtOptSleft dp p) - 1]? =
      some (dsrSrtPrevHop (srtOptSrt mem dp p) ((srtOptSleft dp p : Int) - 1)) := by
  have hlen := srtOptSrt_take mem dp p
  generalize srtOptSleft dp p = sleft at h ⊢
  generalize srtOptSrt mem dp p = srt at h hlen ⊢
  unfold srtOptDone dsrSrtPrevHop
  rw [Nat.add_sub_cancel]
  by_cases he : srt.n = sleft
  · rw [if_pos (by omega), he, Nat.sub_self]
    rfl
  · obtain ⟨i, hi⟩ : ∃ i, srt.n = sleft + (i + 1) := ⟨srt.n - sleft - 1, by omega⟩
    have hidx : (srt.n : Int) - 2 - ((sleft : Int) - 1) = (i : Int) := by omega
    have hlt : i < srt.addrs.length := by
      rw [List.length_take] at hlen
      omega
    rw [if_neg (by omega), hidx, addrAt_natCast, show srt.n - sleft = i + 1 by omega, DsrSrt.path,
      List.getElem?_cons_succ, List.getElem?_append_left (by rw [hlen]; omega),
      List.getElem?_take_of_lt (by omega), List.getD_eq_getElem?_getD, List.getElem?_eq_getElem hlt,
      Option.getD_some]

def Passed (mem : ℕ → UInt8) (me : InAddr) (dp : DsrPkt) (p : OptPtr) : Prop :=
  me ∉ (srtOptSrt mem dp p).path.drop (srtOptDone (srtOptSrt mem dp p) (srtOptSleft dp p) + 1)

abbrev srtOptNoted (mem : ℕ → UInt8) (dp : DsrPkt) (p : OptPtr) : DsrPkt :=
  srtOptNote dp p (srtOptSrt mem dp p) (srtOptSleft dp p)

abbrev OnlySrtOptTraversed (mem : ℕ → UInt8) (me : InAddr) (dp : DsrPkt) (p : OptPtr)
    (ls : List (InAddr × InAddr)) : Prop :=
  OnlyTraversed (srtOptSrt mem dp p).path (srtOptDone (srtOptSrt mem dp p) (srtOptSleft dp p)) me
    (srtOptNoted mem dp p).prvHop ls

theorem onlyTraversed_append {path : List InAddr} {done : ℕ} {prv : InAddr} {ls : List (InAddr × InAddr)}
    (b : Bool) : OnlyTraversed path done me prv ((if b then [] else [(me, prv)]) ++ ls) ↔
      OnlyTraversed path done me prv ls := by
  refine ⟨fun h l hl => h l (List.mem_append_right _ hl), fun h l hl hne => ?_⟩
  rcases List.mem_append.mp hl with hl | hl
  · cases b with
    | true => exact absurd hl List.not_mem_nil
    | false => exact absurd (List.mem_singleton.mp hl) hne
  · exact h l hl hne

theorem mem_drop_idx {path : List InAddr} (hd : path.Nodup) {i k : ℕ} (h : path[i]? = some me) :
    me ∈ path.drop k ↔ k ≤ i := by
  rw [List.mem_iff_getElem?]
  constructor
  · rintro ⟨j, hj⟩
    rw [List.getElem?_drop] at hj
    have := nodup_idx hd h hj
    omega
  · intro hk
    refine ⟨i - k, ?_⟩
    rw [List.getElem?_drop, show k + (i - k) = i by omega, h]

theorem srtOptLinks_traversed_iff (hle : srtOptSleft dp p ≤ (srtOptSrt mem dp p).n)
    (hd : (srtOptSrt mem dp p).path.Nodup) :
    OnlySrtOptTraversed mem me dp p (srtOptLinks mem me (srtOptNoted mem dp p) (srtOptSrt mem dp p)) ↔
      Passed mem me dp p ∨ dp.promiscRecv = true ∧ dp.dst ≠ me := by
  have hprv := srtOpt_prvHop hle
  have hlen := srtOptSrt_path_length mem dp p
  have hdone : 1 ≤ srtOptDone (srtOptSrt mem dp p) (srtOptSleft dp p) := Nat.le_add_left _ _
  have htake := srtOptSrt_take mem dp p
  have hbnd : srtOptDone (srtOptSrt mem dp p) (srtOptSleft dp p) ≤ (srtOptSrt mem dp p).n + 1 := by
    unfold srtOptDone
    omega
  unfold OnlySrtOptTraversed Passed srtOptLinks srtOptCached
  rw [onlyTraversed_append]
  rw [show (srtOptNoted mem dp p).prvHop = dsrSrtPrevHop (srtOptSrt mem dp p) ((srtOptSleft dp p : Int) - 1) from rfl,
    show (srtOptNoted mem dp p).dst = dp.dst from rfl, show (srtOptNoted mem dp p).promiscRecv = dp.promiscRecv from rfl]
  have hdst : (srtOptSrt mem dp p).dst = dp.dst := rfl
  generalize srtOptDone (srtOptSrt mem dp p) (srtOptSleft dp p) = done at hprv hdone hbnd ⊢
  generalize dsrSrtPrevHop (srtOptSrt mem dp p) ((srtOptSleft dp p : Int) - 1) = prv at hprv ⊢
  generalize srtOptSrt mem dp p = srt at hd hprv hlen htake hbnd hdst ⊢
  have hend : srt.path[srt.n + 1]? = some srt.dst := by
    rw [DsrSrt.path, List.getElem?_cons_succ, List.getElem?_append_right (by omega), htake, Nat.sub_self]
    rfl
  by_cases hm : dp.dst = me
  · rw [if_pos hm, mem_drop_idx hd (hdst.trans hm ▸ hend)]
    change OnlyTraversed _ _ _ _ (srtLinks srt) ↔ _
    rw [prefix_onlyTraversed_iff hd hprv hdone (Nat.le_refl _) (List.take_length).symm, hlen]
    exact ⟨fun h => Or.inl (by omega), fun h => by
      have := h.resolve_right fun h => h.2 hm
      omega⟩
  · rw [if_neg hm]
    by_cases hp : dp.promiscRecv = true
    · rw [if_pos hp]
      refine ⟨fun _ => Or.inr ⟨hp, hm⟩, fun _ => ?_⟩
      cases hs : dsrSrtNewSplit (srtFlags mem) srt prv with
      | none => exact fun _ hl => absurd hl List.not_mem_nil
      | some sp =>
        obtain ⟨i, hi, hlt, hsp⟩ := dsrSrtNewSplit_path hs
        have := nodup_idx hd hi hprv
        exact (prefix_onlyTraversed_iff hd hprv hdone (by omega) hsp).mpr (by omega)
    · rw [if_neg hp]
      have hor : ∀ {P : Prop}, P ∨ dp.promiscRecv = true ∧ dp.dst ≠ me ↔ P :=
        ⟨fun h => h.resolve_right fun h => hp h.1, Or.inl⟩
      rw [hor]
      cases hs : dsrSrtNewSplit (srtFlags mem) srt me with
      | none =>
        refine ⟨fun _ hmem => ?_, fun _ _ hl => absurd hl List.not_mem_nil⟩
        have hin : me ∈ srt.addrs.take srt.n ++ [srt.dst] := List.mem_of_mem_drop hmem
        rcases List.mem_append.mp hin with hin | hin
        · exact dsrSrtNewSplit_none hs hin
        · exact hm (hdst ▸ (List.mem_singleton.mp hin).symm)
      | some sp =>
        obtain ⟨i, hi, hlt, hsp⟩ := dsrSrtNewSplit_path hs
        rw [mem_drop_idx hd hi, prefix_onlyTraversed_iff hd hprv hdone (by omega) hsp]
        omega

theorem rrepOpt_short {mem' : ℕ → UInt8} {dp' : DsrPkt} {q : OptPtr} (hshort : dp'.optLength q < 5)
    (hrev : (rrepOptSrt mem' dp' q).path = (srtOptSrt mem dp p).path.reverse) :
    (srtOptSrt mem dp p).n = 0 := by
  have hlen : (rrepOptSrt mem' dp' q).n = 0 := by
    show rrepOptAddrsLen dp' q / 4 = 0
    rw [rrepOptAddrsLen, Nat.sub_eq_zero_of_le (Nat.le_of_lt hshort)]
  have h := congrArg List.length hrev
  rw [List.length_reverse, srtOptSrt_path_length, DsrSrt.path, hlen, List.take_zero] at h
  simpa using h.symm

theorem rrepOptLinks_traversed_iff {mem' : ℕ → UInt8} {dp' : DsrPkt} {q : OptPtr}
    (hle : srtOptSleft dp p ≤ (srtOptSrt mem dp p).n) (hd : (srtOptSrt mem dp p).path.Nodup)
    (hrev : (rrepOptSrt mem' dp' q).path = (srtOptSrt mem dp p).path.reverse) :
    OnlySrtOptTraversed mem me dp p (rrepOptLinks mem' dp' q) ↔
      RrepRefused dp' ∨ srtOptSleft dp p = 0 := by
  have href : (dp'.promiscRecv || decide (maxRrepOpts ≤ dp'.rrepOpt.length)) = true ↔ RrepRefused dp' := by
    rw [Bool.or_eq_true, decide_eq_true_iff]
    rfl
  unfold rrepOptLinks
  split
  · next h => exact ⟨fun _ => Or.inl (href.mp h), fun _ _ hl => absurd hl List.not_mem_nil⟩
  · next h =>
  split
  · next hshort =>
    have hzero : srtOptSleft dp p = 0 := Nat.le_zero.mp (hle.trans (Nat.le_of_eq (rrepOpt_short hshort hrev)))
    exact ⟨fun _ => Or.inr hzero, fun _ _ hl => absurd hl List.not_mem_nil⟩
  · next hlen =>
    have hiff : OnlySrtOptTraversed mem me dp p (srtLinks (rrepOptSrt mem' dp' q)) ↔ _ :=
      reverse_onlyTraversed_iff hd (srtOpt_prvHop hle) (Nat.le_add_left _ _) hrev
    rw [srtOptSrt_path_length, srtOptDone] at hiff
    refine hiff.trans ?_
    exact ⟨fun h => Or.inr (by omega), fun hor => by
      have := hor.resolve_left fun hr => h (href.mpr hr)
      omega⟩

theorem caches_only_traversed_iff (hle : srtOptSleft dp p ≤ (srtOptSrt mem dp p).n)
    (hd : (srtOptSrt mem dp p).path.Nodup) :
    (∀ s r s', s.kmem = mem → s.ifaddr = me → dsrSrtOptRecv dp p s = .ok r s' →
      Caches (srtOptLinks mem me (srtOptNoted mem dp p) (srtOptSrt mem dp p)) s s') ∧
    (OnlySrtOptTraversed mem me dp p (srtOptLinks mem me (srtOptNoted mem dp p) (srtOptSrt mem dp p)) ↔
      Passed mem me dp p ∨ dp.promiscRecv = true ∧ dp.dst ≠ me) ∧
    ∀ mem' dp' q, (rrepOptSrt mem' dp' q).path = (srtOptSrt mem dp p).path.reverse →
      (∀ s r s', s.kmem = mem' → dsrRrepOptRecv dp' q s = .ok r s' →
        Caches (rrepOptLinks mem' dp' q) s s') ∧
      (OnlySrtOptTraversed mem me dp p (rrepOptLinks mem' dp' q) ↔
        RrepRefused dp' ∨ srtOptSleft dp p = 0) := by
  refine ⟨fun s r s' hmem hme h => ?_, srtOptLinks_traversed_iff hle hd, fun mem' dp' q hrev => ⟨?_, ?_⟩⟩
  · subst hmem hme
    exact dsrSrtOptRecv_caches h
  · intro s r s' hmem h
    subst hmem
    exact dsrRrepOptRecv_caches h
  · exact rrepOptLinks_traversed_iff hle hd hrev

end Carried

def passingReply : DsrPkt :=
  { encPkt [.srt 0 encRoute, .rrep encRoute] with src := encRoute.dst, dst := encRoute.src }

def passingNode : DsrNode := dsrNodeInit ⟨10, 0, 0, 2⟩ confvalsDef true 8 ⟨100, 0⟩ (fun _ => 0) 0

theorem caches_only_traversed_iff_reply : (srtOptSleft passingReply ⟨0, 4⟩ ≤ 1 ∧
      (srtOptSrt (fun _ => 0) passingReply ⟨0, 4⟩).path.Nodup) ∧
    (OnlySrtOptTraversed (fun _ => 0) ⟨10, 0, 0, 2⟩ passingReply ⟨0, 4⟩
      (rrepOptLinks (fun _ => 0) passingReply ⟨0, 12⟩) ↔
        RrepRefused passingReply ∨ srtOptSleft passingReply ⟨0, 4⟩ = 0) :=
  ⟨by decide +kernel, ((caches_only_traversed_iff (by decide +kernel) (by decide +kernel)).2.2 _ _ _
    (by decide +kernel)).2⟩

theorem caches_untraversed :
    (okVal (dsrRrepOptRecv passingReply ⟨0, 12⟩ passingNode)).isSome = true ∧
    ¬ OnlySrtOptTraversed (fun _ => 0) ⟨10, 0, 0, 2⟩ passingReply ⟨0, 4⟩
      (rrepOptLinks (fun _ => 0) passingReply ⟨0, 12⟩) := by
  refine ⟨by decide +kernel, fun h => ?_⟩
  have hc := (rrepOptLinks_traversed_iff (by decide +kernel) (by decide +kernel) (by decide +kernel)).mp h
  revert hc
  unfold RrepRefused
  decide +kernel

end DsrUu
