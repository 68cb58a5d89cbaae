import DsrUu.Node.Lemmas

namespace DsrUu

def rexmtval (srtt : ℕ) : ℕ := dsrRangeset (srtt / 8 + srtt) dsrMin dsrRexmtmax

def rtoExact (rtt : ℕ) (n : Neighbor) : Neighbor :=
  if n.tSrtt ≠ 0 then
    let delta : Int := rtt - 1 - (n.tSrtt / 8 : ℕ)
    let srtt := (max 1 (n.tSrtt + delta)).toNat
    let rttvar := (max 1 (n.tRttvar + ((delta.natAbs : Int) - (n.tRttvar / 4 : ℕ)))).toNat
    { n with tSrtt := srtt, tRttvar := rttvar, tRxtcur := rexmtval srtt }
  else { n with tSrtt := 8 * rtt, tRttvar := 2 * rtt, tRxtcur := rexmtval (8 * rtt) }

theorem dsrRangeset_mem {v lo hi : ℕ} (h : lo ≤ hi) :
    lo ≤ dsrRangeset v lo hi ∧ dsrRangeset v lo hi ≤ hi := by
  unfold dsrRangeset
  split
  · exact ⟨Nat.le_refl _, h⟩
  · split <;> omega

theorem dsrRangeset_mono {v w lo hi : ℕ} (h : v ≤ w) (hle : lo ≤ hi) :
    dsrRangeset v lo hi ≤ dsrRangeset w lo hi := by
  unfold dsrRangeset
  split <;> split <;> grind

theorem rexmtval_mem (srtt : ℕ) : dsrMin ≤ rexmtval srtt ∧ rexmtval srtt ≤ dsrRexmtmax :=
  dsrRangeset_mem (by decide)

theorem rexmtval_mono {v w : ℕ} (h : v ≤ w) : rexmtval v ≤ rexmtval w :=
  dsrRangeset_mono (by omega) (by decide)

structure Fresh (n : Neighbor) : Prop where
  created : n = { neighTblCreate n.addr n.hwAddr n.id with lastAckReq := n.lastAckReq }

structure Estimated (lo hi : ℕ) (n : Neighbor) : Prop where
  low : 8 * (lo - 1) ≤ n.tSrtt
  high : n.tSrtt ≤ 8 * hi
  pos : 1 ≤ n.tSrtt
  rttvar : n.tRttvar ≤ 4 * hi
  rttmin : n.tRttmin = dsrMin
  rxtcur : n.tRxtcur = rexmtval n.tSrtt

section Int

theorem toUint64_of_int {i : Int} (h0 : 0 ≤ i) (h : i < 18446744073709551616) :
    toUint64 i = i.toNat := by
  unfold toUint64
  omega

theorem toInt32_toUint64 {i : Int} (h0 : -2147483648 ≤ i) (h : i < 2147483648) :
    toInt32 (toUint64 i) = i := by
  unfold toInt32 toUint64
  split <;> omega

theorem toNat_floor_one (i : Int) : (if i.toNat = 0 then 1 else i.toNat) = (max 1 i).toNat := by
  split <;> omega

theorem toUint64_rexmtval {v : ℕ} (h : v < 2147483648) :
    toUint64 ((v : Int) / 8 + v) = v / 8 + v := by
  rw [toUint64_of_int (by omega) (by omega)]
  omega

end Int

section Step

variable {lo hi rtt : ℕ} {n : Neighbor}

theorem Fresh.sample (h : Fresh n) (hlo : 1 ≤ lo) (hhi : hi < 268435456) (hr : lo ≤ rtt ∧ rtt ≤ hi) :
    rtoCalc rtt n = rtoExact rtt n ∧ Estimated lo hi (rtoExact rtt n) := by
  have hs : n.tSrtt = 0 := by rw [h.created]; rfl
  have hm : n.tRttmin = dsrMin := by rw [h.created]; rfl
  have hsrtt : toUint64 ((rtt : Int) * 8) = 8 * rtt := by
    rw [toUint64_of_int (by omega) (by omega)]
    omega
  have hvar : toUint64 ((rtt : Int) * 2) = 2 * rtt := by
    rw [toUint64_of_int (by omega) (by omega)]
    omega
  have hval : toUint64 ((rtt : Int) + 8 * rtt) = rtt + 8 * rtt := by
    rw [toUint64_of_int (by omega) (by omega)]
    omega
  constructor
  · simp [rtoCalc, rtoExact, hs, hm, hsrtt, hvar, rexmtval, hval]
  · have he : rtoExact rtt n =
        { n with tSrtt := 8 * rtt, tRttvar := 2 * rtt, tRxtcur := rexmtval (8 * rtt) } := by
      simp [rtoExact, hs]
    rw [he]
    exact ⟨by dsimp only; omega, by dsimp only; omega, by dsimp only; omega, by dsimp only; omega,
      hm, rfl⟩

theorem Estimated.sample (h : Estimated lo hi n) (hlo : 1 ≤ lo) (hhi : hi < 268435456)
    (hr : lo ≤ rtt ∧ rtt ≤ hi) :
    rtoCalc rtt n = rtoExact rtt n ∧ Estimated lo hi (rtoExact rtt n) := by
  obtain ⟨hlow, hhigh, hpos, hvar, hmin, -⟩ := h
  have hne : n.tSrtt ≠ 0 := by omega
  obtain ⟨delta, hd⟩ : ∃ d : Int, d = (rtt : Int) - 1 - (n.tSrtt / 8 : ℕ) := ⟨_, rfl⟩
  have hd32 : toInt32 (toUint64 delta) = delta := toInt32_toUint64 (by omega) (by omega)
  have hs64 : toUint64 (n.tSrtt + delta) = (n.tSrtt + delta).toNat :=
    toUint64_of_int (by omega) (by omega)
  have habs : (if delta < 0 then -delta else delta) = (delta.natAbs : Int) := by
    split <;> omega
  have hv32 : toInt32 (toUint64 ((delta.natAbs : Int) - (n.tRttvar / 4 : ℕ))) =
      (delta.natAbs : Int) - (n.tRttvar / 4 : ℕ) := toInt32_toUint64 (by omega) (by omega)
  have hv64 : toUint64 (n.tRttvar + ((delta.natAbs : Int) - (n.tRttvar / 4 : ℕ))) =
      (n.tRttvar + ((delta.natAbs : Int) - (n.tRttvar / 4 : ℕ))).toNat :=
    toUint64_of_int (by omega) (by omega)
  have hval : toUint64 (((max 1 (n.tSrtt + delta)).toNat : Int) / 8 + (max 1 (n.tSrtt + delta)).toNat) =
      (max 1 (n.tSrtt + delta)).toNat / 8 + (max 1 (n.tSrtt + delta)).toNat :=
    toUint64_rexmtval (by omega)
  constructor
  · simp only [rtoCalc, rtoExact, if_pos hne, ← hd, hd32, hs64, habs, hv32, hv64, hmin, rexmtval,
      toNat_floor_one, hval]
  · simp only [rtoExact, if_pos hne, ← hd]
    exact ⟨by dsimp only; omega, by dsimp only; omega, by dsimp only; omega, by dsimp only; omega,
      hmin, rfl⟩

end Step

def rtoSamples : List (InAddr × ℕ) → DsrM Unit
  | [] => pure ()
  | x :: xs => do
      neighTblSetRto x.1 x.2
      rtoSamples xs

def samplesOf (addr : InAddr) (xs : List (InAddr × ℕ)) : List ℕ :=
  (xs.filter fun x => x.1 = addr).map Prod.snd

def Neighbor.estimate (n : Neighbor) (rs : List ℕ) : Neighbor := rs.foldl (fun n r => rtoCalc r n) n

def neighAt (s : DsrNode) (addr : InAddr) : Option Neighbor := s.neighTbl.find fun n => n.addr = addr

section Run

variable {lo hi : ℕ}

theorem neighAt_setRto {s : DsrNode} (hfree : s.locking = true → Lock.neighTbl ∉ s.held)
    (x : InAddr × ℕ) : ∃ s', neighTblSetRto x.1 x.2 s = .ok () s' ∧
      (s'.locking = true → Lock.neighTbl ∉ s'.held) ∧
      ∀ addr, neighAt s' addr = (neighAt s addr).map fun n => n.estimate (samplesOf addr [x]) := by
  refine ⟨_, neighTblFindDo_runs hfree, hfree, fun addr => ?_⟩
  unfold neighAt
  rw [neighTbl_find_findDo (f := rtoCalc x.2) fun _ => rfl]
  by_cases hx : x.1 = addr
  · rw [if_pos hx]
    simp [samplesOf, hx, Neighbor.estimate]
  · rw [if_neg hx]
    simp [samplesOf, hx, Neighbor.estimate]

theorem rtoSamples_runs (xs : List (InAddr × ℕ)) : ∀ {s : DsrNode},
    (s.locking = true → Lock.neighTbl ∉ s.held) → ∃ s', rtoSamples xs s = .ok () s' ∧
      ∀ addr, neighAt s' addr = (neighAt s addr).map fun n => n.estimate (samplesOf addr xs) := by
  induction xs with
  | nil =>
    intro s hfree
    refine ⟨s, rfl, fun addr => ?_⟩
    simp [samplesOf, Neighbor.estimate]
  | cons x xs ih =>
    intro s hfree
    obtain ⟨s₁, hrun₁, hfree₁, hat₁⟩ := neighAt_setRto hfree x
    obtain ⟨s', hrun, hat⟩ := ih hfree₁
    refine ⟨s', (Effect.bind_of_ok hrun₁ _).trans hrun, fun addr => ?_⟩
    rw [hat addr, hat₁ addr, Option.map_map]
    refine congrArg (fun f => Option.map f (neighAt s addr)) (funext fun n => ?_)
    simp only [Function.comp_apply, Neighbor.estimate, ← List.foldl_append, samplesOf, ← List.map_append,
      ← List.filter_append, List.singleton_append]

theorem Estimated.estimate {n : Neighbor} {rs : List ℕ} (h : Estimated lo hi n) (hlo : 1 ≤ lo)
    (hhi : hi < 268435456) (hrs : ∀ r ∈ rs, lo ≤ r ∧ r ≤ hi) : Estimated lo hi (n.estimate rs) := by
  induction rs generalizing n with
  | nil => exact h
  | cons r rs ih =>
    obtain ⟨hr, hrs⟩ := List.forall_mem_cons.mp hrs
    obtain ⟨heq, hn⟩ := h.sample hlo hhi hr
    rw [← heq] at hn
    exact ih hn hrs

theorem Fresh.estimate {n : Neighbor} {rs : List ℕ} (h : Fresh n) (hlo : 1 ≤ lo)
    (hhi : hi < 268435456) (hrs : ∀ r ∈ rs, lo ≤ r ∧ r ≤ hi) (hne : rs ≠ []) :
    Estimated lo hi (n.estimate rs) := by
  cases rs with
  | nil => exact absurd rfl hne
  | cons r rs =>
    obtain ⟨hr, hrs⟩ := List.forall_mem_cons.mp hrs
    obtain ⟨heq, hn⟩ := h.sample hlo hhi hr
    rw [← heq] at hn
    exact hn.estimate hlo hhi hrs

theorem Fresh.mem_range {n : Neighbor} (h : Fresh n) :
    dsrMin ≤ n.tRxtcur ∧ n.tRxtcur ≤ dsrRexmtmax := by
  have hcur : n.tRxtcur = dsrRangeset (4 * dsrSrttdflt / 2) dsrMin dsrRexmtmax := by
    rw [h.created]
    rfl
  rw [hcur]
  exact dsrRangeset_mem (by decide)

theorem Estimated.mem_range {n : Neighbor} (h : Estimated lo hi n) :
    dsrMin ≤ n.tRxtcur ∧ n.tRxtcur ≤ dsrRexmtmax := by
  rw [h.rxtcur]
  exact rexmtval_mem _

end Run

theorem rto_bounded {lo hi : ℕ} (hlo : 1 ≤ lo) (hhi : hi < 2 ^ 28) {xs : List (InAddr × ℕ)}
    (hxs : ∀ x ∈ xs, lo ≤ x.2 ∧ x.2 ≤ hi) {s : DsrNode}
    (hfree : s.locking = true → Lock.neighTbl ∉ s.held) (hs : ∀ n ∈ s.neighTbl.head, Fresh n) :
    (∀ v w, v ≤ w → rexmtval v ≤ rexmtval w) ∧
    ∃ s', rtoSamples xs s = .ok () s' ∧ ∀ addr n, neighAt s' addr = some n →
      (dsrMin ≤ n.tRxtcur ∧ n.tRxtcur ≤ dsrRexmtmax) ∧
      (∀ r, lo ≤ r → r ≤ hi → rtoCalc r n = rtoExact r n) ∧
      (samplesOf addr xs ≠ [] → 8 * (lo - 1) ≤ n.tSrtt ∧ n.tSrtt ≤ 8 * hi ∧ 1 ≤ n.tSrtt ∧
        n.tRxtcur = rexmtval n.tSrtt) := by
  refine ⟨fun v w h => rexmtval_mono h, ?_⟩
  obtain ⟨s', hrun, hat⟩ := rtoSamples_runs xs hfree
  refine ⟨s', hrun, fun addr n hn => ?_⟩
  rw [hat addr] at hn
  obtain ⟨n₀, hn₀, rfl⟩ := Option.map_eq_some_iff.mp hn
  have hfresh := hs n₀ (List.mem_of_find?_eq_some hn₀)
  have hrs : ∀ r ∈ samplesOf addr xs, lo ≤ r ∧ r ≤ hi := by
    intro r hr
    obtain ⟨x, hx, rfl⟩ := List.mem_map.mp hr
    exact hxs x (List.mem_filter.mp hx).1
  by_cases hne : samplesOf addr xs = []
  · rw [hne]
    exact ⟨hfresh.mem_range, fun r hl hh => (hfresh.sample hlo hhi ⟨hl, hh⟩).1, fun h => absurd rfl h⟩
  · have hest := hfresh.estimate hlo hhi hrs hne
    exact ⟨hest.mem_range, fun r hl hh => (hest.sample hlo hhi ⟨hl, hh⟩).1,
      fun _ => ⟨hest.low, hest.high, hest.pos, hest.rxtcur⟩⟩

def sampledNode : DsrNode :=
  { dsrNodeInit ⟨10, 0, 0, 1⟩ confvalsDef true 0 ⟨0, 0⟩ (fun _ => 0) 0 with
    neighTbl := { head := [neighTblCreate ⟨10, 0, 0, 2⟩ 7 1, neighTblCreate ⟨10, 0, 0, 3⟩ 8 1]
                  len := 2, maxLen := neighTblMaxLen } }

theorem rto_bounded_two : ∃ s', rtoSamples [(⟨10, 0, 0, 2⟩, 9), (⟨10, 0, 0, 3⟩, 1), (⟨10, 0, 0, 2⟩, 4)]
      sampledNode = .ok () s' ∧ (neighAt s' ⟨10, 0, 0, 2⟩).isSome ∧
    ∀ n, neighAt s' ⟨10, 0, 0, 2⟩ = some n → n.tSrtt ≤ 72 ∧ n.tRxtcur = rexmtval n.tSrtt := by
  have hfresh : ∀ n ∈ sampledNode.neighTbl.head, Fresh n := by
    intro n hn
    rcases List.mem_pair.mp hn with rfl | rfl <;> exact ⟨rfl⟩
  have hxs : ∀ x ∈ [((⟨10, 0, 0, 2⟩ : InAddr), 9), (⟨10, 0, 0, 3⟩, 1), (⟨10, 0, 0, 2⟩, 4)],
      1 ≤ x.2 ∧ x.2 ≤ 9 := by decide
  obtain ⟨-, s', hrun, hbound⟩ :=
    rto_bounded (Nat.le_refl 1) (by decide) hxs (fun _ => List.not_mem_nil) hfresh
  refine ⟨s', hrun, ?_, fun n hn => ?_⟩
  · cases hrun
    rfl
  · obtain ⟨-, -, hest⟩ := hbound _ n hn
    obtain ⟨-, hhigh, -, hcur⟩ := hest (by decide)
    exact ⟨hhigh, hcur⟩

end DsrUu
