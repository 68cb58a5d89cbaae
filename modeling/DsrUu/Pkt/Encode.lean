import DsrUu.Pkt.Options

namespace DsrUu

open Bytes Effect

inductive OptEnc
  | srt (salvage : ℕ) (srt : DsrSrt)
  | rrep (srt : DsrSrt)
  | rerr (errType : ℕ) (errSrc errDst unreach : InAddr) (salv : ℕ)
  | ack (src dst : InAddr) (id : ℕ)
  | ackReq (id : ℕ)
  | rreq (target : InAddr) (seqno : ℕ)

namespace OptEnc

def size : OptEnc → ℕ
  | .srt _ r => dsrSrtOptLen r
  | .rrep r => dsrRrepOptLen r
  | rerr errType _ _ _ _ => if errType = nodeUnreachable then dsrRerrHdrLen + 4 else dsrRerrHdrLen
  | ack _ _ _ => dsrAckHdrLen
  | ackReq _ => dsrAckReqHdrLen
  | rreq _ _ => dsrRreqHdrLen

def Short : OptEnc → Prop
  | .srt _ r => r.laddrs + 2 ≤ 255
  | .rrep r => r.laddrs + 5 ≤ 255
  | _ => True

instance : ∀ e : OptEnc, Decidable e.Short
  | .srt _ r => inferInstanceAs (Decidable (r.laddrs + 2 ≤ 255))
  | .rrep r => inferInstanceAs (Decidable (r.laddrs + 5 ≤ 255))
  | .rerr _ _ _ _ _ => inferInstanceAs (Decidable True)
  | .ack _ _ _ => inferInstanceAs (Decidable True)
  | .ackReq _ => inferInstanceAs (Decidable True)
  | .rreq _ _ => inferInstanceAs (Decidable True)

def isRrep : OptEnc → Bool
  | rrep _ => true
  | _ => false

def add (dp : DsrPkt) (off len : ℕ) : OptEnc → Option DsrPkt
  | .srt salvage r => dsrSrtOptAdd dp off len salvage r
  | .rrep r => dsrRrepOptAdd dp off len r
  | rerr errType errSrc errDst unreach salv =>
      dsrRerrOptAdd dp off len errType errSrc errDst unreach salv
  | ack src dst id => dsrAckOptAdd dp off len src dst id
  | ackReq id => dsrAckReqOptCreate dp off len id
  | rreq target seqno => dsrRreqOptAdd dp off len target seqno

def code : OptEnc → OptType
  | srt _ _ => .srt
  | rrep _ => .rrep
  | rerr _ _ _ _ _ => .rerr
  | ack _ _ _ => .ack
  | ackReq _ => .ackReq
  | rreq _ _ => .rreq

def lenByte : OptEnc → UInt8
  | .srt _ r => UInt8.ofNat (r.laddrs + 2)
  | .rrep r => UInt8.ofNat (r.laddrs + 5)
  | rerr errType _ _ _ _ => UInt8.ofNat (if errType = nodeUnreachable then 14 else 10)
  | ack _ _ _ => 10
  | ackReq _ => 2
  | rreq _ _ => 6

def slot (e : OptEnc) : Slot := { type := UInt8.ofNat e.code.code, len := e.lenByte, size := e.size }

end OptEnc

def encSlots (es : List OptEnc) : List Slot := es.map OptEnc.slot

def encStarts (es : List OptEnc) : List Cursor := slotStarts dsrOptHdrLen (encSlots es)

def encSize (es : List OptEnc) : ℕ := (es.map OptEnc.size).sum

def layOut (dp : DsrPkt) (off len : ℕ) : List OptEnc → Option DsrPkt
  | [] => some dp
  | e :: es => (e.add dp off len).bind fun dp => layOut dp (off + e.size) (len - e.size) es

theorem OptEnc.optTypeOf_code (e : OptEnc) : optTypeOf (UInt8.ofNat e.code.code) = e.code := by
  cases e <;> rfl

theorem OptEnc.size_ge (e : OptEnc) : 4 ≤ e.size := by
  cases e with
  | srt _ r => exact Nat.le_add_right _ _
  | rrep r => exact Nat.le_add_right_of_le (Nat.le_add_right _ _)
  | rerr t =>
    rw [size]
    split <;> decide
  | ack => exact Nat.le_add_left 4 8
  | ackReq => exact Nat.le_refl 4
  | rreq => exact Nat.le_add_left 4 4

theorem OptEnc.steps_iff {e : OptEnc} (h : e.Short) : e.slot.Steps ↔ e.isRrep = false := by
  have hne : optTypeOf e.slot.type ≠ .pad1 := by
    rw [slot, e.optTypeOf_code]
    cases e <;> exact nofun
  refine (and_iff_right hne).trans ?_
  cases e with
  | srt _ r =>
    have hs : r.laddrs + 2 ≤ 255 := h
    simp only [slot, size, lenByte, isRrep, dsrSrtOptLen, dsrSrtHdrLen, UInt8.toNat_ofNat', iff_true]
    omega
  | rrep r =>
    have hs : r.laddrs + 5 ≤ 255 := h
    simp only [slot, size, lenByte, isRrep, dsrRrepOptLen, dsrRrepHdrLen, UInt8.toNat_ofNat',
      Bool.true_eq_false, iff_false]
    omega
  | rerr t =>
    refine iff_of_true ?_ rfl
    simp only [slot, size, lenByte]
    split <;> rfl
  | ack => exact iff_of_true rfl rfl
  | ackReq => exact iff_of_true rfl rfl
  | rreq => exact iff_of_true rfl rfl

section Written

variable {dp dp' : DsrPkt} {off : ℕ}

structure Head (dp : DsrPkt) (off : ℕ) (t l : UInt8) (dp' : DsrPkt) : Prop where
  room : ∀ b, dp.dh = some b → ∃ b', dp'.dh = some b' ∧ b'.tail = b.tail ∧ b'.raw.length = b.raw.length
  before : ∀ i, i < off → dp'.byteAt i = dp.byteAt i
  type : off < dp.optsLen → dp'.byteAt off = t
  len : off + 1 < dp.optsLen → dp'.byteAt (off + 1) = l

theorem head_write {b : OptBuf} (hb : dp.dh = some b) (hr : b.tail ≤ b.raw.length) (t l : UInt8)
    (xs : List UInt8) : Head dp off t l (dp.write off (t :: l :: xs)) := by
  refine ⟨fun b' hb' => write_room dp off _ hb', fun i hi => byteAt_write_lt dp _ hi, fun hlt => ?_,
    fun hlt => ?_⟩
  · rw [optsLen_dh hb] at hlt
    exact byteAt_write_head (i := 0) hb (by simp) (by omega)
  · rw [optsLen_dh hb] at hlt
    exact byteAt_write_head (i := 1) hb (by simp) (by omega)

theorem Head.write {t l : UInt8} (h : Head dp off t l dp') {off' : ℕ} (hoff : off + 2 ≤ off')
    (xs : List UInt8) : Head dp off t l (dp'.write off' xs) := by
  refine ⟨fun b hb => ?_, fun i hi => ?_, fun hlt => ?_, fun hlt => ?_⟩
  · obtain ⟨b', hb', ht, hl⟩ := h.room b hb
    obtain ⟨b'', hb'', ht', hl'⟩ := write_room dp' off' xs hb'
    exact ⟨b'', hb'', ht'.trans ht, hl'.trans hl⟩
  · rw [byteAt_write_lt dp' xs (by omega), h.before i hi]
  · rw [byteAt_write_lt dp' xs (by omega), h.type hlt]
  · rw [byteAt_write_lt dp' xs (by omega), h.len hlt]

end Written

theorem OptEnc.add_head {dp dp' : DsrPkt} {off len : ℕ} {e : OptEnc} (h : e.add dp off len = some dp')
    {b : OptBuf} (hb : dp.dh = some b) (hr : b.tail ≤ b.raw.length) :
    Head dp off (UInt8.ofNat e.code.code) e.lenByte dp' := by
  cases e with
  | srt salvage r =>
    rw [add, dsrSrtOptAdd, Option.ite_none_left_eq_some] at h
    obtain ⟨-, h⟩ := h
    cases h
    exact head_write hb hr _ _ _
  | rrep r =>
    rw [add, dsrRrepOptAdd, Option.ite_none_left_eq_some] at h
    obtain ⟨-, h⟩ := h
    cases h
    refine ((head_write hb hr _ _ [0]).write ?_ _).write ?_ _
    · unfold dsrRrepHdrLen
      omega
    · unfold dsrRrepHdrLen
      omega
  | rerr t s d u v =>
    rw [add, dsrRerrOptAdd, Option.ite_none_left_eq_some] at h
    obtain ⟨-, h⟩ := h
    cases h
    exact head_write hb hr _ _ _
  | ack s d id =>
    rw [add, dsrAckOptAdd, Option.ite_none_left_eq_some] at h
    obtain ⟨-, h⟩ := h
    cases h
    exact head_write hb hr _ _ _
  | ackReq id =>
    rw [add, dsrAckReqOptCreate, Option.ite_none_left_eq_some] at h
    obtain ⟨-, h⟩ := h
    cases h
    exact head_write hb hr _ _ _
  | rreq t id =>
    rw [add, dsrRreqOptAdd, Option.ite_none_left_eq_some] at h
    obtain ⟨-, h⟩ := h
    cases h
    exact head_write hb hr _ _ _

structure Laying (dp dp' : DsrPkt) (off : ℕ) (es : List OptEnc) : Prop where
  room : ∀ b, dp.dh = some b → ∃ b', dp'.dh = some b' ∧ b'.tail = b.tail ∧ b'.raw.length = b.raw.length
  before : ∀ i, i < off → dp'.byteAt i = dp.byteAt i
  laid : Laid dp'.byteAt off (encSlots es)

theorem encSize_cons (e : OptEnc) (es : List OptEnc) : encSize (e :: es) = e.size + encSize es := rfl

theorem layOut_laid (es : List OptEnc) : ∀ {dp dp' : DsrPkt} {off len : ℕ} {b : OptBuf},
    layOut dp off len es = some dp' → dp.dh = some b → b.tail ≤ b.raw.length →
    off + encSize es ≤ b.tail → Laying dp dp' off es := by
  induction es with
  | nil =>
    intro dp dp' off len b h hb _ _
    cases h
    exact ⟨fun b' hb' => ⟨b', hb', rfl, rfl⟩, fun _ _ => rfl, trivial⟩
  | cons e es ih =>
    intro dp dp' off len b h hb hr hfit
    obtain ⟨dp₁, hadd, h⟩ := Option.bind_eq_some_iff.mp h
    have hh := OptEnc.add_head hadd hb hr
    obtain ⟨b₁, hb₁, ht₁, hl₁⟩ := hh.room b hb
    rw [encSize_cons] at hfit
    have hge := e.size_ge
    have hrest := ih h hb₁ (by omega) (by omega)
    have hlen := optsLen_dh hb
    refine ⟨fun b' hb' => ?_, fun i hi => ?_, ?_, fun _ => ?_, hrest.laid⟩
    · obtain ⟨b₂, hb₂, ht₂, hl₂⟩ := hrest.room b₁ hb₁
      rw [hb] at hb'
      cases hb'
      exact ⟨b₂, hb₂, ht₂.trans ht₁, hl₂.trans hl₁⟩
    · rw [hrest.before i (by omega), hh.before i hi]
    · rw [hrest.before off (by omega)]
      exact hh.type (by omega)
    · rw [hrest.before (off + 1) (by omega)]
      exact hh.len (by omega)

theorem slotEnd_encSlots (es : List OptEnc) : ∀ o, slotEnd o (encSlots es) = o + encSize es := by
  induction es with
  | nil => exact fun _ => rfl
  | cons e es ih =>
    intro o
    change slotEnd (o + e.size) (encSlots es) = o + (e.size + encSize es)
    rw [ih, Nat.add_assoc]

def findNext (byte : ℕ → UInt8) (c : Cursor) : Cursor :=
  ⟨c.l + optSize byte c.off, c.off + optSize byte c.off⟩

def findWalk (dp : DsrPkt) : List Cursor :=
  trail (optGo dp.optsLen) (findNext dp.byteAt) dp.optsLen ⟨dsrOptHdrLen, dsrOptHdrLen⟩

def parseEnd (dp : DsrPkt) : Cursor :=
  trailEnd (optGo dp.optsLen) (optNext dp.byteAt) dp.optsLen ⟨dsrOptHdrLen, dsrOptHdrLen⟩

def findEnd (dp : DsrPkt) : Cursor :=
  trailEnd (optGo dp.optsLen) (findNext dp.byteAt) dp.optsLen ⟨dsrOptHdrLen, dsrOptHdrLen⟩

theorem optFindLoop_eq (fuel : ℕ) : ∀ (dsrLen type l off : ℕ) (dp : DsrPkt),
    optFindLoop fuel dsrLen type l off dp =
      ((trail (optGo dsrLen) (findNext dp.byteAt) fuel ⟨l, off⟩).find? fun c =>
        type = (dp.byteAt c.off).toNat).map fun c => dp.ptr c.off := by
  induction fuel with
  | zero => exact fun _ _ _ _ _ => rfl
  | succ fuel ih =>
    intro dsrLen type l off dp
    unfold optFindLoop trail
    by_cases hg : optGo dsrLen ⟨l, off⟩ = true
    · rw [if_pos hg, if_pos (optGo_iff.mp hg), List.find?_cons]
      by_cases ht : type = (dp.byteAt off).toNat
      · rw [if_pos ht]
        simp [ht]
      · rw [if_neg ht, ih]
        simp only [ht, decide_false]
        rfl
    · rw [if_neg hg, if_neg fun h => hg (optGo_iff.mpr h)]
      rfl

theorem dsrOptFindOpt_eq (dp : DsrPkt) (type : ℕ) : dsrOptFindOpt dp type =
    ((findWalk dp).find? fun c => type = (dp.byteAt c.off).toNat).map fun c => dp.ptr c.off :=
  optFindLoop_eq _ _ _ _ _ _

theorem findNext_eq {byte : ℕ → UInt8} {c : Cursor} (h : optTypeOf (byte c.off) ≠ .pad1) :
    findNext byte c = optNext byte c := by
  rw [findNext, optNext, if_neg h]

theorem linked_congr {σ : Type} {next next' : σ → σ} {cs : List σ} : ∀ {c e : σ}, Linked next c cs e →
    (∀ x ∈ cs, next' x = next x) → Linked next' c cs e := by
  induction cs with
  | nil => exact fun h _ => h
  | cons x xs ih =>
    intro c e h heq
    refine ⟨h.1, ?_⟩
    rw [heq x List.mem_cons_self]
    exact ih h.2 fun y hy => heq y (List.mem_cons_of_mem _ hy)

structure WalksBackToBack (es : List OptEnc) (dp : DsrPkt) : Prop where
  parse : parseWalk dp = encStarts es
  parseEnd : parseEnd dp = ⟨dp.optsLen, dp.optsLen⟩
  find : findWalk dp = encStarts es
  findEnd : findEnd dp = ⟨dp.optsLen, dp.optsLen⟩
  found : ∀ type, dsrOptFindOpt dp type =
    ((encStarts es).find? fun c => type = (dp.byteAt c.off).toNat).map fun c => dp.ptr c.off

theorem layOut_walks_iff {dp dp' : DsrPkt} {es : List OptEnc} {b : OptBuf} (hb : dp.dh = some b)
    (hr : b.tail ≤ b.raw.length) (hlen : b.tail = dsrOptHdrLen + encSize es)
    (hshort : ∀ e ∈ es, e.Short)
    (hlay : layOut dp dsrOptHdrLen (b.tail - dsrOptHdrLen) es = some dp') :
    WalksBackToBack es dp' ↔ ∀ e ∈ es, e.isRrep = false := by
  have hl := layOut_laid es hlay hb hr (Nat.le_of_eq hlen.symm)
  obtain ⟨b', hb', ht', -⟩ := hl.room b hb
  have hlen' : dp'.optsLen = slotEnd dsrOptHdrLen (encSlots es) := by
    rw [optsLen_dh hb', ht', hlen, slotEnd_encSlots]
  have hsz : ∀ x ∈ encSlots es, 4 ≤ x.size := by
    intro x hx
    obtain ⟨e, -, rfl⟩ := List.mem_map.mp hx
    exact e.size_ge
  refine ⟨fun h e he => ?_, fun h => ?_⟩
  · have hlink : Linked (optNext dp'.byteAt) ⟨dsrOptHdrLen, dsrOptHdrLen⟩
        (trail (optGo dp'.optsLen) (optNext dp'.byteAt) dp'.optsLen ⟨dsrOptHdrLen, dsrOptHdrLen⟩)
        (trailEnd (optGo dp'.optsLen) (optNext dp'.byteAt) dp'.optsLen ⟨dsrOptHdrLen, dsrOptHdrLen⟩) :=
      trail_linked _ _
    have hp := h.parse
    have hpe := h.parseEnd
    rw [parseWalk, optWalk] at hp
    rw [parseEnd] at hpe
    rw [hp, hpe] at hlink
    have hall := (hl.laid.steps _ (fun x hx _ => by have := hsz x hx; omega) hlink).2
      (by rw [hlen'])
    exact (OptEnc.steps_iff (hshort e he)).mp (hall _ (List.mem_map.mpr ⟨e, he, rfl⟩))
  · have hs : ∀ x ∈ encSlots es, x.Steps := by
      intro x hx
      obtain ⟨e, he, rfl⟩ := List.mem_map.mp hx
      exact (OptEnc.steps_iff (hshort e he)).mpr (h e he)
    have hlink := hl.laid.linked _ hs
    have hgo : ∀ c ∈ encStarts es, optGo dp'.optsLen c = true := by
      intro c hc
      rw [hlen']
      exact slotStarts_lt _ hc fun x hx => by
        have := hsz x (List.mem_of_getLast? hx)
        omega
    have hend : optGo dp'.optsLen ⟨slotEnd dsrOptHdrLen (encSlots es), slotEnd dsrOptHdrLen (encSlots es)⟩ =
        false := by
      rw [← Bool.not_eq_true, optGo_iff]
      dsimp only
      omega
    have hfuel : (encStarts es).length ≤ dp'.optsLen := by
      have hle := length_le_slotEnd (encSlots es) dsrOptHdrLen fun x hx => by
        have := hsz x hx
        omega
      rw [encStarts, length_slotStarts]
      omega
    have hnp : ∀ c ∈ encStarts es, optTypeOf (dp'.byteAt c.off) ≠ .pad1 := by
      intro c hc hpad
      obtain ⟨x, hx, htx⟩ := hl.laid.start_type hc
      rw [htx] at hpad
      exact (hs x hx).1 hpad
    have hlink' := linked_congr hlink fun c hc => findNext_eq (hnp c hc)
    obtain ⟨hw, hwe⟩ := hlink.trail hgo hend hfuel
    obtain ⟨hf, hfe⟩ := hlink'.trail hgo hend hfuel
    refine ⟨hw, ?_, hf, ?_, fun type => ?_⟩
    · rw [parseEnd, hwe, hlen']
    · rw [findEnd, hfe, hlen']
    · rw [dsrOptFindOpt_eq, findWalk, hf]
      rfl

def encRoute : DsrSrt :=
  { src := ⟨10, 0, 0, 1⟩, dst := ⟨10, 0, 0, 3⟩, flags := 0, laddrs := 4, addrs := [⟨10, 0, 0, 2⟩] }

def encBuf (es : List OptEnc) : DsrPkt :=
  { dh := some { raw := fill (fun _ => 0) (dsrOptHdrLen + encSize es + defaultTailroom)
                 tail := dsrOptHdrLen + encSize es } }

def encPkt (es : List OptEnc) : DsrPkt := (layOut (encBuf es) dsrOptHdrLen (encSize es) es).getD {}

theorem layOut_walks_iff_srt_ack : WalksBackToBack [.srt 0 encRoute, .ackReq 7]
    (encPkt [.srt 0 encRoute, .ackReq 7]) ↔ ∀ e ∈ [OptEnc.srt 0 encRoute, .ackReq 7], e.isRrep = false :=
  layOut_walks_iff (rfl : (encBuf [.srt 0 encRoute, .ackReq 7]).dh = some _) (by decide +kernel) rfl
    (by decide +kernel) (by decide +kernel)

theorem layOut_rrep_not_walks : layOut (encBuf [.rrep encRoute, .ackReq 7]) dsrOptHdrLen
      (encSize [.rrep encRoute, .ackReq 7]) [.rrep encRoute, .ackReq 7] =
        some (encPkt [.rrep encRoute, .ackReq 7]) ∧
    ¬ WalksBackToBack [.rrep encRoute, .ackReq 7] (encPkt [.rrep encRoute, .ackReq 7]) := by
  refine ⟨by decide +kernel, fun h => ?_⟩
  have hp := h.parse
  revert hp
  decide +kernel

end DsrUu
