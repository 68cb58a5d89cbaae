import DsrUu.Pkt.Slots

namespace DsrUu

open Bytes Effect

structure TlvOpt where
  type : UInt8
  body : List UInt8
  notPad1 : optTypeOf type ≠ .pad1
  short : body.length ≤ 255

inductive DsrOpt
  | pad1
  | tlv (o : TlvOpt)

namespace DsrOpt

def bytes : DsrOpt → List UInt8
  | pad1 => [UInt8.ofNat OptType.pad1.code]
  | tlv o => o.type :: UInt8.ofNat o.body.length :: o.body

def type : DsrOpt → OptType
  | pad1 => .pad1
  | tlv o => optTypeOf o.type

def slot : DsrOpt → Slot
  | pad1 => { type := UInt8.ofNat OptType.pad1.code, len := 0, size := 1 }
  | tlv o => { type := o.type, len := UInt8.ofNat o.body.length, size := o.body.length + 2 }

theorem length_bytes (o : DsrOpt) : o.bytes.length = o.slot.size := by
  cases o <;> rfl

theorem type_slot (o : DsrOpt) : optTypeOf o.slot.type = o.type := by
  cases o <;> rfl

theorem size_pos (o : DsrOpt) : 0 < o.slot.size := by
  cases o with
  | pad1 => exact Nat.one_pos
  | tlv o => exact Nat.succ_pos _

theorem size_of_tlv {o : DsrOpt} (h : o.type ≠ .pad1) : 2 ≤ o.slot.size := by
  cases o with
  | pad1 => exact absurd rfl h
  | tlv o => exact Nat.le_add_left 2 o.body.length

theorem steps_iff {o : DsrOpt} : o.slot.Steps ↔ o.type ≠ .pad1 := by
  cases o with
  | pad1 => exact ⟨fun h => h.1, fun h => absurd rfl h⟩
  | tlv o =>
    refine ⟨fun h => h.1, fun h => ⟨h, ?_⟩⟩
    have hs := o.short
    simp only [slot, UInt8.toNat_ofNat']
    omega

end DsrOpt

def optBytes (os : List DsrOpt) : List UInt8 := os.flatMap DsrOpt.bytes

def optSlots (os : List DsrOpt) : List Slot := os.map DsrOpt.slot

def optStarts (os : List DsrOpt) : List Cursor := slotStarts dsrOptHdrLen (optSlots os)

structure OptArea (os : List DsrOpt) (dp : DsrPkt) : Prop where
  optsLen : dp.optsLen = dsrOptHdrLen + (optBytes os).length
  bytes : ∀ i, i < (optBytes os).length → dp.byteAt (dsrOptHdrLen + i) = (optBytes os).getD i 0

structure Plain (os : List DsrOpt) : Prop where
  noPad1 : ∀ o ∈ os, o.type ≠ .pad1
  last : ∀ o ∈ os.getLast?, 2 < o.bytes.length

theorem slotEnd_optSlots (os : List DsrOpt) : ∀ o, slotEnd o (optSlots os) = o + (optBytes os).length := by
  induction os with
  | nil => exact fun _ => rfl
  | cons x xs ih =>
    intro o
    have hx := x.length_bytes
    change slotEnd (o + x.slot.size) (optSlots xs) = o + (x.bytes ++ optBytes xs).length
    rw [ih, List.length_append, hx]
    omega

theorem laid_of_bytes {byte : ℕ → UInt8} (os : List DsrOpt) : ∀ {o : ℕ},
    (∀ i, i < (optBytes os).length → byte (o + i) = (optBytes os).getD i 0) →
    Laid byte o (optSlots os) := by
  induction os with
  | nil => exact fun _ => trivial
  | cons x xs ih =>
    intro o h
    have hx := x.length_bytes
    have hb : optBytes (x :: xs) = x.bytes ++ optBytes xs := rfl
    rw [hb, List.length_append] at h
    have hhead : ∀ i, i < x.bytes.length → byte (o + i) = x.bytes.getD i 0 := fun i hi => by
      rw [h i (by omega), getD_append_left hi]
    have htail : Laid byte (o + x.slot.size) (optSlots xs) := by
      refine ih fun i hi => ?_
      rw [← hx, Nat.add_assoc, h _ (by omega), getD_append_right]
    refine ⟨?_, fun hs => ?_, htail⟩
    · have h0 := hhead 0 (by have := x.size_pos; omega)
      rw [Nat.add_zero] at h0
      rw [h0]
      cases x <;> rfl
    · rw [hhead 1 (by omega)]
      cases x with
      | pad1 => exact absurd hs (by decide)
      | tlv o => rfl

namespace OptArea

variable {os : List DsrOpt} {dp : DsrPkt}

theorem laid (h : OptArea os dp) : Laid dp.byteAt dsrOptHdrLen (optSlots os) := laid_of_bytes os h.bytes

theorem slotEnd (h : OptArea os dp) : DsrUu.slotEnd dsrOptHdrLen (optSlots os) = dp.optsLen := by
  rw [slotEnd_optSlots, h.optsLen]

theorem length_le (h : OptArea os dp) : (optSlots os).length ≤ dp.optsLen := by
  have hle := length_le_slotEnd (optSlots os) dsrOptHdrLen fun x hx => by
    obtain ⟨o, -, rfl⟩ := List.mem_map.mp hx
    exact o.size_pos
  rw [h.slotEnd] at hle
  omega

end OptArea

theorem getLast?_optSlots (os : List DsrOpt) {x : Slot} :
    x ∈ (optSlots os).getLast? ↔ ∃ o ∈ os.getLast?, o.slot = x := by
  rw [optSlots, List.getLast?_map]
  simp only [Option.mem_def, Option.map_eq_some_iff]

theorem plain_steps {os : List DsrOpt} (h : Plain os) : ∀ x ∈ optSlots os, x.Steps := by
  intro x hx
  obtain ⟨o, ho, rfl⟩ := List.mem_map.mp hx
  exact DsrOpt.steps_iff.mpr (h.noPad1 o ho)

theorem plain_last {os : List DsrOpt} (h : Plain os) : ∀ x ∈ (optSlots os).getLast?, 2 < x.size := by
  intro x hx
  obtain ⟨o, ho, rfl⟩ := (getLast?_optSlots os).mp hx
  rw [← o.length_bytes]
  exact h.last o ho

theorem plain_of_steps {os : List DsrOpt} (hd : ∀ x ∈ (optSlots os).dropLast, x.Steps)
    (hl : ∀ x ∈ (optSlots os).getLast?, 2 < x.size) : Plain os := by
  have hlast : ∀ o ∈ os.getLast?, 2 < o.bytes.length := fun o ho => by
    rw [o.length_bytes]
    exact hl _ ((getLast?_optSlots os).mpr ⟨o, ho, rfl⟩)
  refine ⟨fun o ho => ?_, hlast⟩
  rcases List.eq_nil_or_concat os with rfl | ⟨pre, z, rfl⟩
  · exact absurd ho List.not_mem_nil
  · rw [List.concat_eq_append] at ho hd hlast
    rcases List.mem_append.mp ho with hp | hz
    · refine DsrOpt.steps_iff.mp (hd _ ?_)
      rw [optSlots, List.map_append, List.map_singleton, List.dropLast_concat]
      exact List.mem_map.mpr ⟨o, hp, rfl⟩
    · rw [List.mem_singleton.mp hz]
      have hz := hlast z (by simp)
      rintro ht
      cases z with
      | pad1 => exact absurd hz (by decide)
      | tlv o => exact o.notPad1 ht

theorem parseWalk_eq_iff {os : List DsrOpt} {dp : DsrPkt} (h : OptArea os dp) :
    parseWalk dp = optStarts os ↔ Plain os := by
  unfold parseWalk optStarts
  rw [← h.slotEnd]
  refine ⟨fun hw => ?_, fun hp => ?_⟩
  · have hs := h.laid.steps_of_walk (fun x hx ht => ?_) hw
    · exact plain_of_steps hs.1 hs.2
    · obtain ⟨o, -, rfl⟩ := List.mem_map.mp hx
      exact DsrOpt.size_of_tlv (by rwa [o.type_slot] at ht)
  · refine h.laid.walk (plain_steps hp) (plain_last hp) ?_
    rw [h.slotEnd]
    exact h.length_le

theorem optParseCount_eq (fuel : ℕ) : ∀ (dsrLen l off n : ℕ) (dp : DsrPkt),
    optParseCount fuel dsrLen l off n dp =
      n + ((optWalk dp.byteAt fuel dsrLen ⟨l, off⟩).filter fun c =>
        optTypeOf (dp.byteAt c.off) ≠ .pad1).length := by
  induction fuel with
  | zero => exact fun _ _ _ _ _ => rfl
  | succ fuel ih =>
    intro dsrLen l off n dp
    unfold optParseCount optWalk trail
    by_cases hg : optGo dsrLen ⟨l, off⟩ = true
    · rw [if_pos hg, if_pos (optGo_iff.mp hg), List.filter_cons]
      by_cases hp : optTypeOf (dp.byteAt off) = .pad1
      · rw [if_pos hp, ih, if_neg (by simpa using hp), optNext, if_pos hp]
        rfl
      · rw [if_neg hp, ih, if_pos (by simpa using hp), optNext, if_neg hp, List.length_cons]
        rw [Nat.add_assoc, Nat.add_comm 1]
        rfl
    · rw [if_neg hg, if_neg fun h => hg (optGo_iff.mpr h)]
      rfl

theorem dsrOptParseRet_eq (dp : DsrPkt) : dsrOptParseRet dp =
    ((parseWalk dp).filter fun c => optTypeOf (dp.byteAt c.off) ≠ .pad1).length := by
  rw [dsrOptParseRet, optParseCount_eq, Nat.zero_add]
  rfl

theorem starts_types {byte : ℕ → UInt8} (os : List DsrOpt) : ∀ {o : ℕ}, Laid byte o (optSlots os) →
    (slotStarts o (optSlots os)).map (fun c => optTypeOf (byte c.off)) = os.map DsrOpt.type := by
  induction os with
  | nil => exact fun _ => rfl
  | cons x xs ih =>
    intro o h
    rw [List.map_cons, ← ih h.2.2]
    change optTypeOf (byte o) :: _ = _
    rw [show byte o = x.slot.type from h.1, x.type_slot]
    rfl

theorem dsrOptParseRet_plain {os : List DsrOpt} {dp : DsrPkt} (h : OptArea os dp) (hp : Plain os) :
    dsrOptParseRet dp = (os.filter fun o => o.type ≠ .pad1).length := by
  have ht := congrArg (fun ts => (ts.filter (· ≠ OptType.pad1)).length) (starts_types os h.laid)
  rw [dsrOptParseRet_eq, (parseWalk_eq_iff h).mpr hp, optStarts]
  simp only [List.filter_map, List.length_map] at ht
  exact ht

end DsrUu
