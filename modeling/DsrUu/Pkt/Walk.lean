import DsrUu.Effect.Trail
import DsrUu.Pkt.Parse

namespace DsrUu

open Bytes Effect

structure Cursor where
  l : ℕ
  off : ℕ
deriving DecidableEq, Repr

def optGo (dsrLen : ℕ) (c : Cursor) : Bool := c.l < dsrLen && dsrLen - c.l > 2

def optSize (byte : ℕ → UInt8) (off : ℕ) : ℕ := (byte (off + 1)).toNat + 2

def optNext (byte : ℕ → UInt8) (c : Cursor) : Cursor :=
  if optTypeOf (byte c.off) = .pad1 then ⟨c.l + 1, c.off + 2⟩
  else ⟨c.l + optSize byte c.off, c.off + optSize byte c.off⟩

def optWalk (byte : ℕ → UInt8) (fuel dsrLen : ℕ) (c : Cursor) : List Cursor :=
  trail (optGo dsrLen) (optNext byte) fuel c

def optParseAt (dp : DsrPkt) (c : Cursor) : DsrPkt :=
  if optTypeOf (dp.byteAt c.off) = .pad1 then dp else optParseStep dp c.off

theorem optGo_iff {dsrLen : ℕ} {c : Cursor} :
    optGo dsrLen c = true ↔ c.l < dsrLen ∧ dsrLen - c.l > 2 := by
  simp [optGo]

theorem optParseAt_byteAt (dp : DsrPkt) (c : Cursor) (off : ℕ) :
    (optParseAt dp c).byteAt off = dp.byteAt off := by
  unfold optParseAt
  split
  · rfl
  · exact strip_byteAt (optParseStep_strip dp c.off) off

theorem optParseLoop_walk (fuel : ℕ) : ∀ (dsrLen l off : ℕ) (dp : DsrPkt),
    optParseLoop fuel dsrLen l off dp =
      (optWalk dp.byteAt fuel dsrLen ⟨l, off⟩).foldl optParseAt dp := by
  induction fuel with
  | zero => exact fun _ _ _ _ => rfl
  | succ fuel ih =>
    intro dsrLen l off dp
    have hb : (optParseAt dp ⟨l, off⟩).byteAt = dp.byteAt :=
      funext (optParseAt_byteAt dp ⟨l, off⟩)
    unfold optParseLoop optWalk trail
    by_cases hg : optGo dsrLen ⟨l, off⟩ = true
    · rw [if_pos hg, if_pos (optGo_iff.mp hg), List.foldl_cons]
      by_cases hp : optTypeOf (dp.byteAt off) = .pad1
      · rw [if_pos hp, ih, optParseAt, if_pos hp, optNext, if_pos hp]
        rfl
      · rw [if_neg hp, ih]
        rw [optParseAt, if_neg hp] at hb ⊢
        rw [optNext, if_neg hp, hb]
        rfl
    · rw [if_neg hg, if_neg fun h => hg (optGo_iff.mpr h)]
      rfl

def ofType (byte : ℕ → UInt8) (t : OptType) (cs : List Cursor) : List Cursor :=
  cs.filter fun c => optTypeOf (byte c.off) = t

theorem ofType_cons {byte : ℕ → UInt8} {t : OptType} {c : Cursor} {cs : List Cursor} :
    ofType byte t (c :: cs) =
      if optTypeOf (byte c.off) = t then c :: ofType byte t cs else ofType byte t cs := by
  unfold ofType
  rw [List.filter_cons]
  simp only [decide_eq_true_eq]

section Fields

variable {dp : DsrPkt}

theorem optParseAt_gen (dp : DsrPkt) (c : Cursor) : (optParseAt dp c).gen = dp.gen := by
  unfold optParseAt
  split
  · rfl
  · exact strip_gen (optParseStep_strip dp c.off)

theorem optParseAt_ptr (dp : DsrPkt) (c : Cursor) (off : ℕ) :
    (optParseAt dp c).ptr off = dp.ptr off := by
  rw [DsrPkt.ptr, DsrPkt.ptr, optParseAt_gen]

def takeUpTo (n : ℕ) (ps : List OptPtr) (p : OptPtr) : List OptPtr :=
  if ps.length < n then ps ++ [p] else ps

structure ParseStep (dp : DsrPkt) (c : Cursor) (t : OptType) (dp' : DsrPkt) : Prop where
  srt : dp'.srtOpt = if t = .srt then dp.srtOpt.or (some (dp.ptr c.off)) else dp.srtOpt
  ackReq : dp'.ackReqOpt = if t = .ackReq then dp.ackReqOpt.or (some (dp.ptr c.off)) else dp.ackReqOpt
  rreq : dp'.rreqOpt = if t = .rreq ∧ dp.numRreqOpts = 0 then some (dp.ptr c.off) else dp.rreqOpt
  rrep : dp'.rrepOpt = if t = .rrep then takeUpTo maxRrepOpts dp.rrepOpt (dp.ptr c.off) else dp.rrepOpt
  rerr : dp'.rerrOpt = if t = .rerr then takeUpTo maxRerrOpts dp.rerrOpt (dp.ptr c.off) else dp.rerrOpt
  ack : dp'.ackOpt = if t = .ack then takeUpTo maxAckOpts dp.ackOpt (dp.ptr c.off) else dp.ackOpt
  numRreq : dp'.numRreqOpts = dp.numRreqOpts

theorem optParseAt_step (dp : DsrPkt) (c : Cursor) :
    ParseStep dp c (optTypeOf (dp.byteAt c.off)) (optParseAt dp c) := by
  unfold optParseAt
  split
  · next hp =>
    rw [hp]
    exact ⟨rfl, rfl, rfl, rfl, rfl, rfl, rfl⟩
  · unfold optParseStep
    dsimp only
    cases ht : optTypeOf (dp.byteAt c.off) <;> dsimp only
    case rrep =>
      split
      all_goals exact ⟨rfl, rfl, rfl, by simp [takeUpTo, *], rfl, rfl, rfl⟩
    case rreq =>
      split
      all_goals exact ⟨rfl, rfl, by simp [*], rfl, rfl, rfl, rfl⟩
    case rerr =>
      split
      all_goals exact ⟨rfl, rfl, rfl, rfl, by simp [takeUpTo, *], rfl, rfl⟩
    case ack =>
      split
      all_goals exact ⟨rfl, rfl, rfl, rfl, rfl, by simp [takeUpTo, *], rfl⟩
    case srt =>
      split
      · next hn => exact ⟨by simp [hn], rfl, rfl, rfl, rfl, rfl, rfl⟩
      · next hn =>
        obtain ⟨q, hq⟩ := Option.ne_none_iff_exists'.mp hn
        exact ⟨by simp [hq], rfl, rfl, rfl, rfl, rfl, rfl⟩
    case ackReq =>
      split
      · next hn => exact ⟨rfl, by simp [hn], rfl, rfl, rfl, rfl, rfl⟩
      · next hn =>
        obtain ⟨q, hq⟩ := Option.ne_none_iff_exists'.mp hn
        exact ⟨rfl, by simp [hq], rfl, rfl, rfl, rfl, rfl⟩
    all_goals exact ⟨rfl, rfl, rfl, rfl, rfl, rfl, rfl⟩

theorem foldl_takeUpTo (n : ℕ) (qs : List OptPtr) : ∀ ps : List OptPtr, ps.length ≤ n →
    qs.foldl (takeUpTo n) ps = (ps ++ qs).take n := by
  induction qs with
  | nil =>
    intro ps h
    rw [List.append_nil, List.take_of_length_le h]
    rfl
  | cons q qs ih =>
    intro ps h
    rw [List.foldl_cons, takeUpTo]
    split
    · next hlt =>
      rw [ih _ (by rw [List.length_append, List.length_singleton]; omega), List.append_assoc,
        List.singleton_append]
    · next hge =>
      have heq : ps.length = n := by omega
      rw [ih ps h, List.take_append_of_le_length (by omega), List.take_append_of_le_length (by omega)]

def lastPtr (o : Option OptPtr) : List OptPtr → Option OptPtr
  | [] => o
  | p :: ps => lastPtr (some p) ps

def firstPtr : List OptPtr → Option OptPtr
  | [] => none
  | p :: _ => some p

structure WalkParse (byte : ℕ → UInt8) (cs : List Cursor) (dp dp' : DsrPkt) : Prop where
  srt : dp'.srtOpt = dp.srtOpt.or (firstPtr ((ofType byte .srt cs).map fun c => dp.ptr c.off))
  ackReq : dp'.ackReqOpt =
    dp.ackReqOpt.or (firstPtr ((ofType byte .ackReq cs).map fun c => dp.ptr c.off))
  rreq : dp.numRreqOpts = 0 →
    dp'.rreqOpt = lastPtr dp.rreqOpt ((ofType byte .rreq cs).map fun c => dp.ptr c.off)
  rrep : dp'.rrepOpt =
    ((ofType byte .rrep cs).map fun c => dp.ptr c.off).foldl (takeUpTo maxRrepOpts) dp.rrepOpt
  rerr : dp'.rerrOpt =
    ((ofType byte .rerr cs).map fun c => dp.ptr c.off).foldl (takeUpTo maxRerrOpts) dp.rerrOpt
  ack : dp'.ackOpt =
    ((ofType byte .ack cs).map fun c => dp.ptr c.off).foldl (takeUpTo maxAckOpts) dp.ackOpt
  numRreq : dp'.numRreqOpts = dp.numRreqOpts

theorem foldl_optParseAt {byte : ℕ → UInt8} (cs : List Cursor) : ∀ dp : DsrPkt, dp.byteAt = byte →
    WalkParse byte cs dp (cs.foldl optParseAt dp) := by
  induction cs with
  | nil =>
    intro dp _
    exact ⟨(Option.or_none).symm, (Option.or_none).symm, fun _ => rfl, rfl, rfl, rfl, rfl⟩
  | cons c cs ih =>
    intro dp hb
    have hb' : (optParseAt dp c).byteAt = byte := (funext (optParseAt_byteAt dp c)).trans hb
    have hs := optParseAt_step dp c
    have hw := ih (optParseAt dp c) hb'
    have hptr : (fun c' : Cursor => (optParseAt dp c).ptr c'.off) = fun c' : Cursor => dp.ptr c'.off :=
      funext fun c' => optParseAt_ptr dp c c'.off
    rw [hb] at hs
    rw [List.foldl_cons]
    refine ⟨?_, ?_, fun hn => ?_, ?_, ?_, ?_, hw.numRreq.trans hs.numRreq⟩
    · rw [hw.srt, hptr, hs.srt, ofType_cons]
      split
      · rw [List.map_cons, firstPtr, Option.or_assoc, Option.some_or]
      · rfl
    · rw [hw.ackReq, hptr, hs.ackReq, ofType_cons]
      split
      · rw [List.map_cons, firstPtr, Option.or_assoc, Option.some_or]
      · rfl
    · rw [hw.rreq (hs.numRreq.trans hn), hptr, hs.rreq, ofType_cons]
      by_cases ht : optTypeOf (byte c.off) = .rreq
      · rw [if_pos ⟨ht, hn⟩, if_pos ht, List.map_cons, lastPtr]
      · rw [if_neg fun h => ht h.1, if_neg ht]
    · rw [hw.rrep, hptr, hs.rrep, ofType_cons]
      split <;> rfl
    · rw [hw.rerr, hptr, hs.rerr, ofType_cons]
      split <;> rfl
    · rw [hw.ack, hptr, hs.ack, ofType_cons]
      split <;> rfl

end Fields

def parseWalk (dp : DsrPkt) : List Cursor :=
  optWalk dp.byteAt dp.optsLen dp.optsLen ⟨dsrOptHdrLen, dsrOptHdrLen⟩

structure Recorded (cs : List Cursor) (dp : DsrPkt) : Prop where
  srt : dp.srtOpt = firstPtr ((ofType dp.byteAt .srt cs).map fun c => dp.ptr c.off)
  ackReq : dp.ackReqOpt = firstPtr ((ofType dp.byteAt .ackReq cs).map fun c => dp.ptr c.off)
  rreq : dp.rreqOpt = lastPtr none ((ofType dp.byteAt .rreq cs).map fun c => dp.ptr c.off)
  rrep : dp.rrepOpt = ((ofType dp.byteAt .rrep cs).map fun c => dp.ptr c.off).take maxRrepOpts
  rerr : dp.rerrOpt = ((ofType dp.byteAt .rerr cs).map fun c => dp.ptr c.off).take maxRerrOpts
  ack : dp.ackOpt = ((ofType dp.byteAt .ack cs).map fun c => dp.ptr c.off).take maxAckOpts

theorem dsrOptParse_recorded {dp : DsrPkt} (hr : dp.rreqOpt = none) :
    Recorded (parseWalk dp) (dsrOptParse dp) := by
  obtain ⟨dp₀, hdp₀⟩ : ∃ dp₀ : DsrPkt, dp₀ = { dp with rrepOpt := [], rerrOpt := [], ackOpt := []
                                                       numRreqOpts := 0, srtOpt := none
                                                       ackReqOpt := none } := ⟨_, rfl⟩
  have hparse : dsrOptParse dp = (parseWalk dp).foldl optParseAt dp₀ := by
    rw [hdp₀]
    unfold dsrOptParse
    rw [optParseLoop_walk]
    rfl
  have hw := foldl_optParseAt (parseWalk dp) dp₀ rfl
  have hstrip := (dsrOptParse_spec dp).2
  have hbyte : (dsrOptParse dp).byteAt = dp₀.byteAt := by
    rw [hdp₀]
    exact funext fun off => strip_byteAt hstrip off
  have hptr : ∀ off, (dsrOptParse dp).ptr off = dp₀.ptr off := by
    intro off
    rw [DsrPkt.ptr, DsrPkt.ptr, strip_gen hstrip, hdp₀]
  have hptr' : (fun c : Cursor => (dsrOptParse dp).ptr c.off) = fun c : Cursor => dp₀.ptr c.off :=
    funext fun c => hptr c.off
  rw [← hparse] at hw
  refine ⟨?_, ?_, ?_, ?_, ?_, ?_⟩ <;> rw [hbyte, hptr']
  · rw [hw.srt, hdp₀]
    rfl
  · rw [hw.ackReq, hdp₀]
    rfl
  · rw [hw.rreq (by rw [hdp₀]), hdp₀]
    exact congrArg (fun o => lastPtr o _) hr
  · rw [hw.rrep, hdp₀]
    exact foldl_takeUpTo _ _ _ (Nat.zero_le _)
  · rw [hw.rerr, hdp₀]
    exact foldl_takeUpTo _ _ _ (Nat.zero_le _)
  · rw [hw.ack, hdp₀]
    exact foldl_takeUpTo _ _ _ (Nat.zero_le _)

theorem parseWalk_congr {dp dp' : DsrPkt} (h : dp'.dh = dp.dh) : parseWalk dp' = parseWalk dp := by
  unfold parseWalk DsrPkt.byteAt DsrPkt.optsLen
  rw [h]

theorem dsrPktAlloc_recorded (mem : ℕ → UInt8) {skb : Skb} (h : skb.iph.protocol = ipprotoDsr) :
    Recorded (parseWalk (dsrPktAlloc mem skb)) (dsrPktAlloc mem skb) := by
  obtain ⟨dp₀, hdh, hgen, hr, hso, hrq, har, hrr, hre, hac⟩ := dsrPktAlloc_parse mem h
  have hw := dsrOptParse_recorded hr
  have hstrip := (dsrOptParse_spec dp₀).2
  have hg : (dsrPktAlloc mem skb).gen = (dsrOptParse dp₀).gen := by
    rw [strip_gen hstrip, hgen, (dsrPktAlloc_dsr mem h).gen]
  have hptr : (fun c : Cursor => (dsrPktAlloc mem skb).ptr c.off) =
      fun c : Cursor => (dsrOptParse dp₀).ptr c.off := by
    funext c
    rw [DsrPkt.ptr, DsrPkt.ptr, hg]
  have hbyte : (dsrPktAlloc mem skb).byteAt = (dsrOptParse dp₀).byteAt := by
    funext off
    rw [strip_byteAt hstrip, DsrPkt.byteAt, DsrPkt.byteAt, hdh]
  rw [parseWalk_congr hdh.symm]
  refine ⟨?_, ?_, ?_, ?_, ?_, ?_⟩ <;> rw [hbyte, hptr]
  · exact hso.trans hw.srt
  · exact har.trans hw.ackReq
  · exact hrq.trans hw.rreq
  · exact hrr.trans hw.rrep
  · exact hre.trans hw.rerr
  · exact hac.trans hw.ack

end DsrUu
