import DsrUu.Node.Arrival
import DsrUu.Node.RreqForward
import DsrUu.Pkt.Encode

namespace DsrUu

open Bytes Effect

def srtOptFlagBytes (flags salvage : ℕ) (srt : DsrSrt) : List UInt8 :=
  UInt8.ofNat OptType.srt.code :: UInt8.ofNat (srt.laddrs + 2) ::
    srtWord (flags % 2) (flags / 2 % 2) 0 salvage srt.n ++ srtAddrBytes srt

def dsrSrtOptAddFlags (dp : DsrPkt) (off len flags salvage : ℕ) (srt : DsrSrt) : Option DsrPkt :=
  if len < dsrSrtOptLen srt then none else some (dp.write off (srtOptFlagBytes flags salvage srt))

theorem dsrSrtOptAdd_eq (dp : DsrPkt) (off len salvage : ℕ) (srt : DsrSrt) :
    dsrSrtOptAdd dp off len salvage srt = dsrSrtOptAddFlags dp off len 0 salvage srt := rfl

def srtOptF (dp : DsrPkt) (p : OptPtr) : ℕ := srtOptWord dp p % 2

def srtOptL (dp : DsrPkt) (p : OptPtr) : ℕ := srtOptWord dp p / 2 % 2

structure DecodedRoute (srt : DsrSrt) (src dst : InAddr) (got : DsrSrt) : Prop where
  src_eq : got.src = src
  dst_eq : got.dst = dst
  laddrs : got.laddrs = 4 * srt.n
  addrs : got.addrs = srt.addrs

structure SrtOptFields (flags salvage : ℕ) (srt : DsrSrt) (dp : DsrPkt) (p : OptPtr) : Prop where
  sleft : srtOptSleft dp p = srt.n
  salv : srtOptSalv dp p = salvage
  first : srtOptF dp p = flags % 2
  last : srtOptL dp p = flags / 2 % 2

structure SrtRoundTrip (mem mem' : ℕ → UInt8) (flags salvage : ℕ) (srt : DsrSrt) (dp : DsrPkt)
    (p : OptPtr) : Prop where
  recv : DecodedRoute srt dp.src dp.dst (srtOptSrt mem dp p)
  salvaged : DecodedRoute srt dp.src dp.dst (oldSrt mem' dp p)
  fields : SrtOptFields flags salvage srt dp p
  agree : (srtOptSrt mem dp p).laddrs = (oldSrt mem' dp p).laddrs ∧
    (srtOptSrt mem dp p).addrs = (oldSrt mem' dp p).addrs

structure SrtDecoded (mem mem' : ℕ → UInt8) (flags salvage : ℕ) (srt : DsrSrt) (dp : DsrPkt)
    (p : OptPtr) : Prop where
  recv : srtOptSrt mem dp p =
    { src := dp.src, dst := dp.dst, flags := srtFlags mem, laddrs := 4 * srt.n + 2, addrs := srt.addrs }
  recv_path : (srtOptSrt mem dp p).path = dp.src :: (srt.addrs ++ [dp.dst])
  salvaged : DecodedRoute srt dp.src dp.dst (oldSrt mem' dp p)
  fields : SrtOptFields flags salvage srt dp p

theorem SrtDecoded.not_roundTrip {mem mem' : ℕ → UInt8} {flags salvage : ℕ} {srt : DsrSrt}
    {dp : DsrPkt} {p : OptPtr} (h : SrtDecoded mem mem' flags salvage srt dp p) :
    ¬ SrtRoundTrip mem mem' flags salvage srt dp p := by
  intro hr
  have hl := hr.recv.laddrs
  rw [h.recv] at hl
  exact absurd hl (by dsimp only; omega)

section Codec

variable {dp : DsrPkt} {b : OptBuf} {off : ℕ} {srt : DsrSrt}

theorem optAt_write (hb : dp.dh = some b) {xs : List UInt8} (hr : off + xs.length ≤ b.raw.length) :
    OptAt (dp.write off xs) ((dp.write off xs).ptr off) (b.raw.take off) xs
      (b.raw.drop (off + xs.length)) := by
  refine ⟨⟨{ b with raw := writeAt b.raw off xs }, ?_, ?_⟩, rfl, ?_⟩
  · rw [write_dh hb]
  · rw [← List.append_assoc]
    exact writeAt_eq_append hr
  · rw [List.length_take, Nat.min_eq_left (by omega)]
    rfl

theorem srtOptFlagBytes_raw (h : srt.laddrs = 4 * srt.addrs.length) (flags salvage : ℕ) :
    srtOptFlagBytes flags salvage srt =
      srtOptRaw (UInt8.ofNat (srtWordNat (flags % 2) (flags / 2 % 2) 0 salvage srt.n))
        (UInt8.ofNat (srtWordNat (flags % 2) (flags / 2 % 2) 0 salvage srt.n / 256)) srt.addrs := by
  rw [srtOptFlagBytes, srtAddrBytes_of_wf h, h]
  rfl

theorem OptAt.srtOptSrt_raw {p : OptPtr} {pre post : List UInt8} {w0 w1 : UInt8} {as : List InAddr}
    (h : OptAt dp p pre (srtOptRaw w0 w1 as) post) (has : as.length ≤ 63) (mem : ℕ → UInt8) :
    srtOptSrt mem dp p = routeSrt mem dp as := by
  have hl := h.optLength_srt has
  obtain ⟨bs, hbs, hf⟩ : ∃ bs, bs.length = 2 ∧
      dp.fieldsAt p 4 (4 * as.length + 2) = encodeAddrs as ++ bs := by
    obtain ⟨b, hb, -⟩ := h.dh
    have ha := h.srtOptAddrs
    rw [fieldsAt_live h.live, bytesAt_dh hb] at ha ⊢
    rw [readAt_add, ha]
    exact ⟨_, length_readAt _ _ _, rfl⟩
  have hlen : (encodeAddrs as ++ bs).length = 4 * as.length + 2 := by
    rw [List.length_append, length_encodeAddrs, hbs]
  rw [srtOptSrt, hl, dsrSrtNew, hf, ← hlen, List.take_length, decodeAddrs_append as bs (by omega), hlen]
  rfl

theorem dsrSrtOptRecv_srt {p : OptPtr} {s s' : DsrNode} {r : DsrPkt × List DsrPktAction}
    (h : dsrSrtOptRecv dp p s = .ok r s') : r.1.srt = some (srtOptSrt s.kmem dp p) := by
  obtain ⟨me, s₁, hme, h⟩ := bind_ok h
  cases hme
  obtain ⟨mem, s₁, hmem, h⟩ := bind_ok h
  cases hmem
  have hset : ∀ (dp₁ : DsrPkt) q k, (srtOptSetSleft dp₁ q k).srt = dp₁.srt := by
    intro dp₁ q k
    rw [srtOptSetSleft, writeField_dh]
  refine Returns.bind (R := fun r : DsrPkt × List DsrPktAction => r.1.srt = some (srtOptSrt s.kmem dp p))
    (fun _ => ?_) _ _ _ h
  refine Returns.bind fun _ => Returns.bind fun ok => ?_
  refine Returns.ite (fun _ => Returns.pure rfl) fun _ => Returns.ite (fun _ => Returns.pure rfl) fun _ => ?_
  exact Returns.ite (fun _ => Returns.pure rfl) fun _ => Returns.pure (hset _ _ _)

theorem srtOptFlags_decoded (hb : dp.dh = some b) (hwf : srt.laddrs = 4 * srt.addrs.length)
    (hn : srt.n ≤ 63) {salvage : ℕ} (hsalv : salvage ≤ 15) (flags : ℕ)
    (hroom : off + dsrSrtOptLen srt ≤ b.raw.length) (mem mem' : ℕ → UInt8) :
    SrtDecoded mem mem' flags salvage srt (dp.write off (srtOptFlagBytes flags salvage srt))
      ((dp.write off (srtOptFlagBytes flags salvage srt)).ptr off) := by
  have hnl := n_of_laddrs hwf
  have has : srt.addrs.length ≤ 63 := hnl ▸ hn
  have hraw := srtOptFlagBytes_raw hwf flags salvage
  have hlen : off + (srtOptFlagBytes flags salvage srt).length ≤ b.raw.length := by
    rw [hraw, length_srtOptRaw]
    simp only [dsrSrtOptLen, dsrSrtHdrLen] at hroom
    omega
  have hat := optAt_write hb hlen
  have hsrc := (write_same dp off (srtOptFlagBytes flags salvage srt)).src
  have hdst := (write_same dp off (srtOptFlagBytes flags salvage srt)).dst
  generalize hp : (dp.write off (srtOptFlagBytes flags salvage srt)).ptr off = p at hat ⊢
  generalize dp.write off (srtOptFlagBytes flags salvage srt) = dp' at hat hsrc hdst ⊢
  rw [hraw] at hat
  have hword := hat.srtOptWord_raw
  rw [srtWord_value] at hword
  have hrecv : srtOptSrt mem dp' p = { src := dp'.src, dst := dp'.dst, flags := srtFlags mem
                                       laddrs := 4 * srt.n + 2, addrs := srt.addrs } := by
    rw [hat.srtOptSrt_raw has, routeSrt, hnl]
  have hold := hat.oldSrt has mem'
  refine ⟨hrecv, ?_, ?_, ?_⟩
  · rw [hat.srtOptSrt_raw has, DsrSrt.path, routeSrt_n]
    simp only [routeSrt, List.take_length]
  · rw [hold]
    exact ⟨rfl, rfl, by rw [hnl], rfl⟩
  · simp only [srtWordNat] at hword
    refine ⟨?_, ?_, ?_, ?_⟩
    · rw [srtOptSleft, hword]
      omega
    · rw [srtOptSalv, hword]
      omega
    · rw [srtOptF, hword]
      omega
    · rw [srtOptL, hword]
      omega

theorem dsrSrtOptAddFlags_eq {len : ℕ} (h : dsrSrtOptLen srt ≤ len) (flags salvage : ℕ) :
    dsrSrtOptAddFlags dp off len flags salvage srt =
      some (dp.write off (srtOptFlagBytes flags salvage srt)) := by
  rw [dsrSrtOptAddFlags, if_neg (Nat.not_lt.mpr h)]

theorem srt_opt_decoded (hb : dp.dh = some b) (hwf : srt.laddrs = 4 * srt.addrs.length)
    (hn : srt.n ≤ 63) {salvage : ℕ} (hsalv : salvage ≤ 15) (flags : ℕ) {len : ℕ}
    (hlen : dsrSrtOptLen srt ≤ len) (hroom : off + dsrSrtOptLen srt ≤ b.raw.length)
    (mem mem' : ℕ → UInt8) : ∃ dp' p, dsrSrtOptAddFlags dp off len flags salvage srt = some dp' ∧
      p = dp'.ptr off ∧ ¬ SrtRoundTrip mem mem' flags salvage srt dp' p ∧
      SrtDecoded mem mem' flags salvage srt dp' p ∧
      ∀ s r s', dsrSrtOptRecv dp' p s = .ok r s' → r.1.srt = some (srtOptSrt s.kmem dp' p) := by
  have hd := srtOptFlags_decoded hb hwf hn hsalv flags hroom mem mem'
  exact ⟨_, _, dsrSrtOptAddFlags_eq hlen flags salvage, rfl, hd.not_roundTrip, hd,
    fun _ _ _ => dsrSrtOptRecv_srt⟩

end Codec

def oneHopSrt : DsrSrt :=
  { src := ⟨10, 0, 0, 1⟩, dst := ⟨10, 0, 0, 3⟩, flags := 0, laddrs := 4, addrs := [⟨10, 0, 0, 2⟩] }

def oneHopPkt : DsrPkt :=
  dsrPktAllocOpts (fun _ => 0) { src := ⟨10, 0, 0, 1⟩, dst := ⟨10, 0, 0, 3⟩ } 12

theorem oneHopPkt_room : 4 + dsrSrtOptLen oneHopSrt ≤ (fill (fun _ => 0) (12 + defaultTailroom)).length := by
  rw [length_fill]
  decide

theorem srt_opt_decoded_one_hop : ∃ dp' p, dsrSrtOptAddFlags oneHopPkt 4 8 0 5 oneHopSrt = some dp' ∧
    p = dp'.ptr 4 ∧ ¬ SrtRoundTrip (fun _ => 0) (fun _ => 0) 0 5 oneHopSrt dp' p ∧
    SrtDecoded (fun _ => 0) (fun _ => 0) 0 5 oneHopSrt dp' p ∧
    ∀ s r s', dsrSrtOptRecv dp' p s = .ok r s' → r.1.srt = some (srtOptSrt s.kmem dp' p) :=
  srt_opt_decoded rfl rfl (by decide) (by decide) 0 (by decide) oneHopPkt_room _ _

theorem srt_opt_not_round_trip : ∃ dp' p, dsrSrtOptAddFlags oneHopPkt 4 8 0 5 oneHopSrt = some dp' ∧
    p = dp'.ptr 4 ∧ (srtOptSrt (fun _ => 0) dp' p).laddrs = 6 ∧ (oldSrt (fun _ => 0) dp' p).laddrs = 4 ∧
    ¬ SrtRoundTrip (fun _ => 0) (fun _ => 0) 0 5 oneHopSrt dp' p := by
  have hb : oneHopPkt.dh = some { raw := fill (fun _ => 0) (12 + defaultTailroom), tail := 12 } := rfl
  have hd := srtOptFlags_decoded hb (show oneHopSrt.laddrs = 4 * oneHopSrt.addrs.length from rfl)
    (by decide) (show 5 ≤ 15 by decide) 0 oneHopPkt_room (fun _ => 0) (fun _ => 0)
  exact ⟨_, _, dsrSrtOptAddFlags_eq (by decide) 0 5, rfl, congrArg DsrSrt.laddrs hd.recv,
    hd.salvaged.laddrs, hd.not_roundTrip⟩

def SrtOptExact (dp : DsrPkt) (off len salvage : ℕ) (srt : DsrSrt) : Prop :=
  ∀ dp', dsrSrtOptAdd dp off len salvage srt = some dp' →
    dp'.optLength (dp'.ptr off) = 2 + srt.laddrs ∧ srtOptSleft dp' (dp'.ptr off) = srt.n

def RrepOptExact (dp : DsrPkt) (off len : ℕ) (srt : DsrSrt) : Prop :=
  ∀ dp', dsrRrepOptAdd dp off len srt = some dp' →
    2 + dp'.optLength (dp'.ptr off) = dsrRrepOptLen srt

def RrepFieldsCounted (dp : DsrPkt) (off len : ℕ) (srt : DsrSrt) : Prop :=
  ∀ dp', dsrRrepOptAdd dp off len srt = some dp' →
    dp'.optLength (dp'.ptr off) = 1 + srt.laddrs + 4

def RreqOptExact (dp : DsrPkt) (p : OptPtr) (r : DsrPkt × List DsrPktAction) : Prop :=
  .forwardRreq ∈ r.2 → r.1.optLength p = dp.optLength p + 4

section Lengths

variable {dp : DsrPkt} {b : OptBuf} {off len : ℕ}

theorem OptEnc.add_optLength {e : OptEnc} (hb : dp.dh = some b) (hr : b.tail ≤ b.raw.length)
    (hin : off + e.size ≤ b.tail) {dp' : DsrPkt} (h : e.add dp off len = some dp') :
    dp'.optLength (dp'.ptr off) = e.lenByte.toNat := by
  have hsize := e.size_ge
  have hhead := OptEnc.add_head h hb hr
  obtain ⟨b', hb', -⟩ := hhead.room b hb
  rw [DsrPkt.optLength, fieldAt_live (live_ptr hb' off)]
  exact congrArg UInt8.toNat (hhead.len (by rw [optsLen_dh hb]; omega))

theorem dsrSrtOptAdd_fields (hb : dp.dh = some b) (hr : b.tail ≤ b.raw.length) {srt : DsrSrt}
    (hin : off + dsrSrtOptLen srt ≤ b.tail) (hlen : dsrSrtOptLen srt ≤ len) (salvage : ℕ) :
    ∃ dp', dsrSrtOptAdd dp off len salvage srt = some dp' ∧
      dp'.optLength (dp'.ptr off) = (srt.laddrs + 2) % 256 ∧ srtOptSleft dp' (dp'.ptr off) = srt.n % 64 := by
  have hbytes : off + (srtOptBytes salvage srt).length ≤ b.raw.length := by
    rw [length_srtOptBytes]
    omega
  have hat := optAt_write hb hbytes
  have hl : (srtOptBytes salvage srt).length = 4 + srt.laddrs := length_srtOptBytes salvage srt
  have hword : srtOptWord (dp.write off (srtOptBytes salvage srt))
      ((dp.write off (srtOptBytes salvage srt)).ptr off) = srtWordNat 0 0 0 salvage srt.n := by
    rw [srtOptWord, hat.fieldAt (by omega), hat.fieldAt (by omega)]
    exact srtWord_value 0 0 0 salvage srt.n
  have hadd : dsrSrtOptAdd dp off len salvage srt = some (dp.write off (srtOptBytes salvage srt)) :=
    (dsrSrtOptAdd_eq dp off len salvage srt).trans (dsrSrtOptAddFlags_eq hlen 0 salvage)
  have hbyte := OptEnc.add_optLength (e := .srt salvage srt) hb hr hin hadd
  refine ⟨_, hadd, hbyte, ?_⟩
  rw [srtOptSleft, hword, srtWordNat]
  omega

theorem dsrRrepOptAdd_fields (hb : dp.dh = some b) (hr : b.tail ≤ b.raw.length) {srt : DsrSrt}
    (hin : off + dsrRrepOptLen srt ≤ b.tail) (hlen : dsrRrepOptLen srt ≤ len) :
    ∃ dp', dsrRrepOptAdd dp off len srt = some dp' ∧
      dp'.optLength (dp'.ptr off) = (srt.laddrs + 5) % 256 := by
  obtain ⟨dp', hadd⟩ : ∃ dp', dsrRrepOptAdd dp off len srt = some dp' := by
    rw [dsrRrepOptAdd, if_neg (Nat.not_lt.mpr hlen)]
    exact ⟨_, rfl⟩
  exact ⟨dp', hadd, OptEnc.add_optLength (e := .rrep srt) hb hr hin hadd⟩

theorem srtOptExact_iff (hb : dp.dh = some b) (hr : b.tail ≤ b.raw.length) (salvage : ℕ) {srt : DsrSrt}
    (hin : off + dsrSrtOptLen srt ≤ b.tail) :
    SrtOptExact dp off len salvage srt ↔ len < dsrSrtOptLen srt ∨ srt.laddrs ≤ 253 := by
  rw [SrtOptExact]
  by_cases hlt : len < dsrSrtOptLen srt
  · refine iff_of_true (fun dp' h => ?_) (Or.inl hlt)
    rw [dsrSrtOptAdd, if_pos hlt] at h
    cases h
  · obtain ⟨dp₁, hadd, hbyte, hsleft⟩ := dsrSrtOptAdd_fields hb hr hin (Nat.le_of_not_lt hlt) salvage
    constructor
    · intro hex
      have he := (hex _ hadd).1
      rw [hbyte] at he
      exact Or.inr (by omega)
    · rintro hor dp' h
      have hle := hor.resolve_left hlt
      have hn : srt.n = srt.laddrs / 4 := rfl
      cases hadd.symm.trans h
      rw [hbyte, hsleft]
      omega

theorem rrepOptExact_iff (hb : dp.dh = some b) (hr : b.tail ≤ b.raw.length) {srt : DsrSrt}
    (hin : off + dsrRrepOptLen srt ≤ b.tail) :
    RrepOptExact dp off len srt ↔ len < dsrRrepOptLen srt := by
  refine ⟨fun hex => ?_, fun hlt dp' h => ?_⟩
  · by_contra hlt
    obtain ⟨dp', hadd, hbyte⟩ := dsrRrepOptAdd_fields hb hr hin (Nat.le_of_not_lt hlt)
    have he := hex _ hadd
    have hle : (srt.laddrs + 5) % 256 ≤ srt.laddrs + 5 := Nat.mod_le _ _
    rw [hbyte, dsrRrepOptLen, dsrRrepHdrLen] at he
    omega
  · rw [dsrRrepOptAdd, if_pos hlt] at h
    cases h

theorem rrepFieldsCounted_iff (hb : dp.dh = some b) (hr : b.tail ≤ b.raw.length) {srt : DsrSrt}
    (hin : off + dsrRrepOptLen srt ≤ b.tail) :
    RrepFieldsCounted dp off len srt ↔ len < dsrRrepOptLen srt ∨ srt.laddrs ≤ 250 := by
  rw [RrepFieldsCounted]
  by_cases hlt : len < dsrRrepOptLen srt
  · refine iff_of_true (fun dp' h => ?_) (Or.inl hlt)
    rw [dsrRrepOptAdd, if_pos hlt] at h
    cases h
  · obtain ⟨dp₁, hadd, hbyte⟩ := dsrRrepOptAdd_fields hb hr hin (Nat.le_of_not_lt hlt)
    constructor
    · intro hex
      have he := hex _ hadd
      rw [hbyte] at he
      exact Or.inr (by omega)
    · rintro hor dp' h
      have hle := hor.resolve_left hlt
      cases hadd.symm.trans h
      rw [hbyte]
      omega

theorem rreqOptExact_iff {p : OptPtr} {s s' : DsrNode} {r : DsrPkt × List DsrPktAction}
    (h : dsrRreqOptRecv dp p s = .ok r s') (hp : dp.live p = true) (hroom : 4 < dp.tailroom)
    (hoff : dsrOptHdrLen ≤ p.off) :
    RreqOptExact dp p r ↔ .forwardRreq ∉ r.2 ∨ dp.optLength p ≤ 251 := by
  rw [RreqOptExact]
  by_cases hf : .forwardRreq ∈ r.2
  · obtain ⟨-, -, hlong, mem, dp₁, hcore, -, hr⟩ := dsrRreqOptRecv_forwarded h hf
    have hdh : dp₁.dh = dp.dh := core_dh hcore
    have hgen : dp₁.gen = dp.gen := by
      have he := congrArg DsrPkt.gen hcore
      exact he
    have hlive₁ : dp₁.live p = true := by
      rw [DsrPkt.live, hdh, hgen]
      exact hp
    have hroom₁ : dp₁.tailroom = dp.tailroom := by rw [DsrPkt.tailroom, DsrPkt.tailroom, hdh]
    have hlen₁ : dp₁.optLength p = dp.optLength p := optLength_congr_dh hdh hgen p
    have hafter := (rreqForward_optLength mem s.ifaddr hlive₁ (hroom₁ ▸ hroom) hoff (hlen₁ ▸ hlong)).2
    have hbyte : dp.optLength p < 256 := UInt8.toNat_lt _
    rw [hr, hafter, hlen₁]
    constructor
    · intro he
      have := he hf
      exact Or.inr (by omega)
    · rintro hor -
      have := hor.resolve_left (not_not_intro hf)
      omega
  · exact iff_of_true (fun h => absurd h hf) (Or.inl hf)

theorem option_lengths_iff {dp : DsrPkt} {b : OptBuf} (hb : dp.dh = some b) (hr : b.tail ≤ b.raw.length) :
    (∀ (off len salvage : ℕ) (srt : DsrSrt), off + dsrSrtOptLen srt ≤ b.tail →
      (SrtOptExact dp off len salvage srt ↔ len < dsrSrtOptLen srt ∨ srt.laddrs ≤ 253)) ∧
    (∀ (off len : ℕ) (srt : DsrSrt), off + dsrRrepOptLen srt ≤ b.tail →
      (RrepOptExact dp off len srt ↔ len < dsrRrepOptLen srt) ∧
        (RrepFieldsCounted dp off len srt ↔ len < dsrRrepOptLen srt ∨ srt.laddrs ≤ 250)) ∧
    ∀ (p : OptPtr) (s s' : DsrNode) (r : DsrPkt × List DsrPktAction),
      dsrRreqOptRecv dp p s = .ok r s' → dp.live p = true → 4 < dp.tailroom → dsrOptHdrLen ≤ p.off →
      (RreqOptExact dp p r ↔ .forwardRreq ∉ r.2 ∨ dp.optLength p ≤ 251) :=
  ⟨fun _ _ salvage _ hin => srtOptExact_iff hb hr salvage hin,
    fun _ _ _ hin => ⟨rrepOptExact_iff hb hr hin, rrepFieldsCounted_iff hb hr hin⟩,
    fun _ _ _ _ h hp hroom hoff => rreqOptExact_iff h hp hroom hoff⟩

end Lengths

def hopsSrt (net : UInt8) (n : ℕ) : DsrSrt :=
  { src := ⟨10, net, 0, 0⟩, dst := ⟨10, net, 0, UInt8.ofNat (n + 1)⟩, flags := 0, laddrs := 4 * n
    addrs := (List.range n).map fun i => ⟨10, net, 0, UInt8.ofNat (i + 1)⟩ }

def longSrt : DsrSrt := dsrSrtConcatenate 0 (hopsSrt 1 32) (hopsSrt 2 31)

def longPkt : DsrPkt := dsrPktAllocOpts (fun _ => 0) {} (dsrOptHdrLen + dsrRrepOptLen longSrt)

theorem longPkt_dh : longPkt.dh =
    some { raw := fill (fun _ => 0) (268 + defaultTailroom), tail := 268 } := rfl

theorem longPkt_room : 268 ≤ (fill (fun _ => 0) (268 + defaultTailroom)).length := by
  rw [length_fill]
  decide

theorem option_lengths_one_hop : SrtOptExact oneHopPkt 4 8 0 oneHopSrt ∧
    RrepOptExact oneHopPkt 0 11 oneHopSrt ∧ RrepFieldsCounted oneHopPkt 0 12 oneHopSrt ∧
    ∃ r s', dsrRreqOptRecv (rreqPktOf []) ⟨1, 4⟩ rreqNode = .ok r s' ∧ .forwardRreq ∈ r.2 ∧
      RreqOptExact (rreqPktOf []) ⟨1, 4⟩ r := by
  have hroom : 12 ≤ (fill (fun _ => 0) (12 + defaultTailroom)).length := by
    rw [length_fill]
    decide
  have hone := ((option_lengths_iff (show oneHopPkt.dh = some _ from rfl) hroom).1 4 8 0 oneHopSrt
    (by decide)).mpr (Or.inr (by decide))
  obtain ⟨b, hb⟩ : ∃ b, (rreqPktOf []).dh = some b := Option.isSome_iff_exists.mp (by decide +kernel)
  have htail : 4 < (rreqPktOf []).tailroom := by decide +kernel
  have hfull : b.tail ≤ b.raw.length := by
    have ht := htail
    rw [DsrPkt.tailroom, hb] at ht
    exact Nat.le_of_lt (Nat.lt_of_sub_pos (Nat.lt_of_le_of_lt (Nat.zero_le 4) ht))
  have hrun : (okVal (dsrRreqOptRecv (rreqPktOf []) ⟨1, 4⟩ rreqNode)).map Prod.snd =
      some [.forwardRreq] := by decide +kernel
  obtain ⟨r, hok, hact⟩ := Option.map_eq_some_iff.mp hrun
  obtain ⟨s', hrecv⟩ := okVal_eq_some hok
  have hrep := (option_lengths_iff (show oneHopPkt.dh = some _ from rfl) hroom).2.1 0
  have hshort := (hrep 11 oneHopSrt (by decide)).1.mpr (by decide)
  have hcount := (hrep 12 oneHopSrt (by decide)).2.mpr (Or.inr (by decide))
  refine ⟨hone, hshort, hcount, r, s', hrecv, by rw [hact]; exact List.mem_singleton_self _, ?_⟩
  exact ((option_lengths_iff hb hfull).2.2 ⟨1, 4⟩ rreqNode s' r hrecv (by decide +kernel) htail
    (by decide)).mpr (Or.inr (by decide +kernel))

theorem option_length_wraps : ∃ dp', dsrSrtOptAdd longPkt 4 260 0 longSrt = some dp' ∧ longSrt.n = 64 ∧
    dp'.optLength (dp'.ptr 4) = 2 ∧ srtOptSleft dp' (dp'.ptr 4) = 0 ∧
    ¬ SrtOptExact longPkt 4 260 0 longSrt ∧ ¬ RrepFieldsCounted longPkt 4 264 longSrt ∧
    ¬ RrepOptExact longPkt 4 264 longSrt := by
  have hn : longSrt.laddrs = 256 := rfl
  have hin : 4 + dsrSrtOptLen longSrt ≤ 268 := by decide
  obtain ⟨dp', hadd, hbyte, hsleft⟩ := dsrSrtOptAdd_fields longPkt_dh longPkt_room hin
    (show dsrSrtOptLen longSrt ≤ 260 by decide) 0
  refine ⟨dp', hadd, rfl, hbyte, hsleft, fun h => ?_, fun h => ?_, fun h => ?_⟩
  · exact absurd ((srtOptExact_iff longPkt_dh longPkt_room 0 hin).mp h) (by decide)
  · exact absurd ((rrepFieldsCounted_iff longPkt_dh longPkt_room (by decide)).mp h) (by decide)
  · exact absurd ((rrepOptExact_iff longPkt_dh longPkt_room (by decide)).mp h) (by decide)

end DsrUu
