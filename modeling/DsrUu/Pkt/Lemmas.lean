import DsrUu.Pkt.Model

namespace DsrUu

open Bytes

theorem length_bytes (a : InAddr) : a.bytes.length = 4 := rfl

theorem length_encodeAddrs (as : List InAddr) : (encodeAddrs as).length = 4 * as.length := by
  induction as with
  | nil => rfl
  | cons a as ih =>
    simp only [encodeAddrs, List.flatMap_cons, List.length_append, length_bytes,
      List.length_cons] at ih ⊢
    omega

theorem decodeAddrs_encodeAddrs (as : List InAddr) : decodeAddrs (encodeAddrs as) = as := by
  induction as with
  | nil => rfl
  | cons a as ih =>
    rw [encodeAddrs] at ih
    simp only [encodeAddrs, List.flatMap_cons, InAddr.bytes, List.cons_append, List.nil_append,
      decodeAddrs, ih]

theorem decodeAddrs_append (as : List InAddr) (bs : List UInt8) (h : bs.length < 4) :
    decodeAddrs (encodeAddrs as ++ bs) = as := by
  induction as with
  | nil =>
    match bs, h with
    | [], _ => rfl
    | [_], _ => rfl
    | [_, _], _ => rfl
    | [_, _, _], _ => rfl
  | cons a as ih =>
    rw [encodeAddrs] at ih
    simp only [encodeAddrs, List.flatMap_cons, InAddr.bytes, List.cons_append, List.nil_append,
      decodeAddrs, ih]

theorem length_decodeAddrs (bs : List UInt8) : (decodeAddrs bs).length = bs.length / 4 := by
  fun_induction decodeAddrs bs with
  | case1 b0 b1 b2 b3 rest ih =>
    simp only [List.length_cons, ih]
    omega
  | case2 bs h =>
    rcases bs with _ | ⟨b0, _ | ⟨b1, _ | ⟨b2, _ | ⟨b3, rest⟩⟩⟩⟩
    · simp
    · simp
    · simp
    · simp
    · exact absurd rfl (h b0 b1 b2 b3 rest)

theorem getElem?_decodeAddrs {bs : List UInt8} {i : ℕ} (h : i < (decodeAddrs bs).length) :
    4 * i + 4 ≤ bs.length ∧ (decodeAddrs bs)[i]? = some ⟨bs.getD (4 * i) 0, bs.getD (4 * i + 1) 0,
      bs.getD (4 * i + 2) 0, bs.getD (4 * i + 3) 0⟩ := by
  induction bs using decodeAddrs.induct generalizing i with
  | case1 b0 b1 b2 b3 rest ih =>
    cases i with
    | zero =>
      simp only [List.length_cons]
      exact ⟨by omega, rfl⟩
    | succ i =>
      rw [decodeAddrs, List.length_cons] at h
      obtain ⟨hlen, hget⟩ := ih (Nat.lt_of_succ_lt_succ h)
      simp only [List.length_cons]
      refine ⟨by omega, ?_⟩
      rw [decodeAddrs, List.getElem?_cons_succ, hget]
      rfl
  | case2 bs hbs =>
    have hd : decodeAddrs bs = [] := by
      unfold decodeAddrs
      split
      · next b0 b1 b2 b3 rest => exact absurd rfl (hbs b0 b1 b2 b3 rest)
      · rfl
    rw [hd] at h
    exact absurd h (Nat.not_lt_zero _)

theorem encodeAddrs_append (as bs : List InAddr) :
    encodeAddrs (as ++ bs) = encodeAddrs as ++ encodeAddrs bs := by
  simp [encodeAddrs]

theorem srtAddrBytes_of_wf {srt : DsrSrt} (h : srt.laddrs = 4 * srt.addrs.length) :
    srtAddrBytes srt = encodeAddrs srt.addrs := by
  have hlen := length_encodeAddrs srt.addrs
  rw [srtAddrBytes, h, ← hlen]
  have := readAt_append_left (encodeAddrs srt.addrs) []
  rwa [List.append_nil] at this

theorem length_srtAddrBytes (srt : DsrSrt) : (srtAddrBytes srt).length = srt.laddrs := by
  simp [srtAddrBytes]

theorem length_srtOptBytes (salv : ℕ) (srt : DsrSrt) :
    (srtOptBytes salv srt).length = dsrSrtOptLen srt := by
  simp only [srtOptBytes, srtWord, List.cons_append, List.nil_append, List.length_cons,
    length_srtAddrBytes, dsrSrtOptLen, dsrSrtHdrLen]
  omega

theorem length_optHdrBytes (len prot : ℕ) : (optHdrBytes len prot).length = 4 := rfl

@[simp]
theorem length_fieldsAt (dp : DsrPkt) (p : OptPtr) (i len : ℕ) : (dp.fieldsAt p i len).length = len := by
  unfold DsrPkt.fieldsAt
  split
  · unfold DsrPkt.bytesAt
    split <;> exact length_readAt _ _ _
  · exact length_readAt _ _ _

theorem writeAt_zero {t xs : List UInt8} (h : xs.length ≤ t.length) :
    writeAt t 0 xs = xs ++ t.drop xs.length := by
  have := writeAt_append [] h
  simpa using this

theorem writeAt_two {t hdr opt : List UInt8} (h : hdr.length + opt.length ≤ t.length) :
    writeAt (writeAt t 0 hdr) hdr.length opt = hdr ++ (opt ++ t.drop (hdr.length + opt.length)) := by
  rw [writeAt_zero (by omega), writeAt_append _ (by rw [List.length_drop]; omega), List.drop_drop,
    List.append_assoc]

theorem writeAt_full {xs ys : List UInt8} (h : ys.length = xs.length) : writeAt xs 0 ys = ys := by
  rw [writeAt_zero (Nat.le_of_eq h), h, List.drop_length, List.append_nil]

section Buffer

variable {dp : DsrPkt} {b : OptBuf}

theorem write_dh (h : dp.dh = some b) (off : ℕ) (xs : List UInt8) :
    dp.write off xs = { dp with dh := some { b with raw := writeAt b.raw off xs } } := by
  rw [DsrPkt.write, h]

theorem byteAt_dh (h : dp.dh = some b) (off : ℕ) : dp.byteAt off = b.raw.getD off 0 := by
  rw [DsrPkt.byteAt, h]

theorem bytesAt_dh (h : dp.dh = some b) (off len : ℕ) :
    dp.bytesAt off len = readAt b.raw off len := by
  rw [DsrPkt.bytesAt, h]

theorem optsLen_dh (h : dp.dh = some b) : dp.optsLen = b.tail := by
  rw [DsrPkt.optsLen, h]

theorem live_ptr (h : dp.dh = some b) (off : ℕ) : dp.live (dp.ptr off) = true := by
  simp [DsrPkt.live, DsrPkt.ptr, h]

theorem fieldAt_live {p : OptPtr} (h : dp.live p = true) (i : ℕ) :
    dp.fieldAt p i = dp.byteAt (p.off + i) := by
  rw [DsrPkt.fieldAt, if_pos h]

theorem fieldsAt_live {p : OptPtr} (h : dp.live p = true) (i len : ℕ) :
    dp.fieldsAt p i len = dp.bytesAt (p.off + i) len := by
  rw [DsrPkt.fieldsAt, if_pos h]

theorem writeField_live {p : OptPtr} (h : dp.live p = true) (i : ℕ) (xs : List UInt8) :
    dp.writeField p i xs = dp.write (p.off + i) xs := by
  rw [DsrPkt.writeField, if_pos h]

theorem live_iff (h : dp.dh = some b) (p : OptPtr) : dp.live p = true ↔ p.gen = dp.gen := by
  simp [DsrPkt.live, h]

end Buffer

section Bytewise

variable {dp : DsrPkt} {off : ℕ}

theorem byteAt_write_lt (dp : DsrPkt) (xs : List UInt8) {i : ℕ} (h : i < off) :
    (dp.write off xs).byteAt i = dp.byteAt i := by
  unfold DsrPkt.write
  split
  · rfl
  · next b hb =>
    rw [byteAt_dh hb]
    exact getD_writeAt_before h 0

theorem byteAt_write_ge (dp : DsrPkt) {xs : List UInt8} {i : ℕ} (h : off + xs.length ≤ i) :
    (dp.write off xs).byteAt i = dp.byteAt i := by
  unfold DsrPkt.write
  split
  · rfl
  · next b hb =>
    rw [byteAt_dh hb]
    exact getD_writeAt_after h 0

theorem byteAt_write_head {b : OptBuf} (hb : dp.dh = some b) {xs : List UInt8} {i : ℕ}
    (hi : i < xs.length) (hlt : off + i < b.raw.length) :
    (dp.write off xs).byteAt (off + i) = xs.getD i 0 := by
  rw [write_dh hb]
  change (writeAt b.raw off xs).getD (off + i) 0 = _
  rw [List.getD_eq_getElem?_getD, getElem?_writeAt, if_pos ⟨by omega, by omega, hlt⟩,
    Nat.add_sub_cancel_left, ← List.getD_eq_getElem?_getD]

end Bytewise

def srtOptRaw (w0 w1 : UInt8) (as : List InAddr) : List UInt8 :=
  UInt8.ofNat OptType.srt.code :: UInt8.ofNat (4 * as.length + 2) :: w0 :: w1 :: encodeAddrs as

def srtOptImage (salv sleft : ℕ) (as : List InAddr) : List UInt8 :=
  UInt8.ofNat OptType.srt.code :: UInt8.ofNat (4 * as.length + 2) ::
    srtWord 0 0 0 salv sleft ++ encodeAddrs as

theorem length_srtOptImage (salv sleft : ℕ) (as : List InAddr) :
    (srtOptImage salv sleft as).length = 4 * as.length + 4 := by
  simp only [srtOptImage, srtWord, List.cons_append, List.nil_append, List.length_cons,
    length_encodeAddrs]

theorem srtOptBytes_of_wf {srt : DsrSrt} (h : srt.laddrs = 4 * srt.addrs.length) (salv : ℕ) :
    srtOptBytes salv srt = srtOptImage salv srt.addrs.length srt.addrs := by
  have hn : srt.n = srt.addrs.length := by
    rw [DsrSrt.n, h]
    omega
  rw [srtOptBytes, srtOptImage, srtAddrBytes_of_wf h, hn, h]

def srtWordNat (f l res salv sleft : ℕ) : ℕ :=
  f % 2 + 2 * (l % 2) + 4 * (res % 16) + 64 * (salv % 16) + 1024 * (sleft % 64)

theorem srtWord_value (f l res salv sleft : ℕ) :
    (UInt8.ofNat (srtWordNat f l res salv sleft)).toNat +
      256 * (UInt8.ofNat (srtWordNat f l res salv sleft / 256)).toNat =
      srtWordNat f l res salv sleft := by
  simp only [UInt8.toNat_ofNat', srtWordNat]
  omega

structure OptAt (dp : DsrPkt) (p : OptPtr) (pre opt post : List UInt8) : Prop where
  dh : ∃ b, dp.dh = some b ∧ b.raw = pre ++ (opt ++ post)
  gen : p.gen = dp.gen
  off : p.off = pre.length

namespace OptAt

variable {dp : DsrPkt} {p : OptPtr} {pre opt post : List UInt8}

theorem live (h : OptAt dp p pre opt post) : dp.live p = true := by
  obtain ⟨b, hb, _⟩ := h.dh
  exact (live_iff hb p).mpr h.gen

theorem fieldAt (h : OptAt dp p pre opt post) {i : ℕ} (hi : i < opt.length) :
    dp.fieldAt p i = opt.getD i 0 := by
  obtain ⟨b, hb, hr⟩ := h.dh
  rw [fieldAt_live h.live, byteAt_dh hb, hr, h.off, getD_append_right, getD_append_left hi]

theorem fieldsAt (h : OptAt dp p pre opt post) {i len : ℕ} (hi : i + len ≤ opt.length) :
    dp.fieldsAt p i len = (opt.drop i).take len := by
  obtain ⟨b, hb, hr⟩ := h.dh
  rw [fieldsAt_live h.live, bytesAt_dh hb, hr, h.off, ← readAt_eq opt i len hi]
  refine List.map_congr_left fun j hj => ?_
  rw [List.mem_range] at hj
  rw [Nat.add_assoc, getD_append_right, getD_append_left (by omega)]

theorem byteAt_pre (h : OptAt dp p pre opt post) {i : ℕ} (hi : i < pre.length) :
    dp.byteAt i = pre.getD i 0 := by
  obtain ⟨b, hb, hr⟩ := h.dh
  rw [byteAt_dh hb, hr, getD_append_left hi]

theorem writeAt_opt {i : ℕ} {xs : List UInt8} (hi : i + xs.length ≤ opt.length) :
    Bytes.writeAt (pre ++ (opt ++ post)) (pre.length + i) xs =
      pre ++ (Bytes.writeAt opt i xs ++ post) := by
  have hsplit : opt = opt.take i ++ opt.drop i := (List.take_append_drop i opt).symm
  have hlen : (pre ++ opt.take i).length = pre.length + i := by
    rw [List.length_append, List.length_take]
    omega
  have hle : xs.length ≤ (opt.drop i ++ post).length := by
    rw [List.length_append, List.length_drop]
    omega
  have hw := writeAt_append (pre ++ opt.take i) hle
  rw [hlen] at hw
  rw [show pre ++ (opt ++ post) = pre ++ opt.take i ++ (opt.drop i ++ post) by
    rw [List.append_assoc, ← List.append_assoc (opt.take i), List.take_append_drop], hw,
    writeAt_eq_append hi, List.drop_append_of_le_length (by rw [List.length_drop]; omega),
    List.drop_drop]
  simp only [List.append_assoc]

theorem writeField (h : OptAt dp p pre opt post) {i : ℕ} {xs : List UInt8}
    (hi : i + xs.length ≤ opt.length) :
    OptAt (dp.writeField p i xs) p pre (Bytes.writeAt opt i xs) post := by
  obtain ⟨b, hb, hr⟩ := h.dh
  rw [writeField_live h.live, write_dh hb]
  refine ⟨⟨_, rfl, ?_⟩, h.gen, h.off⟩
  rw [hr, h.off, writeAt_opt hi]

end OptAt

theorem srtWord_eq (salv sleft : ℕ) : srtWord 0 0 0 salv sleft =
    [UInt8.ofNat (srtWordNat 0 0 0 salv sleft), UInt8.ofNat (srtWordNat 0 0 0 salv sleft / 256)] :=
  rfl

section SrtOptRaw

variable {dp : DsrPkt} {p : OptPtr} {pre post : List UInt8} {w0 w1 : UInt8} {as : List InAddr}

theorem length_srtOptRaw (w0 w1 : UInt8) (as : List InAddr) :
    (srtOptRaw w0 w1 as).length = 4 * as.length + 4 := by
  simp only [srtOptRaw, List.length_cons, length_encodeAddrs]

theorem OptAt.optLength_srt (h : OptAt dp p pre (srtOptRaw w0 w1 as) post)
    (has : as.length ≤ 63) : dp.optLength p = 4 * as.length + 2 := by
  have hlen := length_srtOptRaw w0 w1 as
  rw [DsrPkt.optLength, h.fieldAt (by omega)]
  simp only [srtOptRaw, List.getD_cons_succ, List.getD_cons_zero, UInt8.toNat_ofNat']
  omega

theorem OptAt.srtOptWord_raw (h : OptAt dp p pre (srtOptRaw w0 w1 as) post) :
    srtOptWord dp p = w0.toNat + 256 * w1.toNat := by
  have hlen := length_srtOptRaw w0 w1 as
  rw [DsrUu.srtOptWord, h.fieldAt (by omega), h.fieldAt (by omega)]
  simp only [srtOptRaw, List.getD_cons_succ, List.getD_cons_zero]

theorem OptAt.srtOptAddrs (h : OptAt dp p pre (srtOptRaw w0 w1 as) post) :
    dp.fieldsAt p 4 (4 * as.length) = encodeAddrs as := by
  have hlen := length_srtOptRaw w0 w1 as
  rw [h.fieldsAt (by omega)]
  simp only [srtOptRaw, List.drop_succ_cons, List.drop_zero]
  rw [← length_encodeAddrs, List.take_length]

end SrtOptRaw

section SrtOpt

variable {dp : DsrPkt} {p : OptPtr} {pre post : List UInt8} {salv sleft : ℕ} {as : List InAddr}

theorem srtOptImage_raw (salv sleft : ℕ) (as : List InAddr) : srtOptImage salv sleft as =
    srtOptRaw (UInt8.ofNat (srtWordNat 0 0 0 salv sleft))
      (UInt8.ofNat (srtWordNat 0 0 0 salv sleft / 256)) as := rfl

theorem OptAt.srtOptWord (h : OptAt dp p pre (srtOptImage salv sleft as) post) :
    srtOptWord dp p = srtWordNat 0 0 0 salv sleft := by
  rw [srtOptImage_raw] at h
  rw [h.srtOptWord_raw]
  exact srtWord_value 0 0 0 salv sleft

theorem OptAt.srtOptSalv (h : OptAt dp p pre (srtOptImage salv sleft as) post) :
    srtOptSalv dp p = salv % 16 := by
  rw [DsrUu.srtOptSalv, h.srtOptWord, srtWordNat]
  omega

theorem OptAt.srtOptSleft (h : OptAt dp p pre (srtOptImage salv sleft as) post) :
    srtOptSleft dp p = sleft % 64 := by
  rw [DsrUu.srtOptSleft, h.srtOptWord, srtWordNat]
  omega

theorem OptAt.srtOptSetSleft (h : OptAt dp p pre (srtOptImage salv sleft as) post) (sleft' : ℕ) :
    OptAt (srtOptSetSleft dp p sleft') p pre (srtOptImage salv sleft' as) post := by
  have hlen := length_srtOptImage salv sleft as
  have hw : DsrUu.srtOptWord dp p % 1024 + 1024 * (sleft' % 64) = srtWordNat 0 0 0 salv sleft' := by
    rw [h.srtOptWord]
    simp only [srtWordNat]
    omega
  have hlt : 2 + [UInt8.ofNat (srtWordNat 0 0 0 salv sleft'),
      UInt8.ofNat (srtWordNat 0 0 0 salv sleft' / 256)].length ≤ (srtOptImage salv sleft as).length := by
    simp only [List.length_cons, List.length_nil]
    omega
  have hwr := h.writeField hlt
  rw [writeAt_eq_append hlt] at hwr
  simpa [DsrUu.srtOptSetSleft, hw, srtOptImage, srtWord_eq] using hwr

end SrtOpt

structure SameHdr (dp dp' : DsrPkt) : Prop where
  src : dp'.src = dp.src
  dst : dp'.dst = dp.dst
  nh : dp'.nh = dp.nh
  ipData : dp'.ipData = dp.ipData
  skb_eq : dp'.skb = dp.skb
  payload : dp'.payload = dp.payload
  payloadLen : dp'.payloadLen = dp.payloadLen
  requestAck : dp'.requestAck = dp.requestAck

namespace SameHdr

theorem refl (dp : DsrPkt) : SameHdr dp dp := ⟨rfl, rfl, rfl, rfl, rfl, rfl, rfl, rfl⟩

theorem trans {a b c : DsrPkt} (h₁ : SameHdr a b) (h₂ : SameHdr b c) : SameHdr a c :=
  ⟨h₂.src.trans h₁.src, h₂.dst.trans h₁.dst, h₂.nh.trans h₁.nh, h₂.ipData.trans h₁.ipData,
    h₂.skb_eq.trans h₁.skb_eq, h₂.payload.trans h₁.payload, h₂.payloadLen.trans h₁.payloadLen,
    h₂.requestAck.trans h₁.requestAck⟩

theorem iph {dp dp' : DsrPkt} (h : SameHdr dp dp') : dp'.iph = dp.iph := by
  unfold DsrPkt.iph
  rw [h.nh, h.skb_eq, h.ipData]

end SameHdr

theorem write_same (dp : DsrPkt) (off : ℕ) (xs : List UInt8) : SameHdr dp (dp.write off xs) := by
  unfold DsrPkt.write
  split
  · exact SameHdr.refl dp
  · exact ⟨rfl, rfl, rfl, rfl, rfl, rfl, rfl, rfl⟩

theorem writeField_same (dp : DsrPkt) (p : OptPtr) (i : ℕ) (xs : List UInt8) :
    SameHdr dp (dp.writeField p i xs) := by
  unfold DsrPkt.writeField
  split
  · exact write_same dp _ xs
  · exact SameHdr.refl dp

theorem write_eq (dp : DsrPkt) (off : ℕ) (xs : List UInt8) :
    dp.write off xs = { dp with dh := (dp.write off xs).dh } := by
  unfold DsrPkt.write
  split <;> rfl

theorem writeField_dh (dp : DsrPkt) (p : OptPtr) (i : ℕ) (xs : List UInt8) :
    dp.writeField p i xs = { dp with dh := (dp.writeField p i xs).dh } := by
  unfold DsrPkt.writeField
  split
  · exact write_eq dp _ xs
  · rfl

theorem write_salvage (dp : DsrPkt) (off : ℕ) (xs : List UInt8) :
    (dp.write off xs).salvage = dp.salvage := by
  unfold DsrPkt.write
  split <;> rfl

theorem write_nxtHop (dp : DsrPkt) (off : ℕ) (xs : List UInt8) :
    (dp.write off xs).nxtHop = dp.nxtHop := by
  unfold DsrPkt.write
  split <;> rfl

theorem writeField_nxtHop (dp : DsrPkt) (p : OptPtr) (i : ℕ) (xs : List UInt8) :
    (dp.writeField p i xs).nxtHop = dp.nxtHop := by
  unfold DsrPkt.writeField
  split
  · exact write_nxtHop dp _ xs
  · rfl

theorem write_gen (dp : DsrPkt) (off : ℕ) (xs : List UInt8) : (dp.write off xs).gen = dp.gen := by
  unfold DsrPkt.write
  split <;> rfl

theorem write_room (dp : DsrPkt) (off : ℕ) (xs : List UInt8) {b : OptBuf} (hb : dp.dh = some b) :
    ∃ b', (dp.write off xs).dh = some b' ∧ b'.tail = b.tail ∧ b'.raw.length = b.raw.length := by
  rw [write_dh hb]
  exact ⟨_, rfl, rfl, length_writeAt⟩

theorem isSome_write (dp : DsrPkt) (off : ℕ) (xs : List UInt8) :
    (dp.write off xs).dh.isSome = dp.dh.isSome := by
  unfold DsrPkt.write
  split
  · rfl
  · next b hb =>
    rw [hb]
    rfl

theorem live_writeField {dp : DsrPkt} {p : OptPtr} (i : ℕ) (xs : List UInt8) :
    (dp.writeField p i xs).live p = dp.live p := by
  unfold DsrPkt.writeField
  split
  · unfold DsrPkt.live
    rw [isSome_write, write_gen]
  · rfl

theorem writeField_gen (dp : DsrPkt) (p : OptPtr) (i : ℕ) (xs : List UInt8) :
    (dp.writeField p i xs).gen = dp.gen := by
  unfold DsrPkt.writeField
  split
  · exact write_gen dp _ xs
  · rfl

theorem srtOptSetSleft_same (dp : DsrPkt) (p : OptPtr) (sleft : ℕ) :
    SameHdr dp (srtOptSetSleft dp p sleft) :=
  writeField_same dp p 2 _

theorem write_srtOpt (dp : DsrPkt) (off : ℕ) (xs : List UInt8) :
    (dp.write off xs).srtOpt = dp.srtOpt := by
  unfold DsrPkt.write
  split <;> rfl

theorem srtOptSetSleft_srtOpt (dp : DsrPkt) (p : OptPtr) (sleft : ℕ) :
    (srtOptSetSleft dp p sleft).srtOpt = dp.srtOpt := by
  unfold srtOptSetSleft DsrPkt.writeField
  split
  · exact write_srtOpt dp _ _
  · rfl

theorem optsLen_write (dp : DsrPkt) (off : ℕ) (xs : List UInt8) :
    (dp.write off xs).optsLen = dp.optsLen := by
  unfold DsrPkt.write
  split
  · rfl
  · next b hb => rw [optsLen_dh hb]; rfl

theorem optsLen_writeField (dp : DsrPkt) (p : OptPtr) (i : ℕ) (xs : List UInt8) :
    (dp.writeField p i xs).optsLen = dp.optsLen := by
  unfold DsrPkt.writeField
  split
  · exact optsLen_write dp _ xs
  · rfl

end DsrUu
