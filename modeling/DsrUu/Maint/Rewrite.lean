import DsrUu.LinkCache.Sound
import DsrUu.Node.Recv
import DsrUu.Pkt.Parse

namespace DsrUu

open Bytes Graph

structure SrtCopy (dp : DsrPkt) (p : OptPtr) (w0 w1 : UInt8) (as : List InAddr)
    (pre rest junk : List UInt8) : Prop where
  opt : OptAt dp p pre (srtOptRaw w0 w1 as) (rest ++ junk)
  srtOpt : dp.srtOpt = some p
  tail : dp.optsLen = pre.length + (4 * as.length + 4) + rest.length
  pre_le : 4 ≤ pre.length
  addrs_le : as.length ≤ 63

structure SrtRewritten (dp : DsrPkt) (pre rest : List UInt8) (salv sleft : ℕ) (as' : List InAddr)
    (dp' : DsrPkt) : Prop where
  opt : ∃ pre' junk', OptAt dp' (dp'.ptr pre.length) pre' (srtOptImage salv sleft as')
    (rest ++ junk') ∧ pre'.length = pre.length ∧ pre'.drop 4 = pre.drop 4
  srtOpt : dp'.srtOpt = some (dp'.ptr pre.length)
  tail : dp'.optsLen = pre.length + (4 * as'.length + 4) + rest.length
  pLen : dp'.pLen = (dp'.optsLen - 4) % 65536
  same : SameHdr dp dp'

theorem OptAt.bytesAt_pre {dp : DsrPkt} {p : OptPtr} {pre opt post : List UInt8}
    (h : OptAt dp p pre opt post) : dp.bytesAt 0 p.off = pre := by
  obtain ⟨b, hb, hr⟩ := h.dh
  rw [bytesAt_dh hb, hr, h.off, readAt_append_left]

theorem OptAt.bytesAt_post {dp : DsrPkt} {p : OptPtr} {pre opt rest junk : List UInt8}
    (h : OptAt dp p pre opt (rest ++ junk)) :
    dp.bytesAt (p.off + opt.length) rest.length = rest := by
  obtain ⟨b, hb, hr⟩ := h.dh
  rw [bytesAt_dh hb, hr, h.off, ← List.append_assoc, ← List.length_append, readAt_append_mid]

theorem drop_writeAt {xs ys : List UInt8} {off n : ℕ} (h : off + ys.length ≤ n)
    (hx : n ≤ xs.length) : (writeAt xs off ys).drop n = xs.drop n := by
  rw [writeAt_eq_append (by omega), List.append_assoc, List.drop_append, List.length_take,
    Nat.min_eq_left (by omega), List.drop_eq_nil_of_le (by rw [List.length_take]; omega),
    List.nil_append, List.drop_append, List.drop_eq_nil_of_le (by omega), List.nil_append,
    List.drop_drop]
  congr 1
  omega

theorem salvageRewrite_same {mem : ℕ → UInt8} {dp : DsrPkt} {p : OptPtr} {w0 w1 : UInt8}
    {as : List InAddr} {pre rest junk : List UInt8} (h : SrtCopy dp p w0 w1 as pre rest junk)
    (hp : dp.pLen = (dp.optsLen - 4) % 65536) {srt : DsrSrt}
    (hsrt : srt.laddrs = 4 * srt.addrs.length) (hlen : srt.addrs.length = as.length) :
    SrtRewritten dp pre rest (srtOptSalv dp p + 1) srt.addrs.length srt.addrs
      (salvageRewrite mem dp p srt) := by
  have hopt := h.opt
  have hpre := h.pre_le
  have hraw := length_srtOptRaw w0 w1 as
  have heq : salvageRewrite mem dp p srt =
      { dp.writeField p 0 (srtOptBytes (srtOptSalv dp p + 1) srt) with srtOpt := some p } := by
    unfold salvageRewrite
    simp only [hopt.optLength_srt h.addrs_le, dsrSrtOptLen, dsrSrtHdrLen, hsrt, hlen]
    rw [if_pos (by omega)]
  rw [heq, srtOptBytes_of_wf hsrt]
  have himg := length_srtOptImage (srtOptSalv dp p + 1) srt.addrs.length srt.addrs
  generalize hgen : srtOptImage (srtOptSalv dp p + 1) srt.addrs.length srt.addrs = img at himg ⊢
  have hw := hopt.writeField (i := 0) (show 0 + img.length ≤ (srtOptRaw w0 w1 as).length by omega)
  rw [writeAt_full (by omega)] at hw
  obtain ⟨b, hb, hr⟩ := hopt.dh
  have htail : b.tail = dp.optsLen := (optsLen_dh hb).symm
  have hptr : dp.ptr pre.length = p := by
    rw [DsrPkt.ptr, ← hopt.gen, ← hopt.off]
  have hwrite : dp.writeField p 0 img =
      { dp with dh := some { b with raw := writeAt b.raw (p.off + 0) img } } := by
    rw [writeField_live hopt.live, write_dh hb]
  rw [hwrite] at hw ⊢
  refine ⟨⟨pre, junk, ?_, rfl, rfl⟩, ?_, ?_, ?_, ⟨rfl, rfl, rfl, rfl, rfl, rfl, rfl, rfl⟩⟩
  · rw [hgen]
    exact ⟨hw.dh, rfl, rfl⟩
  · rw [← hptr]
    rfl
  · change b.tail = _
    rw [htail, h.tail, hlen]
  · have hbyte : ∀ i, i < 4 → (writeAt b.raw (p.off + 0) img).getD i 0 = b.raw.getD i 0 :=
      fun i hi => getD_writeAt_before (by rw [hopt.off]; omega) 0
    change be16 ((writeAt b.raw (p.off + 0) img).getD 2 0)
      ((writeAt b.raw (p.off + 0) img).getD 3 0) = (b.tail - 4) % 65536
    rw [hbyte 2 (by omega), hbyte 3 (by omega), htail, ← hp, DsrPkt.pLen, byteAt_dh hb, byteAt_dh hb]

theorem salvageRewrite_realloc {mem : ℕ → UInt8} {dp : DsrPkt} {p : OptPtr} {w0 w1 : UInt8}
    {as : List InAddr} {pre rest junk : List UInt8} (h : SrtCopy dp p w0 w1 as pre rest junk)
    {srt : DsrSrt} (hsrt : srt.laddrs = 4 * srt.addrs.length)
    (hlen : srt.addrs.length ≠ as.length) :
    SrtRewritten dp pre rest (srtOptSalv dp p + 1) srt.addrs.length srt.addrs
      (salvageRewrite mem dp p srt) := by
  have hopt := h.opt
  have hpre := h.pre_le
  have hraw := length_srtOptRaw w0 w1 as
  have hoff := hopt.off
  have himg := length_srtOptImage (srtOptSalv dp p + 1) srt.addrs.length srt.addrs
  have hpost : dp.bytesAt (p.off + (4 * as.length + 4)) rest.length = rest := by
    rw [← hraw]
    exact hopt.bytesAt_post
  have hrest : dp.optsLen - (p.off + (4 * as.length + 4)) = rest.length := by
    rw [h.tail, hoff]
    omega
  have hnew : dp.optsLen - (4 * as.length + 4) + (4 + 4 * srt.addrs.length) =
      pre.length + (4 * srt.addrs.length + 4) + rest.length := by
    rw [h.tail]
    omega
  unfold salvageRewrite
  simp only [hopt.optLength_srt h.addrs_le, dsrSrtOptLen, dsrSrtHdrLen, hsrt]
  rw [if_neg (by omega)]
  unfold salvageRealloc
  simp only [dsrSrtOptLen, dsrSrtHdrLen, hsrt, hrest, hpost, hopt.bytesAt_pre, hnew,
    srtOptBytes_of_wf hsrt]
  generalize hgen : srtOptImage (srtOptSalv dp p + 1) srt.addrs.length srt.addrs = img at himg ⊢
  generalize hN : pre.length + (4 * srt.addrs.length + 4) + rest.length = N
  have hfill : (fill mem (N + defaultTailroom)).length = N + 128 := length_fill mem _
  have h1 : writeAt (fill mem (N + defaultTailroom)) 0 pre =
      pre ++ (fill mem (N + defaultTailroom)).drop pre.length := writeAt_zero (by omega)
  have h2 : writeAt (pre ++ (fill mem (N + defaultTailroom)).drop pre.length) p.off img =
      pre ++ img ++ ((fill mem (N + defaultTailroom)).drop pre.length).drop img.length := by
    rw [hoff]
    exact writeAt_append pre (by rw [List.length_drop]; omega)
  have hoff3 : p.off + (4 + 4 * srt.addrs.length) = (pre ++ img).length := by
    rw [List.length_append, hoff, himg]
    omega
  have h3 : writeAt (pre ++ img ++ ((fill mem (N + defaultTailroom)).drop pre.length).drop img.length)
      (p.off + (4 + 4 * srt.addrs.length)) rest =
      pre ++ img ++ rest ++
        (((fill mem (N + defaultTailroom)).drop pre.length).drop img.length).drop rest.length := by
    rw [hoff3]
    exact writeAt_append (pre ++ img) (by simp only [List.length_drop]; omega)
  generalize hjunk :
    (((fill mem (N + defaultTailroom)).drop pre.length).drop img.length).drop rest.length = junk' at h3
  have h4 : writeAt (pre ++ img ++ rest ++ junk') 2 (toBe16 ((N - dsrOptHdrLen) % 65536)) =
      writeAt pre 2 (toBe16 ((N - dsrOptHdrLen) % 65536)) ++ (img ++ (rest ++ junk')) := by
    have hwr : writeAt ([] ++ (pre ++ (img ++ (rest ++ junk')))) (([] : List UInt8).length + 2)
        (toBe16 ((N - dsrOptHdrLen) % 65536)) =
        [] ++ (writeAt pre 2 (toBe16 ((N - dsrOptHdrLen) % 65536)) ++ (img ++ (rest ++ junk'))) :=
      OptAt.writeAt_opt (by simp; omega)
    simpa using hwr
  have hdh : ((((dsrPktAllocOpts mem dp N).write 0 pre).write p.off img).write
      (p.off + (4 + 4 * srt.addrs.length)) rest).write 2 (toBe16 ((N - dsrOptHdrLen) % 65536)) =
      { dp with
        dh := some { raw := writeAt pre 2 (toBe16 ((N - dsrOptHdrLen) % 65536)) ++
                      (img ++ (rest ++ junk'))
                     tail := N }
        gen := dp.gen + 1 } := by
    simp only [dsrPktAllocOpts, DsrPkt.write, h1, h2, h3, h4]
  rw [hdh]
  refine ⟨⟨writeAt pre 2 (toBe16 ((N - dsrOptHdrLen) % 65536)), junk', ?_, by simp, ?_⟩, ?_, ?_, ?_,
    ⟨rfl, rfl, rfl, rfl, rfl, rfl, rfl, rfl⟩⟩
  · rw [hgen]
    exact ⟨⟨_, rfl, rfl⟩, rfl, by simp [DsrPkt.ptr]⟩
  · exact drop_writeAt (by simp) hpre
  · rw [hoff]
    rfl
  · exact hN.symm
  · have hlt : (N - dsrOptHdrLen) % 65536 < 65536 := Nat.mod_lt _ (by decide)
    have hget : ∀ i, i < 2 → (writeAt pre 2 (toBe16 ((N - dsrOptHdrLen) % 65536)) ++
        (img ++ (rest ++ junk'))).getD (2 + i) 0 = (toBe16 ((N - dsrOptHdrLen) % 65536)).getD i 0 := by
      intro i hi
      rw [getD_append_left (by simp; omega), getD_writeAt_inside (by simpa using hi) (by simpa using hpre)]
    change be16 ((writeAt pre 2 (toBe16 ((N - dsrOptHdrLen) % 65536)) ++
        (img ++ (rest ++ junk'))).getD 2 0) ((writeAt pre 2 (toBe16 ((N - dsrOptHdrLen) % 65536)) ++
        (img ++ (rest ++ junk'))).getD 3 0) = _
    rw [hget 0 (by omega), hget 1 (by omega), be16_toBe16 _ hlt]
    rfl

end DsrUu
