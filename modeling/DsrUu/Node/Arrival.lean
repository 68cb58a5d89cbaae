import DsrUu.Maint.Once
import DsrUu.Node.Aside
import DsrUu.Pkt.Wire

namespace DsrUu

open Bytes Effect

def routeSrt (mem : ℕ → UInt8) (dp : DsrPkt) (as : List InAddr) : DsrSrt :=
  { src := dp.src, dst := dp.dst, flags := srtFlags mem, laddrs := 4 * as.length + 2, addrs := as }

theorem readAt_add (b : List UInt8) (off m n : ℕ) :
    readAt b off (m + n) = readAt b off m ++ readAt b (off + m) n := by
  rw [readAt, List.range_add, List.map_append, List.map_map, readAt, readAt]
  congr 1
  refine List.map_congr_left fun i _ => ?_
  simp only [Function.comp_apply]
  congr 1
  omega

section SrtOptRecv

variable {as : List InAddr} {salv sleft : ℕ} {hdr rest : List UInt8} {dp : DsrPkt}

theorem SrtBuf.srtOptSrt (h : SrtBuf as salv sleft hdr rest dp) (has : as.length ≤ 63)
    (mem : ℕ → UInt8) : srtOptSrt mem dp (dp.ptr dsrOptHdrLen) = routeSrt mem dp as := by
  obtain ⟨junk, hat⟩ := h.srtAt
  have hraw := hat
  rw [srtOptImage_raw] at hraw
  have hl := hraw.optLength_srt has
  have hf : dp.fieldsAt (dp.ptr dsrOptHdrLen) 4 (4 * as.length + 2) =
      encodeAddrs as ++ readAt (hdr ++ (srtOptImage salv sleft as ++ (rest ++ junk)))
        (dsrOptHdrLen + 4 + 4 * as.length) 2 := by
    obtain ⟨b, hb, hr⟩ := hat.dh
    have ha := hraw.srtOptAddrs
    rw [fieldsAt_live hat.live, bytesAt_dh hb] at ha ⊢
    rw [readAt_add, ha, hr]
    rfl
  rw [DsrUu.srtOptSrt, hl, dsrSrtNew, hf, List.take_of_length_le, decodeAddrs_append]
  · rfl
  · rw [length_readAt]
    decide
  · rw [List.length_append, length_encodeAddrs, length_readAt]

theorem routeSrt_n (mem : ℕ → UInt8) (dp : DsrPkt) (as : List InAddr) :
    (routeSrt mem dp as).n = as.length := by
  change (4 * as.length + 2) / 4 = as.length
  omega

theorem routeSrt_next (mem : ℕ → UInt8) (dp : DsrPkt) (as : List InAddr) {j : ℕ}
    (hj : j ≤ as.length) : dsrSrtNextHop (routeSrt mem dp as) ((as.length - j : ℕ) : Int) =
      (as ++ [dp.dst]).getD j default := by
  unfold dsrSrtNextHop
  rw [routeSrt_n]
  rcases Nat.lt_or_ge j as.length with hlt | hge
  · have hidx : (as.length : Int) - ((as.length - j : ℕ) : Int) = (j : ℕ) := by omega
    rw [if_neg (by omega), hidx]
    change (if 0 ≤ ((j : ℕ) : Int) then as.getD (Int.toNat (j : ℕ)) default else default) = _
    rw [if_pos (by omega), Int.toNat_natCast, List.getD_eq_getElem?_getD, List.getD_eq_getElem?_getD,
      List.getElem?_append_left hlt]
  · have hj' : j = as.length := by omega
    rw [if_pos (by omega), hj']
    simp [routeSrt]

theorem routeSrt_prev (mem : ℕ → UInt8) (dp : DsrPkt) (as : List InAddr) {j : ℕ}
    (hj : j ≤ as.length) : dsrSrtPrevHop (routeSrt mem dp as) (((as.length - j : ℕ) : Int) - 1) =
      (dp.src :: as).getD j default := by
  unfold dsrSrtPrevHop
  rw [routeSrt_n]
  cases j with
  | zero =>
    rw [if_pos (by omega)]
    rfl
  | succ i =>
    have hidx : (as.length : Int) - 2 - (((as.length - (i + 1) : ℕ) : Int) - 1) = (i : ℕ) := by omega
    rw [if_neg (by omega), hidx]
    change (if 0 ≤ ((i : ℕ) : Int) then as.getD (Int.toNat (i : ℕ)) default else default) = _
    rw [if_pos (by omega), Int.toNat_natCast]
    rfl

theorem automaticRouteShortening_next {E : Event → Prop} (me : InAddr) (sleft : ℕ) (dp : DsrPkt)
    (srt : DsrSrt) {s : DsrNode} : wp (automaticRouteShortening me me sleft dp srt) s
      (fun ok s' => Aside E s s' ∧ ok = true) fun _ => False := by
  simp only [automaticRouteShortening, confVal, wp_bind, wp_get, wp_pure]
  rw [if_neg (by simp)]
  exact ⟨Aside.refl s, rfl⟩

theorem dsrSrtOptRecv_total {E : Event → Prop} {dp : DsrPkt} {p : OptPtr} {s : DsrNode}
    (hprom : dp.promiscRecv = false) (hs : s.held = [])
    (hnext : dsrSrtNextHop (srtOptSrt s.kmem dp p) (srtOptSleft dp p) = s.ifaddr)
    (hle : srtOptSleft dp p ≤ (srtOptSrt s.kmem dp p).n) :
    wp (dsrSrtOptRecv dp p) s (fun r s' => Aside E s s' ∧ r =
      if srtOptSleft dp p = 0 then
        (srtOptNote dp p (srtOptSrt s.kmem dp p) (srtOptSleft dp p), [.srtRemove])
      else (srtOptSetSleft (srtOptNote dp p (srtOptSrt s.kmem dp p) (srtOptSleft dp p)) p
        (srtOptSleft dp p - 1), [.forward])) fun _ => False := by
  simp only [dsrSrtOptRecv, myAddr, kmalloc, wp_bind, wp_get, wp_pure]
  generalize srtOptSrt s.kmem dp p = srt at hnext hle ⊢
  generalize srtOptSleft dp p = sleft at hnext hle ⊢
  rw [hnext]
  refine wp_imp (neighTblAdd_goes (E := E) _ _ s hs) fun _ s₁ h₁ => ?_
  refine wp_imp (srtOptCache_goes (E := E) _ _ _ _ s₁ (h₁.held hs)) fun _ s₂ h₂ => ?_
  refine wp_imp (automaticRouteShortening_next (E := E) _ _ _ _) fun ok s₃ h₃ => ?_
  obtain ⟨h₃, rfl⟩ := h₃
  have hA := (h₁.trans h₂).trans h₃
  have hprom' : (srtOptNote dp p srt sleft).promiscRecv = false := hprom
  rw [hprom']
  simp only [not_true_eq_false, Bool.false_eq_true, or_self, if_false]
  split
  · exact ⟨hA, rfl⟩
  · rw [if_neg (by omega)]
    exact ⟨hA, rfl⟩

end SrtOptRecv

def ackEvent : Event → Prop
  | .xmit .ackSend _ _ => True
  | .send .ackSend _ => True
  | _ => False

theorem ackPkt_requestAck {mem : ℕ → UInt8} {me dst : InAddr} {id : ℕ} {dp : DsrPkt}
    (h : ackPkt mem me dst id = some dp) : dp.requestAck = false := by
  unfold ackPkt at h
  obtain ⟨dp₁, h₁, h⟩ := Option.bind_eq_some_iff.mp h
  obtain ⟨dp₂, h₂, rfl⟩ := Option.map_eq_some_iff.mp h
  unfold dsrOptHdrAdd at h₁
  unfold dsrAckOptAdd at h₂
  split at h₁
  · cases h₁
  split at h₂
  · cases h₂
  cases h₁
  cases h₂
  rfl

theorem dsrAckSend_goes (dst : InAddr) (id : ℕ) : Goes ackEvent (dsrAckSend xmit dst id) := by
  intro s hs
  change wp (xmitPkt xmit .ackSend (ackPkt s.kmem s.ifaddr dst id)) s _ _
  cases hp : ackPkt s.kmem s.ifaddr dst id with
  | none => exact Aside.refl s
  | some dp =>
    exact xmit_goes (fun _ => trivial) (fun _ => trivial) (ackPkt_requestAck hp) s hs

structure Processed (as : List InAddr) (salv j : ℕ) (hdr rest : List UInt8) (dp dp' : DsrPkt) :
    Prop where
  buf : SrtBuf as salv (as.length - j - 1) hdr rest dp'
  ackPtr : AckPtr as rest dp'
  same : SameHdr dp dp'
  prvHop : dp'.prvHop = (dp.src :: as).getD j default
  nxtHop : j < as.length → dp'.nxtHop = (as ++ [dp.dst]).getD (j + 1) default
  promisc : dp'.promiscRecv = false
  gen : dp'.gen = dp.gen

def srtActions (as : List InAddr) (j : ℕ) (rest : List UInt8) : List DsrPktAction :=
  (if j = as.length then [.srtRemove] else [.forward]) ++ (if rest = [] then [] else [.none])

theorem dsrOptRecvLoop_done {fuel dsrLen l : ℕ} {p : OptPtr} (dp : DsrPkt)
    (action : List DsrPktAction) (h : ¬ (l < dsrLen ∧ dsrLen - l > 2)) :
    dsrOptRecvLoop fuel dsrLen l p dp action = pure (dp, action) := by
  cases fuel with
  | zero => rfl
  | succ fuel => rw [dsrOptRecvLoop, if_neg h]

theorem dsrOptRecvLoop_opt {fuel dsrLen l : ℕ} {p : OptPtr} {dp : DsrPkt}
    {action : List DsrPktAction} (hl : l < dsrLen ∧ dsrLen - l > 2)
    (ht : optTypeOf (dp.fieldAt p 0) ≠ .pad1) :
    dsrOptRecvLoop (fuel + 1) dsrLen l p dp action = dsrOptRecvOne dp p >>= fun r =>
      dsrOptRecvLoop fuel dsrLen (l + (r.1.optLength p + 2))
        { p with off := p.off + (r.1.optLength p + 2) } r.1 (action ++ r.2) := by
  rw [dsrOptRecvLoop, if_pos hl, if_neg ht]

section Recv

variable {as : List InAddr} {salv j : ℕ} {hdr rest : List UInt8} {dp : DsrPkt} {s : DsrNode}

theorem SrtBuf.type_srt {sleft : ℕ} (h : SrtBuf as salv sleft hdr rest dp) :
    optTypeOf (dp.fieldAt (dp.ptr dsrOptHdrLen) 0) = .srt := by
  obtain ⟨junk, hat⟩ := h.srtAt
  have himg := length_srtOptImage salv sleft as
  rw [hat.fieldAt (by omega)]
  rfl

theorem SrtBuf.optLength_srt {sleft : ℕ} (h : SrtBuf as salv sleft hdr rest dp)
    (has : as.length ≤ 63) : dp.optLength (dp.ptr dsrOptHdrLen) = 4 * as.length + 2 := by
  obtain ⟨junk, hat⟩ := h.srtAt
  rw [srtOptImage_raw] at hat
  exact hat.optLength_srt has

theorem dsrOptRecvOne_srt (h : SrtBuf as salv (as.length - j) hdr rest dp) (hp : Parsed as rest dp)
    (has : as.length ≤ 63) (hj : j ≤ as.length) (hprom : dp.promiscRecv = false) (hs : s.held = [])
    (hme : s.ifaddr = (as ++ [dp.dst]).getD j default) {E : Event → Prop} :
    wp (dsrOptRecvOne dp (dp.ptr dsrOptHdrLen)) s (fun r s' => Aside E s s' ∧
      r.2 = (if j = as.length then [.srtRemove] else [.forward]) ∧
      Processed as salv j hdr rest dp r.1 ∧ r.1.srtOpt = dp.srtOpt) fun _ => False := by
  have hsleft : srtOptSleft dp (dp.ptr dsrOptHdrLen) = as.length - j := by
    obtain ⟨junk, hat⟩ := h.srtAt
    rw [hat.srtOptSleft]
    omega
  have hsrt := h.srtOptSrt has s.kmem
  have hnext : dsrSrtNextHop (srtOptSrt s.kmem dp (dp.ptr dsrOptHdrLen))
      (srtOptSleft dp (dp.ptr dsrOptHdrLen)) = s.ifaddr := by
    rw [hsrt, hsleft, routeSrt_next s.kmem dp as hj, hme]
  have hw := dsrSrtOptRecv_total (E := E) hprom hs hnext
    (by rw [hsrt, hsleft, routeSrt_n]; exact Nat.sub_le _ _)
  unfold dsrOptRecvOne
  rw [h.type_srt]
  dsimp only
  refine wp_imp hw fun r s' hr => ?_
  obtain ⟨hA, rfl⟩ := hr
  refine ⟨hA, ?_⟩
  rw [hsrt, hsleft]
  obtain ⟨note, hnote⟩ : ∃ note, note = srtOptNote dp (dp.ptr dsrOptHdrLen)
    (routeSrt s.kmem dp as) (as.length - j) := ⟨_, rfl⟩
  have hbuf : SrtBuf as salv (as.length - j) hdr rest note := by
    rw [hnote]
    exact ⟨h.dh, h.hdr_length, h.pLen, h.ack⟩
  have hptr : ∀ off, note.ptr off = dp.ptr off := by
    rw [hnote]
    exact fun _ => rfl
  have hlive : ∀ p, note.live p = dp.live p := by
    rw [hnote]
    exact fun _ => rfl
  have hackp : note.ackReqOpt = dp.ackReqOpt := by rw [hnote]; rfl
  have hsame : SameHdr dp note := by
    rw [hnote]
    exact ⟨rfl, rfl, rfl, rfl, rfl, rfl, rfl, rfl⟩
  have hsrtp : note.srtOpt = dp.srtOpt := by rw [hnote, hp.srtOpt]; rfl
  have hprv : note.prvHop = (dp.src :: as).getD j default := by
    rw [hnote]
    exact routeSrt_prev s.kmem dp as hj
  have hnxt : j < as.length → note.nxtHop = (as ++ [dp.dst]).getD (j + 1) default := by
    intro hlt
    have hcast : ((as.length - j : ℕ) : Int) - 1 = ((as.length - (j + 1) : ℕ) : Int) := by omega
    rw [hnote, ← routeSrt_next s.kmem dp as hlt, ← hcast]
    rfl
  have hgen : note.gen = dp.gen := by rw [hnote]; rfl
  have hpro : note.promiscRecv = false := by rw [hnote]; exact hprom
  have hack : AckPtr as rest note := by
    refine ⟨fun hr p hp' => ?_, fun hr => ?_⟩
    · rw [hackp, hp.ackNone hr] at hp'
      cases hp'
    · rw [hackp, hp.ackSome hr, hptr]
  rw [← hnote]
  by_cases hjn : j = as.length
  · rw [if_pos (by omega), if_pos hjn]
    refine ⟨rfl, ⟨?_, hack, hsame, hprv, hnxt, hpro, hgen⟩, hsrtp⟩
    have hz : as.length - j - 1 = as.length - j := by omega
    rw [hz]
    exact hbuf
  · rw [if_neg (by omega), if_neg hjn]
    obtain ⟨dp', hdp'⟩ : ∃ dp', dp' = srtOptSetSleft note (dp.ptr dsrOptHdrLen) (as.length - j - 1) :=
      ⟨_, rfl⟩
    have hb' := hbuf.setSleft (as.length - j - 1)
    have hs' := srtOptSetSleft_same note (dp.ptr dsrOptHdrLen) (as.length - j - 1)
    have hf : dp' = { note with dh := dp'.dh } := by
      rw [hdp']
      exact writeField_dh _ _ _ _
    rw [hptr, ← hdp'] at hb'
    rw [← hdp'] at hs' ⊢
    have hlive' : ∀ p, dp'.live p = note.live p := by
      intro p
      have hg := congrArg DsrPkt.gen hf
      obtain ⟨b, hb⟩ := hb'.dh
      obtain ⟨b₀, hb₀⟩ := hbuf.dh
      rw [DsrPkt.live, DsrPkt.live, hb, hb₀, hg]
      rfl
    refine ⟨rfl, ⟨hb', ⟨fun hr p hp' => ?_, fun hr => ?_⟩, hsame.trans hs', ?_, fun hlt => ?_, ?_, ?_⟩, ?_⟩
    · rw [congrArg DsrPkt.ackReqOpt hf] at hp'
      rw [hlive']
      exact hack.none hr p hp'
    · rw [congrArg DsrPkt.ackReqOpt hf]
      change note.ackReqOpt = _
      rw [hack.some hr, DsrPkt.ptr, DsrPkt.ptr, congrArg DsrPkt.gen hf]
    · exact (congrArg DsrPkt.prvHop hf).trans hprv
    · exact (congrArg DsrPkt.nxtHop hf).trans (hnxt hlt)
    · exact (congrArg DsrPkt.promiscRecv hf).trans hpro
    · exact (congrArg DsrPkt.gen hf).trans hgen
    · exact (congrArg DsrPkt.srtOpt hf).trans hsrtp

theorem dsrAckReqOptRecv_total {p : OptPtr} (hprom : dp.promiscRecv = false) (hs : s.held = [])
    (hsrt : dp.srtOpt ≠ none) : wp (dsrAckReqOptRecv dp p) s (fun r s' => Aside ackEvent s s' ∧
      r = ({ dp with ackReqOpt := some p }, [.none])) fun _ => False := by
  unfold dsrAckReqOptRecv
  rw [if_neg (by rw [hprom]; exact Bool.false_ne_true)]
  dsimp only
  rw [if_neg hsrt, wp_bind]
  exact wp_imp (dsrAckSend_goes _ _ s hs) fun _ s' h' => ⟨h', rfl⟩

theorem dsrOptRecv_srt (h : SrtBuf as salv (as.length - j) hdr rest dp) (hp : Parsed as rest dp)
    (has : as.length ≤ 63) (hj : j ≤ as.length) (hprom : dp.promiscRecv = false) (hs : s.held = [])
    (hme : s.ifaddr = (as ++ [dp.dst]).getD j default) :
    wp (dsrOptRecv dp) s (fun r s' => Aside ackEvent s s' ∧ Processed as salv j hdr rest dp r.1 ∧
      r.2 = (if dp.dst = s.ifaddr ∧ dp.payloadLen ≠ 0 then [.deliver] else []) ++
        srtActions as j rest) fun _ => False := by
  simp only [dsrOptRecv, myAddr, wp_bind, wp_get, wp_pure]
  have hlen := h.optsLen
  have hack := h.ack.length_le
  obtain ⟨fuel, hfuel⟩ : ∃ fuel, dp.optsLen = fuel + 3 :=
    ⟨dp.optsLen - 3, by unfold dsrOptHdrLen at hlen; omega⟩
  generalize dp.optsLen = len at hlen hfuel ⊢
  nth_rewrite 1 [hfuel]
  rw [dsrOptRecvLoop_opt (by omega) (by rw [h.type_srt]; decide), wp_bind]
  refine wp_imp (dsrOptRecvOne_srt h hp has hj hprom hs hme (E := ackEvent)) fun r s₁ hr => ?_
  obtain ⟨hA, hr2, hproc, hsrtp⟩ := hr
  have hptr : ∀ off, r.1.ptr off = dp.ptr off := by
    intro off
    rw [DsrPkt.ptr, DsrPkt.ptr, hproc.gen]
  have hsz : r.1.optLength (dp.ptr dsrOptHdrLen) + 2 = 4 * as.length + 4 := by
    rw [← hptr, hproc.buf.optLength_srt has]
  rw [hsz]
  rcases h.ack with rfl | ⟨id, rfl⟩
  · rw [dsrOptRecvLoop_done _ _ (by rw [List.length_nil] at hlen; omega)]
    exact ⟨hA, hproc, by rw [hr2, srtActions, if_pos rfl, List.append_nil]⟩
  · have hrl : (ackReqOptBytes id).length = 4 := rfl
    obtain ⟨junk, hrest⟩ := hproc.buf.restAt
    have hpp : ({ dp.ptr dsrOptHdrLen with
        off := (dp.ptr dsrOptHdrLen).off + (4 * as.length + 4) } : OptPtr) =
        r.1.ptr (dsrOptHdrLen + (4 * as.length + 4)) := (hptr _).symm
    obtain ⟨p, hpe⟩ : ∃ p, p = r.1.ptr (dsrOptHdrLen + (4 * as.length + 4)) := ⟨_, rfl⟩
    have hne : ackReqOptBytes id ≠ [] := List.cons_ne_nil _ _
    rw [hpp, ← hpe]
    rw [← hpe] at hrest
    have ht : optTypeOf (r.1.fieldAt p 0) = .ackReq := by
      rw [hrest.fieldAt (by omega)]
      rfl
    rw [dsrOptRecvLoop_opt (by omega) (by rw [ht]; decide), wp_bind]
    unfold dsrOptRecvOne
    rw [ht]
    dsimp only
    refine wp_imp (dsrAckReqOptRecv_total hproc.promisc (hA.held hs)
      (by rw [hsrtp, hp.srtOpt]; exact Option.some_ne_none _)) fun r' s₂ hr' => ?_
    obtain ⟨hA₂, rfl⟩ := hr'
    have hl : ({ r.1 with ackReqOpt := some p } : DsrPkt).optLength p + 2 = 4 := by
      have hl' : r.1.optLength p + 2 = 4 := by
        rw [DsrPkt.optLength, hrest.fieldAt (by omega)]
        rfl
      exact hl'
    dsimp only
    rw [hl, dsrOptRecvLoop_done _ _ (by omega)]
    refine ⟨hA.trans hA₂, ?_, ?_⟩
    · have hb := hproc.buf
      have hs' := hproc.same
      exact ⟨⟨hb.dh, hb.hdr_length, hb.pLen, hb.ack⟩,
        ⟨fun hr => absurd hr hne, fun _ => congrArg some hpe⟩,
        ⟨hs'.src, hs'.dst, hs'.nh, hs'.ipData, hs'.skb_eq, hs'.payload, hs'.payloadLen, hs'.requestAck⟩,
        hproc.prvHop, hproc.nxtHop, hproc.promisc, hproc.gen⟩
    · rw [hr2, srtActions, if_neg hne, List.append_assoc]

end Recv

theorem dispatch_forward {dp : DsrPkt} {action : List DsrPktAction} (hf : .forward ∈ action)
    (hb : .sendBuffered ∉ action) : dispatch dp action dispatchOrder =
      if dp.iph.ttl < 1 then pure () else xmit .forward dp := by
  simp only [dispatchOrder, dispatch, hf, hb, if_true, if_false, ite_self]

theorem dispatch_last {dp : DsrPkt} {action : List DsrPktAction} (hf : .forward ∉ action)
    (hb : .sendBuffered ∉ action) (hr : .forwardRreq ∉ action) (hd : .drop ∉ action)
    (he : .error ∉ action) : dispatch dp action dispatchOrder =
      if .deliver ∈ action then dsrDevDeliver dp else pure () := by
  simp only [dispatchOrder, dispatch, hf, hb, hr, hd, he, if_false, ite_self]

def arrive (skb : Skb) (hw : HwAddr) (ttl : ℕ) : Skb :=
  { skb with hSource := hw, iph := { skb.iph with ttl := ttl } }

theorem SrtWire.arrive {src dst : InAddr} {as : List InAddr} {salv sleft : ℕ} {skb : Skb}
    (h : SrtWire src dst as salv sleft skb) (hw : HwAddr) (ttl : ℕ) :
    SrtWire src dst as salv sleft (arrive skb hw ttl) :=
  ⟨h.protocol, h.saddr, h.daddr, h.data⟩

structure Arrival (src dst : InAddr) (as : List InAddr) (salv j : ℕ) (s : DsrNode) (dp dp' : DsrPkt)
    (acts : List DsrPktAction) (s₁ : DsrNode) : Prop where
  recv : dsrOptRecv dp s = .ok (dp', acts) s₁
  aside : Aside ackEvent s s₁
  proc : ∃ hdr rest, Processed as salv j hdr rest dp dp' ∧
    acts = (if dp.dst = s.ifaddr ∧ dp.payloadLen ≠ 0 then [.deliver] else []) ++ srtActions as j rest
  hdrOk : HdrOk src dst dp'
  ttl : dp'.iph.ttl = dp.iph.ttl
  optsLen : dp'.optsLen = dp.optsLen
  src_eq : dp.src = src
  dst_eq : dp.dst = dst

theorem SrtWire.arrival {src dst : InAddr} {as : List InAddr} {salv j : ℕ} {skb : Skb}
    (h : SrtWire src dst as salv (as.length - j) skb) (has : as.length ≤ 63) (hj : j ≤ as.length)
    {s : DsrNode} (hs : s.held = []) (hme : s.ifaddr = (as ++ [dst]).getD j default) :
    ∃ dp' acts s₁, Arrival src dst as salv j s (dsrPktAlloc s.kmem skb) dp' acts s₁ := by
  have ha := dsrPktAlloc_dsr s.kmem h.protocol
  obtain ⟨hdr, rest, hbuf, hpar⟩ := h.alloc has s.kmem
  have hsrc : (dsrPktAlloc s.kmem skb).src = src := ha.src.trans h.saddr
  have hdst : (dsrPktAlloc s.kmem skb).dst = dst := ha.dst.trans h.daddr
  have hiph : (dsrPktAlloc s.kmem skb).iph = skb.iph := by
    rw [DsrPkt.iph, ha.nh, ha.skb_eq]
  have hw := dsrOptRecv_srt hbuf hpar has hj ha.promisc hs (by rw [hdst]; exact hme)
  unfold wp at hw
  split at hw
  · next r s₁ hrun =>
    obtain ⟨hA, hproc, hacts⟩ := hw
    refine ⟨r.1, r.2, s₁, hrun, hA, ⟨hdr, rest, hproc, hacts⟩, ?_, by rw [hproc.same.iph],
      by rw [hproc.buf.optsLen, hbuf.optsLen], hsrc, hdst⟩
    refine ⟨?_, ?_, ?_, ?_⟩
    · rw [hproc.same.iph, hiph, h.protocol]
    · rw [hproc.same.iph, hiph, h.saddr]
    · rw [hproc.same.iph, hiph, h.daddr]
    · rw [hproc.same.skb_eq, ha.skb_eq]
      rintro skb' ⟨⟩
      exact ⟨h.saddr, h.daddr⟩
  · exact hw.elim

theorem dsrAckReqOptAdd_nxtHop (mem : ℕ → UInt8) (dp : DsrPkt) (id : ℕ) :
    (dsrAckReqOptAdd mem dp id).nxtHop = dp.nxtHop := by
  unfold dsrAckReqOptAdd
  split
  · exact writeField_nxtHop _ _ _ _
  · dsimp only
    split
    · rw [write_nxtHop, write_nxtHop]
      rfl
    · split
      · rfl
      · next dp' off he =>
        rw [write_nxtHop, write_nxtHop]
        unfold dsrPktAllocOptsExpand at he
        split at he
        · cases he
        · split at he
          · cases he
            rfl
          · cases he
            exact write_nxtHop _ _ _

theorem FrameOf.wire {src dst : InAddr} {as : List InAddr} {salv sleft : ℕ} {hdr rest : List UInt8}
    {dp : DsrPkt} {f : Frame} (hf : FrameOf dp f) (hb : SrtBuf as salv sleft hdr rest dp)
    (has : as.length ≤ 63) (hh : HdrOk src dst dp) (hsrc : dp.src = src) (hdst : dp.dst = dst)
    (hack : AckPtr as rest dp) : f.nxtHop = dp.nxtHop ∧ SrtWire src dst as salv sleft f.skb := by
  obtain ⟨dp', hadd, hn, hs⟩ := hf
  cases hadd with
  | same => exact ⟨hn, hs ▸ hb.wire hh⟩
  | add mem id =>
    obtain ⟨hdr', rest', hb', hh'⟩ := hb.addAck has hh hsrc hdst hack mem id
    exact ⟨hn.trans (dsrAckReqOptAdd_nxtHop mem dp id), hs ▸ hb'.wire hh'⟩

def newEvents (s s' : DsrNode) : List Event := s'.out.drop s.out.length

def isForward : Event → Bool
  | .xmit .forward _ _ => true
  | _ => false

def isDeliver : Event → Bool
  | .deliver _ => true
  | _ => false

theorem Aside.newEvents {E : Event → Prop} {s s₁ : DsrNode} (h : Aside E s s₁) :
    ∃ b, s₁.out = s.out ++ b ∧ ∀ e ∈ b, E e := by
  obtain ⟨lc, nt, b, rfl, hE⟩ := h
  exact ⟨b, rfl, hE⟩

theorem countP_ackEvent {p : Event → Bool} {b : List Event} (h : ∀ e ∈ b, ackEvent e)
    (hp : ∀ e, ackEvent e → p e = false) : b.countP p = 0 :=
  List.countP_eq_zero.mpr fun e he => by
    rw [hp e (h e he)]
    exact Bool.false_ne_true

theorem ackEvent_not_forward (e : Event) (h : ackEvent e) : isForward e = false := by
  unfold ackEvent at h
  split at h <;> first | rfl | exact h.elim

theorem ackEvent_not_deliver (e : Event) (h : ackEvent e) : isDeliver e = false := by
  unfold ackEvent at h
  split at h <;> first | rfl | exact h.elim

theorem dsrRecv_of_optRecv {dp dp' : DsrPkt} {acts : List DsrPktAction} {s s₁ : DsrNode}
    (h : dsrOptRecv dp s = .ok (dp', acts) s₁) (hp : dp.promiscRecv = false)
    (hp' : dp'.promiscRecv = false) : dsrRecv dp s = dispatch dp' acts dispatchOrder s₁ := by
  unfold dsrRecv myAddr
  rw [bind_of_ok (show (do let s ← get; pure s.ifaddr : DsrM InAddr) s = .ok s.ifaddr s from rfl)]
  dsimp only
  rw [hp, Bool.false_and, if_neg Bool.false_ne_true, bind_of_ok h]
  dsimp only
  rw [hp', if_neg Bool.false_ne_true]

section Visit

variable {src dst : InAddr} {as : List InAddr} {salv j : ℕ} {s s₁ : DsrNode} {dp dp' : DsrPkt}
  {acts : List DsrPktAction}

theorem Arrival.recv_forward (h : Arrival src dst as salv j s dp dp' acts s₁)
    (hp : dp.promiscRecv = false) (ht : 1 ≤ dp.iph.ttl) (hj : j < as.length) :
    dsrRecv dp s = xmit .forward dp' s₁ := by
  obtain ⟨hdr, rest, hproc, hacts⟩ := h.proc
  have hne : ¬ j = as.length := by omega
  rw [srtActions, if_neg hne] at hacts
  rw [dsrRecv_of_optRecv h.recv hp hproc.promisc, dispatch_forward, if_neg (by rw [h.ttl]; omega)]
  · rw [hacts]
    simp
  · rw [hacts]
    split <;> split <;> decide

theorem Arrival.recv_last (h : Arrival src dst as salv j s dp dp' acts s₁)
    (hp : dp.promiscRecv = false) (hme : s.ifaddr = dst) (hj : j = as.length) :
    dsrRecv dp s = (if dp.payloadLen ≠ 0 then dsrDevDeliver dp' else pure ()) s₁ := by
  obtain ⟨hdr, rest, hproc, hacts⟩ := h.proc
  rw [srtActions, if_pos hj, h.dst_eq, hme] at hacts
  have hmem : DsrPktAction.deliver ∈ acts ↔ dp.payloadLen ≠ 0 := by
    rw [hacts]
    by_cases hpay : dp.payloadLen = 0
    · rw [if_neg fun hc => hc.2 hpay]
      constructor
      · intro hd
        refine absurd hd ?_
        split <;> decide
      · exact fun hc => absurd hpay hc
    · rw [if_pos ⟨rfl, hpay⟩]
      exact ⟨fun _ => hpay, fun _ => by simp⟩
  rw [dsrRecv_of_optRecv h.recv hp hproc.promisc, dispatch_last]
  · by_cases hpay : dp.payloadLen = 0
    · rw [if_neg (fun hd => hmem.mp hd hpay), if_neg (fun hc => hc hpay)]
    · rw [if_pos (hmem.mpr hpay), if_pos hpay]
  all_goals
    rw [hacts]
    split <;> split <;> decide

end Visit

end DsrUu
