import DsrUu.Node.Length
import DsrUu.Node.Run

namespace DsrUu

open Effect

inductive Handed : XmitSite → Prop → DsrPkt → Prop
  | rreqSend {mem : ℕ → UInt8} {me target : InAddr} {ttl seqno : ℕ} {dp : DsrPkt} :
      rreqPkt mem me target ttl seqno = some dp → Handed .rreqSend True dp
  | rrepSend {mem : ℕ → UInt8} {me : InAddr} {srt srtToMe : DsrSrt} {dp : DsrPkt} :
      rrepPkt mem me srt srtToMe = some dp → Handed .rrepSend True dp
  | rerrSend {mem : ℕ → UInt8} {me dst unreach : InAddr} {maxSalvage salv : ℕ} {srt : DsrSrt}
      {trigg dp : DsrPkt} : rerrPkt mem me dst unreach maxSalvage srt trigg salv = some dp →
      Handed .rerrSend True dp
  | ackSend {mem : ℕ → UInt8} {me dst : InAddr} {id : ℕ} {dp : DsrPkt} :
      ackPkt mem me dst id = some dp → Handed .ackSend True dp
  | ackReqSend {mem : ℕ → UInt8} {me neigh : InAddr} {id : ℕ} {dp : DsrPkt} :
      ackReqPkt mem me neigh id = some dp → Handed .ackReqSend True dp
  | originate {site : XmitSite} {mem mem' : ℕ → UInt8} {skb : Skb} {srt : DsrSrt} {dp : DsrPkt} :
      (site = .startXmit ∨ site = .sendBuf) → SkbOk skb →
      dsrSrtAdd mem' { dsrPktAlloc mem skb with srt := some srt } = some dp →
      Handed site (skb.iph.protocol ≠ ipprotoDsr) dp
  | forward {site : XmitSite} {mem : ℕ → UInt8} {skb : Skb} {promisc : Bool} {dp : DsrPkt} :
      (site = .forward ∨ site = .forwardRreq) → skb.iph.protocol = ipprotoDsr → SkbOk skb →
      Edited { dsrPktAlloc mem skb with promiscRecv := promisc } dp → Handed site True dp
  | salvage {mem mem' : ℕ → UInt8} {me h : InAddr} {alt : DsrSrt} {skb : Skb} {m dp : DsrPkt} :
      SkbOk skb → m = { dsrPktAlloc mem skb with nxtHop := h } →
      salvagePkt mem' me alt m = some dp → salvageOverrun m dp = false →
      Handed .salvage (SameRouteLen mem' me alt m) dp

theorem Edited.balanced {dp₀ dp : DsrPkt} (h : Edited dp₀ dp) (h₀ : Balanced dp₀) : Balanced dp := by
  induction h with
  | refl => exact h₀
  | note _ hc hp ih =>
    obtain ⟨ht, hs⟩ := ih.toTracked.note hc hp
    exact ⟨ht, hs.lenMod ih.lenMod⟩
  | setDaddr a _ ih =>
    obtain ⟨ht, hs⟩ := ih.toTracked.setDaddr a
    exact ⟨ht, hs.lenMod ih.lenMod⟩
  | setSleft sleft hp _ ih =>
    exact ⟨ih.toTracked.writeField _ _ _, (writeField_sameLen _ _ hp).lenMod ih.lenMod⟩
  | rreqAppend mem me hp _ ih =>
    obtain ⟨ht, hg⟩ := ih.toTracked.rreqForward mem me hp
    exact ⟨ht, hg.lenMod ih.toSized ih.lenMod⟩

theorem Handed.lenIff {site : XmitSite} {c : Prop} {dp : DsrPkt} (h : Handed site c dp) :
    LenIff c dp := by
  cases h with
  | rreqSend h => exact (rreqPkt_balanced h).lenIff
  | rrepSend h => exact (rrepPkt_balanced h).lenIff
  | rerrSend h => exact (rerrPkt_balanced h).lenIff
  | ackSend h => exact (ackPkt_balanced h).lenIff
  | ackReqSend h => exact (ackReqPkt_balanced h).lenIff
  | originate _ hok h => exact dsrSrtAdd_lenIff hok h
  | @forward _ mem skb promisc _ _ hproto hok h =>
    have ht := dsrPktAlloc_tracked mem hproto hok
    have hb : Balanced (dsrPktAlloc mem skb) :=
      ⟨ht, (dsrPktAlloc_lenOk mem hproto).lenMod ht.toSized⟩
    exact (h.balanced (hb.frame rfl rfl rfl rfl rfl rfl)).lenIff
  | salvage hok hm h hov => exact salvagePkt_lenIff hok hm h hov

theorem AckReqAdded.lenIff {c : Prop} {dp dp' : DsrPkt} (h : AckReqAdded dp dp')
    (hl : LenIff c dp) : LenIff c dp' := by
  cases h with
  | same => exact hl
  | add mem id => exact hl.dsrAckReqOptAdd mem id

def HandedEvent : Event → Prop
  | .xmit site dp _ => ∃ c, Handed site c dp
  | .send site f => ∃ c dp dp', Handed site c dp ∧ AckReqAdded dp dp' ∧ f.skb = dsrSkbCreate dp'
  | _ => True

def HandedEntry (m : MaintEntry) : Prop :=
  ∃ mem skb, SkbOk skb ∧ m.dp = { dsrPktAlloc mem skb with nxtHop := m.nxtHop }

def HandedLocal (dp : DsrPkt) : Prop := ∃ mem skb, SkbOk skb ∧ dp = dsrPktAlloc mem skb

def HandedRecv (dp : DsrPkt) : Prop :=
  ∃ mem skb promisc, skb.iph.protocol = ipprotoDsr ∧ SkbOk skb ∧
    Edited { dsrPktAlloc mem skb with promiscRecv := promisc } dp

structure HandedInv (s : DsrNode) : Prop where
  out : ∀ e ∈ s.out, HandedEvent e
  maintBuf : ∀ m ∈ s.maintBuf.head, HandedEntry m
  sendBuf : ∀ e ∈ s.sendBuf.head, HandedLocal e.dp

theorem HandedInv.emit {s : DsrNode} (h : HandedInv s) {e : Event} (he : HandedEvent e) :
    HandedInv { s with out := s.out ++ [e] } :=
  ⟨forall_mem_snoc h.out he, h.maintBuf, h.sendBuf⟩

theorem handed_recvClosed : RecvClosed HandedInv (fun _ m => HandedEntry m)
    (fun _ site dp => ∃ c, Handed site c dp) HandedLocal HandedRecv where
  held _ _ h := ⟨h.out, h.maintBuf, h.sendBuf⟩
  lc _ _ _ _ _ h := ⟨h.out, h.maintBuf, h.sendBuf⟩
  neighTbl _ _ h := ⟨h.out, h.maintBuf, h.sendBuf⟩
  gratRrepTbl _ _ h := ⟨h.out, h.maintBuf, h.sendBuf⟩
  gratTimer _ _ h := ⟨h.out, h.maintBuf, h.sendBuf⟩
  ackTimer _ _ h := ⟨h.out, h.maintBuf, h.sendBuf⟩
  carry _ _ _ hm _ := hm
  retime _ _ _ _ _ hm := hm
  entries _ h := h.maintBuf
  maintBuf _ _ h ht := ⟨h.out, ht, h.sendBuf⟩
  ackReqSend _ _ _ _ _ _ hp := ⟨True, .ackReqSend hp⟩
  rerrSend _ _ _ _ _ _ _ _ _ _ _ _ _ hp := ⟨True, .rerrSend hp⟩
  salvage _ _ _ _ _ _ _ hm _ _ hp hov := by
    obtain ⟨mem, skb, hok, hdp⟩ := hm
    exact ⟨_, .salvage hok hdp hp hov⟩
  emitXmit _ _ _ h hp := h.emit hp
  emitMaint _ _ h := h.emit trivial
  emitAckReq _ _ _ h := h.emit trivial
  newEntry _ s _ _ skb _ hp _ _ hskb _ hnh hdp _ := by
    obtain ⟨c, hc⟩ := hp
    exact ⟨s.kmem, skb, hc.lenIff.skbOk skb hskb, by rw [hdp, hnh]⟩
  emitSend _ _ _ dp dp' _ hp _ h hsent := by
    obtain ⟨c, hc⟩ := hp
    exact h.emit ⟨c, dp, dp', hc, hsent.added, rfl⟩
  rreqTbl _ _ h := ⟨h.out, h.maintBuf, h.sendBuf⟩
  rreqBrk _ _ h := ⟨h.out, h.maintBuf, h.sendBuf⟩
  rreqSeqno _ _ h := ⟨h.out, h.maintBuf, h.sendBuf⟩
  sendBufTimer _ _ h := ⟨h.out, h.maintBuf, h.sendBuf⟩
  waiting _ h := h.sendBuf
  sendBuf _ _ h ht := ⟨h.out, h.maintBuf, ht⟩
  emitDeliver _ _ h := h.emit trivial
  emitIcmp _ _ h := h.emit trivial
  emitDiscovery _ _ _ h := h.emit trivial
  emitSendBuf _ _ h := h.emit trivial
  rreqSend _ _ _ _ _ _ hp := ⟨True, .rreqSend hp⟩
  srtAdd _ _ _ _ _ _ _ hsite _ hH _ _ hp := by
    obtain ⟨mem, skb, hok, rfl⟩ := hH
    exact ⟨_, .originate hsite hok hp⟩
  rrepSend _ _ _ _ _ hp := ⟨True, .rrepSend hp⟩
  ackSend _ _ _ _ _ hp := ⟨True, .ackSend hp⟩
  forward _ _ _ hQ := by
    obtain ⟨mem, skb, promisc, hproto, hok, he⟩ := hQ
    exact ⟨True, .forward (Or.inl rfl) hproto hok he⟩
  forwardRreq _ _ _ hQ := by
    obtain ⟨mem, skb, promisc, hproto, hok, he⟩ := hQ
    exact ⟨True, .forward (Or.inr rfl) hproto hok he⟩
  notes _ _ hc hp hQ := by
    obtain ⟨mem, skb, promisc, hproto, hok, he⟩ := hQ
    exact ⟨mem, skb, promisc, hproto, hok, he.note hc hp⟩
  setDaddr _ a hQ := by
    obtain ⟨mem, skb, promisc, hproto, hok, he⟩ := hQ
    exact ⟨mem, skb, promisc, hproto, hok, he.setDaddr a⟩
  setSleft _ _ sleft hp hQ := by
    obtain ⟨mem, skb, promisc, hproto, hok, he⟩ := hQ
    exact ⟨mem, skb, promisc, hproto, hok, he.setSleft sleft hp⟩
  rreqAppend mem' me _ _ hp _ hQ := by
    obtain ⟨mem, skb, promisc, hproto, hok, he⟩ := hQ
    exact ⟨mem, skb, promisc, hproto, hok, he.rreqAppend mem' me hp⟩

theorem handed_environmental : Environmental HandedInv where
  init _ _ _ _ _ _ _ := ⟨fun _ he => absurd he List.not_mem_nil,
    fun _ hm => absurd hm List.not_mem_nil, fun _ he => absurd he List.not_mem_nil⟩
  env _ _ _ _ _ _ h := ⟨h.out, h.maintBuf, h.sendBuf⟩

def skbInput (_ : DsrNode) : Input → Prop
  | .startXmit skb => SkbOk skb
  | .recv _ skb => skb.iph.protocol = ipprotoDsr → SkbOk skb
  | _ => True

theorem handed_admits (s : DsrNode) (i : Input) (h : skbInput s i) :
    Admits HandedLocal HandedRecv s i := by
  cases i with
  | startXmit skb => exact ⟨s.kmem, skb, h, rfl⟩
  | recv promisc skb => exact fun hproto _ => ⟨s.kmem, skb, promisc, hproto, h hproto, .refl⟩
  | _ => trivial

theorem nodeReach_handed {s : DsrNode} (h : NodeReach skbInput s) : HandedInv s :=
  handed_recvClosed.reach handed_environmental handed_admits h

theorem nodeReach_lenOk_iff {s : DsrNode} (h : NodeReach skbInput s) :
    (∀ site dp due, .xmit site dp due ∈ s.out →
      ∃ c, Handed site c dp ∧ (LenOk dp ↔ Fits dp ∧ c)) ∧
    (∀ site f, .send site f ∈ s.out → ∃ c dp dp', Handed site c dp ∧ AckReqAdded dp dp' ∧
      f.skb = dsrSkbCreate dp' ∧ (LenOk dp' ↔ Fits dp' ∧ c)) := by
  have hinv := nodeReach_handed h
  refine ⟨fun site dp due he => ?_, fun site f he => ?_⟩
  · obtain ⟨c, hc⟩ := hinv.out _ he
    exact ⟨c, hc, hc.lenIff.iff⟩
  · obtain ⟨c, dp, dp', hc, hadd, hf⟩ := hinv.out _ he
    exact ⟨c, dp, dp', hc, hadd, hf, (hadd.lenIff hc.lenIff).iff⟩

instance (dp : DsrPkt) : Decidable (LenOk dp) :=
  decidable_of_iff (dp.pLen + dsrOptHdrLen = dp.optsLen ∧ (dp.iph.totLen : Int) = dp.ipLen)
    ⟨fun h => ⟨h.1, h.2⟩, fun h => ⟨h.pLen, h.totLen⟩⟩

instance (skb : Skb) : Decidable (SkbOk skb) :=
  decidable_of_iff (skb.iph.totLen < 65536 ∧ 4 * skb.iph.ihl + skbOptsLen skb ≤ skb.iph.totLen)
    ⟨fun h => ⟨h.1, h.2⟩, fun h => ⟨h.totLen, h.covers⟩⟩

instance (s : DsrNode) : ∀ i, Decidable (skbInput s i)
  | .startXmit skb => inferInstanceAs (Decidable (SkbOk skb))
  | .recv _ skb => inferInstanceAs (Decidable (skb.iph.protocol = ipprotoDsr → SkbOk skb))
  | .ackTimer | .sendBufTimer | .rreqTimer _ | .gratTimer | .flushLinkCache | .setVerdict _ _ => instDecidableTrue

def detourReply : Skb :=
  { hSource := 3
    iph := { ihl := 5, totLen := 44, ttl := 1, protocol := ipprotoDsr, saddr := detourHost 3
             daddr := detourHost 2 }
    data := [0, 0, 0, 20, 96, 2, 0, 0, 1, 13, 0, 0, 10, 0, 0, 5, 10, 0, 0, 6, 10, 0, 0, 4] }

def detourInputs : List (Timeval × Input) :=
  [(⟨100, 0⟩, .recv false detourReply), (⟨101, 0⟩, .recv false detourSkb), (⟨104, 0⟩, .ackTimer),
    (⟨107, 0⟩, .ackTimer)]

def salvagedBadly : Event → Bool
  | .xmit .salvage dp _ => ¬ LenOk dp
  | _ => false

def detourStart : DsrNode :=
  dsrNodeInit (detourHost 2) confvalsDef true 20 ⟨100, 0⟩ (fun _ => 0) 0

theorem detour_salvaged : ∃ s dp due, drive skbInput detourStart detourInputs = some s ∧
    .xmit .salvage dp due ∈ s.out ∧ ¬ LenOk dp := by
  have hrun : (drive skbInput detourStart detourInputs).any (fun s => s.out.any salvagedBadly) = true := by
    decide +kernel
  obtain ⟨s, hs, hbad⟩ := (Option.any_eq_true _ _).mp hrun
  obtain ⟨e, he, hb⟩ := List.any_eq_true.mp hbad
  unfold salvagedBadly at hb
  split at hb
  · next dp due => exact ⟨s, dp, due, hs, he, by simpa using hb⟩
  · cases hb

theorem nodeReach_not_lenOk : ¬ ∀ s, NodeReach skbInput s → ∀ site dp due,
    .xmit site dp due ∈ s.out → LenOk dp := by
  intro h
  obtain ⟨s, dp, due, hs, he, hbad⟩ := detour_salvaged
  exact hbad (h s (.drive _ (.init _ _ _ _ _ _ _) hs) _ dp due he)

theorem nodeReach_lenOk_iff_detour : ∃ s dp due, NodeReach skbInput s ∧
    .xmit .salvage dp due ∈ s.out ∧ ∃ c, Handed .salvage c dp ∧ (LenOk dp ↔ Fits dp ∧ c) := by
  obtain ⟨s, dp, due, hs, he, _⟩ := detour_salvaged
  have hreach : NodeReach skbInput s := .drive _ (.init _ _ _ _ _ _ _) hs
  exact ⟨s, dp, due, hreach, he, (nodeReach_lenOk_iff hreach).1 _ _ _ he⟩

end DsrUu
