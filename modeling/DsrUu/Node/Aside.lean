import DsrUu.Node.Lemmas

namespace DsrUu

open Effect

def Aside (E : Event → Prop) (s s' : DsrNode) : Prop :=
  ∃ lc nt b, s' = { s with lc := lc, neighTbl := nt, out := s.out ++ b } ∧ ∀ e ∈ b, E e

namespace Aside

variable {E : Event → Prop}

theorem refl (s : DsrNode) : Aside E s s :=
  ⟨s.lc, s.neighTbl, [], by rw [List.append_nil], fun _ he => absurd he List.not_mem_nil⟩

theorem trans {s₁ s₂ s₃ : DsrNode} (h₁ : Aside E s₁ s₂) (h₂ : Aside E s₂ s₃) : Aside E s₁ s₃ := by
  obtain ⟨lc₁, nt₁, b₁, rfl, he₁⟩ := h₁
  obtain ⟨lc₂, nt₂, b₂, rfl, he₂⟩ := h₂
  refine ⟨lc₂, nt₂, b₁ ++ b₂, by rw [List.append_assoc], fun e he => ?_⟩
  rcases List.mem_append.mp he with he | he
  · exact he₁ e he
  · exact he₂ e he

theorem held {s s' : DsrNode} (h : Aside E s s') (hs : s.held = []) : s'.held = [] := by
  obtain ⟨lc, nt, b, rfl, _⟩ := h
  exact hs

theorem ifaddr {s s' : DsrNode} (h : Aside E s s') : s'.ifaddr = s.ifaddr := by
  obtain ⟨lc, nt, b, rfl, _⟩ := h
  rfl

theorem kmem {s s' : DsrNode} (h : Aside E s s') : s'.kmem = s.kmem := by
  obtain ⟨lc, nt, b, rfl, _⟩ := h
  rfl

end Aside

def Total {α : Type} (R : α → DsrNode → DsrNode → Prop) (m : DsrM α) : Prop :=
  ∀ s, s.held = [] → wp m s (fun a s' => R a s s') fun _ => False

theorem Total.ok {α : Type} {R : α → DsrNode → DsrNode → Prop} {m : DsrM α} (h : Total R m)
    {s : DsrNode} (hs : s.held = []) : ∃ a s', m s = .ok a s' ∧ R a s s' :=
  ok_of_wp (h s hs)

theorem Total.ite {α : Type} {R : α → DsrNode → DsrNode → Prop} {c : Prop} [Decidable c]
    {m₁ m₂ : DsrM α} (h₁ : c → Total R m₁) (h₂ : ¬ c → Total R m₂) :
    Total R (if c then m₁ else m₂) := by
  split
  · next h => exact h₁ h
  · next h => exact h₂ h

abbrev Goes (E : Event → Prop) {α : Type} (m : DsrM α) : Prop := Total (fun _ => Aside E) m

section Goes

variable {E : Event → Prop} {α β : Type}

theorem Goes.bind {R : β → DsrNode → DsrNode → Prop} {m : DsrM α} {f : α → DsrM β}
    (hm : Goes E m) (hf : ∀ a, Total R (f a))
    (ht : ∀ b s₁ s₂ s₃, Aside E s₁ s₂ → R b s₂ s₃ → R b s₁ s₃) : Total R (m >>= f) := by
  intro s hs
  rw [wp_bind]
  exact wp_imp (hm s hs) fun a s' h' =>
    wp_imp (hf a s' (h'.held hs)) fun b s'' h'' => ht b s s' s'' h' h''

theorem Goes.seq {m : DsrM α} {f : α → DsrM β} (hm : Goes E m) (hf : ∀ a, Goes E (f a)) :
    Goes E (m >>= f) :=
  hm.bind hf fun _ _ _ _ => Aside.trans

theorem Goes.pure (a : α) : Goes E (pure a : DsrM α) := fun s _ => Aside.refl s

theorem Goes.read (f : DsrNode → α) : Goes E (do let s ← get; Pure.pure (f s) : DsrM α) :=
  fun s _ => Aside.refl s

theorem locked_goes {l : Lock} {m : DsrM α} (hm : ∀ s, wp m s (fun _ s' => ∃ lc nt,
    s' = { s with lc := lc, neighTbl := nt }) fun _ => False) : Goes E (locked l m) := by
  intro s hs
  refine wp_locked (fun _ => by rw [hs]; exact List.not_mem_nil) ?_
  refine wp_imp (hm (acquire l s)) fun a s' h' => ?_
  obtain ⟨lc, nt, rfl⟩ := h'
  refine ⟨lc, nt, [], ?_, fun _ he => absurd he List.not_mem_nil⟩
  unfold release acquire
  cases hk : s.locking <;> simp [hk]

theorem confValToUsecs_goes (cv : ConfVal) : Goes E (confValToUsecs cv) := Goes.read _

theorem dsrRtcAdd_goes (srt : DsrSrt) : Goes E (dsrRtcAdd srt) :=
  (confValToUsecs_goes _).seq fun _ => locked_goes fun s => ⟨_, s.neighTbl, rfl⟩

theorem rtcLinkAdd_goes (src dst : InAddr) : Goes E (rtcLinkAdd src dst) :=
  (confValToUsecs_goes _).seq fun _ => locked_goes fun s => ⟨_, s.neighTbl, rfl⟩

theorem neighTblFind_goes (addr : InAddr) : Goes E (neighTblFind addr) :=
  locked_goes fun s => ⟨s.lc, s.neighTbl, rfl⟩

theorem neighTblAdd_goes (addr : InAddr) (hw : HwAddr) : Goes E (neighTblAdd addr hw) := by
  refine (neighTblFind_goes addr).seq fun n => ?_
  cases n with
  | some _ => exact Goes.pure ()
  | none => exact locked_goes fun s => ⟨s.lc, _, rfl⟩

theorem neighTblQuery_goes (addr : InAddr) : Goes E (neighTblQuery addr) :=
  (confValToUsecs_goes _).seq fun _ => (neighTblFind_goes addr).seq fun _ => Goes.pure _

theorem srtOptCache_goes (me : InAddr) (mem : ℕ → UInt8) (dp : DsrPkt) (srt : DsrSrt) :
    Goes E (srtOptCache me mem dp srt) := by
  have hrest : Goes E (srtOptCacheSplit me mem dp srt) := by
    unfold srtOptCacheSplit
    split
    · exact dsrRtcAdd_goes _
    · split
      · exact Goes.pure ()
      · exact dsrRtcAdd_goes _
  refine Total.ite (fun _ => (Goes.pure ()).seq fun _ => hrest) fun _ => ?_
  exact (rtcLinkAdd_goes _ _).seq fun _ => hrest

theorem dsrHwHeaderCreate_goes (dp : DsrPkt) : Goes E (dsrHwHeaderCreate dp) := by
  unfold dsrHwHeaderCreate
  split
  · exact Goes.pure _
  · exact (Goes.read DsrNode.kmem).seq fun mem =>
      (neighTblQuery_goes _).seq fun info => Goes.pure _

theorem emit_goes {e : Event} (he : E e) : Goes E (emit e) :=
  fun s _ => ⟨s.lc, s.neighTbl, [e], rfl, fun _ h => List.mem_singleton.mp h ▸ he⟩

theorem devQueueXmit_goes {site : XmitSite} (hs : ∀ f, E (.send site f)) (dp : DsrPkt) :
    Goes E (devQueueXmit site dp) := by
  intro s hs'
  unfold devQueueXmit
  rw [wp_bind, wp_get]
  split
  · exact ((dsrHwHeaderCreate_goes dp).seq fun _ => emit_goes (hs _)) s hs'
  · exact Aside.refl s

theorem nsSchedule_goes {site : XmitSite} (hs : ∀ f, E (.send site f)) (dp : DsrPkt) :
    Goes E (nsSchedule site dp) := by
  have hdest : Goes E (nsPacketDest dp) := by
    refine Total.ite (fun _ => Goes.pure _) fun _ => ?_
    refine (neighTblQuery_goes dp.nxtHop).seq fun info => ?_
    cases info <;> exact Goes.pure _
  refine hdest.seq fun r => ?_
  cases r with
  | none => exact Goes.pure ()
  | some hw => exact Total.ite (fun _ => Goes.pure ()) fun _ => emit_goes (hs _)

theorem xmitVia_goes {setTimeout : DsrM Unit} {queue : XmitSite → DsrPkt → DsrM Unit}
    {site : XmitSite} {dp : DsrPkt} (hx : ∀ due, E (.xmit site dp due)) (hq : Goes E (queue site dp))
    (hack : dp.requestAck = false) : Goes E (xmitVia setTimeout queue site dp) := by
  intro s hs
  unfold xmitVia
  rw [wp_bind, wp_get, hack]
  refine ((emit_goes (hx _)).seq fun _ => ?_) s hs
  exact fun s hs => hq s hs

theorem xmit_goes {site : XmitSite} {dp : DsrPkt} (hx : ∀ due, E (.xmit site dp due))
    (hs : ∀ f, E (.send site f)) (hack : dp.requestAck = false) : Goes E (xmit site dp) := by
  intro s hs'
  rw [wp_congr (xmit_eq site dp s)]
  refine xmitVia_goes hx ?_ hack s hs'
  cases s.locking
  · exact nsSchedule_goes hs dp
  · exact devQueueXmit_goes hs dp

end Goes

end DsrUu
