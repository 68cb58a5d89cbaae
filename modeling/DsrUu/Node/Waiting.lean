import DsrUu.Node.Discovery
import DsrUu.Node.Handlers
import DsrUu.Node.LockOrder

namespace DsrUu

open Effect

def Cancels (T : InAddr → Prop) (e : Event) : Prop := ∀ a, e = .discovery a .cancelled → T a

structure Stocked (P : SendBufEntry → Prop) (T : InAddr → Prop) (s₀ s : DsrNode) : Prop where
  rreqTbl : s.rreqTbl = s₀.rreqTbl
  rreqBrk : s.rreqBrk = s₀.rreqBrk
  sendBuf : ∀ e ∈ s.sendBuf.head, e ∈ s₀.sendBuf.head ∨ P e
  out : Adds s₀ (Cancels T) s

def Inert {α : Type} (m : DsrM α) : Prop := ∀ P T s₀, Keeps (Stocked P T s₀) m

namespace Stocked

variable {P Q : SendBufEntry → Prop} {T : InAddr → Prop} {s₀ s : DsrNode}

theorem refl (P : SendBufEntry → Prop) (T : InAddr → Prop) (s : DsrNode) : Stocked P T s s :=
  ⟨rfl, rfl, fun _ h => .inl h, Adds.refl s _⟩

theorem mono (h : Stocked P T s₀ s) (hP : ∀ e, P e → Q e) : Stocked Q T s₀ s :=
  ⟨h.rreqTbl, h.rreqBrk, fun e he => (h.sendBuf e he).imp id (hP e), h.out⟩

theorem emits (h : Stocked P T s₀ s) {es : List Event} (hes : ∀ e ∈ es, Cancels T e) :
    Stocked P T s₀ { s with out := s.out ++ es } :=
  ⟨h.rreqTbl, h.rreqBrk, h.sendBuf, h.out.emits hes⟩

theorem emit (h : Stocked P T s₀ s) {e : Event} (he : Cancels T e) :
    Stocked P T s₀ { s with out := s.out ++ [e] } :=
  ⟨h.rreqTbl, h.rreqBrk, h.sendBuf, h.out.emit he⟩

theorem setSendBuf (h : Stocked P T s₀ s) {t : Tbl SendBufEntry} (ht : ∀ e ∈ t.head, e ∈ s.sendBuf.head ∨ P e) :
    Stocked P T s₀ { s with sendBuf := t } := by
  refine ⟨h.rreqTbl, h.rreqBrk, fun e he => ?_, h.out⟩
  rcases ht e he with he | he
  · exact h.sendBuf e he
  · exact .inr he

theorem drop (h : Stocked P T s₀ s) {t : Tbl SendBufEntry} (ht : ∀ e ∈ t.head, e ∈ s.sendBuf.head) :
    Stocked P T s₀ { s with sendBuf := t } :=
  h.setSendBuf fun e he => .inl (ht e he)

theorem quiet (P : SendBufEntry → Prop) (T : InAddr → Prop) (s₀ : DsrNode) : Quiet (Stocked P T s₀) where
  held _ _ h := ⟨h.rreqTbl, h.rreqBrk, h.sendBuf, h.out⟩
  lc _ _ _ _ _ h := ⟨h.rreqTbl, h.rreqBrk, h.sendBuf, h.out⟩
  neighTbl _ _ h := ⟨h.rreqTbl, h.rreqBrk, h.sendBuf, h.out⟩
  gratRrepTbl _ _ h := ⟨h.rreqTbl, h.rreqBrk, h.sendBuf, h.out⟩
  gratTimer _ _ h := ⟨h.rreqTbl, h.rreqBrk, h.sendBuf, h.out⟩
  ackTimer _ _ h := ⟨h.rreqTbl, h.rreqBrk, h.sendBuf, h.out⟩

theorem maintClosed (P : SendBufEntry → Prop) (T : InAddr → Prop) (s₀ : DsrNode) :
    MaintClosed (Stocked P T s₀) (fun _ _ => True) fun _ _ _ => True where
  toQuiet := quiet P T s₀
  carry _ _ _ _ _ := trivial
  retime _ _ _ _ _ _ := trivial
  entries _ _ _ _ := trivial
  maintBuf _ _ h _ := ⟨h.rreqTbl, h.rreqBrk, h.sendBuf, h.out⟩
  ackReqSend := by intros; trivial
  rerrSend := by intros; trivial
  salvage := by intros; trivial
  emitXmit _ _ _ h _ := h.emit nofun
  emitMaint _ _ h := h.emit nofun
  emitAckReq _ _ _ h := h.emit nofun
  newEntry := by intros; trivial
  emitSend _ _ _ _ _ _ _ _ h _ := h.emit nofun

end Stocked

theorem sendBuf_cancels {T : InAddr → Prop} {f : SendBufEntry → SendBufEvent} {es : List SendBufEntry} :
    ∀ e ∈ es.map fun e => Event.sendBuf (f e), Cancels T e := by
  intro _ he
  obtain ⟨_, -, rfl⟩ := List.mem_map.mp he
  exact nofun

namespace Inert

variable {α : Type}

theorem of_quiet {m : DsrM α} (h : ∀ {I}, Quiet I → Keeps I m) : Inert m := fun P T s₀ => h (Stocked.quiet P T s₀)

theorem of_runs {m : DsrM α} (h : ∀ P T s₀, Runs (Stocked P T s₀) m) : Inert m :=
  fun P T s₀ _ hs => wp_imp ((h P T s₀).since hs) fun _ _ h' => h'.1

theorem xmit (site : XmitSite) (dp : DsrPkt) : Inert (xmit site dp) := fun P T s₀ s hs =>
  wp_imp ((Stocked.maintClosed P T s₀).xmit_transmits s site dp hs trivial) fun _ _ h => h.1

theorem xmitPkt (site : XmitSite) (o : Option DsrPkt) : Inert (xmitPkt DsrUu.xmit site o) := by
  cases o with
  | none => exact fun _ _ _ => Keeps.pure ()
  | some dp => exact xmit site dp

theorem dsrRrepSend (srt srtToMe : DsrSrt) : Inert (dsrRrepSend DsrUu.xmit srt srtToMe) := fun P T s₀ =>
  Keeps.bind kmalloc_keeps fun _ => Keeps.bind myAddr_keeps fun _ => xmitPkt _ _ P T s₀

theorem dsrAckSend (dst : InAddr) (id : ℕ) : Inert (dsrAckSend DsrUu.xmit dst id) := fun P T s₀ =>
  Keeps.bind kmalloc_keeps fun _ => Keeps.bind myAddr_keeps fun _ => xmitPkt _ _ P T s₀

theorem emit {e : Event} (h : ∀ a, e ≠ .discovery a .cancelled) : Inert (emit e) :=
  fun _ _ _ => Keeps.modify fun _ hs => hs.emit fun a he => absurd he (h a)

theorem emitSendBuf (f : SendBufEntry → SendBufEvent) (es : List SendBufEntry) : Inert (emitSendBuf f es) :=
  fun _ _ _ => Keeps.modify fun _ h => h.emits sendBuf_cancels

theorem setSendBufTimer (t : Option Timeval) : Inert (setSendBufTimer t) :=
  fun _ _ _ => Keeps.modify fun _ h => ⟨h.rreqTbl, h.rreqBrk, h.sendBuf, h.out⟩

theorem maintBufDelAll (nxtHop : InAddr) : Inert (maintBufDelAll nxtHop) :=
  of_runs fun P T s₀ => (Stocked.maintClosed P T s₀).maintBufDelAll_runs nxtHop

theorem maintBufDelAllId (nxtHop : InAddr) (id : ℕ) : Inert (maintBufDelAllId nxtHop id) :=
  of_runs fun P T s₀ => (Stocked.maintClosed P T s₀).maintBufDelAllId_runs nxtHop id

theorem maintBufTimeout : Inert maintBufTimeout :=
  of_runs fun P T s₀ => (Stocked.maintClosed P T s₀).maintBufTimeout_runs

theorem sendBufDropLoop (dst : InAddr) (fuel : ℕ) : ∀ first, Inert (sendBufDropLoop dst fuel first) := by
  induction fuel with
  | zero => exact fun _ _ _ _ => Keeps.throw Stop.hang
  | succ fuel ih =>
    intro first P T s₀
    apply Keeps.get_bind
    intro s hs
    cases hf : s.sendBuf.findDetach fun e => e.dp.dst = dst with
    | none => exact hs
    | some q =>
      obtain ⟨e, t⟩ := q
      have hrest : Keeps (Stocked P T s₀) (do
          DsrUu.emitSendBuf .dropped [e]
          DsrUu.sendBufDropLoop dst fuel false) :=
        Keeps.bind (emitSendBuf _ _ P T s₀) fun _ => ih false P T s₀
      dsimp only
      rw [wp_bind, wp_setSendBuf]
      refine Keeps.ite (I := Stocked P T s₀) (fun _ => ?_) (fun _ => hrest) _ (hs.drop (Tbl.findDetach_mem hf).2)
      exact Keeps.bind (emit (fun _ he => by cases he) P T s₀) fun _ => hrest

theorem sendBufSendOne (e : SendBufEntry) : Inert (sendBufSendOne e) := by
  intro P T s₀
  apply Keeps.bind kmalloc_keeps
  intro mem
  apply Keeps.bind ((Stocked.quiet P T s₀).dsrRtcFind _ _)
  intro found
  cases found with
  | none => exact emitSendBuf _ _ P T s₀
  | some srt =>
    dsimp only
    split
    · exact emitSendBuf _ _ P T s₀
    · exact Keeps.bind (xmit _ _ P T s₀) fun _ => emitSendBuf _ _ P T s₀

theorem sendBufSendLoop (dst : InAddr) (fuel : ℕ) : Inert (sendBufSendLoop dst fuel) := by
  induction fuel with
  | zero => exact fun _ _ _ => Keeps.throw Stop.hang
  | succ fuel ih =>
    intro P T s₀
    apply Keeps.get_bind
    intro s hs
    cases hf : s.sendBuf.findDetach fun e => e.dp.dst = dst with
    | none => exact hs
    | some q =>
      obtain ⟨e, t⟩ := q
      dsimp only
      rw [wp_bind, wp_setSendBuf]
      exact Keeps.bind (sendBufSendOne e P T s₀) (fun _ => ih P T s₀) _ (hs.drop (Tbl.findDetach_mem hf).2)

theorem sendBufSetVerdict (verdict : Verdict) (dst : InAddr) : Inert (sendBufSetVerdict verdict dst) := by
  intro P T s₀
  apply (Stocked.quiet P T s₀).locked
  apply Keeps.get_bind
  intro s hs
  cases verdict with
  | drop => exact sendBufDropLoop dst _ true P T s₀ s hs
  | send => exact sendBufSendLoop dst _ P T s₀ s hs

theorem sendBufTimeout : Inert sendBufTimeout := by
  intro P T s₀
  have hq := Stocked.quiet P T s₀
  refine Keeps.bind (setSendBufTimer none P T s₀) fun _ => Keeps.bind gettime_keeps fun now => ?_
  refine Keeps.bind (confValToUsecs_keeps _) fun timeout => Keeps.bind (hq.locked ?_) fun _ => ?_
  · apply Keeps.get_bind
    intro s hs
    exact (hs.drop fun e he => List.mem_of_mem_filter he).emits sendBuf_cancels
  · refine Keeps.bind (hq.locked (keeps_read _)) fun first => ?_
    cases first with
    | none => exact Keeps.pure ()
    | some e => exact setSendBufTimer _ P T s₀

theorem dsrRerrOptRecv (dp : DsrPkt) (p : OptPtr) : Inert (dsrRerrOptRecv dp p) := by
  intro P T s₀
  apply Keeps.ite
  · intro _
    apply Keeps.bind (maintBufDelAll _ P T s₀)
    exact fun _ => Keeps.bind ((Stocked.quiet P T s₀).rtcLinkDel _ _) fun _ => Keeps.pure _
  · exact fun _ => Keeps.pure _

theorem dsrAckOptRecv (dp : DsrPkt) (p : OptPtr) : Inert (dsrAckOptRecv dp p) := by
  intro P T s₀
  apply Keeps.bind myAddr_keeps
  intro me
  apply Keeps.ite
  · exact fun _ => Keeps.pure _
  · exact fun _ => Keeps.bind (maintBufDelAllId _ _ P T s₀) fun _ => Keeps.pure _

theorem dsrAckReqOptRecv (dp : DsrPkt) (p : OptPtr) : Inert (dsrAckReqOptRecv dp p) := by
  intro P T s₀
  apply Keeps.ite
  · exact fun _ => Keeps.pure _
  · exact fun _ => Keeps.bind (dsrAckSend _ _ P T s₀) fun _ => Keeps.pure _

theorem srtOptCache (me : InAddr) (mem : ℕ → UInt8) (dp : DsrPkt) (srt : DsrSrt) :
    Inert (srtOptCache me mem dp srt) := by
  intro P T s₀
  have hq := Stocked.quiet P T s₀
  have hsplit : Keeps (Stocked P T s₀) (DsrUu.srtOptCacheSplit me mem dp srt) := by
    apply Keeps.ite
    · exact fun _ => hq.dsrRtcAdd _
    · intro _
      split
      · exact Keeps.pure ()
      · exact hq.dsrRtcAdd _
  apply Keeps.ite
  · exact fun _ => Keeps.bind (Keeps.pure ()) fun _ => hsplit
  · exact fun _ => Keeps.bind (hq.rtcLinkAdd _ _) fun _ => hsplit

theorem automaticRouteShortening (me next : InAddr) (sleft : ℕ) (dp : DsrPkt) (srt : DsrSrt) :
    Inert (automaticRouteShortening me next sleft dp srt) := by
  intro P T s₀
  have hq := Stocked.quiet P T s₀
  refine Keeps.bind (confVal_keeps _) fun enabled => Keeps.ite (fun _ => ?_) fun _ => Keeps.pure _
  refine Keeps.bind (hq.gratRrepTblFind _ _) fun found => Keeps.ite (fun _ => Keeps.pure _) fun _ => ?_
  apply Keeps.bind kmalloc_keeps
  intro mem
  dsimp only
  split
  · exact Keeps.pure _
  · apply Keeps.bind (hq.gratRrepTblAdd _ _)
    exact fun _ => Keeps.bind (dsrRrepSend _ _ P T s₀) fun _ => Keeps.pure _

theorem dsrSrtOptRecv (dp : DsrPkt) (p : OptPtr) : Inert (dsrSrtOptRecv dp p) := by
  intro P T s₀
  refine Keeps.bind myAddr_keeps fun me => Keeps.bind kmalloc_keeps fun mem => ?_
  refine Keeps.bind ((Stocked.quiet P T s₀).neighTblAdd _ _) fun _ => ?_
  refine Keeps.bind (srtOptCache _ _ _ _ P T s₀) fun _ => ?_
  refine Keeps.bind (automaticRouteShortening _ _ _ _ _ P T s₀) fun ok => ?_
  refine Keeps.ite (fun _ => Keeps.pure _) fun _ => Keeps.ite (fun _ => Keeps.pure _) fun _ => ?_
  exact Keeps.ite (fun _ => Keeps.pure _) fun _ => Keeps.pure _

theorem sendBuffered (dp : DsrPkt) (ps : List OptPtr) : Inert (sendBuffered dp ps) := by
  intro P T s₀
  induction ps with
  | nil => exact Keeps.pure ()
  | cons p ps ih => exact Keeps.bind (sendBufSetVerdict _ _ P T s₀) fun _ => ih

theorem dispatch (dp : DsrPkt) (action order : List DsrPktAction) : Inert (dispatch dp action order) := by
  intro P T s₀
  induction order with
  | nil => exact Keeps.pure ()
  | cons a rest ih =>
    refine Keeps.ite (fun _ => ?_) fun _ => ih
    cases a with
    | drop => exact Keeps.pure ()
    | error => exact Keeps.pure ()
    | forward => exact Keeps.ite (fun _ => Keeps.pure ()) fun _ => xmit _ _ P T s₀
    | forwardRreq => exact xmit _ _ P T s₀
    | sendBuffered => exact Keeps.bind (sendBuffered dp _ P T s₀) fun _ => ih
    | deliver => exact emit (fun _ he => by cases he) P T s₀
    | none => exact ih
    | srtRemove => exact ih
    | sendIcmp => exact ih
    | sendRrep => exact ih
    | sendAck => exact ih

end Inert

def Searching (s : DsrNode) (d : InAddr) : Prop :=
  ∃ r ∈ s.rreqTbl.head, r.nodeAddr = d ∧ r.state = .inRouteDisc ∧ r.timer.isSome

def SearchEnded (s : DsrNode) (d : InAddr) (n : ℕ) : Prop :=
  ∃ k status, n ≤ k ∧ s.out[k]? = some (.discovery d status) ∧ status ≠ .started

structure Waiting (D : InAddr → Prop) (s : DsrNode) : Prop where
  wf : RreqWf s
  timed : ∀ r ∈ s.rreqTbl.head, r.state = .inRouteDisc → r.timer.isSome
  born : ∀ e ∈ s.sendBuf.head, e.born ≤ s.out.length
  lookedFor : ∀ e ∈ s.sendBuf.head, D e.dp.dst → Searching s e.dp.dst ∨ SearchEnded s e.dp.dst e.born

structure DiscEdit (f : RreqTblEntry → RreqTblEntry) : Prop where
  addr : ∀ e, (f e).nodeAddr = e.nodeAddr
  ref : ∀ e, (f e).ref = e.ref
  timed : ∀ e, (e.state = .inRouteDisc → e.timer.isSome) → (f e).state = .inRouteDisc → (f e).timer.isSome

section Edits

theorem id_edit : DiscEdit id := ⟨fun _ => rfl, fun _ => rfl, fun _ h => h⟩

theorem noteId_state (now : Timeval) (i : IdEntry) (e : RreqTblEntry) :
    (noteId now i e).state = e.state ∧ (noteId now i e).timer = e.timer ∧ (noteId now i e).nodeAddr = e.nodeAddr := by
  unfold noteId
  split <;> exact ⟨rfl, rfl, rfl⟩

theorem noteId_edit (now : Timeval) (i : IdEntry) : DiscEdit (noteId now i) where
  addr e := (noteId_state now i e).2.2
  ref := noteId_ref now i
  timed e h := by
    obtain ⟨hs, ht, -⟩ := noteId_state now i e
    rw [hs, ht]
    exact h

theorem startDisc_edit (now : Timeval) (timeout : ℕ) : DiscEdit (startDisc now timeout) :=
  ⟨fun _ => rfl, fun _ => rfl, fun _ _ _ => rfl⟩

theorem retryDisc_edit (now : Timeval) (maxPeriod : ℕ) : DiscEdit (retryDisc now maxPeriod) :=
  ⟨fun _ => rfl, fun _ => rfl, fun _ _ _ => rfl⟩

theorem stopDisc_edit (now : Timeval) : DiscEdit (stopDisc now) :=
  ⟨fun _ => rfl, fun _ => rfl, fun _ _ h => nomatch h⟩

theorem giveUpDisc_edit : DiscEdit giveUpDisc := ⟨fun _ => rfl, fun _ => rfl, fun _ _ h => nomatch h⟩

end Edits

section Waiting

variable {D D' T : InAddr → Prop} {P : SendBufEntry → Prop} {s s' : DsrNode} {a d : InAddr} {n : ℕ}
  {f : RreqTblEntry → RreqTblEntry}

theorem SearchEnded.later (h : SearchEnded s d n) (hout : s.out <+: s'.out) : SearchEnded s' d n := by
  obtain ⟨k, status, hn, hk, hst⟩ := h
  obtain ⟨b, hb⟩ := hout
  refine ⟨k, status, hn, ?_, hst⟩
  rw [← hb, List.getElem?_append_left (List.getElem?_eq_some_iff.mp hk).1]
  exact hk

theorem SearchEnded.emitted {status : DiscStatus} (hst : status ≠ .started) (hn : n ≤ s.out.length) :
    SearchEnded (s.emits [.discovery d status]) d n :=
  ⟨s.out.length, status, hn, List.getElem?_concat_length, hst⟩

theorem Waiting.mono (h : Waiting D s) (hD : ∀ d, D' d → D d) : Waiting D' s :=
  ⟨h.wf, h.timed, h.born, fun e he hd => h.lookedFor e he (hD _ hd)⟩

theorem Waiting.stocked (h : Waiting D s) (hs : Stocked P T s s')
    (hP : ∀ e, P e → ¬ D e.dp.dst ∧ e.born ≤ s.out.length) : Waiting D s' where
  wf := by
    obtain ⟨pos, len, bound, addrs, refs, brk⟩ := h.wf
    rw [← hs.rreqTbl] at pos len bound addrs refs brk
    rw [← hs.rreqBrk] at brk
    exact ⟨pos, len, bound, addrs, refs, brk⟩
  timed := by
    rw [hs.rreqTbl]
    exact h.timed
  born e he := by
    refine Nat.le_trans ?_ hs.out.grows.length_le
    rcases hs.sendBuf e he with he | he
    · exact h.born e he
    · exact (hP e he).2
  lookedFor e he hd := by
    rcases hs.sendBuf e he with he | he
    · refine (h.lookedFor e he hd).imp ?_ fun hend => hend.later hs.out.grows
      unfold Searching
      rw [hs.rreqTbl]
      exact id
    · exact absurd hd (hP e he).1

theorem Waiting.inert (h : Waiting D s) (hs : Stocked (fun _ => False) T s s') : Waiting D s' :=
  h.stocked hs fun _ he => he.elim

theorem Waiting.entry (h : Waiting D s) (a : InAddr) :
    (s.rreqEntry a).state = .inRouteDisc → (s.rreqEntry a).timer.isSome := by
  unfold DsrNode.rreqEntry
  cases hf : s.rreqFind a with
  | none => exact fun hst => nomatch hst
  | some e => exact h.timed e (rreqFind_mem hf).1

theorem Searching.entry (hs : Searching s a) (h : RreqWf s) : (s.rreqEntry a).state = .inRouteDisc := by
  obtain ⟨r, hr, rfl, hst, -⟩ := hs
  rw [DsrNode.rreqEntry, rreqFind_of_mem h hr, Option.getD_some]
  exact hst

theorem Waiting.searching (h : Waiting D s) (hf : DiscEdit f) (hst : (f (s.rreqEntry a)).state = .inRouteDisc) :
    Searching (s.touched a f) a :=
  ⟨f (s.rreqEntry a), List.mem_append_right _ (List.mem_singleton_self _), (hf.addr _).trans (rreqEntry_addr s a),
    hst, hf.timed _ (h.entry a) hst⟩

theorem Searching.elsewhere (hs : Searching s d) (h : RreqWf s) (hd : d ≠ a) (hn : n ≤ s.out.length) :
    Searching (s.touched a f) d ∨ SearchEnded (s.touched a f) d n := by
  obtain ⟨r, hr, rfl, hst, ht⟩ := hs
  rcases rreqEvicted_cases h a with ⟨-, ho⟩ | ⟨g, rest, -, hh, he, ho⟩
  · refine .inl ⟨r, List.mem_append_left _ ?_, rfl, hst, ht⟩
    rw [ho]
    exact List.mem_filter.mpr ⟨hr, decide_eq_true hd⟩
  · rw [hh] at hr
    rcases List.mem_cons.mp hr with rfl | hr
    · refine .inr ⟨s.out.length, .evicted, hn, ?_, nofun⟩
      change (s.out ++ s.rreqEvicted a)[s.out.length]? = _
      rw [he]
      exact List.getElem?_concat_length
    · exact .inl ⟨r, List.mem_append_left _ (ho ▸ hr), rfl, hst, ht⟩

theorem Waiting.touched (h : Waiting (· ≠ a) s) (hf : DiscEdit f)
    (hown : ∀ e ∈ s.sendBuf.head, e.dp.dst = a → Searching (s.touched a f) a ∨ SearchEnded s a e.born) :
    Waiting (fun _ => True) (s.touched a f) := by
  have hout : s.out <+: (s.touched a f).out := List.prefix_append _ _
  refine ⟨h.wf.touched a hf.addr hf.ref, fun r hr => ?_, fun e he => ?_, fun e he _ => ?_⟩
  · rcases List.mem_append.mp hr with hr | hr
    · exact h.timed r (mem_rreqOthers hr).1
    · obtain rfl := List.mem_singleton.mp hr
      exact hf.timed _ (h.entry a)
  · exact Nat.le_trans (h.born e he) hout.length_le
  · by_cases hd : e.dp.dst = a
    · rw [hd]
      exact (hown e he hd).imp id fun hend => hend.later hout
    · rcases h.lookedFor e he hd with hs | hend
      · exact hs.elsewhere h.wf hd (h.born e he)
      · exact .inr (hend.later hout)

theorem Waiting.sought (h : Waiting (· ≠ a) s) (hf : DiscEdit f) (hst : (f (s.rreqEntry a)).state = .inRouteDisc) :
    Waiting (fun _ => True) (s.touched a f) :=
  h.touched hf fun _ _ _ => .inl (h.searching hf hst)

theorem Waiting.kept (h : Waiting (fun _ => True) s) (hf : DiscEdit f) (hst : ∀ e, (f e).state = e.state) :
    Waiting (fun _ => True) (s.touched a f) := by
  refine (h.mono fun _ _ => trivial).touched hf fun e he hd => ?_
  rcases h.lookedFor e he trivial with hs | hend
  · rw [hd] at hs
    exact .inl (h.searching hf ((hst _).trans (hs.entry h.wf)))
  · rw [hd] at hend
    exact .inr hend

theorem Waiting.ended {status : DiscStatus} (h : Waiting (fun _ => True) s) (hst : status ≠ .started)
    (hf : DiscEdit f) :
    Waiting (fun _ => True) ((s.emits [.discovery a status]).touched a f) := by
  have h' : Waiting (fun _ => True) (s.emits [.discovery a status]) :=
    h.inert ((Stocked.refl _ (fun _ => True) s).emit fun _ _ => trivial)
  exact (h'.mono fun _ _ => trivial).touched hf fun e he _ => .inr (.emitted hst (h.born e he))

theorem RreqSent.stocked {target : InAddr} {ttl : ℕ} (h : RreqSent target ttl s s') : Stocked P T s s' := by
  obtain ⟨dp, due, tail, -, rfl, htail⟩ := h.dp
  refine ⟨rfl, rfl, fun _ he => .inl he, _, rfl, List.forall_mem_cons.mpr ⟨nofun, fun e he => ?_⟩⟩
  obtain ⟨f, rfl⟩ := htail e he
  exact nofun

theorem RreqSent.held {target : InAddr} {ttl : ℕ} (h : RreqSent target ttl s s') : s'.held = s.held := by
  obtain ⟨dp, due, tail, -, rfl, -⟩ := h.dp
  rfl

theorem RreqWf.touched_adds (h : RreqWf s) (a : InAddr) (f : RreqTblEntry → RreqTblEntry) :
    Adds s (Cancels T) (s.touched a f) := by
  refine ⟨s.rreqEvicted a, rfl, fun e he b hb => ?_⟩
  obtain ⟨d, rfl⟩ := evicted_shape h he
  cases hb

end Waiting

structure AtRest (P : SendBufEntry → Prop) (T : InAddr → Prop) (s₀ s : DsrNode) : Prop where
  waiting : Waiting (fun _ => True) s
  held : s.held = []
  sendBuf : ∀ e ∈ s.sendBuf.head, e ∈ s₀.sendBuf.head ∨ P e
  cancels : Adds s₀ (Cancels T) s

section AtRest

variable {P : SendBufEntry → Prop} {T : InAddr → Prop} {s₀ s s' : DsrNode} {a : InAddr} {f : RreqTblEntry → RreqTblEntry}

theorem AtRest.start (hw : Waiting (fun _ => True) s) (hl : s.held = []) : AtRest P T s s :=
  ⟨hw, hl, fun _ => .inl, Adds.refl s _⟩

theorem AtRest.inert (h : AtRest P T s₀ s) (hs : Stocked (fun _ => False) T s s') (hl : s'.held = s.held) :
    AtRest P T s₀ s' :=
  ⟨h.waiting.inert hs, hl.trans h.held, fun e he => h.sendBuf e ((hs.sendBuf e he).resolve_right id),
    h.cancels.trans hs.out⟩

theorem AtRest.touched (h : AtRest P T s₀ s) (hw : Waiting (fun _ => True) (s.touched a f)) :
    AtRest P T s₀ (s.touched a f) :=
  ⟨hw, h.held, h.sendBuf, h.cancels.trans (h.waiting.wf.touched_adds a f)⟩

theorem Inert.atRest {α : Type} {m : DsrM α} (hm : Inert m) {B : Blame} {n : ℕ} (ht : Tidy B n m) :
    Keeps (AtRest P T s₀) m := by
  intro s h
  apply wp_of_ok
  intro r s' hrun
  have hs : Stocked (fun _ => False) T s s' := wp_ok (hm _ T s s (Stocked.refl _ T s)) hrun
  have hu : Unwound s s' := outcome_ok (ht s (Below.of_nil h.held)) hrun
  exact h.inert hs hu.held

theorem rreqTblAddId_atRest (initiator target : InAddr) (id : ℕ) :
    Keeps (AtRest P T s₀) (rreqTblAddId initiator target id) := by
  intro s h
  apply wp_mono (rreqTblAddId_wp h.waiting.wf h.held target id)
  · rintro _ _ rfl
    exact h.touched (h.waiting.kept (noteId_edit _ _) fun e => (noteId_state _ _ e).1)
  · exact fun _ _ => trivial

theorem rreqTblRouteDiscoveryCancel_atRest {dst : InAddr} (hT : T dst) :
    Keeps (AtRest P T s₀) (rreqTblRouteDiscoveryCancel dst) := by
  intro s h
  have hcancel : Cancels T (.discovery dst .cancelled) := by
    rintro _ ⟨⟩
    exact hT
  have h' : AtRest P T s₀ (s.emits [.discovery dst .cancelled]) := h.inert ((Stocked.refl _ T s).emit hcancel) rfl
  apply wp_mono (rreqTblRouteDiscoveryCancel_wp h.waiting.wf h.held)
  · rintro _ s' ⟨hnone, hsome⟩
    by_cases hf : s.rreqFind dst = none
    · rw [hnone hf]
      exact h'
    · rw [hsome hf]
      exact h'.touched (h.waiting.ended nofun (stopDisc_edit _))
  · exact fun _ _ => trivial

theorem rreqTblTimeout_atRest (h : AtRest P T s₀ s) {e : RreqTblEntry} (he : e ∈ s.rreqTbl.head) :
    wp (rreqTblTimeout e.ref) s (fun _ s' => AtRest P T s₀ s') fun _ => True := by
  apply wp_mono (rreqTblTimeout_wp h.waiting.wf h.held he)
  · rintro _ s' ⟨hmax, hretry⟩
    rcases Nat.lt_or_ge e.numRexmts (s.confvals .maxRequestRexmt) with hlt | hge
    · obtain ⟨s₁, hsent, rfl⟩ := hretry hlt
      have h₁ := h.inert hsent.stocked hsent.held
      exact h₁.touched (h₁.waiting.kept (retryDisc_edit _ _) fun _ => rfl)
    · rw [hmax hge]
      have h' : AtRest P T s₀ (s.emits [.discovery e.nodeAddr .maxRexmt]) :=
        h.inert ((Stocked.refl _ T s).emit fun _ he => by cases he) rfl
      exact h'.touched (h.waiting.ended nofun giveUpDisc_edit)
  · exact fun _ _ => trivial

theorem dsrRreqRouteDiscovery_atRest (hw : Waiting (· ≠ a) s) (hl : s.held = [])
    (hb : ∀ e ∈ s.sendBuf.head, e ∈ s₀.sendBuf.head ∨ P e) (ha : Adds s₀ (Cancels T) s) :
    wp (dsrRreqRouteDiscovery a) s (fun _ s' => AtRest P T s₀ s') fun _ => True := by
  have hsought : ∀ {f}, DiscEdit f → (f (s.rreqEntry a)).state = .inRouteDisc → AtRest P T s₀ (s.touched a f) :=
    fun hf hst => ⟨hw.sought hf hst, hl, hb, ha.trans (hw.wf.touched_adds a _)⟩
  apply wp_mono (dsrRreqRouteDiscovery_wp hw.wf hl)
  · rintro _ s' ⟨hin, hstart⟩
    by_cases hst : (s.rreqEntry a).state = .inRouteDisc
    · rw [hin hst]
      exact hsought id_edit hst
    · have hsent := hstart hst
      have h₁ := hsought (startDisc_edit s.now (nonpropUsecs s)) rfl
      have h₂ := h₁.inert ((Stocked.refl _ T _).emit (e := .discovery a .started) fun _ he => by cases he) rfl
      exact h₂.inert hsent.stocked hsent.held
  · exact fun _ _ => trivial

end AtRest

section Enqueue

variable {s₀ s : DsrNode} {T : InAddr → Prop} {α : Type}

theorem wp_locked_of_ok {l : Lock} {m : DsrM α} {Q : α → DsrNode → Prop}
    (hm : wp m (acquire l s) (fun r s' => Q r (release l s')) fun _ => True) : wp (locked l m) s Q fun _ => True := by
  apply wp_of_ok
  intro r s' hrun
  obtain ⟨s₁, hok, rfl, -⟩ := locked_ok hrun
  exact wp_ok hm hok

theorem Stocked.addTail {P : SendBufEntry → Prop} (hs : Stocked P T s₀ s) {e : SendBufEntry} {t : Tbl SendBufEntry}
    (ht : s.sendBuf.addTail e = some t) (he : P e) : Stocked P T s₀ { s with sendBuf := t } := by
  obtain ⟨-, rfl⟩ := Tbl.addTail_eq_some ht
  refine hs.setSendBuf fun x hx => ?_
  rcases List.mem_append.mp hx with hx | hx
  · exact .inl hx
  · obtain rfl := List.mem_singleton.mp hx
    exact .inr he

theorem sendBufEvict_inert : Inert sendBufEvict := by
  intro P T s₀
  apply Keeps.get_bind
  intro s hs
  cases hd : s.sendBuf.detachFirst with
  | none => exact hs
  | some q => exact (hs.drop (Tbl.detachFirst_mem hd).2).emit nofun

theorem sendBufAddAgain_wp (hs : Stocked (fun _ => False) T s₀ s) (e : SendBufEntry) :
    wp (sendBufAddAgain e) s (fun res s' => Stocked (fun x => res = true ∧ x = e) T s₀ s') fun _ => True := by
  apply wp_locked_of_ok
  have ha := (Stocked.quiet _ T s₀).acquire .sendBuf hs
  rw [wp_bind, wp_get]
  cases hadd : (acquire .sendBuf s).sendBuf.addTail e with
  | some t =>
    exact (Stocked.quiet _ T s₀).release .sendBuf ((ha.mono fun _ h => h.elim).addTail hadd ⟨rfl, rfl⟩)
  | none => exact (Stocked.quiet _ T s₀).release .sendBuf ((ha.mono fun _ h => h.elim).emit nofun)

theorem sendBufEnqueuePacket_wp (s : DsrNode) (dp : DsrPkt) :
    wp (sendBufEnqueuePacket dp) s
      (fun res s' => Stocked (fun e => res = true ∧ e.dp = dp ∧ e.born = s.out.length) T s s') fun _ => True := by
  unfold sendBufEnqueuePacket
  simp only [gettime, confValToUsecs, confVal, emitSendBuf, wp_bind, wp_get, wp_pure, wp_modify]
  have hs := (Stocked.refl (fun _ => False) T s).emit
    (e := .sendBuf (.given { dp := dp, qtime := s.now, born := s.out.length })) nofun
  apply wp_imp (Q := fun q s' => Stocked (fun e => q.2 = true ∧ e.dp = dp ∧ e.born = s.out.length) T s s')
  · apply wp_locked_of_ok
    have ha := (Stocked.quiet _ T s).acquire .sendBuf hs
    rw [wp_bind, wp_get]
    split
    · next t hadd =>
      exact (Stocked.quiet _ T s).release .sendBuf ((ha.mono fun _ h => h.elim).addTail hadd ⟨rfl, rfl, rfl⟩)
    · rw [wp_bind]
      apply wp_imp (sendBufEvict_inert _ T s _ ha)
      intro _ s₁ hs₁
      rw [wp_bind]
      apply wp_imp (sendBufAddAgain_wp hs₁ _)
      intro res s₂ hs₂
      apply (Stocked.quiet _ T s).release .sendBuf
      refine hs₂.mono ?_
      rintro _ ⟨hres, rfl⟩
      exact ⟨hres, rfl, rfl⟩
  · rintro ⟨empty, res⟩ s' hs'
    dsimp only at hs' ⊢
    split
    · exact ⟨hs'.rreqTbl, hs'.rreqBrk, hs'.sendBuf, hs'.out⟩
    · exact hs'

end Enqueue

section Handlers

variable {P : SendBufEntry → Prop} {T : InAddr → Prop} {s₀ : DsrNode}

theorem dsrRtcFind_atRest (src dst : InAddr) : Keeps (AtRest P T s₀) (dsrRtcFind src dst) :=
  (Inert.of_quiet fun hq => hq.dsrRtcFind src dst).atRest (B := .never) (Tidy.dsrRtcFind src dst)

theorem dsrRtcAdd_atRest (srt : DsrSrt) : Keeps (AtRest P T s₀) (dsrRtcAdd srt) :=
  (Inert.of_quiet fun hq => hq.dsrRtcAdd srt).atRest (B := .never) (Tidy.dsrRtcAdd srt)

theorem neighTblAdd_atRest (addr : InAddr) (hSource : HwAddr) : Keeps (AtRest P T s₀) (neighTblAdd addr hSource) :=
  (Inert.of_quiet fun hq => hq.neighTblAdd addr hSource).atRest (B := .never) (Tidy.neighTblAdd addr hSource)

theorem dsrRreqDuplicate_atRest (initiator target : InAddr) (id : ℕ) :
    Keeps (AtRest P T s₀) (dsrRreqDuplicate initiator target id) :=
  (Inert.of_quiet fun hq => hq.locked (keeps_read _)).atRest (B := .never) (Tidy.dsrRreqDuplicate initiator target id)

theorem dsrRrepSend_atRest (srt srtToMe : DsrSrt) : Keeps (AtRest P T s₀) (dsrRrepSend xmit srt srtToMe) :=
  (Inert.dsrRrepSend srt srtToMe).atRest (B := .never) (Tidy.dsrRrepSend Tidy.xmit_sends srt srtToMe)

theorem sendBufSetVerdict_atRest (verdict : Verdict) (dst : InAddr) : Keeps (AtRest P T s₀) (sendBufSetVerdict verdict dst) :=
  (Inert.sendBufSetVerdict verdict dst).atRest (Tidy.sendBufSetVerdict verdict dst)

theorem dsrStartXmit_atRest (hP : ∀ e, s₀.out.length ≤ e.born → P e) (dp : DsrPkt) :
    Keeps (AtRest P T s₀) (dsrStartXmit dp) := by
  apply Keeps.bind kmalloc_keeps
  intro mem
  apply Keeps.bind (dsrRtcFind_atRest _ _)
  intro found
  cases found with
  | some srt => exact (Inert.xmitPkt _ _).atRest (Tidy.xmitPkt fun dp' _ => Tidy.xmit_sends.top _ dp')
  | none =>
    intro s h
    have hheld := Tidy.sendBufEnqueuePacket dp s (Below.of_nil h.held)
    dsimp only
    rw [wp_bind]
    apply wp_of_ok
    intro res s₁ hrun
    have hl : s₁.held = s.held := (outcome_ok hheld hrun).held
    have hs₁ := wp_ok (sendBufEnqueuePacket_wp (T := T) s dp) hrun
    cases res with
    | true =>
      have hw : Waiting (· ≠ dp.dst) s₁ := (h.waiting.mono fun _ _ => trivial).stocked hs₁ fun e he =>
        ⟨fun hne => hne (congrArg DsrPkt.dst he.2.1), he.2.2.le⟩
      refine dsrRreqRouteDiscovery_atRest hw (hl.trans h.held) (fun e he => ?_) (h.cancels.trans hs₁.out)
      rcases hs₁.sendBuf e he with he | ⟨-, -, hborn⟩
      · exact h.sendBuf e he
      · exact .inr (hP e (hborn ▸ h.cancels.grows.length_le))
    | false => exact h.inert (hs₁.mono fun _ h => nomatch h.1) hl

theorem dsrRrepOptRecv_atRest {dp : DsrPkt} {p : OptPtr} (hT : 5 ≤ dp.optLength p → dp.promiscRecv = false →
    dp.rrepOpt.length < maxRrepOpts → T (rrepOptDst dp p)) : Keeps (AtRest P T s₀) (dsrRrepOptRecv dp p) := by
  refine Keeps.ite (fun _ => Keeps.pure _) fun htaken => ?_
  dsimp only
  rw [Bool.or_eq_true, decide_eq_true_eq, not_or, Bool.not_eq_true, Nat.not_le] at htaken
  refine Keeps.ite (fun _ => Keeps.pure _) fun hlong => ?_
  refine Keeps.bind kmalloc_keeps fun mem => Keeps.bind myAddr_keeps fun me => ?_
  apply Keeps.bind (dsrRtcAdd_atRest _)
  intro _
  apply Keeps.bind (rreqTblRouteDiscoveryCancel_atRest (hT (Nat.le_of_not_lt hlong) htaken.1 htaken.2))
  exact fun _ => Keeps.ite (fun _ => Keeps.pure _) fun _ => Keeps.pure _

theorem dsrRreqOptRecv_atRest (dp : DsrPkt) (p : OptPtr) : Keeps (AtRest P T s₀) (dsrRreqOptRecv dp p) := by
  refine Keeps.ite (fun _ => Keeps.pure _) fun _ => ?_
  dsimp only
  refine Keeps.ite (fun _ => Keeps.pure _) fun _ => ?_
  refine Keeps.bind myAddr_keeps fun me => Keeps.bind kmalloc_keeps fun mem => ?_
  refine Keeps.bind (dsrRreqDuplicate_atRest _ _ _) fun dup => Keeps.ite (fun _ => Keeps.pure _) fun _ => ?_
  refine Keeps.bind (rreqTblAddId_atRest _ _ _) fun _ => Keeps.ite (fun _ => Keeps.pure _) fun _ => ?_
  refine Keeps.bind (dsrRtcAdd_atRest _) fun _ => Keeps.bind (neighTblAdd_atRest _ _) fun _ => ?_
  refine Keeps.bind (sendBufSetVerdict_atRest _ _) fun _ => ?_
  refine Keeps.ite (fun _ => Keeps.bind (dsrRrepSend_atRest _ _) fun _ => Keeps.pure _) fun _ => ?_
  refine Keeps.ite (fun _ => Keeps.pure _) fun _ => Keeps.ite (fun _ => Keeps.pure _) fun _ => ?_
  apply Keeps.bind (dsrRtcFind_atRest _ _)
  intro rc
  cases rc with
  | none => exact Keeps.pure _
  | some rc => exact Keeps.ite (fun _ => Keeps.pure _) fun _ => Keeps.bind (dsrRrepSend_atRest _ _) fun _ => Keeps.pure _

def ReplyTaken (dp : DsrPkt) (p : OptPtr) : Prop := rrepTaken dp p ∧ 5 ≤ dp.optLength p

theorem dsrOptRecvOne_atRest {dp : DsrPkt} {p : OptPtr} (hT : ReplyTaken dp p → T (rrepOptDst dp p)) :
    Keeps (AtRest P T s₀) (dsrOptRecvOne dp p) := by
  unfold dsrOptRecvOne
  split
  · exact Keeps.ite (fun _ => Keeps.pure _) fun _ => dsrRreqOptRecv_atRest dp p
  · next htype =>
    refine Keeps.ite (fun _ => Keeps.pure _) fun _ => dsrRrepOptRecv_atRest fun hlong hpr hroom => ?_
    exact hT ⟨⟨htype, hpr, hroom⟩, hlong⟩
  · exact Keeps.ite (fun _ => Keeps.pure _) fun _ => (Inert.dsrRerrOptRecv dp p).atRest (Tidy.dsrRerrOptRecv dp p)
  · refine Keeps.ite (fun _ => Keeps.pure _) fun _ => ?_
    exact Keeps.bind ((Inert.dsrAckOptRecv _ p).atRest (Tidy.dsrAckOptRecv _ p)) fun _ => Keeps.pure _
  · exact (Inert.dsrSrtOptRecv dp p).atRest (B := .never) (Tidy.dsrSrtOptRecv dp p)
  · exact (Inert.dsrAckReqOptRecv dp p).atRest (B := .never) (Tidy.dsrAckReqOptRecv dp p)
  · exact Keeps.pure _

theorem dsrOptRecvLoop_atRest (hT : ∀ a, T a) (dsrLen fuel : ℕ) : ∀ l p dp action,
    Keeps (AtRest P T s₀) (dsrOptRecvLoop fuel dsrLen l p dp action) := by
  induction fuel with
  | zero => exact fun _ _ _ _ => Keeps.pure _
  | succ fuel ih =>
    intro l p dp action
    refine Keeps.ite (fun _ => ?_) fun _ => Keeps.pure _
    refine Keeps.ite (fun _ => ih _ _ _ _) fun _ => ?_
    exact Keeps.bind (dsrOptRecvOne_atRest fun _ => hT _) fun _ => ih _ _ _ _

theorem dsrIpRecv_atRest (hT : ∀ a, T a) (promisc : Bool) (skb : Skb) : Keeps (AtRest P T s₀) (dsrIpRecv promisc skb) := by
  refine Keeps.bind kmalloc_keeps fun mem => Keeps.ite (fun _ => Keeps.pure ()) fun _ => ?_
  refine Keeps.bind myAddr_keeps fun me => Keeps.ite (fun _ => Keeps.pure ()) fun _ => ?_
  apply Keeps.bind
  · exact Keeps.bind myAddr_keeps fun _ => dsrOptRecvLoop_atRest hT _ _ _ _ _ _
  · intro r
    exact Keeps.ite (fun _ => Keeps.pure ()) fun _ => (Inert.dispatch _ _ _).atRest (Tidy.dispatch _ _ _)

theorem dsrDevStartXmit_atRest (hP : ∀ e, s₀.out.length ≤ e.born → P e) (skb : Skb) :
    Keeps (AtRest P T s₀) (dsrDevStartXmit skb) := by
  apply Keeps.get_bind
  intro s hs
  exact Keeps.ite (fun _ => Keeps.bind kmalloc_keeps fun _ => dsrStartXmit_atRest hP _) (fun _ => Keeps.pure ()) s hs

theorem handle_atRest {s : DsrNode} (h : AtRest P T s₀ s) (i : Input) (hready : i.ready s)
    (hP : ∀ e, s₀.out.length ≤ e.born → P e) (hT : ∀ promisc skb, i = .recv promisc skb → ∀ a, T a) :
    wp i.handle s (fun _ s' => AtRest P T s₀ s') fun _ => True := by
  cases i with
  | startXmit skb => exact dsrDevStartXmit_atRest hP skb s h
  | recv promisc skb => exact dsrIpRecv_atRest (hT promisc skb rfl) promisc skb s h
  | ackTimer => exact Inert.maintBufTimeout.atRest Tidy.maintBufTimeout s h
  | sendBufTimer => exact Inert.sendBufTimeout.atRest (B := .never) Tidy.sendBufTimeout s h
  | rreqTimer ref =>
    obtain ⟨e, he, rfl, -⟩ := hready
    exact rreqTblTimeout_atRest h he
  | gratTimer => exact (Inert.of_quiet fun hq => hq.gratRrepTblTimeout).atRest (B := .never) Tidy.gratRrepTblTimeout s h
  | flushLinkCache => exact (Inert.of_quiet fun hq => hq.lcFlushLocked).atRest lcFlushLocked_tidy s h
  | setVerdict verdict dst => exact sendBufSetVerdict_atRest _ _ s h

end Handlers

theorem NodeReach.atRest {ok : DsrNode → Input → Prop} {s : DsrNode} (h : NodeReach ok s) (P : SendBufEntry → Prop)
    (T : InAddr → Prop) : AtRest P T s s := by
  suffices Waiting (fun _ => True) s ∧ s.held = [] from .start this.1 this.2
  refine h.invariant (I := fun s => Waiting (fun _ => True) s ∧ s.held = []) ⟨?_, ?_⟩ fun s s' i hs hready _ hrun => ?_
  · intros
    refine ⟨⟨⟨Nat.le_of_ble_eq_true rfl, rfl, Nat.zero_le _, List.nodup_nil, List.nodup_nil, ?_⟩, ?_, ?_, ?_⟩, rfl⟩
    all_goals exact fun _ h => absurd h List.not_mem_nil
  · rintro s confvals slaveDev budget now kmem ⟨⟨hwf, htimed, hborn, hlook⟩, hl⟩
    exact ⟨⟨⟨hwf.pos, hwf.len, hwf.bound, hwf.addrs, hwf.refs, hwf.brk⟩, htimed, hborn, hlook⟩, hl⟩
  · have hr : AtRest (fun _ => True) (fun _ => True) s s := .start hs.1 hs.2
    have hr' := wp_ok (handle_atRest hr i hready (fun _ _ => trivial) fun _ _ _ _ => trivial) hrun
    exact ⟨hr'.waiting, hr'.held⟩

theorem send_buf_searched {ok : DsrNode → Input → Prop} {s : DsrNode} (h : NodeReach ok s) {e : SendBufEntry}
    (he : e ∈ s.sendBuf.head) : Searching s e.dp.dst ∨ SearchEnded s e.dp.dst e.born :=
  (h.atRest (fun _ => True) fun _ => True).waiting.lookedFor e he trivial

def strandedSkb : Skb :=
  { hSource := 0
    iph := { ihl := 5, totLen := 21, ttl := 64, protocol := 17, saddr := detourHost 9
             daddr := detourHost 4 }
    data := [7] }

def strandedStart : DsrNode := dsrNodeInit (detourHost 9) confvalsDef true 20 ⟨100, 0⟩ (fun _ => 0) 0

def strandedInputs : List (Timeval × Input) :=
  [(⟨100, 0⟩, .startXmit strandedSkb), (⟨100, 5⟩, .recv false detourReply)]

def stranded (s : DsrNode) (e : SendBufEntry) : Bool :=
  s.rreqTbl.head.all fun r => r.nodeAddr ≠ e.dp.dst || r.state ≠ .inRouteDisc

theorem send_buf_searched_stranded : ∃ s e, NodeReach anyInput s ∧ e ∈ s.sendBuf.head ∧
    ¬ Searching s e.dp.dst ∧ SearchEnded s e.dp.dst e.born := by
  have hrun : (drive anyInput strandedStart strandedInputs).any (fun s => s.sendBuf.head.any (stranded s)) = true := by
    decide +kernel
  obtain ⟨s, hs, hb⟩ := (Option.any_eq_true _ _).mp hrun
  obtain ⟨e, he, hnone⟩ := List.any_eq_true.mp hb
  have hreach : NodeReach anyInput s := .drive _ (.init _ _ _ _ _ _ _) hs
  have hnot : ¬ Searching s e.dp.dst := by
    rintro ⟨r, hr, hd, hst, -⟩
    have hr := List.all_eq_true.mp hnone r hr
    simp [hd, hst] at hr
  exact ⟨s, e, hreach, he, hnot, (send_buf_searched hreach he).resolve_left hnot⟩

end DsrUu
