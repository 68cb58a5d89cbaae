import DsrUu.Node.RreqTbl
import DsrUu.Node.Flood

namespace DsrUu

open Effect Bytes

def rreqTarget (dp : DsrPkt) : Option InAddr := dp.rreqOpt.map fun p => dp.addrField p 4

inductive DiscOp
  | addId (initiator target : InAddr) (id : ℕ)
  | discover (target : InAddr)
  | timeout (ref : ℕ)
  | cancel (dst : InAddr)

def DiscOp.exec : DiscOp → DsrM Unit
  | .addId initiator target id => rreqTblAddId initiator target id
  | .discover target => dsrRreqRouteDiscovery target
  | .timeout ref => rreqTblTimeout ref
  | .cancel dst => rreqTblRouteDiscoveryCancel dst

def DiscOp.ready (s : DsrNode) : DiscOp → Prop
  | .timeout ref => ∃ e ∈ s.rreqTbl.head, e.ref = ref ∧ e.timer.isSome
  | _ => True

structure DiscStep where
  now : Timeval
  op : DiscOp
  out : List Event

inductive DiscRun (M : ℕ) (conf : ConfVal → ℕ) : DsrNode → List DiscStep → Prop
  | init {s : DsrNode} : s.rreqTbl = Tbl.init M → s.confvals = conf → s.held = [] → DiscRun M conf s []
  | env {s s' : DsrNode} {past : List DiscStep} : DiscRun M conf s past → s'.rreqTbl = s.rreqTbl →
      s'.rreqBrk = s.rreqBrk → s'.confvals = conf → s'.held = [] → DiscRun M conf s' past
  | step {s s' : DsrNode} {past : List DiscStep} (op : DiscOp) : DiscRun M conf s past → op.ready s →
      op.exec s = .ok () s' → DiscRun M conf s' (⟨s.now, op, s'.out.drop s.out.length⟩ :: past)

def discEvent (d : InAddr) (now : Timeval) (cur : Option (ℕ × Timeval)) : Event → Option (ℕ × Timeval)
  | .discovery d' status => if d' = d then (if status = .started then some (0, now) else none) else cur
  | .xmit .rreqSend dp _ => if rreqTarget dp = some d then cur.map fun c => (c.1 + 1, now) else cur
  | _ => cur

def discState (d : InAddr) : List DiscStep → Option (ℕ × Timeval)
  | [] => none
  | st :: past => st.out.foldl (discEvent d st.now) (discState d past)

def discTimeout (conf : ConfVal → ℕ) : ℕ → ℕ
  | 0 => usecsOf .nonpropRequestTimeout (conf .nonpropRequestTimeout)
  | j + 1 => min (2 * discTimeout conf j) (usecsOf .maxRequestPeriod (conf .maxRequestPeriod))

structure InDisc (conf : ConfVal → ℕ) (cur : Option (ℕ × Timeval)) (e : RreqTblEntry) : Prop where
  sent : ∃ t, cur = some (e.numRexmts + 1, t) ∧ e.timer = some (timevalAddUsecs t e.timeout)
  rexmts : e.numRexmts ≤ conf .maxRequestRexmt
  ttl : e.ttl = min (2 ^ e.numRexmts) 255
  timeout : e.timeout = discTimeout conf e.numRexmts

def DiscEntry (conf : ConfVal → ℕ) (cur : Option (ℕ × Timeval)) (e : RreqTblEntry) : Prop :=
  (e.state = .idle → e.timer = none ∧ cur = none) ∧ (e.state = .inRouteDisc → InDisc conf cur e)

structure DiscInv (conf : ConfVal → ℕ) (s : DsrNode) (past : List DiscStep) : Prop where
  wf : RreqWf s
  confvals : s.confvals = conf
  held : s.held = []
  entries : ∀ e ∈ s.rreqTbl.head, DiscEntry conf (discState e.nodeAddr past) e
  absent : ∀ d, s.rreqFind d = none → discState d past = none

theorem rreqOptAdd_target {dp dp' : DsrPkt} {b : OptBuf} {off len seqno : ℕ} {target : InAddr}
    (hb : dp.dh = some b) (hlen : off + 8 ≤ b.raw.length)
    (h : dsrRreqOptAdd dp off len target seqno = some dp') : dp'.addrField (dp'.ptr off) 4 = target := by
  rw [dsrRreqOptAdd, Option.ite_none_left_eq_some] at h
  obtain ⟨-, h⟩ := h
  cases h
  have hdh : (dp.write off (rreqOptBytes target seqno)).dh =
      some { b with raw := writeAt b.raw off (rreqOptBytes target seqno) } := by rw [write_dh hb]
  have hbyte : ∀ i, i < 8 → (dp.write off (rreqOptBytes target seqno)).fieldAt
      ((dp.write off (rreqOptBytes target seqno)).ptr off) i = (rreqOptBytes target seqno).getD i 0 := by
    intro i hi
    rw [fieldAt_live (live_ptr hdh off)]
    exact byteAt_write_head hb (show i < 8 from hi) (by omega)
  rw [DsrPkt.addrField, hbyte 4 (by omega), hbyte 5 (by omega), hbyte 6 (by omega), hbyte 7 (by omega)]
  rfl

theorem rreqPkt_target {mem : ℕ → UInt8} {me target : InAddr} {ttl seqno : ℕ} {dp : DsrPkt}
    (h : rreqPkt mem me target ttl seqno = some dp) : rreqTarget dp = some target := by
  unfold rreqPkt at h
  obtain ⟨dp₁, h₁, h⟩ := Option.bind_eq_some_iff.mp h
  obtain ⟨dp₂, h₂, rfl⟩ := Option.map_eq_some_iff.mp h
  obtain ⟨b, hb, hlen⟩ : ∃ b, dp₁.dh = some b ∧ dsrOptHdrLen + 8 ≤ b.raw.length := by
    rw [dsrOptHdrAdd, Option.ite_none_left_eq_some] at h₁
    obtain ⟨-, h₁⟩ := h₁
    cases h₁
    refine ⟨_, congrArg DsrPkt.dh (write_dh (b := { raw := fill mem _, tail := _ }) rfl _ _), ?_⟩
    dsimp only
    rw [length_writeAt, length_fill]
    decide
  have ht : dp₂.addrField (dp₂.ptr dsrOptHdrLen) 4 = target := rreqOptAdd_target hb hlen h₂
  exact congrArg some ht

section Invariant

variable {conf : ConfVal → ℕ} {s s' : DsrNode} {past : List DiscStep} {a d : InAddr} {now : Timeval}
  {cur : Option (ℕ × Timeval)}

theorem rreqEvicted_cases (h : RreqWf s) (a : InAddr) :
    (s.rreqEvicted a = [] ∧ s.rreqOthers a = s.rreqTbl.head.filter fun e => e.nodeAddr ≠ a) ∨
      ∃ f rest, s.rreqFind a = none ∧ s.rreqTbl.head = f :: rest ∧
        s.rreqEvicted a = [.discovery f.nodeAddr .evicted] ∧ s.rreqOthers a = rest := by
  unfold DsrNode.rreqEvicted
  rcases rreqEvicts_cases h a with ⟨hev, ho⟩ | ⟨f, rest, hev, hf, hh, ho⟩
  · exact Or.inl ⟨by rw [hev]; rfl, ho⟩
  · refine Or.inr ⟨f, rest, hf, hh, ?_, ho⟩
    rw [if_pos hev, hh]
    rfl

theorem discEvent_ended {d' : InAddr} {status : DiscStatus} (hs : status ≠ .started) :
    discEvent d now cur (.discovery d' status) = if d' = d then none else cur := by
  change (if d' = d then (if status = .started then some (0, now) else none) else cur) = _
  rw [if_neg hs]

theorem discEvent_evicted {d' : InAddr} :
    discEvent d now cur (.discovery d' .evicted) = if d' = d then none else cur :=
  discEvent_ended nofun

theorem evicted_self (h : RreqWf s) (now : Timeval) (cur : Option (ℕ × Timeval)) :
    (s.rreqEvicted a).foldl (discEvent a now) cur = cur := by
  rcases rreqEvicted_cases h a with ⟨he, -⟩ | ⟨f, rest, hf, hh, he, -⟩
  · rw [he]
    rfl
  · rw [he, List.foldl_cons, List.foldl_nil, discEvent_evicted, if_neg]
    exact rreqFind_none hf f (by rw [hh]; exact List.mem_cons_self)

theorem evicted_kept (h : RreqWf s) {x : RreqTblEntry} (hx : x ∈ s.rreqOthers a) (now : Timeval)
    (cur : Option (ℕ × Timeval)) : (s.rreqEvicted a).foldl (discEvent x.nodeAddr now) cur = cur := by
  rcases rreqEvicted_cases h a with ⟨he, -⟩ | ⟨f, rest, hf, hh, he, ho⟩
  · rw [he]
    rfl
  · rw [he, List.foldl_cons, List.foldl_nil, discEvent_evicted, if_neg]
    have hn := h.addrs
    rw [hh, List.map_cons, List.nodup_cons] at hn
    rw [ho] at hx
    exact fun heq => hn.1 (heq ▸ List.mem_map_of_mem hx)

theorem evicted_gone (h : RreqWf s) (hd : d ≠ a) (hgone : ∀ x ∈ s.rreqOthers a, x.nodeAddr ≠ d)
    (hcur : s.rreqFind d = none → cur = none) : (s.rreqEvicted a).foldl (discEvent d now) cur = none := by
  have hnone : (∀ x ∈ s.rreqTbl.head, x.nodeAddr ≠ d) → s.rreqFind d = none := fun hall =>
    List.find?_eq_none.mpr fun x hx => by simpa using hall x hx
  rcases rreqEvicted_cases h a with ⟨he, ho⟩ | ⟨f, rest, hf, hh, he, ho⟩
  · rw [he]
    refine hcur (hnone fun x hx hxd => hgone x ?_ hxd)
    rw [ho]
    exact List.mem_filter.mpr ⟨hx, decide_eq_true (hxd ▸ hd)⟩
  · rw [he, List.foldl_cons, List.foldl_nil, discEvent_evicted]
    split
    · rfl
    · next hne =>
      refine hcur (hnone fun x hx hxd => ?_)
      rw [hh] at hx
      rcases List.mem_cons.mp hx with rfl | hx
      · exact hne hxd
      · exact hgone x (ho ▸ hx) hxd

theorem DiscInv.entry (h : DiscInv conf s past) (a : InAddr) :
    DiscEntry conf (discState a past) (s.rreqEntry a) := by
  unfold DsrNode.rreqEntry
  cases hf : s.rreqFind a with
  | none => exact ⟨fun _ => ⟨rfl, h.absent a hf⟩, nofun⟩
  | some e =>
    obtain ⟨hm, rfl⟩ := rreqFind_mem hf
    exact h.entries e hm

theorem DiscInv.touched (h : DiscInv conf s past) {f : RreqTblEntry → RreqTblEntry} {op : DiscOp}
    {news : List Event} (haddr : ∀ e, (f e).nodeAddr = e.nodeAddr) (href : ∀ e, (f e).ref = e.ref)
    (htbl : s'.rreqTbl = (s.touched a f).rreqTbl) (hbrk : s'.rreqBrk = (s.touched a f).rreqBrk)
    (hconf : s'.confvals = conf) (hheld : s'.held = [])
    (hquiet : ∀ d, d ≠ a → ∀ cur, news.foldl (discEvent d now) cur = cur)
    (hentry : DiscEntry conf (news.foldl (discEvent a now) (discState a past)) (f (s.rreqEntry a))) :
    DiscInv conf s' (⟨now, op, s.rreqEvicted a ++ news⟩ :: past) := by
  have hwf := h.wf.touched a haddr href
  have hhead : s'.rreqTbl.head = s.rreqOthers a ++ [f (s.rreqEntry a)] := by rw [htbl]; rfl
  refine ⟨⟨?_, ?_, ?_, ?_, ?_, ?_⟩, hconf, hheld, ?_, ?_⟩
  · rw [htbl]; exact hwf.pos
  · rw [htbl]; exact hwf.len
  · rw [htbl]; exact hwf.bound
  · rw [htbl]; exact hwf.addrs
  · rw [htbl]; exact hwf.refs
  · rw [htbl, hbrk]; exact hwf.brk
  · intro x hx
    rw [hhead] at hx
    rw [discState, List.foldl_append]
    rcases List.mem_append.mp hx with hx | hx
    · obtain ⟨hm, hne⟩ := mem_rreqOthers hx
      rw [evicted_kept h.wf hx, hquiet _ hne]
      exact h.entries x hm
    · rw [List.mem_singleton.mp hx, haddr, rreqEntry_addr, evicted_self h.wf]
      exact hentry
  · intro d hd
    have hall := rreqFind_none hd
    rw [hhead] at hall
    have hda : d ≠ a := fun heq => hall (f (s.rreqEntry a))
      (List.mem_append_right _ (List.mem_singleton_self _)) (by rw [haddr, rreqEntry_addr, heq])
    rw [discState, List.foldl_append, hquiet d hda]
    exact evicted_gone h.wf hda (fun x hx => hall x (List.mem_append_left _ hx)) (h.absent d)

def isRreqXmit : Event → Bool
  | .xmit .rreqSend _ _ => true
  | _ => false

structure DiscStepOk (conf : ConfVal → ℕ) (past : List DiscStep) (st : DiscStep) : Prop where
  rreqs : ∀ es dp due es', st.out = es ++ .xmit .rreqSend dp due :: es' → ∃ d j t, rreqTarget dp = some d ∧
    es.foldl (discEvent d st.now) (discState d past) = some (j, t) ∧ j ≤ conf .maxRequestRexmt ∧
    dp.iph.ttl = min (2 ^ j) 255
  started : ∀ d, .discovery d .started ∈ st.out → st.op = .discover d

theorem append_cons_unique {α : Type} {p : α → Bool} {x y : α} {tail es' : List α} (hy : p y = true)
    (htail : ∀ e ∈ tail, p e = false) (pre : List α) : ∀ es, (∀ e ∈ pre, p e = false) →
    pre ++ x :: tail = es ++ y :: es' → es = pre ∧ y = x := by
  have hno : ∀ {e : α} {l : List α}, (∀ e ∈ l, p e = false) → e ∈ l → e ≠ y := fun hl he heq => by
    rw [heq] at he
    exact Bool.false_ne_true ((hl y he).symm.trans hy)
  induction pre with
  | nil =>
    intro es _ h
    cases es with
    | nil =>
      injection h with hx _
      exact ⟨rfl, hx.symm⟩
    | cons e es =>
      injection h with _ h
      exact absurd rfl (hno htail (h ▸ List.mem_append_right _ List.mem_cons_self))
  | cons b pre ih =>
    intro es hpre h
    cases es with
    | nil =>
      injection h with hb _
      exact absurd hb (hno hpre List.mem_cons_self)
    | cons e es =>
      injection h with hb h
      obtain ⟨rfl, hxy⟩ := ih es (fun e he => hpre e (List.mem_cons_of_mem _ he)) h
      exact ⟨by rw [hb], hxy⟩

theorem evicted_shape (h : RreqWf s) {e : Event} (he : e ∈ s.rreqEvicted a) :
    ∃ d, e = .discovery d .evicted := by
  rcases rreqEvicted_cases h a with ⟨hev, -⟩ | ⟨f, rest, -, -, hev, -⟩
  · rw [hev] at he
    exact absurd he List.not_mem_nil
  · rw [hev] at he
    exact ⟨f.nodeAddr, List.mem_singleton.mp he⟩

theorem rreqEvicted_found (h : (s.rreqFind a).isSome) : s.rreqEvicted a = [] := by
  obtain ⟨e, he⟩ := Option.isSome_iff_exists.mp h
  rw [DsrNode.rreqEvicted, DsrNode.rreqEvicts, he]
  rfl

theorem sends_quiet {tail : List Event} (htail : ∀ e ∈ tail, ∃ f, e = Event.send .rreqSend f) :
    tail.foldl (discEvent d now) cur = cur := by
  induction tail with
  | nil => rfl
  | cons e tail ih =>
    obtain ⟨f, rfl⟩ := htail e List.mem_cons_self
    exact ih fun e he => htail e (List.mem_cons_of_mem _ he)

theorem noRreqs_ok {st : DiscStep} (hx : ∀ e ∈ st.out, isRreqXmit e = false)
    (hs : ∀ d, .discovery d .started ∉ st.out) : DiscStepOk conf past st :=
  ⟨fun es dp due _ hout => absurd (hx (.xmit .rreqSend dp due)
    (hout ▸ List.mem_append_right es List.mem_cons_self)) Bool.false_ne_true.symm,
    fun d hd => absurd hd (hs d)⟩

theorem DiscEntry.congr {e e' : RreqTblEntry} (h : DiscEntry conf cur e) (hstate : e'.state = e.state)
    (htimer : e'.timer = e.timer) (hnum : e'.numRexmts = e.numRexmts) (httl : e'.ttl = e.ttl)
    (htimeout : e'.timeout = e.timeout) : DiscEntry conf cur e' := by
  refine ⟨fun hi => ?_, fun hd => ?_⟩
  · rw [htimer]
    exact h.1 (hstate ▸ hi)
  · have hin := h.2 (hstate ▸ hd)
    refine ⟨?_, ?_, ?_, ?_⟩
    · rw [hnum, htimer, htimeout]
      exact hin.sent
    · rw [hnum]
      exact hin.rexmts
    · rw [hnum, httl]
      exact hin.ttl
    · rw [hnum, htimeout]
      exact hin.timeout

theorem addId_step (h : DiscInv conf s past) {i t : InAddr} {id : ℕ}
    (hrun : rreqTblAddId i t id s = .ok () s') :
    DiscInv conf s' (⟨s.now, .addId i t id, s'.out.drop s.out.length⟩ :: past) ∧
      DiscStepOk conf past ⟨s.now, .addId i t id, s'.out.drop s.out.length⟩ := by
  have hs' := wp_ok (rreqTblAddId_wp h.wf h.held t id) hrun
  have hout : s'.out.drop s.out.length = s.rreqEvicted i ++ [] := by
    rw [hs', List.append_nil]
    exact List.drop_left
  rw [hout]
  refine ⟨?_, noRreqs_ok ?_ ?_⟩
  · subst hs'
    refine h.touched ?_ ?_ rfl rfl h.confvals h.held (fun _ _ _ => rfl) ?_
    · intro e
      unfold noteId
      split <;> rfl
    · exact noteId_ref _ _
    · refine (h.entry i).congr ?_ ?_ ?_ ?_ ?_ <;> unfold noteId <;> split <;> rfl
  · intro e he
    rw [List.append_nil] at he
    obtain ⟨d, rfl⟩ := evicted_shape h.wf he
    rfl
  · intro d hd
    rw [List.append_nil] at hd
    obtain ⟨d', hd'⟩ := evicted_shape h.wf hd
    cases hd'

theorem rreqXmit_event {dp : DsrPkt} {due : Bool} (ht : rreqTarget dp = some a) :
    discEvent d now cur (.xmit .rreqSend dp due) = if a = d then cur.map fun c => (c.1 + 1, now) else cur := by
  change (if rreqTarget dp = some d then _ else cur) = _
  rw [ht]
  by_cases had : a = d
  · rw [if_pos had, if_pos (congrArg some had)]
  · rw [if_neg had, if_neg fun h => had (Option.some.inj h)]

theorem sentTtl {mem : ℕ → UInt8} {me : InAddr} {j seqno : ℕ} {dp : DsrPkt}
    (h : rreqPkt mem me a (min (2 ^ j) 255) seqno = some dp) : dp.iph.ttl = min (2 ^ j) 255 := by
  have hpos : 1 ≤ 2 ^ j := Nat.one_le_two_pow
  rw [rreqPkt_ttl h, if_neg (by omega), Nat.mod_eq_of_lt (by omega)]

theorem discover_step (h : DiscInv conf s past) (hrun : dsrRreqRouteDiscovery a s = .ok () s') :
    DiscInv conf s' (⟨s.now, .discover a, s'.out.drop s.out.length⟩ :: past) ∧
      DiscStepOk conf past ⟨s.now, .discover a, s'.out.drop s.out.length⟩ := by
  obtain ⟨hbusy, hstart⟩ := wp_ok (dsrRreqRouteDiscovery_wp h.wf h.held) hrun
  have hentry := h.entry a
  by_cases hst : (s.rreqEntry a).state = .inRouteDisc
  · have hs' := hbusy hst
    have hout : s'.out.drop s.out.length = s.rreqEvicted a ++ [] := by
      rw [hs', List.append_nil]
      exact List.drop_left
    rw [hout]
    subst hs'
    refine ⟨h.touched (fun _ => rfl) (fun _ => rfl) rfl rfl h.confvals h.held (fun _ _ _ => rfl) hentry,
      noRreqs_ok (fun e he => ?_) fun d hd => ?_⟩
    · rw [List.append_nil] at he
      obtain ⟨d, rfl⟩ := evicted_shape h.wf he
      rfl
    · rw [List.append_nil] at hd
      obtain ⟨d', hd'⟩ := evicted_shape h.wf hd
      cases hd'
  · obtain ⟨dp, due, tail, hdp, rfl, htail⟩ := (hstart hst).dp
    have ht := rreqPkt_target hdp
    have hout : (s.out ++ s.rreqEvicted a ++ [Event.discovery a .started] ++
        Event.xmit .rreqSend dp due :: tail).drop s.out.length =
        s.rreqEvicted a ++ (Event.discovery a .started :: Event.xmit .rreqSend dp due :: tail) := by
      rw [List.append_assoc, List.append_assoc, List.drop_left]
      rfl
    have hself : ∀ cur, (Event.discovery a .started :: .xmit .rreqSend dp due :: tail).foldl
        (discEvent a s.now) cur = some (1, s.now) := by
      intro cur
      rw [List.foldl_cons, List.foldl_cons, sends_quiet htail, rreqXmit_event ht, if_pos rfl]
      change Option.map _ (if a = a then (if DiscStatus.started = .started then some (0, s.now) else none) else cur) = _
      rw [if_pos rfl, if_pos rfl]
      rfl
    have hquiet : ∀ d, d ≠ a → ∀ cur, (Event.discovery a .started :: .xmit .rreqSend dp due :: tail).foldl
        (discEvent d s.now) cur = cur := by
      intro d hd cur
      rw [List.foldl_cons, List.foldl_cons, sends_quiet htail, rreqXmit_event ht, if_neg (Ne.symm hd)]
      exact if_neg (Ne.symm hd)
    change DiscInv conf _ (⟨_, _, List.drop _ (s.out ++ s.rreqEvicted a ++ [Event.discovery a .started] ++ _)⟩ :: past) ∧
      DiscStepOk conf past ⟨_, _, List.drop _ (s.out ++ s.rreqEvicted a ++ [Event.discovery a .started] ++ _)⟩
    rw [hout]
    refine ⟨h.touched (f := startDisc s.now (nonpropUsecs s)) (fun _ => rfl) (fun _ => rfl) rfl rfl h.confvals h.held
      hquiet ?_, ⟨fun es dp' due' es' heq => ?_, fun d hd => ?_⟩⟩
    · rw [hself]
      refine ⟨nofun, fun _ => ⟨⟨s.now, rfl, rfl⟩, Nat.zero_le _, rfl, ?_⟩⟩
      change nonpropUsecs s = discTimeout conf 0
      rw [nonpropUsecs, h.confvals]
      rfl
    · have heq' : (s.rreqEvicted a ++ [.discovery a .started]) ++ Event.xmit .rreqSend dp due :: tail =
          es ++ Event.xmit .rreqSend dp' due' :: es' := by
        rw [List.append_assoc]
        exact heq
      obtain ⟨rfl, hx⟩ := append_cons_unique (p := isRreqXmit) rfl
        (fun e he => by obtain ⟨f, rfl⟩ := htail e he; rfl) _ _
        (fun e he => by
          rcases List.mem_append.mp he with he | he
          · obtain ⟨d, rfl⟩ := evicted_shape h.wf he
            rfl
          · rw [List.mem_singleton.mp he]
            rfl) heq'
      injection hx with _ hdp' _
      subst hdp'
      refine ⟨a, 0, s.now, ht, ?_, Nat.zero_le _, sentTtl (j := 0) hdp⟩
      rw [List.foldl_append, evicted_self h.wf]
      change (if a = a then (if DiscStatus.started = .started then some (0, s.now) else none) else _) = _
      rw [if_pos rfl, if_pos rfl]
    · rcases List.mem_append.mp hd with hd | hd
      · obtain ⟨d', hd'⟩ := evicted_shape h.wf hd
        cases hd'
      · rcases List.mem_cons.mp hd with hd | hd
        · injection hd with hd _
          rw [hd]
        · rcases List.mem_cons.mp hd with hd | hd
          · cases hd
          · obtain ⟨f, hf⟩ := htail _ hd
            cases hf

theorem ended_quiet {status : DiscStatus} (d : InAddr) (hd : d ≠ a) (cur : Option (ℕ × Timeval)) :
    [Event.discovery a status].foldl (discEvent d now) cur = cur := if_neg (Ne.symm hd)

theorem ended_self {status : DiscStatus} (hs : status ≠ .started) (cur : Option (ℕ × Timeval)) :
    [Event.discovery a status].foldl (discEvent a now) cur = none := by
  rw [List.foldl_cons, List.foldl_nil, discEvent_ended hs, if_pos rfl]

theorem ended_ok {status : DiscStatus} {op : DiscOp} (hs : status ≠ .started) :
    DiscStepOk conf past ⟨now, op, [.discovery a status]⟩ :=
  noRreqs_ok (fun e he => by rw [List.mem_singleton.mp he]; rfl) fun d hd => by
    injection List.mem_singleton.mp hd with _ hd
    exact hs hd.symm

theorem usecsOf_lt (cv : ConfVal) (val : ℕ) : usecsOf cv val < 4294967296 := by
  unfold usecsOf toUint32
  split <;> omega

theorem discTimeout_lt (conf : ConfVal → ℕ) (j : ℕ) : discTimeout conf j < 4294967296 := by
  cases j with
  | zero => exact usecsOf_lt _ _
  | succ j => exact Nat.lt_of_le_of_lt (Nat.min_le_right _ _) (usecsOf_lt _ _)

theorem nextTtl_eq (j : ℕ) : nextTtl (min (2 ^ j) 255) = min (2 ^ (j + 1)) 255 := by
  unfold nextTtl maxTtl
  rw [Nat.pow_succ]
  split <;> omega

theorem nextTimeout_eq (conf : ConfVal → ℕ) (j : ℕ) :
    nextTimeout (usecsOf .maxRequestPeriod (conf .maxRequestPeriod)) (discTimeout conf j) =
      discTimeout conf (j + 1) := by
  have hlt := discTimeout_lt conf j
  have hwrap : toUint64 (2 * (discTimeout conf j : ℕ)) = 2 * discTimeout conf j := by
    unfold toUint64
    omega
  unfold nextTimeout
  rw [hwrap, discTimeout]
  split <;> omega

theorem timeout_step (hmax : conf .maxRequestRexmt < 4294967296) (h : DiscInv conf s past) {e : RreqTblEntry}
    (he : e ∈ s.rreqTbl.head) (htimer : e.timer.isSome) (hrun : rreqTblTimeout e.ref s = .ok () s') :
    DiscInv conf s' (⟨s.now, .timeout e.ref, s'.out.drop s.out.length⟩ :: past) ∧
      DiscStepOk conf past ⟨s.now, .timeout e.ref, s'.out.drop s.out.length⟩ := by
  obtain ⟨hend, hretry⟩ := wp_ok (rreqTblTimeout_wp h.wf h.held he) hrun
  rw [h.confvals] at hend hretry
  have hfa := rreqFind_of_mem h.wf he
  have hev : s.rreqEvicted e.nodeAddr = [] := rreqEvicted_found (by rw [hfa]; rfl)
  have hent : s.rreqEntry e.nodeAddr = e := by
    rw [DsrNode.rreqEntry, hfa]
    rfl
  have hst : e.state = .inRouteDisc := by
    cases hst : e.state with
    | idle =>
      rw [((h.entries e he).1 hst).1] at htimer
      cases htimer
    | inRouteDisc => rfl
  have hin := (h.entries e he).2 hst
  obtain ⟨t, hcur, -⟩ := hin.sent
  rcases Nat.lt_or_ge e.numRexmts (conf .maxRequestRexmt) with hlt | hge
  · obtain ⟨s₁, hsent, rfl⟩ := hretry hlt
    obtain ⟨dp, due, tail, hdp, rfl, htail⟩ := hsent.dp
    have ht := rreqPkt_target hdp
    rw [hin.ttl, nextTtl_eq] at hdp
    have hout : ((s.out ++ .xmit .rreqSend dp due :: tail) ++ s.rreqEvicted e.nodeAddr).drop s.out.length =
        s.rreqEvicted e.nodeAddr ++ (.xmit .rreqSend dp due :: tail) := by
      rw [hev, List.append_nil, List.drop_left, List.nil_append]
    change DiscInv conf _ (⟨_, _, List.drop _ ((s.out ++ _) ++ s.rreqEvicted e.nodeAddr)⟩ :: past) ∧
      DiscStepOk conf past ⟨_, _, List.drop _ ((s.out ++ _) ++ s.rreqEvicted e.nodeAddr)⟩
    rw [hout]
    have hnum : incUint32 e.numRexmts = e.numRexmts + 1 := by
      unfold incUint32
      omega
    refine ⟨h.touched
      (f := retryDisc s.now (usecsOf .maxRequestPeriod (conf .maxRequestPeriod))) (fun _ => rfl) (fun _ => rfl)
      rfl rfl h.confvals h.held ?_ ?_, ⟨fun es dp' due' es' heq => ?_, fun d hd => ?_⟩⟩
    · intro d hd cur
      rw [List.foldl_cons, sends_quiet htail, rreqXmit_event ht, if_neg (Ne.symm hd)]
    · rw [List.foldl_cons, sends_quiet htail, rreqXmit_event ht, if_pos rfl, hent, hcur]
      refine ⟨fun hi => absurd (hst.symm.trans hi) (by decide), fun _ => ⟨⟨s.now, ?_, rfl⟩, ?_, ?_, ?_⟩⟩
      · change some (e.numRexmts + 1 + 1, s.now) = some (incUint32 e.numRexmts + 1, s.now)
        rw [hnum]
      · change incUint32 e.numRexmts ≤ _
        omega
      · change nextTtl e.ttl = min (2 ^ incUint32 e.numRexmts) 255
        rw [hnum, hin.ttl, nextTtl_eq]
      · change nextTimeout _ e.timeout = discTimeout conf (incUint32 e.numRexmts)
        rw [hnum, hin.timeout, nextTimeout_eq]
    · rw [hev, List.nil_append] at heq
      obtain ⟨rfl, hx⟩ := append_cons_unique (p := isRreqXmit) rfl
        (fun e he => by obtain ⟨f, rfl⟩ := htail e he; rfl) [] _ (fun _ he => absurd he List.not_mem_nil) heq
      injection hx with _ hdp' _
      subst hdp'
      exact ⟨e.nodeAddr, e.numRexmts + 1, t, ht, hcur, by omega, sentTtl hdp⟩
    · rw [hev, List.nil_append] at hd
      rcases List.mem_cons.mp hd with hd | hd
      · cases hd
      · obtain ⟨f, hf⟩ := htail _ hd
        cases hf
  · have hs' := hend hge
    have hout : s'.out.drop s.out.length = s.rreqEvicted e.nodeAddr ++ [.discovery e.nodeAddr .maxRexmt] := by
      rw [hs', hev]
      change ((s.out ++ [_]) ++ s.rreqEvicted e.nodeAddr).drop s.out.length = _
      rw [hev, List.append_nil, List.drop_left]
      rfl
    rw [hout]
    subst hs'
    refine ⟨h.touched (f := giveUpDisc) (fun _ => rfl) (fun _ => rfl) rfl rfl h.confvals h.held ended_quiet ?_, ?_⟩
    · rw [ended_self (by decide : DiscStatus.maxRexmt ≠ .started)]
      exact ⟨fun _ => ⟨rfl, rfl⟩, fun hd => absurd (show RreqState.idle = .inRouteDisc from hd) (by decide)⟩
    · rw [hev]
      exact ended_ok (by decide)

theorem cancel_step (h : DiscInv conf s past) (hrun : rreqTblRouteDiscoveryCancel a s = .ok () s') :
    DiscInv conf s' (⟨s.now, .cancel a, s'.out.drop s.out.length⟩ :: past) ∧
      DiscStepOk conf past ⟨s.now, .cancel a, s'.out.drop s.out.length⟩ := by
  obtain ⟨hno, hstop⟩ := wp_ok (rreqTblRouteDiscoveryCancel_wp h.wf h.held) hrun
  cases hf : s.rreqFind a with
  | none =>
    have hs' := hno hf
    have hout : s'.out.drop s.out.length = [.discovery a .cancelled] := by
      rw [hs']
      exact List.drop_left
    rw [hout]
    subst hs'
    refine ⟨⟨h.wf.emits _, h.confvals, h.held, fun e he => ?_, fun d hd => ?_⟩, ended_ok nofun⟩
    · rw [discState, ended_quiet _ (rreqFind_none hf e he)]
      exact h.entries e he
    · rw [discState]
      by_cases hda : d = a
      · rw [hda]
        exact ended_self (by decide) _
      · rw [ended_quiet _ hda]
        exact h.absent d hd
  | some e =>
    have hev : s.rreqEvicted a = [] := rreqEvicted_found (by rw [hf]; rfl)
    have hs' := hstop (by rw [hf]; exact Option.some_ne_none e)
    have hout : s'.out.drop s.out.length = s.rreqEvicted a ++ [.discovery a .cancelled] := by
      rw [hs', hev]
      change ((s.out ++ [_]) ++ s.rreqEvicted a).drop s.out.length = _
      rw [hev, List.append_nil, List.drop_left]
      rfl
    rw [hout]
    subst hs'
    refine ⟨h.touched (f := stopDisc s.now) (fun _ => rfl) (fun _ => rfl) rfl rfl h.confvals h.held ended_quiet ?_, ?_⟩
    · rw [ended_self (by decide : DiscStatus.cancelled ≠ .started)]
      refine ⟨fun _ => ⟨?_, rfl⟩, nofun⟩
      unfold stopDisc
      dsimp only
      split
      · rfl
      · next hst =>
        cases hidle : (s.rreqEntry a).state with
        | idle => exact ((h.entry a).1 hidle).1
        | inRouteDisc => exact absurd hidle hst
    · rw [hev]
      exact ended_ok nofun

theorem DiscInv.env (h : DiscInv conf s past) (htbl : s'.rreqTbl = s.rreqTbl) (hbrk : s'.rreqBrk = s.rreqBrk)
    (hconf : s'.confvals = conf) (hheld : s'.held = []) : DiscInv conf s' past := by
  refine ⟨⟨?_, ?_, ?_, ?_, ?_, ?_⟩, hconf, hheld, ?_, fun d hd => h.absent d ?_⟩
  · rw [htbl]; exact h.wf.pos
  · rw [htbl]; exact h.wf.len
  · rw [htbl]; exact h.wf.bound
  · rw [htbl]; exact h.wf.addrs
  · rw [htbl]; exact h.wf.refs
  · rw [htbl, hbrk]; exact h.wf.brk
  · rw [htbl]; exact h.entries
  · rw [DsrNode.rreqFind, htbl] at hd
    exact hd

theorem DiscInv.step (hmax : conf .maxRequestRexmt < 4294967296) (h : DiscInv conf s past) {op : DiscOp}
    (hready : op.ready s) (hrun : op.exec s = .ok () s') :
    DiscInv conf s' (⟨s.now, op, s'.out.drop s.out.length⟩ :: past) ∧
      DiscStepOk conf past ⟨s.now, op, s'.out.drop s.out.length⟩ := by
  cases op with
  | addId i t id => exact addId_step h hrun
  | discover t => exact discover_step h hrun
  | timeout ref =>
    obtain ⟨e, he, rfl, htimer⟩ := hready
    exact timeout_step hmax h he htimer hrun
  | cancel d => exact cancel_step h hrun

theorem DiscRun.inv {M : ℕ} (hM : 1 ≤ M) (hmax : conf .maxRequestRexmt < 4294967296)
    (h : DiscRun M conf s past) :
    DiscInv conf s past ∧ ∀ st pre, st :: pre <:+ past → DiscStepOk conf pre st := by
  induction h with
  | init ht hconf hheld =>
    refine ⟨⟨⟨?_, ?_, ?_, ?_, ?_, ?_⟩, hconf, hheld, ?_, fun _ _ => rfl⟩, fun st pre hs => ?_⟩
    · rw [ht]; exact hM
    · rw [ht]; rfl
    · rw [ht]; exact Nat.zero_le _
    · rw [ht]; exact List.nodup_nil
    · rw [ht]; exact List.nodup_nil
    · rw [ht]; exact fun e he => absurd he List.not_mem_nil
    · rw [ht]; exact fun e he => absurd he List.not_mem_nil
    · exact absurd (List.suffix_nil.mp hs) (List.cons_ne_nil st pre)
  | env _ htbl hbrk hconf hheld ih => exact ⟨ih.1.env htbl hbrk hconf hheld, ih.2⟩
  | step op _ hready hrun ih =>
    obtain ⟨hinv, hok⟩ := ih.1.step hmax hready hrun
    refine ⟨hinv, fun st pre hs => ?_⟩
    rcases List.suffix_cons_iff.mp hs with heq | hs
    · injection heq with hst hpre
      subst hst hpre
      exact hok
    · exact ih.2 st pre hs

structure Requested (conf : ConfVal → ℕ) (d : InAddr) (j : ℕ) (s s' : DsrNode) : Prop where
  sent : ∃ pre dp due tail, s'.out = s.out ++ (pre ++ .xmit .rreqSend dp due :: tail) ∧
    rreqTarget dp = some d ∧ dp.iph.ttl = min (2 ^ j) 255 ∧ (∀ e ∈ pre, isRreqXmit e = false) ∧
    ∀ e ∈ tail, isRreqXmit e = false
  armed : ∃ e ∈ s'.rreqTbl.head, e.nodeAddr = d ∧ e.state = .inRouteDisc ∧ e.timeout = discTimeout conf j ∧
    e.timer = some (timevalAddUsecs s.now (discTimeout conf j))

structure BackOff (conf : ConfVal → ℕ) (s : DsrNode) (past : List DiscStep) : Prop where
  timer : ∀ e ∈ s.rreqTbl.head, e.timer.isSome ↔ e.state = .inRouteDisc
  active : ∀ d, (discState d past).isSome ↔ ∃ e ∈ s.rreqTbl.head, e.nodeAddr = d ∧ e.state = .inRouteDisc
  pending : ∀ e ∈ s.rreqTbl.head, e.state = .inRouteDisc → ∃ j t, discState e.nodeAddr past = some (j + 1, t) ∧
    j ≤ conf .maxRequestRexmt ∧ e.ttl = min (2 ^ j) 255 ∧ e.timeout = discTimeout conf j ∧
    e.timer = some (timevalAddUsecs t (discTimeout conf j))
  busy : ∀ d, (discState d past).isSome → ∃ s', dsrRreqRouteDiscovery d s = .ok () s' ∧ s'.out = s.out
  discovers : ∀ d, discState d past = none →
    ∃ s', dsrRreqRouteDiscovery d s = .ok () s' ∧ Requested conf d 0 s s'
  retries : ∀ e ∈ s.rreqTbl.head, ∀ j t, discState e.nodeAddr past = some (j + 1, t) →
    j < conf .maxRequestRexmt → ∃ s', rreqTblTimeout e.ref s = .ok () s' ∧ Requested conf e.nodeAddr (j + 1) s s'
  exhausts : ∀ e ∈ s.rreqTbl.head, ∀ t, discState e.nodeAddr past = some (conf .maxRequestRexmt + 1, t) →
    ∃ s', rreqTblTimeout e.ref s = .ok () s' ∧ s'.out = s.out ++ [.discovery e.nodeAddr .maxRexmt]
  cancels : ∀ d, ∃ s', rreqTblRouteDiscoveryCancel d s = .ok () s' ∧ s'.out = s.out ++ [.discovery d .cancelled]
  steps : ∀ st pre, st :: pre <:+ past → DiscStepOk conf pre st

theorem isRreqXmit_evicted (h : RreqWf s) {e : Event} (he : e ∈ s.rreqEvicted a) : isRreqXmit e = false := by
  obtain ⟨d, rfl⟩ := evicted_shape h he
  rfl

theorem isRreqXmit_sends {tail : List Event} (h : ∀ e ∈ tail, ∃ f, e = Event.send .rreqSend f) :
    ∀ e ∈ tail, isRreqXmit e = false := by
  intro e he
  obtain ⟨f, rfl⟩ := h e he
  rfl

theorem discover_requested (h : DiscInv conf s past) (hsent : RreqSent a ttlStart
    ((s.touched a (startDisc s.now (nonpropUsecs s))).emits [.discovery a .started]) s') :
    Requested conf a 0 s s' := by
  obtain ⟨dp, due, tail, hdp, rfl, htail⟩ := hsent.dp
  have htimeout : nonpropUsecs s = discTimeout conf 0 := by
    rw [nonpropUsecs, h.confvals]
    rfl
  refine ⟨⟨s.rreqEvicted a ++ [.discovery a .started], dp, due, tail, ?_, rreqPkt_target hdp,
    sentTtl (j := 0) hdp, ?_, isRreqXmit_sends htail⟩, startDisc s.now (nonpropUsecs s) (s.rreqEntry a),
    List.mem_append_right _ (List.mem_singleton_self _), rreqEntry_addr s a, rfl, htimeout, ?_⟩
  · change s.out ++ s.rreqEvicted a ++ [Event.discovery a .started] ++ Event.xmit .rreqSend dp due :: tail = _
    rw [List.append_assoc, List.append_assoc, List.append_assoc]
  · intro e he
    rcases List.mem_append.mp he with he | he
    · exact isRreqXmit_evicted h.wf he
    · rw [List.mem_singleton.mp he]
      rfl
  · rw [← htimeout]
    rfl

theorem retry_requested (h : DiscInv conf s past) {e : RreqTblEntry} (he : e ∈ s.rreqTbl.head)
    (hst : e.state = .inRouteDisc) (hin : InDisc conf cur e) {s₁ : DsrNode} (hsent : RreqSent e.nodeAddr (nextTtl e.ttl) s s₁) :
    Requested conf e.nodeAddr (e.numRexmts + 1) s (s₁.touched e.nodeAddr
      (retryDisc s.now (usecsOf .maxRequestPeriod (conf .maxRequestPeriod)))) := by
  obtain ⟨dp, due, tail, hdp, rfl, htail⟩ := hsent.dp
  have hfa := rreqFind_of_mem h.wf he
  have hev : s.rreqEvicted e.nodeAddr = [] := rreqEvicted_found (by rw [hfa]; rfl)
  have hent : s.rreqEntry e.nodeAddr = e := by
    rw [DsrNode.rreqEntry, hfa]
    rfl
  have ht := rreqPkt_target hdp
  have htimeout : nextTimeout (usecsOf .maxRequestPeriod (conf .maxRequestPeriod)) e.timeout =
      discTimeout conf (e.numRexmts + 1) := by
    rw [hin.timeout, nextTimeout_eq]
  rw [hin.ttl, nextTtl_eq] at hdp
  refine ⟨⟨[], dp, due, tail, ?_, ht, sentTtl hdp, fun _ h => absurd h List.not_mem_nil,
    isRreqXmit_sends htail⟩, retryDisc s.now (usecsOf .maxRequestPeriod (conf .maxRequestPeriod)) e, ?_, rfl, ?_,
    htimeout, ?_⟩
  · change (s.out ++ Event.xmit .rreqSend dp due :: tail) ++ s.rreqEvicted e.nodeAddr = _
    rw [hev, List.append_nil]
    rfl
  · refine List.mem_append_right _ (List.mem_singleton.mpr ?_)
    change _ = retryDisc _ _ (s.rreqEntry e.nodeAddr)
    rw [hent]
  · exact hst
  · rw [← htimeout]
    rfl

theorem DiscInv.active (h : DiscInv conf s past) (d : InAddr) : (discState d past).isSome ↔
    ∃ e ∈ s.rreqTbl.head, e.nodeAddr = d ∧ e.state = .inRouteDisc := by
  constructor
  · intro hs
    cases hf : s.rreqFind d with
    | none =>
      rw [h.absent d hf] at hs
      cases hs
    | some e =>
      obtain ⟨hm, rfl⟩ := rreqFind_mem hf
      refine ⟨e, hm, rfl, ?_⟩
      cases hst : e.state with
      | idle =>
        rw [((h.entries e hm).1 hst).2] at hs
        cases hs
      | inRouteDisc => rfl
  · rintro ⟨e, hm, rfl, hst⟩
    obtain ⟨t, hcur, -⟩ := ((h.entries e hm).2 hst).sent
    rw [hcur]
    rfl

theorem DiscInv.busy (h : DiscInv conf s past) (hact : (discState d past).isSome) :
    ∃ s', dsrRreqRouteDiscovery d s = .ok () s' ∧ s'.out = s.out := by
  obtain ⟨e, he, rfl, hst⟩ := (h.active d).mp hact
  have hf := rreqFind_of_mem h.wf he
  have hent : (s.rreqEntry e.nodeAddr).state = .inRouteDisc := by
    rw [DsrNode.rreqEntry, hf]
    exact hst
  obtain ⟨_, s', hrun, hbusy, -⟩ := ok_of_wp (dsrRreqRouteDiscovery_wp h.wf h.held)
  refine ⟨s', hrun, ?_⟩
  rw [hbusy hent]
  change s.out ++ s.rreqEvicted e.nodeAddr = s.out
  rw [rreqEvicted_found (by rw [hf]; rfl), List.append_nil]

theorem DiscInv.discovers (h : DiscInv conf s past) (hidle : discState d past = none) :
    ∃ s', dsrRreqRouteDiscovery d s = .ok () s' ∧ Requested conf d 0 s s' := by
  obtain ⟨_, s', hrun, -, hstart⟩ := ok_of_wp (dsrRreqRouteDiscovery_wp h.wf h.held)
  refine ⟨s', hrun, discover_requested h (hstart fun hst => ?_)⟩
  obtain ⟨t, hcur, -⟩ := ((h.entry d).2 hst).sent
  rw [hidle] at hcur
  cases hcur

theorem DiscInv.inDisc (h : DiscInv conf s past) {e : RreqTblEntry} (he : e ∈ s.rreqTbl.head) {j : ℕ}
    {t : Timeval} (hcur : discState e.nodeAddr past = some (j + 1, t)) :
    e.state = .inRouteDisc ∧ InDisc conf (discState e.nodeAddr past) e ∧ e.numRexmts = j := by
  cases hst : e.state with
  | idle =>
    rw [((h.entries e he).1 hst).2] at hcur
    cases hcur
  | inRouteDisc =>
    have hin := (h.entries e he).2 hst
    obtain ⟨t', hcur', -⟩ := hin.sent
    rw [hcur] at hcur'
    cases hcur'
    exact ⟨rfl, hin, rfl⟩

theorem DiscInv.retries (h : DiscInv conf s past) {e : RreqTblEntry} (he : e ∈ s.rreqTbl.head) {j : ℕ}
    {t : Timeval} (hcur : discState e.nodeAddr past = some (j + 1, t)) (hlt : j < conf .maxRequestRexmt) :
    ∃ s', rreqTblTimeout e.ref s = .ok () s' ∧ Requested conf e.nodeAddr (j + 1) s s' := by
  obtain ⟨hst, hin, rfl⟩ := h.inDisc he hcur
  obtain ⟨_, s', hrun, -, hretry⟩ := ok_of_wp (rreqTblTimeout_wp h.wf h.held he)
  rw [h.confvals] at hretry
  obtain ⟨s₁, hsent, rfl⟩ := hretry hlt
  exact ⟨_, hrun, retry_requested h he hst hin hsent⟩

theorem DiscInv.exhausts (h : DiscInv conf s past) {e : RreqTblEntry} (he : e ∈ s.rreqTbl.head) {t : Timeval}
    (hcur : discState e.nodeAddr past = some (conf .maxRequestRexmt + 1, t)) :
    ∃ s', rreqTblTimeout e.ref s = .ok () s' ∧ s'.out = s.out ++ [.discovery e.nodeAddr .maxRexmt] := by
  obtain ⟨-, -, hnum⟩ := h.inDisc he hcur
  obtain ⟨_, s', hrun, hend, -⟩ := ok_of_wp (rreqTblTimeout_wp h.wf h.held he)
  refine ⟨s', hrun, ?_⟩
  rw [hend (by rw [h.confvals, hnum])]
  have hev : s.rreqEvicted e.nodeAddr = [] := rreqEvicted_found (by rw [rreqFind_of_mem h.wf he]; rfl)
  change (s.out ++ [Event.discovery e.nodeAddr .maxRexmt]) ++ s.rreqEvicted e.nodeAddr = _
  rw [hev, List.append_nil]

theorem DiscInv.cancels (h : DiscInv conf s past) (d : InAddr) :
    ∃ s', rreqTblRouteDiscoveryCancel d s = .ok () s' ∧ s'.out = s.out ++ [.discovery d .cancelled] := by
  obtain ⟨_, s', hrun, hno, hstop⟩ := ok_of_wp (rreqTblRouteDiscoveryCancel_wp h.wf h.held)
  refine ⟨s', hrun, ?_⟩
  cases hf : s.rreqFind d with
  | none =>
    rw [hno hf]
    rfl
  | some e =>
    have hev : s.rreqEvicted d = [] := rreqEvicted_found (by rw [hf]; rfl)
    rw [hstop (by rw [hf]; exact Option.some_ne_none e)]
    change (s.out ++ [Event.discovery d .cancelled]) ++ s.rreqEvicted d = _
    rw [hev, List.append_nil]

theorem route_discovery_backs_off {M : ℕ} (hM : 1 ≤ M) (hmax : conf .maxRequestRexmt < 4294967296)
    (h : DiscRun M conf s past) : BackOff conf s past := by
  obtain ⟨hinv, hsteps⟩ := h.inv hM hmax
  refine ⟨fun e he => ?_, hinv.active, fun e he hst => ?_, fun d hact => hinv.busy hact,
    fun d hidle => hinv.discovers hidle, fun e he j t hcur hlt => hinv.retries he hcur hlt,
    fun e he t hcur => hinv.exhausts he hcur, hinv.cancels, hsteps⟩
  · constructor
    · intro htimer
      cases hst : e.state with
      | idle =>
        rw [((hinv.entries e he).1 hst).1] at htimer
        cases htimer
      | inRouteDisc => rfl
    · intro hst
      obtain ⟨t, -, htimer⟩ := ((hinv.entries e he).2 hst).sent
      rw [htimer]
      rfl
  · have hin := (hinv.entries e he).2 hst
    obtain ⟨t, hcur, htimer⟩ := hin.sent
    refine ⟨e.numRexmts, t, hcur, hin.rexmts, hin.ttl, hin.timeout, ?_⟩
    rw [← hin.timeout]
    exact htimer

end Invariant

instance (s : DsrNode) (op : DiscOp) : Decidable (op.ready s) :=
  match op with
  | .timeout ref => inferInstanceAs (Decidable (∃ e ∈ s.rreqTbl.head, e.ref = ref ∧ e.timer.isSome))
  | .addId _ _ _ => isTrue trivial
  | .discover _ => isTrue trivial
  | .cancel _ => isTrue trivial

def discDrive (s : DsrNode) (past : List DiscStep) : List (Timeval × DiscOp) → Option (DsrNode × List DiscStep)
  | [] => some (s, past)
  | (now, op) :: rest =>
      if op.ready s then
        match op.exec { s with now := now } with
        | .ok _ s' => discDrive s' (⟨now, op, s'.out.drop s.out.length⟩ :: past) rest
        | .error _ _ => none
      else none

theorem DiscRun.drive {M : ℕ} {conf : ConfVal → ℕ} (hM : 1 ≤ M) (hmax : conf .maxRequestRexmt < 4294967296)
    (ops : List (Timeval × DiscOp)) : ∀ {s s' : DsrNode} {past past' : List DiscStep}, DiscRun M conf s past →
    discDrive s past ops = some (s', past') → DiscRun M conf s' past' := by
  induction ops with
  | nil =>
    intro s s' past past' h hd
    cases hd
    exact h
  | cons x rest ih =>
    obtain ⟨now, op⟩ := x
    intro s s' past past' h hd
    have hinv := (h.inv hM hmax).1
    unfold discDrive at hd
    split at hd
    · next hready =>
      split at hd
      · next s₁ hrun =>
        have henv : DiscRun M conf { s with now := now } past := h.env rfl rfl hinv.confvals hinv.held
        exact ih (henv.step op hready hrun) hd
      · cases hd
    · cases hd

def discNode : DsrNode := dsrNodeInit ⟨10, 0, 0, 1⟩ confvalsDef true 8 ⟨100, 0⟩ (fun _ => 0) 0

theorem route_discovery_backs_off_started : ∃ s past, DiscRun 64 confvalsDef s past ∧
    discState ⟨10, 0, 0, 3⟩ past = some (2, ⟨101, 0⟩) ∧
    (∃ e ∈ s.rreqTbl.head, e.timer = some (timevalAddUsecs ⟨101, 0⟩ (discTimeout confvalsDef 1))) ∧
    BackOff confvalsDef s past := by
  have hrun : (discDrive discNode [] [(⟨100, 0⟩, .discover ⟨10, 0, 0, 3⟩), (⟨101, 0⟩, .timeout 0)]).any
      (fun r => discState ⟨10, 0, 0, 3⟩ r.2 = some (2, ⟨101, 0⟩) ∧ ∃ e ∈ r.1.rreqTbl.head,
        e.timer = some (timevalAddUsecs ⟨101, 0⟩ (discTimeout confvalsDef 1))) = true := by decide +kernel
  obtain ⟨r, hr, hb⟩ := (Option.any_eq_true _ _).mp hrun
  obtain ⟨hsent, harmed⟩ := of_decide_eq_true hb
  have hinit : DiscRun 64 confvalsDef discNode [] := .init rfl rfl rfl
  have hreach := DiscRun.drive (by decide) (by decide) _ hinit hr
  exact ⟨r.1, r.2, hreach, hsent, harmed, route_discovery_backs_off (by decide) (by decide) hreach⟩

end DsrUu
