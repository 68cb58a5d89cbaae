import DsrUu.Tbl
import DsrUu.Srt.Model

namespace DsrUu

def lcNodesMax : ℕ := 500
def lcLinksMax : ℕ := 100
def lcCostInf : ℕ := 4294967295
def lcHopsInf : ℕ := 4294967295

abbrev NodeRef := ℕ

structure LcNode where
  addr : InAddr
  links : ℕ
  cost : ℕ
  hops : ℕ
  pred : Option NodeRef
deriving DecidableEq, Repr, Inhabited

structure LcLink where
  src : NodeRef
  dst : NodeRef
  status : Int
  cost : ℕ
  expires : Timeval
deriving DecidableEq, Repr

structure LcGraph where
  heap : NodeRef → LcNode
  brk : NodeRef
  nodes : Tbl NodeRef
  links : Tbl LcLink
  src : Option NodeRef

namespace LcGraph

def addr (lc : LcGraph) (r : NodeRef) : InAddr := (lc.heap r).addr

def updNode (lc : LcGraph) (r : NodeRef) (f : LcNode → LcNode) : LcGraph :=
  { lc with heap := Function.update lc.heap r (f (lc.heap r)) }

end LcGraph

def lcInit : LcGraph :=
  { heap := fun _ => default, brk := 0, nodes := Tbl.init lcNodesMax,
    links := Tbl.init lcLinksMax, src := none }

def decLinks (lc : LcGraph) (r : NodeRef) : LcGraph :=
  lc.updNode r fun n => { n with links := decUint32 n.links }

def incLinks (lc : LcGraph) (r : NodeRef) : LcGraph :=
  lc.updNode r fun n => { n with links := incUint32 n.links }

def dropRef (lc : LcGraph) (r : NodeRef) : Option LcGraph :=
  if ((decLinks lc r).heap r).links = 0 then
    (lc.nodes.detach r).map fun t => { decLinks lc r with nodes := t }
  else some (decLinks lc r)

def unlockedLinkDel (lc : LcGraph) (link : LcLink) : Option LcGraph := do
  let lc ← dropRef lc link.src
  let lc ← dropRef lc link.dst
  let t ← lc.links.detach link
  pure { lc with links := t }

def critAddr (lc : LcGraph) (addr : InAddr) (r : NodeRef) : Bool := lc.addr r = addr

def critLinkQuery (lc : LcGraph) (src dst : InAddr) (l : LcLink) : Bool :=
  lc.addr l.src = src ∧ lc.addr l.dst = dst

def doLowestCost (lc : LcGraph) (cn : Option NodeRef) (n : NodeRef) : Option NodeRef :=
  if (lc.heap n).cost ≠ lcCostInf then
    match cn with
    | none => some n
    | some m => if (lc.heap n).cost < (lc.heap m).cost then some n else some m
  else cn

def doRelax (u : NodeRef) (lc : LcGraph) (link : LcLink) : LcGraph :=
  if link.src = u then
    let c := ((lc.heap u).cost + link.cost) % 4294967296
    if c < (lc.heap link.dst).cost then
      lc.updNode link.dst fun v =>
        { v with cost := c, hops := incUint32 (lc.heap u).hops, pred := some u }
    else lc
  else lc

def doInit (src : InAddr) (lc : LcGraph) (n : NodeRef) : LcGraph :=
  if lc.addr n = src then lc.updNode n fun v => { v with cost := 0, hops := 0, pred := some n }
  else lc.updNode n fun v => { v with cost := lcCostInf, hops := lcHopsInf, pred := none }

def lcNodeCreate (lc : LcGraph) (addr : InAddr) : LcGraph × NodeRef :=
  ({ lc with
      heap := Function.update lc.heap lc.brk
        { addr := addr, links := 0, cost := lcCostInf, hops := 0, pred := none }
      brk := lc.brk + 1 }, lc.brk)

def linkFind (lc : LcGraph) (src dst : InAddr) : Option LcLink :=
  lc.links.find (critLinkQuery lc src dst)

def linkTblAdd (lc : LcGraph) (now : Timeval) (src dst : NodeRef) (timeout : ℕ)
    (status cost : Int) : LcGraph :=
  let expires := timevalAddUsecs now timeout
  match linkFind lc (lc.addr src) (lc.addr dst) with
  | none =>
      let link : LcLink :=
        { src := src, dst := dst, status := status, cost := toUint32 cost, expires := expires }
      let lc := { lc with links := (lc.links.addTail link).getD lc.links }
      incLinks (incLinks lc src) dst
  | some _ =>
      let links := lc.links.findDo (critLinkQuery lc (lc.addr src) (lc.addr dst)) fun l =>
        { l with status := status, cost := toUint32 cost, expires := expires }
      { lc with links := links }

def nodeFindOrAdd (lc : LcGraph) (addr : InAddr) : LcGraph × NodeRef :=
  match lc.nodes.find (critAddr lc addr) with
  | some n => (lc, n)
  | none =>
      let (lc, n) := lcNodeCreate lc addr
      ({ lc with nodes := (lc.nodes.addTail n).getD lc.nodes }, n)

def unlockedLinkAdd (now : Timeval) (src dst : InAddr) (timeout : ℕ) (status cost : Int)
    (lc : LcGraph) : LcGraph :=
  let (lc, sn) := nodeFindOrAdd lc src
  let (lc, dn) := nodeFindOrAdd lc dst
  linkTblAdd lc now sn dn timeout status cost

def lcLinkAdd (now : Timeval) (src dst : InAddr) (timeout : ℕ) (status cost : Int)
    (lc : LcGraph) : LcGraph :=
  unlockedLinkAdd now src dst timeout status cost lc

def lcLinkDel (src dst : InAddr) (lc : LcGraph) : Option LcGraph :=
  match linkFind lc src dst with
  | none => some { lc with src := none }
  | some link => do
      let lc ← unlockedLinkDel lc link
      match linkFind lc dst src with
      | none => pure { lc with src := none }
      | some link => do
          let lc ← unlockedLinkDel lc link
          pure { lc with src := none }

def dijkstraInitSingleSource (src : InAddr) (lc : LcGraph) : LcGraph :=
  lc.nodes.head.foldl (doInit src) lc

def dijkstraFindLowestCostNode (lc : LcGraph) : Option NodeRef :=
  lc.nodes.head.foldl (doLowestCost lc) none

def lcMove : List NodeRef → Tbl NodeRef → Tbl NodeRef
  | [], t => t
  | n :: rest, t => lcMove rest ((t.addTail n).getD t)

def dijkstraLoop : ℕ → LcGraph → Tbl NodeRef → Option (LcGraph × Tbl NodeRef)
  | 0, lc, s => some (lc, s)
  | fuel + 1, lc, s =>
      match dijkstraFindLowestCostNode lc with
      | none => some (lc, s)
      | some u => do
          let t ← lc.nodes.detach u
          let lc := { lc with nodes := t }
          dijkstraLoop fuel (lc.links.head.foldl (doRelax u) lc) ((s.addTail u).getD s)

def dijkstra (src : InAddr) (lc : LcGraph) : Option LcGraph :=
  if lc.nodes.head = [] then some lc
  else
    let lc := dijkstraInitSingleSource src lc
    match lc.nodes.find (critAddr lc src) with
    | none => some lc
    | some srcNode => do
        let (lc, s) ← dijkstraLoop lc.nodes.head.length lc (Tbl.init lcNodesMax)
        pure { lc with nodes := lcMove s.head lc.nodes, src := some srcNode }

def predWalk (lc : LcGraph) : ℕ → NodeRef → Option (List NodeRef)
  | 0, _ => none
  | fuel + 1, n =>
      match (lc.heap n).pred with
      | none => none
      | some p => if n = p then some [] else (predWalk lc fuel p).map (n :: ·)

def writeAddrs (lc : LcGraph) (k : Int) : ℕ → List NodeRef → List (Int × InAddr)
  | _, [] => []
  | i, n :: ns => (k - i - 1, lc.addr n) :: writeAddrs lc k (i + 1) ns

def storeAddrs (writes : List (Int × InAddr)) (addrs : List InAddr) : List InAddr :=
  writes.foldl (fun as w => as.set w.1.toNat w.2) addrs

structure SrtFind where
  srt : Option DsrSrt
  writes : List (Int × InAddr)
  hops : ℕ
  hopCountError : Bool

def SrtFind.empty : SrtFind := { srt := none, writes := [], hops := 0, hopCountError := false }

def lcSrtBuild (mem : ℕ) (src dst : InAddr) (dstNode : NodeRef) (lc : LcGraph) :
    Option SrtFind := do
  let d := lc.heap dstNode
  let k : Int := toInt32 (decUint32 d.hops)
  let p ← d.pred
  let ns ← predWalk lc (lc.nodes.head.length + 1) p
  let writes := writeAddrs lc k 0 ns
  let srt : DsrSrt :=
    { src := src, dst := dst, flags := mem, laddrs := toUint32 (k * 4),
      addrs := storeAddrs writes (List.replicate k.toNat default) }
  let hopCountError : Bool := (ns.length : Int) + 1 ≠ toInt32 d.hops
  pure { srt := if hopCountError then none else some srt
         writes := writes
         hops := d.hops
         hopCountError := hopCountError }

def lcSrtFind (mem : ℕ) (src dst : InAddr) (lc : LcGraph) : Option (SrtFind × LcGraph) :=
  if src = dst then some (SrtFind.empty, lc)
  else do
    let lc ← dijkstra src lc
    match lc.nodes.find (critAddr lc dst) with
    | none => pure (SrtFind.empty, lc)
    | some dstNode =>
        if (lc.heap dstNode).cost ≠ lcCostInf ∧ (lc.heap dstNode).pred ≠ none then do
          let r ← lcSrtBuild mem src dst dstNode lc
          pure (r, lc)
        else pure (SrtFind.empty, lc)

def lcSrtAddLoop (now : Timeval) (timeout : ℕ) (bidir : Bool) :
    InAddr → List InAddr → LcGraph → LcGraph
  | _, [], lc => lc
  | addr1, addr2 :: rest, lc =>
      let lc := unlockedLinkAdd now addr1 addr2 timeout 0 1 lc
      let lc := if bidir then unlockedLinkAdd now addr2 addr1 timeout 0 1 lc else lc
      lcSrtAddLoop now timeout bidir addr2 rest lc

def lcSrtAdd (now : Timeval) (srt : DsrSrt) (timeout : ℕ) (lc : LcGraph) : LcGraph :=
  lcSrtAddLoop now timeout srt.bidir srt.src (srt.addrs.take srt.n ++ [srt.dst]) lc

def lcFlush (lc : LcGraph) : LcGraph :=
  { lc with links := lc.links.flush, nodes := lc.nodes.flush, src := none }

end DsrUu
