import DsrUu.Platform

namespace DsrUu

structure DsrSrt where
  src : InAddr
  dst : InAddr
  flags : ℕ
  laddrs : ℕ
  addrs : List InAddr
deriving DecidableEq, Repr

namespace DsrSrt

def bidir (srt : DsrSrt) : Bool := srt.flags % 2 = 1

def n (srt : DsrSrt) : ℕ := srt.laddrs / 4

def word (n : ℕ) : InAddr :=
  ⟨UInt8.ofNat n, UInt8.ofNat (n / 256), UInt8.ofNat (n / 65536), UInt8.ofNat (n / 16777216)⟩

def headerAt (srt : DsrSrt) (i : ℕ) : InAddr :=
  match i with
  | 1 => word srt.laddrs
  | 2 => word srt.flags
  | 3 => srt.dst
  | 4 => srt.src
  | _ => default

def addrAt (srt : DsrSrt) (i : Int) : InAddr :=
  if 0 ≤ i then srt.addrs.getD i.toNat default else srt.headerAt (-i).toNat

def path (srt : DsrSrt) : List InAddr := srt.src :: (srt.addrs.take srt.n ++ [srt.dst])

def WF (srt : DsrSrt) : Prop := srt.addrs.length = srt.n

end DsrSrt

def decodeAddrs : List UInt8 → List InAddr
  | b0 :: b1 :: b2 :: b3 :: rest => ⟨b0, b1, b2, b3⟩ :: decodeAddrs rest
  | _ => []

def InAddr.bytes (a : InAddr) : List UInt8 := [a.b0, a.b1, a.b2, a.b3]

def encodeAddrs (as : List InAddr) : List UInt8 := as.flatMap InAddr.bytes

def dsrSrtNextHop (srt : DsrSrt) (sleft : Int) : InAddr :=
  if sleft ≤ 0 then srt.dst else srt.addrAt (srt.n - sleft)

def dsrSrtPrevHop (srt : DsrSrt) (sleft : Int) : InAddr :=
  if (srt.n : Int) - 1 = sleft then srt.src else srt.addrAt (srt.n - 2 - sleft)

def dsrSrtFindAddr (srt : DsrSrt) (addr : InAddr) (sleft : ℕ) : Bool :=
  if srt.n = 0 ∨ srt.n < sleft ∨ sleft < 1 then false
  else (List.range sleft).any (fun i => srt.addrAt (srt.n - (sleft - i : Int)) = addr) ||
    addr = srt.dst

def dsrSrtNew (mem : ℕ) (src dst : InAddr) (length : ℕ) (addrs : List UInt8) : DsrSrt :=
  { src := src, dst := dst, flags := mem, laddrs := length,
    addrs := decodeAddrs (addrs.take length) }

def dsrSrtNewRev (mem : ℕ) (srt : DsrSrt) : DsrSrt :=
  { src := srt.dst, dst := srt.src, flags := mem, laddrs := srt.laddrs,
    addrs := (List.range srt.n).map fun i => srt.addrAt (srt.n - 1 - i) }

def dsrSrtNewSplit (mem : ℕ) (srt : DsrSrt) (addr : InAddr) : Option DsrSrt :=
  if srt.n = 0 then none
  else match (srt.addrs.take srt.n).findIdx? (· = addr) with
    | none => none
    | some i => some
      { src := srt.src, dst := srt.addrAt i, flags := mem, laddrs := 4 * i,
        addrs := srt.addrs.take i }

def dsrSrtNewSplitRev (mem : ℕ) (srt : DsrSrt) (addr : InAddr) : Option DsrSrt :=
  (dsrSrtNewSplit mem srt addr).map (dsrSrtNewRev mem)

def shortcutNum (srt : DsrSrt) (a : InAddr) : Int → Int → List InAddr → Int
  | num, _, [] => num
  | num, i, x :: xs => shortcutNum srt a (if x = a then i + 1 else num) (i + 1) xs

def shortcutAddrs (a1Num a2Num : Int) : Int → List InAddr → List InAddr
  | _, [] => []
  | i, x :: xs =>
      if i + 1 > a1Num ∧ i + 1 < a2Num then shortcutAddrs a1Num a2Num (i + 1) xs
      else x :: shortcutAddrs a1Num a2Num (i + 1) xs

def dsrSrtShortcut (mem : ℕ) (srt : DsrSrt) (a1 a2 : InAddr) : DsrSrt :=
  let as := srt.addrs.take srt.n
  let a1Num := shortcutNum srt a1 (if srt.src = a1 then 0 else -1) 0 as
  let a2Num := if srt.dst = a2 then (srt.n : Int) + 1 else shortcutNum srt a2 (-1) 0 as
  let nCut := (srt.n : Int) - (a2Num - a1Num - 1)
  { src := srt.src, dst := srt.dst, flags := mem, laddrs := toUint32 (nCut * 4),
    addrs := if nCut * 4 = 0 then [] else shortcutAddrs a1Num a2Num 0 as }

def dsrSrtConcatenate (mem : ℕ) (srt1 srt2 : DsrSrt) : DsrSrt :=
  { src := srt1.src, dst := srt2.dst, flags := mem, laddrs := (srt1.n + srt2.n + 1) * 4,
    addrs := srt1.addrs.take srt1.n ++ srt2.src :: srt2.addrs.take srt2.n }

def checkDuplicateLoop (dst : InAddr) (buf : List InAddr) : List InAddr → Bool
  | [] => buf.any (· = dst)
  | a :: as => if buf.any (· = a) then true else checkDuplicateLoop dst (buf ++ [a]) as

def dsrSrtCheckDuplicate (srt : DsrSrt) : Bool :=
  checkDuplicateLoop srt.dst [srt.src] (srt.addrs.take srt.n)

end DsrUu
