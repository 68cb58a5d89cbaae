import Mathlib.Data.List.Basic
import Mathlib.Data.Nat.Notation

namespace DsrUu

structure InAddr where
  b0 : UInt8
  b1 : UInt8
  b2 : UInt8
  b3 : UInt8
deriving DecidableEq, Repr, Inhabited

def dsrBroadcast : InAddr := ⟨255, 255, 255, 255⟩

structure Timeval where
  tvSec : Int
  tvUsec : Int
deriving DecidableEq, Repr, Inhabited

def timevalDiff (tv1 tv2 : Timeval) : Int :=
  (tv1.tvSec - tv2.tvSec) * 1000000 + tv1.tvUsec - tv2.tvUsec

def timevalAddUsecs (tv : Timeval) (usecs : ℕ) : Timeval :=
  let add := tv.tvUsec + usecs
  { tvSec := tv.tvSec + add.tdiv 1000000, tvUsec := add.tmod 1000000 }

def toUint32 (n : Int) : ℕ := (n % 4294967296).toNat

def toInt32 (n : ℕ) : Int :=
  if n % 4294967296 < 2147483648 then ((n % 4294967296 : ℕ) : Int)
  else ((n % 4294967296 : ℕ) : Int) - 4294967296

def toUint64 (n : Int) : ℕ := (n % 18446744073709551616).toNat

def toInt64 (n : Int) : Int :=
  if n % 18446744073709551616 < 9223372036854775808 then n % 18446744073709551616
  else n % 18446744073709551616 - 18446744073709551616

def incUint32 (n : ℕ) : ℕ := (n + 1) % 4294967296

def decUint32 (n : ℕ) : ℕ := (n + 4294967295) % 4294967296

end DsrUu
