import Ioutgt.Core.Port
import Ioutgt.Nvme.Spec

/-!
# Fabrics command capsules

Fabrics commands share one admin opcode; bytes 4..64 of the submission queue entry are read again
by `fctype`.
-/

namespace Ioutgt.Nvme

open Lib Ioutgt.Core

def Fctype.propertySet : Nat := 0x00
def Fctype.connect : Nat := 0x01
def Fctype.propertyGet : Nat := 0x04

def Property.cap : Nat := 0x00
def Property.vs : Nat := 0x08
def Property.cc : Nat := 0x14
def Property.csts : Nat := 0x1C

def discoveryNqn : Nqn := utf8 "nqn.2014-08.org.nvmexpress.discovery"

structure ConnectCommand where
  cid : Nat
  recfmt : Nat
  qid : Nat
  sqsize : Nat
  cattr : Nat
  kato : Nat
  deriving DecidableEq, Repr

def ConnectCommand.refFromBytes (bs : List UInt8) : ConnectCommand where
  cid := leAt bs 2 2
  recfmt := leAt bs 40 2
  qid := leAt bs 42 2
  sqsize := leAt bs 44 2
  cattr := byteAt bs 46
  kato := leAt bs 48 4

structure ConnectData where
  hostid : List UInt8
  cntlid : Nat
  subsysnqn : List UInt8
  hostnqn : List UInt8
  deriving DecidableEq, Repr

def ConnectData.readFromBytes (bs : List UInt8) : ConnectData where
  hostid := slice bs 0 16
  cntlid := leAt bs 16 2
  subsysnqn := slice bs 256 256
  hostnqn := slice bs 512 256

structure PropertyCommand where
  cid : Nat
  offset : Nat
  value : Nat
  deriving DecidableEq, Repr

def PropertyCommand.refFromBytes (bs : List UInt8) : PropertyCommand where
  cid := leAt bs 2 2
  offset := leAt bs 44 4
  value := leAt bs 48 8

/-! ## NQN fields -/

def isWhitespace (c : Char) : Bool :=
  let n := c.toNat
  (9 ≤ n && n ≤ 13) || n = 0x20 || n = 0x85 || n = 0xA0 || n = 0x1680 ||
    (0x2000 ≤ n && n ≤ 0x200A) || n = 0x2028 || n = 0x2029 || n = 0x202F || n = 0x205F ||
    n = 0x3000

def trimEnd (s : String) : String :=
  String.ofList (s.toList.reverse.dropWhile isWhitespace).reverse

def nqnStr (raw : List UInt8) : Nqn :=
  match String.fromUTF8? ⟨(raw.takeWhile (· ≠ 0)).toArray⟩ with
  | some s => utf8 (trimEnd s)
  | none => []

end Ioutgt.Nvme
