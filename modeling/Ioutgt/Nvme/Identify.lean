import Ioutgt.Lib.Bytes

/-!
# Identify data structures

The two 4096-byte structures, with the fields the target fills in; all other bytes are zero.
-/

namespace Ioutgt.Nvme

open Lib

def zeros (n : Nat) : List UInt8 := List.replicate n 0

@[simp] theorem zeros_length (n : Nat) : (zeros n).length = n := by simp [zeros]

def fit (pad : UInt8) (n : Nat) (src : List UInt8) : List UInt8 :=
  src.take n ++ List.replicate (n - src.length) pad

@[simp] theorem fit_length (pad : UInt8) (n : Nat) (src : List UInt8) :
    (fit pad n src).length = n := by
  simp only [fit, List.length_append, List.length_take, List.length_replicate]
  omega

def asciiPad (n : Nat) (src : List UInt8) : List UInt8 := fit 0x20 n src

def nulTerminate (n : Nat) (src : List UInt8) : List UInt8 := fit 0 n (src.take (n - 1))

@[simp] theorem asciiPad_length (n : Nat) (src : List UInt8) : (asciiPad n src).length = n :=
  fit_length ..

@[simp] theorem nulTerminate_length (n : Nat) (src : List UInt8) :
    (nulTerminate n src).length = n := fit_length ..

/-- Identify Controller (CNS 0x01). Strings are given without their padding. -/
structure IdentifyController where
  vid : Nat := 0
  ssvid : Nat := 0
  sn : List UInt8
  mn : List UInt8
  fr : List UInt8
  cmic : Nat
  mdts : Nat
  cntlid : Nat
  ver : Nat
  oaes : Nat
  ctratt : Nat
  cntrltype : Nat
  acl : Nat
  aerl : Nat
  kas : Nat
  sqes : Nat
  cqes : Nat
  maxcmd : Nat
  nn : Nat
  oncs : Nat
  vwc : Nat
  sgls : Nat
  subnqn : List UInt8
  ioccsz : Nat
  iorcsz : Nat
  icdoff : Nat
  deriving DecidableEq, Repr

def IdentifyController.asBytes (c : IdentifyController) : List UInt8 :=
  toLe 2 c.vid ++ toLe 2 c.ssvid ++ asciiPad 20 c.sn ++ asciiPad 40 c.mn ++ asciiPad 8 c.fr ++
    -- rab, ieee
    zeros 4 ++ toLe 1 c.cmic ++ toLe 1 c.mdts ++ toLe 2 c.cntlid ++ toLe 4 c.ver ++
    -- rtd3r, rtd3e
    zeros 8 ++ toLe 4 c.oaes ++ toLe 4 c.ctratt ++ zeros 11 ++ toLe 1 c.cntrltype ++
    -- fguid and reserved, then oacs
    zeros 144 ++ zeros 2 ++ toLe 1 c.acl ++ toLe 1 c.aerl ++ zeros 60 ++ toLe 2 c.kas ++
    zeros 190 ++ toLe 1 c.sqes ++ toLe 1 c.cqes ++ toLe 2 c.maxcmd ++ toLe 4 c.nn ++
    toLe 2 c.oncs ++ zeros 3 ++ toLe 1 c.vwc ++ zeros 10 ++ toLe 4 c.sgls ++ zeros 228 ++
    nulTerminate 256 c.subnqn ++ zeros 768 ++ toLe 4 c.ioccsz ++ toLe 4 c.iorcsz ++
    toLe 2 c.icdoff ++ zeros 2294

@[simp] theorem IdentifyController.asBytes_length (c : IdentifyController) :
    c.asBytes.length = 4096 := by
  unfold asBytes
  simp only [List.length_append, toLe_length, zeros_length, asciiPad_length, nulTerminate_length]

structure IdentifyNamespace where
  nsze : Nat := 0
  ncap : Nat := 0
  nuse : Nat := 0
  nsfeat : Nat := 0
  nmic : Nat := 0
  dlfeat : Nat := 0
  nawun : Nat := 0
  nawupf : Nat := 0
  nacwu : Nat := 0
  npwg : Nat := 0
  npwa : Nat := 0
  npdg : Nat := 0
  npda : Nat := 0
  nows : Nat := 0
  lbads : Nat := 0
  deriving DecidableEq, Repr

def IdentifyNamespace.zeroed : IdentifyNamespace := {}

def IdentifyNamespace.asBytes (n : IdentifyNamespace) : List UInt8 :=
  toLe 8 n.nsze ++ toLe 8 n.ncap ++ toLe 8 n.nuse ++ toLe 1 n.nsfeat ++
    -- nlbaf, flbas, mc, dpc, dps
    zeros 5 ++ toLe 1 n.nmic ++ zeros 2 ++ toLe 1 n.dlfeat ++ toLe 2 n.nawun ++
    toLe 2 n.nawupf ++ toLe 2 n.nacwu ++ zeros 24 ++ toLe 2 n.npwg ++ toLe 2 n.npwa ++
    toLe 2 n.npdg ++ toLe 2 n.npda ++ toLe 2 n.nows ++ zeros 54 ++
    -- the metadata size of format 0, then its data size
    zeros 2 ++ toLe 1 n.lbads ++ zeros 3965

@[simp] theorem IdentifyNamespace.asBytes_length (n : IdentifyNamespace) :
    n.asBytes.length = 4096 := by
  unfold asBytes
  simp only [List.length_append, toLe_length, zeros_length]

end Ioutgt.Nvme
