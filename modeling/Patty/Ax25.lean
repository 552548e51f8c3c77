import Mathlib.Data.Fintype.Pi
import Mathlib.Data.List.AList
import Patty.Lib.Bytes

/-! # Addresses (`ax25.h`, `ax25.c`, `hash.c`)

A `patty_ax25_addr` is seven octets: six callsign characters, each shifted left by one, and the
SSID octet with its flag bits. `hashAddr` and `hashAddrpair` are the keys under which the server
files its sockets; they see the callsign characters and the SSID number, not the flags. -/

namespace Patty

abbrev PATTY_AX25_CALLSTRLEN : Nat := 6
abbrev PATTY_AX25_MAX_HOPS : Nat := 8
abbrev PATTY_AX25_SOCK_PATH_SIZE : Nat := 256

instance : @NeZero Nat Zero.ofOfNat0 PATTY_AX25_CALLSTRLEN := ⟨Nat.succ_ne_zero 5⟩

instance : @NeZero Nat Zero.ofOfNat0 PATTY_AX25_MAX_HOPS := ⟨Nat.succ_ne_zero 7⟩

/-- A dictionary (`dict.h`), taken as a finite map. -/
abbrev Dict (κ α : Type) [DecidableEq κ] := AList fun _ : κ => α

structure Addr where
  callsign : Fin 6 → UInt8
  ssid : UInt8
  deriving DecidableEq

namespace Addr

/-- The address `memset` to zero. -/
def zero : Addr := ⟨fun _ => 0, 0⟩

instance : Inhabited Addr := ⟨zero⟩

/-- The seven octets at `off`. -/
def ofMem (m : Mem) (off : Nat) : Addr :=
  ⟨fun i => m (off + i), m (off + 6)⟩

def toBytes (a : Addr) : Bytes := List.ofFn a.callsign ++ [a.ssid]

/-- `addr->callsign[0] != '\0'`. -/
def isSet (a : Addr) : Bool := a.callsign 0 != 0

@[simp] theorem length_toBytes (a : Addr) : a.toBytes.length = 7 := by simp [toBytes]

end Addr

/-- `PATTY_AX25_ADDR_CHAR_VALID`. -/
def addrCharValid (c : UInt8) : Bool := 0x20 ≤ c && c ≤ 0x7e

/-- `PATTY_AX25_ADDR_OCTET_LAST`. -/
def addrOctetLast (c : UInt8) : Bool := c &&& 0x01 == 0x01

/-- `PATTY_AX25_ADDR_SSID_NUMBER`. -/
def addrSsidNumber (c : UInt8) : UInt8 := (c &&& 0x1e) >>> 1

/-- `PATTY_AX25_ADDR_SSID_C`. -/
def addrSsidC (c : UInt8) : Bool := c &&& 0x80 == 0x80

/-- `patty_ax25_addr_copy`: the octets as they go on the wire. -/
def addrCopy (addr : Addr) (ssidFlags : UInt8) : Bytes :=
  List.ofFn addr.callsign ++ [ssidFlags ||| 0x60 ||| (addr.ssid &&& 0x1e)]

@[simp] theorem length_addrCopy (a : Addr) (f : UInt8) : (addrCopy a f).length = 7 := by
  simp [addrCopy]

/-! ## Addresses as text -/

abbrev PATTY_AX25_ADDRSTRLEN : Nat := PATTY_AX25_CALLSTRLEN + 3

/-- The variables of `patty_ax25_pton`. -/
structure Pton where
  inSsid : Bool
  o : Nat
  digits : Nat
  ssid : Nat
  addr : Addr

/-- The body of the loop of `patty_ax25_pton` for the character `c`. A seventh octet of the callsign
goes where the SSID is. -/
def Pton.step (p : Pton) (c : UInt8) : Option Pton :=
  if p.inSsid then
    if p.digits = 2 then none
    else if 0x30 ≤ c && c ≤ 0x39 then
      some { p with ssid := p.ssid * 10 + (c - 0x30).toNat, digits := p.digits + 1 }
    else none
  else if PATTY_AX25_CALLSTRLEN < p.o then none
  else if c = 0x2d then some { p with inSsid := true }
  else if addrCharValid c then
    let b := (c &&& 0x7f) <<< 1
    some { p with
      o := p.o + 1
      addr :=
        if p.o = PATTY_AX25_CALLSTRLEN then { p.addr with ssid := b }
        else { p.addr with callsign := fun i => if i.val = p.o then b else p.addr.callsign i } }
  else none

/-- `patty_ax25_pton` into `addr`. What it has stored when it fails is left out, since the address is
then discarded. -/
def pton (callsign : Bytes) (addr : Addr) : Option Addr :=
  let callsign := callsign.take PATTY_AX25_ADDRSTRLEN
  if callsign.isEmpty then none
  else
    match callsign.foldlM Pton.step ⟨false, 0, 0, 0, addr⟩ with
    | none => none
    | some p =>
      if 15 < p.ssid then none
      else if callsign.getLast? = some 0x2d then none
      else some
        { callsign := fun i => if i.val < p.o then p.addr.callsign i else (0x20 : UInt8) <<< 1
          ssid := UInt8.ofNat ((p.ssid &&& 0x0f) <<< 1) }

/-! ## Hashes -/

/-- `patty_hash_init`. -/
def hashInit : UInt32 := 0xffffffdf

def hashByte (hash : UInt32) (c : UInt8) : UInt32 :=
  let hash := hash + c.toUInt32
  let hash := hash + (hash <<< 10)
  hash ^^^ (hash >>> 6)

/-- `patty_hash_end`. -/
def hashEnd (hash : UInt32) : UInt32 :=
  let hash := hash + (hash <<< 3)
  let hash := hash ^^^ (hash >>> 11)
  hash + (hash <<< 15)

/-- `c >> 1` of a callsign octet: the field has type `char`, so that the shift is arithmetic. -/
def charShr1 (c : UInt8) : UInt8 := (c >>> 1) ||| (c &&& 0x80)

/-- `patty_ax25_addr_hash`. -/
def addrHash (hash : UInt32) (addr : Addr) : UInt32 :=
  let hash := (List.ofFn addr.callsign).foldl (fun h c => hashByte h (charShr1 c)) hash
  hashByte hash (addrSsidNumber addr.ssid)

/-- The key of an address: `hash_addr`, and the same steps in `sock_by_addr`. -/
def hashAddr (addr : Addr) : UInt32 := hashEnd (addrHash hashInit addr)

/-- The key of a pair of addresses: `hash_addrpair`, and the same steps in `sock_by_addrpair`. -/
def hashAddrpair (localAddr remote : Addr) : UInt32 :=
  hashEnd (addrHash (addrHash hashInit localAddr) remote)

/-- Two addresses the hash does not tell apart: the same callsign and SSID number. -/
def Addr.Same (a b : Addr) : Prop :=
  a.callsign = b.callsign ∧ addrSsidNumber a.ssid = addrSsidNumber b.ssid

theorem Addr.Same.refl (a : Addr) : a.Same a := ⟨rfl, rfl⟩

theorem Addr.Same.symm {a b : Addr} (h : a.Same b) : b.Same a := ⟨h.1.symm, h.2.symm⟩

theorem Addr.Same.trans {a b c : Addr} (h : a.Same b) (h' : b.Same c) : a.Same c :=
  ⟨h.1.trans h'.1, h.2.trans h'.2⟩

theorem Addr.Same.addrHash {a b : Addr} (h : a.Same b) (x : UInt32) :
    addrHash x a = addrHash x b := by
  simp only [Patty.addrHash, h.1, h.2]

theorem Addr.Same.hashAddr {a b : Addr} (h : a.Same b) : hashAddr a = hashAddr b := by
  simp only [Patty.hashAddr, h.addrHash]

theorem Addr.Same.hashAddrpair {a b c d : Addr} (h : a.Same b) (h' : c.Same d) :
    hashAddrpair a c = hashAddrpair b d := by
  simp only [Patty.hashAddrpair, h.addrHash, h'.addrHash]

end Patty
