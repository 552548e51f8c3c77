import Patty.Lib.Mix
import Patty.Lookup

/-! # What a hash tells apart (`hash.c`, `ax25.c`)

The tables compare the hashes of stations and nothing else, and different stations may share one. The step
of the hash loses nothing (`hashByte_mixes`), and neither does its end, so that data that differ in one octet
only have different hashes (`hash_apart`), and a lookup never finds the socket of stations that differ from
those asked for in one character or one SSID number only (`lookups_apart`). -/

namespace Patty

open Prog Mix

/-! ## `hash.c` -/

/-- `patty_hash_data` -/
def hashData (hash : UInt32) (data : Bytes) : UInt32 := data.foldl hashByte hash

/-- `patty_hash` -/
def hash (data : Bytes) : UInt32 := hashEnd (hashData hashInit data)

/-! ## Nothing is lost -/

theorem toUInt32_injective : Function.Injective UInt8.toUInt32 := by
  intro c d h
  have h : c.toUInt32.toNat = d.toUInt32.toNat := congrArg UInt32.toNat h
  rw [UInt8.toNat_toUInt32, UInt8.toNat_toUInt32] at h
  exact UInt8.toNat_inj.mp h

theorem hashByte_eq {x y : UInt32} {c d : UInt8} (h : hashByte x c = hashByte y d) :
    x + c.toUInt32 = y + d.toUInt32 := by
  have h := xor_shiftRight_injective (k := 6) (by decide) (congrArg UInt32.toBitVec h)
  exact UInt32.toBitVec_inj.mp (add_shiftLeft_injective (k := 10) (by decide) h)

theorem hashByte_mixes : Mixes hashByte where
  word _ _ _ h := (UInt32.add_left_inj _).mp (hashByte_eq h)
  taken _ _ _ h := toUInt32_injective ((UInt32.add_right_inj _).mp (hashByte_eq h))

theorem hashEnd_injective : Function.Injective hashEnd := by
  intro x y h
  have h := add_shiftLeft_injective (k := 15) (by decide) (congrArg UInt32.toBitVec h)
  have h := xor_shiftRight_injective (k := 11) (by decide) h
  exact UInt32.toBitVec_inj.mp (add_shiftLeft_injective (k := 3) (by decide) h)

theorem hash_apart {data data' : Bytes} (h : OneApart data data') : hash data ≠ hash data' :=
  fun heq => hashByte_mixes.foldl_ne h hashInit (hashEnd_injective heq)

/-! ## Stations -/

/-- What the hash takes in of a station: its characters and its SSID number. -/
def Addr.seen (a : Addr) : Bytes := (List.ofFn a.callsign).map charShr1 ++ [addrSsidNumber a.ssid]

theorem addrHash_seen (x : UInt32) (a : Addr) : addrHash x a = hashData x a.seen := by
  rw [hashData, Addr.seen, List.foldl_append, List.foldl_map]
  rfl

theorem hashAddr_seen (a : Addr) : hashAddr a = hash a.seen := by
  rw [hashAddr, addrHash_seen]
  rfl

theorem hashAddrpair_seen (a b : Addr) : hashAddrpair a b = hash (a.seen ++ b.seen) := by
  rw [hashAddrpair, addrHash_seen, addrHash_seen, hash, hashData, hashData, hashData, List.foldl_append]

/-- The stations differ in one character or in the SSID number, and in nothing else. -/
def Addr.OneOff (a b : Addr) : Prop := OneApart a.seen b.seen

/-- One of two stations is another one that is one off. -/
def PairOneOff (a b c d : Addr) : Prop := a.OneOff c ∧ b.Alike d ∨ a.Alike c ∧ b.OneOff d

theorem Addr.Alike.seen {a b : Addr} (h : a.Alike b) : a.seen = b.seen := by
  rw [Addr.seen, Addr.seen, List.map_ofFn, List.map_ofFn, h.2]
  exact congrArg (fun f => List.ofFn f ++ [addrSsidNumber b.ssid]) (funext h.1)

theorem hashAddr_apart {a b : Addr} (h : a.OneOff b) : hashAddr a ≠ hashAddr b := by
  rw [hashAddr_seen, hashAddr_seen]
  exact hash_apart h

theorem hashAddrpair_apart {a b c d : Addr} (h : PairOneOff a b c d) : hashAddrpair a b ≠ hashAddrpair c d := by
  rw [hashAddrpair_seen, hashAddrpair_seen]
  apply hash_apart
  rcases h with ⟨h, hsame⟩ | ⟨hsame, h⟩
  · rw [hsame.seen]
    exact h.append [] d.seen
  · rw [hsame.seen, ← List.append_nil (c.seen ++ b.seen), ← List.append_nil (c.seen ++ d.seen)]
    exact h.append c.seen []

/-! ## Lookups -/

/-- What was found was saved last under the key. -/
theorem FindsLatest.found {saved : List (Ptr × Sock)} {key : Sock → UInt32} {k : UInt32} {own : Sock → Bool}
    {p : Ptr} (h : FindsLatest saved key k own (some p)) :
    ∃ s, saved.find? (fun x => key x.2 = k) = some (p, s) ∧ key s = k := by
  obtain ⟨x, hx, rfl⟩ := Option.map_eq_some_iff.mp h.latest.symm
  have hkey := List.find?_some hx
  exact ⟨x.2, hx, of_decide_eq_true hkey⟩

/-- For all contents of the tables that saving sockets with any addresses makes: the socket that a lookup
finds, the one saved last under the key, is never that of stations that are one off those asked for. -/
theorem lookups_apart {t : Saved} {w : World} (h : Run SaveStep (fun _ _ => True) .empty t) (hw : t.In w)
    (dest src : Addr) :
    (∀ p, M.sockByAddr dest w = .ok (some p, w) → ∃ s,
      t.locals.find? (fun x => hashAddr x.2.localAddr = hashAddr dest) = some (p, s) ∧
        ¬s.localAddr.OneOff dest) ∧
    ∀ p, M.sockByAddrpair dest src w = .ok (some p, w) → ∃ s,
      t.pairs.find? (fun x => hashAddrpair x.2.localAddr x.2.remote = hashAddrpair dest src) = some (p, s) ∧
        ¬PairOneOff s.localAddr s.remote dest src := by
  obtain ⟨⟨found, hlocal, hlatest⟩, ⟨found', hpair, hlatest'⟩, -⟩ := lookups_latest h hw dest src
  constructor
  · intro p hp
    obtain rfl : found = some p := (Prod.mk.inj (Except.ok.inj (hlocal.symm.trans hp))).1
    obtain ⟨s, hs, hkey⟩ := hlatest.found
    exact ⟨s, hs, fun hoff => hashAddr_apart hoff hkey⟩
  · intro p hp
    obtain rfl : found' = some p := (Prod.mk.inj (Except.ok.inj (hpair.symm.trans hp))).1
    obtain ⟨s, hs, hkey⟩ := hlatest'.found
    exact ⟨s, hs, fun hoff => hashAddrpair_apart hoff hkey⟩

/-- The socket at 060164 is not one off itself. -/
theorem lookups_apart_060164 : ∃ s,
    savedBoth.locals.find? (fun x => hashAddr x.2.localAddr = hashAddr station060164) = some (0, s) ∧
      ¬s.localAddr.OneOff station060164 :=
  (lookups_apart run_savedBoth (w := savedBoth.world) ⟨rfl, rfl⟩ station060164 station060164).1 0 rfl

end Patty
