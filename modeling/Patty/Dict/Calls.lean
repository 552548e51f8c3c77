import Patty.Dict.Sound

/-! # The calls of a dictionary

What `patty_dict_set`, `patty_dict_delete` and `patty_dict_each` do to a dictionary that calls have made. -/

namespace Patty.Bucket

open Prog

variable {α : Type} {d : Bucket α} {key : UInt32}

theorem mk_ne_null {slots : Fin 16 → Slot α} {next : Fin 16 → Bucket α} : mk slots next ≠ null := nofun

theorem setLoop_ne_null {alloc : Nat → Bool} {value : Option α} {n c : Nat} (h : d ≠ null) :
    (d.setLoop alloc key value n c).2 ≠ null := by
  cases n with
  | zero => exact h
  | succ n =>
    cases d with
    | null => exact absurd rfl h
    | mk slots next =>
      rw [setLoop]
      dsimp only
      split
      · exact mk_ne_null
      split
      · exact mk_ne_null
      split
      · split
        · exact mk_ne_null
        · exact h
      · exact mk_ne_null

theorem clearSlot_ne_null {π : List (Fin 16)} (h : d ≠ null) : d.clearSlot π ≠ null := by
  cases d with
  | null => exact absurd rfl h
  | mk slots next =>
    cases π with
    | nil => nofun
    | cons i π => cases π <;> nofun

/-- All slots are as they have to be, and there is a bucket. -/
theorem reachable_sound (h : Reachable d) : Sound 0 (fun _ => True) d ∧ d ≠ null := by
  refine h.invariant (I := fun d => Sound 0 (fun _ => True) d ∧ d ≠ null) (fun d call d' hd _ hstep => ?_)
    ⟨sound_empty (Nat.zero_le 7), nofun⟩
  obtain ⟨hsound, hne⟩ := hd
  cases hstep with
  | set => exact ⟨hsound.setLoop trivial rfl, setLoop_ne_null hne⟩
  | delete =>
    rw [delete]
    split
    · exact ⟨hsound, hne⟩
    · exact ⟨hsound.clearSlot, clearSlot_ne_null hne⟩

theorem Step.reachable {c : Call α} {d' : Bucket α} (hd : Reachable d) (h : Step d c d') : Reachable d' :=
  .tail hd trivial h

/-! ## `patty_dict_set` -/

/-- A call of `patty_dict_set` stores the value under the key alone, or fails, exactly if all slots on the way
of the key are used for other ones, and then changes nothing that is found; and no key is stored twice. -/
theorem set_refines (hd : Reachable d) (key : UInt32) (value : α) :
    ((d.set (fun _ => true) key (some value)).1 = some value ∧ ¬d.Full key 7 0 ∧
        (d.set (fun _ => true) key (some value)).2.get key = some value ∧
        (∀ k, k ≠ key → (d.set (fun _ => true) key (some value)).2.get k = d.get k) ∨
      (d.set (fun _ => true) key (some value)).1 = none ∧ d.Full key 7 0 ∧
        ∀ k, (d.set (fun _ => true) key (some value)).2.get k = d.get k) ∧
    ∀ π ρ s t, d.slotAt π = some s → d.slotAt ρ = some t → s.set → t.set → s.key = t.key → π = ρ := by
  obtain ⟨hsound, hne⟩ := reachable_sound hd
  refine ⟨?_, fun π ρ s t hs ht => hsound.slotAt_inj hs ht⟩
  have hstores : d.Stores key (some value) 7 0 (d.setLoop (fun _ => true) key (some value) 7 0) :=
    setLoop_spec hsound hne (fun _ => rfl) rfl
  rcases hstores with
    ⟨hret, hno, hstored⟩ | ⟨hret, hfull, hsame⟩
  · refine .inl ⟨hret, hno, ?_, fun k hk => ?_⟩
    · rw [get_eq_lookup, set, hstored key, if_pos rfl]
      rfl
    · rw [get_eq_lookup, set, hstored k, if_neg hk, get_eq_lookup]
  · refine .inr ⟨hret, hfull, fun k => ?_⟩
    rw [get_eq_lookup, set, hsame k, get_eq_lookup]

/-- A dictionary with one key. -/
def oneKey : Bucket Nat := (dictNew.set (fun _ => true) 3 (some 7)).2

theorem reachable_oneKey : Reachable oneKey := .single trivial .set

/-- A key with the same low nibble is stored behind the first one. -/
theorem set_refines_behind : (oneKey.set (fun _ => true) 19 (some 8)).2.get 19 = some 8 ∧
    (oneKey.set (fun _ => true) 19 (some 8)).2.get 3 = some 7 := by
  obtain ⟨-, -, hget, hother⟩ := (set_refines reachable_oneKey 19 8).1.resolve_right fun h =>
    absurd h.1 (by decide)
  exact ⟨hget, (hother 3 (by decide)).trans (by decide)⟩

/-! ## `patty_dict_delete` -/

/-- The key `k` is stored in a slot behind the one of `key`, or in that one. -/
def StoredBehind (d : Bucket α) (key k : UInt32) : Prop :=
  ∃ π ρ, d.slotFind key = some π ∧ d.slotFind k = some ρ ∧ π <+: ρ

/-- Deleting a key deletes that one alone exactly if no other key with a value is stored behind it. -/
theorem delete_iff (hkey : (d.slotFind key).isSome) :
    ((d.delete key).2.get key = none ∧ ∀ k, k ≠ key → (d.delete key).2.get k = d.get k) ↔
      ∀ k, k ≠ key → d.StoredBehind key k → d.get k = none := by
  obtain ⟨π, hπ⟩ := Option.isSome_iff_exists.mp hkey
  have hdelete : (d.delete key).2 = d.clearSlot π := by
    rw [delete, hπ]
  have hbehind (k : UInt32) : d.StoredBehind key k ↔ d.Behind π k 7 0 := by
    constructor
    · rintro ⟨π', ρ, hπ', hρ, hpre⟩
      obtain rfl := Option.some.inj (hπ.symm.trans hπ')
      exact ⟨ρ, hρ, hpre⟩
    · rintro ⟨ρ, hρ, hpre⟩
      exact ⟨π, ρ, hπ, hρ, hpre⟩
  have hclear (k : UInt32) : (d.Behind π k 7 0 → (d.clearSlot π).lookup k 7 0 = none) ∧
      (¬d.Behind π k 7 0 → (d.clearSlot π).lookup k 7 0 = d.lookup k 7 0) :=
    lookup_clearSlot (slotFindLoop_ne_nil hπ)
  rw [hdelete]
  constructor
  · rintro ⟨-, hsame⟩ k hk hstored
    rw [← hsame k hk, get_eq_lookup, (hclear k).1 ((hbehind k).mp hstored)]
    rfl
  · intro hnone
    refine ⟨?_, fun k hk => ?_⟩
    · rw [get_eq_lookup, (hclear key).1 ⟨π, hπ, List.prefix_rfl⟩]
      rfl
    · by_cases hstored : d.StoredBehind key k
      · rw [hnone k hk hstored, get_eq_lookup, (hclear k).1 ((hbehind k).mp hstored)]
        rfl
      · rw [get_eq_lookup, (hclear k).2 fun h => hstored ((hbehind k).mpr h), get_eq_lookup]

/-- Two keys with the same low nibble. -/
def twoKeys : Bucket Nat := (oneKey.set (fun _ => true) 19 (some 8)).2

theorem reachable_twoKeys : Reachable twoKeys := Step.reachable reachable_oneKey .set

/-- The key behind the one that is deleted is lost. -/
theorem not_delete_behind : ¬∀ (d : Bucket Nat) (key : UInt32), Reachable d → (d.slotFind key).isSome →
    (d.delete key).2.get key = none ∧ ∀ k, k ≠ key → (d.delete key).2.get k = d.get k := by
  intro h
  have hlost := (h twoKeys 3 reachable_twoKeys (by decide)).2 19 (by decide)
  exact absurd hlost (by decide)

/-- The key behind the other one can be deleted. -/
theorem delete_iff_last : (twoKeys.delete 19).2.get 19 = none ∧
    ∀ k, k ≠ 19 → (twoKeys.delete 19).2.get k = twoKeys.get k := by
  refine (delete_iff (by decide)).mpr ?_
  rintro k hk ⟨π, ρ, hπ, hρ, hpre⟩
  have hfound : (twoKeys.lookup k 7 0).isSome := lookup_isSome.mpr (Option.isSome_iff_exists.mpr ⟨ρ, hρ⟩)
  obtain ⟨s, hs⟩ := Option.isSome_iff_exists.mp hfound
  have hmem : k ∈ twoKeys.entries.map Prod.fst := List.mem_map.mpr
    ⟨(k, s.value), ((reachable_sound reachable_twoKeys).1.mem_entries (n := 7) rfl).mpr ⟨s, hs, rfl⟩, rfl⟩
  rw [show twoKeys.entries.map Prod.fst = [3, 19] by decide] at hmem
  obtain rfl : k = 3 := by simpa [hk] using hmem
  -- the first key is stored above the second one
  have hlast : twoKeys.slotFind 19 = some [3, 1] := by decide
  have hfirst : twoKeys.slotFind 3 = some [3] := by decide
  obtain rfl := Option.some.inj (hlast.symm.trans hπ)
  obtain rfl := Option.some.inj (hfirst.symm.trans hρ)
  exact absurd hpre (by decide)

/-! ## `patty_dict_each` -/

theorem forEach_of_nonneg {σ ε β : Type} {l : List β} {m : β → Prog σ ε Int}
    (h : ∀ b s r s', m b s = .ok (r, s') → 0 ≤ r) :
    forEach l m = l.foldr (fun b rest => m b >>= fun _ => rest) (pure 0) := by
  induction l with
  | nil => rfl
  | cons b l ih =>
    funext s
    rw [forEach, List.foldr_cons, bind_run, bind_run]
    rcases hm : m b s with e | ⟨r, s'⟩
    · rfl
    · dsimp only
      rw [if_neg (h b s r s' hm).not_gt, ih]

/-- Iteration with a callback that does not fail calls it once for each key that is found, with its value,
and for no other one. -/
theorem each_exact (hd : Reachable d) : ∃ l : List (UInt32 × Option α), (l.map Prod.fst).Nodup ∧
    (∀ key value, (key, value) ∈ l ↔ (d.slotFind key).isSome ∧ d.get key = value) ∧
    ∀ {σ ε : Type} (callback : UInt32 → Option α → Prog σ ε Int),
      (∀ key value s r s', callback key value s = .ok (r, s') → 0 ≤ r) →
      d.each callback = l.foldr (fun x rest => callback x.1 x.2 >>= fun _ => rest) (pure 0) := by
  obtain ⟨hsound, -⟩ := reachable_sound hd
  refine ⟨d.entries, hsound.nodup, fun key value => ?_, fun callback hc => ?_⟩
  · rw [hsound.mem_entries (n := 7) rfl, get_eq_lookup, slotFind, ← lookup_isSome]
    cases d.lookup key 7 0 with
    | none => simp
    | some s => simp
  · rw [each, hsound.eachSlot]
    exact forEach_of_nonneg fun x s r s' => hc x.1 x.2 s r s'

/-- Both keys are called with their values. -/
theorem each_exact_two : ∃ l : List (UInt32 × Option Nat), (l.map Prod.fst).Nodup ∧
    (3, some 7) ∈ l ∧ (19, some 8) ∈ l := by
  obtain ⟨l, hnodup, hmem, -⟩ := each_exact reachable_twoKeys
  exact ⟨l, hnodup, (hmem 3 (some 7)).mpr (by decide), (hmem 19 (some 8)).mpr (by decide)⟩

end Patty.Bucket
