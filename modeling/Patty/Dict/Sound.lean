import Mathlib.Data.List.Nodup
import Patty.Dict.Bucket

/-! # What holds of every dictionary

A used slot is on the way of its key, nothing hangs on a slot that is not used, and no key is stored twice on
a way (`Sound`). The calls keep this, and lookup, deletion and iteration are read off it. -/

namespace Patty.Bucket

open Prog

variable {α σ ε : Type}

/-- The bucket may hang at the level `c`, where the keys that may be stored in it meet `P`. -/
def Sound : Nat → (UInt32 → Prop) → Bucket α → Prop
  | _, _, null => True
  | c, P, mk slots next => c ≤ 7 ∧ ∀ i,
    ((slots i).set → c < 7 ∧ P (slots i).key ∧ nibble (slots i).key c = i) ∧
    ((slots i).set = false → next i = null) ∧
    (next i).Sound (c + 1) fun key => P key ∧ nibble key c = i ∧ key ≠ (slots i).key

/-- The way of the key from the level `c`, `n` slots long. -/
def way (key : UInt32) : Nat → Nat → List (Fin 16)
  | _, 0 => []
  | c, n + 1 => nibble key c :: way key (c + 1) n

variable {c n : Nat} {P Q : UInt32 → Prop} {b : Bucket α} {key k : UInt32} {value : Option α} {i : Fin 16}
  {π ρ : List (Fin 16)} {slots : Fin 16 → Slot α} {next : Fin 16 → Bucket α} {alloc : Nat → Bool} {s t : Slot α}

theorem sound_empty (hc : c ≤ 7) : Sound c P (empty : Bucket α) :=
  ⟨hc, fun _ => ⟨fun h => absurd h Bool.false_ne_true, fun _ => rfl, trivial⟩⟩

theorem slotAt_cons (hπ : π ≠ []) : (mk slots next).slotAt (i :: π) = (next i).slotAt π := by
  cases π with
  | nil => exact absurd rfl hπ
  | cons j π => rfl

theorem clearSlot_cons (hπ : π ≠ []) :
    (mk slots next).clearSlot (i :: π) = mk slots (Function.update next i ((next i).clearSlot π)) := by
  cases π with
  | nil => exact absurd rfl hπ
  | cons j π => rfl

/-! ## The slots -/

/-- A used slot is on the way of its key. -/
theorem Sound.slotAt (h : Sound c P b) (hs : b.slotAt π = some s) (hset : s.set) :
    P s.key ∧ π = way s.key c π.length ∧ c + π.length ≤ 7 := by
  induction π generalizing b c P with
  | nil => cases b <;> cases hs
  | cons i π ih =>
    cases b with
    | null => cases hs
    | mk slots next =>
      obtain ⟨hused, -, hnext⟩ := h.2 i
      cases π with
      | nil =>
        cases hs
        obtain ⟨hc, hP, hi⟩ := hused hset
        exact ⟨hP, by rw [List.length_singleton, way, way, hi], hc⟩
      | cons j π =>
        obtain ⟨⟨hP, hi, -⟩, hway, hle⟩ := ih hnext hs
        refine ⟨hP, ?_, ?_⟩
        · rw [List.length_cons, way, hi]
          exact congrArg _ hway
        · rw [List.length_cons]
          omega

/-- No key is stored in two slots. -/
theorem Sound.slotAt_inj (h : Sound c P b) (hs : b.slotAt π = some s) (ht : b.slotAt ρ = some t)
    (hsset : s.set) (htset : t.set) (hkey : s.key = t.key) : π = ρ := by
  induction π generalizing b c P ρ with
  | nil => cases b <;> cases hs
  | cons i π ih =>
    cases b with
    | null => cases hs
    | mk slots next =>
      cases ρ with
      | nil => cases ht
      | cons j ρ =>
        have hi := (List.cons.inj (h.slotAt hs hsset).2.1).1
        have hj := (List.cons.inj (h.slotAt ht htset).2.1).1
        obtain rfl : i = j := by rw [hi, hj, hkey]
        obtain ⟨-, -, hnext⟩ := h.2 i
        -- the slots below another one do not store its key
        cases π with
        | nil =>
          cases ρ with
          | nil => rfl
          | cons j ρ =>
            cases hs
            exact absurd hkey.symm (hnext.slotAt ht htset).1.2.2
        | cons j' π =>
          cases ρ with
          | nil =>
            cases ht
            exact absurd hkey (hnext.slotAt hs hsset).1.2.2
          | cons j ρ => exact congrArg _ (ih hnext hs ht)

/-! ## Lookup -/

/-- The slot that the loop finds. -/
def lookup (b : Bucket α) (key : UInt32) (n c : Nat) : Option (Slot α) :=
  (b.slotFindLoop key n c).bind b.slotAt

theorem slotFindLoop_ne_nil (h : b.slotFindLoop key n c = some π) : π ≠ [] := by
  cases n with
  | zero => cases h
  | succ n =>
    cases b with
    | null => cases h
    | mk slots next =>
      rw [slotFindLoop] at h
      split_ifs at h
      · cases h
        exact List.cons_ne_nil _ _
      · obtain ⟨ρ, -, rfl⟩ := Option.map_eq_some_iff.mp h
        exact List.cons_ne_nil _ _

@[simp] theorem lookup_null : (null : Bucket α).lookup key n c = none := by cases n <;> rfl

@[simp] theorem lookup_empty : (empty : Bucket α).lookup key n c = none := by cases n <;> rfl

theorem lookup_mk : (mk slots next).lookup key (n + 1) c =
    if (slots (nibble key c)).set = false then none
    else if (slots (nibble key c)).key = key then some (slots (nibble key c))
    else (next (nibble key c)).lookup key n (c + 1) := by
  rw [lookup, slotFindLoop]
  cases hset : (slots (nibble key c)).set with
  | false => rfl
  | true =>
    by_cases hkey : (slots (nibble key c)).key = key
    · simp only [hkey]
      rfl
    · simp only [hkey, Bool.not_true, Bool.false_eq_true, if_false, reduceCtorEq]
      rw [lookup]
      cases h : (next (nibble key c)).slotFindLoop key n (c + 1) with
      | none => rfl
      | some π => exact slotAt_cons (slotFindLoop_ne_nil h)

theorem get_eq_lookup : b.get key = (b.lookup key 7 0).bind Slot.value := rfl

/-! ## Storing a value -/

/-- The next `n` slots on the way of the key are used for other keys. -/
def Full (b : Bucket α) (key : UInt32) (n c : Nat) : Prop := ∀ m < n, ∃ s, b.slotAt (way key c (m + 1)) = some s ∧
  s.set ∧ s.key ≠ key

theorem full_mk : (mk slots next).Full key (n + 1) c ↔ ((slots (nibble key c)).set ∧
    (slots (nibble key c)).key ≠ key) ∧ (next (nibble key c)).Full key n (c + 1) := by
  constructor
  · refine fun h => ⟨?_, fun m hm => ?_⟩
    · obtain ⟨s, hs, hused⟩ := h 0 (Nat.succ_pos n)
      cases hs
      exact hused
    · obtain ⟨s, hs, hused⟩ := h (m + 1) (Nat.succ_lt_succ hm)
      exact ⟨s, hs, hused⟩
  · rintro ⟨hused, hnext⟩ m hm
    cases m with
    | zero => exact ⟨_, rfl, hused⟩
    | succ m =>
      obtain ⟨s, hs, hused⟩ := hnext m (Nat.lt_of_succ_lt_succ hm)
      exact ⟨s, hs, hused⟩

/-- A bucket that is not there yet is as full as one that is empty. -/
theorem full_null : (null : Bucket α).Full key n c ↔ (empty : Bucket α).Full key n c := by
  cases n with
  | zero => exact ⟨fun _ _ h => absurd h (Nat.not_lt_zero _), fun _ _ h => absurd h (Nat.not_lt_zero _)⟩
  | succ n =>
    constructor
    · intro h
      obtain ⟨s, hs, -⟩ := h 0 (Nat.succ_pos n)
      cases hs
    · intro h
      obtain ⟨s, hs, hset, -⟩ := h 0 (Nat.succ_pos n)
      cases hs
      cases hset

theorem Sound.update_slot (h : Sound c P (mk slots next)) (hc : c < 7) (hP : P s.key) (hi : nibble s.key c = i)
    (hnext : Sound (c + 1) (fun key => P key ∧ nibble key c = i ∧ key ≠ s.key) (next i)) (hset : s.set) :
    Sound c P (mk (Function.update slots i s) next) := by
  refine ⟨h.1, fun j => ?_⟩
  by_cases hj : j = i
  · subst hj
    rw [Function.update_self]
    exact ⟨fun _ => ⟨hc, hP, hi⟩, fun hno => absurd (hset.symm.trans hno) (by decide), hnext⟩
  · rw [Function.update_of_ne hj]
    exact h.2 j

theorem Sound.update_next (h : Sound c P (mk slots next)) (hset : (slots i).set)
    (hb : Sound (c + 1) (fun key => P key ∧ nibble key c = i ∧ key ≠ (slots i).key) b) :
    Sound c P (mk slots (Function.update next i b)) := by
  refine ⟨h.1, fun j => ?_⟩
  by_cases hj : j = i
  · subst hj
    rw [Function.update_self]
    exact ⟨(h.2 j).1, fun hno => absurd (hset.symm.trans hno) (by decide), hb⟩
  · rw [Function.update_of_ne hj]
    exact h.2 j

theorem Sound.setLoop (h : Sound c P b) (hP : P key) (hn : n + c = 7) :
    Sound c P (b.setLoop alloc key value n c).2 := by
  induction n generalizing b c P with
  | zero => exact h
  | succ n ih =>
    cases b with
    | null => trivial
    | mk slots next =>
      have hc : c < 7 := by omega
      obtain ⟨hused, hfree, hnext⟩ := h.2 (nibble key c)
      rw [Bucket.setLoop]
      cases hset : (slots (nibble key c)).set with
      | false =>
        refine h.update_slot hc hP rfl ?_ rfl
        rw [hfree hset]
        trivial
      | true =>
        by_cases hkey : (slots (nibble key c)).key = key
        · simp only [hkey, Bool.not_true, Bool.false_eq_true, if_false, if_true]
          rw [hkey] at hnext
          exact h.update_slot hc hP rfl hnext rfl
        · simp only [hkey, Bool.not_true, Bool.false_eq_true, if_false]
          have hbelow : P key ∧ nibble key c = nibble key c ∧ key ≠ (slots (nibble key c)).key :=
            ⟨hP, rfl, Ne.symm hkey⟩
          cases hb : next (nibble key c) with
          | null =>
            dsimp only
            split_ifs
            · exact h.update_next hset (ih (sound_empty hc) hbelow (by omega))
            · exact h
          | mk slots' next' => exact h.update_next hset (ih (hb ▸ hnext) hbelow (by omega))

/-- What `setLoop_spec` says of the call that stores under `key` in `b`, with the result `r`. -/
def Stores (b : Bucket α) (key : UInt32) (value : Option α) (n c : Nat) (r : Option α × Bucket α) : Prop :=
  (r.1 = value ∧ ¬b.Full key n c ∧
    ∀ k, r.2.lookup k n c = if k = key then some ⟨key, value, true⟩ else b.lookup k n c) ∨
  (r.1 = none ∧ b.Full key n c ∧ ∀ k, r.2.lookup k n c = b.lookup k n c)

/-- Where a slot is used for another key, the value is stored in the next bucket. -/
theorem stores_next {r : Option α × Bucket α} (hset : (slots (nibble key c)).set)
    (hkey : (slots (nibble key c)).key ≠ key)
    (hlookup : ∀ k, b.lookup k n (c + 1) = (next (nibble key c)).lookup k n (c + 1))
    (hfull : b.Full key n (c + 1) ↔ (next (nibble key c)).Full key n (c + 1))
    (h : b.Stores key value n (c + 1) r) :
    (mk slots next).Stores key value (n + 1) c (r.1, mk slots (Function.update next (nibble key c) r.2)) := by
  have hother (k : UInt32) (hi : nibble k c ≠ nibble key c) :
      (mk slots (Function.update next (nibble key c) r.2)).lookup k (n + 1) c =
        (mk slots next).lookup k (n + 1) c := by
    rw [lookup_mk, lookup_mk, Function.update_of_ne hi]
  rcases h with ⟨hret, hno, hstored⟩ | ⟨hret, hyes, hsame⟩
  · refine .inl ⟨hret, fun hall => hno (hfull.mpr (full_mk.mp hall).2), fun k => ?_⟩
    by_cases hi : nibble k c = nibble key c
    · rw [lookup_mk, lookup_mk, hi, Function.update_self, hstored k, hlookup k]
      have hused : ¬(slots (nibble key c)).set = false := by simp [hset]
      rw [if_neg hused, if_neg hused]
      by_cases hk : k = key
      · rw [hk, if_neg hkey, if_pos rfl, if_pos rfl]
      · rw [if_neg hk, if_neg hk]
    · rw [hother k hi, if_neg (fun hk : k = key => hi (hk ▸ rfl))]
  · refine .inr ⟨hret, full_mk.mpr ⟨⟨hset, hkey⟩, hfull.mp hyes⟩, fun k => ?_⟩
    by_cases hi : nibble k c = nibble key c
    · rw [lookup_mk, lookup_mk, hi, Function.update_self, hsame k, hlookup k]
    · exact hother k hi

/-- The value is stored under its key, or the way of the key is full. -/
theorem setLoop_spec (h : Sound c P b) (hb : b ≠ null) (halloc : ∀ c, alloc c) (hn : n + c = 7) :
    b.Stores key value n c (b.setLoop alloc key value n c) := by
  induction n generalizing b c P with
  | zero => exact .inr ⟨rfl, fun m hm => absurd hm (Nat.not_lt_zero m), fun _ => rfl⟩
  | succ n ih =>
    cases b with
    | null => exact absurd rfl hb
    | mk slots next =>
      obtain ⟨hused, hfree, hnext⟩ := h.2 (nibble key c)
      rw [Bucket.setLoop]
      -- a slot that is written is found for its key, and hides nothing from the other ones
      have hstored (k : UInt32) (hk : k ≠ key → (mk slots next).lookup k (n + 1) c =
          if nibble k c = nibble key c then (next (nibble key c)).lookup k n (c + 1)
          else (mk slots next).lookup k (n + 1) c) :
          (mk (Function.update slots (nibble key c) ⟨key, value, true⟩) next).lookup k (n + 1) c =
            if k = key then some ⟨key, value, true⟩ else (mk slots next).lookup k (n + 1) c := by
        rw [lookup_mk]
        by_cases hkk : k = key
        · subst hkk
          rw [Function.update_self, if_pos rfl, if_neg (by simp), if_pos rfl]
        · rw [if_neg hkk]
          by_cases hi : nibble k c = nibble key c
          · rw [hk hkk, if_pos hi, hi, Function.update_self, if_neg (by simp), if_neg (Ne.symm hkk)]
          · rw [Function.update_of_ne hi, lookup_mk]
      cases hset : (slots (nibble key c)).set with
      | false =>
        refine .inl ⟨rfl, fun hfull => ?_, fun k => hstored k fun _ => ?_⟩
        · have hused := (full_mk.mp hfull).1.1
          rw [hset] at hused
          cases hused
        · split_ifs with hi
          · rw [lookup_mk, hi, if_pos hset, hfree hset, lookup_null]
          · rfl
      | true =>
        by_cases hkey : (slots (nibble key c)).key = key
        · simp only [hkey, Bool.not_true, Bool.false_eq_true, if_false, if_true]
          refine .inl ⟨rfl, fun hfull => (full_mk.mp hfull).1.2 hkey, fun k => hstored k fun hk => ?_⟩
          split_ifs with hi
          · rw [lookup_mk, hi, if_neg (by simp [hset]), if_neg (hkey.trans_ne (Ne.symm hk))]
          · rfl
        · simp only [hkey, Bool.not_true, Bool.false_eq_true, if_false]
          have hother (b₁ : Bucket α) (hb₁ : b₁ ≠ null)
              (hsound : Sound (c + 1) (fun k => P k ∧ nibble k c = nibble key c ∧ k ≠ (slots (nibble key c)).key) b₁)
              (hlookup : ∀ k, b₁.lookup k n (c + 1) = (next (nibble key c)).lookup k n (c + 1))
              (hfull : b₁.Full key n (c + 1) ↔ (next (nibble key c)).Full key n (c + 1)) :=
            stores_next hset hkey hlookup hfull (ih hsound hb₁ (by omega))
          cases hb₁ : next (nibble key c) with
          | null =>
            simp only [halloc c, if_true]
            refine hother empty nofun (sound_empty (by omega)) (fun k => ?_) ?_
            · rw [hb₁, lookup_empty, lookup_null]
            · rw [hb₁]
              exact full_null.symm
          | mk slots' next' =>
            refine hother (mk slots' next') nofun ?_ (fun k => ?_) ?_
            · exact hb₁ ▸ hnext
            · rw [hb₁]
            · rw [hb₁]

/-! ## Deletion -/

theorem Sound.clearSlot (h : Sound c P b) : Sound c P (b.clearSlot π) := by
  induction π generalizing b c P with
  | nil =>
    cases b with
    | null => trivial
    | mk slots next => exact h
  | cons i π ih =>
    cases b with
    | null => trivial
    | mk slots next =>
      by_cases hπ : π = []
      · subst hπ
        refine ⟨h.1, fun j => ?_⟩
        by_cases hj : j = i
        · subst hj
          rw [Function.update_self, Function.update_self]
          exact ⟨fun hset => absurd hset Bool.false_ne_true, fun _ => rfl, trivial⟩
        · rw [Function.update_of_ne hj, Function.update_of_ne hj]
          exact h.2 j
      · rw [clearSlot_cons hπ]
        refine ⟨h.1, fun j => ?_⟩
        by_cases hj : j = i
        · subst hj
          obtain ⟨hused, hfree, hnext⟩ := h.2 j
          rw [Function.update_self]
          refine ⟨hused, fun hset => ?_, ih hnext⟩
          rw [hfree hset]
          rfl
        · rw [Function.update_of_ne hj]
          exact h.2 j

/-- The key is found in the slot that is cleared, or behind it. -/
def Behind (b : Bucket α) (π : List (Fin 16)) (key : UInt32) (n c : Nat) : Prop :=
  ∃ ρ, b.slotFindLoop key n c = some ρ ∧ π <+: ρ

/-- What is found is on the way of the key. -/
theorem slotFindLoop_head (h : b.slotFindLoop key n c = some ρ) : ∃ ρ', ρ = nibble key c :: ρ' := by
  cases n with
  | zero => cases h
  | succ n =>
    cases b with
    | null => cases h
    | mk slots next =>
      rw [slotFindLoop] at h
      split_ifs at h
      · cases h
        exact ⟨[], rfl⟩
      · obtain ⟨ρ', -, rfl⟩ := Option.map_eq_some_iff.mp h
        exact ⟨ρ', rfl⟩

theorem lookup_isSome : (b.lookup key n c).isSome ↔ (b.slotFindLoop key n c).isSome := by
  induction n generalizing b c with
  | zero => rfl
  | succ n ih =>
    cases b with
    | null => rfl
    | mk slots next =>
      rw [lookup_mk, slotFindLoop]
      cases hset : (slots (nibble key c)).set with
      | false => rfl
      | true =>
        by_cases hkey : (slots (nibble key c)).key = key
        · simp only [hkey, Bool.not_true, Bool.false_eq_true, reduceCtorEq, if_false, if_true]
          rfl
        · simp only [hkey, Bool.not_true, Bool.false_eq_true, reduceCtorEq, if_false, Option.isSome_map]
          exact ih

/-- Clearing a slot loses what is found in it or behind it, and nothing else. -/
theorem lookup_clearSlot (hπ : π ≠ []) :
    (b.Behind π key n c → (b.clearSlot π).lookup key n c = none) ∧
      (¬b.Behind π key n c → (b.clearSlot π).lookup key n c = b.lookup key n c) := by
  induction π generalizing b c n with
  | nil => exact absurd rfl hπ
  | cons i π ih =>
    cases n with
    | zero => exact ⟨fun _ => rfl, fun _ => rfl⟩
    | succ n =>
      cases b with
      | null => exact ⟨fun _ => lookup_null, fun _ => rfl⟩
      | mk slots next =>
        by_cases hi : i = nibble key c
        · by_cases hnil : π = []
          · subst hnil
            have hnone : ((mk slots next).clearSlot [i]).lookup key (n + 1) c = none := by
              rw [clearSlot, lookup_mk, hi, Function.update_self]
              rfl
            refine ⟨fun _ => hnone, fun hno => hnone.trans (Option.not_isSome_iff_eq_none.mp fun hsome => hno ?_).symm⟩
            obtain ⟨ρ, hρ⟩ := Option.isSome_iff_exists.mp (lookup_isSome.mp hsome)
            obtain ⟨ρ', rfl⟩ := slotFindLoop_head hρ
            exact ⟨_, hρ, hi ▸ ⟨ρ', rfl⟩⟩
          · subst hi
            rw [clearSlot_cons hnil, lookup_mk, lookup_mk, Function.update_self]
            have hiff (hset : (slots (nibble key c)).set = true) (hkey : (slots (nibble key c)).key ≠ key) :
                (mk slots next).Behind (nibble key c :: π) key (n + 1) c ↔
                  (next (nibble key c)).Behind π key n (c + 1) := by
              simp only [Behind, slotFindLoop, hset, hkey, Bool.not_true, Bool.false_eq_true, if_false,
                Option.map_eq_some_iff]
              constructor
              · rintro ⟨_, ⟨ρ, hρ, rfl⟩, hpre⟩
                exact ⟨ρ, hρ, (List.cons_prefix_cons.mp hpre).2⟩
              · rintro ⟨ρ, hρ, hpre⟩
                exact ⟨_, ⟨ρ, hρ, rfl⟩, List.cons_prefix_cons.mpr ⟨rfl, hpre⟩⟩
            cases hset : (slots (nibble key c)).set with
            | false => exact ⟨fun _ => rfl, fun _ => rfl⟩
            | true =>
              rw [if_neg Bool.false_ne_true.symm, if_neg Bool.false_ne_true.symm]
              by_cases hkey : (slots (nibble key c)).key = key
              · rw [if_pos hkey, if_pos hkey]
                refine ⟨fun ⟨ρ, hρ, hpre⟩ => ?_, fun _ => rfl⟩
                -- the key is found in the slot above
                simp only [slotFindLoop, hset, hkey, Bool.not_true, Bool.false_eq_true, if_false, if_true,
                  Option.some.injEq] at hρ
                subst hρ
                exact absurd (List.prefix_nil.mp (List.cons_prefix_cons.mp hpre).2) hnil
              · rw [if_neg hkey, if_neg hkey, hiff hset hkey]
                exact ih hnil
        · have hsame : ((mk slots next).clearSlot (i :: π)).lookup key (n + 1) c =
              (mk slots next).lookup key (n + 1) c := by
            by_cases hnil : π = []
            · rw [hnil, clearSlot, lookup_mk, lookup_mk, Function.update_of_ne (Ne.symm hi),
                Function.update_of_ne (Ne.symm hi)]
            · rw [clearSlot_cons hnil, lookup_mk, lookup_mk, Function.update_of_ne (Ne.symm hi)]
          refine ⟨fun ⟨ρ, hρ, hpre⟩ => ?_, fun _ => hsame⟩
          obtain ⟨ρ', rfl⟩ := slotFindLoop_head hρ
          exact absurd (List.cons_prefix_cons.mp hpre).1 hi

/-! ## Iteration -/

/-- The keys and values of the used slots, in the order of `patty_dict_each`. -/
def entries : Bucket α → List (UInt32 × Option α)
  | null => []
  | mk slots next => (List.finRange 16).flatMap fun i =>
    (if (slots i).set then [((slots i).key, (slots i).value)] else []) ++ (next i).entries

theorem mem_entries_mk {x : UInt32 × Option α} : x ∈ (mk slots next).entries ↔
    ∃ i, (slots i).set ∧ x = ((slots i).key, (slots i).value) ∨ x ∈ (next i).entries := by
  simp only [entries, List.mem_flatMap, List.mem_finRange, true_and, List.mem_append]
  refine exists_congr fun i => or_congr ?_ Iff.rfl
  split_ifs with h
  · rw [List.mem_singleton]
    exact ⟨fun hx => ⟨h, hx⟩, And.right⟩
  · exact ⟨fun hx => absurd hx List.not_mem_nil, fun hx => absurd hx.1 h⟩

theorem Sound.of_mem (h : Sound c P b) {x : UInt32 × Option α} (hx : x ∈ b.entries) : P x.1 := by
  induction b generalizing c P with
  | null => cases hx
  | mk slots next ih =>
    obtain ⟨i, ⟨hset, rfl⟩ | hx⟩ := mem_entries_mk.mp hx
    · exact ((h.2 i).1 hset).2.1
    · exact (ih i (h.2 i).2.2 hx).1

/-- The entries are what lookup finds. -/
theorem Sound.mem_entries (h : Sound c P b) (hn : n + c = 7) :
    (key, value) ∈ b.entries ↔ ∃ s, b.lookup key n c = some s ∧ s.value = value := by
  induction b generalizing c n P with
  | null => simp [entries]
  | mk slots next ih =>
    -- only the slot of the nibble matters
    have honly : (key, value) ∈ (mk slots next).entries ↔
        (slots (nibble key c)).set ∧ (key, value) = ((slots (nibble key c)).key, (slots (nibble key c)).value) ∨
          (key, value) ∈ (next (nibble key c)).entries := by
      refine mem_entries_mk.trans ⟨?_, fun hx => ⟨_, hx⟩⟩
      rintro ⟨i, hx⟩
      have hi : nibble key c = i := by
        rcases hx with ⟨hset, hkey⟩ | hx
        · obtain ⟨-, -, hi⟩ := (h.2 i).1 hset
          rw [(Prod.mk.inj hkey).1]
          exact hi
        · exact ((h.2 i).2.2.of_mem hx).2.1
      subst hi
      exact hx
    obtain ⟨hused, hfree, hnext⟩ := h.2 (nibble key c)
    rw [honly]
    cases n with
    | zero =>
      have hunset : (slots (nibble key c)).set = false := by
        rw [← Bool.not_eq_true]
        exact fun hset => absurd (hused hset).1 (by omega)
      rw [hfree hunset, hunset]
      exact ⟨fun hx => hx.elim (fun hx => absurd hx.1 Bool.false_ne_true) nofun, fun ⟨_, hs, _⟩ => nomatch hs⟩
    | succ n =>
      rw [lookup_mk]
      cases hset : (slots (nibble key c)).set with
      | false =>
        rw [hfree hset]
        exact ⟨fun hx => hx.elim (fun hx => absurd hx.1 Bool.false_ne_true) nofun, fun ⟨_, hs, _⟩ => nomatch hs⟩
      | true =>
        rw [if_neg Bool.false_ne_true.symm]
        by_cases hkey : (slots (nibble key c)).key = key
        · rw [if_pos hkey]
          constructor
          · rintro (⟨-, hx⟩ | hx)
            · exact ⟨_, rfl, (Prod.mk.inj hx).2.symm⟩
            · exact absurd hkey.symm (hnext.of_mem hx).2.2
          · rintro ⟨s, hs, hvalue⟩
            cases hs
            exact .inl ⟨rfl, Prod.ext hkey.symm hvalue.symm⟩
        · rw [if_neg hkey]
          refine Iff.trans ?_ (ih _ hnext (by omega))
          exact ⟨fun hx => hx.resolve_left fun hx => hkey (Prod.mk.inj hx.2).1.symm, .inr⟩

/-- No key is called twice. -/
theorem Sound.nodup (h : Sound c P b) : (b.entries.map Prod.fst).Nodup := by
  induction b generalizing c P with
  | null => exact List.nodup_nil
  | mk slots next ih =>
    -- the keys of a slot and behind it have the nibble of the slot
    have hnibble (i : Fin 16) (k : UInt32) (hk : k ∈ ((if (slots i).set then
        [((slots i).key, (slots i).value)] else []) ++ (next i).entries).map Prod.fst) : nibble k c = i := by
      obtain ⟨x, hx, rfl⟩ := List.mem_map.mp hk
      rcases List.mem_append.mp hx with hx | hx
      · split_ifs at hx with hset
        · rw [List.mem_singleton.mp hx]
          exact ((h.2 i).1 hset).2.2
        · cases hx
      · exact ((h.2 i).2.2.of_mem hx).2.1
    rw [entries, List.map_flatMap, List.nodup_flatMap]
    refine ⟨fun i _ => ?_, ?_⟩
    · have hnext := ih i (h.2 i).2.2
      split_ifs with hset
      · rw [List.map_append, List.map_singleton, List.singleton_append, List.nodup_cons]
        refine ⟨fun hmem => ?_, hnext⟩
        obtain ⟨x, hx, hkey⟩ := List.mem_map.mp hmem
        exact absurd hkey ((h.2 i).2.2.of_mem hx).2.2
      · exact hnext
    · refine (List.nodup_finRange 16).imp fun {i j} hne k hi hj => hne ?_
      exact (hnibble i k hi).symm.trans (hnibble j k hj)

/-- Iteration calls the callback for each entry, in order, until it fails. -/
theorem Sound.eachSlot (h : Sound c P b) {callback : UInt32 → Option α → Prog σ ε Int} :
    b.eachSlot callback c = forEach b.entries fun x => callback x.1 x.2 := by
  induction b generalizing c P with
  | null => rfl
  | mk slots next ih =>
    rw [Bucket.eachSlot, if_neg h.1.not_gt, entries, forEach_flatMap]
    refine congrArg _ (funext fun i => ?_)
    rw [ih i (h.2 i).2.2]
    split_ifs
    · rfl
    · rfl

end Patty.Bucket
