import Mathlib.Data.List.AList
import Mathlib.Data.List.Find
import Mathlib.Logic.Function.Basic

/-! # Tables filed by a key

A table that files values by a key of their names, such as a hash, holds what was filed by name
(`Files`), as long as the key tells the names apart (`Tells`). Without that it has what was filed last
under each key (`Latest`). A table may let the entry of one key stand
in for all that are absent; where it also takes nothing new under a key that it has an answer for
(`putNew`), what it comes to hold depends on the order in which the entries arrive. -/

variable {δ κ α : Type} [DecidableEq κ] {same : δ → δ → Prop} [DecidableRel same] {key : δ → κ}
  {D : Set δ} {t : AList fun _ : κ => α} {m : δ → Option α} {d : δ}

/-- The names in `D` have the same key when they are the same name. -/
def Tells (key : δ → κ) (same : δ → δ → Prop) (D : Set δ) : Prop :=
  ∀ a ∈ D, ∀ b ∈ D, key a = key b ↔ same a b

/-- The values by name after `d` is given one, or none. -/
def putNamed (same : δ → δ → Prop) [DecidableRel same] (m : δ → Option α) (d : δ) (x : Option α) :
    δ → Option α :=
  fun e => if same e d then x else m e

/-- The table files the values `m` of the names in `D`. -/
def Files (key : δ → κ) (D : Set δ) (t : AList fun _ : κ => α) (m : δ → Option α) : Prop :=
  ∀ d ∈ D, t.lookup (key d) = m d

namespace Files

theorem empty : Files key D (∅ : AList fun _ : κ => α) fun _ => none :=
  fun _ _ => AList.lookup_empty _

theorem insert (h : Files key D t m) (hkey : Tells key same D) (hd : d ∈ D) (x : α) :
    Files key D (t.insert (key d) x) (putNamed same m d (some x)) := by
  intro e he
  rw [putNamed]
  split
  next heq => rw [(hkey e he d hd).mpr heq, AList.lookup_insert]
  next hne => rw [AList.lookup_insert_ne fun hk => hne ((hkey e he d hd).mp hk), h e he]

theorem erase (h : Files key D t m) (hkey : Tells key same D) (hd : d ∈ D) :
    Files key D (t.erase (key d)) (putNamed same m d none) := by
  intro e he
  rw [putNamed]
  split
  next heq => rw [(hkey e he d hd).mpr heq, AList.lookup_erase]
  next hne => rw [AList.lookup_erase_ne fun hk => hne ((hkey e he d hd).mp hk), h e he]

/-- A name without a value has no entry to erase. -/
theorem mem_iff (h : Files key D t m) (hd : d ∈ D) : key d ∈ t ↔ (m d).isSome := by
  rw [← h d hd, AList.lookup_isSome]

end Files

/-! ## What was filed last -/

section Latest

variable {ε : Type} {key : ε → κ} {val : ε → α} {l : List ε}

/-- The table has under each key the value of the first of the entries with that key, the latest one. -/
def Latest (key : ε → κ) (val : ε → α) (t : AList fun _ : κ => α) (l : List ε) : Prop :=
  ∀ a, t.lookup a = (l.find? fun x => key x = a).map val

theorem Latest.empty : Latest key val (∅ : AList fun _ : κ => α) [] := fun _ => AList.lookup_empty _

theorem Latest.insert (h : Latest key val t l) (x : ε) : Latest key val (t.insert (key x) (val x)) (x :: l) := by
  intro a
  by_cases ha : key x = a
  · rw [List.find?_cons_of_pos (by simpa using ha), ← ha, AList.lookup_insert, Option.map_some]
  · rw [List.find?_cons_of_neg (by simpa using ha), AList.lookup_insert_ne (Ne.symm ha), h a]

/-- Where just the entries of one name have the key, the latest of that name is found. -/
theorem Latest.lookup_of_iff (h : Latest key val t l) {a : κ} {p : ε → Prop} [DecidablePred p]
    (hp : ∀ x ∈ l, key x = a ↔ p x) : t.lookup a = (l.find? (p ·)).map val := by
  rw [h a]
  congr 1
  exact List.find?_congr fun x hx => decide_eq_decide.mpr (hp x hx)

end Latest

/-! ## Entries that arrive in some order -/

/-- The entry `p` is taken when there is none under its key, nor under the key `z` that stands in. -/
def putNew (k : α → κ) (z : κ) (f : κ → Option α) (p : α) : κ → Option α :=
  if (f (k p)).isSome || (f z).isSome then f else Function.update f (k p) (some p)

variable {k : α → κ} {z : κ} {f : κ → Option α} {p q : α} {l l' : List α}

theorem putNew_of_some (h : (f (k p)).isSome) : putNew k z f p = f :=
  if_pos (by rw [h, Bool.true_or])

theorem putNew_of_default (h : (f z).isSome) : putNew k z f p = f :=
  if_pos (by rw [h, Bool.or_true])

theorem putNew_of_none (h : f (k p) = none) (hz : f z = none) :
    putNew k z f p = Function.update f (k p) (some p) :=
  if_neg (by simp [h, hz])

theorem foldl_putNew_of_default (h : (f z).isSome) (l : List α) : l.foldl (putNew k z) f = f := by
  induction l with
  | nil => rfl
  | cons p l ih => rw [List.foldl_cons, putNew_of_default h, ih]

/-- Entries of different keys can be put either way round, if neither stands in for the rest. -/
theorem putNew_comm (hp : k p ≠ z) (hq : k q ≠ z) (hpq : k p ≠ k q) :
    putNew k z (putNew k z f p) q = putNew k z (putNew k z f q) p := by
  by_cases hz : (f z).isSome
  · simp only [putNew_of_default hz]
  · rw [Option.not_isSome_iff_eq_none] at hz
    have hp' : ∀ x, Function.update f (k p) x z = none := fun x => by rwa [Function.update_of_ne hp.symm]
    have hq' : ∀ x, Function.update f (k q) x z = none := fun x => by rwa [Function.update_of_ne hq.symm]
    rcases hfp : f (k p) with _ | x
    · rcases hfq : f (k q) with _ | y
      · rw [putNew_of_none hfp hz, putNew_of_none hfq hz, putNew_of_none _ (hp' _),
          putNew_of_none _ (hq' _), Function.update_comm hpq.symm]
        · rwa [Function.update_of_ne hpq]
        · rwa [Function.update_of_ne hpq.symm]
      · have hsome : (f (k q)).isSome := by rw [hfq]; rfl
        rw [putNew_of_some hsome, putNew_of_none hfp hz, putNew_of_some]
        rwa [Function.update_of_ne hpq.symm]
    · have hsome : (f (k p)).isSome := by rw [hfp]; rfl
      rw [putNew_of_some hsome]
      rcases hfq : f (k q) with _ | y
      · rw [putNew_of_none hfq hz, putNew_of_some]
        rwa [Function.update_of_ne hpq]
      · rw [putNew_of_some (by rw [hfq]; rfl), putNew_of_some hsome]

/-- When the entry that stands in is the only new one, it is put and nothing else. -/
theorem foldl_putNew_default (hz : f z = none) (hp : k p = z) (hmem : p ∈ l)
    (h : ∀ q ∈ l, q = p ∨ (f (k q)).isSome) :
    l.foldl (putNew k z) f = Function.update f z (some p) := by
  induction l with
  | nil => cases hmem
  | cons q l ih =>
    rw [List.foldl_cons]
    rcases h q List.mem_cons_self with rfl | hsome
    · rw [putNew_of_none (hp ▸ hz) hz, hp, foldl_putNew_of_default]
      rw [Function.update_self]
      rfl
    · rw [putNew_of_some hsome]
      apply ih _ fun r hr => h r (List.mem_cons_of_mem _ hr)
      rcases List.mem_cons.mp hmem with rfl | hmem
      · rw [hp, hz] at hsome
        cases hsome
      · exact hmem

omit [DecidableEq κ] in
theorem exists_perm_cons (h : p ∈ l) : ∃ l', (p :: l').Perm l := by
  obtain ⟨s, t, rfl⟩ := List.append_of_mem h
  exact ⟨s ++ t, List.perm_middle.symm⟩

/-- Entries without the one that stands in come to the same, however they are ordered. -/
theorem foldl_putNew_perm (hkeys : ∀ p ∈ l, ∀ q ∈ l, k p = k q → p = q) (hl : ∀ p ∈ l, k p ≠ z)
    (h : l'.Perm l) : l'.foldl (putNew k z) f = l.foldl (putNew k z) f := by
  apply h.foldl_eq'
  intro p hp q hq g
  rw [h.mem_iff] at hp hq
  by_cases hpq : k p = k q
  · rw [hkeys p hp q hq hpq]
  · exact putNew_comm (hl p hp) (hl q hq) hpq

/-- What is filed under a key stays. -/
theorem foldl_putNew_of_some {a : κ} (h : (f a).isSome) (l : List α) :
    l.foldl (putNew k z) f a = f a := by
  induction l generalizing f with
  | nil => rfl
  | cons p l ih =>
    have hput : putNew k z f p a = f a := by
      rw [putNew]
      split
      next => rfl
      next hp =>
        apply Function.update_of_ne
        rintro rfl
        exact hp (by rw [h, Bool.true_or])
    rw [List.foldl_cons, ih (by rwa [hput]), hput]

/-- Whether entries of distinct keys come to the same map in every order: when there is an entry that
stands in already, or none among them, or nothing else among them is new. -/
theorem foldl_putNew_iff (hkeys : ∀ p ∈ l, ∀ q ∈ l, k p = k q → p = q) :
    (∀ l' : List α, l'.Perm l → l'.foldl (putNew k z) f = l.foldl (putNew k z) f) ↔
      (f z).isSome ∨ (∀ p ∈ l, k p ≠ z) ∨ ∀ p ∈ l, k p = z ∨ (f (k p)).isSome := by
  constructor
  · intro h
    by_contra! hnot
    obtain ⟨hz, ⟨p, hp, hpz⟩, q, hq, hqz, hnew⟩ := hnot
    replace hz : f z = none := Option.not_isSome_iff_eq_none.mp hz
    replace hnew : f (k q) = none := Option.not_isSome_iff_eq_none.mp hnew
    -- the same entries with `p` in front, and with `q` in front
    obtain ⟨lp, hlp⟩ := exists_perm_cons hp
    obtain ⟨lq, hlq⟩ := exists_perm_cons hq
    have hlast := congrFun ((h _ hlp).trans (h _ hlq).symm) (k q)
    rw [List.foldl_cons, List.foldl_cons, putNew_of_none (hpz ▸ hz) hz, putNew_of_none hnew hz,
      foldl_putNew_of_default, foldl_putNew_of_some] at hlast
    · rw [Function.update_self, hpz, Function.update_of_ne hqz, hnew] at hlast
      cases hlast
    · rw [Function.update_self]
      rfl
    · rw [hpz, Function.update_self]
      rfl
  · rintro (hz | hl | hl) l' h
    · rw [foldl_putNew_of_default hz, foldl_putNew_of_default hz]
    · exact foldl_putNew_perm hkeys hl h
    · by_cases hz : (f z).isSome
      · rw [foldl_putNew_of_default hz, foldl_putNew_of_default hz]
      rw [Option.not_isSome_iff_eq_none] at hz
      by_cases hnone : ∀ p ∈ l, k p ≠ z
      · exact foldl_putNew_perm hkeys hnone h
      push Not at hnone
      obtain ⟨p, hp, hpz⟩ := hnone
      have hrest : ∀ q ∈ l, q = p ∨ (f (k q)).isSome :=
        fun q hq => (hl q hq).imp_left fun hqz => hkeys q hq p hp (hqz.trans hpz.symm)
      rw [foldl_putNew_default hz hpz hp hrest, foldl_putNew_default hz hpz (h.mem_iff.mpr hp)]
      exact fun q hq => hrest q (h.mem_iff.mp hq)
