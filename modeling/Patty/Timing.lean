import Mathlib.Algebra.Order.Group.Unbundled.Int
import Mathlib.Tactic.Ring
import Patty.Basic

/-! # What a timer has left

`patty_timer_sub` takes the carry of the nanoseconds with the wrong sign, so that a tick is exact as long as
there is no carry. When that is depends on the nanosecond parts of the readings of the clock alone
(`exact_iff`). -/

namespace Patty

/-- The time in nanoseconds. -/
def Timespec.nanos (t : Timespec) : Int := t.sec * 1000000000 + t.nsec

/-- The nanoseconds are less than a second. -/
def Timespec.Normal (t : Timespec) : Prop := 0 ≤ t.nsec ∧ t.nsec < 1000000000

instance (t : Timespec) : Decidable t.Normal := inferInstanceAs (Decidable (_ ∧ _))

/-- Two readings of the clock. -/
structure Readings where
  before : Timespec
  after : Timespec

namespace Readings

/-- The time between the readings in nanoseconds. -/
def nanos (r : Readings) : Int := r.after.nanos - r.before.nanos

/-- The difference of the nanosecond parts. -/
def nsec (r : Readings) : Int := r.after.nsec - r.before.nsec

/-- The time between the readings, as `patty_timer_sub` computes it. -/
def elapsed (r : Readings) : Timespec := Timer.sub r.after r.before

/-- The readings are those of a clock that does not go back. -/
structure Valid (r : Readings) : Prop where
  before : r.before.Normal
  after : r.after.Normal
  le : r.before.nanos ≤ r.after.nanos

end Readings

namespace Timer

variable {t : Timer} {r : Readings} {rs : List Readings}

/-- The time left in nanoseconds. -/
def left (t : Timer) : Int := t.sec * 1000000000 + t.nsec

/-- The timer after a tick for each pair of readings. -/
def ticks (t : Timer) (rs : List Readings) : Timer := rs.foldl (fun t r => t.tick r.elapsed) t

/-- The sum of the times between the readings. -/
def total (rs : List Readings) : Int := (rs.map Readings.nanos).sum

/-- The sum of the differences of the nanosecond parts. -/
def totalNsec (rs : List Readings) : Int := (rs.map Readings.nsec).sum

/-- `patty_timer_sub` is off by two seconds for each second of the carry. -/
theorem nanos_sub (a b : Timespec) :
    (sub a b).nanos = a.nanos - b.nanos - 2 * (a.nsec - b.nsec).tdiv (1000000000) * 1000000000 := by
  have h := Int.tmod_def (a.nsec - b.nsec) (1000000000)
  rw [sub, Timespec.nanos, h, Timespec.nanos, Timespec.nanos]
  ring

theorem tdiv_eq_zero {x : Int} : x.tdiv 1000000000 = 0 ↔ |x| < 1000000000 := by
  rw [abs_lt]
  rcases le_total 0 x with hx | hx
  · rw [Int.tdiv_eq_ediv_of_nonneg hx]
    omega
  · rw [← neg_neg x, Int.neg_tdiv, Int.tdiv_eq_ediv_of_nonneg (by omega)]
    omega

/-- Without a carry the nanosecond part is the difference. -/
theorem nsec_sub {a b : Timespec} (h : |a.nsec - b.nsec| < 1000000000) : (sub a b).nsec = a.nsec - b.nsec := by
  have hmod := Int.tmod_def (a.nsec - b.nsec) (1000000000)
  rw [tdiv_eq_zero.mpr h] at hmod
  simpa [sub] using hmod

/-- The time between two readings is exact. -/
theorem elapsed_exact (h : r.Valid) : r.elapsed.nanos = r.nanos ∧ r.elapsed.nsec = r.nsec := by
  obtain ⟨⟨hb₀, hb₁⟩, ⟨ha₀, ha₁⟩, -⟩ := h
  have hlt : |r.after.nsec - r.before.nsec| < 1000000000 := by
    rw [abs_lt]
    omega
  refine ⟨?_, nsec_sub hlt⟩
  rw [Readings.elapsed, nanos_sub, tdiv_eq_zero.mpr hlt, Readings.nanos]
  ring

/-- A tick of a running timer: it is exact but for the carry. -/
theorem tick_left (ht : t.running) (hr : r.Valid) : (t.tick r.elapsed).running ∧
    (t.tick r.elapsed).left = t.left - r.nanos - 2 * (t.nsec - r.nsec).tdiv 1000000000 * 1000000000 ∧
    |(t.tick r.elapsed).nsec| < 1000000000 := by
  obtain ⟨hnanos, hnsec⟩ := elapsed_exact hr
  have hsub := nanos_sub ⟨t.sec, t.nsec⟩ r.elapsed
  rw [tick, if_pos ht]
  refine ⟨ht, ?_, ?_⟩
  · rw [hnanos, hnsec] at hsub
    exact hsub
  · rw [abs_lt]
    exact ⟨Int.lt_tmod_of_pos _ (by decide), Int.tmod_lt_of_pos _ (by decide)⟩

/-- Without a carry the nanosecond part is counted down too. -/
theorem tick_nsec (ht : t.running) (hr : r.Valid) (h : |t.nsec - r.nsec| < 1000000000) :
    (t.tick r.elapsed).nsec = t.nsec - r.nsec := by
  obtain ⟨-, hnsec⟩ := elapsed_exact hr
  rw [← hnsec] at h ⊢
  rw [tick, if_pos ht]
  exact nsec_sub (a := ⟨t.sec, t.nsec⟩) h

theorem ticks_running (ht : t.running) (hrs : ∀ r ∈ rs, r.Valid) (hn : |t.nsec| < 1000000000) :
    (t.ticks rs).running ∧ |(t.ticks rs).nsec| < 1000000000 := by
  induction rs generalizing t with
  | nil => exact ⟨ht, hn⟩
  | cons r rs ih =>
    obtain ⟨hr, hrs⟩ := List.forall_mem_cons.mp hrs
    obtain ⟨hrun, -, hnsec⟩ := tick_left ht hr
    exact ih hrun hrs hnsec

/-- The ticks are exact exactly if there is no carry. -/
theorem ticks_left_iff (ht : t.running) (hrs : ∀ r ∈ rs, r.Valid) (hn : |t.nsec| < 1000000000) :
    (∀ l, l <+: rs → (t.ticks l).left = t.left - total l) ↔
      ∀ l, l <+: rs → |t.nsec - totalNsec l| < 1000000000 := by
  induction rs generalizing t with
  | nil =>
    simp only [List.prefix_nil, forall_eq]
    simpa [ticks, total, totalNsec] using hn
  | cons r rs ih =>
    obtain ⟨hr, hrs⟩ := List.forall_mem_cons.mp hrs
    obtain ⟨hrun, hleft, hnsec⟩ := tick_left ht hr
    have hfirst : [r] <+: r :: rs := List.cons_prefix_cons.mpr ⟨rfl, List.nil_prefix⟩
    have hcarry : (t.tick r.elapsed).left = t.left - r.nanos ↔ |t.nsec - r.nsec| < 1000000000 := by
      rw [hleft, ← tdiv_eq_zero]
      omega
    have htotal (l : List Readings) : total (r :: l) = r.nanos + total l ∧
        totalNsec (r :: l) = r.nsec + totalNsec l := ⟨List.sum_cons, List.sum_cons⟩
    constructor
    · intro h l hl
      have hone := h [r] hfirst
      rw [(htotal []).1, show total [] = 0 from rfl, add_zero] at hone
      have hlt := hcarry.mp hone
      rcases List.prefix_cons_iff.mp hl with rfl | ⟨l, rfl, htail⟩
      · simpa [totalNsec] using hn
      · have hrest := (ih hrun hrs hnsec).mp (fun l hl => ?_) l htail
        · rw [tick_nsec ht hr hlt] at hrest
          rw [(htotal l).2, ← sub_sub]
          exact hrest
        · have hall := h (r :: l) (List.cons_prefix_cons.mpr ⟨rfl, hl⟩)
          rw [(htotal l).1, ← sub_sub, ← hcarry.mpr hlt] at hall
          exact hall
    · intro h l hl
      have hone := h [r] hfirst
      rw [(htotal []).2, show totalNsec [] = 0 from rfl, add_zero] at hone
      rcases List.prefix_cons_iff.mp hl with rfl | ⟨l, rfl, htail⟩
      · simp [ticks, total]
      · have hrest := (ih hrun hrs hnsec).mpr (fun l hl => ?_) l htail
        · rw [hcarry.mpr hone] at hrest
          rw [(htotal l).1, ← sub_sub]
          exact hrest
        · have hall := h (r :: l) (List.cons_prefix_cons.mpr ⟨rfl, hl⟩)
          rw [tick_nsec ht hr hone]
          rw [(htotal l).2, ← sub_sub] at hall
          exact hall

/-- A running timer has expired when nothing is left. -/
theorem expired_iff (ht : t.running) (hn : |t.nsec| < 1000000000) : t.expired ↔ t.left ≤ 0 := by
  rw [abs_lt] at hn
  rw [expired, ht, left]
  simp only [Bool.true_and, Bool.or_eq_true, Bool.and_eq_true, decide_eq_true_eq, beq_iff_eq]
  omega

theorem start_left (h : 0 ≤ t.ms) : t.start.left = t.ms * 1000000 ∧
    t.start.nsec = t.ms % 1000 * 1000000 := by
  have hmod : t.ms.tmod 1000 = t.ms % 1000 := Int.tmod_eq_emod_of_nonneg h
  have hdiv : t.ms.tdiv 1000 = t.ms / 1000 := Int.tdiv_eq_ediv_of_nonneg h
  rw [left, start]
  dsimp only
  rw [hmod, hdiv]
  omega

/-- After the ticks the timer says what is left of its period, and has expired exactly if nothing is. -/
structure Tells (t : Timer) (rs : List Readings) : Prop where
  left : (t.start.ticks rs).left = t.ms * 1000000 - total rs
  expired : (t.start.ticks rs).expired ↔ t.ms * 1000000 ≤ total rs

/-- A timer tells the time all along exactly if the nanoseconds of its period and of the readings never add up
to a second. -/
theorem tells_iff (hms : 0 ≤ t.ms) (hrs : ∀ r ∈ rs, r.Valid) : (∀ l, l <+: rs → Tells t l) ↔
    ∀ l, l <+: rs → |t.ms % 1000 * 1000000 - totalNsec l| < 1000000000 := by
  obtain ⟨hleft, hnsec⟩ := start_left hms
  have hn : |t.start.nsec| < 1000000000 := by
    rw [hnsec, abs_lt]
    omega
  rw [← hnsec, ← ticks_left_iff rfl hrs hn, hleft]
  refine forall₂_congr fun l hl => ⟨Tells.left, fun h => ⟨h, ?_⟩⟩
  obtain ⟨hrun, hn⟩ := ticks_running rfl (fun r hr => hrs r (hl.subset hr)) hn
  rw [expired_iff hrun hn, h]
  omega

/-- A timer for 600 ms. -/
def shortTimer : Timer := zero.init 600

/-- Half a second, from 0.9 s to 1.4 s. -/
def halfSecond : Readings := ⟨⟨0, 900000000⟩, ⟨1, 400000000⟩⟩

theorem halfSecond_valid : halfSecond.Valid := ⟨by decide, by decide, by decide⟩

/-- After half a second the timer has expired, and is two seconds off. -/
theorem not_tells_halfSecond : ¬∀ (t : Timer) (rs : List Readings), 0 ≤ t.ms → (∀ r ∈ rs, r.Valid) →
    ∀ l, l <+: rs → Tells t l := by
  intro h
  have htells := (h shortTimer [halfSecond] (by decide) (by simpa using halfSecond_valid) _ List.prefix_rfl).left
  exact absurd htells (by decide)

/-- A tick that starts at a full second is exact. -/
theorem tells_iff_second : Tells shortTimer [⟨⟨1, 0⟩, ⟨1, 500000000⟩⟩] := by
  refine (tells_iff (by decide) fun r hr => ?_).mpr (fun l hl => ?_) _ List.prefix_rfl
  · rw [List.mem_singleton.mp hr]
    exact ⟨by decide, by decide, by decide⟩
  · rcases List.prefix_cons_iff.mp hl with rfl | ⟨l, rfl, htail⟩
    · decide
    · rw [List.prefix_nil.mp htail]
      decide

end Timer

end Patty
