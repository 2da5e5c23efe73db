import Nixe.Effect.Method
import Nixe.Effect.Word

/-!
# The display clock

The clock is told the elapsed time, in nanoseconds, and answers how many refreshes were crossed
since it was last told. Its state is a function of the largest time so far: the refreshes that have
passed, and the boundary of the next one, at which the count goes on.

Two things break this. A rate above 1 GHz is accepted and has an empty period, by which the first
call divides. And the next boundary saturates at the last time that fits into 64 bits, so that the
calls at this time count a refresh each.
-/

namespace Nixe.Video

open Method

structure DisplayTicks where
  latestSequence : Nat := 0
  crossed : Nat := 0
  deriving DecidableEq, Repr

inductive DisplayClockError where
  | zeroRefreshRate
  deriving DecidableEq, Repr

structure DisplayClock where
  period : Nat
  nextBoundary : Nat
  sequence : Nat
  deriving DecidableEq, Repr

/-- `u64::try_from(n).unwrap_or(u64::MAX)`. -/
def saturate (n : Nat) : Nat := min n wordMax

def durationMul (duration factor : Nat) : Nat := saturate (min (duration * factor) (2 ^ 128 - 1))

namespace DisplayClock

def new (refreshHz : Nat) : Except DisplayClockError DisplayClock :=
  if refreshHz = 0 then .error .zeroRefreshRate
  else
    let period := 1000000000 / refreshHz
    .ok { period, nextBoundary := period, sequence := 0 }

def advance (elapsed : Nat) : Method Empty DisplayClock DisplayTicks := do
  let clock ← read id
  if elapsed < clock.nextBoundary then pure {}
  else
    let late := elapsed - clock.nextBoundary
    if clock.period = 0 then abort "attempt to divide by zero"
    else
      let crossed := saturate (late / clock.period + 1)
      let sequence := saturatingAdd clock.sequence crossed
      let nextBoundary := durationMul clock.period (saturatingAdd sequence 1)
      update fun clock ↦ { clock with sequence, nextBoundary }
      pure { latestSequence := sequence, crossed }

/-- The calls for a sequence of times. -/
def advanceAll : List Nat → Method Empty DisplayClock (List DisplayTicks)
  | [] => pure []
  | elapsed :: times => do
    let ticks ← advance elapsed
    let rest ← advanceAll times
    pure (ticks :: rest)

/-- The clock whose largest time is `elapsed`. -/
def reached (period elapsed : Nat) : DisplayClock where
  period
  nextBoundary := durationMul period (elapsed / period + 1)
  sequence := elapsed / period

variable {period largest elapsed : Nat}

theorem durationMul_eq (duration factor : Nat) :
    durationMul duration factor = min (duration * factor) wordMax := by
  simp only [durationMul, saturate, wordMax]
  omega

/-- One call takes the clock to the larger of the two times, and answers the refreshes between. -/
theorem advance_spec (hperiod : 0 < period) (helapsed : elapsed < wordMax) :
    wp (advance elapsed)
      ⟨fun ticks clock ↦ clock = reached period (max largest elapsed) ∧
          largest / period + ticks.crossed = max largest elapsed / period,
        fun _ _ ↦ False, False⟩ (reached period largest) := by
  have hlt := Nat.lt_mul_div_succ largest hperiod
  simp only [advance, wp_rules, id_eq, reached, durationMul_eq]
  split
  · -- the quotient of the larger time is the same
    have hdiv : max largest elapsed / period = largest / period := by
      refine Nat.div_eq_of_lt_le ?_ ?_
      · exact Nat.le_trans (Nat.div_mul_le_self largest period) (Nat.le_max_left ..)
      · rw [Nat.mul_comm]
        omega
    rw [hdiv]
    exact ⟨rfl, rfl⟩
  · have hle : period * (largest / period + 1) ≤ elapsed := by omega
    have hcount : largest / period + 1 ≤ elapsed / period :=
      (Nat.le_div_iff_mul_le hperiod).mpr (Nat.mul_comm .. ▸ hle)
    have hbound : elapsed / period ≤ elapsed := Nat.div_le_self ..
    have hboundary : min (period * (largest / period + 1)) wordMax =
        period * (largest / period + 1) := by omega
    rw [hboundary, Nat.max_eq_right (by omega), Nat.sub_mul_div, if_neg (Nat.ne_of_gt hperiod)]
    generalize largest / period = before, elapsed / period = count at *
    have hcrossed : saturate (count - (before + 1) + 1) = count - before := by
      rw [saturate]
      omega
    have hsequence : saturatingAdd before (count - before) = count := by
      rw [saturatingAdd]
      omega
    have hnext : saturatingAdd count 1 = count + 1 :=
      Nat.min_eq_left (Nat.lt_of_le_of_lt hbound helapsed)
    simp only [wp_rules, hcrossed, hsequence, hnext]
    exact ⟨trivial, by omega⟩

/-- The calls take the clock to the largest time. -/
theorem advanceAll_spec (hperiod : 0 < period) {times : List Nat}
    (htimes : ∀ elapsed ∈ times, elapsed < wordMax) :
    wp (advanceAll times)
      ⟨fun ticks clock ↦ clock = reached period (times.foldl max largest) ∧
          largest / period + (ticks.map DisplayTicks.crossed).sum =
            times.foldl max largest / period,
        fun _ _ ↦ False, False⟩ (reached period largest) := by
  induction times generalizing largest with
  | nil => simp [advanceAll]
  | cons elapsed times ih =>
    obtain ⟨helapsed, htimes⟩ := List.forall_mem_cons.mp htimes
    simp only [advanceAll, wp_rules]
    refine wp_of_ok (advance_spec hperiod helapsed) ?_
    rintro ticks _ ⟨rfl, hcount⟩
    refine wp_of_ok (ih htimes) ?_
    rintro rest clock ⟨hclock, hsum⟩
    refine ⟨hclock, ?_⟩
    rw [List.map_cons, List.sum_cons, ← Nat.add_assoc, hcount]
    exact hsum

/-- **Refreshes are counted once.** For a rate up to 1 GHz and times before the last one that fits
into 64 bits, no call panics, the state that the calls leave is that of the largest time, and the
refreshes that they answer add up to the count. -/
theorem counts_refreshes {refreshHz : Nat} {clock : DisplayClock} {times : List Nat}
    (hnew : new refreshHz = .ok clock) (hrate : refreshHz ≤ 1000000000)
    (htimes : ∀ elapsed ∈ times, elapsed < wordMax) :
    ∃ ticks, advanceAll times clock = .ok ticks (reached clock.period (times.foldl max 0)) ∧
      (ticks.map DisplayTicks.crossed).sum = times.foldl max 0 / clock.period := by
  rw [new] at hnew
  split at hnew
  · cases hnew
  · cases hnew
    have hperiod : 0 < 1000000000 / refreshHz := Nat.div_pos hrate (by omega)
    have hle : 1000000000 / refreshHz ≤ 1000000000 := Nat.div_le_self ..
    generalize 1000000000 / refreshHz = period at *
    have hinitial : reached period 0 = ⟨period, period, 0⟩ := by
      rw [reached, durationMul_eq, Nat.zero_div, wordMax]
      congr 1
      omega
    have hspec : wp _ _ (reached period 0) := advanceAll_spec hperiod htimes
    rw [hinitial] at hspec
    cases hall : advanceAll times ⟨period, period, 0⟩ with
    | ok ticks clock =>
      obtain ⟨rfl, hsum⟩ := ok_of_wp hspec hall
      exact ⟨ticks, rfl, by rwa [Nat.zero_div, Nat.zero_add] at hsum⟩
    | err e => exact e.elim
    | panic => exact (panic_of_wp hspec hall).elim

theorem counts_refreshes_sixty :
    ∃ ticks, advanceAll [50000000, 10000000] ⟨16666666, 16666666, 0⟩ =
        .ok ticks (reached 16666666 50000000) ∧ (ticks.map DisplayTicks.crossed).sum = 3 :=
  counts_refreshes (show new 60 = .ok _ from rfl) (by decide) (by decide)

theorem exists_miscount :
    (∃ clock, new 1000000001 = .ok clock ∧
      advance 0 clock = .panic "attempt to divide by zero") ∧
    ∃ clock clock' ticks, new 60 = .ok clock ∧
      advanceAll [wordMax, wordMax] clock = .ok ticks clock' ∧
      clock'.sequence = wordMax / clock.period + 1 :=
  ⟨⟨_, rfl, rfl⟩, _, _, _, rfl, rfl, rfl⟩

end DisplayClock

end Nixe.Video
