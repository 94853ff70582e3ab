import Mathlib.Algebra.Group.Nat.Even
import Mathlib.Data.Nat.Dist
import Mathlib.Tactic.Ring
import Rulebook.Number.Binary64

/-!
Rounding to the format: a quotient is rounded to the nearest magnitude of at most 53 significant
bits, and of two equally near ones to the one that ends in an even bit. It depends on the quotient
alone, keeps a magnitude of the format as it is, and keeps the powers of two that it is between.
-/

namespace Rulebook.Number

/-- At most 53 bits lie between the first one of a magnitude and its last. -/
def HasPrecision (units : Nat) : Prop :=
  ∃ significand exponent, significand < 2 ^ 53 ∧ units = significand * 2 ^ exponent

def EndsEven (units : Nat) : Prop :=
  2 * 2 ^ (units.log2 - 52) ∣ units

theorem hasPrecision_of_lt {units : Nat} (small : units < 2 ^ 53) : HasPrecision units :=
  ⟨units, 0, small, by omega⟩

theorem hasPrecision_iff {units : Nat} : HasPrecision units ↔ 2 ^ (units.log2 - 52) ∣ units := by
  constructor
  · rintro ⟨significand, exponent, small, rfl⟩
    by_cases zero : significand * 2 ^ exponent = 0
    · simp [zero]
    · have bound : significand * 2 ^ exponent < 2 ^ (53 + exponent) := by
        rw [Nat.pow_add]
        exact Nat.mul_lt_mul_of_pos_right small (Nat.two_pow_pos exponent)
      have log := (Nat.log2_lt zero).mpr bound
      exact (Nat.pow_dvd_pow 2 (by omega)).trans (Nat.dvd_mul_left _ _)
  · rintro ⟨significand, split⟩
    refine ⟨significand, units.log2 - 52, ?_, by rw [Nat.mul_comm, ← split]⟩
    have upper : units < 2 ^ (units.log2 - 52 + 53) :=
      Nat.lt_of_lt_of_le Nat.lt_log2_self (Nat.pow_le_pow_right (by decide) (by omega))
    rw [Nat.pow_add] at upper
    exact Nat.lt_of_mul_lt_mul_left (split.symm.trans_lt upper)

theorem representable_iff {units : Nat} :
    Representable units ↔ units / unitsOfOne < Nat.pow 2 1024 ∧ HasPrecision units := by
  rw [hasPrecision_iff]
  rfl

theorem hasPrecision_mul_two_pow_iff {units : Nat} (exponent : Nat) :
    HasPrecision (units * 2 ^ exponent) ↔ HasPrecision units := by
  constructor
  · rintro ⟨significand, power, small, split⟩
    rcases Nat.le_total exponent power with le | le
    · refine ⟨significand, power - exponent, small, ?_⟩
      have parts : 2 ^ power = 2 ^ (power - exponent) * 2 ^ exponent := by
        rw [← Nat.pow_add]
        congr 1
        omega
      rw [parts, ← Nat.mul_assoc] at split
      exact Nat.eq_of_mul_eq_mul_right (Nat.two_pow_pos exponent) split
    · have parts : 2 ^ exponent = 2 ^ (exponent - power) * 2 ^ power := by
        rw [← Nat.pow_add]
        congr 1
        omega
      rw [parts, ← Nat.mul_assoc] at split
      have same := Nat.eq_of_mul_eq_mul_right (Nat.two_pow_pos power) split
      have le : units ≤ significand := by
        rw [← same]
        exact Nat.le_mul_of_pos_right units (Nat.two_pow_pos _)
      exact hasPrecision_of_lt (by omega)
  · rintro ⟨significand, power, small, rfl⟩
    exact ⟨significand, power + exponent, small, by rw [Nat.pow_add, Nat.mul_assoc]⟩

namespace Binary64

theorem roundQuotient_mul_mul {factor : Nat} (positive : 0 < factor) (dividend divisor : Nat) :
    roundQuotient (factor * dividend) (factor * divisor) = roundQuotient dividend divisor := by
  have twice : 2 * (factor * (dividend % divisor)) = factor * (2 * (dividend % divisor)) := by ring
  simp only [roundQuotient, Nat.mul_div_mul_left _ _ positive, Nat.mul_mod_mul_left, twice,
    Nat.mul_lt_mul_left positive, Nat.mul_right_inj (Nat.ne_of_gt positive)]

theorem roundQuotient_mul (quotient : Nat) {divisor : Nat} (positive : 0 < divisor) :
    roundQuotient (quotient * divisor) divisor = quotient := by
  simp [roundQuotient, Nat.mul_div_cancel quotient positive, positive]

theorem div_le_roundQuotient (dividend divisor : Nat) :
    dividend / divisor ≤ roundQuotient dividend divisor := by
  simp only [roundQuotient]
  split <;> omega

theorem roundQuotient_le (dividend divisor : Nat) :
    roundQuotient dividend divisor ≤ dividend / divisor + 1 := by
  simp only [roundQuotient]
  split <;> omega

theorem roundQuotient_nearest (dividend : Nat) {divisor : Nat} (positive : 0 < divisor)
    (other : Nat) :
    (roundQuotient dividend divisor * divisor).dist dividend ≤ (other * divisor).dist dividend ∧
    (other ≠ roundQuotient dividend divisor →
      (roundQuotient dividend divisor * divisor).dist dividend = (other * divisor).dist dividend →
      Even (roundQuotient dividend divisor)) := by
  have parts := Nat.div_add_mod dividend divisor
  have bound := Nat.mod_lt dividend positive
  have next : (dividend / divisor + 1) * divisor = divisor * (dividend / divisor) + divisor := by ring
  have same : dividend / divisor * divisor = divisor * (dividend / divisor) := Nat.mul_comm _ _
  -- The other number is the quotient, the next one, or lies beyond one of the two.
  have place : (other < dividend / divisor ∧ other * divisor + divisor ≤ divisor * (dividend / divisor)) ∨
      other = dividend / divisor ∨ other = dividend / divisor + 1 ∨
      (dividend / divisor + 1 < other ∧
        divisor * (dividend / divisor) + 2 * divisor ≤ other * divisor) := by
    rcases Nat.lt_trichotomy other (dividend / divisor) with less | rfl | more
    · left
      refine ⟨less, ?_⟩
      have le := Nat.mul_le_mul_right divisor (Nat.succ_le_of_lt less)
      rw [Nat.succ_mul, same] at le
      exact le
    · simp
    · rcases Nat.lt_or_eq_of_le (Nat.succ_le_of_lt more) with beyond | rfl
      · right; right; right
        refine ⟨beyond, ?_⟩
        have le := Nat.mul_le_mul_right divisor (Nat.succ_le_of_lt beyond)
        rw [Nat.succ_mul, next] at le
        omega
      · simp
  simp only [roundQuotient, Nat.dist, Nat.even_iff]
  split
  next kept =>
    rcases place with ⟨less, below⟩ | rfl | rfl | ⟨more, above⟩ <;> omega
  next raised =>
    rcases place with ⟨less, below⟩ | rfl | rfl | ⟨more, above⟩ <;> omega

def spacingAt (dividend divisor : Nat) : Nat :=
  2 ^ ((dividend / divisor).log2 - 52)

def roundPrecise (dividend divisor : Nat) : Nat :=
  roundQuotient dividend (divisor * spacingAt dividend divisor) * spacingAt dividend divisor

theorem roundUnits_eq (dividend divisor : Nat) :
    roundUnits dividend divisor = roundPrecise (dividend * unitsOfOne) divisor := rfl

theorem spacingAt_pos (dividend divisor : Nat) : 0 < spacingAt dividend divisor :=
  Nat.two_pow_pos _

theorem roundPrecise_mul_mul {factor : Nat} (positive : 0 < factor) (dividend divisor : Nat) :
    roundPrecise (factor * dividend) (factor * divisor) = roundPrecise dividend divisor := by
  have spacing : spacingAt (factor * dividend) (factor * divisor) = spacingAt dividend divisor := by
    rw [spacingAt, spacingAt, Nat.mul_div_mul_left _ _ positive]
  rw [roundPrecise, roundPrecise, spacing, Nat.mul_assoc, roundQuotient_mul_mul positive]

theorem roundPrecise_congr {dividend divisor dividend' divisor' : Nat} (positive : 0 < divisor)
    (positive' : 0 < divisor') (same : dividend * divisor' = dividend' * divisor) :
    roundPrecise dividend divisor = roundPrecise dividend' divisor' := by
  calc
    roundPrecise dividend divisor = roundPrecise (divisor' * dividend) (divisor' * divisor) :=
      (roundPrecise_mul_mul positive' dividend divisor).symm
    _ = roundPrecise (divisor * dividend') (divisor * divisor') := by
      rw [Nat.mul_comm divisor' dividend, same, Nat.mul_comm dividend' divisor,
        Nat.mul_comm divisor' divisor]
    _ = roundPrecise dividend' divisor' := roundPrecise_mul_mul positive dividend' divisor'

theorem roundPrecise_of_hasPrecision {units divisor : Nat} (precise : HasPrecision units)
    (positive : 0 < divisor) : roundPrecise (units * divisor) divisor = units := by
  have quotient : units * divisor / divisor = units := Nat.mul_div_cancel units positive
  have spacing : spacingAt (units * divisor) divisor = 2 ^ (units.log2 - 52) := by
    rw [spacingAt, quotient]
  obtain ⟨steps, split⟩ := hasPrecision_iff.mp precise
  have dividend : units * divisor = steps * (divisor * 2 ^ (units.log2 - 52)) := by
    calc
      units * divisor = 2 ^ (units.log2 - 52) * steps * divisor := by rw [← split]
      _ = steps * (divisor * 2 ^ (units.log2 - 52)) := by ring
  rw [roundPrecise, spacing, dividend,
    roundQuotient_mul _ (Nat.mul_pos positive (Nat.two_pow_pos _)), Nat.mul_comm, ← split]

theorem roundPrecise_eq_zero {dividend divisor : Nat} (small : 2 * dividend < divisor) :
    roundPrecise dividend divisor = 0 := by
  have quotient : dividend / divisor = 0 := Nat.div_eq_of_lt (by omega)
  have remainder : dividend % divisor = dividend := Nat.mod_eq_of_lt (by omega)
  simp [roundPrecise, spacingAt, roundQuotient, quotient, remainder, small]

theorem two_pow_log2_eq (dividend divisor : Nat) :
    2 ^ (dividend / divisor).log2 =
      2 ^ ((dividend / divisor).log2 - ((dividend / divisor).log2 - 52)) *
        spacingAt dividend divisor := by
  rw [spacingAt, ← Nat.pow_add]
  congr 1
  omega

theorem two_pow_log2_le_roundPrecise {dividend divisor : Nat} (whole : dividend / divisor ≠ 0) :
    2 ^ (dividend / divisor).log2 ≤ roundPrecise dividend divisor := by
  rw [two_pow_log2_eq]
  refine Nat.mul_le_mul_right _ (Nat.le_trans ?_ (div_le_roundQuotient _ _))
  rw [← Nat.div_div_eq_div_mul, Nat.le_div_iff_mul_le (spacingAt_pos dividend divisor),
    ← two_pow_log2_eq]
  exact Nat.log2_self_le whole

theorem two_pow_le_roundPrecise {dividend divisor exponent : Nat}
    (large : 2 ^ exponent ≤ dividend / divisor) : 2 ^ exponent ≤ roundPrecise dividend divisor := by
  have whole : dividend / divisor ≠ 0 := by
    have positive := Nat.two_pow_pos exponent
    omega
  have le : exponent ≤ (dividend / divisor).log2 := (Nat.le_log2 whole).mpr large
  exact Nat.le_trans (Nat.pow_le_pow_right (by decide) le) (two_pow_log2_le_roundPrecise whole)

theorem roundQuotient_spacingAt_le (dividend divisor : Nat) :
    roundQuotient dividend (divisor * spacingAt dividend divisor) ≤ 2 ^ 53 := by
  have upper : dividend / divisor < 2 ^ 53 * spacingAt dividend divisor := by
    refine Nat.lt_of_lt_of_le Nat.lt_log2_self ?_
    rw [spacingAt, ← Nat.pow_add]
    exact Nat.pow_le_pow_right (by decide) (by omega)
  have steps := Nat.div_lt_of_lt_mul (Nat.mul_comm _ _ ▸ upper)
  rw [Nat.div_div_eq_div_mul] at steps
  exact Nat.le_trans (roundQuotient_le _ _) steps

theorem hasPrecision_roundPrecise (dividend divisor : Nat) :
    HasPrecision (roundPrecise dividend divisor) := by
  rw [roundPrecise, spacingAt, hasPrecision_mul_two_pow_iff]
  rcases Nat.lt_or_eq_of_le (roundQuotient_spacingAt_le dividend divisor) with small | full
  · exact hasPrecision_of_lt small
  · rw [← spacingAt, full]
    exact ⟨1, 53, by decide, by decide⟩

theorem endsEven_roundPrecise {dividend divisor : Nat}
    (even : Even (roundQuotient dividend (divisor * spacingAt dividend divisor))) :
    EndsEven (roundPrecise dividend divisor) := by
  have bound := roundQuotient_spacingAt_le dividend divisor
  rw [roundPrecise]
  generalize roundQuotient dividend (divisor * spacingAt dividend divisor) = steps at *
  rw [spacingAt]
  generalize (dividend / divisor).log2 - 52 = exponent
  rcases Nat.lt_or_eq_of_le bound with small | rfl
  · by_cases zero : steps * 2 ^ exponent = 0
    · simp [EndsEven, zero]
    · have upper : steps * 2 ^ exponent < 2 ^ (53 + exponent) := by
        rw [Nat.pow_add]
        exact Nat.mul_lt_mul_of_pos_right small (Nat.two_pow_pos exponent)
      have log := (Nat.log2_lt zero).mpr upper
      exact Nat.mul_dvd_mul even.two_dvd (Nat.pow_dvd_pow 2 (by omega))
  · have log : (2 ^ 53 * 2 ^ exponent).log2 = 53 + exponent := by
      rw [← Nat.pow_add, Nat.log2_two_pow]
    rw [EndsEven, log, ← Nat.pow_succ', ← Nat.pow_add]
    exact Nat.pow_dvd_pow 2 (by omega)

/-- No whole number of at most 53 significant bits is nearer to a quotient than the one that it is
rounded to. -/
theorem roundPrecise_nearest (dividend : Nat) {divisor : Nat} (positive : 0 < divisor)
    {other : Nat} (precise : HasPrecision other) :
    (roundPrecise dividend divisor * divisor).dist dividend ≤ (other * divisor).dist dividend ∧
    (other ≠ roundPrecise dividend divisor →
      (roundPrecise dividend divisor * divisor).dist dividend = (other * divisor).dist dividend →
      EndsEven (roundPrecise dividend divisor)) := by
  have gap := spacingAt_pos dividend divisor
  have onGrid (steps : Nat) : steps * spacingAt dividend divisor * divisor =
      steps * (divisor * spacingAt dividend divisor) := by ring
  by_cases apart : spacingAt dividend divisor ∣ other
  · obtain ⟨steps, rfl⟩ := apart
    obtain ⟨near, tie⟩ := roundQuotient_nearest dividend (Nat.mul_pos positive gap) steps
    rw [Nat.mul_comm (spacingAt dividend divisor) steps, onGrid, roundPrecise, onGrid]
    refine ⟨near, ?_⟩
    intro differs same
    refine endsEven_roundPrecise (tie ?_ same)
    rintro rfl
    exact differs rfl
  · -- A finer number lies below the power of two under the quotient, which is nearer.
    have below : other < 2 ^ (dividend / divisor).log2 := by
      by_contra above
      have nonzero : other ≠ 0 := by
        have := Nat.two_pow_pos (dividend / divisor).log2
        omega
      have le := (Nat.le_log2 nonzero).mpr (Nat.le_of_not_lt above)
      exact apart ((Nat.pow_dvd_pow 2 (by omega)).trans (hasPrecision_iff.mp precise))
    have whole : dividend / divisor ≠ 0 := by
      intro zero
      simp [spacingAt, zero] at apart
    have under : 2 ^ (dividend / divisor).log2 * divisor ≤ dividend :=
      (Nat.le_div_iff_mul_le positive).mp (Nat.log2_self_le whole)
    have farther := Nat.mul_lt_mul_of_pos_right below positive
    have near := (roundQuotient_nearest dividend (Nat.mul_pos positive gap)
      (2 ^ ((dividend / divisor).log2 - ((dividend / divisor).log2 - 52)))).1
    rw [← onGrid, ← onGrid, ← two_pow_log2_eq, ← roundPrecise] at near
    simp only [Nat.dist] at near ⊢
    omega

theorem roundPrecise_mul_two_pow (whole exponent : Nat) :
    roundPrecise (whole * 2 ^ exponent) 1 = roundPrecise whole 1 * 2 ^ exponent := by
  rcases Nat.lt_or_ge whole (2 ^ 53) with small | large
  · have precise := hasPrecision_of_lt small
    have kept := roundPrecise_of_hasPrecision precise Nat.one_pos
    have scaled := roundPrecise_of_hasPrecision
      ((hasPrecision_mul_two_pow_iff exponent).mpr precise) Nat.one_pos
    rw [Nat.mul_one] at kept scaled
    rw [kept, scaled]
  · have nonzero : whole ≠ 0 := by omega
    have log : (whole * 2 ^ exponent).log2 = whole.log2 + exponent := by
      rw [Nat.log2_eq_iff (Nat.mul_ne_zero nonzero (Nat.ne_of_gt (Nat.two_pow_pos exponent))),
        Nat.add_right_comm, Nat.pow_add, Nat.pow_add]
      exact ⟨Nat.mul_le_mul_right _ (Nat.log2_self_le nonzero),
        Nat.mul_lt_mul_of_pos_right Nat.lt_log2_self (Nat.two_pow_pos exponent)⟩
    have bits : 53 ≤ whole.log2 := (Nat.le_log2 nonzero).mpr large
    have spacing : spacingAt (whole * 2 ^ exponent) 1 = 2 ^ exponent * spacingAt whole 1 := by
      rw [spacingAt, spacingAt, Nat.div_one, Nat.div_one, log, ← Nat.pow_add]
      congr 1
      omega
    rw [roundPrecise, roundPrecise, spacing, Nat.one_mul, Nat.one_mul, Nat.mul_comm whole,
      roundQuotient_mul_mul (Nat.two_pow_pos exponent)]
    ring

end Binary64

end Rulebook.Number
