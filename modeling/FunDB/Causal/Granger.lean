import FunDB.Causal.Ols
import Mathlib.Algebra.Order.Field.Basic
import Mathlib.Algebra.Order.Monoid.Unbundled.WithTop
import Mathlib.Tactic.FieldSimp

/-! # Granger tests

Whether the past of one series helps to predict another one, over exact numbers. -/

namespace FunDB.Tier2

/-- The statistic is infinite where something positive is divided by a lag of 0. -/
structure GrangerResult where
  fStat : WithTop ℚ
  pValue : ℚ
  lag : Nat
  differenced : Bool
deriving DecidableEq

def variance (data : List ℚ) : ℚ :=
  if data = [] then 0
  else
    let mean := data.sum / data.length
    (data.map fun x => (x - mean) ^ 2).sum / data.length

def lagged (series : List ℚ) (lag t : Nat) : List ℚ :=
  (List.range' 1 lag).map fun i => series.getD (t - i) 0

def buildLaggedMatrix (y : List ℚ) (xOpt : Option (List ℚ)) (lag : Nat) :
    List (List ℚ) × List ℚ :=
  let n := min y.length (xOpt.elim y.length List.length)
  if n ≤ lag then ([], [])
  else
    let times := List.range' lag (n - lag)
    (times.map fun t => 1 :: (lagged y lag t ++ xOpt.elim [] fun x => lagged x lag t),
      times.map fun t => y.getD t 0)

def fToPvalue : WithTop ℚ → ℚ
  | ⊤ => 9 / 10000
  | (fStat : ℚ) =>
      if 10 < fStat then 9 / 10000
      else if 6 < fStat then 9 / 1000
      else if 4 < fStat then 4 / 100
      else 1 / 10 + 1 / (1 + fStat)

/-- Divided by a lag of 0, a positive number is infinite, and the others are none or are
cut off at 0. -/
def fStatOf (rssR rssU : ℚ) (lag df2 : Nat) : WithTop ℚ :=
  let denominator := rssU / df2
  if |denominator| < 1 / 10 ^ 15 then 0
  else if lag = 0 then if rssU < rssR then ⊤ else 0
  else (max ((rssR - rssU) / lag / denominator) 0 : ℚ)

def grangerTestAtLag (x y : List ℚ) (lag : Nat) (differenced : Bool) : Option GrangerResult :=
  let nTotal := min x.length y.length
  if nTotal < 2 * lag + 2 then none
  else if variance (y.take nTotal) < 1 / 10 ^ 10 then some ⟨0, 1, lag, differenced⟩
  else
    let (xRestricted, yTarget) := buildLaggedMatrix y none lag
    let (xUnrestricted, _) := buildLaggedMatrix y (some x) lag
    if xRestricted = [] ∨ xUnrestricted = [] then none
    else
      let df2 : Int := yTarget.length - 2 * lag - 1
      if df2 ≤ 0 then none
      else
        let rssR := residualSumSquares xRestricted yTarget (olsCoefficients xRestricted yTarget)
        let rssU :=
          residualSumSquares xUnrestricted yTarget (olsCoefficients xUnrestricted yTarget)
        if rssU < 1 / 10 ^ 15 then some ⟨100, fToPvalue 100, lag, differenced⟩
        else
          let fStat := fStatOf rssR rssU lag df2.toNat
          some ⟨fStat, fToPvalue fStat, lag, differenced⟩

/-! ## The residuals -/

/-- The residual of the coefficients that are found. -/
def unexplained (xMatrix : List (List ℚ)) (y : List ℚ) : ℚ :=
  residualSumSquares xMatrix y (olsCoefficients xMatrix y)

/-- The residual of the model without the other series. -/
def restrictedRss (y : List ℚ) (lag : Nat) : ℚ :=
  unexplained (buildLaggedMatrix y none lag).1 (buildLaggedMatrix y none lag).2

/-- The residual of the model with the other series. -/
def unrestrictedRss (x y : List ℚ) (lag : Nat) : ℚ :=
  unexplained (buildLaggedMatrix y (some x) lag).1 (buildLaggedMatrix y none lag).2

section Cut

variable {x y : List ℚ} {lag n : Nat}

theorem zip_take_length {A B : Type} (rows : List A) (y : List B) :
    rows.zip (y.take rows.length) = rows.zip y := by
  induction rows generalizing y with
  | nil => rfl
  | cons row rows induction =>
      cases y with
      | nil => rfl
      | cons value y => exact congrArg ((row, value) :: ·) (induction y)

theorem unexplained_take (xMatrix : List (List ℚ)) (y : List ℚ) :
    unexplained xMatrix (y.take xMatrix.length) = unexplained xMatrix y := by
  have empty : xMatrix = [] ∨ y.take xMatrix.length = [] ↔ xMatrix = [] ∨ y = [] := by
    rw [List.take_eq_nil_iff, List.length_eq_zero_iff]
    tauto
  have equations : ∀ p, augmented xMatrix (y.take xMatrix.length) p = augmented xMatrix y p := by
    intro p
    simp only [augmented, atb, zip_take_length]
  have coefficients : olsCoefficients xMatrix (y.take xMatrix.length) =
      olsCoefficients xMatrix y := by
    simp only [olsCoefficients, empty, equations]
  rw [unexplained, unexplained, coefficients, residualSumSquares, residualSumSquares,
    zip_take_length]

theorem getD_take (series : List ℚ) {k : Nat} (before : k < n) :
    (series.take n).getD k 0 = series.getD k 0 := by
  rw [List.getD_eq_getElem?_getD, List.getD_eq_getElem?_getD, List.getElem?_take_of_lt before]

theorem lagged_take (series : List ℚ) {t : Nat} (before : t < n) :
    lagged (series.take n) lag t = lagged series lag t := by
  apply List.map_congr_left
  intro i isLag
  rw [List.mem_range'_1] at isLag
  exact getD_take series (by omega)

/-- There are no rows where the series are no longer than the lag. -/
theorem buildLaggedMatrix_eq (y : List ℚ) (xOpt : Option (List ℚ)) (lag : Nat) :
    buildLaggedMatrix y xOpt lag =
      let times := List.range' lag (min y.length (xOpt.elim y.length List.length) - lag)
      (times.map fun t => 1 :: (lagged y lag t ++ xOpt.elim [] fun x => lagged x lag t),
        times.map fun t => y.getD t 0) := by
  unfold buildLaggedMatrix
  dsimp only
  split
  · next short =>
      rw [Nat.sub_eq_zero_of_le short]
      rfl
  · rfl

/-- The rows of the model with both series come from their common length. -/
theorem rows_take (x y : List ℚ) (lag : Nat) :
    (buildLaggedMatrix (y.take (min x.length y.length))
        (some (x.take (min x.length y.length))) lag).1 =
      (buildLaggedMatrix y (some x) lag).1 := by
  have common : min (y.take (min x.length y.length)).length
      (x.take (min x.length y.length)).length = min y.length x.length := by
    rw [List.length_take, List.length_take]
    omega
  rw [buildLaggedMatrix_eq, buildLaggedMatrix_eq]
  dsimp only [Option.elim_some]
  rw [common]
  apply List.map_congr_left
  intro t isTime
  rw [List.mem_range'_1] at isTime
  rw [lagged_take y (by omega), lagged_take x (by omega)]

theorem length_rows (x y : List ℚ) (lag : Nat) :
    (buildLaggedMatrix y (some x) lag).1.length = min x.length y.length - lag := by
  rw [buildLaggedMatrix_eq]
  dsimp only [Option.elim_some]
  rw [List.length_map, List.length_range', min_comm]

theorem targets_eq (y : List ℚ) (lag : Nat) :
    (buildLaggedMatrix y none lag).2 = y.drop lag := by
  rw [buildLaggedMatrix_eq]
  dsimp only [Option.elim_none]
  rw [min_self]
  apply List.ext_getElem
  · simp
  · intro t isTime isDropped
    rw [List.length_drop] at isDropped
    simp [List.getElem?_eq_getElem (by omega : lag + t < y.length)]

/-- The residual of the model with both series comes from their common length. -/
theorem unrestrictedRss_take (x y : List ℚ) (lag : Nat) :
    unrestrictedRss (x.take (min x.length y.length)) (y.take (min x.length y.length)) lag =
      unrestrictedRss x y lag := by
  rw [unrestrictedRss, unrestrictedRss, rows_take, targets_eq, targets_eq, ← unexplained_take _
    (y.drop lag), length_rows, List.drop_take]

theorem restrictedRss_zero (short : y.length ≤ x.length) :
    restrictedRss y 0 = unrestrictedRss x y 0 := by
  have same : (buildLaggedMatrix y none 0).1 = (buildLaggedMatrix y (some x) 0).1 := by
    rw [buildLaggedMatrix_eq, buildLaggedMatrix_eq]
    dsimp only [Option.elim_none, Option.elim_some]
    rw [min_self, min_eq_left short]
    rfl
  rw [restrictedRss, unrestrictedRss, same]

end Cut

/-! ## The test -/

theorem grangerTestAtLag_eq {x y : List ℚ} {lag : Nat} (differenced : Bool)
    (enough : 2 * lag + 2 ≤ min x.length y.length) :
    grangerTestAtLag x y lag differenced =
      if variance (y.take (min x.length y.length)) < 1 / 10 ^ 10 then
        some ⟨0, 1, lag, differenced⟩
      else if y.length ≤ 3 * lag + 1 then none
      else if unrestrictedRss x y lag < 1 / 10 ^ 15 then
        some ⟨100, fToPvalue 100, lag, differenced⟩
      else
        some ⟨fStatOf (restrictedRss y lag) (unrestrictedRss x y lag) lag
            (y.length - (3 * lag + 1)),
          fToPvalue (fStatOf (restrictedRss y lag) (unrestrictedRss x y lag) lag
            (y.length - (3 * lag + 1))), lag, differenced⟩ := by
  have some : ¬((buildLaggedMatrix y none lag).1 = [] ∨
      (buildLaggedMatrix y (some x) lag).1 = []) := by
    rw [buildLaggedMatrix_eq, buildLaggedMatrix_eq]
    dsimp only [Option.elim_none, Option.elim_some]
    rw [List.map_eq_nil_iff, List.map_eq_nil_iff, List.range'_eq_nil_iff, List.range'_eq_nil_iff]
    omega
  have length : (buildLaggedMatrix y none lag).2.length = y.length - lag := by
    rw [targets_eq, List.length_drop]
  unfold grangerTestAtLag
  dsimp only
  rw [if_neg enough.not_gt, if_neg some, length]
  have few : ((y.length - lag : Nat) : Int) - 2 * lag - 1 ≤ 0 ↔ y.length ≤ 3 * lag + 1 := by omega
  have freedom : (((y.length - lag : Nat) : Int) - 2 * lag - 1).toNat =
      y.length - (3 * lag + 1) := by omega
  rw [freedom]
  simp only [few]
  rfl

/-! ## Samples beyond the other series -/

/-- How much worse the model without the other series is, for so many degrees of freedom. -/
def excess (rssR rssU : ℚ) (df2 : Nat) : ℚ :=
  if rssU / df2 < 1 / 10 ^ 15 then 0 else max ((rssR - rssU) * df2) 0

theorem excess_nonneg (rssR rssU : ℚ) (df2 : Nat) : 0 ≤ excess rssR rssU df2 := by
  unfold excess
  split
  · exact le_rfl
  · exact le_max_right _ _

/-- With a lag the statistic is a fixed part of the excess. -/
theorem fStatOf_of_pos {rssR rssU : ℚ} {lag df2 : Nat} (hasLag : 0 < lag) (positive : 0 < rssU)
    (free : 0 < df2) :
    fStatOf rssR rssU lag df2 = (excess rssR rssU df2 / (lag * rssU) : ℚ) := by
  have lagPositive : (0 : ℚ) < lag := Nat.cast_pos.mpr hasLag
  have freePositive : (0 : ℚ) < df2 := Nat.cast_pos.mpr free
  unfold fStatOf excess
  dsimp only
  rw [abs_of_nonneg (div_nonneg positive.le freePositive.le)]
  split
  · rw [zero_div]
    rfl
  · have same : (rssR - rssU) / lag / (rssU / df2) = (rssR - rssU) * df2 / (lag * rssU) := by
      field_simp
    have whole := max_div_div_right (mul_pos lagPositive positive).le ((rssR - rssU) * df2) 0
    rw [zero_div] at whole
    rw [if_neg hasLag.ne', same, whole]

/-- Without a lag the statistic is infinite where there is an excess. -/
theorem fStatOf_zero {rssR rssU : ℚ} {df2 : Nat} (positive : 0 < rssU) (free : 0 < df2) :
    fStatOf rssR rssU 0 df2 = if 0 < excess rssR rssU df2 then ⊤ else 0 := by
  have freePositive : (0 : ℚ) < df2 := Nat.cast_pos.mpr free
  unfold fStatOf excess
  dsimp only
  rw [abs_of_nonneg (div_nonneg positive.le freePositive.le)]
  split
  · rw [if_neg (lt_irrefl 0)]
  · have same : 0 < max ((rssR - rssU) * df2) 0 ↔ rssU < rssR := by
      rw [lt_max_iff, or_iff_left (lt_irrefl 0), mul_pos_iff_of_pos_right freePositive, sub_pos]
    rw [if_pos rfl, if_congr same.symm rfl rfl]

theorem fStatOf_eq_iff {rssR rssU otherR : ℚ} {lag df2 otherDf2 : Nat} (positive : 0 < rssU)
    (free : 0 < df2) (otherFree : 0 < otherDf2) (noLag : lag = 0 → otherR = rssU) :
    fStatOf rssR rssU lag df2 = fStatOf otherR rssU lag otherDf2 ↔
      excess rssR rssU df2 = excess otherR rssU otherDf2 := by
  rcases Nat.eq_zero_or_pos lag with none | some
  · subst none
    have nothing : excess otherR rssU otherDf2 = 0 := by
      rw [noLag rfl, excess, sub_self, zero_mul, max_self, ite_self]
    rw [fStatOf_zero positive free, fStatOf_zero positive otherFree, nothing,
      if_neg (lt_irrefl 0)]
    rcases (excess_nonneg rssR rssU df2).eq_or_lt with zero | more
    · rw [← zero, if_neg (lt_irrefl 0)]
      exact iff_of_true rfl rfl
    · rw [if_pos more]
      exact iff_of_false WithTop.top_ne_zero more.ne'
  · have scale : (lag * rssU : ℚ) ≠ 0 := (mul_pos (Nat.cast_pos.mpr some) positive).ne'
    rw [fStatOf_of_pos some positive free, fStatOf_of_pos some positive otherFree,
      WithTop.coe_inj, div_left_inj' scale]

/-- Two tests with the same unrestricted model give the same where it fits, or where the
excesses are the same. -/
theorem fitted_eq_iff {rssR rssU otherR : ℚ} {lag df2 otherDf2 : Nat} (differenced : Bool)
    (free : 0 < df2) (otherFree : 0 < otherDf2) (noLag : lag = 0 → otherR = rssU) :
    (if rssU < 1 / 10 ^ 15 then some (⟨100, fToPvalue 100, lag, differenced⟩ : GrangerResult)
      else some ⟨fStatOf rssR rssU lag df2, fToPvalue (fStatOf rssR rssU lag df2), lag,
        differenced⟩) =
      (if rssU < 1 / 10 ^ 15 then some ⟨100, fToPvalue 100, lag, differenced⟩
      else some ⟨fStatOf otherR rssU lag otherDf2, fToPvalue (fStatOf otherR rssU lag otherDf2),
        lag, differenced⟩) ↔
      rssU < 1 / 10 ^ 15 ∨ excess rssR rssU df2 = excess otherR rssU otherDf2 := by
  by_cases fits : rssU < 1 / 10 ^ 15
  · rw [if_pos fits, if_pos fits]
    exact iff_of_true rfl (.inl fits)
  · have positive : 0 < rssU := lt_of_lt_of_le (by norm_num) (not_lt.mp fits)
    rw [if_neg fits, if_neg fits, or_iff_right fits,
      ← fStatOf_eq_iff positive free otherFree noLag]
    constructor
    · intro same
      exact congrArg GrangerResult.fStat (Option.some_inj.mp same)
    · intro same
      rw [same]

/-- The samples of the second series beyond the first one are not read: there are none, or
the test ends before its restricted model. -/
def Unread (x y : List ℚ) (lag : Nat) : Prop :=
  y.length ≤ x.length ∨ x.length < 2 * lag + 2 ∨ variance (y.take x.length) < 1 / 10 ^ 10 ∨
    y.length ≤ 3 * lag + 1

/-- They make no difference either where both models fit, or are alike in their excess. -/
def Unaffected (x y : List ℚ) (lag : Nat) : Prop :=
  Unread x y lag ∨ 3 * lag + 1 < x.length ∧
    (unrestrictedRss x (y.take x.length) lag < 1 / 10 ^ 15 ∨
      excess (restrictedRss y lag) (unrestrictedRss x (y.take x.length) lag)
          (y.length - (3 * lag + 1)) =
        excess (restrictedRss (y.take x.length) lag)
          (unrestrictedRss x (y.take x.length) lag) (x.length - (3 * lag + 1)))

theorem grangerTestAtLag_of_short {x y : List ℚ} (short : y.length ≤ x.length) (lag : Nat)
    (differenced : Bool) :
    grangerTestAtLag x y lag differenced =
      grangerTestAtLag (x.take (min x.length y.length)) (y.take (min x.length y.length)) lag
        differenced := by
  have unrestricted := unrestrictedRss_take x y lag
  have common : min x.length y.length = y.length := min_eq_right short
  have all : y.take (min x.length y.length) = y := by rw [common, List.take_length]
  have lengths : min (x.take (min x.length y.length)).length y.length = min x.length y.length := by
    rw [List.length_take]
    omega
  rw [all] at unrestricted ⊢
  by_cases enough : 2 * lag + 2 ≤ min x.length y.length
  · rw [grangerTestAtLag_eq differenced enough,
      grangerTestAtLag_eq differenced (lengths.symm ▸ enough), lengths, unrestricted]
  · have few : min x.length y.length < 2 * lag + 2 := Nat.lt_of_not_le enough
    simp only [grangerTestAtLag, lengths, if_pos few]

theorem grangerTestAtLag_take_iff_of_long {x y : List ℚ} (long : x.length < y.length) (lag : Nat)
    (differenced : Bool) :
    grangerTestAtLag x y lag differenced =
        grangerTestAtLag x (y.take x.length) lag differenced ↔ Unaffected x y lag := by
  have common : min x.length y.length = x.length := min_eq_left long.le
  have cut : (y.take x.length).length = x.length := by
    rw [List.length_take, common]
  have unrestricted : unrestrictedRss x (y.take x.length) lag = unrestrictedRss x y lag := by
    have same := unrestrictedRss_take x y lag
    rwa [common, List.take_length] at same
  have again : (y.take x.length).take x.length = y.take x.length := by
    rw [List.take_take, min_self]
  simp only [Unaffected, Unread, or_assoc]
  rw [or_iff_right long.not_ge, unrestricted]
  by_cases enough : 2 * lag + 2 ≤ x.length
  · rw [grangerTestAtLag_eq differenced (common.symm ▸ enough),
      grangerTestAtLag_eq differenced (by rw [cut, min_self]; exact enough), common, cut, min_self,
      again, unrestricted, or_iff_right enough.not_gt]
    by_cases flat : variance (y.take x.length) < 1 / 10 ^ 10
    · rw [if_pos flat, if_pos flat]
      exact iff_of_true rfl (.inl flat)
    · rw [if_neg flat, if_neg flat, or_iff_right flat]
      by_cases few : y.length ≤ 3 * lag + 1
      · rw [if_pos few, if_pos (long.le.trans few)]
        exact iff_of_true rfl (.inl few)
      · rw [if_neg few, or_iff_right few]
        by_cases fewCut : x.length ≤ 3 * lag + 1
        · -- The whole series has enough samples, and the cut one has not.
          rw [if_pos fewCut]
          refine iff_of_false (fun impossible => ?_) fun both => both.1.not_ge fewCut
          split at impossible
          · cases impossible
          · cases impossible
        · rw [if_neg fewCut, and_iff_right (Nat.lt_of_not_le fewCut)]
          have noLag : lag = 0 →
              restrictedRss (y.take x.length) lag = unrestrictedRss x y lag := by
            intro none
            subst none
            rw [← unrestricted]
            exact restrictedRss_zero cut.le
          exact fitted_eq_iff differenced (Nat.sub_pos_of_lt (Nat.lt_of_not_le few))
            (Nat.sub_pos_of_lt (Nat.lt_of_not_le fewCut)) noLag
  · have few : x.length < 2 * lag + 2 := Nat.lt_of_not_le enough
    refine iff_of_true ?_ (.inl few)
    simp only [grangerTestAtLag, common, cut, min_self, if_pos few]

/-- A test gives the same on the common length of the series if and only if the samples
beyond it are unaffecting. -/
theorem grangerTestAtLag_take_iff (x y : List ℚ) (lag : Nat) (differenced : Bool) :
    grangerTestAtLag x y lag differenced =
        grangerTestAtLag (x.take (min x.length y.length)) (y.take (min x.length y.length)) lag
          differenced ↔ Unaffected x y lag := by
  rcases Nat.lt_or_ge x.length y.length with long | short
  · rw [min_eq_left long.le, List.take_length]
    exact grangerTestAtLag_take_iff_of_long long lag differenced
  · exact iff_of_true (grangerTestAtLag_of_short short lag differenced) (.inl (.inl short))

/-- Samples that are not read make no difference; where the first series is too short for
both models, these are the only ones. -/
theorem samples_beyond_unread (x y : List ℚ) (lag : Nat) (differenced : Bool) :
    (Unread x y lag → grangerTestAtLag x y lag differenced =
      grangerTestAtLag (x.take (min x.length y.length)) (y.take (min x.length y.length)) lag
        differenced) ∧
    (x.length ≤ 3 * lag + 1 → grangerTestAtLag x y lag differenced =
      grangerTestAtLag (x.take (min x.length y.length)) (y.take (min x.length y.length)) lag
        differenced → Unread x y lag) := by
  constructor
  · intro unread
    exact (grangerTestAtLag_take_iff x y lag differenced).mpr (.inl unread)
  · intro few same
    rcases (grangerTestAtLag_take_iff x y lag differenced).mp same with unread | ⟨more, -⟩
    · exact unread
    · exact absurd few more.not_ge

/-- A flat start of the second series ends the test, whatever follows it. -/
theorem samples_behind_flat_start :
    grangerTestAtLag [0, 1, 0, 2] [7, 7, 7, 7, 50] 1 true =
      grangerTestAtLag [0, 1, 0, 2] [7, 7, 7, 7] 1 true :=
  (samples_beyond_unread [0, 1, 0, 2] [7, 7, 7, 7, 50] 1 true).1
    (.inr (.inr (.inl (by decide +kernel))))

/-- One more sample of the second series, and the first one, which never changes, is
reported as its cause. -/
theorem longer_series_reported :
    grangerTestAtLag [0, 0, 0, 0, 0] [1, 2, 0, 3, 1] 1 false = some ⟨0, 11 / 10, 1, false⟩ ∧
      grangerTestAtLag [0, 0, 0, 0, 0] [1, 2, 0, 3, 1, 100] 1 false =
        some ⟨(106929 / 13 : ℚ), 9 / 10000, 1, false⟩ := by
  decide +kernel

end FunDB.Tier2
