import FunDB.Sql.Binder

/-! # Numeric options of queries

Options are bound to numbers of 32 bits. Integers are cut off, and a product of days
wraps. -/

namespace FunDB.Sql

open Text

/-! ## Periods -/

def unitDays (unit : String) : Nat :=
  if unit.startsWith "year" then 365
  else if unit.startsWith "month" then 30
  else if unit.startsWith "week" then 7
  else 1

/-- The number of days that is written: the first number times its unit. -/
def daysWritten : List String → Option Nat
  | [] => none
  | part :: parts =>
      match numeral part with
      | some n => some (n * unitDays (parts.headD "days"))
      | none => daysWritten parts

/-- The days that are written fit into 32 bits, or the number alone does not and
no later one does. -/
def DaysFit : List String → Prop
  | [] => True
  | part :: parts =>
      match numeral part with
      | some n =>
          n * unitDays (parts.headD "days") < 2 ^ 32 ∨
            2 ^ 32 ≤ n ∧ ∀ later ∈ parts, ∀ m ∈ numeral later, 2 ^ 32 ≤ m
      | none => DaysFit parts

theorem one_le_unitDays (unit : String) : 1 ≤ unitDays unit := by
  unfold unitDays
  split_ifs <;> decide

theorem withinDays_of_fits {part : String} {n : Nat} (number : numeral part = some n)
    (fits : n < 2 ^ 32) (parts : List String) :
    withinDays (part :: parts) = some (n * unitDays (parts.headD "days") % 2 ^ 32) := by
  have parsed : parseUnsigned 32 part = some n := by
    rw [parseUnsigned, number]
    exact if_pos (decide_eq_true fits)
  rw [withinDays, parsed]
  simp only [unitDays]
  split_ifs with year month week
  · rfl
  · rfl
  · rfl
  · rw [Nat.mul_one, Nat.mod_eq_of_lt fits]

/-- A word that is no number of 32 bits is passed over. -/
theorem withinDays_of_not_fits {part : String}
    (large : ∀ n ∈ numeral part, 2 ^ 32 ≤ n) (parts : List String) :
    withinDays (part :: parts) = withinDays parts := by
  have unparsed : parseUnsigned 32 part = none := by
    rw [parseUnsigned, Option.filter_eq_none_iff]
    exact fun n number => by simpa using large n number
  rw [withinDays, unparsed]

/-- A word is a number of 32 bits or is passed over. -/
theorem exists_fits_or_large (part : String) :
    (∃ n, numeral part = some n ∧ n < 2 ^ 32) ∨ ∀ n ∈ numeral part, 2 ^ 32 ≤ n := by
  cases numeral part with
  | none => exact .inr nofun
  | some n =>
      rcases Nat.lt_or_ge n (2 ^ 32) with fits | large
      · exact .inl ⟨n, rfl, fits⟩
      · refine .inr fun m same => ?_
        cases same
        exact large

theorem withinDays_eq_none_iff (words : List String) :
    withinDays words = none ↔ ∀ word ∈ words, ∀ n ∈ numeral word, 2 ^ 32 ≤ n := by
  induction words with
  | nil => simp [withinDays]
  | cons part parts induction =>
      rw [List.forall_mem_cons]
      rcases exists_fits_or_large part with ⟨n, number, fits⟩ | large
      · rw [withinDays_of_fits number fits]
        apply iff_of_false nofun
        intro every
        exact Nat.not_lt.mpr (every.1 n number) fits
      · rw [withinDays_of_not_fits large, induction]
        exact (and_iff_right large).symm

theorem withinDays_lt {words : List String} {days : Nat} (bound : withinDays words = some days) :
    days < 2 ^ 32 := by
  induction words with
  | nil => cases bound
  | cons part parts induction =>
      rcases exists_fits_or_large part with ⟨n, number, fits⟩ | large
      · rw [withinDays_of_fits number fits, Option.some.injEq] at bound
        omega
      · rw [withinDays_of_not_fits large] at bound
        exact induction bound

/-- The days that are bound are those that are written, or none, exactly where they
fit. -/
theorem withinDays_as_written_iff (words : List String) :
    (withinDays words = none ∨ withinDays words = daysWritten words) ↔ DaysFit words := by
  induction words with
  | nil => simp [withinDays, DaysFit]
  | cons part parts induction =>
      cases number : numeral part with
      | none =>
          have large : ∀ n ∈ numeral part, 2 ^ 32 ≤ n := by simp [number]
          simp only [withinDays_of_not_fits large, daysWritten, DaysFit, number]
          exact induction
      | some n =>
          simp only [daysWritten, DaysFit, number]
          have unit := one_le_unitDays (parts.headD "days")
          have least : n ≤ n * unitDays (parts.headD "days") := Nat.le_mul_of_pos_right n unit
          by_cases fits : n < 2 ^ 32
          · rw [withinDays_of_fits number fits, Option.some.injEq, Nat.mod_eq_iff_lt (by decide)]
            simp only [reduceCtorEq, false_or]
            apply (or_iff_left _).symm
            intro large
            omega
          · have large : ∀ n ∈ numeral part, 2 ^ 32 ≤ n := by
              rw [number]
              intro m same
              cases same
              exact Nat.not_lt.mp fits
            rw [withinDays_of_not_fits large, withinDays_eq_none_iff]
            constructor
            · intro given
              refine .inr ⟨Nat.not_lt.mp fits, ?_⟩
              rcases given with nothing | written
              · exact nothing
              · have small := withinDays_lt written
                omega
            · intro given
              rcases given with small | ⟨_, nothing⟩
              · omega
              · exact .inl nothing

/-! ## Integers -/

theorem exprToU32_of_neg {value : Int} (negative : value < 0) :
    exprToU32 (.literal (.int value)) = none :=
  if_neg (Int.not_le.mpr negative)

theorem exprToU32_of_nonneg {value : Int} (nonneg : 0 ≤ value) :
    exprToU32 (.literal (.int value)) = some (value % 2 ^ 32).toNat :=
  if_pos nonneg

/-- The number of an integer that fits, if it has one. -/
theorem exprToU32_of_fits {value : Int} (fits : value < 2 ^ 32) :
    exprToU32 (.literal (.int value)) = none ∨
      ∃ bound : Nat, exprToU32 (.literal (.int value)) = some bound ∧ (bound : Int) = value := by
  rcases lt_or_ge value 0 with negative | nonneg
  · exact .inl (exprToU32_of_neg negative)
  · refine .inr ⟨_, exprToU32_of_nonneg nonneg, ?_⟩
    omega

variable (platform : BindPlatform)

/-- An integer and a period are bound as they are written wherever they stand, or the
query is bound as if they were left out. -/
structure OptionsAsWritten (value : Int) (period : String) : Prop where
  maxDepth : ∀ clause : Ast.TraceCausalityClause Ast.Expr,
    bindTraceCausality platform { clause with maxDepth := some (.literal (.int value)) } =
        bindTraceCausality platform { clause with maxDepth := none } ∨
      ∃ start finish depth minStrength minStability,
        bindTraceCausality platform { clause with maxDepth := some (.literal (.int value)) } =
            .causalTrace start finish depth minStrength minStability ∧
          (depth : Int) = value
  depthMin : ∀ collection (clause : Ast.TraverseClause Ast.Expr),
    bindTraverse collection { clause with depthMin := some (.literal (.int value)) } =
        bindTraverse collection { clause with depthMin := none } ∨
      ∃ start relation depthMin depthMax,
        bindTraverse collection { clause with depthMin := some (.literal (.int value)) } =
            .graphTraverse start relation depthMin depthMax ∧
          (depthMin : Int) = value
  depthMax : ∀ collection (clause : Ast.TraverseClause Ast.Expr),
    bindTraverse collection { clause with depthMax := some (.literal (.int value)) } =
        bindTraverse collection { clause with depthMax := none } ∨
      ∃ start relation depthMin depthMax,
        bindTraverse collection { clause with depthMax := some (.literal (.int value)) } =
            .graphTraverse start relation depthMin depthMax ∧
          (depthMax : Int) = value
  maxTokens : ∀ options : Ast.ContextOptions Ast.Expr, ∀ bound ∈
    (bindContextOptions platform
      { options with maxTokens := some (.literal (.int value)) }).maxTokens,
    (bound : Int) = value
  understandDepth : ∀ out, ∀ bound ∈
    (bindUnderstandOption platform out (.depth (.literal (.int value)))).depth,
    (bound : Int) = value
  within : ∀ out, ∀ days ∈ (bindUnderstandOption platform out (.within period)).withinDays,
    daysWritten (splitWhitespace (platform.cases.toLowercase period)) = some days

section AsWritten

variable {platform} {value : Int} {period : String}

theorem within_as_written (fit : DaysFit (splitWhitespace (platform.cases.toLowercase period)))
    (out : UnderstandOptions) {days : Nat}
    (bound : (bindUnderstandOption platform out (.within period)).withinDays = some days) :
    daysWritten (splitWhitespace (platform.cases.toLowercase period)) = some days := by
  change withinDays (splitWhitespace (platform.cases.toLowercase period)) = some days at bound
  rcases (withinDays_as_written_iff _).mpr fit with nothing | written
  · rw [nothing] at bound
    cases bound
  · rw [← written, bound]

/-- An option that binds to nothing leaves every clause without it. -/
theorem optionsAsWritten_of_unset (unset : exprToU32 (.literal (.int value)) = none)
    (fit : DaysFit (splitWhitespace (platform.cases.toLowercase period))) :
    OptionsAsWritten platform value period := by
  constructor
  · intro clause
    simp [bindTraceCausality, unset]
  · intro collection clause
    simp [bindTraverse, unset]
  · intro collection clause
    simp [bindTraverse, unset]
  · intro options other given
    simp [bindContextOptions, unset] at given
  · intro out other given
    simp [bindUnderstandOption, unset] at given
  · exact fun out days => within_as_written fit out

theorem optionsAsWritten_of_bound {depth : Nat}
    (bound : exprToU32 (.literal (.int value)) = some depth) (same : (depth : Int) = value)
    (fit : DaysFit (splitWhitespace (platform.cases.toLowercase period))) :
    OptionsAsWritten platform value period := by
  constructor
  · intro clause
    right
    simp only [bindTraceCausality, Option.bind_some, bound, Option.getD_some]
    exact ⟨_, _, depth, _, _, rfl, same⟩
  · intro collection clause
    right
    simp only [bindTraverse, Option.bind_some, bound, Option.getD_some]
    exact ⟨_, _, depth, _, rfl, same⟩
  · intro collection clause
    right
    simp only [bindTraverse, Option.bind_some, bound, Option.getD_some]
    exact ⟨_, _, _, depth, rfl, same⟩
  · intro options other given
    simp only [bindContextOptions, Option.bind_some, bound] at given
    cases given
    exact same
  · intro out other given
    simp only [bindUnderstandOption, bound] at given
    cases given
    exact same
  · exact fun out days => within_as_written fit out

end AsWritten

/-- Options are bound as they are written exactly where they fit into 32 bits. -/
theorem optionsAsWritten_iff (value : Int) (period : String) :
    OptionsAsWritten platform value period ↔
      value < 2 ^ 32 ∧ DaysFit (splitWhitespace (platform.cases.toLowercase period)) := by
  constructor
  · intro kept
    constructor
    · by_contra large
      have bound := kept.understandDepth
        ⟨none, none, none, none, none, none⟩ _ (exprToU32_of_nonneg (by omega))
      omega
    · rw [← withinDays_as_written_iff]
      cases bound : withinDays (splitWhitespace (platform.cases.toLowercase period)) with
      | none => exact .inl rfl
      | some days =>
          exact .inr (kept.within ⟨none, none, none, none, none, none⟩ days bound).symm
  · intro given
    rcases given with ⟨fits, fit⟩
    rcases exprToU32_of_fits fits with unset | ⟨depth, bound, same⟩
    · exact optionsAsWritten_of_unset unset fit
    · exact optionsAsWritten_of_bound bound same fit

/-- A depth of 2^32 + 3 becomes 3, and 12,000,000 years become 85,032,704 days. -/
theorem options_cut_off :
    exprToU32 (.literal (.int (2 ^ 32 + 3))) = some 3 ∧
      withinDays ["last", "12000000", "years"] = some 85032704 ∧
        daysWritten ["last", "12000000", "years"] = some 4380000000 := by
  decide +kernel

end FunDB.Sql
