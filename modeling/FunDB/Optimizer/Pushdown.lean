import FunDB.Executor.FallibleExecution
import FunDB.Optimizer.Preservation

/-! # Pushing down

Execution passes rows through projections and does not look into the plans it
does not implement, so that rules which only move projections about change
neither the result nor the store, whichever writes fail. -/

namespace FunDB.Optimizer

open Storage Sql Executor

/-- The plans give the same result and leave the same store. -/
def SameResult (env : Environment) (faults : Nat → Option WriteFault)
    (before after : LogicalPlan) : Prop :=
  ∀ store, env.tryExecutePlan faults after store = env.tryExecutePlan faults before store

variable {env : Environment} {faults : Nat → Option WriteFault}

theorem tryExecutePlan_project (input : LogicalPlan) (exprs : List Expr) (store : Store) :
    env.tryExecutePlan faults (.project input exprs) store =
      env.tryExecutePlan faults input store := by
  rw [Environment.tryExecutePlan]
  cases env.tryExecutePlan faults input store with
  | mk result after => cases result <;> rfl

namespace SameResult

variable {input rewritten : LogicalPlan}

theorem project (same : SameResult env faults input rewritten) (exprs others : List Expr) :
    SameResult env faults (.project input exprs) (.project rewritten others) := by
  intro store
  rw [tryExecutePlan_project, tryExecutePlan_project, same store]

theorem filter (same : SameResult env faults input rewritten) (predicate : Expr) :
    SameResult env faults (.filter input predicate) (.filter rewritten predicate) := by
  intro store
  rw [Environment.tryExecutePlan, Environment.tryExecutePlan, same store]

theorem limit (same : SameResult env faults input rewritten) (n : Nat) :
    SameResult env faults (.limit input n) (.limit rewritten n) := by
  intro store
  rw [Environment.tryExecutePlan, Environment.tryExecutePlan, same store]

theorem sort (same : SameResult env faults input rewritten) (orderBy : List SortExpr) :
    SameResult env faults (.sort input orderBy) (.sort rewritten orderBy) := by
  intro store
  rw [Environment.tryExecutePlan, Environment.tryExecutePlan, same store]

/-- A projection between a filter and its input makes no difference. -/
theorem filter_project (same : SameResult env faults input rewritten) (predicate : Expr)
    (exprs : List Expr) :
    SameResult env faults (.filter (.project input exprs) predicate)
      (.project (.filter rewritten predicate) exprs) := by
  intro store
  rw [tryExecutePlan_project, Environment.tryExecutePlan, Environment.tryExecutePlan,
    tryExecutePlan_project, same store]

theorem limit_project (same : SameResult env faults input rewritten) (n : Nat)
    (exprs : List Expr) :
    SameResult env faults (.limit (.project input exprs) n)
      (.project (.limit rewritten n) exprs) := by
  intro store
  rw [tryExecutePlan_project, Environment.tryExecutePlan, Environment.tryExecutePlan,
    tryExecutePlan_project, same store]

end SameResult

/-! ## The rules -/

theorem sameResult_predicatePushdown (plan : LogicalPlan) :
    SameResult env faults plan (predicatePushdown plan) := by
  fun_induction predicatePushdown plan with
  | case1 child exprs predicate same => exact same.filter_project predicate exprs
  | case2 other predicate _ same => exact same.filter predicate
  | case3 input exprs same => exact same.project exprs exprs
  | case4 left right condition => exact fun _ => rfl
  | case5 input groupBy aggregates => exact fun _ => rfl
  | case6 input orderBy same => exact same.sort orderBy
  | case7 input n same => exact same.limit n
  | case8 input options => exact fun _ => rfl
  | case9 => exact fun _ => rfl

theorem sameResult_limitPushdown (plan : LogicalPlan) :
    SameResult env faults plan (limitPushdown plan) := by
  fun_induction limitPushdown plan with
  | case1 child exprs n same => exact same.limit_project n exprs
  | case2 other n _ same => exact same.limit n
  | case3 input predicate same => exact same.filter predicate
  | case4 input exprs same => exact same.project exprs exprs
  | case5 left right condition => exact fun _ => rfl
  | case6 input groupBy aggregates => exact fun _ => rfl
  | case7 input orderBy same => exact same.sort orderBy
  | case8 input options => exact fun _ => rfl
  | case9 => exact fun _ => rfl

theorem sameResult_eliminateRedundantProject (plan : LogicalPlan) :
    SameResult env faults plan (eliminateRedundantProject plan) := by
  fun_induction eliminateRedundantProject plan with
  | case1 input same => exact fun store => (same store).trans (tryExecutePlan_project _ _ _).symm
  | case2 input exprs _ same => exact same.project exprs exprs
  | case3 input predicate same => exact same.filter predicate
  | case4 left right condition => exact fun _ => rfl
  | case5 input groupBy aggregates => exact fun _ => rfl
  | case6 input orderBy same => exact same.sort orderBy
  | case7 input n same => exact same.limit n
  | case8 input options => exact fun _ => rfl
  | case9 => exact fun _ => rfl

/-- Pushing filters and limits below projections and dropping projections of
everything preserve the result of every plan on every store. -/
theorem pushdown_preserves_results (env : Environment) (faults : Nat → Option WriteFault)
    (plan : LogicalPlan) (store : Store) :
    env.tryExecutePlan faults (predicatePushdown plan) store =
        env.tryExecutePlan faults plan store ∧
      env.tryExecutePlan faults (limitPushdown plan) store =
        env.tryExecutePlan faults plan store ∧
      env.tryExecutePlan faults (eliminateRedundantProject plan) store =
        env.tryExecutePlan faults plan store :=
  ⟨sameResult_predicatePushdown plan store, sameResult_limitPushdown plan store,
    sameResult_eliminateRedundantProject plan store⟩

end FunDB.Optimizer
