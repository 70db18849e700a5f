import FunDB.Optimizer.Rules
import FunDB.Executor.Execute

/-! # What the optimizer preserves

Moving filters and limits below projections and dropping projections of
everything changes no result. Folding an expression and dropping a filter over a
vector scan do, unless the rows that come through are treated alike. -/

namespace FunDB.Optimizer

open Storage Sql Executor

/-! ## Folding twice -/

theorem foldBinary_cases (op : BinaryOp) (left right : Expr) :
    foldBinary op left right = left ∨ foldBinary op left right = right ∨
      foldBinary op left right = .binaryOp op left right := by
  unfold foldBinary
  split
  · split
    · exact .inr (.inl rfl)
    · exact .inl rfl
    · exact .inr (.inr rfl)
  · split
    · exact .inr (.inl rfl)
    · exact .inl rfl
    · exact .inr (.inr rfl)
  · exact .inr (.inr rfl)

mutual

theorem foldExpr_foldExpr : ∀ expr, foldExpr (foldExpr expr) = foldExpr expr
  | .binaryOp op left right => by
      have leftFolded := foldExpr_foldExpr left
      have rightFolded := foldExpr_foldExpr right
      rw [foldExpr]
      rcases foldBinary_cases op (foldExpr left) (foldExpr right) with shape | shape | shape
      · rw [shape, leftFolded]
      · rw [shape, rightFolded]
      · rw [shape, foldExpr, leftFolded, rightFolded, shape]
  | .unaryOp op operand => by rw [foldExpr, foldExpr, foldExpr_foldExpr operand]
  | .functionCall name args => by rw [foldExpr, foldExpr, foldArgs_foldArgs args]
  | .column _ | .literal _ | .param _ | .vectorRef _ | .star => rfl

theorem foldArgs_foldArgs : ∀ args, foldArgs (foldArgs args) = foldArgs args
  | [] => rfl
  | arg :: args => by
      rw [foldArgs, foldArgs, foldExpr_foldExpr arg, foldArgs_foldArgs args]

end

theorem foldSort_foldSort (item : SortExpr) : foldSort (foldSort item) = foldSort item := by
  rw [foldSort, foldSort, foldExpr_foldExpr]

theorem isVectorDistPredicate_foldExpr {expr : Expr} (compares : isVectorDistPredicate expr = true) :
    isVectorDistPredicate (foldExpr expr) = true := by
  unfold isVectorDistPredicate at compares
  split at compares
  · rfl
  · rfl
  · rfl
  · cases compares

/-! ## Plans whose rows are treated alike -/

/-- Nothing but projections and filters that the optimizer drops stands between
the plan and a vector scan. -/
def overVectorScan : LogicalPlan → Bool
  | .vectorScan _ _ _ _ => true
  | .project input _ => overVectorScan input
  | .filter input predicate => isVectorDistPredicate (foldExpr predicate) && overVectorScan input
  | _ => false

/-- The projections of a plan go away, if only once they are folded. -/
def isStar (exprs : List Expr) : Bool := exprs.map foldExpr = [.star]

/-- The projections on the way to a vector scan that stay. -/
def projectionsBelow : LogicalPlan → Nat
  | .project input exprs => projectionsBelow input + if isStar exprs then 0 else 1
  | .filter input _ => projectionsBelow input
  | _ => 0

def startsWithStar : LogicalPlan → Bool
  | .project _ exprs => isStar exprs
  | _ => false

/-- The round in which the last filter over a vector scan is dropped. In a round a filter
passes one projection, and one filter is dropped. A projection of everything takes up the
first round only. -/
def dropRound : LogicalPlan → Nat
  | .project input _ => dropRound input
  | .filter input _ =>
      max (dropRound input + 1) (projectionsBelow input + (startsWithStar input).toNat)
  | _ => 0

/-- The same round, once the filters have moved in the first one. -/
def movedDropRound : LogicalPlan → Nat
  | .project input _ => movedDropRound input
  | .filter input _ => max (movedDropRound input + 1) (projectionsBelow input + 1)
  | _ => 0

variable (env : Environment)

/-- The folded predicate decides the rows alike. -/
def FoldAgrees (predicate : Expr) (batch : RecordBatch) : Prop :=
  ∀ row ∈ batch.rows, env.evalExpr (foldExpr predicate) row.2 = env.evalExpr predicate row.2

def KeepsAll (predicate : Expr) (batch : RecordBatch) : Prop :=
  ∀ row ∈ batch.rows, env.evalExpr predicate row.2 = true

/-- On the rows that reach them, folded predicates decide and folded sort
expressions compare as before, and a comparison that comes to stand over a vector scan
within some rounds keeps all rows. -/
def Unaffected (due : LogicalPlan → Nat) (rounds : Nat) : LogicalPlan → Store → Prop
  | .scan collection (some predicate) _, store =>
      FoldAgrees env predicate (ScanOperator.mk collection store.lsm).execute
  | .filter input predicate, store =>
      Unaffected due rounds input store ∧
        FoldAgrees env predicate (env.executePlan input store).1 ∧
        (isVectorDistPredicate (foldExpr predicate) = true → overVectorScan input = true →
          due (.filter input predicate) ≤ rounds →
            KeepsAll env predicate (env.executePlan input store).1)
  | .project input _, store | .limit input _, store => Unaffected due rounds input store
  | .sort input orderBy, store =>
      Unaffected due rounds input store ∧
        ∀ left ∈ (env.executePlan input store).1.rows,
          ∀ right ∈ (env.executePlan input store).1.rows,
            env.compareRecords left.2 right.2 (orderBy.map foldSort) =
              env.compareRecords left.2 right.2 orderBy
  | _, _ => True

/-! ## Execution of the pieces -/

variable {env}

theorem executePlan_scan (collection : String) (predicate : Option Expr) (projections : List Expr)
    (store : Store) :
    env.executePlan (.scan collection predicate projections) store =
      (match predicate with
        | some pred =>
            FilterOperator.execute env ⟨(ScanOperator.mk collection store.lsm).execute, pred⟩
        | none => (ScanOperator.mk collection store.lsm).execute, store) := by
  cases projections <;> cases predicate <;> rfl

theorem execute_foldExpr {predicate : Expr} {batch : RecordBatch}
    (agrees : FoldAgrees env predicate batch) :
    FilterOperator.execute env ⟨batch, foldExpr predicate⟩ =
      FilterOperator.execute env ⟨batch, predicate⟩ := by
  apply RecordBatch.ext_rows
  rw [FilterOperator.rows_execute, FilterOperator.rows_execute]
  exact List.filter_congr agrees

theorem execute_keepsAll {predicate : Expr} {batch : RecordBatch}
    (keeps : KeepsAll env predicate batch) : FilterOperator.execute env ⟨batch, predicate⟩ = batch := by
  apply RecordBatch.ext_rows
  rw [FilterOperator.rows_execute]
  exact List.filter_eq_self.mpr keeps

theorem execute_foldSort {orderBy : List SortExpr} {batch : RecordBatch}
    (agree : ∀ left ∈ batch.rows, ∀ right ∈ batch.rows,
      env.compareRecords left.2 right.2 (orderBy.map foldSort) =
        env.compareRecords left.2 right.2 orderBy) :
    SortOperator.execute env ⟨batch, orderBy.map foldSort⟩ =
      SortOperator.execute env ⟨batch, orderBy⟩ := by
  unfold SortOperator.execute
  simp only [List.isEmpty_map]
  split
  · rfl
  · congr 1
    apply StableSort.insertionSort_congr
    apply List.pairwise_of_forall_mem_list
    intro left leftMember right rightMember
    rw [agree left leftMember right rightMember]

/-! ## Equivalent plans -/

/-- A filter is dropped as much later as what is below it. -/
def Delays (due dueAfter : LogicalPlan → Nat) (rounds roundsAfter : Nat) : Prop :=
  ∀ before after predicate, projectionsBelow after = projectionsBelow before →
    due before + roundsAfter ≤ dueAfter after + rounds →
      due (.filter before predicate) + roundsAfter ≤ dueAfter (.filter after predicate) + rounds

theorem delays_moving (rounds : Nat) : Delays dropRound movedDropRound rounds rounds := by
  intro before after predicate same later
  rw [dropRound, movedDropRound, same]
  have atMost := Bool.toNat_le (startsWithStar before)
  omega

theorem delays_moved (rounds : Nat) : Delays movedDropRound movedDropRound rounds rounds := by
  intro before after predicate same later
  rw [movedDropRound, movedDropRound, same]
  omega

theorem delays_dropping (rounds : Nat) : Delays movedDropRound dropRound (rounds + 1) rounds := by
  intro before after predicate same later
  rw [dropRound, movedDropRound, same]
  omega

variable (env)

/-- The rewritten plan gives the same result, is over a vector scan if the plan
is, drops its filters as late, and is as unaffected by further rewriting. -/
structure Equivalent (due dueAfter : LogicalPlan → Nat) (rounds roundsAfter : Nat)
    (store : Store) (before after : LogicalPlan) : Prop where
  result : env.executePlan after store = env.executePlan before store
  scanBelow : overVectorScan after = overVectorScan before
  projections : overVectorScan before = true → projectionsBelow after = projectionsBelow before
  later : overVectorScan before = true → due before + roundsAfter ≤ dueAfter after + rounds
  unaffected : Unaffected env dueAfter roundsAfter after store

/-- The rule rewrites every unaffected plan to an equivalent one. -/
def Sound (due dueAfter : LogicalPlan → Nat) (rounds roundsAfter : Nat)
    (rule : LogicalPlan → LogicalPlan) : Prop :=
  ∀ plan store, Unaffected env due rounds plan store →
    Equivalent env due dueAfter rounds roundsAfter store plan (rule plan)

variable {env}

section Steps

variable {due dueAfter : LogicalPlan → Nat} {rounds roundsAfter : Nat}
variable {store : Store} {input rewritten : LogicalPlan}

namespace Equivalent

theorem of_not_over (aside : overVectorScan input = false)
    (result : env.executePlan rewritten store = env.executePlan input store)
    (stillAside : overVectorScan rewritten = false)
    (unaffected : Unaffected env dueAfter roundsAfter rewritten store) :
    Equivalent env due dueAfter rounds roundsAfter store input rewritten where
  result := result
  scanBelow := stillAside.trans aside.symm
  projections overScan := by
    rw [aside] at overScan
    cases overScan
  later overScan := by
    rw [aside] at overScan
    cases overScan
  unaffected := unaffected

theorem limit
    (equivalent : Equivalent env due dueAfter rounds roundsAfter store input rewritten) (n : Nat) :
    Equivalent env due dueAfter rounds roundsAfter store (.limit input n) (.limit rewritten n) :=
  .of_not_over rfl (by simp only [Environment.executePlan, equivalent.result]) rfl
    equivalent.unaffected

theorem sort
    (equivalent : Equivalent env due dueAfter rounds roundsAfter store input rewritten)
    {orderBy : List SortExpr} (unaffected : Unaffected env due rounds (.sort input orderBy) store) :
    Equivalent env due dueAfter rounds roundsAfter store (.sort input orderBy)
      (.sort rewritten orderBy) := by
  refine .of_not_over rfl (by simp only [Environment.executePlan, equivalent.result]) rfl ?_
  rw [Unaffected, equivalent.result]
  exact ⟨equivalent.unaffected, unaffected.2⟩

theorem filter (delays : Delays due dueAfter rounds roundsAfter)
    (equivalent : Equivalent env due dueAfter rounds roundsAfter store input rewritten)
    {predicate : Expr} (unaffected : Unaffected env due rounds (.filter input predicate) store) :
    Equivalent env due dueAfter rounds roundsAfter store (.filter input predicate)
      (.filter rewritten predicate) := by
  have later (overScan : overVectorScan input = true) :=
    delays input rewritten predicate (equivalent.projections overScan) (equivalent.later overScan)
  have below (overScan : overVectorScan (.filter input predicate) = true) :
      overVectorScan input = true := (Bool.and_eq_true_iff.mp overScan).2
  constructor
  · simp only [Environment.executePlan, equivalent.result]
  · rw [overVectorScan, overVectorScan, equivalent.scanBelow]
  · exact fun overScan => equivalent.projections (below overScan)
  · exact fun overScan => later (below overScan)
  · rw [Unaffected, equivalent.result, equivalent.scanBelow]
    refine ⟨equivalent.unaffected, unaffected.2.1, fun compares overScan soon => ?_⟩
    have inTime := later overScan
    exact unaffected.2.2 compares overScan (by omega)

end Equivalent

def hasInput : LogicalPlan → Bool
  | .filter _ _ | .project _ _ | .join _ _ _ | .aggregate _ _ _ | .sort _ _ | .limit _ _
  | .contextOptimize _ _ => true
  | _ => false

/-- How a round counts a projection is all that the steps need of it. -/
structure Counts (due : LogicalPlan → Nat) : Prop where
  project : ∀ input exprs, due (.project input exprs) = due input
  scan : ∀ collection vectorField query threshold,
    due (.vectorScan collection vectorField query threshold) = 0

theorem counts_dropRound : Counts dropRound := ⟨fun _ _ => rfl, fun _ _ _ _ => rfl⟩

theorem counts_movedDropRound : Counts movedDropRound := ⟨fun _ _ => rfl, fun _ _ _ _ => rfl⟩

namespace Equivalent

theorem project (counts : Counts due) (countsAfter : Counts dueAfter)
    (equivalent : Equivalent env due dueAfter rounds roundsAfter store input rewritten)
    {exprs others : List Expr} (alike : isStar others = isStar exprs) :
    Equivalent env due dueAfter rounds roundsAfter store (.project input exprs)
      (.project rewritten others) where
  result := equivalent.result
  scanBelow := equivalent.scanBelow
  projections overScan := by
    rw [projectionsBelow, projectionsBelow, equivalent.projections overScan, alike]
  later overScan := by
    rw [counts.project, countsAfter.project]
    exact equivalent.later overScan
  unaffected := equivalent.unaffected

theorem leaf (counts : Counts due) (countsAfter : Counts dueAfter) (atMost : roundsAfter ≤ rounds)
    (noInput : hasInput input = false) (unaffected : Unaffected env due rounds input store) :
    Equivalent env due dueAfter rounds roundsAfter store input input := by
  cases input with
  | vectorScan collection vectorField query threshold =>
      refine ⟨rfl, rfl, fun _ => rfl, fun _ => ?_, trivial⟩
      rw [counts.scan, countsAfter.scan]
      omega
  | scan collection predicate projections =>
      refine .of_not_over rfl rfl rfl ?_
      cases predicate with
      | none => trivial
      | some predicate => exact unaffected
  | filter | project | join | aggregate | sort | limit | contextOptimize => cases noInput
  | _ => exact .of_not_over rfl rfl rfl trivial

end Equivalent

end Steps

/-! ## The rules -/

theorem sound_predicatePushdown (rounds : Nat) :
    Sound env dropRound movedDropRound rounds rounds predicatePushdown := by
  intro plan store unaffected
  fun_induction predicatePushdown plan with
  | case1 child exprs predicate induction =>
      -- A projection does not change rows, and the filter passes it in this round.
      have below := induction unaffected.1
      have passed (overScan : overVectorScan child = true) :
          dropRound (.filter (.project child exprs) predicate) ≤
            movedDropRound (.filter (predicatePushdown child) predicate) := by
        have later := below.later overScan
        have same := below.projections overScan
        rw [dropRound, movedDropRound, projectionsBelow, startsWithStar, same, dropRound]
        cases isStar exprs <;> simp <;> omega
      have inner (overScan : overVectorScan (.filter (.project child exprs) predicate) = true) :
          overVectorScan child = true := (Bool.and_eq_true_iff.mp overScan).2
      constructor
      · change env.executePlan (.filter (predicatePushdown child) predicate) store =
          env.executePlan (.filter child predicate) store
        simp only [Environment.executePlan, below.result]
      · simp only [overVectorScan, below.scanBelow]
      · intro overScan
        simp only [projectionsBelow, below.projections (inner overScan)]
      · exact fun overScan => Nat.add_le_add_right (passed (inner overScan)) rounds
      · change Unaffected env movedDropRound rounds (.filter _ predicate) store
        rw [Unaffected, below.result, below.scanBelow]
        refine ⟨below.unaffected, unaffected.2.1, fun compares overScan soon => ?_⟩
        exact unaffected.2.2 compares overScan ((passed overScan).trans soon)
  | case2 other predicate _ induction =>
      exact (induction unaffected.1).filter (delays_moving rounds) unaffected
  | case3 input exprs induction =>
      exact (induction unaffected).project counts_dropRound counts_movedDropRound rfl
  | case4 left right condition => exact .of_not_over rfl rfl rfl trivial
  | case5 input groupBy aggregates => exact .of_not_over rfl rfl rfl trivial
  | case6 input orderBy induction => exact (induction unaffected.1).sort unaffected
  | case7 input n induction => exact (induction unaffected).limit n
  | case8 input options => exact .of_not_over rfl rfl rfl trivial
  | case9 leaf =>
      have noInput : hasInput leaf = false := by
        cases leaf <;> first | rfl | simp at *
      exact .leaf counts_dropRound counts_movedDropRound le_rfl noInput unaffected

theorem sound_limitPushdown (rounds : Nat) :
    Sound env movedDropRound movedDropRound rounds rounds limitPushdown := by
  intro plan store unaffected
  fun_induction limitPushdown plan with
  | case1 child exprs n induction =>
      have below := (induction unaffected).limit n
      exact .of_not_over rfl below.result rfl below.unaffected
  | case2 other n _ induction => exact (induction unaffected).limit n
  | case3 input predicate induction =>
      exact (induction unaffected.1).filter (delays_moved rounds) unaffected
  | case4 input exprs induction =>
      exact (induction unaffected).project counts_movedDropRound counts_movedDropRound rfl
  | case5 left right condition => exact .of_not_over rfl rfl rfl trivial
  | case6 input groupBy aggregates => exact .of_not_over rfl rfl rfl trivial
  | case7 input orderBy induction => exact (induction unaffected.1).sort unaffected
  | case8 input options => exact .of_not_over rfl rfl rfl trivial
  | case9 leaf =>
      have noInput : hasInput leaf = false := by
        cases leaf <;> first | rfl | simp at *
      exact .leaf counts_movedDropRound counts_movedDropRound le_rfl noInput unaffected

theorem sound_eliminateRedundantProject (rounds : Nat) :
    Sound env movedDropRound movedDropRound rounds rounds eliminateRedundantProject := by
  intro plan store unaffected
  fun_induction eliminateRedundantProject plan with
  | case1 input induction =>
      have below := induction unaffected
      exact ⟨below.result, below.scanBelow, below.projections, below.later, below.unaffected⟩
  | case2 input exprs _ induction =>
      exact (induction unaffected).project counts_movedDropRound counts_movedDropRound rfl
  | case3 input predicate induction =>
      exact (induction unaffected.1).filter (delays_moved rounds) unaffected
  | case4 left right condition => exact .of_not_over rfl rfl rfl trivial
  | case5 input groupBy aggregates => exact .of_not_over rfl rfl rfl trivial
  | case6 input orderBy induction => exact (induction unaffected.1).sort unaffected
  | case7 input n induction => exact (induction unaffected).limit n
  | case8 input options => exact .of_not_over rfl rfl rfl trivial
  | case9 leaf =>
      have noInput : hasInput leaf = false := by
        cases leaf <;> first | rfl | simp at *
      exact .leaf counts_movedDropRound counts_movedDropRound le_rfl noInput unaffected

theorem isStar_map_foldExpr (exprs : List Expr) : isStar (exprs.map foldExpr) = isStar exprs := by
  rw [isStar, isStar, List.map_map]
  congr 2
  exact List.map_congr_left fun expr _ => foldExpr_foldExpr expr

theorem sound_constantFold (rounds : Nat) :
    Sound env movedDropRound movedDropRound rounds rounds constantFold := by
  intro plan store unaffected
  fun_induction constantFold plan with
  | case1 input predicate induction =>
      have below := induction unaffected.1
      rcases unaffected with ⟨inner, agrees, keeps⟩
      have overScan : overVectorScan (.filter (constantFold input) (foldExpr predicate)) =
          overVectorScan (.filter input predicate) := by
        rw [overVectorScan, overVectorScan, foldExpr_foldExpr, below.scanBelow]
      have later (overScan : overVectorScan input = true) :=
        delays_moved rounds input (constantFold input) predicate (below.projections overScan)
          (below.later overScan)
      have inner (overScan : overVectorScan (.filter input predicate) = true) :
          overVectorScan input = true := (Bool.and_eq_true_iff.mp overScan).2
      constructor
      · simp only [Environment.executePlan, below.result, execute_foldExpr agrees]
      · exact overScan
      · exact fun overScan => below.projections (inner overScan)
      · exact fun overScan => later (inner overScan)
      · rw [Unaffected, foldExpr_foldExpr, below.result, below.scanBelow]
        refine ⟨below.unaffected, ?_, ?_⟩
        · intro row member
          rw [foldExpr_foldExpr]
        · intro compares above soon row member
          rw [agrees row member]
          exact keeps compares above (by
            have inTime := later above
            exact (Nat.le_of_add_le_add_right inTime).trans soon) row member
  | case2 input exprs induction =>
      exact (induction unaffected).project counts_movedDropRound counts_movedDropRound
        (isStar_map_foldExpr exprs)
  | case3 left right condition => exact .of_not_over rfl rfl rfl trivial
  | case4 input groupBy aggregates => exact .of_not_over rfl rfl rfl trivial
  | case5 input orderBy induction =>
      have below := induction unaffected.1
      refine .of_not_over rfl ?_ rfl ?_
      · simp only [Environment.executePlan, below.result, execute_foldSort unaffected.2]
      · rw [Unaffected, below.result]
        refine ⟨below.unaffected, fun left _ right _ => ?_⟩
        rw [List.map_map]
        congr 1
        apply List.map_congr_left
        intro item _
        exact foldSort_foldSort item
  | case6 input n induction => exact (induction unaffected).limit n
  | case7 input options => exact .of_not_over rfl rfl rfl trivial
  | case8 collection predicate projections =>
      cases predicate with
      | none =>
          exact .of_not_over rfl (by rw [executePlan_scan, executePlan_scan]; rfl) rfl trivial
      | some predicate =>
          have agrees : FoldAgrees env predicate (ScanOperator.mk collection store.lsm).execute :=
            unaffected
          refine .of_not_over rfl ?_ rfl ?_
          · rw [executePlan_scan, executePlan_scan]
            exact congrArg (fun batch => (batch, store)) (execute_foldExpr agrees)
          · intro row member
            rw [foldExpr_foldExpr]
  | case9 leaf =>
      have noInput : hasInput leaf = false := by
        cases leaf <;> first | rfl | simp at *
      exact .leaf counts_movedDropRound counts_movedDropRound le_rfl noInput unaffected

theorem sound_vectorScanElideFilter (rounds : Nat) :
    Sound env movedDropRound dropRound (rounds + 1) rounds vectorScanElideFilter := by
  intro plan store unaffected
  fun_induction vectorScanElideFilter plan with
  | case1 collection vectorField query threshold predicate compares =>
      have folded := isVectorDistPredicate_foldExpr compares
      have keeps := unaffected.2.2 folded rfl (Nat.succ_le_succ (Nat.zero_le rounds))
      constructor
      · simp only [Environment.executePlan] at keeps ⊢
        rw [execute_keepsAll keeps]
      · rw [overVectorScan, overVectorScan, folded, overVectorScan]
        rfl
      · exact fun _ => rfl
      · intro _
        change 1 + rounds ≤ 0 + (rounds + 1)
        omega
      · trivial
  | case2 collection vectorField query threshold predicate _ =>
      refine Equivalent.filter (delays_dropping rounds) ?_ unaffected
      exact .leaf counts_movedDropRound counts_dropRound (Nat.le_succ rounds) rfl trivial
  | case3 other predicate _ induction =>
      exact (induction unaffected.1).filter (delays_dropping rounds) unaffected
  | case4 input exprs induction =>
      exact (induction unaffected).project counts_movedDropRound counts_dropRound rfl
  | case5 left right condition => exact .of_not_over rfl rfl rfl trivial
  | case6 input groupBy aggregates => exact .of_not_over rfl rfl rfl trivial
  | case7 input orderBy induction => exact (induction unaffected.1).sort unaffected
  | case8 input n induction => exact (induction unaffected).limit n
  | case9 input options => exact .of_not_over rfl rfl rfl trivial
  | case10 leaf =>
      have noInput : hasInput leaf = false := by
        cases leaf <;> first | rfl | simp at *
      exact .leaf counts_movedDropRound counts_dropRound (Nat.le_succ rounds) noInput unaffected

/-! ## The loop -/

/-- A round rewrites an unaffected plan to one that is unaffected in the rounds left. -/
theorem applyAllRules_spec {plan : LogicalPlan} {store : Store} {rounds : Nat}
    (unaffected : Unaffected env dropRound (rounds + 1) plan store) :
    env.executePlan (applyAllRules plan) store = env.executePlan plan store ∧
      Unaffected env dropRound rounds (applyAllRules plan) store := by
  have first := sound_predicatePushdown (rounds + 1) plan store unaffected
  have second := sound_limitPushdown (rounds + 1) _ store first.unaffected
  have third := sound_eliminateRedundantProject (rounds + 1) _ store second.unaffected
  have fourth := sound_constantFold (rounds + 1) _ store third.unaffected
  have fifth := sound_vectorScanElideFilter rounds _ store fourth.unaffected
  have result := fifth.result.trans (fourth.result.trans (third.result.trans
    (second.result.trans first.result)))
  exact ⟨result, fifth.unaffected⟩

theorem executePlan_optimizeLoop (rounds : Nat) (plan : LogicalPlan) (store : Store)
    (unaffected : Unaffected env dropRound rounds plan store) :
    env.executePlan (optimizeLoop rounds plan) store = env.executePlan plan store := by
  induction rounds generalizing plan with
  | zero => rfl
  | succ rounds induction =>
      rcases applyAllRules_spec unaffected with ⟨result, still⟩
      rw [optimizeLoop]
      split
      · rfl
      · exact (induction _ still).trans result

/-- An environment in which only the empty payload can be read. -/
def plainEnvironment : Environment where
  platform := plainPlatform
  toVec dataMap := if dataMap.isEmpty then [0x80] else []
  fromSlice bytes := if bytes = [0x80] then some [] else none
  roundF32 := id
  roundF64 := id
  cosineDistance _ _ := 0
  newId count := Vector.replicate 16 (UInt8.ofNat count)
  now count := count
  timing _ := .beforeCheck

/-- A record with a vector and an empty payload. -/
def embedded : FunRecord :=
  { makeRecord [0x80] with vectors := [("embedding", [1])] }

def embeddedStore : Store where
  lsm := (LsmTree.openDir plainPlatform [] [] 0).insertActive plainPlatform (makeKey 1) embedded
  built := 0

theorem embedded_mem_scan :
    (makeKey 1, embedded) ∈ (ScanOperator.mk "docs" embeddedStore.lsm).execute.rows := by
  have written : embeddedStore.lsm.FilesWritten plainPlatform := by
    intro file member
    cases member
  rw [ScanOperator.rows_execute, LsmTree.mem_scan_iff written, keyRange_contains_iff]
  refine ⟨⟨"", by decide, by decide⟩, ?_⟩
  rw [embeddedStore, LsmTree.get_insertActive, if_pos rfl]
  decide

end FunDB.Optimizer
