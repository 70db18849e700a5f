import FunDB.Sql.Translations

/-! # The clauses of a SELECT

The plan of a SELECT is built in layers over its rows. Some clauses have no layer,
and a later source of rows takes the place of an earlier one. -/

namespace FunDB.Sql

variable (platform : BindPlatform)

/-! ## Layers of a plan -/

def rowsPlan (collection : String) (stmt : Ast.SelectStmt Ast.Expr) : LogicalPlan :=
  match stmt.traverse with
  | some clause => bindTraverse collection clause
  | none =>
      match stmt.traceCausality with
      | some clause => bindTraceCausality platform clause
      | none =>
          bindWhere platform collection (stmt.projections.map (bindSelectItem platform))
            stmt.whereClause

def contextLayer (options : Option (Ast.ContextOptions Ast.Expr)) (plan : LogicalPlan) :
    LogicalPlan :=
  match options with
  | some options => .contextOptimize plan (bindContextOptions platform options)
  | none => plan

def groupLayer (groupBy : List Ast.Expr) (items : List (Ast.SelectItem Ast.Expr))
    (plan : LogicalPlan) : LogicalPlan :=
  if groupBy.isEmpty then plan
  else .aggregate plan (groupBy.map (bindExpr platform)) (extractAggregates platform items)

def sortLayer (orderBy : List (Ast.OrderByItem Ast.Expr)) (plan : LogicalPlan) : LogicalPlan :=
  if orderBy.isEmpty then plan else .sort plan (orderBy.map (bindOrderBy platform))

def limitLayer (limit : Option Ast.Expr) (plan : LogicalPlan) : LogicalPlan :=
  match limit with
  | some limit => .limit plan ((exprToUsize limit).getD 0)
  | none => plan

theorem selectPlan_eq (collection : String) (stmt : Ast.SelectStmt Ast.Expr) :
    selectPlan platform collection stmt =
      limitLayer stmt.limit (sortLayer platform stmt.orderBy
        (groupLayer platform stmt.groupBy stmt.projections
          (contextLayer platform stmt.withinContext (rowsPlan platform collection stmt)))) := by
  rw [selectPlan, rowsPlan]
  cases stmt.traverse <;> cases stmt.traceCausality <;> rfl

section Layers

variable {plan other : LogicalPlan}

theorem ne_of_larger (larger : sizeOf plan < sizeOf other) : other ≠ plan := by
  intro same
  rw [same] at larger
  exact absurd larger (lt_irrefl _)

theorem limit_ne (plan : LogicalPlan) (count : Nat) : .limit plan count ≠ plan :=
  ne_of_larger (by rw [LogicalPlan.limit.sizeOf_spec]; omega)

theorem sort_ne (plan : LogicalPlan) (keys : List SortExpr) : .sort plan keys ≠ plan :=
  ne_of_larger (by rw [LogicalPlan.sort.sizeOf_spec]; omega)

theorem aggregate_ne (plan : LogicalPlan) (keys : List Expr) (aggregates : List AggExpr) :
    .aggregate plan keys aggregates ≠ plan :=
  ne_of_larger (by rw [LogicalPlan.aggregate.sizeOf_spec]; omega)

theorem contextOptimize_ne (plan : LogicalPlan) (options : ContextOptions) :
    .contextOptimize plan options ≠ plan :=
  ne_of_larger (by rw [LogicalPlan.contextOptimize.sizeOf_spec]; omega)

theorem limitLayer_inj (limit : Option Ast.Expr) :
    limitLayer limit plan = limitLayer limit other ↔ plan = other := by
  cases limit <;> simp [limitLayer]

theorem sortLayer_inj (orderBy : List (Ast.OrderByItem Ast.Expr)) :
    sortLayer platform orderBy plan = sortLayer platform orderBy other ↔ plan = other := by
  cases orderBy <;> simp [sortLayer]

theorem groupLayer_inj (groupBy : List Ast.Expr) (items : List (Ast.SelectItem Ast.Expr)) :
    groupLayer platform groupBy items plan = groupLayer platform groupBy items other ↔
      plan = other := by
  cases groupBy <;> simp [groupLayer]

theorem contextLayer_inj (options : Option (Ast.ContextOptions Ast.Expr)) :
    contextLayer platform options plan = contextLayer platform options other ↔
      plan = other := by
  cases options <;> simp [contextLayer]

theorem limitLayer_eq_iff (left right : Option Ast.Expr) :
    limitLayer left plan = limitLayer right plan ↔
      left.map (fun limit => (exprToUsize limit).getD 0) =
        right.map (fun limit => (exprToUsize limit).getD 0) := by
  cases left <;> cases right <;> simp [limitLayer, limit_ne, (limit_ne _ _).symm]

theorem sortLayer_eq_iff (left right : List (Ast.OrderByItem Ast.Expr)) :
    sortLayer platform left plan = sortLayer platform right plan ↔
      left.map (bindOrderBy platform) = right.map (bindOrderBy platform) := by
  cases left <;> cases right <;> simp [sortLayer, sort_ne, (sort_ne _ _).symm]

theorem groupLayer_eq_iff (items : List (Ast.SelectItem Ast.Expr)) (left right : List Ast.Expr) :
    groupLayer platform left items plan = groupLayer platform right items plan ↔
      left.map (bindExpr platform) = right.map (bindExpr platform) := by
  cases left <;> cases right <;> simp [groupLayer, aggregate_ne, (aggregate_ne _ _ _).symm]

theorem contextLayer_eq_iff (left right : Option (Ast.ContextOptions Ast.Expr)) :
    contextLayer platform left plan = contextLayer platform right plan ↔
      left.map (bindContextOptions platform) = right.map (bindContextOptions platform) := by
  cases left <;> cases right <;>
    simp [contextLayer, contextOptimize_ne, (contextOptimize_ne _ _).symm]

end Layers

/-! ## Clauses -/

inductive Clause where
  | distinct
  | join
  | whereClause
  | groupBy
  | having
  | orderBy
  | limit
  | offset
  | withinContext
  | asOf
  | traverse
  | traceCausality
deriving DecidableEq, Repr

namespace Clause

variable (stmt : Ast.SelectStmt Ast.Expr)

def replace (other : Ast.SelectStmt Ast.Expr) : Clause → Ast.SelectStmt Ast.Expr
  | .distinct => { stmt with distinct := other.distinct }
  | .join => { stmt with joins := other.joins }
  | .whereClause => { stmt with whereClause := other.whereClause }
  | .groupBy => { stmt with groupBy := other.groupBy }
  | .having => { stmt with having := other.having }
  | .orderBy => { stmt with orderBy := other.orderBy }
  | .limit => { stmt with limit := other.limit }
  | .offset => { stmt with offset := other.offset }
  | .withinContext => { stmt with withinContext := other.withinContext }
  | .asOf => { stmt with asOf := other.asOf }
  | .traverse => { stmt with traverse := other.traverse }
  | .traceCausality => { stmt with traceCausality := other.traceCausality }

/-- The statement without the clause. -/
def remove (clause : Clause) : Ast.SelectStmt Ast.Expr :=
  clause.replace stmt blank

def Present : Clause → Prop
  | .distinct => stmt.distinct = true
  | .join => stmt.joins ≠ []
  | .whereClause => stmt.whereClause ≠ none
  | .groupBy => stmt.groupBy ≠ []
  | .having => stmt.having ≠ none
  | .orderBy => stmt.orderBy ≠ []
  | .limit => stmt.limit ≠ none
  | .offset => stmt.offset ≠ none
  | .withinContext => stmt.withinContext ≠ none
  | .asOf => stmt.asOf ≠ none
  | .traverse => stmt.traverse ≠ none
  | .traceCausality => stmt.traceCausality ≠ none

/-- The binder has nothing for the clause, or puts another source of rows in its
place. -/
def Dropped : Clause → Prop
  | .distinct | .join | .having | .offset | .asOf => True
  | .whereClause => stmt.traceCausality ≠ none ∨ stmt.traverse ≠ none
  | .traceCausality => stmt.traverse ≠ none
  | .groupBy | .orderBy | .limit | .withinContext | .traverse => False

/-- Both statements have the clause translated alike, or both lack it. -/
def SameTranslation (other : Ast.SelectStmt Ast.Expr) : Clause → Prop
  | .distinct | .join | .having | .offset | .asOf => True
  | .whereClause =>
      bindWhere platform (collectionOf stmt) (stmt.projections.map (bindSelectItem platform))
          stmt.whereClause =
        bindWhere platform (collectionOf stmt) (stmt.projections.map (bindSelectItem platform))
          other.whereClause
  | .groupBy => stmt.groupBy.map (bindExpr platform) = other.groupBy.map (bindExpr platform)
  | .orderBy =>
      stmt.orderBy.map (bindOrderBy platform) = other.orderBy.map (bindOrderBy platform)
  | .limit =>
      stmt.limit.map (fun limit => (exprToUsize limit).getD 0) =
        other.limit.map (fun limit => (exprToUsize limit).getD 0)
  | .withinContext =>
      stmt.withinContext.map (bindContextOptions platform) =
        other.withinContext.map (bindContextOptions platform)
  | .traverse =>
      stmt.traverse.map (bindTraverse (collectionOf stmt)) =
        other.traverse.map (bindTraverse (collectionOf stmt))
  | .traceCausality =>
      stmt.traceCausality.map (bindTraceCausality platform) =
        other.traceCausality.map (bindTraceCausality platform)

variable {stmt} {other : Ast.SelectStmt Ast.Expr} (clause : Clause)

theorem not_present_remove : ¬ clause.Present (clause.remove stmt) := by
  cases clause <;> simp [Present, remove, replace, blank]

theorem remove_remove : clause.remove (clause.remove stmt) = clause.remove stmt := by
  cases clause <;> rfl

theorem replace_eq (rest : clause.remove stmt = clause.remove other) :
    clause.replace stmt other = other := by
  cases stmt
  cases other
  cases clause <;> cases rest <;> rfl

/-! ## Translations and plans -/

theorem tryBuildVectorScan_shape {collection : String} {condition : Ast.Expr}
    {plan : LogicalPlan} (found : tryBuildVectorScan platform collection condition = some plan) :
    ∃ field query threshold, plan = .vectorScan collection field query threshold := by
  unfold tryBuildVectorScan at found
  split at found
  · split at found
    · split at found
      · cases found
        exact ⟨_, _, _, rfl⟩
      · cases found
    · cases found
  · cases found

/-- A WHERE clause is a filter or a vector scan. -/
theorem bindWhere_some (collection : String) (projections : List Expr) (condition : Ast.Expr) :
    (∃ field query threshold, bindWhere platform collection projections (some condition) =
        .vectorScan collection field query threshold) ∨
      bindWhere platform collection projections (some condition) =
        .filter (.scan collection none projections) (bindExpr platform condition) := by
  rw [bindWhere]
  cases found : tryBuildVectorScan platform collection condition with
  | none => exact .inr rfl
  | some plan =>
      rcases tryBuildVectorScan_shape platform found with ⟨field, query, threshold, rfl⟩
      exact .inl ⟨field, query, threshold, rfl⟩

theorem bindWhere_ne_scan (collection : String) (projections : List Expr)
    (condition : Ast.Expr) :
    bindWhere platform collection projections (some condition) ≠
      bindWhere platform collection projections none := by
  have scan : bindWhere platform collection projections none =
      .scan collection none projections := rfl
  rw [scan]
  rcases bindWhere_some platform collection projections condition with
    ⟨field, query, threshold, shape⟩ | shape <;>
    rw [shape] <;> simp

/-- The plans that a WHERE clause can give. -/
def ReadsCollection : LogicalPlan → Prop
  | .scan _ _ _ | .filter _ _ | .vectorScan _ _ _ _ => True
  | _ => False

theorem readsCollection_bindWhere (collection : String) (projections : List Expr)
    (condition : Option Ast.Expr) :
    ReadsCollection (bindWhere platform collection projections condition) := by
  cases condition with
  | none => trivial
  | some condition =>
      rcases bindWhere_some platform collection projections condition with
        ⟨field, query, threshold, shape⟩ | shape
      · rw [shape]
        trivial
      · rw [shape]
        trivial

theorem bindWhere_ne_causalTrace (collection : String) (projections : List Expr)
    (condition : Option Ast.Expr) (clause : Ast.TraceCausalityClause Ast.Expr) :
    bindWhere platform collection projections condition ≠ bindTraceCausality platform clause := by
  intro same
  have reads := readsCollection_bindWhere platform collection projections condition
  rw [same] at reads
  exact reads

/-! ## Sources of rows -/

section Rows

variable (collection : String) (stmt : Ast.SelectStmt Ast.Expr)

theorem rowsPlan_ne_graphTraverse (absent : stmt.traverse = none)
    (clause : Ast.TraverseClause Ast.Expr) :
    rowsPlan platform collection stmt ≠ bindTraverse collection clause := by
  rw [rowsPlan, absent]
  cases stmt.traceCausality with
  | some clause => simp [bindTraceCausality, bindTraverse]
  | none =>
      intro same
      have reads := readsCollection_bindWhere platform collection
        (stmt.projections.map (bindSelectItem platform)) stmt.whereClause
      simp only [same] at reads
      exact reads

theorem rowsPlan_where_iff (traces : stmt.traceCausality = none)
    (traverses : stmt.traverse = none) (left right : Option Ast.Expr) :
    rowsPlan platform collection { stmt with whereClause := left } =
        rowsPlan platform collection { stmt with whereClause := right } ↔
      bindWhere platform collection (stmt.projections.map (bindSelectItem platform)) left =
        bindWhere platform collection (stmt.projections.map (bindSelectItem platform)) right := by
  simp only [rowsPlan, traces, traverses]

theorem rowsPlan_trace_iff (traverses : stmt.traverse = none)
    (left right : Option (Ast.TraceCausalityClause Ast.Expr)) :
    rowsPlan platform collection { stmt with traceCausality := left } =
        rowsPlan platform collection { stmt with traceCausality := right } ↔
      left.map (bindTraceCausality platform) = right.map (bindTraceCausality platform) := by
  simp only [rowsPlan, traverses]
  cases left <;> cases right <;>
    simp [bindWhere_ne_causalTrace, (bindWhere_ne_causalTrace _ _ _ _ _).symm]

theorem rowsPlan_traverse_iff (left right : Option (Ast.TraverseClause Ast.Expr)) :
    rowsPlan platform collection { stmt with traverse := left } =
        rowsPlan platform collection { stmt with traverse := right } ↔
      left.map (bindTraverse collection) = right.map (bindTraverse collection) := by
  have different (clause : Ast.TraverseClause Ast.Expr) :=
    rowsPlan_ne_graphTraverse platform collection { stmt with traverse := none } rfl clause
  have traversed (clause : Ast.TraverseClause Ast.Expr) :
      rowsPlan platform collection { stmt with traverse := some clause } =
        bindTraverse collection clause := rfl
  cases left <;> cases right <;> simp [traversed, different, (different _).symm]

end Rows

theorem rowsPlan_remove (collection : String) (dropped : clause.Dropped stmt) :
    rowsPlan platform collection (clause.remove stmt) = rowsPlan platform collection stmt := by
  cases clause with
  | distinct | join | having | offset | asOf => rfl
  | groupBy | orderBy | limit | withinContext | traverse => exact dropped.elim
  | whereClause =>
      simp only [rowsPlan, remove, replace]
      cases traverses : stmt.traverse with
      | some clause => rfl
      | none =>
          cases traces : stmt.traceCausality with
          | some clause => rfl
          | none => exact absurd dropped (by simp [Dropped, traverses, traces])
  | traceCausality =>
      simp only [rowsPlan, remove, replace]
      cases traverses : stmt.traverse with
      | some clause => rfl
      | none => exact absurd dropped (by simp [Dropped, traverses])

/-- A clause that is dropped can as well be missing. -/
theorem selectPlan_remove (collection : String) (dropped : clause.Dropped stmt) :
    selectPlan platform collection (clause.remove stmt) = selectPlan platform collection stmt := by
  rw [selectPlan_eq, selectPlan_eq, rowsPlan_remove platform clause collection dropped]
  cases clause with
  | groupBy | orderBy | limit | withinContext | traverse => exact dropped.elim
  | _ => rfl

theorem selectPlan_replace_iff (other : Ast.SelectStmt Ast.Expr)
    (kept : ¬ clause.Dropped stmt) :
    selectPlan platform (collectionOf stmt) stmt =
        selectPlan platform (collectionOf stmt) (clause.replace stmt other) ↔
      clause.SameTranslation platform stmt other := by
  rw [selectPlan_eq, selectPlan_eq]
  cases clause with
  | distinct | join | having | offset | asOf => exact absurd trivial kept
  | whereClause =>
      simp only [Dropped, not_or, not_not] at kept
      simp only [replace, limitLayer_inj, sortLayer_inj, groupLayer_inj, contextLayer_inj]
      exact rowsPlan_where_iff platform _ stmt kept.1 kept.2 _ _
  | groupBy =>
      simp only [replace, limitLayer_inj, sortLayer_inj]
      exact groupLayer_eq_iff _ _ _ _
  | orderBy =>
      simp only [replace, limitLayer_inj]
      exact sortLayer_eq_iff _ _ _
  | limit => exact limitLayer_eq_iff _ _
  | withinContext =>
      simp only [replace, limitLayer_inj, sortLayer_inj, groupLayer_inj]
      exact contextLayer_eq_iff _ _ _
  | traverse =>
      simp only [replace, limitLayer_inj, sortLayer_inj, groupLayer_inj, contextLayer_inj]
      exact rowsPlan_traverse_iff platform _ stmt _ _
  | traceCausality =>
      simp only [Dropped, not_not] at kept
      simp only [replace, limitLayer_inj, sortLayer_inj, groupLayer_inj, contextLayer_inj]
      exact rowsPlan_trace_iff platform _ stmt kept _ _

end Clause

/-! ## Clauses with a translation of their own -/

section Unique

variable {platform}

/-- The conditions that no other WHERE clause shares its plan with. -/
theorem bindWhere_unique_iff (coarse : platform.Coarse) (collection : String)
    (projections : List Expr) (condition : Ast.Expr) :
    (∀ other, bindWhere platform collection projections (some condition) =
        bindWhere platform collection projections other → other = some condition) ↔
      distinctive condition = true ∧ isVectorScan condition = false := by
  constructor
  · intro unique
    have plain : isVectorScan condition = false := by
      by_contra scans
      rw [Bool.not_eq_false] at scans
      unfold isVectorScan at scans
      split at scans
      · rename_i op field value right
        simp only [Bool.and_eq_true, Bool.or_eq_true, decide_eq_true_eq] at scans
        have flipped (other : Ast.BinaryOp) (below : other = .lt ∨ other = .ltEq) :
            bindWhere platform collection projections
                (some (.binaryOp op (.vectorDist field value) right)) =
              bindWhere platform collection projections
                (some (.binaryOp other (.vectorDist field value) right)) := by
          have number : (exprToF32 platform right).isSome = true := by
            rw [exprToF32_isSome, scans.2.1]
          have vector : (extractVectorFloats platform value).isSome = true := by
            rw [extractVectorFloats_isSome platform, scans.2.2]
          rcases Option.isSome_iff_exists.mp number with ⟨threshold, number⟩
          rcases Option.isSome_iff_exists.mp vector with ⟨query, vector⟩
          simp [bindWhere, tryBuildVectorScan, scans.1, below, number, vector]
        rcases scans.1 with rfl | rfl
        · exact absurd (unique _ (flipped .ltEq (.inr rfl))) (by simp)
        · exact absurd (unique _ (flipped .lt (.inl rfl))) (by simp)
      · cases scans
    refine ⟨?_, plain⟩
    refine (distinctive_iff coarse condition).mpr fun other same => ?_
    have otherPlain : isVectorScan other = false := by
      by_contra scans
      rw [Bool.not_eq_false] at scans
      rw [isVectorScan_of_bindExpr same.symm scans] at plain
      cases plain
    refine Option.some_inj.mp (unique (some other) ?_)
    rw [bindWhere_of_not_isVectorScan plain, bindWhere_of_not_isVectorScan otherPlain, same]
  · rintro ⟨kept, plain⟩ other same
    cases other with
    | none => exact absurd same (Clause.bindWhere_ne_scan platform _ _ _)
    | some other =>
        rw [bindWhere_of_not_isVectorScan plain] at same
        rcases Clause.bindWhere_some platform collection projections other with
          ⟨field, query, threshold, shape⟩ | shape
        · rw [shape] at same
          cases same
        · rw [shape, LogicalPlan.filter.injEq] at same
          rw [eq_of_distinctive kept same.2.symm]

theorem groupBy_unique_iff (coarse : platform.Coarse) (groupBy : List Ast.Expr) :
    (∀ others, groupBy.map (bindExpr platform) = others.map (bindExpr platform) →
        others = groupBy) ↔
      ∀ expr ∈ groupBy, distinctive expr = true := by
  rw [← distinctives_iff]
  constructor
  · intro unique
    by_contra shared
    rcases exists_others coarse (Bool.not_eq_true _ ▸ shared) with ⟨others, different, same⟩
    rw [bindExprs_eq, bindExprs_eq] at same
    exact different (unique others same.symm)
  · intro kept others same
    exact eq_of_distinctives kept (by rw [bindExprs_eq, bindExprs_eq, same])

theorem orderBy_unique_iff (coarse : platform.Coarse) (orderBy : List (Ast.OrderByItem Ast.Expr)) :
    (∀ others, orderBy.map (bindOrderBy platform) = others.map (bindOrderBy platform) →
        others = orderBy) ↔
      ∀ item ∈ orderBy, distinctive item.expr = true := by
  induction orderBy with
  | nil => simp
  | cons item items induction =>
      rw [List.forall_mem_cons, ← induction]
      constructor
      · intro unique
        constructor
        · refine (distinctive_iff coarse item.expr).mpr fun other same => ?_
          have changed := unique (⟨other, item.asc⟩ :: items) (by simp [bindOrderBy, same])
          rw [List.cons.injEq] at changed
          exact congrArg Ast.OrderByItem.expr changed.1
        · intro others same
          have changed := unique (item :: others) (by rw [List.map_cons, List.map_cons, same])
          exact (List.cons.inj changed).2
      · rintro ⟨kept, unique⟩ others same
        cases others with
        | nil => cases same
        | cons other others =>
            rw [List.map_cons, List.map_cons, List.cons.injEq] at same
            have first : other = item := by
              have asc := congrArg SortExpr.asc same.1
              have expr := eq_of_distinctive kept (congrArg SortExpr.expr same.1).symm
              cases other
              cases item
              cases expr
              cases asc
              rfl
            rw [first, unique others same.2]

/-! ## Clauses that share a translation -/

/-- Counts are cut to whole numbers, and what is no count is zero. -/
theorem exists_other_limit {limit : Ast.Expr}
    (fits : ∀ value, limit = .literal (.int value) → value < 2 ^ 63) :
    ∃ other, other ≠ limit ∧ (exprToUsize limit).getD 0 = (exprToUsize other).getD 0 := by
  cases limit with
  | star => exact ⟨.param "", by simp, rfl⟩
  | literal value =>
      cases value with
      | int value =>
          by_cases positive : 0 ≤ value
          · refine ⟨.literal (.float value), by simp, ?_⟩
            have small := fits value rfl
            have real : (0 : ℚ) ≤ value := Int.cast_nonneg positive
            simp only [exprToUsize, if_pos positive, if_pos real, saturate, Int.floor_intCast,
              Option.getD_some]
            omega
          · exact ⟨.star, by simp, by rw [exprToUsize, if_neg positive]; rfl⟩
      | float value =>
          by_cases positive : 0 ≤ value
          · have sameCount {other : ℚ} (floor : ⌊other⌋ = ⌊value⌋) :
                (exprToUsize (.literal (.float value))).getD 0 =
                  (exprToUsize (.literal (.float other))).getD 0 := by
              have still : 0 ≤ other := by
                rw [← Int.floor_nonneg, floor, Int.floor_nonneg]
                exact positive
              simp only [exprToUsize, if_pos positive, if_pos still, saturate, floor]
            by_cases whole : (⌊value⌋ : ℚ) = value
            · refine ⟨.literal (.float (⌊value⌋ + 1 / 2)), ?_, sameCount ?_⟩
              · rw [whole]
                simp
              · rw [Int.floor_intCast_add]
                norm_num
            · exact ⟨.literal (.float ⌊value⌋), by simpa using whole,
                sameCount (Int.floor_intCast _)⟩
          · exact ⟨.star, by simp, by rw [exprToUsize, if_neg positive]; rfl⟩
      | string value | bool value | null => exact ⟨.star, by simp, rfl⟩
  | _ => exact ⟨.star, by simp, rfl⟩

theorem exists_other_context (platform : BindPlatform)
    (options : Ast.ContextOptions Ast.Expr) :
    ∃ other, other ≠ options ∧
      bindContextOptions platform options = bindContextOptions platform other := by
  refine ⟨{ options with priority := ⟨.star, true⟩ :: options.priority }, fun same => ?_, rfl⟩
  have longer := congrArg (fun options => options.priority.length) same
  simp at longer

theorem exists_other_traverse (collection : String) (clause : Ast.TraverseClause Ast.Expr) :
    ∃ other, other ≠ clause ∧ bindTraverse collection clause = bindTraverse collection other := by
  refine ⟨{ clause with chain := "" :: clause.chain }, fun same => ?_, rfl⟩
  have longer := congrArg (fun clause => clause.chain.length) same
  simp at longer

theorem exists_other_trace (coarse : platform.Coarse)
    (clause : Ast.TraceCausalityClause Ast.Expr) :
    ∃ other, other ≠ clause ∧
      bindTraceCausality platform clause = bindTraceCausality platform other := by
  have replaced (bound : Option Ast.Expr) (different : bound ≠ clause.minStability)
      (same : bound.bind (exprToF32 platform) = clause.minStability.bind (exprToF32 platform)) :
      ∃ other, other ≠ clause ∧
        bindTraceCausality platform clause = bindTraceCausality platform other := by
    refine ⟨{ clause with minStability := bound }, fun equal => ?_, ?_⟩
    · exact different (congrArg Ast.TraceCausalityClause.minStability equal)
    · simp only [bindTraceCausality, same]
  cases found : clause.minStability with
  | none => exact replaced (some .star) (by rw [found]; simp) (by rw [found]; rfl)
  | some expr =>
      cases number : isNumber expr with
      | true =>
          rcases exists_other_number coarse number with ⟨other, different, same⟩
          exact replaced (some other) (by rw [found]; simpa using different)
            (by rw [found]; exact same)
      | false =>
          have unread := exprToF32_isSome platform expr
          rw [number, Option.isSome_eq_false_iff, Option.isNone_iff_eq_none] at unread
          exact replaced none (by rw [found]; simp) (by rw [found]; exact unread.symm)

end Unique

/-! ## Clauses that are honoured -/

/-- Where the statement is bound, no clause that it has can be removed, or changed in any
way, without a change of the plan or an error. -/
def HonoursClauses (stmt : Ast.SelectStmt Ast.Expr) (catalog : Catalog) : Prop :=
  ∀ plan, bindSelect platform stmt catalog = .ok plan →
    ∀ clause : Clause, clause.Present stmt →
      ∀ other, clause.remove stmt = clause.remove other → other ≠ stmt →
        bindSelect platform other catalog ≠ .ok plan

/-- There are no clauses but WHERE, GROUP BY and ORDER BY, and these are over expressions
with a translation of their own. -/
structure OwnTranslations (stmt : Ast.SelectStmt Ast.Expr) : Prop where
  distinct : stmt.distinct = false
  joins : stmt.joins = []
  whereClause : ∀ condition, stmt.whereClause = some condition →
    distinctive condition = true ∧ isVectorScan condition = false
  groupBy : ∀ expr ∈ stmt.groupBy, distinctive expr = true
  having : stmt.having = none
  orderBy : ∀ item ∈ stmt.orderBy, distinctive item.expr = true
  limit : stmt.limit = none
  offset : stmt.offset = none
  withinContext : stmt.withinContext = none
  asOf : stmt.asOf = none
  traverse : stmt.traverse = none
  traceCausality : stmt.traceCausality = none

theorem bindSelect_eq_ok_iff (stmt : Ast.SelectStmt Ast.Expr) (catalog : Catalog)
    (plan : LogicalPlan) :
    bindSelect platform stmt catalog = .ok plan ↔
      ¬ (collectionOf stmt ≠ "" ∧ catalog.hasCollection (collectionOf stmt) = false) ∧
        selectPlan platform (collectionOf stmt) stmt = plan := by
  rw [bindSelect]
  split
  · rename_i unknown
    simp [unknown]
  · rename_i known
    simp [known]

theorem collectionOf_eq {stmt other : Ast.SelectStmt Ast.Expr} {clause : Clause}
    (rest : clause.remove stmt = clause.remove other) : collectionOf other = collectionOf stmt := by
  rw [← clause.replace_eq rest]
  cases clause <;> rfl

theorem bindSelect_other_iff {stmt other : Ast.SelectStmt Ast.Expr} {catalog : Catalog}
    {plan : LogicalPlan} (bound : bindSelect platform stmt catalog = .ok plan) {clause : Clause}
    (rest : clause.remove stmt = clause.remove other) :
    bindSelect platform other catalog = .ok plan ↔
      selectPlan platform (collectionOf stmt) stmt =
        selectPlan platform (collectionOf stmt) other := by
  rcases (bindSelect_eq_ok_iff platform stmt catalog plan).mp bound with ⟨known, rfl⟩
  rw [bindSelect_eq_ok_iff, collectionOf_eq rest, and_iff_right known]
  exact eq_comm

/-- The statement is bound, none of its clauses is dropped, and no other clause is
translated like one of them. -/
theorem honoursClauses_iff_translations (stmt : Ast.SelectStmt Ast.Expr) (catalog : Catalog) :
    HonoursClauses platform stmt catalog ↔
      ((collectionOf stmt = "" ∨ catalog.hasCollection (collectionOf stmt) = true) →
        ∀ clause : Clause, clause.Present stmt →
          ¬ clause.Dropped stmt ∧
            ∀ other, clause.remove stmt = clause.remove other →
              clause.SameTranslation platform stmt other → other = stmt) := by
  have bound_iff : (collectionOf stmt = "" ∨ catalog.hasCollection (collectionOf stmt) = true) ↔
      ∃ plan, bindSelect platform stmt catalog = .ok plan := by
    simp only [bindSelect_eq_ok_iff, exists_and_left, exists_eq', and_true, not_and_or, not_not,
      Bool.not_eq_false]
  rw [bound_iff]
  constructor
  · intro honours bound clause present
    rcases bound with ⟨plan, bound⟩
    have kept : ¬ clause.Dropped stmt := by
      intro dropped
      have removed := clause.selectPlan_remove platform (collectionOf stmt) dropped
      have rest : clause.remove stmt = clause.remove (clause.remove stmt) :=
        clause.remove_remove.symm
      apply honours plan bound clause present _ rest
      · intro same
        rw [← same] at present
        exact clause.not_present_remove present
      · exact (bindSelect_other_iff platform bound rest).mpr removed.symm
    refine ⟨kept, fun other rest same => ?_⟩
    by_contra different
    apply honours plan bound clause present other rest different
    rw [bindSelect_other_iff platform bound rest, ← clause.replace_eq rest]
    exact (clause.selectPlan_replace_iff platform other kept).mpr same
  · intro translated plan bound clause present other rest changed unchanged
    rcases translated ⟨plan, bound⟩ clause present with ⟨kept, unique⟩
    rw [bindSelect_other_iff platform bound rest, ← clause.replace_eq rest,
      clause.selectPlan_replace_iff platform other kept] at unchanged
    exact changed (unique other rest unchanged)

theorem ownTranslations_of_unique {platform : BindPlatform} (coarse : platform.Coarse)
    {stmt : Ast.SelectStmt Ast.Expr}
    (fits : ∀ value, stmt.limit = some (.literal (.int value)) → value < 2 ^ 63)
    (honoured : ∀ clause : Clause, clause.Present stmt →
      ¬ clause.Dropped stmt ∧
        ∀ other, clause.remove stmt = clause.remove other →
          clause.SameTranslation platform stmt other → other = stmt) : OwnTranslations stmt where
  distinct := by
    by_contra present
    exact (honoured .distinct (Bool.eq_true_of_not_eq_false present)).1 trivial
  joins := by
    by_contra present
    exact (honoured .join present).1 trivial
  having := by
    by_contra present
    exact (honoured .having present).1 trivial
  offset := by
    by_contra present
    exact (honoured .offset present).1 trivial
  asOf := by
    by_contra present
    exact (honoured .asOf present).1 trivial
  whereClause condition found := by
    refine (bindWhere_unique_iff coarse (collectionOf stmt)
      (stmt.projections.map (bindSelectItem platform)) condition).mp fun other same => ?_
    have unique := (honoured .whereClause (by simp [Clause.Present, found])).2
      { stmt with whereClause := other } rfl (by simpa [Clause.SameTranslation, found] using same)
    rw [← found]
    exact congrArg Ast.SelectStmt.whereClause unique
  groupBy := by
    by_cases present : stmt.groupBy = []
    · simp [present]
    · refine (groupBy_unique_iff coarse stmt.groupBy).mp fun others same => ?_
      exact congrArg Ast.SelectStmt.groupBy
        ((honoured .groupBy present).2 { stmt with groupBy := others } rfl same)
  orderBy := by
    by_cases present : stmt.orderBy = []
    · simp [present]
    · refine (orderBy_unique_iff coarse stmt.orderBy).mp fun others same => ?_
      exact congrArg Ast.SelectStmt.orderBy
        ((honoured .orderBy present).2 { stmt with orderBy := others } rfl same)
  limit := by
    by_contra present
    rcases Option.ne_none_iff_exists'.mp present with ⟨limit, found⟩
    rcases exists_other_limit (fun value same => fits value (found.trans (congrArg some same))) with
      ⟨other, different, same⟩
    have unique := (honoured .limit present).2 { stmt with limit := some other } rfl
      (by simpa [Clause.SameTranslation, found] using same)
    have limits := congrArg Ast.SelectStmt.limit unique
    rw [found] at limits
    exact different (Option.some_inj.mp limits)
  withinContext := by
    by_contra present
    rcases Option.ne_none_iff_exists'.mp present with ⟨options, found⟩
    rcases exists_other_context platform options with ⟨other, different, same⟩
    have unique := (honoured .withinContext present).2 { stmt with withinContext := some other } rfl
      (by simpa [Clause.SameTranslation, found] using same)
    have options := congrArg Ast.SelectStmt.withinContext unique
    rw [found] at options
    exact different (Option.some_inj.mp options)
  traverse := by
    by_contra present
    rcases Option.ne_none_iff_exists'.mp present with ⟨clause, found⟩
    rcases exists_other_traverse (collectionOf stmt) clause with ⟨other, different, same⟩
    have unique := (honoured .traverse present).2 { stmt with traverse := some other } rfl
      (by simpa [Clause.SameTranslation, found] using same)
    have clauses := congrArg Ast.SelectStmt.traverse unique
    rw [found] at clauses
    exact different (Option.some_inj.mp clauses)
  traceCausality := by
    by_contra present
    rcases Option.ne_none_iff_exists'.mp present with ⟨clause, found⟩
    rcases exists_other_trace coarse clause with ⟨other, different, same⟩
    have unique := (honoured .traceCausality present).2
      { stmt with traceCausality := some other } rfl
      (by simpa [Clause.SameTranslation, found] using same)
    have clauses := congrArg Ast.SelectStmt.traceCausality unique
    rw [found] at clauses
    exact different (Option.some_inj.mp clauses)

/-- A clause of such a statement can be read from the plan. -/
theorem unique_of_ownTranslations {platform : BindPlatform} (coarse : platform.Coarse)
    {stmt : Ast.SelectStmt Ast.Expr} (own : OwnTranslations stmt) {clause : Clause}
    (present : clause.Present stmt) :
    ¬ clause.Dropped stmt ∧
      ∀ other, clause.remove stmt = clause.remove other →
        clause.SameTranslation platform stmt other → other = stmt := by
  cases clause with
  | distinct => exact absurd present (by rw [Clause.Present, own.distinct]; exact Bool.false_ne_true)
  | join => exact absurd own.joins present
  | having => exact absurd own.having present
  | offset => exact absurd own.offset present
  | asOf => exact absurd own.asOf present
  | limit => exact absurd own.limit present
  | withinContext => exact absurd own.withinContext present
  | traverse => exact absurd own.traverse present
  | traceCausality => exact absurd own.traceCausality present
  | whereClause =>
      refine ⟨by simp [Clause.Dropped, own.traceCausality, own.traverse], fun other rest same => ?_⟩
      rcases Option.ne_none_iff_exists'.mp present with ⟨condition, found⟩
      have unique := (bindWhere_unique_iff coarse (collectionOf stmt)
        (stmt.projections.map (bindSelectItem platform)) condition).mpr
        (own.whereClause condition found) other.whereClause
        (by simpa [Clause.SameTranslation, found] using same)
      rw [← Clause.replace_eq .whereClause rest, Clause.replace, unique, ← found]
  | groupBy =>
      refine ⟨id, fun other rest same => ?_⟩
      have unique := (groupBy_unique_iff coarse stmt.groupBy).mpr own.groupBy other.groupBy same
      rw [← Clause.replace_eq .groupBy rest, Clause.replace, unique]
  | orderBy =>
      refine ⟨id, fun other rest same => ?_⟩
      have unique := (orderBy_unique_iff coarse stmt.orderBy).mpr own.orderBy other.orderBy same
      rw [← Clause.replace_eq .orderBy rest, Clause.replace, unique]

/-- A SELECT that is bound has all its clauses honoured exactly when it has none but
WHERE, GROUP BY and ORDER BY, with nothing in them that the binder translates like
something else. -/
theorem honoursClauses_iff {platform : BindPlatform} (coarse : platform.Coarse)
    (stmt : Ast.SelectStmt Ast.Expr) (catalog : Catalog)
    (fits : ∀ value, stmt.limit = some (.literal (.int value)) → value < 2 ^ 63) :
    HonoursClauses platform stmt catalog ↔
      ((collectionOf stmt = "" ∨ catalog.hasCollection (collectionOf stmt) = true) →
        OwnTranslations stmt) := by
  rw [honoursClauses_iff_translations]
  refine forall_congr' fun known => ?_
  constructor
  · exact ownTranslations_of_unique coarse fits
  · exact fun own clause present => unique_of_ownTranslations coarse own present

/-- `SELECT * FROM docs WHERE stars > 3 ORDER BY stars` -/
def rated : Ast.SelectStmt Ast.Expr :=
  { blank with
    projections := [.wildcard]
    source := some { name := "docs", aliasName := none, isAgentMemory := false }
    whereClause := some (.binaryOp .gt (.ident "stars") (.literal (.int 3)))
    orderBy := [⟨.ident "stars", true⟩] }

/-- Rounding to whole numbers, which leaves whole numbers alone. -/
theorem rated_honoured :
    HonoursClauses ⟨Text.asciiCases, fun value => ⌊value⌋, id⟩ rated ⟨{"docs"}⟩ := by
  have coarse : BindPlatform.Coarse ⟨Text.asciiCases, fun value => ⌊value⌋, id⟩ := by
    intro value
    by_cases whole : (⌊value⌋ : ℚ) = value
    · refine ⟨value + 1 / 2, by simp, ?_⟩
      have floor : ⌊value + 1 / 2⌋ = ⌊value⌋ := by
        rw [← whole, Int.floor_intCast_add, Int.floor_intCast]
        norm_num
      exact congrArg Int.cast floor
    · exact ⟨⌊value⌋, whole, congrArg Int.cast (Int.floor_intCast ⌊value⌋)⟩
  have none (value : Int) (found : rated.limit = some (.literal (.int value))) : value < 2 ^ 63 := by
    cases found
  refine (honoursClauses_iff coarse rated ⟨{"docs"}⟩ none).mpr fun _ => ?_
  exact
    { distinct := rfl
      joins := rfl
      whereClause := by
        rintro condition found
        cases found
        decide
      groupBy := by simp [rated, blank]
      having := rfl
      orderBy := by simp [rated, distinctive]
      limit := rfl
      offset := rfl
      withinContext := rfl
      asOf := rfl
      traverse := rfl
      traceCausality := rfl }

/-- `SELECT * FROM docs LIMIT 5 OFFSET 5` -/
def secondPage : Ast.SelectStmt Ast.Expr :=
  { blank with
    projections := [.wildcard]
    source := some { name := "docs", aliasName := none, isAgentMemory := false }
    limit := some (.literal (.int 5))
    offset := some (.literal (.int 5)) }

/-- The second page is bound to the plan of the first one. -/
theorem offset_not_honoured :
    let platform : BindPlatform := ⟨Text.asciiCases, id, id⟩
    let catalog : Catalog := ⟨{"docs"}⟩
    let plan : LogicalPlan := .limit (.scan "docs" none [.star]) 5
    bindSelect platform secondPage catalog = .ok plan ∧
      bindSelect platform (Clause.offset.remove secondPage) catalog = .ok plan ∧
      ¬ HonoursClauses platform secondPage catalog := by
  intro platform catalog plan
  have bound (stmt : Ast.SelectStmt Ast.Expr) (source : collectionOf stmt = "docs")
      (planned : selectPlan platform "docs" stmt = plan) :
      bindSelect platform stmt catalog = .ok plan := by
    rw [bindSelect_eq_ok_iff, source]
    exact ⟨by decide, planned⟩
  have whole := bound secondPage rfl rfl
  have removed := bound (Clause.offset.remove secondPage) rfl rfl
  refine ⟨whole, removed, fun honours => ?_⟩
  apply honours plan whole .offset (Option.some_ne_none _) _ Clause.offset.remove_remove.symm
  · exact fun same => Option.some_ne_none _ (congrArg Ast.SelectStmt.offset same).symm
  · exact removed

end FunDB.Sql
