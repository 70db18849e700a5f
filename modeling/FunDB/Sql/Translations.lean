import FunDB.Sql.Binder

/-! # Expressions and their translations

An expression is distinctive where no other one is bound to the same expression of a
plan. -/

namespace FunDB.Sql

variable (platform : BindPlatform)

/-- The operators to which the binder gives an operator of their own. -/
def distinctiveOp : Ast.BinaryOp → Bool
  | .notEq | .lt | .ltEq | .gt | .gtEq | .or | .add | .sub | .mul => true
  | .eq | .and | .div | .mod | .like | .notLike | .in | .notIn | .between | .arrow => false

def isNumber : Ast.Expr → Bool
  | .literal (.int _) | .literal (.float _) => true
  | _ => false

/-- The calls that stand for other expressions in a plan. -/
def reservedCall (name : String) (args : List Ast.Expr) : Bool :=
  name = "case" ||
    name = "subquery" && args.isEmpty ||
    name = "in_list" && !args.isEmpty ||
    name = "array" && !args.all isNumber ||
    (name = "is_null" || name = "is_not_null" || "cast::".toList.isPrefixOf name.toList) &&
      args.length = 1

mutual

/-- No other expression is bound to the same one. -/
def distinctive : Ast.Expr → Bool
  | .literal _ | .param _ | .star => true
  | .ident name => !name.toList.contains '.'
  | .binaryOp op left right => distinctiveOp op && (distinctive left && distinctive right)
  | .unaryOp op expr => op = .neg && distinctive expr
  | .functionCall name args => !reservedCall name args && distinctives args
  | .vectorDist _ value => distinctive value
  | .array elems => elems.isEmpty
  | .inList _ _ | .isNull _ | .isNotNull _ | .between _ _ _ | .subquery _ | .qualified _ _
  | .case _ _ _ | .cast _ _ | .not _ => false

def distinctives : List Ast.Expr → Bool
  | [] => true
  | expr :: exprs => distinctive expr && distinctives exprs

end

theorem distinctives_iff (exprs : List Ast.Expr) :
    distinctives exprs = true ↔ ∀ expr ∈ exprs, distinctive expr = true := by
  induction exprs with
  | nil => simp [distinctives]
  | cons expr exprs induction => simp [distinctives, induction]

/-! ## Operators -/

theorem eq_of_distinctiveOp {op other : Ast.BinaryOp} (kept : distinctiveOp op = true)
    (same : bindBinaryOp other = bindBinaryOp op) : other = op := by
  cases op <;> first
    | exact absurd kept Bool.false_ne_true
    | cases other <;> first | rfl | cases same

theorem exists_other_op {op : Ast.BinaryOp} (shared : distinctiveOp op = false) :
    ∃ other, other ≠ op ∧ bindBinaryOp other = bindBinaryOp op := by
  cases op with
  | eq => exact ⟨.like, by decide, rfl⟩
  | like | notLike | «in» | notIn | arrow => exact ⟨.eq, by decide, rfl⟩
  | and => exact ⟨.between, by decide, rfl⟩
  | between => exact ⟨.and, by decide, rfl⟩
  | div => exact ⟨.mod, by decide, rfl⟩
  | mod => exact ⟨.div, by decide, rfl⟩
  | notEq | lt | ltEq | gt | gtEq | or | add | sub | mul => cases shared

/-! ## Numbers -/

theorem exprToF32_isSome (expr : Ast.Expr) :
    (exprToF32 platform expr).isSome = isNumber expr := by
  cases expr with
  | literal value => cases value <;> rfl
  | _ => rfl

theorem vectorOf_isSome (elems : List Ast.Expr) :
    (vectorOf platform elems).isSome = elems.all isNumber := by
  induction elems with
  | nil => rfl
  | cons elem elems induction =>
      rw [List.all_cons, ← induction, ← exprToF32_isSome platform, vectorOf, vectorOf,
        List.mapM_cons]
      cases exprToF32 platform elem with
      | none => rfl
      | some value => cases List.mapM (exprToF32 platform) elems <;> rfl

/-- What rounding to single precision has for every number: others that it takes to the
same one. -/
def BindPlatform.Coarse : Prop :=
  ∀ value : ℚ, ∃ other, other ≠ value ∧ platform.roundF32 other = platform.roundF32 value

variable {platform}

theorem exists_other_number (coarse : platform.Coarse) {expr : Ast.Expr}
    (number : isNumber expr = true) :
    ∃ other, other ≠ expr ∧ exprToF32 platform other = exprToF32 platform expr := by
  cases expr with
  | literal value =>
      cases value with
      | int value => exact ⟨.literal (.float value), by simp, rfl⟩
      | float value =>
          rcases coarse value with ⟨other, different, same⟩
          exact ⟨.literal (.float other), by simpa using different, congrArg some same⟩
      | string value | bool value | null => cases number
  | _ => cases number

theorem bindExpr_array (platform : BindPlatform) (elems : List Ast.Expr) :
    elems.all isNumber = true ∧ (∃ floats, vectorOf platform elems = some floats ∧
        bindExpr platform (.array elems) = .literal (.vector floats)) ∨
      elems.all isNumber = false ∧
        bindExpr platform (.array elems) = .functionCall "array" (bindExprs platform elems) := by
  rw [bindExpr, ← vectorOf_isSome platform]
  cases vectorOf platform elems with
  | none => exact .inr ⟨rfl, rfl⟩
  | some floats => exact .inl ⟨rfl, floats, rfl, rfl⟩

theorem exists_other_array (coarse : platform.Coarse) {elems : List Ast.Expr}
    (some : elems ≠ []) :
    ∃ other, other ≠ .array elems ∧
      bindExpr platform other = bindExpr platform (.array elems) := by
  cases elems with
  | nil => exact absurd rfl some
  | cons elem elems =>
      rcases bindExpr_array platform (elem :: elems) with
        ⟨numbers, -⟩ | ⟨-, called⟩
      · rw [List.all_cons, Bool.and_eq_true] at numbers
        rcases exists_other_number coarse numbers.1 with ⟨other, different, same⟩
        refine ⟨.array (other :: elems), by simpa using different, ?_⟩
        simp only [bindExpr, bindExprs]
        have vectors : vectorOf platform (other :: elems) = vectorOf platform (elem :: elems) := by
          rw [vectorOf, vectorOf, List.mapM_cons, List.mapM_cons, same]
        have found : (vectorOf platform (elem :: elems)).isSome = true := by
          rw [vectorOf_isSome, List.all_cons, numbers.1, numbers.2, Bool.and_true]
        rcases Option.isSome_iff_exists.mp found with ⟨floats, found⟩
        rw [vectors, found]
      · exact ⟨.functionCall "array" (elem :: elems), by simp, by rw [called, bindExpr]⟩

/-! ## The parts of a CASE -/

/-- Every list of arguments is that of a CASE without an operand. -/
theorem exists_caseArgs : ∀ args : List Ast.Expr,
    ∃ whenClauses elseClause, caseArgs none whenClauses elseClause = args
  | [] => ⟨[], none, rfl⟩
  | [arg] => ⟨[], some arg, rfl⟩
  | condition :: result :: args => by
      rcases exists_caseArgs args with ⟨whenClauses, elseClause, same⟩
      exact ⟨(condition, result) :: whenClauses, elseClause, by rw [← same]; rfl⟩

/-! ## Inversion -/

theorem eq_literal_of_bindExpr {expr : Ast.Expr} {value : Ast.Literal}
    (bound : bindExpr platform expr = .literal (bindLiteral value)) : expr = .literal value := by
  cases expr with
  | literal other => cases other <;> cases value <;> simp_all [bindExpr, bindLiteral]
  | array elems =>
      rcases bindExpr_array platform elems with ⟨-, floats, -, array⟩ | ⟨-, array⟩
      · rw [array] at bound
        cases value <;> cases bound
      · rw [array] at bound
        cases bound
  | _ => simp [bindExpr] at bound

theorem eq_ident_of_bindExpr {expr : Ast.Expr} {name : String} (plain : '.' ∉ name.toList)
    (bound : bindExpr platform expr = .column name) : expr = .ident name := by
  cases expr with
  | ident other => simpa [bindExpr] using bound
  | qualified table field =>
      simp only [bindExpr, Expr.column.injEq] at bound
      rw [← bound] at plain
      simp only [String.toList_append, List.mem_append, not_or] at plain
      exact absurd (by decide) plain.1.2
  | array elems =>
      rcases bindExpr_array platform elems with ⟨-, floats, -, array⟩ | ⟨-, array⟩ <;>
        rw [array] at bound <;> cases bound
  | _ => simp [bindExpr] at bound

theorem eq_binaryOp_of_bindExpr {expr : Ast.Expr} {op : Ast.BinaryOp} {left right : Expr}
    (kept : distinctiveOp op = true)
    (bound : bindExpr platform expr = .binaryOp (bindBinaryOp op) left right) :
    ∃ first second, expr = .binaryOp op first second ∧ bindExpr platform first = left ∧
      bindExpr platform second = right := by
  cases expr with
  | binaryOp other first second =>
      simp only [bindExpr, Expr.binaryOp.injEq] at bound
      exact ⟨first, second, by rw [eq_of_distinctiveOp kept bound.1], bound.2⟩
  | array elems =>
      rcases bindExpr_array platform elems with ⟨-, floats, -, array⟩ | ⟨-, array⟩ <;>
        rw [array] at bound <;> cases bound
  | vectorDist field value =>
      simp only [bindExpr, Expr.binaryOp.injEq] at bound
      cases op <;> cases bound.1
  | between value low high =>
      simp only [bindExpr, Expr.binaryOp.injEq] at bound
      cases op <;> first
        | exact absurd kept Bool.false_ne_true
        | cases bound.1
  | _ => simp [bindExpr] at bound

theorem eq_vectorDist_of_bindExpr {expr : Ast.Expr} {field : String} {value : Expr}
    (bound : bindExpr platform expr = .binaryOp .vectorDist (.vectorRef field) value) :
    ∃ inner, expr = .vectorDist field inner ∧ bindExpr platform inner = value := by
  cases expr with
  | binaryOp op first second =>
      simp only [bindExpr, Expr.binaryOp.injEq] at bound
      cases op <;> cases bound.1
  | array elems =>
      rcases bindExpr_array platform elems with ⟨-, floats, -, array⟩ | ⟨-, array⟩ <;>
        rw [array] at bound <;> cases bound
  | vectorDist other inner =>
      simp only [bindExpr, Expr.binaryOp.injEq, Expr.vectorRef.injEq] at bound
      exact ⟨inner, by rw [bound.2.1], bound.2.2⟩
  | _ => simp [bindExpr] at bound

theorem eq_neg_of_bindExpr {expr : Ast.Expr} {operand : Expr}
    (bound : bindExpr platform expr = .unaryOp .neg operand) :
    ∃ inner, expr = .unaryOp .neg inner ∧ bindExpr platform inner = operand := by
  cases expr with
  | unaryOp op inner =>
      simp only [bindExpr, Expr.unaryOp.injEq] at bound
      cases op <;> first
        | exact ⟨inner, rfl, bound.2⟩
        | cases bound.1
  | array elems =>
      rcases bindExpr_array platform elems with ⟨-, floats, -, array⟩ | ⟨-, array⟩ <;>
        rw [array] at bound <;> cases bound
  | _ => simp [bindExpr] at bound

theorem exists_vectorOf_of_bindExpr {expr : Ast.Expr} {floats : List ℚ}
    (bound : bindExpr platform expr = .literal (.vector floats)) :
    ∃ elems, expr = .array elems ∧ vectorOf platform elems = some floats := by
  cases expr with
  | literal value => cases value <;> simp [bindExpr, bindLiteral] at bound
  | array elems =>
      rcases bindExpr_array platform elems with ⟨-, others, read, array⟩ | ⟨-, array⟩
      · rw [array] at bound
        cases bound
        exact ⟨elems, rfl, read⟩
      · rw [array] at bound
        cases bound
  | _ => simp [bindExpr] at bound

theorem eq_param_of_bindExpr {expr : Ast.Expr} {name : String}
    (bound : bindExpr platform expr = .param name) : expr = .param name := by
  cases expr with
  | param other => simpa [bindExpr] using bound
  | array elems =>
      rcases bindExpr_array platform elems with ⟨-, floats, -, array⟩ | ⟨-, array⟩ <;>
        rw [array] at bound <;> cases bound
  | _ => simp [bindExpr] at bound

theorem eq_star_of_bindExpr {expr : Ast.Expr} (bound : bindExpr platform expr = .star) :
    expr = .star := by
  cases expr with
  | star => rfl
  | array elems =>
      rcases bindExpr_array platform elems with ⟨-, floats, -, array⟩ | ⟨-, array⟩ <;>
        rw [array] at bound <;> cases bound
  | _ => simp [bindExpr] at bound

theorem eq_functionCall_of_bindExpr {expr : Ast.Expr} {name : String} {args : List Ast.Expr}
    (free : reservedCall name args = false)
    (kept : ∀ others, bindExprs platform others = bindExprs platform args → others = args)
    (bound : bindExpr platform expr = .functionCall name (bindExprs platform args)) :
    expr = .functionCall name args := by
  have length : (bindExprs platform args).length = args.length := by
    rw [bindExprs_eq, List.length_map]
  cases expr with
  | functionCall other others =>
      simp only [bindExpr, Expr.functionCall.injEq] at bound
      rw [bound.1, kept others bound.2]
  | inList value list =>
      simp only [bindExpr, Expr.functionCall.injEq] at bound
      rw [← bound.2] at length
      cases args with
      | nil => cases length
      | cons arg args => simp [reservedCall, ← bound.1] at free
  | isNull inner | isNotNull inner =>
      simp only [bindExpr, Expr.functionCall.injEq] at bound
      rw [← bound.2] at length
      simp [reservedCall, ← bound.1, ← length] at free
  | cast inner ty =>
      simp only [bindExpr, Expr.functionCall.injEq] at bound
      rw [← bound.2] at length
      have cast : "cast::".toList.isPrefixOf name.toList = true := by
        rw [← bound.1, List.isPrefixOf_iff_prefix, String.toList_append]
        exact ⟨ty.toList, rfl⟩
      rw [reservedCall, cast] at free
      simp [← length] at free
  | subquery statement =>
      simp only [bindExpr, Expr.functionCall.injEq] at bound
      rw [← bound.2] at length
      simp [reservedCall, ← bound.1, List.length_eq_zero_iff.mp length.symm] at free
  | array elems =>
      rcases bindExpr_array platform elems with ⟨-, floats, -, array⟩ | ⟨mixed, array⟩
      · rw [array] at bound
        cases bound
      · rw [array, Expr.functionCall.injEq] at bound
        rw [kept elems bound.2] at mixed
        simp [reservedCall, ← bound.1, mixed] at free
  | case operand whenClauses elseClause =>
      simp only [bindExpr, Expr.functionCall.injEq] at bound
      simp [reservedCall, ← bound.1] at free
  | _ => simp [bindExpr] at bound

mutual

theorem eq_of_distinctive : ∀ {expr : Ast.Expr}, distinctive expr = true → ∀ {other : Ast.Expr},
    bindExpr platform other = bindExpr platform expr → other = expr
  | .literal value, _, other, same => eq_literal_of_bindExpr (by rw [same, bindExpr])
  | .param name, _, other, same => eq_param_of_bindExpr (by rw [same, bindExpr])
  | .star, _, other, same => eq_star_of_bindExpr (by rw [same, bindExpr])
  | .ident name, plain, other, same => by
      refine eq_ident_of_bindExpr ?_ (by rw [same, bindExpr])
      simpa [distinctive] using plain
  | .binaryOp op left right, kept, other, same => by
      simp only [distinctive, Bool.and_eq_true] at kept
      rw [bindExpr] at same
      rcases eq_binaryOp_of_bindExpr kept.1 same with ⟨first, second, rfl, sameLeft, sameRight⟩
      rw [eq_of_distinctive kept.2.1 sameLeft, eq_of_distinctive kept.2.2 sameRight]
  | .unaryOp op expr, kept, other, same => by
      simp only [distinctive, Bool.and_eq_true, decide_eq_true_eq] at kept
      rcases kept with ⟨rfl, kept⟩
      rw [bindExpr] at same
      rcases eq_neg_of_bindExpr same with ⟨inner, rfl, sameInner⟩
      rw [eq_of_distinctive kept sameInner]
  | .functionCall name args, kept, other, same => by
      simp only [distinctive, Bool.and_eq_true, Bool.not_eq_true'] at kept
      refine eq_functionCall_of_bindExpr kept.1 (fun others same => ?_) (by rw [same, bindExpr])
      exact eq_of_distinctives kept.2 same
  | .vectorDist field value, kept, other, same => by
      rw [bindExpr] at same
      rcases eq_vectorDist_of_bindExpr same with ⟨inner, rfl, sameInner⟩
      rw [distinctive] at kept
      rw [eq_of_distinctive kept sameInner]
  | .array elems, empty, other, same => by
      rw [distinctive, List.isEmpty_iff] at empty
      subst empty
      rcases exists_vectorOf_of_bindExpr (same.trans (by rw [bindExpr]; rfl)) with
        ⟨others, rfl, read⟩
      cases others with
      | nil => rfl
      | cons first others =>
          rw [vectorOf, List.mapM_cons] at read
          cases found : exprToF32 platform first <;>
            cases rest : List.mapM (exprToF32 platform) others <;> rw [found, rest] at read <;>
            cases read
  | .inList _ _, kept, _, _ | .isNull _, kept, _, _ | .isNotNull _, kept, _, _
  | .between _ _ _, kept, _, _ | .subquery _, kept, _, _ | .qualified _ _, kept, _, _
  | .case _ _ _, kept, _, _ | .cast _ _, kept, _, _ | .not _, kept, _, _ => by
      simp [distinctive] at kept

theorem eq_of_distinctives : ∀ {exprs : List Ast.Expr}, distinctives exprs = true →
    ∀ {others : List Ast.Expr}, bindExprs platform others = bindExprs platform exprs →
      others = exprs
  | [], _, others, same => by
      cases others with
      | nil => rfl
      | cons other others => simp [bindExprs] at same
  | expr :: exprs, kept, others, same => by
      cases others with
      | nil => simp [bindExprs] at same
      | cons other others =>
          simp only [distinctives, Bool.and_eq_true] at kept
          simp only [bindExprs, List.cons.injEq] at same
          rw [eq_of_distinctive kept.1 same.1, eq_of_distinctives kept.2 same.2]

end

/-! ## Expressions that share a translation -/

/-- A statement without any clause. -/
def blank : Ast.SelectStmt Ast.Expr where
  distinct := false
  projections := []
  source := none
  joins := []
  whereClause := none
  groupBy := []
  having := none
  orderBy := []
  limit := none
  offset := none
  withinContext := none
  asOf := none
  traverse := none
  traceCausality := none
  returnItems := []
  recallBy := none

theorem exists_other_call (name : String) (args : List Ast.Expr)
    (reserved : reservedCall name args = true) :
    ∃ other, other ≠ .functionCall name args ∧
      bindExpr platform other = bindExpr platform (.functionCall name args) := by
  simp only [reservedCall, Bool.or_eq_true, Bool.and_eq_true, decide_eq_true_eq,
    Bool.not_eq_true'] at reserved
  rcases reserved with (((rfl | ⟨rfl, none⟩) | ⟨rfl, some⟩) | ⟨rfl, mixed⟩) | ⟨names, single⟩
  · rcases exists_caseArgs args with ⟨whenClauses, elseClause, rfl⟩
    exact ⟨.case none whenClauses elseClause, by simp, bindExpr_case _ none whenClauses elseClause⟩
  · rw [List.isEmpty_iff] at none
    subst none
    exact ⟨.subquery blank, by simp, by rw [bindExpr, bindExpr, bindExprs]⟩
  · cases args with
    | nil => cases some
    | cons arg args => exact ⟨.inList arg args, by simp, by rw [bindExpr, bindExpr, bindExprs]⟩
  · rcases bindExpr_array platform args with ⟨numbers, -⟩ | ⟨-, called⟩
    · rw [numbers] at mixed
      cases mixed
    · exact ⟨.array args, by simp, by rw [called, bindExpr]⟩
  · rcases List.length_eq_one_iff.mp single with ⟨arg, rfl⟩
    rcases names with (rfl | rfl) | cast
    · exact ⟨.isNull arg, by simp, by rw [bindExpr, bindExpr, bindExprs, bindExprs]⟩
    · exact ⟨.isNotNull arg, by simp, by rw [bindExpr, bindExpr, bindExprs, bindExprs]⟩
    · rcases List.isPrefixOf_iff_prefix.mp cast with ⟨ty, split⟩
      refine ⟨.cast arg (.ofList ty), by simp, ?_⟩
      rw [bindExpr, bindExpr, bindExprs, bindExprs, Expr.functionCall.injEq,
        ← String.toList_inj, ← split, String.toList_append]
      exact ⟨congrArg ("cast::".toList ++ ·) String.toList_ofList, rfl⟩

mutual

theorem exists_other (coarse : platform.Coarse) : ∀ {expr : Ast.Expr},
    distinctive expr = false →
      ∃ other, other ≠ expr ∧ bindExpr platform other = bindExpr platform expr
  | .literal _, shared | .param _, shared | .star, shared => by simp [distinctive] at shared
  | .ident name, shared => by
      simp only [distinctive, Bool.not_eq_false'] at shared
      have dotted : '.' ∈ name.toList := by simpa using shared
      rcases List.append_of_mem dotted with ⟨table, field, split⟩
      refine ⟨.qualified (.ofList table) (.ofList field), by simp, ?_⟩
      rw [bindExpr, bindExpr, Expr.column.injEq, ← String.toList_inj, split]
      have parts : (toString (String.ofList table) ++ toString "." ++
          toString (String.ofList field)).toList = table ++ ['.'] ++ field := by
        simp only [String.toList_append]
        exact congrArg₂ (fun first second => first ++ ['.'] ++ second) String.toList_ofList
          String.toList_ofList
      rw [parts, List.append_assoc, List.singleton_append]
  | .binaryOp op left right, shared => by
      simp only [distinctive, Bool.and_eq_false_iff] at shared
      rcases shared with shared | shared | shared
      · rcases exists_other_op shared with ⟨other, different, same⟩
        exact ⟨.binaryOp other left right, by simpa using different, by
          rw [bindExpr, bindExpr, same]⟩
      · rcases exists_other coarse shared with ⟨other, different, same⟩
        exact ⟨.binaryOp op other right, by simpa using different, by
          rw [bindExpr, bindExpr, same]⟩
      · rcases exists_other coarse shared with ⟨other, different, same⟩
        exact ⟨.binaryOp op left other, by simpa using different, by
          rw [bindExpr, bindExpr, same]⟩
  | .unaryOp op expr, shared => by
      cases op with
      | not | isNull | isNotNull => exact ⟨.not expr, by simp, by rw [bindExpr, bindExpr]; rfl⟩
      | neg =>
          have inner : distinctive expr = false := by simpa [distinctive] using shared
          rcases exists_other coarse inner with ⟨other, different, same⟩
          exact ⟨.unaryOp .neg other, by simpa using different, by
            rw [bindExpr, bindExpr, same]⟩
  | .functionCall name args, shared => by
      simp only [distinctive, Bool.and_eq_false_iff, Bool.not_eq_false'] at shared
      rcases shared with reserved | shared
      · exact exists_other_call name args reserved
      · rcases exists_others coarse shared with ⟨others, different, same⟩
        exact ⟨.functionCall name others, by simpa using different, by
          rw [bindExpr, bindExpr, same]⟩
  | .vectorDist field value, shared => by
      rw [distinctive] at shared
      rcases exists_other coarse shared with ⟨other, different, same⟩
      exact ⟨.vectorDist field other, by simpa using different, by rw [bindExpr, bindExpr, same]⟩
  | .array elems, shared => by
      rw [distinctive, List.isEmpty_eq_false_iff] at shared
      exact exists_other_array coarse shared
  | .inList expr list, _ => ⟨.functionCall "in_list" (expr :: list), by simp, by
      rw [bindExpr, bindExpr, bindExprs]⟩
  | .isNull expr, _ => ⟨.functionCall "is_null" [expr], by simp, by
      rw [bindExpr, bindExpr, bindExprs, bindExprs]⟩
  | .isNotNull expr, _ => ⟨.functionCall "is_not_null" [expr], by simp, by
      rw [bindExpr, bindExpr, bindExprs, bindExprs]⟩
  | .between expr low high, _ =>
      ⟨.binaryOp .and (.binaryOp .gtEq expr low) (.binaryOp .ltEq expr high), by simp, by
        simp only [bindExpr, bindBinaryOp]⟩
  | .subquery _, _ => ⟨.functionCall "subquery" [], by simp, by
      rw [bindExpr, bindExpr, bindExprs]⟩
  | .qualified table field, _ => ⟨.ident s!"{table}.{field}", by simp, by
      rw [bindExpr, bindExpr]⟩
  | .case operand whenClauses elseClause, _ =>
      ⟨.functionCall "case" (caseArgs operand whenClauses elseClause), by simp,
        (bindExpr_case _ operand whenClauses elseClause).symm⟩
  | .cast expr ty, _ => ⟨.functionCall s!"cast::{ty}" [expr], by simp, by
      rw [bindExpr, bindExpr, bindExprs, bindExprs]⟩
  | .not expr, _ => ⟨.unaryOp .not expr, by simp, by rw [bindExpr, bindExpr]; rfl⟩

theorem exists_others (coarse : platform.Coarse) : ∀ {exprs : List Ast.Expr},
    distinctives exprs = false →
      ∃ others, others ≠ exprs ∧ bindExprs platform others = bindExprs platform exprs
  | [], shared => by simp [distinctives] at shared
  | expr :: exprs, shared => by
      simp only [distinctives, Bool.and_eq_false_iff] at shared
      rcases shared with shared | shared
      · rcases exists_other coarse shared with ⟨other, different, same⟩
        exact ⟨other :: exprs, by simpa using different, by rw [bindExprs, bindExprs, same]⟩
      · rcases exists_others coarse shared with ⟨others, different, same⟩
        exact ⟨expr :: others, by simpa using different, by rw [bindExprs, bindExprs, same]⟩

end

theorem distinctive_iff (coarse : platform.Coarse) (expr : Ast.Expr) :
    distinctive expr = true ↔
      ∀ other, bindExpr platform other = bindExpr platform expr → other = expr := by
  constructor
  · exact fun kept _ same => eq_of_distinctive kept same
  · intro unique
    by_contra shared
    rcases exists_other coarse (Bool.not_eq_true _ ▸ shared) with ⟨other, different, same⟩
    exact different (unique other same)

/-! ## Vector scans -/

def isVector : Ast.Expr → Bool
  | .array elems => elems.all isNumber
  | .param _ => true
  | _ => false

/-- A vector distance below a number. -/
def isVectorScan : Ast.Expr → Bool
  | .binaryOp op (.vectorDist _ value) right =>
      (op = .lt || op = .ltEq) && (isNumber right && isVector value)
  | _ => false

theorem extractVectorFloats_isSome (platform : BindPlatform) (value : Ast.Expr) :
    (extractVectorFloats platform value).isSome = isVector value := by
  cases value with
  | array elems => exact vectorOf_isSome platform elems
  | _ => rfl

theorem tryBuildVectorScan_isSome (platform : BindPlatform) (collection : String)
    (condition : Ast.Expr) :
    (tryBuildVectorScan platform collection condition).isSome = isVectorScan condition := by
  cases condition with
  | binaryOp op left right =>
      cases left with
      | vectorDist field value =>
          rw [tryBuildVectorScan, isVectorScan, ← exprToF32_isSome platform,
            ← extractVectorFloats_isSome platform]
          by_cases below : op = .lt ∨ op = .ltEq
          · rw [if_pos below]
            rcases below with rfl | rfl <;>
              cases exprToF32 platform right <;> cases extractVectorFloats platform value <;> rfl
          · rw [if_neg below]
            rw [not_or] at below
            simp [below.1, below.2]
      | _ => rfl
  | _ => rfl

theorem bindWhere_of_not_isVectorScan {condition : Ast.Expr}
    (plain : isVectorScan condition = false) (collection : String) (projections : List Expr) :
    bindWhere platform collection projections (some condition) =
      .filter (.scan collection none projections) (bindExpr platform condition) := by
  rw [← tryBuildVectorScan_isSome platform collection,
    Option.isSome_eq_false_iff, Option.isNone_iff_eq_none] at plain
  rw [bindWhere, plain]

/-- The conditions that become a vector scan are known from their translations. -/
theorem isVectorScan_of_bindExpr {condition other : Ast.Expr}
    (same : bindExpr platform other = bindExpr platform condition)
    (scans : isVectorScan condition = true) : isVectorScan other = true := by
  unfold isVectorScan at scans
  split at scans
  · rename_i op field value right
    simp only [Bool.and_eq_true, Bool.or_eq_true, decide_eq_true_eq] at scans
    rcases scans with ⟨below, number, vector⟩
    have kept : distinctiveOp op = true := by rcases below with rfl | rfl <;> rfl
    rw [bindExpr] at same
    rcases eq_binaryOp_of_bindExpr kept same with ⟨first, second, rfl, sameLeft, sameRight⟩
    rw [bindExpr] at sameLeft
    rcases eq_vectorDist_of_bindExpr sameLeft with ⟨inner, rfl, sameValue⟩
    have literal : second = right := by
      cases right with
      | literal value => exact eq_of_distinctive rfl sameRight
      | _ => cases number
    have alike : isVector inner = true := by
      cases value with
      | param name => rw [eq_of_distinctive rfl sameValue]; rfl
      | array elems =>
          rcases bindExpr_array platform elems with
            ⟨-, floats, -, array⟩ | ⟨mixed, -⟩
          · rw [array] at sameValue
            rcases exists_vectorOf_of_bindExpr sameValue with ⟨others, rfl, read⟩
            rw [isVector, ← vectorOf_isSome platform, read]
            rfl
          · exact absurd vector (by rw [isVector, mixed]; exact Bool.false_ne_true)
      | _ => cases vector
    rw [isVectorScan, literal, number, alike]
    simpa using below
  · cases scans

end FunDB.Sql
