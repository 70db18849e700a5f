import FunDB.Optimizer.Cost

/-! # The sources of physical plans -/

namespace FunDB.Optimizer.Cost

open Sql

/-- A plan that reads one collection. -/
inductive SingleSource : LogicalPlan → Prop
  | scan {collection predicate projections} :
      SingleSource (.scan collection predicate projections)
  | vectorScan {collection vectorField query threshold} :
      SingleSource (.vectorScan collection vectorField query threshold)
  | filter {input predicate} : SingleSource input → SingleSource (.filter input predicate)
  | project {input exprs} : SingleSource input → SingleSource (.project input exprs)
  | limit {input n} : SingleSource input → SingleSource (.limit input n)
  | sort {input orderBy} : SingleSource input → SingleSource (.sort input orderBy)
  | aggregate {input groupBy aggregates} : SingleSource input →
      SingleSource (.aggregate input groupBy aggregates)
  | contextOptimize {input options} : SingleSource input →
      SingleSource (.contextOptimize input options)

inductive PlanNode where
  | filter
  | limit (n : Nat)
  | sort
  | aggregate
deriving DecidableEq

def logicalNodes : LogicalPlan → List PlanNode
  | .filter input _ => .filter :: logicalNodes input
  | .limit input n => .limit n :: logicalNodes input
  | .sort input _ => .sort :: logicalNodes input
  | .aggregate input _ _ => .aggregate :: logicalNodes input
  | .project input _ => logicalNodes input
  | .contextOptimize input _ => logicalNodes input
  | _ => []

def physicalNodes : PhysicalPlan → List PlanNode
  | .filter input _ _ => .filter :: physicalNodes input
  | .limit input n => .limit n :: physicalNodes input
  | .sort input _ => .sort :: physicalNodes input
  | .aggregate input _ => .aggregate :: physicalNodes input
  | _ => []

/-- The collection that is scanned, if one is. -/
def scannedCollection : PhysicalPlan → Option String
  | .seqScan collection _ _ => some collection
  | .indexScan collection _ _ _ => some collection
  | .vectorScan collection _ _ _ _ => some collection
  | .filter input _ _ => scannedCollection input
  | .limit input _ => scannedCollection input
  | .sort input _ => scannedCollection input
  | .aggregate input _ => scannedCollection input
  | .causalScan _ _ _ _ => none
  | .empty => none

structure KeepsSource (plan : LogicalPlan) (physical : PhysicalPlan) : Prop where
  scanned : scannedCollection physical = some (collectionOf plan)
  nodes : physicalNodes physical = logicalNodes plan
  ne_empty : physical ≠ .empty

/-- No projection and no context is among the nodes. -/
def Named : LogicalPlan → Prop
  | .project _ _ => False
  | .contextOptimize _ _ => False
  | .filter input _ => Named input
  | .limit input _ => Named input
  | .sort input _ => Named input
  | .aggregate input _ _ => Named input
  | _ => True

variable (stats : Statistics) (platform : CostPlatform)

theorem planScan_keeps (collection : String) (predicate : Option Expr) :
    scannedCollection (planScan stats platform collection predicate) = some collection ∧
      physicalNodes (planScan stats platform collection predicate) = [] := by
  unfold planScan
  dsimp only
  split_ifs
  · exact ⟨rfl, rfl⟩
  · cases predicate with
    | none => exact ⟨rfl, rfl⟩
    | some pred =>
        dsimp only
        split_ifs
        · exact ⟨rfl, rfl⟩
        · exact ⟨rfl, rfl⟩

/-- The nodes that are named are translated one by one. -/
theorem physicalNodes_optimize {plan : LogicalPlan} (single : SingleSource plan)
    (named : Named plan) : physicalNodes (optimize stats platform plan) = logicalNodes plan := by
  induction single with
  | scan => exact (planScan_keeps stats platform _ _).2
  | vectorScan => rfl
  | filter _ induction => exact congrArg (PlanNode.filter :: ·) (induction named)
  | limit _ induction => exact congrArg (PlanNode.limit _ :: ·) (induction named)
  | sort _ induction => exact congrArg (PlanNode.sort :: ·) (induction named)
  | aggregate _ induction => exact congrArg (PlanNode.aggregate :: ·) (induction named)
  | project => exact absurd named id
  | contextOptimize => exact absurd named id

/-- A node that is not named takes the scan below it away. -/
theorem scannedCollection_optimize_iff {plan : LogicalPlan} (single : SingleSource plan) :
    scannedCollection (optimize stats platform plan) = some (collectionOf plan) ↔ Named plan := by
  induction single with
  | scan => exact iff_of_true (planScan_keeps stats platform _ _).1 trivial
  | vectorScan => exact iff_of_true rfl trivial
  | filter _ induction => exact induction
  | limit _ induction => exact induction
  | sort _ induction => exact induction
  | aggregate _ induction => exact induction
  | project => exact iff_of_false nofun id
  | contextOptimize => exact iff_of_false nofun id

/-- A plan keeps its source exactly where it has no projection and no context. -/
theorem optimize_keepsSource_iff {plan : LogicalPlan} (single : SingleSource plan) :
    KeepsSource plan (optimize stats platform plan) ↔ Named plan := by
  constructor
  · intro keeps
    exact (scannedCollection_optimize_iff stats platform single).mp keeps.scanned
  · intro named
    have scanned := (scannedCollection_optimize_iff stats platform single).mpr named
    refine ⟨scanned, physicalNodes_optimize stats platform single named, ?_⟩
    intro empty
    rw [empty] at scanned
    cases scanned

theorem optimize_keepsSource_iff_limit :
    KeepsSource (.limit (.scan "docs" none []) 10)
        (optimize noStatistics plainCostPlatform (.limit (.scan "docs" none []) 10)) ↔
      Named (.limit (.scan "docs" none []) 10) :=
  optimize_keepsSource_iff noStatistics plainCostPlatform (.limit .scan)

/-- A projection of a scan becomes empty, and the collection is still known. -/
theorem projection_becomes_empty :
    optimize noStatistics plainCostPlatform (.project (.scan "docs" none []) [.star]) = .empty ∧
      collectionOf (.project (.scan "docs" none []) [.star]) = "docs" :=
  ⟨rfl, rfl⟩

end FunDB.Optimizer.Cost
