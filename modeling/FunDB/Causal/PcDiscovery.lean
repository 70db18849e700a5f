import Mathlib.Data.Nat.Factorial.Basic
import Mathlib.Data.Rat.Defs
import Mathlib.Data.List.Induction
import Mathlib.Order.MinMax

/-! # Tests of independence

Partial correlations, and how likely they are for independent variables. -/

namespace FunDB.Scm

/-- What the tests take from `f64`. No laws are needed, and rounding is not excluded. -/
class Floating (F : Type) extends Zero F, One F, Add F, Sub F, Mul F, Div F, Neg F, LT F where
  decideLT : ∀ left right : F, Decidable (left < right)
  abs : F → F
  sqrt : F → F
  ln : F → F
  exp : F → F
  ofRat : ℚ → F

open Floating

instance Floating.decidableLT {F : Type} [Floating F] (left right : F) :
    Decidable (left < right) := decideLT left right

variable {F : Type} [Floating F]

def clamp (low high value : F) : F :=
  if value < low then low else if high < value then high else value

/-- The approximation for numbers that are not negative. -/
def erfcOfNonneg (x : F) : F :=
  if ofRat 5 < x then ofRat (1 / 10 ^ 12)
  else
    let t := 1 / (1 + ofRat (3275911 / 10 ^ 7) * x)
    let poly := t * (ofRat (254829592 / 10 ^ 9) + t * (ofRat (-284496736 / 10 ^ 9) +
      t * (ofRat (1421413741 / 10 ^ 9) + t * (ofRat (-1453152027 / 10 ^ 9) +
        t * ofRat (1061405429 / 10 ^ 9)))))
    let erfc := poly * exp (-x * x)
    -- `max` takes 0 also where the other number is not one
    if 0 < erfc then erfc else 0

def erfcApprox (x : F) : F :=
  if x < 0 then ofRat 2 - erfcOfNonneg (-x) else erfcOfNonneg x

def pValueFromZ (zAbs : F) : F := erfcApprox (zAbs / ofRat (141421356237309504880 / 10 ^ 20))

/-- Fisher's Z-test. -/
def fisherZTest (partialCorr : F) (nSamples k : Nat) : F :=
  let r := clamp (ofRat (-9999 / 10000)) (ofRat (9999 / 10000)) partialCorr
  let z := ofRat (1 / 2) * ln ((1 + r) / (1 - r))
  let df : Int := nSamples - k - 3
  if df ≤ 0 then 1
  else
    let se := 1 / sqrt (ofRat df)
    pValueFromZ (abs (z / se))

/-- The correlation of two variables less what others explain. -/
def partialCorrelation (corr : List F) (nVars x y : Nat) : List Nat → F
  | [] => corr.getD (x * nVars + y) 0
  | [z] => explained (corr.getD (x * nVars + y) 0) (corr.getD (x * nVars + z) 0)
      (corr.getD (y * nVars + z) 0)
  | z :: rest => explained (partialCorrelation corr nVars x y rest)
      (partialCorrelation corr nVars x z rest) (partialCorrelation corr nVars y z rest)
where
  explained (rXy rXz rYz : F) : F :=
    let denom := sqrt ((1 - rXz * rXz) * (1 - rYz * rYz))
    if abs denom < ofRat (1 / 10 ^ 10) then 0 else (rXy - rXz * rYz) / denom

/-! ## Exact numbers -/

/-- Newton's iteration for square roots. -/
def newton (square : ℚ) : Nat → ℚ
  | 0 => 1
  | steps + 1 => (newton square steps + square / newton square steps) / 2

/-- The first terms of a series for the logarithm of (1 + y) / (1 - y). -/
def lnSeries (y : ℚ) : Nat → ℚ
  | 0 => 0
  | terms + 1 => lnSeries y terms + 2 * y ^ (2 * terms + 1) / (2 * terms + 1)

def expSeries (x : ℚ) : Nat → ℚ
  | 0 => 0
  | terms + 1 => expSeries x terms + x ^ terms / terms.factorial

/-- Rational numbers, with approximations of the functions that are not rational. -/
@[reducible] def Floating.rational : Floating ℚ where
  zero := 0
  one := 1
  decideLT _ _ := inferInstance
  abs x := if x < 0 then -x else x
  sqrt square := newton square 8
  ln x := lnSeries ((x - 1) / (x + 1)) 12
  exp x := if x < 0 then 1 / expSeries (-x) 30 else expSeries x 30
  ofRat := id

end FunDB.Scm

/-! ## The PC algorithm

Edges between variables that no test makes independent, and their orientation. -/

namespace FunDB.Scm

inductive EdgeOrientation where
  | directed
  | undirected
  | directionUncertain
deriving DecidableEq, Repr

structure PcEdge where
  source : String
  target : String
  orientation : EdgeOrientation
deriving DecidableEq, Repr

namespace PcDiscovery

/-! ## Tables -/

/-- Change one entry of a table. -/
def set {Value : Type} (table : Nat → Nat → Value) (row column : Nat) (value : Value) :
    Nat → Nat → Value :=
  fun i j => if i = row ∧ j = column then value else table i j

/-- The numbers between one and another. -/
def above (i n : Nat) : List Nat := List.range' (i + 1) (n - (i + 1))

/-- The pairs of numbers below a number, the smaller one first. -/
def pairsBelow (n : Nat) : List (Nat × Nat) :=
  (List.range n).flatMap fun i => (above i n).map (i, ·)

def disconnect (adjacency : Nat → Nat → Bool) (i j : Nat) : Nat → Nat → Bool :=
  set (set adjacency i j false) j i false

/-! ## The skeleton -/

section Skeleton

variable {F : Type} [Floating F] (correlations : List F) (n : Nat) (alpha : F)

def nSamples : Nat := 100

def independent (i j : Nat) : Bool :=
  alpha < fisherZTest (correlations.getD (i * n + j) 0) nSamples 0

/-- The test makes two variables independent given a third one. -/
def independentGiven (i j k : Nat) : Bool :=
  alpha < fisherZTest (partialCorrelation correlations n i j [k]) nSamples 1

def others (n i j : Nat) : List Nat := (List.range n).filter fun k => k ≠ i ∧ k ≠ j

/-- Drop the edges between independent variables. -/
def testUnconditional (adjacency : Nat → Nat → Bool) : Nat → Nat → Bool :=
  (pairsBelow n).foldl (fun adjacency pair =>
    if independent correlations n alpha pair.1 pair.2 then disconnect adjacency pair.1 pair.2
    else adjacency) adjacency

/-- Drop the edges between variables that are independent given a third one. -/
def testConditional (adjacency : Nat → Nat → Bool) : Nat → Nat → Bool :=
  (pairsBelow n).foldl (fun adjacency pair =>
    if !adjacency pair.1 pair.2 then adjacency
    else if (others n pair.1 pair.2).any (independentGiven correlations n alpha pair.1 pair.2) then
      disconnect adjacency pair.1 pair.2
    else adjacency) adjacency

def skeleton : Nat → Nat → Bool :=
  testConditional correlations n alpha (testUnconditional correlations n alpha fun i j => i ≠ j)

end Skeleton

/-! ## Orientation -/

/-- The triples (z, i, j) such that z has edges to i and j, which have none between
them. -/
def vStructures (n : Nat) (adjacency : Nat → Nat → Bool) : List (Nat × Nat × Nat) :=
  (List.range n).flatMap fun z =>
    ((List.range n).filter fun i => i ≠ z ∧ adjacency i z).flatMap fun i =>
      ((above i n).filter fun j => j ≠ z ∧ adjacency j z ∧ !adjacency i j).map fun j => (z, i, j)

/-- Turn both edges of a triple to its middle. -/
def orientTriple (directed : Nat → Nat → Option Bool) (triple : Nat × Nat × Nat) :
    Nat → Nat → Option Bool :=
  let (z, i, j) := triple
  set (set (set (set directed i z (some true)) z i (some false)) j z (some true)) z j (some false)

def orient (n : Nat) (adjacency : Nat → Nat → Bool) : Nat → Nat → Option Bool :=
  (vStructures n adjacency).foldl orientTriple fun _ _ => none

/-- The edges in the order of their ends. Each pair of variables comes once. -/
def collect (names : List String) (adjacency : Nat → Nat → Bool)
    (directed : Nat → Nat → Option Bool) : List PcEdge :=
  ((pairsBelow names.length).filter fun pair => adjacency pair.1 pair.2).map fun pair =>
    let first := names.getD pair.1 ""
    let second := names.getD pair.2 ""
    match directed pair.1 pair.2, directed pair.2 pair.1 with
    | some true, some false => ⟨first, second, .directed⟩
    | some false, some true => ⟨second, first, .directed⟩
    | _, _ => ⟨first, second, .undirected⟩

section Discover

variable {F : Type} [Floating F] (names : List String) (correlations : List F) (alpha : F)

/-- The triples whose edges the discovery turns to their middle. -/
def oriented : List (Nat × Nat × Nat) :=
  if names.length < 2 ∨ correlations.length ≠ names.length * names.length then []
  else vStructures names.length (skeleton correlations names.length alpha)

def discover : List PcEdge :=
  if names.length < 2 ∨ correlations.length ≠ names.length * names.length then []
  else
    let adjacency := skeleton correlations names.length alpha
    collect names adjacency (orient names.length adjacency)

end Discover

/-! ## Which edges are left -/

section Left

theorem mem_above_iff {i j n : Nat} : j ∈ above i n ↔ i < j ∧ j < n := by
  rw [above, List.mem_range'_1]
  omega

theorem mem_pairsBelow_iff {i j n : Nat} : (i, j) ∈ pairsBelow n ↔ i < j ∧ j < n := by
  rw [pairsBelow, List.mem_flatMap]
  constructor
  · rintro ⟨first, -, isPair⟩
    rcases List.mem_map.mp isPair with ⟨second, isAbove, same⟩
    cases same
    exact mem_above_iff.mp isAbove
  · rintro ⟨less, below⟩
    have isAbove : j ∈ above i n := mem_above_iff.mpr ⟨less, below⟩
    exact ⟨i, List.mem_range.mpr (less.trans below), List.mem_map_of_mem isAbove⟩

/-- The pair is one of two numbers, in either order. -/
def joins (pair : Nat × Nat) (i j : Nat) : Bool := pair = (i, j) ∨ pair = (j, i)

theorem joins_comm (pair : Nat × Nat) (i j : Nat) : joins pair i j = joins pair j i :=
  decide_eq_decide.mpr Or.comm

theorem disconnect_eq (adjacency : Nat → Nat → Bool) (pair : Nat × Nat) (i j : Nat) :
    disconnect adjacency pair.1 pair.2 i j = (adjacency i j && !joins pair i j) := by
  have same : joins pair i j = true ↔
      i = pair.2 ∧ j = pair.1 ∨ i = pair.1 ∧ j = pair.2 := by
    rw [joins, decide_eq_true_eq, Prod.ext_iff, Prod.ext_iff]
    grind
  unfold disconnect set
  split
  · next first => rw [same.mpr (.inl first), Bool.not_true, Bool.and_false]
  · next notFirst =>
      split
      · next second => rw [same.mpr (.inr second), Bool.not_true, Bool.and_false]
      · next notSecond =>
          have apart : joins pair i j = false :=
            Bool.eq_false_iff.mpr fun joined => (same.mp joined).elim notFirst notSecond
          rw [apart, Bool.not_false, Bool.and_true]

/-- The edges of dropped pairs are lost, and no others. -/
theorem foldl_drop {drop : Nat → Nat → Bool}
    {step : (Nat → Nat → Bool) → Nat × Nat → Nat → Nat → Bool}
    (drops : ∀ adjacency, (∀ i j, adjacency i j = adjacency j i) → ∀ pair i j,
      step adjacency pair i j = (adjacency i j && !(drop pair.1 pair.2 && joins pair i j)))
    (pairs : List (Nat × Nat)) {adjacency : Nat → Nat → Bool}
    (symmetric : ∀ i j, adjacency i j = adjacency j i) (i j : Nat) :
    pairs.foldl step adjacency i j =
      (adjacency i j && !pairs.any fun pair => drop pair.1 pair.2 && joins pair i j) := by
  induction pairs generalizing adjacency with
  | nil => rw [List.foldl_nil, List.any_nil, Bool.not_false, Bool.and_true]
  | cons pair pairs induction =>
      have still : ∀ i j, step adjacency pair i j = step adjacency pair j i := by
        intro i j
        rw [drops _ symmetric, drops _ symmetric, symmetric i j, joins_comm]
      rw [List.foldl_cons, induction still, drops _ symmetric, List.any_cons, Bool.not_or,
        Bool.and_assoc]

/-- Of the pairs of numbers, one joins two different ones. -/
theorem any_joins (drop : Nat → Nat → Bool) {i j n : Nat} (different : i ≠ j) (isFirst : i < n)
    (isSecond : j < n) :
    ((pairsBelow n).any fun pair => drop pair.1 pair.2 && joins pair i j) =
      drop (min i j) (max i j) := by
  apply Bool.eq_iff_iff.mpr
  rw [List.any_eq_true]
  constructor
  · rintro ⟨⟨first, second⟩, isPair, both⟩
    rcases Bool.and_eq_true_iff.mp both with ⟨dropped, joined⟩
    have less := (mem_pairsBelow_iff.mp isPair).1
    rcases of_decide_eq_true joined with same | same
    · cases same
      rwa [min_eq_left less.le, max_eq_right less.le]
    · cases same
      rwa [min_eq_right less.le, max_eq_left less.le]
  · intro dropped
    refine ⟨(min i j, max i j), mem_pairsBelow_iff.mpr ⟨by omega, by omega⟩,
      Bool.and_eq_true_iff.mpr ⟨dropped, decide_eq_true ?_⟩⟩
    rcases Nat.lt_or_gt_of_ne different with less | greater
    · rw [min_eq_left less.le, max_eq_right less.le]
      exact .inl rfl
    · rw [min_eq_right greater.le, max_eq_left greater.le]
      exact .inr rfl

end Left

section Tests

variable {F : Type} [Floating F] (correlations : List F) (n : Nat) (alpha : F)

/-- Some test makes two variables independent, the smaller one first. -/
def removes (i j : Nat) : Bool :=
  independent correlations n alpha i j ||
    (others n i j).any (independentGiven correlations n alpha i j)

/-- Some test removes the edge between two variables. -/
def Removed (i j : Nat) : Prop := removes correlations n alpha (min i j) (max i j) = true

/-- The edge between two variables was removed by the test conditioned on a third one,
which is the first with that test. -/
def RemovedGiven (i j z : Nat) : Prop :=
  independent correlations n alpha i j = false ∧
    (others n i j).find? (independentGiven correlations n alpha i j) = some z

theorem symmetric_complete : ∀ i j : Nat, decide (i ≠ j) = decide (j ≠ i) :=
  fun _ _ => decide_eq_decide.mpr ne_comm

theorem testUnconditional_eq {adjacency : Nat → Nat → Bool}
    (symmetric : ∀ i j, adjacency i j = adjacency j i) (i j : Nat) :
    testUnconditional correlations n alpha adjacency i j =
      (adjacency i j && !(pairsBelow n).any fun pair =>
        independent correlations n alpha pair.1 pair.2 && joins pair i j) := by
  apply foldl_drop _ _ symmetric
  intro adjacency _ pair i j
  split
  · next dropped => rw [disconnect_eq, dropped, Bool.true_and]
  · next kept => rw [Bool.eq_false_iff.mpr kept, Bool.false_and, Bool.not_false, Bool.and_true]

theorem testConditional_eq {adjacency : Nat → Nat → Bool}
    (symmetric : ∀ i j, adjacency i j = adjacency j i) (i j : Nat) :
    testConditional correlations n alpha adjacency i j =
      (adjacency i j && !(pairsBelow n).any fun pair =>
        (others n pair.1 pair.2).any (independentGiven correlations n alpha pair.1 pair.2) &&
          joins pair i j) := by
  refine @foldl_drop (fun i j => (others n i j).any (independentGiven correlations n alpha i j))
    _ ?_ _ _ symmetric i j
  intro adjacency symmetric pair i j
  split
  · next missing =>
      -- An edge that is missing already is not dropped again.
      cases joined : joins pair i j with
      | false => rw [Bool.and_false, Bool.not_false, Bool.and_true]
      | true =>
          have gone : adjacency i j = false := by
            rw [Bool.not_eq_true'] at missing
            rcases of_decide_eq_true joined with same | same
            · rw [same] at missing
              exact missing
            · rw [same] at missing
              exact (symmetric i j).trans missing
          rw [gone, Bool.false_and]
  · split
    · next dropped => rw [disconnect_eq, dropped, Bool.true_and]
    · next kept => rw [Bool.eq_false_iff.mpr kept, Bool.false_and, Bool.not_false, Bool.and_true]

/-- The edges that are left are those that no test removes. -/
theorem skeleton_iff {i j : Nat} (different : i ≠ j) (isFirst : i < n) (isSecond : j < n) :
    skeleton correlations n alpha i j = true ↔ ¬Removed correlations n alpha i j := by
  have symmetric : ∀ i j, testUnconditional correlations n alpha (fun i j => i ≠ j) i j =
      testUnconditional correlations n alpha (fun i j => i ≠ j) j i := by
    intro i j
    rw [testUnconditional_eq _ _ _ symmetric_complete,
      testUnconditional_eq _ _ _ symmetric_complete, symmetric_complete]
    simp only [joins_comm _ i j]
  rw [skeleton, testConditional_eq _ _ _ symmetric, testUnconditional_eq _ _ _ symmetric_complete,
    any_joins _ different isFirst isSecond,
    any_joins (fun i j => (others n i j).any (independentGiven correlations n alpha i j)) different
      isFirst isSecond, decide_eq_true different, Bool.true_and, Removed, removes,
    Bool.not_eq_true, ← Bool.not_eq_true', Bool.not_or]

theorem mem_vStructures_iff {adjacency : Nat → Nat → Bool} {z i j : Nat} :
    (z, i, j) ∈ vStructures n adjacency ↔ (z < n ∧ i < j ∧ j < n) ∧ (i ≠ z ∧ j ≠ z) ∧
      adjacency i z = true ∧ adjacency j z = true ∧ adjacency i j = false := by
  simp only [vStructures, List.mem_flatMap, List.mem_filter, List.mem_map, List.mem_range,
    mem_above_iff, decide_eq_true_eq, Prod.mk.injEq, Bool.not_eq_true']
  constructor
  · rintro ⟨z, isMiddle, i, ⟨-, notFirst, toFirst⟩, j, ⟨⟨less, below⟩, notSecond, toSecond, none⟩,
      rfl, rfl, rfl⟩
    exact ⟨⟨isMiddle, less, below⟩, ⟨notFirst, notSecond⟩, toFirst, toSecond, none⟩
  · rintro ⟨⟨isMiddle, less, below⟩, ⟨notFirst, notSecond⟩, toFirst, toSecond, none⟩
    exact ⟨z, isMiddle, i, ⟨less.trans below, notFirst, toFirst⟩, j,
      ⟨⟨less, below⟩, notSecond, toSecond, none⟩, rfl, rfl, rfl⟩

variable {correlations n alpha}

theorem RemovedGiven.removed {i j z : Nat} (removed : RemovedGiven correlations n alpha i j z)
    (less : i < j) : Removed correlations n alpha i j := by
  rw [Removed, min_eq_left less.le, max_eq_right less.le, removes]
  apply Bool.or_eq_true_iff.mpr
  right
  exact List.any_eq_true.mpr ⟨z, List.mem_of_find?_eq_some removed.2, List.find?_some removed.2⟩

theorem RemovedGiven.other {i j z : Nat} (removed : RemovedGiven correlations n alpha i j z) :
    z < n ∧ z ≠ i ∧ z ≠ j := by
  have isOther := List.mem_of_find?_eq_some removed.2
  rw [others, List.mem_filter, List.mem_range, decide_eq_true_eq] at isOther
  exact isOther

end Tests

/-! ## Which edges are turned -/

/-- A turned edge leads to the middle of a triple from an end. -/
theorem mem_of_foldl_orientTriple (triples : List (Nat × Nat × Nat)) {i z : Nat}
    (turned : triples.foldl orientTriple (fun _ _ => none) i z = some true) :
    ∃ j, (z, i, j) ∈ triples ∨ (z, j, i) ∈ triples := by
  induction triples using List.reverseRecOn with
  | nil => cases turned
  | append_singleton triples triple induction =>
      rcases triple with ⟨middle, first, second⟩
      rw [List.foldl_append, List.foldl_cons, List.foldl_nil, orientTriple] at turned
      simp only [set] at turned
      split at turned
      · cases turned
      · split at turned
        · next isSecond =>
            rcases isSecond with ⟨rfl, rfl⟩
            exact ⟨first, .inr (List.mem_append_right _ List.mem_cons_self)⟩
        · split at turned
          · cases turned
          · split at turned
            · next isFirst =>
                rcases isFirst with ⟨rfl, rfl⟩
                exact ⟨second, .inl (List.mem_append_right _ List.mem_cons_self)⟩
            · rcases induction turned with ⟨j, isEarlier⟩
              exact ⟨j, isEarlier.imp (List.mem_append_left _) (List.mem_append_left _)⟩

/-- A directed edge of the result leads to the middle of an oriented triple. -/
theorem exists_oriented_of_mem_discover {F : Type} [Floating F] {names : List String}
    {correlations : List F} {alpha : F} {source target : String}
    (isEdge : ⟨source, target, .directed⟩ ∈ discover names correlations alpha) :
    ∃ z i j, ((z, i, j) ∈ oriented names correlations alpha ∨
        (z, j, i) ∈ oriented names correlations alpha) ∧
      names.getD i "" = source ∧ names.getD z "" = target := by
  unfold discover at isEdge
  unfold oriented
  split at isEdge
  · cases isEdge
  · next accepted =>
      rw [if_neg accepted]
      rcases List.mem_map.mp isEdge with ⟨⟨first, second⟩, -, same⟩
      dsimp only at same
      split at same
      · next toSecond _ =>
          cases same
          rcases mem_of_foldl_orientTriple _ toSecond with ⟨j, isTriple⟩
          exact ⟨second, first, j, isTriple, rfl, rfl⟩
      · next toFirst =>
          cases same
          rcases mem_of_foldl_orientTriple _ toFirst with ⟨j, isTriple⟩
          exact ⟨first, second, j, isTriple, rfl, rfl⟩
      · cases same

/-- The variables in the middle of oriented triples do not separate the others if and
only if, where the test given one variable removes an edge, some test removes an edge of
that variable to an end. -/
theorem oriented_collider_iff {F : Type} [Floating F] (names : List String)
    (correlations : List F) (alpha : F) :
    (∀ z i j, (z, i, j) ∈ oriented names correlations alpha →
        ¬RemovedGiven correlations names.length alpha i j z) ↔
      (correlations.length = names.length * names.length → ∀ i j z, i < j → j < names.length →
        RemovedGiven correlations names.length alpha i j z →
          Removed correlations names.length alpha i z ∨
            Removed correlations names.length alpha j z) := by
  unfold oriented
  split
  · next refused =>
      refine iff_of_true (fun _ _ _ isIn => nomatch isIn) fun sized i j z less below => ?_
      rcases refused with small | wrong
      · omega
      · exact absurd sized wrong
  · next accepted =>
      rw [not_or, not_not] at accepted
      rw [imp_iff_right accepted.2]
      constructor
      · intro apart i j z less below removed
        rcases removed.other with ⟨isMiddle, notFirst, notSecond⟩
        by_contra neither
        rcases not_or.mp neither with ⟨toFirst, toSecond⟩
        refine apart z i j ((mem_vStructures_iff _).mpr ?_) removed
        refine ⟨⟨isMiddle, less, below⟩, ⟨notFirst.symm, notSecond.symm⟩, ?_, ?_, ?_⟩
        · exact (skeleton_iff _ _ _ notFirst.symm (less.trans below) isMiddle).mpr toFirst
        · exact (skeleton_iff _ _ _ notSecond.symm below isMiddle).mpr toSecond
        · rw [← Bool.not_eq_true, skeleton_iff _ _ _ less.ne (less.trans below) below, not_not]
          exact removed.removed less
      · intro removes z i j isTriple removed
        rcases (mem_vStructures_iff _).mp isTriple with
          ⟨⟨isMiddle, less, below⟩, ⟨notFirst, notSecond⟩, toFirst, toSecond, -⟩
        rcases removes i j z less below removed with first | second
        · exact (skeleton_iff _ _ _ notFirst (less.trans below) isMiddle).mp toFirst first
        · exact (skeleton_iff _ _ _ notSecond below isMiddle).mp toSecond second

/-- Correlations of a chain from X over Y to Z. -/
def chainCorrelations : List ℚ :=
  [1, 9 / 10, 81 / 100, 9 / 10, 1, 9 / 10, 81 / 100, 9 / 10, 1]

/-- The test given Y removes the edge between X and Z, and yet the edges to Y are turned
to it. -/
theorem chain_oriented_as_collider :
    letI := Floating.rational
    (1, 0, 2) ∈ oriented ["X", "Y", "Z"] chainCorrelations (1 / 20) ∧
      RemovedGiven chainCorrelations 3 (1 / 20) 0 2 1 ∧
      discover ["X", "Y", "Z"] chainCorrelations (1 / 20) =
        [⟨"X", "Y", .directed⟩, ⟨"Z", "Y", .directed⟩] := by
  unfold RemovedGiven
  decide +kernel

end PcDiscovery

end FunDB.Scm
