import Mathlib.Data.List.Basic
import Mathlib.Logic.Relation

/-! # Graph search

Depth-first search with one set of visited nodes for all branches, and edges
that keep a graph free of cycles. -/

namespace FunDB.GraphSearch

universe u

variable {Node : Type u}

/-! ## Graphs -/

/-- One node is a successor of the other. -/
def Edge (next : Node → List Node) (node other : Node) : Prop := other ∈ next node

def Reaches (next : Node → List Node) : Node → Node → Prop :=
  Relation.ReflTransGen (Edge next)

def Acyclic (next : Node → List Node) : Prop :=
  ∀ node, ¬Relation.TransGen (Edge next) node node

variable {next : Node → List Node} {target node : Node} {visited after : List Node} {fuel : Nat}

/-! ## Edges that close no cycle -/

/-- With one more edge, a way either was there or leads over that edge. -/
theorem reaches_of_extended {wider : Node → List Node} {start finish other : Node}
    (onlyNew : ∀ node successor, Edge wider node successor →
      Edge next node successor ∨ node = start ∧ successor = finish)
    (reaches : Reaches wider node other) :
    Reaches next node other ∨ Reaches next node start ∧ Reaches next finish other := by
  induction reaches with
  | refl => exact .inl .refl
  | tail _ isEdge induction =>
      rcases onlyNew _ _ isEdge with old | ⟨rfl, rfl⟩
      · exact induction.imp (·.tail old) fun both => ⟨both.1, both.2.tail old⟩
      · exact .inr ⟨induction.elim id And.left, .refl⟩

/-- An edge whose end does not reach its start closes no cycle. -/
theorem Acyclic.extend {wider : Node → List Node} {start finish : Node} (acyclic : Acyclic next)
    (onlyNew : ∀ node successor, Edge wider node successor →
      Edge next node successor ∨ node = start ∧ successor = finish)
    (apart : ¬Reaches next finish start) : Acyclic wider := by
  intro node cycle
  rcases Relation.TransGen.tail'_iff.mp cycle with ⟨last, reaches, isEdge⟩
  rcases onlyNew _ _ isEdge with old | ⟨rfl, rfl⟩
  · rcases reaches_of_extended onlyNew reaches with way | ⟨before, behind⟩
    · exact acyclic node (.tail' way old)
    · exact apart (behind.tail old |>.trans before)
  · rcases reaches_of_extended onlyNew reaches with way | ⟨before, -⟩
    · exact apart way
    · exact apart before

/-! ## The search -/

/-- Search from nodes in their order until one search succeeds. -/
def searchAny (search : List Node → Node → Option (Bool × List Node)) :
    List Node → List Node → Option (Bool × List Node)
  | visited, [] => some (false, visited)
  | visited, node :: rest =>
      match search visited node with
      | none => none
      | some (true, visited) => some (true, visited)
      | some (false, visited) => searchAny search visited rest

theorem exists_of_searchAny_true {step : List Node → Node → Option (Bool × List Node)}
    {nodes : List Node} (found : searchAny step visited nodes = some (true, after)) :
    ∃ node ∈ nodes, ∃ before after, step before node = some (true, after) := by
  fun_induction searchAny step visited nodes with
  | case1 => cases found
  | case2 => cases found
  | case3 visited node rest later ran => exact ⟨node, List.mem_cons_self, visited, later, ran⟩
  | case4 visited node rest later ran induction =>
      rcases induction found with ⟨other, isIn, ran⟩
      exact ⟨other, List.mem_cons_of_mem _ isIn, ran⟩

theorem exists_of_searchAny {step : List Node → Node → Option (Bool × List Node)}
    {nodes : List Node}
    (returns : ∀ node ∈ nodes, ∀ before, visited ⊆ before → ∃ found later,
      step before node = some (found, later) ∧ (found = false → before ⊆ later)) :
    ∃ result, searchAny step visited nodes = some result := by
  induction nodes generalizing visited with
  | nil => exact ⟨_, rfl⟩
  | cons node nodes induction =>
      rcases returns node List.mem_cons_self visited (List.Subset.refl _) with
        ⟨found, later, ran, kept⟩
      rw [searchAny, ran]
      cases found with
      | true => exact ⟨_, rfl⟩
      | false =>
          apply induction
          intro other isIn before more
          exact returns other (List.mem_cons_of_mem _ isIn) before
            (List.Subset.trans (kept rfl) more)

/-! ## What a search without success has seen -/

/-- The nodes that were added are closed under successors, up to all those seen,
and do not contain the target. -/
structure Explored (next : Node → List Node) (target : Node) (visited after : List Node) :
    Prop where
  kept : visited ⊆ after
  closed : ∀ node ∈ after, node ∉ visited → next node ⊆ after
  missing : target ∈ after → target ∈ visited

namespace Explored

theorem refl (visited : List Node) : Explored next target visited visited where
  kept := List.Subset.refl _
  closed _ isIn new := absurd isIn new
  missing := id

theorem trans {middle : List Node} (first : Explored next target visited middle)
    (second : Explored next target middle after) : Explored next target visited after where
  kept := List.Subset.trans first.kept second.kept
  closed node isIn new := by
    by_cases old : node ∈ middle
    · exact List.Subset.trans (first.closed node old new) second.kept
    · exact second.closed node isIn old
  missing isIn := first.missing (second.missing isIn)

end Explored

theorem explored_searchAny {step : List Node → Node → Option (Bool × List Node)}
    {nodes : List Node}
    (explored : ∀ node ∈ nodes, ∀ before after, step before node = some (false, after) →
      Explored next target before after ∧ node ∈ after)
    (failed : searchAny step visited nodes = some (false, after)) :
    Explored next target visited after ∧ nodes ⊆ after := by
  fun_induction searchAny step visited nodes with
  | case1 =>
      cases failed
      exact ⟨.refl _, List.nil_subset _⟩
  | case2 => cases failed
  | case3 => cases failed
  | case4 visited node rest later ran induction =>
      rcases explored node List.mem_cons_self _ _ ran with ⟨first, seen⟩
      rcases induction (fun other isIn => explored other (List.mem_cons_of_mem _ isIn)) failed with
        ⟨second, others⟩
      exact ⟨first.trans second, List.cons_subset.mpr ⟨second.kept seen, others⟩⟩

/-! ## The search from one node -/

variable [DecidableEq Node]

/-- Search for a target, with the nodes visited before and after. There is no
result if the fuel is used up. -/
def search (next : Node → List Node) (target : Node) :
    Nat → List Node → Node → Option (Bool × List Node)
  | 0, _, _ => none
  | fuel + 1, visited, node =>
      if node = target then some (true, visited)
      else if node ∈ visited then some (false, visited)
      else searchAny (search next target fuel) (node :: visited) (next node)

theorem reaches_of_search (found : search next target fuel visited node = some (true, after)) :
    Reaches next node target := by
  induction fuel generalizing visited node after with
  | zero => cases found
  | succ fuel induction =>
      rw [search] at found
      split at found
      · next same => exact same ▸ .refl
      · split at found
        · cases found
        · rcases exists_of_searchAny_true found with ⟨other, isNext, before, later, ran⟩
          exact .head isNext (induction ran)

theorem explored_search (failed : search next target fuel visited node = some (false, after)) :
    Explored next target visited after ∧ node ∈ after := by
  induction fuel generalizing visited node after with
  | zero => cases failed
  | succ fuel induction =>
      rw [search] at failed
      split at failed
      · cases failed
      · next different =>
          split at failed
          · next seen =>
              cases failed
              exact ⟨.refl _, seen⟩
          · next new =>
              rcases explored_searchAny (fun _ _ _ _ => induction) failed with ⟨explored, below⟩
              have isIn : node ∈ after := explored.kept List.mem_cons_self
              refine ⟨⟨fun other old => explored.kept (List.mem_cons_of_mem _ old), ?_, ?_⟩, isIn⟩
              · intro other otherIn otherNew
                by_cases same : other = node
                · exact same ▸ below
                · exact explored.closed other otherIn (List.not_mem_cons_of_ne_of_not_mem same otherNew)
              · intro targetIn
                rcases List.mem_cons.mp (explored.missing targetIn) with same | old
                · exact absurd same.symm different
                · exact old

/-- A search from no visited nodes that fails has not missed a way. -/
theorem not_reaches_of_search (failed : search next target fuel [] node = some (false, after)) :
    ¬Reaches next node target := by
  rcases explored_search failed with ⟨explored, isIn⟩
  have inside : ∀ other, Reaches next node other → other ∈ after := by
    intro other reaches
    induction reaches with
    | refl => exact isIn
    | tail _ isEdge induction => exact explored.closed _ induction List.not_mem_nil isEdge
  intro reaches
  cases explored.missing (inside target reaches)

/-! ## Termination -/

/-- How many nodes of a list are not visited. -/
def unvisited (nodes visited : List Node) : Nat :=
  (nodes.filter (· ∉ visited)).length

theorem unvisited_le {nodes : List Node} (more : visited ⊆ after) :
    unvisited nodes after ≤ unvisited nodes visited := by
  apply List.Sublist.length_le
  apply List.monotone_filter_right
  intro node new
  simp only [decide_eq_true_eq] at new ⊢
  exact fun old => new (more old)

theorem unvisited_cons_lt {nodes : List Node} (isNode : node ∈ nodes) (new : node ∉ visited) :
    unvisited nodes (node :: visited) < unvisited nodes visited := by
  have twice : nodes.filter (· ∉ node :: visited) =
      (nodes.filter (· ∉ visited)).filter (· ≠ node) := by
    rw [List.filter_filter]
    apply List.filter_congr
    intro other _
    simp [not_or]
  rw [unvisited, twice, unvisited, List.length_filter_lt_length_iff_exists]
  exact ⟨node, List.mem_filter.mpr ⟨isNode, by simpa using new⟩, by simp⟩

/-- The search returns if the fuel exceeds the number of nodes with successors
that it has not visited. -/
theorem exists_of_search {nodes : List Node} (all : ∀ node, next node ≠ [] → node ∈ nodes)
    (enough : unvisited nodes visited < fuel) :
    ∃ result, search next target fuel visited node = some result := by
  induction fuel generalizing visited node with
  | zero => omega
  | succ fuel induction =>
      rw [search]
      split
      · exact ⟨_, rfl⟩
      · split
        · exact ⟨_, rfl⟩
        · next new =>
            apply exists_of_searchAny
            intro other isNext before more
            have isNode : node ∈ nodes := all node (List.ne_nil_of_mem isNext)
            have fewer : unvisited nodes before < fuel :=
              Nat.lt_of_le_of_lt (unvisited_le more)
                (Nat.lt_of_lt_of_le (unvisited_cons_lt isNode new) (Nat.le_of_lt_succ enough))
            rcases induction fewer with ⟨⟨found, later⟩, ran⟩
            exact ⟨found, later, ran, fun failed => (explored_search (failed ▸ ran)).1.kept⟩

end FunDB.GraphSearch
