import FunDB.Foundation.GraphSearch
import Mathlib.Data.List.Perm.Subperm
import Mathlib.Data.Set.Finite.List
import Mathlib.Logic.Function.Basic
import Mathlib.Order.WellFoundedSet

/-! # Topological sorting

Nodes are taken from a queue of those whose edges have all been taken away. -/

namespace FunDB.TopologicalSort

universe u

variable {Node : Type u} [DecidableEq Node]

/-! ## The algorithm -/

/-- Take one edge away for each child, and collect the nodes that lose their last
edge. -/
def settle : List Node → (Node → Nat) → (Node → Nat) × List Node
  | [], degree => (degree, [])
  | child :: rest, degree =>
      let lowered := Function.update degree child (degree child - 1)
      let settled := settle rest lowered
      (settled.1, if lowered child = 0 then child :: settled.2 else settled.2)

structure Progress (Node : Type u) where
  order : List Node
  queue : List Node
  degree : Node → Nat

def turn (arrange : List Node → List Node) (children : Node → List Node)
    (progress : Progress Node) : Progress Node :=
  match progress.queue with
  | [] => progress
  | node :: rest =>
      let settled := settle (children node) progress.degree
      ⟨progress.order ++ [node], rest ++ arrange settled.2, settled.1⟩

/-- Take nodes until the queue is empty, but at most so many. -/
def turns (arrange : List Node → List Node) (children : Node → List Node) :
    Nat → Progress Node → Progress Node
  | 0, progress => progress
  | count + 1, progress => turns arrange children count (turn arrange children progress)

/-! ## Edges taken away -/

section Settle

variable {children : List Node} {degree : Node → Nat}

theorem settle_degree (children : List Node) (degree : Node → Nat) (node : Node) :
    (settle children degree).1 node = degree node - children.count node := by
  induction children generalizing degree with
  | nil => rfl
  | cons child rest induction =>
      rw [settle, induction, List.count_cons]
      by_cases same : node = child
      · subst same
        rw [Function.update_self, if_pos (beq_self_eq_true node)]
        omega
      · rw [Function.update_of_ne same, if_neg (by simpa using Ne.symm same)]
        omega

theorem enough_lowered {child : Node} {rest : List Node}
    (enough : ∀ node, (child :: rest).count node ≤ degree node) (node : Node) :
    rest.count node ≤ Function.update degree child (degree child - 1) node := by
  have bound := enough node
  by_cases same : node = child
  · subst same
    rw [List.count_cons_self] at bound
    rw [Function.update_self]
    omega
  · rw [List.count_cons_of_ne (Ne.symm same)] at bound
    rw [Function.update_of_ne same]
    exact bound

/-- The nodes that lose their last edge are those with as many edges as places
among the children. -/
theorem mem_settle_iff (enough : ∀ node, children.count node ≤ degree node) (node : Node) :
    node ∈ (settle children degree).2 ↔ node ∈ children ∧ degree node = children.count node := by
  induction children generalizing degree with
  | nil => simp [settle]
  | cons child rest induction =>
      have below := enough_lowered enough
      have later := induction below
      by_cases same : node = child
      · subst same
        have first := enough node
        have lowered : Function.update degree node (degree node - 1) node = degree node - 1 :=
          Function.update_self ..
        rw [List.count_cons_self] at first ⊢
        rw [settle]
        split
        · next last =>
            have none := below node
            rw [last] at none
            rw [lowered] at last
            exact iff_of_true List.mem_cons_self ⟨List.mem_cons_self, by omega⟩
        · next more =>
            rw [later, lowered]
            rw [lowered] at more
            constructor
            · rintro ⟨-, equal⟩
              exact ⟨List.mem_cons_self, by omega⟩
            · rintro ⟨-, equal⟩
              exact ⟨List.count_pos_iff.mp (by omega), by omega⟩
      · have unchanged : Function.update degree child (degree child - 1) node = degree node :=
          Function.update_of_ne same ..
        have head : node ∈ child :: rest ↔ node ∈ rest := by simp [same]
        rw [head, List.count_cons_of_ne (Ne.symm same), ← unchanged, ← later, settle]
        split
        · simp [same]
        · rfl

theorem nodup_settle (enough : ∀ node, children.count node ≤ degree node) :
    (settle children degree).2.Nodup := by
  induction children generalizing degree with
  | nil => exact List.nodup_nil
  | cons child rest induction =>
      have below := enough_lowered enough
      rw [settle]
      split
      · next last =>
          refine List.nodup_cons.mpr ⟨fun isIn => ?_, induction below⟩
          rcases (mem_settle_iff below child).mp isIn with ⟨again, equal⟩
          rw [last] at equal
          exact absurd (List.count_pos_iff.mpr again) (by omega)
      · exact induction below

end Settle

/-! ## The graph -/

section Graph

variable (edges : List (Node × Node)) (nodes : List Node)

/-- The ends of the edges from a node. -/
def childrenOf (node : Node) : List Node :=
  (edges.filter (·.1 = node)).map Prod.snd

/-- How many edges to a node come from nodes that are not in a list. -/
def pending (done : List Node) (node : Node) : Nat :=
  edges.countP fun edge => edge.2 = node ∧ edge.1 ∉ done

/-- Every node comes after all nodes with edges to it. -/
def Sorted (order : List Node) : Prop :=
  ∀ before node after, order = before ++ node :: after →
    ∀ parent, (parent, node) ∈ edges → parent ∈ before

variable {edges}

theorem pending_eq_zero_iff {done : List Node} {node : Node} :
    pending edges done node = 0 ↔ ∀ parent, (parent, node) ∈ edges → parent ∈ done := by
  rw [pending, List.countP_eq_zero]
  constructor
  · intro none parent isEdge
    by_contra new
    exact none _ isEdge (by simpa using new)
  · rintro all ⟨parent, other⟩ isEdge counted
    simp only [decide_eq_true_eq] at counted
    rcases counted with ⟨rfl, new⟩
    exact new (all parent isEdge)

theorem pending_cons (edge : Node × Node) (done : List Node) (node : Node) :
    pending (edge :: edges) done node =
      pending edges done node + if edge.2 = node ∧ edge.1 ∉ done then 1 else 0 := by
  simp [pending, List.countP_cons]

theorem count_childrenOf_cons (edge : Node × Node) (parent node : Node) :
    (childrenOf (edge :: edges) parent).count node =
      (childrenOf edges parent).count node + if edge.1 = parent ∧ edge.2 = node then 1 else 0 := by
  by_cases own : edge.1 = parent
  · simp [childrenOf, own, List.count_cons]
  · simp [childrenOf, own]

/-- Each edge from a node that is done is taken away once. -/
theorem pending_append {done : List Node} {parent : Node} (new : parent ∉ done) (node : Node) :
    pending edges (done ++ [parent]) node + (childrenOf edges parent).count node =
      pending edges done node := by
  induction edges with
  | nil => rfl
  | cons edge edges induction =>
      rw [pending_cons, pending_cons, count_childrenOf_cons, ← induction]
      by_cases own : edge.1 = parent
      · simp [own, new]
        omega
      · simp [own]
        omega

/-! ## What every turn keeps -/

/-- What holds between two turns. -/
structure Valid (edges : List (Node × Node)) (nodes : List Node) (progress : Progress Node) :
    Prop where
  nodup : (progress.order ++ progress.queue).Nodup
  inside : progress.order ++ progress.queue ⊆ nodes
  degree : progress.degree = pending edges progress.order
  ready : ∀ node ∈ nodes, progress.degree node = 0 ↔ node ∈ progress.order ++ progress.queue
  sorted : Sorted edges progress.order

variable {nodes} {progress : Progress Node} {arrange : List Node → List Node}

omit [DecidableEq Node] in
theorem Sorted.append_singleton {order : List Node} {node : Node} (sorted : Sorted edges order)
    (parents : ∀ parent, (parent, node) ∈ edges → parent ∈ order) :
    Sorted edges (order ++ [node]) := by
  intro before other after split parent isEdge
  rcases List.eq_nil_or_concat after with rfl | ⟨after, final, rfl⟩
  · rcases List.append_inj' split rfl with ⟨rfl, same⟩
    cases same
    exact parents parent isEdge
  · rw [List.concat_eq_append, ← List.cons_append, ← List.append_assoc] at split
    exact sorted before other after (List.append_inj_left' split rfl) parent isEdge

/-- A turn keeps the order and the queue in step with the edges. -/
theorem Valid.turn (valid : Valid edges nodes progress)
    (children : ∀ edge ∈ edges, edge.2 ∈ nodes) (permutes : ∀ list, (arrange list).Perm list) :
    Valid edges nodes (turn arrange (childrenOf edges) progress) := by
  rcases progress with ⟨order, queue, degree⟩
  cases queue with
  | nil => exact valid
  | cons node rest =>
      have isReady : node ∈ order ++ node :: rest := by simp
      have new : node ∉ order := by
        intro old
        exact (List.nodup_append.mp valid.nodup).2.2 node old node List.mem_cons_self rfl
      have degrees : degree = pending edges order := valid.degree
      have parents : ∀ parent, (parent, node) ∈ edges → parent ∈ order := by
        apply pending_eq_zero_iff.mp
        rw [← degrees]
        exact (valid.ready node (valid.inside isReady)).mpr isReady
      have enough : ∀ other, (childrenOf edges node).count other ≤ degree other := by
        intro other
        rw [degrees, ← pending_append new]
        exact Nat.le_add_left _ _
      have lowered : (settle (childrenOf edges node) degree).1 = pending edges (order ++ [node]) := by
        funext other
        rw [settle_degree, degrees, ← pending_append new]
        omega
      have isNew : ∀ other, other ∈ arrange (settle (childrenOf edges node) degree).2 ↔
          degree other ≠ 0 ∧ (settle (childrenOf edges node) degree).1 other = 0 := by
        intro other
        rw [(permutes _).mem_iff, mem_settle_iff enough, settle_degree, ← List.count_pos_iff]
        have := enough other
        omega
      have added : order ++ [node] ++ (rest ++ arrange (settle (childrenOf edges node) degree).2) =
          order ++ node :: rest ++ arrange (settle (childrenOf edges node) degree).2 := by simp
      constructor
      · show (order ++ [node] ++ (rest ++ _)).Nodup
        rw [added]
        refine List.nodup_append.mpr ⟨valid.nodup, (permutes _).nodup_iff.mpr (nodup_settle enough), ?_⟩
        rintro other old _ isIn rfl
        exact ((isNew other).mp isIn).1 ((valid.ready other (valid.inside old)).mpr old)
      · show order ++ [node] ++ (rest ++ _) ⊆ nodes
        rw [added]
        apply List.append_subset.mpr ⟨valid.inside, fun other isIn => ?_⟩
        rcases (mem_settle_iff enough other).mp ((permutes _).subset isIn) with ⟨isChild, -⟩
        rcases List.mem_map.mp isChild with ⟨edge, isEdge, rfl⟩
        exact children edge (List.mem_of_mem_filter isEdge)
      · exact lowered
      · intro other isNode
        show (settle (childrenOf edges node) degree).1 other = 0 ↔
          other ∈ order ++ [node] ++ (rest ++ _)
        rw [added, List.mem_append, isNew, ← valid.ready other isNode, settle_degree]
        dsimp only
        omega
      · exact valid.sorted.append_singleton parents

theorem Valid.turns (valid : Valid edges nodes progress)
    (children : ∀ edge ∈ edges, edge.2 ∈ nodes) (permutes : ∀ list, (arrange list).Perm list)
    (count : Nat) : Valid edges nodes (turns arrange (childrenOf edges) count progress) := by
  induction count generalizing progress with
  | zero => exact valid
  | succ count induction => exact induction (valid.turn children permutes)

theorem turns_of_empty {children : Node → List Node} (empty : progress.queue = [])
    (count : Nat) : turns arrange children count progress = progress := by
  induction count with
  | zero => rfl
  | succ count induction =>
      have kept : turn arrange children progress = progress := by
        rw [turn, empty]
      rw [turns, kept, induction]

theorem queue_turns (valid : Valid edges nodes progress)
    (children : ∀ edge ∈ edges, edge.2 ∈ nodes) (permutes : ∀ list, (arrange list).Perm list)
    {count : Nat} (enough : nodes.length ≤ progress.order.length + count) :
    (turns arrange (childrenOf edges) count progress).queue = [] := by
  induction count generalizing progress with
  | zero =>
      have short := (valid.nodup.subperm valid.inside).length_le
      rw [List.length_append] at short
      have none : progress.queue.length = 0 := by omega
      exact List.eq_nil_of_length_eq_zero none
  | succ count induction =>
      cases same : progress.queue with
      | nil =>
          rw [turns_of_empty same]
          exact same
      | cons node rest =>
          apply induction (valid.turn children permutes)
          rw [turn, same, List.length_append, List.length_singleton]
          omega

/-- An order of as many nodes as there are has them all. -/
theorem Valid.perm (valid : Valid edges nodes progress)
    (all : progress.order.length = nodes.length) : progress.order.Perm nodes := by
  have distinct := (List.nodup_append.mp valid.nodup).1
  have inside : progress.order ⊆ nodes :=
    fun _ isIn => valid.inside (List.mem_append_left _ isIn)
  exact (distinct.subperm inside).perm_of_length_le (Nat.le_of_eq all.symm)

/-! ## The start -/

/-- Nothing is in the order, and the nodes without edges are in the queue. -/
theorem valid_start {queue : List Node} (distinct : nodes.Nodup)
    (queued : queue.Perm (nodes.filter fun node => pending edges [] node = 0)) :
    Valid edges nodes ⟨[], queue, pending edges []⟩ where
  nodup := queued.nodup_iff.mpr (distinct.filter _)
  inside _ isIn := List.mem_of_mem_filter (queued.subset isIn)
  degree := rfl
  ready node isNode := by
    rw [List.nil_append, queued.mem_iff, List.mem_filter]
    simp [isNode]
  sorted before node after split := absurd split.symm (by simp)

/-! ## Cycles -/

theorem mem_childrenOf_iff {parent node : Node} :
    node ∈ childrenOf edges parent ↔ (parent, node) ∈ edges := by
  rw [childrenOf, List.mem_map]
  constructor
  · rintro ⟨edge, isIn, rfl⟩
    rcases List.mem_filter.mp isIn with ⟨isEdge, own⟩
    rwa [← of_decide_eq_true own]
  · exact fun isEdge => ⟨(parent, node), List.mem_filter.mpr ⟨isEdge, decide_eq_true rfl⟩, rfl⟩

/-- Along the edges of a sorted graph nothing descends forever. -/
theorem Sorted.wellFounded {order : List Node} (sorted : Sorted edges order)
    (parents : ∀ edge ∈ edges, edge.1 ∈ order) :
    WellFounded (GraphSearch.Edge (childrenOf edges)) := by
  have inOrder : ∀ count before node after, before.length = count →
      order = before ++ node :: after → Acc (GraphSearch.Edge (childrenOf edges)) node := by
    intro count
    induction count using Nat.strongRecOn with
    | ind count induction =>
        rintro before node after rfl split
        refine ⟨node, fun parent isEdge => ?_⟩
        have earlier := sorted before node after split parent (mem_childrenOf_iff.mp isEdge)
        rcases List.append_of_mem earlier with ⟨first, second, rfl⟩
        rw [List.append_assoc] at split
        exact induction first.length (by simp) first parent _ rfl split
  constructor
  intro node
  refine ⟨node, fun parent isEdge => ?_⟩
  rcases List.append_of_mem (parents _ (mem_childrenOf_iff.mp isEdge)) with ⟨before, after, split⟩
  exact inOrder _ before parent after rfl split

theorem Sorted.acyclic {order : List Node} (sorted : Sorted edges order)
    (parents : ∀ edge ∈ edges, edge.1 ∈ order) : GraphSearch.Acyclic (childrenOf edges) :=
  fun node => (sorted.wellFounded parents).transGen.irrefl.irrefl node

/-- When the queue is empty, what is left has a parent that is left. -/
theorem Valid.exists_parent (valid : Valid edges nodes progress) (empty : progress.queue = [])
    {node : Node} (isNode : node ∈ nodes) (left : node ∉ progress.order) :
    ∃ parent, (parent, node) ∈ edges ∧ parent ∉ progress.order := by
  have ready := valid.ready node isNode
  rw [empty, List.append_nil, valid.degree, pending_eq_zero_iff] at ready
  by_contra none
  push Not at none
  exact left (ready.mp none)

theorem Valid.complete (valid : Valid edges nodes progress) (empty : progress.queue = [])
    (distinct : nodes.Nodup) (parents : ∀ edge ∈ edges, edge.1 ∈ nodes)
    (acyclic : GraphSearch.Acyclic (childrenOf edges)) :
    progress.order.length = nodes.length := by
  let Before := Relation.TransGen (GraphSearch.Edge (childrenOf edges))
  have order : IsStrictOrder Node Before := { irrefl := acyclic, trans := fun _ _ _ => .trans }
  have finite : {node | node ∈ nodes ∧ node ∉ progress.order}.Finite :=
    nodes.finite_toSet.subset fun _ left => left.1
  have all : nodes ⊆ progress.order := by
    intro node isNode
    by_contra left
    apply finite.wellFoundedOn.induction (r := Before) ⟨isNode, left⟩ (P := fun _ => False)
    rintro last ⟨isLast, stillLeft⟩ none
    rcases valid.exists_parent empty isLast stillLeft with ⟨parent, isEdge, parentLeft⟩
    exact none parent ⟨parents _ isEdge, parentLeft⟩ (.single (mem_childrenOf_iff.mpr isEdge))
  have inside : progress.order ⊆ nodes :=
    fun _ isIn => valid.inside (List.mem_append_left _ isIn)
  have noneTwice := (List.nodup_append.mp valid.nodup).1
  exact Nat.le_antisymm (noneTwice.subperm inside).length_le (distinct.subperm all).length_le

end Graph

end FunDB.TopologicalSort
