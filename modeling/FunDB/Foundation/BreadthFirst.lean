import FunDB.Foundation.StrongestWalks
import Mathlib.Algebra.Order.BigOperators.Group.List
import Mathlib.Algebra.Order.Group.Nat

/-! # Breadth-first search

Nodes in the order of their distance from a start. A node may be in the queue several
times, and counts as visited when it leaves the queue. -/

namespace FunDB.BreadthFirst

open StrongestWalks (Arrival Walk)

universe u v

variable {Node : Type u} {S : Type v}

/-! ## The nearest nodes -/

section Nearest

variable [Mul S] [One S]

/-- The nodes other than the start that walks of so many steps lead to, the nearer ones
first, each once with its distance and the strength of some shortest walk. -/
structure Nearest (next : Node → List (Node × S)) (start : Node) (maxDepth : Nat)
    (found : List (Arrival Node S)) : Prop where
  distinct : (found.map Arrival.node).Nodup
  nodes : ∀ node, node ∈ found.map Arrival.node ↔ node ≠ start ∧
    ∃ depth strength, 1 ≤ depth ∧ depth ≤ maxDepth ∧ Walk next start depth node strength
  walks : ∀ arrival ∈ found, Walk next start arrival.depth arrival.node arrival.strength
  shortest : ∀ arrival ∈ found, ∀ depth strength,
    Walk next start depth arrival.node strength → arrival.depth ≤ depth
  ordered : found.Pairwise fun first second => first.depth ≤ second.depth

end Nearest

/-! ## The search -/

structure Progress (Node : Type u) (S : Type v) where
  visited : List Node
  queue : List (Arrival Node S)
  result : List (Arrival Node S)

variable [DecidableEq Node]

section Search

variable [Mul S]

/-- The arrivals over the edges of a node to nodes that are not visited. -/
def onward (next : Node → List (Node × S)) (maxDepth : Nat) (visited : List Node)
    (arrival : Arrival Node S) : List (Arrival Node S) :=
  if arrival.depth < maxDepth then
    ((next arrival.node).filter fun edge => edge.1 ∉ visited).map fun edge =>
      ⟨edge.1, arrival.depth + 1, arrival.strength * edge.2⟩
  else []

def visit (next : Node → List (Node × S)) (maxDepth : Nat) (start : Node)
    (arrival : Arrival Node S) (progress : Progress Node S) : Progress Node S :=
  if arrival.node ∈ progress.visited then progress
  else
    let visited := arrival.node :: progress.visited
    ⟨visited, progress.queue ++ onward next maxDepth visited arrival,
      if arrival.node ≠ start then progress.result ++ [arrival] else progress.result⟩

/-- Take arrivals from the queue until it is empty. -/
def search (next : Node → List (Node × S)) (maxDepth : Nat) (start : Node) :
    Nat → Progress Node S → Option (List (Arrival Node S))
  | 0, _ => none
  | fuel + 1, progress =>
      match progress.queue with
      | [] => some progress.result
      | arrival :: rest =>
          search next maxDepth start fuel
            (visit next maxDepth start arrival { progress with queue := rest })

/-! ## Termination -/

/-- A bound on the turns that are left, where all edges start at some nodes. -/
def potential (next : Node → List (Node × S)) (nodes : List Node) (progress : Progress Node S) :
    Nat :=
  progress.queue.length +
    ((nodes.filter fun node => node ∉ progress.visited).map fun node => (next node).length).sum

variable {next : Node → List (Node × S)} {maxDepth : Nat} {start : Node}

theorem length_onward_le (visited : List Node) (arrival : Arrival Node S) :
    (onward next maxDepth visited arrival).length ≤ (next arrival.node).length := by
  unfold onward
  split
  · rw [List.length_map]
    exact List.length_filter_le _ _
  · exact Nat.zero_le _

omit [Mul S] in
/-- The edges of a visited node are not counted any more. -/
theorem sum_unvisited (nodes visited : List Node) (node : Node)
    (known : next node ≠ [] → node ∈ nodes) (unvisited : node ∉ visited) :
    (next node).length + ((nodes.filter fun other => other ∉ node :: visited).map fun other =>
        (next other).length).sum ≤
      ((nodes.filter fun other => other ∉ visited).map fun other => (next other).length).sum := by
  have smaller : ∀ nodes : List Node,
      ((nodes.filter fun other => other ∉ node :: visited).map fun other =>
          (next other).length).sum ≤
        ((nodes.filter fun other => other ∉ visited).map fun other => (next other).length).sum := by
    intro nodes
    apply List.Sublist.sum_le_sum _ fun _ _ => Nat.zero_le _
    apply List.Sublist.map
    apply List.monotone_filter_right
    intro other isNew
    simp only [List.mem_cons, not_or, decide_eq_true_eq] at isNew ⊢
    exact isNew.2
  by_cases isEnd : next node = []
  · rw [isEnd, List.length_nil, Nat.zero_add]
    exact smaller nodes
  · rcases List.append_of_mem (known isEnd) with ⟨before, after, rfl⟩
    have dropped : (node :: after).filter (fun other => other ∉ node :: visited) =
        after.filter fun other => other ∉ node :: visited := by
      simp
    have counted : (node :: after).filter (fun other => other ∉ visited) =
        node :: after.filter fun other => other ∉ visited := by
      simp [unvisited]
    have first := smaller before
    have second := smaller after
    rw [List.filter_append, List.filter_append, dropped, counted, List.map_append,
      List.map_append, List.map_cons, List.sum_append, List.sum_append, List.sum_cons]
    omega

theorem potential_visit {nodes : List Node} (known : ∀ node, next node ≠ [] → node ∈ nodes)
    (arrival : Arrival Node S) (progress : Progress Node S) :
    potential next nodes (visit next maxDepth start arrival progress) ≤
      potential next nodes progress := by
  unfold visit
  split
  · exact le_rfl
  · next unvisited =>
      have added : (onward next maxDepth (arrival.node :: progress.visited) arrival).length ≤
          (next arrival.node).length := length_onward_le _ _
      have counted := sum_unvisited nodes progress.visited arrival.node (known _) unvisited
      simp only [potential, List.length_append]
      omega

/-- With fuel above the potential a search ends, and what each turn keeps holds then. -/
theorem exists_search {nodes : List Node} (known : ∀ node, next node ≠ [] → node ∈ nodes)
    (Invariant : Progress Node S → Prop)
    (keeps : ∀ visited arrival rest result, Invariant ⟨visited, arrival :: rest, result⟩ →
      Invariant (visit next maxDepth start arrival ⟨visited, rest, result⟩))
    {fuel : Nat} {progress : Progress Node S} (initial : Invariant progress)
    (enough : potential next nodes progress < fuel) :
    ∃ visited result, search next maxDepth start fuel progress = some result ∧
      Invariant ⟨visited, [], result⟩ := by
  induction fuel generalizing progress with
  | zero => exact absurd enough (Nat.not_lt_zero _)
  | succ fuel induction =>
      rcases progress with ⟨visited, _ | ⟨arrival, rest⟩, result⟩
      · exact ⟨visited, result, rfl, initial⟩
      · apply induction (keeps visited arrival rest result initial)
        have bound : potential next nodes (visit next maxDepth start arrival
            ⟨visited, rest, result⟩) ≤ potential next nodes ⟨visited, rest, result⟩ :=
          potential_visit known arrival _
        simp only [potential, List.length_cons] at enough bound ⊢
        omega

end Search

/-! ## Nearest nodes -/

section Exactness

variable [Mul S] [One S]

/-- What a search has found: the arrivals that were visited, in their order, and those in
the queue. -/
structure Searched (next : Node → List (Node × S)) (maxDepth : Nat) (start : Node)
    (taken : List (Arrival Node S)) (progress : Progress Node S) : Prop where
  visited : ∀ node, node ∈ progress.visited ↔ node ∈ taken.map Arrival.node
  result : progress.result = taken.filter fun arrival => arrival.node ≠ start
  distinct : (taken.map Arrival.node).Nodup
  walks : ∀ arrival ∈ taken ++ progress.queue, arrival.depth ≤ maxDepth ∧
    Walk next start arrival.depth arrival.node arrival.strength
  ordered : (taken ++ progress.queue).Pairwise fun first second => first.depth ≤ second.depth
  close : ∀ first ∈ progress.queue, ∀ second ∈ progress.queue, second.depth ≤ first.depth + 1
  source : ∃ arrival ∈ taken ++ progress.queue, arrival.node = start ∧ arrival.depth ≤ 0
  followed : ∀ arrival ∈ taken, arrival.depth < maxDepth → ∀ edge ∈ next arrival.node,
    ∃ other ∈ taken ++ progress.queue, other.node = edge.1 ∧ other.depth ≤ arrival.depth + 1

variable {next : Node → List (Node × S)} {maxDepth : Nat} {start : Node}
variable {taken : List (Arrival Node S)}

theorem searched_start (next : Node → List (Node × S)) (maxDepth : Nat) (start : Node) :
    Searched next maxDepth start [] ⟨[], [⟨start, 0, 1⟩], []⟩ where
  visited _ := Iff.rfl
  result := rfl
  distinct := List.nodup_nil
  walks arrival isIn := by
    cases List.mem_singleton.mp isIn
    exact ⟨Nat.zero_le _, .nil⟩
  ordered := List.pairwise_singleton _ _
  close first isFirst second isSecond := by
    cases List.mem_singleton.mp isFirst
    cases List.mem_singleton.mp isSecond
    exact Nat.le_succ _
  source := ⟨_, List.mem_singleton_self _, rfl, le_rfl⟩
  followed _ isIn := nomatch isIn

/-- An arrival at a visited node can be dropped, because an arrival that is at least as
near was visited. -/
theorem Searched.drop {visited : List Node} {arrival : Arrival Node S}
    {rest result : List (Arrival Node S)}
    (searched : Searched next maxDepth start taken ⟨visited, arrival :: rest, result⟩)
    (again : arrival.node ∈ visited) :
    Searched next maxDepth start taken ⟨visited, rest, result⟩ := by
  have remains : (taken ++ rest).Sublist (taken ++ arrival :: rest) :=
    (List.sublist_cons_self arrival rest).append_left taken
  have replaced : ∀ node depth,
      (∃ other ∈ taken ++ arrival :: rest, other.node = node ∧ other.depth ≤ depth) →
        ∃ other ∈ taken ++ rest, other.node = node ∧ other.depth ≤ depth := by
    rintro node depth ⟨other, isIn, sameNode, near⟩
    rcases List.mem_append.mp isIn with isTaken | isQueued
    · exact ⟨other, List.mem_append_left _ isTaken, sameNode, near⟩
    · rcases List.mem_cons.mp isQueued with rfl | isRest
      · rcases List.mem_map.mp ((searched.visited _).mp again) with ⟨earlier, isEarlier, same⟩
        have before : earlier.depth ≤ other.depth :=
          (List.pairwise_append.mp searched.ordered).2.2 earlier isEarlier other isQueued
        exact ⟨earlier, List.mem_append_left _ isEarlier, same.trans sameNode,
          before.trans near⟩
      · exact ⟨other, List.mem_append_right _ isRest, sameNode, near⟩
  exact {
    visited := searched.visited
    result := searched.result
    distinct := searched.distinct
    walks := fun other isIn => searched.walks other (remains.subset isIn)
    ordered := searched.ordered.sublist remains
    close := fun first isFirst second isSecond => searched.close first
      (List.mem_cons_of_mem _ isFirst) second (List.mem_cons_of_mem _ isSecond)
    source := replaced _ _ searched.source
    followed := fun other isTaken shallow edge isEdge =>
      replaced _ _ (searched.followed other isTaken shallow edge isEdge) }

omit [One S] in
theorem mem_onward_iff {visited : List Node} {arrival other : Arrival Node S} :
    other ∈ onward next maxDepth visited arrival ↔ arrival.depth < maxDepth ∧
      ∃ edge ∈ next arrival.node, edge.1 ∉ visited ∧
        other = ⟨edge.1, arrival.depth + 1, arrival.strength * edge.2⟩ := by
  unfold onward
  split
  · next shallow =>
      rw [List.mem_map, and_iff_right shallow]
      apply exists_congr
      intro edge
      rw [List.mem_filter, decide_eq_true_eq, and_assoc]
      exact and_congr_right fun _ => and_congr_right fun _ => eq_comm
  · next deep => exact iff_of_false List.not_mem_nil fun both => deep both.1

omit [One S] in
theorem depth_of_mem_onward {visited : List Node} {arrival other : Arrival Node S}
    (isNew : other ∈ onward next maxDepth visited arrival) :
    other.depth = arrival.depth + 1 := by
  rcases mem_onward_iff.mp isNew with ⟨_, edge, _, _, rfl⟩
  rfl

section OneDeeper

variable {visited : List Node} {arrival : Arrival Node S} {rest result more : List (Arrival Node S)}
variable (searched : Searched next maxDepth start taken ⟨visited, arrival :: rest, result⟩)
variable (deeper : ∀ other ∈ more, other.depth = arrival.depth + 1)

include searched deeper

/-- Arrivals one deeper than the first of the queue go to its end. -/
theorem Searched.ordered_append :
    (taken ++ arrival :: rest ++ more).Pairwise fun first second =>
      first.depth ≤ second.depth := by
  have parts := List.pairwise_append.mp searched.ordered
  apply List.pairwise_append.mpr
  refine ⟨searched.ordered, ?_, ?_⟩
  · apply List.pairwise_of_forall_mem_list
    intro one isOne other isOther
    rw [deeper one isOne, deeper other isOther]
  · intro other isOld new isNew
    rw [deeper new isNew]
    rcases List.mem_append.mp isOld with isTaken | isQueued
    · exact (parts.2.2 other isTaken arrival List.mem_cons_self).trans (Nat.le_succ _)
    · exact searched.close arrival List.mem_cons_self other isQueued

theorem Searched.close_append :
    ∀ first ∈ rest ++ more, ∀ second ∈ rest ++ more, second.depth ≤ first.depth + 1 := by
  intro one isOne other isOther
  have parts := List.pairwise_append.mp searched.ordered
  have atLeast : arrival.depth ≤ one.depth := by
    rcases List.mem_append.mp isOne with isRest | isNew
    · exact (List.pairwise_cons.mp parts.2.1).1 one isRest
    · exact (deeper one isNew).symm ▸ Nat.le_succ _
  have atMost : other.depth ≤ arrival.depth + 1 := by
    rcases List.mem_append.mp isOther with isRest | isNew
    · exact searched.close arrival List.mem_cons_self other (List.mem_cons_of_mem _ isRest)
    · exact (deeper other isNew).le
  omega

end OneDeeper

/-- A node that is visited for the first time is at its distance. -/
theorem Searched.take {visited : List Node} {arrival : Arrival Node S}
    {rest result : List (Arrival Node S)}
    (searched : Searched next maxDepth start taken ⟨visited, arrival :: rest, result⟩)
    (first : arrival.node ∉ visited) :
    Searched next maxDepth start (taken ++ [arrival])
      (visit next maxDepth start arrival ⟨visited, rest, result⟩) := by
  have visiting : visit next maxDepth start arrival ⟨visited, rest, result⟩ =
      ⟨arrival.node :: visited, rest ++ onward next maxDepth (arrival.node :: visited) arrival,
        if arrival.node ≠ start then result ++ [arrival] else result⟩ := if_neg first
  have own : arrival ∈ taken ++ arrival :: rest := by simp
  have same : ∀ more : List (Arrival Node S),
      taken ++ [arrival] ++ (rest ++ more) = taken ++ arrival :: rest ++ more := by
    intro more
    simp
  rw [visiting]
  exact {
    visited := by
      intro node
      rw [List.mem_cons, searched.visited, List.map_append, List.mem_append, List.map_singleton,
        List.mem_singleton]
      exact Or.comm
    result := by
      have sofar : result = taken.filter fun arrival => arrival.node ≠ start := searched.result
      rw [List.filter_append, ← sofar]
      by_cases isStart : arrival.node = start
      · simp [isStart]
      · simp [isStart]
    distinct := by
      rw [List.map_append, List.map_singleton, List.nodup_append_comm]
      exact searched.distinct.cons fun isTaken => first ((searched.visited _).mpr isTaken)
    walks := by
      intro other isIn
      rw [same] at isIn
      rcases List.mem_append.mp isIn with isOld | isNew
      · exact searched.walks other isOld
      · rcases mem_onward_iff.mp isNew with ⟨shallow, edge, isEdge, _, rfl⟩
        exact ⟨shallow, (searched.walks arrival own).2.step isEdge⟩
    ordered := by
      rw [same]
      exact searched.ordered_append fun _ => depth_of_mem_onward
    close := searched.close_append fun _ => depth_of_mem_onward
    source := by
      rcases searched.source with ⟨other, isIn, found⟩
      exact ⟨other, (same _).symm ▸ List.mem_append_left _ isIn, found⟩
    followed := by
      intro other isTaken shallow edge isEdge
      dsimp only
      rw [same]
      rcases List.mem_append.mp isTaken with isOld | isNow
      · rcases searched.followed other isOld shallow edge isEdge with ⟨end_, isIn, found⟩
        exact ⟨end_, List.mem_append_left _ isIn, found⟩
      · cases List.mem_singleton.mp isNow
        by_cases again : edge.1 ∈ arrival.node :: visited
        · -- The end was visited before, so it is at least as near as this node.
          rcases List.mem_cons.mp again with isSelf | isVisited
          · exact ⟨arrival, List.mem_append_left _ own, isSelf.symm, Nat.le_succ _⟩
          · rcases List.mem_map.mp ((searched.visited _).mp isVisited) with
              ⟨earlier, isEarlier, sameNode⟩
            have before : earlier.depth ≤ arrival.depth :=
              (List.pairwise_append.mp searched.ordered).2.2 earlier isEarlier arrival
                List.mem_cons_self
            exact ⟨earlier, List.mem_append_left _ (List.mem_append_left _ isEarlier), sameNode,
              before.trans (Nat.le_succ _)⟩
        · have isNew := mem_onward_iff.mpr ⟨shallow, edge, isEdge, again, rfl⟩
          exact ⟨_, List.mem_append_right _ isNew, rfl, le_rfl⟩ }

theorem Searched.visit {visited : List Node} {arrival : Arrival Node S}
    {rest result : List (Arrival Node S)}
    (searched : Searched next maxDepth start taken ⟨visited, arrival :: rest, result⟩) :
    ∃ taken, Searched next maxDepth start taken
      (visit next maxDepth start arrival ⟨visited, rest, result⟩) := by
  by_cases again : arrival.node ∈ visited
  · have unchanged : BreadthFirst.visit next maxDepth start arrival ⟨visited, rest, result⟩ =
        ⟨visited, rest, result⟩ := if_pos again
    exact ⟨taken, unchanged.symm ▸ searched.drop again⟩
  · exact ⟨_, searched.take again⟩

/-- When the queue is empty, a visited arrival is at least as near as any walk. -/
theorem Searched.reaches {visited : List Node} {result : List (Arrival Node S)}
    (searched : Searched next maxDepth start taken ⟨visited, [], result⟩) {depth : Nat}
    {node : Node} {strength : S} (walk : Walk next start depth node strength)
    (within : depth ≤ maxDepth) :
    ∃ arrival ∈ taken, arrival.node = node ∧ arrival.depth ≤ depth := by
  have atEnd : taken ++ ([] : List (Arrival Node S)) = taken := List.append_nil taken
  induction walk with
  | nil =>
      have source := searched.source
      rwa [atEnd] at source
  | @step depth before strength edge walk isNext induction =>
      rcases induction (Nat.le_of_succ_le within) with ⟨arrival, isTaken, rfl, near⟩
      have followed := searched.followed arrival isTaken (near.trans_lt within) edge isNext
      rw [atEnd] at followed
      rcases followed with ⟨other, isOther, sameNode, close⟩
      exact ⟨other, isOther, sameNode, close.trans (Nat.succ_le_succ near)⟩

theorem Searched.nearest {visited : List Node} {result : List (Arrival Node S)}
    (searched : Searched next maxDepth start taken ⟨visited, [], result⟩) :
    Nearest next start maxDepth result := by
  have isResult : result = taken.filter fun arrival => arrival.node ≠ start := searched.result
  have mem_result : ∀ arrival, arrival ∈ result ↔ arrival ∈ taken ∧ arrival.node ≠ start := by
    intro arrival
    rw [isResult, List.mem_filter, decide_eq_true_eq]
  have walks : ∀ arrival ∈ taken, arrival.depth ≤ maxDepth ∧
      Walk next start arrival.depth arrival.node arrival.strength := fun arrival isIn =>
    searched.walks arrival (List.mem_append_left _ isIn)
  have sublist : result.Sublist taken := isResult ▸ List.filter_sublist
  exact {
    distinct := searched.distinct.sublist (sublist.map Arrival.node)
    nodes := by
      intro node
      rw [List.mem_map]
      constructor
      · rintro ⟨arrival, isIn, rfl⟩
        rcases (mem_result arrival).mp isIn with ⟨isTaken, notStart⟩
        rcases walks arrival isTaken with ⟨within, walk⟩
        refine ⟨notStart, arrival.depth, arrival.strength, ?_, within, walk⟩
        apply Nat.one_le_iff_ne_zero.mpr
        intro none
        rw [none] at walk
        exact notStart walk.eq_start
      · rintro ⟨notStart, depth, strength, -, within, walk⟩
        rcases searched.reaches walk within with ⟨arrival, isTaken, rfl, -⟩
        exact ⟨arrival, (mem_result arrival).mpr ⟨isTaken, notStart⟩, rfl⟩
    walks := fun arrival isIn => (walks arrival (sublist.subset isIn)).2
    shortest := by
      intro arrival isIn depth strength walk
      have isTaken := sublist.subset isIn
      by_cases within : depth ≤ maxDepth
      · rcases searched.reaches walk within with ⟨other, isOther, sameNode, near⟩
        cases List.inj_on_of_nodup_map searched.distinct isOther isTaken sameNode
        exact near
      · exact (walks arrival isTaken).1.trans (Nat.le_of_not_le within)
    ordered := by
      have ordered := searched.ordered
      rw [List.append_nil] at ordered
      exact ordered.sublist sublist }

/-- With enough fuel a search ends with the nearest nodes. -/
theorem exists_nearest {nodes : List Node} (known : ∀ node, next node ≠ [] → node ∈ nodes)
    (maxDepth : Nat) (start : Node) {fuel : Nat}
    (enough : (nodes.map fun node => (next node).length).sum + 1 < fuel) :
    ∃ found, search next maxDepth start fuel ⟨[], [⟨start, 0, 1⟩], []⟩ = some found ∧
      Nearest next start maxDepth found := by
  have bound : potential next nodes ⟨[], [⟨start, 0, (1 : S)⟩], []⟩ < fuel := by
    have all : (nodes.filter fun node => node ∉ ([] : List Node)) = nodes := by simp
    rw [potential, all, List.length_singleton]
    omega
  rcases exists_search known
      (fun progress => ∃ taken, Searched next maxDepth start taken progress)
      (fun _ _ _ _ invariant => invariant.elim fun _ searched => searched.visit)
      ⟨[], searched_start next maxDepth start⟩ bound with ⟨visited, found, ran, taken, searched⟩
  exact ⟨found, ran, searched.nearest⟩

end Exactness

end FunDB.BreadthFirst
