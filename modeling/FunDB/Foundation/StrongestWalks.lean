import FunDB.Foundation.Buckets
import FunDB.Foundation.Walks
import Mathlib.Algebra.GroupWithZero.Nat
import Mathlib.Order.Lattice

/-! # The search for strongest walks

A search of a graph with strengths, up to a depth. It keeps the best strength at which
each node was reached, and goes on only from nodes that it reached at a better one.
What is pending may be a stack or a queue. -/

namespace FunDB.StrongestWalks

universe u v

variable {Node : Type u} {S : Type v}

/-! ## The search -/

/-- A node that was reached, at a depth and a strength. -/
structure Arrival (Node : Type u) (S : Type v) where
  node : Node
  depth : Nat
  strength : S

structure Search (Node : Type u) (S : Type v) where
  best : Dict Node S
  pending : List (Arrival Node S)

section Search

variable [DecidableEq Node] [LinearOrder S] [Mul S]

def onTop (pending : List (Arrival Node S)) (arrival : Arrival Node S) : List (Arrival Node S) :=
  arrival :: pending

def atEnd (pending : List (Arrival Node S)) (arrival : Arrival Node S) : List (Arrival Node S) :=
  pending ++ [arrival]

variable (push : List (Arrival Node S) → Arrival Node S → List (Arrival Node S))
variable (next : Node → List (Node × S)) (maxDepth : Nat)

/-- Go over an edge. What it leads to is pending if it was not reached as strongly. -/
def relax (current : Arrival Node S) (search : Search Node S) (edge : Node × S) :
    Search Node S :=
  let strength := current.strength * edge.2
  if ∀ best ∈ search.best.lookup edge.1, best < strength then
    { best := search.best.insert edge.1 strength
      pending := push search.pending ⟨edge.1, current.depth + 1, strength⟩ }
  else search

/-- Go over the edges of a node, unless it is too deep. -/
def expand (current : Arrival Node S) (search : Search Node S) : Search Node S :=
  if maxDepth ≤ current.depth then search
  else (next current.node).foldl (relax push current) search

/-- Take what is pending until there is nothing left. -/
def explore : Nat → Search Node S → Option (Dict Node S)
  | 0, _ => none
  | fuel + 1, search =>
      match search.pending with
      | [] => some search.best
      | current :: rest =>
          explore fuel (expand push next maxDepth current { search with pending := rest })

/-- How many arrivals there can be from a node on, with some depth left. -/
def visits (next : Node → List (Node × S)) : Nat → Node → Nat
  | 0, _ => 1
  | depth + 1, node => 1 + ((next node).map fun edge => visits next depth edge.1).sum

/-- The best strengths of all nodes that are reached from a start. -/
def reach [One S] (start : Node) : Option (List (Node × S)) :=
  (explore push next maxDepth (visits next maxDepth start + 1) ⟨∅, [⟨start, 0, 1⟩]⟩).map
    fun best => best.entries.map fun entry => (entry.1, entry.2)

/-! ## Termination -/

/-- The arrival is added to what is pending, at any place. -/
def Adds : Prop := ∀ pending arrival, (push pending arrival).Perm (arrival :: pending)

omit [DecidableEq Node] [LinearOrder S] [Mul S] in
theorem adds_onTop : Adds (@onTop Node S) := fun _ _ => .refl _

omit [DecidableEq Node] [LinearOrder S] [Mul S] in
theorem adds_atEnd : Adds (@atEnd Node S) :=
  fun pending arrival => List.perm_append_singleton arrival pending

def potential (pending : List (Arrival Node S)) : Nat :=
  (pending.map fun arrival => visits next (maxDepth - arrival.depth) arrival.node).sum

variable {push next maxDepth} {current : Arrival Node S} {search : Search Node S}

theorem potential_relax (adds : Adds push) (edge : Node × S) :
    potential next maxDepth (relax push current search edge).pending ≤
      potential next maxDepth search.pending +
        visits next (maxDepth - (current.depth + 1)) edge.1 := by
  unfold relax
  dsimp only
  split
  · have added := (adds search.pending ⟨edge.1, current.depth + 1, current.strength * edge.2⟩).map
      fun arrival => visits next (maxDepth - arrival.depth) arrival.node
    rw [potential, added.sum_nat, List.map_cons, List.sum_cons, potential]
    dsimp only
    omega
  · exact Nat.le_add_right _ _

theorem potential_relaxes (adds : Adds push) (edges : List (Node × S)) :
    potential next maxDepth (edges.foldl (relax push current) search).pending ≤
      potential next maxDepth search.pending +
        (edges.map fun edge => visits next (maxDepth - (current.depth + 1)) edge.1).sum := by
  induction edges generalizing search with
  | nil => exact Nat.le_refl _
  | cons edge edges induction =>
      have first : potential next maxDepth (relax push current search edge).pending ≤ _ :=
        potential_relax adds edge
      have rest : potential next maxDepth
          (edges.foldl (relax push current) (relax push current search edge)).pending ≤ _ :=
        induction
      rw [List.foldl_cons, List.map_cons, List.sum_cons]
      omega

omit [DecidableEq Node] [LinearOrder S] [Mul S] in
theorem visits_pos (depth : Nat) (node : Node) : 0 < visits next depth node := by
  cases depth with
  | zero => exact Nat.one_pos
  | succ depth =>
      rw [visits]
      omega

theorem potential_expand (adds : Adds push) (best : Dict Node S) (rest : List (Arrival Node S)) :
    potential next maxDepth (expand push next maxDepth current ⟨best, rest⟩).pending <
      potential next maxDepth (current :: rest) := by
  have popped : potential next maxDepth (current :: rest) =
      visits next (maxDepth - current.depth) current.node + potential next maxDepth rest := by
    rw [potential, List.map_cons, List.sum_cons, potential]
  have positive : 0 < visits next (maxDepth - current.depth) current.node := visits_pos _ _
  unfold expand
  rw [popped]
  split
  · dsimp only
    omega
  · next within =>
      have enough : maxDepth - current.depth = maxDepth - (current.depth + 1) + 1 := by omega
      have relaxed : potential next maxDepth
          ((next current.node).foldl (relax push current) ⟨best, rest⟩).pending ≤ _ :=
        potential_relaxes adds _
      rw [enough, visits]
      dsimp only at relaxed ⊢
      omega

/-- With fuel above the potential a search ends, and what each step keeps holds then.
What was taken is remembered. -/
theorem exists_explore (Invariant : List (Arrival Node S) → Search Node S → Prop)
    (adds : Adds push)
    (kept : ∀ taken best current rest, Invariant taken ⟨best, current :: rest⟩ →
      Invariant (current :: taken) (expand push next maxDepth current ⟨best, rest⟩))
    {fuel : Nat} {taken : List (Arrival Node S)} (initial : Invariant taken search)
    (enough : potential next maxDepth search.pending < fuel) :
    ∃ all best, explore push next maxDepth fuel search = some best ∧ Invariant all ⟨best, []⟩ := by
  induction fuel generalizing taken search with
  | zero => omega
  | succ fuel induction =>
      rcases search with ⟨best, pending⟩
      cases pending with
      | nil => exact ⟨taken, best, rfl, initial⟩
      | cons current rest =>
          apply induction (kept taken best current rest initial)
          have less : potential next maxDepth
              (expand push next maxDepth current ⟨best, rest⟩).pending < _ :=
            potential_expand adds best rest
          dsimp only at enough
          omega

/-- What holds at the start and what each step keeps holds of the strengths found. -/
theorem exists_reach [One S] (Invariant : List (Arrival Node S) → Search Node S → Prop)
    (adds : Adds push)
    (kept : ∀ taken best current rest, Invariant taken ⟨best, current :: rest⟩ →
      Invariant (current :: taken) (expand push next maxDepth current ⟨best, rest⟩))
    {start : Node} (initial : Invariant [] ⟨∅, [⟨start, 0, 1⟩]⟩) :
    ∃ all best, reach push next maxDepth start =
        some (best.entries.map fun entry => (entry.1, entry.2)) ∧
      Invariant all ⟨best, []⟩ := by
  have single : potential next maxDepth [⟨start, 0, (1 : S)⟩] = visits next maxDepth start := by
    simp [potential]
  have enough : potential next maxDepth [⟨start, 0, (1 : S)⟩] < visits next maxDepth start + 1 :=
    single ▸ Nat.lt_succ_self _
  rcases exists_explore Invariant adds kept initial enough with ⟨all, best, ran, holds⟩
  exact ⟨all, best, by rw [reach, ran, Option.map_some], holds⟩

end Search

/-! ## What a search has seen -/

section Traced

variable [DecidableEq Node] [LinearOrder S] [Monoid S]
variable {push : List (Arrival Node S) → Arrival Node S → List (Arrival Node S)}
variable {next : Node → List (Node × S)} {start : Node} {maxDepth : Nat}
variable {taken : List (Arrival Node S)} {search : Search Node S} {current : Arrival Node S}

def Known (taken : List (Arrival Node S)) (search : Search Node S) (arrival : Arrival Node S) :
    Prop :=
  arrival ∈ taken ∨ arrival ∈ search.pending

/-- Every arrival is by a walk, and the best strengths are those of arrivals. -/
structure Traced (next : Node → List (Node × S)) (start : Node) (maxDepth : Nat)
    (taken : List (Arrival Node S)) (search : Search Node S) : Prop where
  root : Known taken search ⟨start, 0, 1⟩
  walks : ∀ arrival, Known taken search arrival →
    Walk next start arrival.depth arrival.node arrival.strength ∧ arrival.depth ≤ maxDepth
  recorded : ∀ node, ∀ best ∈ search.best.lookup node, ∃ arrival, Known taken search arrival ∧
    arrival.node = node ∧ arrival.strength = best ∧ 1 ≤ arrival.depth
  kept : ∀ arrival, Known taken search arrival → 1 ≤ arrival.depth →
    ∃ best ∈ search.best.lookup arrival.node, arrival.strength ≤ best

/-- An edge that is no better changes nothing. Over a better one there is an arrival. -/
theorem relax_cases (adds : Adds push) (current : Arrival Node S) (search : Search Node S)
    (edge : Node × S) :
    (∃ best ∈ search.best.lookup edge.1, current.strength * edge.2 ≤ best) ∧
        relax push current search edge = search ∨
      (∀ best ∈ search.best.lookup edge.1, best < current.strength * edge.2) ∧
        (relax push current search edge).best =
          search.best.insert edge.1 (current.strength * edge.2) ∧
        (relax push current search edge).pending.Perm
          (⟨edge.1, current.depth + 1, current.strength * edge.2⟩ :: search.pending) := by
  unfold relax
  dsimp only
  split
  · next better => exact .inr ⟨better, rfl, adds _ _⟩
  · next known =>
      push Not at known
      exact .inl ⟨known, rfl⟩

theorem known_relax_iff (adds : Adds push) {edge : Node × S} {arrival : Arrival Node S}
    (better : ∀ best ∈ search.best.lookup edge.1, best < current.strength * edge.2) :
    Known taken (relax push current search edge) arrival ↔
      Known taken search arrival ∨
        arrival = ⟨edge.1, current.depth + 1, current.strength * edge.2⟩ := by
  unfold relax Known
  dsimp only
  rw [if_pos better, (adds _ _).mem_iff, List.mem_cons]
  tauto

theorem Traced.relax (traced : Traced next start maxDepth taken search) (adds : Adds push)
    (walk : Walk next start current.depth current.node current.strength)
    (within : current.depth < maxDepth) {edge : Node × S} (isNext : edge ∈ next current.node) :
    Traced next start maxDepth taken (relax push current search edge) := by
  rcases relax_cases adds current search edge with ⟨-, same⟩ | ⟨better, newBest, -⟩
  · exact same.symm ▸ traced
  · have known (arrival : Arrival Node S) :
        Known taken _ arrival ↔ Known taken search arrival ∨ arrival = _ :=
      known_relax_iff adds better
    refine ⟨(known _).mpr (.inl traced.root), ?_, ?_, ?_⟩
    · intro arrival isKnown
      rcases (known arrival).mp isKnown with old | rfl
      · exact traced.walks arrival old
      · exact ⟨walk.step isNext, within⟩
    · intro node best isBest
      rw [newBest, Dict.lookup_insert] at isBest
      split at isBest
      · next same =>
          cases isBest
          exact ⟨_, (known _).mpr (.inr rfl), same.symm, rfl, Nat.succ_pos _⟩
      · rcases traced.recorded node best isBest with ⟨arrival, old, rest⟩
        exact ⟨arrival, (known arrival).mpr (.inl old), rest⟩
    · intro arrival isKnown deep
      rw [newBest, Dict.lookup_insert]
      rcases (known arrival).mp isKnown with old | rfl
      · rcases traced.kept arrival old deep with ⟨best, isBest, atMost⟩
        split
        · next same =>
            rw [same] at isBest
            exact ⟨_, rfl, atMost.trans (better best isBest).le⟩
        · exact ⟨best, isBest, atMost⟩
      · rw [if_pos rfl]
        exact ⟨_, rfl, le_refl _⟩

/-- The edge leads from an arrival to another one that is as strong, and as late as
allowed. -/
def Continued (late : Nat → Nat → Prop) (taken : List (Arrival Node S)) (search : Search Node S)
    (current : Arrival Node S) (edge : Node × S) : Prop :=
  ∃ arrival, Known taken search arrival ∧ arrival.node = edge.1 ∧ 1 ≤ arrival.depth ∧
    current.strength * edge.2 ≤ arrival.strength ∧ late current.depth arrival.depth

/-- What going over some edges of an arrival leads to. -/
structure Relaxed (late : Nat → Nat → Prop) (next : Node → List (Node × S)) (start : Node)
    (maxDepth : Nat) (taken : List (Arrival Node S)) (current : Arrival Node S)
    (edges : List (Node × S)) (before after : Search Node S) : Prop where
  traced : Traced next start maxDepth taken after
  grows : ∀ arrival, Known taken before arrival → Known taken after arrival
  new : ∀ arrival, Known taken after arrival →
    Known taken before arrival ∨ arrival.depth = current.depth + 1
  continued : ∀ edge ∈ edges, Continued late taken after current edge

theorem relax_spec {late : Nat → Nat → Prop} (traced : Traced next start maxDepth taken search)
    (adds : Adds push) (lateNext : ∀ depth, late depth (depth + 1))
    (walk : Walk next start current.depth current.node current.strength)
    (within : current.depth < maxDepth)
    (allLate : ∀ arrival, Known taken search arrival → late current.depth arrival.depth)
    {edge : Node × S} (isNext : edge ∈ next current.node) :
    Relaxed late next start maxDepth taken current [edge] search
      (relax push current search edge) := by
  have after := traced.relax adds walk within isNext
  rcases relax_cases adds current search edge with ⟨⟨best, isBest, atMost⟩, same⟩ | ⟨better, -, -⟩
  · rw [same]
    refine ⟨traced, fun _ => id, fun _ => .inl, fun other isOther => ?_⟩
    rw [List.mem_singleton.mp isOther]
    rcases traced.recorded edge.1 best isBest with ⟨arrival, isKnown, atNode, strong, deep⟩
    exact ⟨arrival, isKnown, atNode, deep, strong ▸ atMost, allLate arrival isKnown⟩
  · have known (arrival : Arrival Node S) :
        Known taken _ arrival ↔ Known taken search arrival ∨ arrival = _ :=
      known_relax_iff adds better
    refine ⟨after, fun arrival old => (known arrival).mpr (.inl old), fun arrival isKnown => ?_,
      fun other isOther => ?_⟩
    · exact ((known arrival).mp isKnown).imp_right fun isNew => by rw [isNew]
    · rw [List.mem_singleton.mp isOther]
      exact ⟨_, (known _).mpr (.inr rfl), rfl, Nat.succ_pos _, le_refl _, lateNext _⟩

theorem relaxes_spec {late : Nat → Nat → Prop} (traced : Traced next start maxDepth taken search)
    (adds : Adds push) (lateNext : ∀ depth, late depth (depth + 1))
    (walk : Walk next start current.depth current.node current.strength)
    (within : current.depth < maxDepth)
    (allLate : ∀ arrival, Known taken search arrival → late current.depth arrival.depth)
    {edges : List (Node × S)} (areNext : edges ⊆ next current.node) :
    Relaxed late next start maxDepth taken current edges search
      (edges.foldl (relax push current) search) := by
  induction edges generalizing search with
  | nil => exact ⟨traced, fun _ => id, fun _ => .inl, fun _ isIn => nomatch isIn⟩
  | cons edge edges induction =>
      rcases List.cons_subset.mp areNext with ⟨isNext, othersNext⟩
      have first : Relaxed late next start maxDepth taken current [edge] search
          (relax push current search edge) :=
        relax_spec traced adds lateNext walk within allLate isNext
      have stillLate : ∀ arrival, Known taken (relax push current search edge) arrival →
          late current.depth arrival.depth := by
        intro arrival isKnown
        rcases first.new arrival isKnown with old | below
        · exact allLate arrival old
        · exact below ▸ lateNext _
      have rest := induction first.traced stillLate othersNext
      refine ⟨rest.traced, fun arrival old => rest.grows arrival (first.grows arrival old), ?_, ?_⟩
      · intro arrival isKnown
        exact (rest.new arrival isKnown).elim (first.new arrival) .inr
      · intro other isOther
        rcases List.mem_cons.mp isOther with rfl | isOther
        · rcases first.continued other List.mem_cons_self with ⟨arrival, isKnown, facts⟩
          exact ⟨arrival, rest.grows arrival isKnown, facts⟩
        · exact rest.continued other isOther

/-- Every arrival that was taken within the depth goes on over all its edges. -/
structure Explored (late : Nat → Nat → Prop) (next : Node → List (Node × S)) (start : Node)
    (maxDepth : Nat) (taken : List (Arrival Node S)) (search : Search Node S) : Prop where
  traced : Traced next start maxDepth taken search
  continued : ∀ arrival ∈ taken, arrival.depth < maxDepth → ∀ edge ∈ next arrival.node,
    Continued late taken search arrival edge

omit [DecidableEq Node] [LinearOrder S] [Monoid S] in
theorem known_cons_iff {best : Dict Node S} {rest : List (Arrival Node S)}
    {arrival : Arrival Node S} :
    Known (current :: taken) ⟨best, rest⟩ arrival ↔
      Known taken ⟨best, current :: rest⟩ arrival := by
  unfold Known
  rw [List.mem_cons, List.mem_cons]
  tauto

theorem Traced.take {best : Dict Node S} {rest : List (Arrival Node S)}
    (traced : Traced next start maxDepth taken ⟨best, current :: rest⟩) :
    Traced next start maxDepth (current :: taken) ⟨best, rest⟩ := by
  refine ⟨known_cons_iff.mpr traced.root, ?_, ?_, ?_⟩
  · exact fun arrival isKnown => traced.walks arrival (known_cons_iff.mp isKnown)
  · intro node best isBest
    rcases traced.recorded node best isBest with ⟨arrival, isKnown, facts⟩
    exact ⟨arrival, known_cons_iff.mpr isKnown, facts⟩
  · exact fun arrival isKnown => traced.kept arrival (known_cons_iff.mp isKnown)

theorem explored_start (late : Nat → Nat → Prop) (next : Node → List (Node × S)) (start : Node)
    (maxDepth : Nat) : Explored late next start maxDepth [] ⟨∅, [⟨start, 0, 1⟩]⟩ := by
  have onlyRoot : ∀ arrival, Known [] ⟨∅, [⟨start, 0, 1⟩]⟩ arrival →
      arrival = (⟨start, 0, 1⟩ : Arrival Node S) := by
    rintro arrival (isTaken | isPending)
    · cases isTaken
    · exact List.mem_singleton.mp isPending
  refine ⟨⟨.inr List.mem_cons_self, ?_, ?_, ?_⟩, fun _ isTaken => nomatch isTaken⟩
  · intro arrival isKnown
    rw [onlyRoot arrival isKnown]
    exact ⟨.nil, Nat.zero_le _⟩
  · intro node best isBest
    cases isBest
  · intro arrival isKnown deep
    rw [onlyRoot arrival isKnown] at deep
    cases deep

theorem Explored.expand {late : Nat → Nat → Prop} {best : Dict Node S}
    {rest : List (Arrival Node S)}
    (explored : Explored late next start maxDepth taken ⟨best, current :: rest⟩)
    (adds : Adds push) (lateNext : ∀ depth, late depth (depth + 1))
    (allLate : ∀ arrival, Known taken ⟨best, current :: rest⟩ arrival →
      late current.depth arrival.depth) :
    Explored late next start maxDepth (current :: taken)
      (expand push next maxDepth current ⟨best, rest⟩) := by
  have taken' := explored.traced.take
  unfold StrongestWalks.expand
  split
  · next deep =>
      refine ⟨taken', fun arrival isTaken within edge isNext => ?_⟩
      rcases List.mem_cons.mp isTaken with rfl | old
      · omega
      · rcases explored.continued arrival old within edge isNext with ⟨other, isKnown, facts⟩
        exact ⟨other, known_cons_iff.mpr isKnown, facts⟩
  · next shallow =>
      have walk := (taken'.walks current (.inl List.mem_cons_self)).1
      have relaxed : Relaxed late next start maxDepth (current :: taken) current _ ⟨best, rest⟩
          ((next current.node).foldl (StrongestWalks.relax push current) ⟨best, rest⟩) :=
        relaxes_spec taken' adds lateNext walk (Nat.lt_of_not_le shallow)
          (fun arrival isKnown => allLate arrival (known_cons_iff.mp isKnown))
          (List.Subset.refl _)
      refine ⟨relaxed.traced, fun arrival isTaken within edge isNext => ?_⟩
      rcases List.mem_cons.mp isTaken with rfl | old
      · exact relaxed.continued edge isNext
      · rcases explored.continued arrival old within edge isNext with ⟨other, isKnown, facts⟩
        exact ⟨other, relaxed.grows other (known_cons_iff.mpr isKnown), facts⟩

/-- The best strengths are right if all are strengths of walks, and no walk is stronger. -/
theorem strongest_entries_iff {best : Dict Node S} :
    Strongest next start maxDepth (best.entries.map fun entry => (entry.1, entry.2)) ↔
      (∀ node, ∀ strength ∈ best.lookup node, strength ∈ strengths next start maxDepth node) ∧
        ∀ node, ∀ strength ∈ strengths next start maxDepth node,
          ∃ found ∈ best.lookup node, strength ≤ found := by
  have isKey (node : Node) :
      node ∈ (best.entries.map fun entry => (entry.1, entry.2)).map Prod.fst ↔
        ∃ strength, best.lookup node = some strength := by
    rw [List.map_map, ← Option.isSome_iff_exists, AList.lookup_isSome, AList.mem_keys]
    rfl
  constructor
  · rintro ⟨-, nodes, greatest⟩
    have greatestOf : ∀ node, ∀ strength ∈ best.lookup node,
        IsGreatest (strengths next start maxDepth node) strength := by
      intro node strength isBest
      exact greatest (node, strength)
        (List.mem_map.mpr ⟨⟨node, strength⟩, AList.mem_lookup_iff.mp isBest, rfl⟩)
    refine ⟨fun node strength isBest => (greatestOf node strength isBest).1, ?_⟩
    intro node strength isStrength
    rcases (isKey node).mp ((nodes node).mpr ⟨strength, isStrength⟩) with ⟨found, isBest⟩
    exact ⟨found, isBest, (greatestOf node found isBest).2 isStrength⟩
  · rintro ⟨walkOf, bestOf⟩
    refine ⟨?_, fun node => ?_, ?_⟩
    · rw [List.map_map]
      exact best.keys_nodup
    · rw [isKey]
      constructor
      · rintro ⟨strength, isBest⟩
        exact ⟨strength, walkOf node strength isBest⟩
      · rintro ⟨strength, isStrength⟩
        rcases bestOf node strength isStrength with ⟨found, isBest, -⟩
        exact ⟨found, isBest⟩
    · intro entry isEntry
      rcases List.mem_map.mp isEntry with ⟨pair, isPair, rfl⟩
      have isBest : best.lookup pair.1 = some pair.2 := AList.mem_lookup_iff.mpr isPair
      refine ⟨walkOf _ _ isBest, fun strength isStrength => ?_⟩
      rcases bestOf _ strength isStrength with ⟨found, isFound, atMost⟩
      cases isBest.symm.trans isFound
      exact atMost

/-- At the end of a search that saw an arrival as strong as the strongest walk to each
node, the best strengths are right. -/
theorem Traced.strongest {best : Dict Node S} (traced : Traced next start maxDepth taken ⟨best, []⟩)
    (complete : ∀ node, ∀ strength ∈ strengths next start maxDepth node,
      ∃ arrival, Known taken ⟨best, []⟩ arrival ∧ arrival.node = node ∧ 1 ≤ arrival.depth ∧
        strength ≤ arrival.strength) :
    Strongest next start maxDepth (best.entries.map fun entry => (entry.1, entry.2)) := by
  apply strongest_entries_iff.mpr
  constructor
  · intro node strength isBest
    rcases traced.recorded node strength isBest with ⟨arrival, isKnown, rfl, rfl, deep⟩
    rcases traced.walks arrival isKnown with ⟨walk, within⟩
    exact ⟨arrival.depth, deep, within, walk⟩
  · intro node strength isStrength
    rcases complete node strength isStrength with ⟨arrival, isKnown, rfl, deep, atMost⟩
    rcases traced.kept arrival isKnown deep with ⟨found, isBest, within⟩
    exact ⟨found, isBest, atMost.trans within⟩

end Traced

/-! ## Queues -/

section Queue

variable [DecidableEq Node] [LinearOrder S] [Monoid S]
variable {next : Node → List (Node × S)} {start : Node} {maxDepth : Nat}
variable {taken : List (Arrival Node S)} {search : Search Node S} {current : Arrival Node S}

/-- What is pending is ordered by depth, and nothing known is more than one deeper. -/
structure Queued (taken : List (Arrival Node S)) (search : Search Node S) : Prop where
  sorted : search.pending.Pairwise fun first second => first.depth ≤ second.depth
  narrow : ∀ arrival, Known taken search arrival → ∀ waiting ∈ search.pending,
    arrival.depth ≤ waiting.depth + 1

theorem pending_relaxes_atEnd (edges : List (Node × S)) :
    ∃ new, (edges.foldl (relax atEnd current) search).pending = search.pending ++ new ∧
      ∀ arrival ∈ new, arrival.depth = current.depth + 1 := by
  induction edges generalizing search with
  | nil => exact ⟨[], (List.append_nil _).symm, fun _ isIn => nomatch isIn⟩
  | cons edge edges induction =>
      have rest : ∃ new, (edges.foldl (relax atEnd current)
          (relax atEnd current search edge)).pending = _ ++ new ∧ _ := induction
      rcases rest with ⟨new, pending, deeper⟩
      rw [List.foldl_cons, pending]
      unfold relax
      dsimp only
      split
      · refine ⟨⟨edge.1, current.depth + 1, current.strength * edge.2⟩ :: new, ?_, ?_⟩
        · rw [atEnd, List.append_assoc]
          rfl
        · intro arrival isNew
          rcases List.mem_cons.mp isNew with rfl | isNew
          · rfl
          · exact deeper arrival isNew
      · exact ⟨new, rfl, deeper⟩

theorem Queued.expand {best : Dict Node S} {rest : List (Arrival Node S)}
    (queued : Queued taken ⟨best, current :: rest⟩) :
    Queued (current :: taken) (expand atEnd next maxDepth current ⟨best, rest⟩) := by
  rcases List.pairwise_cons.mp queued.sorted with ⟨first, sorted⟩
  have old : ∀ arrival, Known (current :: taken) ⟨best, rest⟩ arrival →
      arrival.depth ≤ current.depth + 1 :=
    fun arrival isKnown => queued.narrow arrival (known_cons_iff.mp isKnown) current
      List.mem_cons_self
  unfold StrongestWalks.expand
  split
  · refine ⟨sorted, fun arrival isKnown waiting isWaiting => ?_⟩
    exact (old arrival isKnown).trans (Nat.succ_le_succ (first waiting isWaiting))
  · have pending : ∃ new, ((next current.node).foldl (relax atEnd current) ⟨best, rest⟩).pending =
        rest ++ new ∧ ∀ arrival ∈ new, arrival.depth = current.depth + 1 :=
      pending_relaxes_atEnd _
    rcases pending with ⟨new, pending, deeper⟩
    have atLeast : ∀ waiting ∈ rest ++ new, current.depth ≤ waiting.depth := by
      intro waiting isWaiting
      rcases List.mem_append.mp isWaiting with isOld | isNew
      · exact first waiting isOld
      · exact (deeper waiting isNew).symm ▸ Nat.le_succ _
    constructor
    · rw [pending]
      refine List.pairwise_append.mpr ⟨sorted, ?_, fun waiting isOld arrival isNew => ?_⟩
      · apply List.pairwise_of_forall_mem_list
        intro arrival isNew other isOther
        rw [deeper arrival isNew, deeper other isOther]
      · rw [deeper arrival isNew]
        exact old waiting (.inr isOld)
    · intro arrival isKnown waiting isWaiting
      rw [pending] at isWaiting
      have shallow : arrival.depth ≤ current.depth + 1 := by
        rcases isKnown with isTaken | isPending
        · exact old arrival (.inl isTaken)
        · rw [pending] at isPending
          rcases List.mem_append.mp isPending with isOld | isNew
          · exact old arrival (.inr isOld)
          · exact (deeper arrival isNew).le
      exact shallow.trans (Nat.succ_le_succ (atLeast waiting isWaiting))

/-- To every walk there is an arrival that is no later and no weaker. -/
theorem Explored.dominates {best : Dict Node S}
    (explored :
      Explored (fun depth later => later ≤ depth + 1) next start maxDepth taken ⟨best, []⟩)
    (monotone : KeepsOrder next)
    {depth : Nat} {node : Node} {strength : S} (walk : Walk next start depth node strength)
    (within : depth ≤ maxDepth) :
    ∃ arrival ∈ taken, arrival.node = node ∧ arrival.depth ≤ depth ∧
      strength ≤ arrival.strength ∧ (1 ≤ depth → 1 ≤ arrival.depth) := by
  have isTaken {arrival : Arrival Node S} (isKnown : Known taken ⟨best, []⟩ arrival) :
      arrival ∈ taken := isKnown.resolve_right List.not_mem_nil
  induction walk with
  | nil => exact ⟨_, isTaken explored.traced.root, rfl, le_refl _, le_refl _, id⟩
  | step walk isNext induction =>
      rcases induction (Nat.le_of_succ_le within) with ⟨arrival, known, rfl, earlier, stronger, -⟩
      rcases explored.continued arrival known (by omega) _ isNext with
        ⟨other, otherKnown, atNode, deep, strong, later⟩
      refine ⟨other, isTaken otherKnown, atNode, later.trans (Nat.succ_le_succ earlier), ?_,
        fun _ => deep⟩
      exact (monotone _ _ isNext _ _ stronger).trans strong

omit [DecidableEq Node] [LinearOrder S] in
theorem queued_start (start : Node) : Queued [] ⟨∅, [⟨start, 0, (1 : S)⟩]⟩ where
  sorted := List.pairwise_singleton _ _
  narrow arrival isKnown waiting isWaiting := by
    rcases isKnown with isTaken | isPending
    · cases isTaken
    · rw [List.mem_singleton.mp isPending]
      exact Nat.zero_le _

theorem reach_atEnd (start : Node) (maxDepth : Nat)
    (monotone : KeepsOrder next) :
    ∃ found, reach atEnd next maxDepth start = some found ∧
      Strongest next start maxDepth found := by
  have searched : ∃ all best, reach atEnd next maxDepth start =
        some (best.entries.map fun entry => (entry.1, entry.2)) ∧
      (Explored (fun depth later => later ≤ depth + 1) next start maxDepth all ⟨best, []⟩ ∧
        Queued all ⟨best, []⟩) := by
    apply exists_reach (fun taken search => Explored (fun depth later => later ≤ depth + 1) next
      start maxDepth taken search ∧ Queued taken search) adds_atEnd
    · rintro taken best current rest ⟨explored, queued⟩
      refine ⟨explored.expand adds_atEnd (fun _ => le_refl _) fun arrival isKnown => ?_,
        queued.expand⟩
      exact queued.narrow arrival isKnown current List.mem_cons_self
    · exact ⟨explored_start _ next start maxDepth, queued_start start⟩
  rcases searched with ⟨all, best, ran, explored, -⟩
  refine ⟨_, ran, explored.traced.strongest ?_⟩
  rintro node strength ⟨depth, some, within, walk⟩
  rcases explored.dominates monotone walk within with ⟨arrival, isTaken, atNode, -, strong, deep⟩
  exact ⟨arrival, .inl isTaken, atNode, deep some, strong⟩

end Queue

end FunDB.StrongestWalks
