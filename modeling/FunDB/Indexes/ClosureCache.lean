import FunDB.Causal.Tier1
import FunDB.Foundation.StackOrder

/-! # The closure cache

The paths that a search finds, and when the cached paths of a pair are those that
a search finds now. -/

namespace FunDB.CausalDag

open Execution

variable {S : Type}

/-! ## Routes -/

namespace CausalPath

variable [Strength S]

def follow (path : CausalPath S) (edge : CausalEdge S) : CausalPath S :=
  ⟨path.nodes ++ [edge.targetId], path.edges ++ [edge], path.totalStrength * edge.strength⟩

def along (source : Uuid) (edges : List (CausalEdge S)) : CausalPath S :=
  edges.foldl follow ⟨[source], [], 1⟩

theorem edges_foldl_follow (path : CausalPath S) (edges : List (CausalEdge S)) :
    (edges.foldl follow path).edges = path.edges ++ edges := by
  induction edges generalizing path with
  | nil => exact (List.append_nil _).symm
  | cons edge edges induction =>
      rw [List.foldl_cons, induction]
      exact List.append_assoc path.edges [edge] edges

theorem along_injective (source : Uuid) :
    Function.Injective (along source : List (CausalEdge S) → CausalPath S) := by
  intro edges others same
  have read : ∀ edges : List (CausalEdge S), (along source edges).edges = edges :=
    fun edges => edges_foldl_follow _ edges
  rw [← read edges, ← read others, same]

end CausalPath

open CausalPath

/-- Edges that lead from a node to the target over nodes not seen before. -/
def Continues (edgesOf : Uuid → List (CausalEdge S)) (target : Uuid) :
    List Uuid → Uuid → List (CausalEdge S) → Prop
  | _, current, [] => current = target
  | seen, current, edge :: edges =>
      edge ∈ edgesOf current ∧ edge.targetId ∉ seen ∧
        Continues edgesOf target (seen ++ [edge.targetId]) edge.targetId edges

namespace Continues

variable {edgesOf wider : Uuid → List (CausalEdge S)} {target current : Uuid}
variable {seen : List Uuid} {edges : List (CausalEdge S)}

theorem eq_nil (continues : Continues edgesOf target seen current edges)
    (isSeen : target ∈ seen) : edges = [] := by
  induction edges generalizing seen current with
  | nil => rfl
  | cons edge edges induction =>
      rcases continues with ⟨-, new, rest⟩
      have ended : edges = [] := induction rest (List.mem_append_left _ isSeen)
      subst ended
      have reached : edge.targetId = target := rest
      exact absurd (reached ▸ isSeen) new

theorem mono (continues : Continues edgesOf target seen current edges)
    (more : ∀ node, edgesOf node ⊆ wider node) : Continues wider target seen current edges := by
  induction edges generalizing seen current with
  | nil => exact continues
  | cons edge edges induction =>
      exact ⟨more _ continues.1, continues.2.1, induction continues.2.2⟩

end Continues

/-- Edges of the graph that lead from a node to another, over no node twice. -/
def Route (graph : EdgeMaps S) (source target : Uuid) (edges : List (CausalEdge S)) : Prop :=
  edges ≠ [] ∧ Continues graph.adjacency.bucket target [source] source edges

/-! ## The search -/

variable [Strength S]

/-- All edges have strengths between 0 and 1. -/
def ValidStrengths (edgesOf : Uuid → List (CausalEdge S)) : Prop :=
  ∀ node, ∀ edge ∈ edgesOf node, 0 ≤ edge.strength ∧ edge.strength ≤ 1

section Search

variable {edgesOf : Uuid → List (CausalEdge S)} {target current : Uuid} {minStrength : S}
variable {hops : Nat} {seen : List Uuid} {path found : CausalPath S} {edges : List (CausalEdge S)}

theorem bounded_start {source : Uuid} : 0 ≤ (along source ([] : List (CausalEdge S))).totalStrength ∧
    (along source ([] : List (CausalEdge S))).totalStrength ≤ 1 :=
  ⟨Strength.zero_le_one, Strength.one_le_one⟩

theorem bounded_follow {edge : CausalEdge S}
    (bounded : 0 ≤ path.totalStrength ∧ path.totalStrength ≤ 1)
    (valid : 0 ≤ edge.strength ∧ edge.strength ≤ 1) :
    (0 ≤ (path.follow edge).totalStrength ∧ (path.follow edge).totalStrength ≤ 1) ∧
      (path.follow edge).totalStrength ≤ path.totalStrength := by
  have weaker : (path.follow edge).totalStrength ≤ path.totalStrength :=
    Strength.mul_le bounded.1 bounded.2 valid.1 valid.2
  have positive : 0 ≤ (path.follow edge).totalStrength :=
    Strength.zero_le_mul bounded.1 bounded.2 valid.1 valid.2
  exact ⟨⟨positive, Strength.trans weaker bounded.2⟩, weaker⟩

theorem strength_foldl_follow (valid : ValidStrengths edgesOf)
    (bounded : 0 ≤ path.totalStrength ∧ path.totalStrength ≤ 1)
    (continues : Continues edgesOf target seen current edges) :
    0 ≤ (edges.foldl follow path).totalStrength ∧
      ∀ minimum, minimum ≤ (edges.foldl follow path).totalStrength →
        minimum ≤ path.totalStrength := by
  induction edges generalizing path seen current with
  | nil => exact ⟨bounded.1, fun _ => id⟩
  | cons edge edges induction =>
      rcases bounded_follow bounded (valid _ edge continues.1) with ⟨stillBounded, weaker⟩
      rcases induction stillBounded continues.2.2 with ⟨final, above⟩
      exact ⟨final, fun _ strong => Strength.trans (above _ strong) weaker⟩

/-- Edges that complete a path within a length and above a strength. -/
structure Completes (edgesOf : Uuid → List (CausalEdge S)) (target : Uuid) (minStrength : S)
    (hops : Nat) (current : Uuid) (path : CausalPath S) (edges : List (CausalEdge S)) : Prop where
  continues : Continues edgesOf target path.nodes current edges
  some : path.edges ++ edges ≠ []
  short : edges.length ≤ hops
  strong : minStrength ≤ (edges.foldl follow path).totalStrength

open CausalDagIndex

theorem mem_dfsPaths_of_end (isNode : current ∈ path.nodes) (reached : current = target)
    (some : path.edges ≠ []) (strong : minStrength ≤ path.totalStrength) :
    found ∈ dfsPaths edgesOf target minStrength hops current path ↔
      ∃ edges, Completes edgesOf target minStrength hops current path edges ∧
        edges.foldl follow path = found := by
  have search : dfsPaths edgesOf target minStrength hops current path = [path] := by
    cases hops with
    | zero => rw [dfsPaths, if_pos ⟨reached, some⟩]
    | succ hops => rw [dfsPaths, if_pos ⟨reached, some⟩]
  rw [search, List.mem_singleton]
  constructor
  · rintro rfl
    exact ⟨[], ⟨reached, List.append_ne_nil_of_left_ne_nil some _, Nat.zero_le _, strong⟩, rfl⟩
  · rintro ⟨edges, completes, rfl⟩
    rw [completes.continues.eq_nil (reached ▸ isNode)]
    rfl

theorem Completes.ne_nil (completes : Completes edgesOf target minStrength hops current path edges)
    (going : ¬(current = target ∧ path.edges ≠ [])) : edges ≠ [] := by
  rintro rfl
  exact going ⟨completes.continues, List.append_nil path.edges ▸ completes.some⟩

/-- A first edge completes a path together with what completes the longer path. -/
theorem completes_cons_iff (valid : ValidStrengths edgesOf)
    (bounded : 0 ≤ path.totalStrength ∧ path.totalStrength ≤ 1) {edge : CausalEdge S}
    (isEdge : edge ∈ edgesOf current) :
    Completes edgesOf target minStrength (hops + 1) current path (edge :: edges) ↔
      (minStrength ≤ path.totalStrength * edge.strength ∧ edge.targetId ∉ path.nodes) ∧
        Completes edgesOf target minStrength hops edge.targetId (path.follow edge) edges := by
  constructor
  · rintro ⟨⟨-, new, continues⟩, -, short, strong⟩
    have stillBounded := (bounded_follow bounded (valid _ edge isEdge)).1
    have stillStrong : minStrength ≤ (path.follow edge).totalStrength :=
      (strength_foldl_follow valid stillBounded continues).2 _ strong
    refine ⟨⟨stillStrong, new⟩, continues, ?_, Nat.le_of_succ_le_succ short, strong⟩
    exact List.append_ne_nil_of_left_ne_nil
      (List.append_ne_nil_of_right_ne_nil _ (List.cons_ne_nil _ _)) _
  · rintro ⟨⟨-, new⟩, continues, -, short, strong⟩
    refine ⟨⟨isEdge, new, continues⟩, ?_, Nat.succ_le_succ short, strong⟩
    exact List.append_ne_nil_of_right_ne_nil _ (List.cons_ne_nil _ _)

theorem mem_dfsPaths_iff (valid : ValidStrengths edgesOf)
    (bounded : 0 ≤ path.totalStrength ∧ path.totalStrength ≤ 1) (isNode : current ∈ path.nodes)
    (strong : path.edges ≠ [] → minStrength ≤ path.totalStrength) :
    found ∈ dfsPaths edgesOf target minStrength hops current path ↔
      ∃ edges, Completes edgesOf target minStrength hops current path edges ∧
        edges.foldl follow path = found := by
  induction hops generalizing current path with
  | zero =>
      by_cases ended : current = target ∧ path.edges ≠ []
      · exact mem_dfsPaths_of_end isNode ended.1 ended.2 (strong ended.2)
      · rw [dfsPaths, if_neg ended]
        apply iff_of_false List.not_mem_nil
        rintro ⟨edges, completes, -⟩
        exact completes.ne_nil ended (List.eq_nil_of_length_eq_zero (Nat.le_zero.mp completes.short))
  | succ hops induction =>
      by_cases ended : current = target ∧ path.edges ≠ []
      · exact mem_dfsPaths_of_end isNode ended.1 ended.2 (strong ended.2)
      · have next : ∀ edge ∈ edgesOf current, minStrength ≤ path.totalStrength * edge.strength →
            (found ∈ dfsPaths edgesOf target minStrength hops edge.targetId (path.follow edge) ↔
              ∃ edges, Completes edgesOf target minStrength hops edge.targetId
                (path.follow edge) edges ∧ edges.foldl follow (path.follow edge) = found) := by
          intro edge isEdge stillStrong
          apply induction (bounded_follow bounded (valid _ edge isEdge)).1
          · exact List.mem_append_right _ List.mem_cons_self
          · exact fun _ => stillStrong
        rw [dfsPaths, if_neg ended, List.mem_flatMap]
        constructor
        · rintro ⟨edge, isEdge, isFound⟩
          by_cases taken : minStrength ≤ path.totalStrength * edge.strength ∧
              edge.targetId ∉ path.nodes
          · rw [if_pos taken] at isFound
            rcases (next edge isEdge taken.1).mp isFound with ⟨edges, completes, rfl⟩
            have longer := (completes_cons_iff valid bounded isEdge).mpr ⟨taken, completes⟩
            exact ⟨edge :: edges, longer, rfl⟩
          · rw [if_neg taken] at isFound
            cases isFound
        · rintro ⟨edges, completes, rfl⟩
          cases edges with
          | nil => exact absurd rfl (completes.ne_nil ended)
          | cons edge edges =>
              have isEdge : edge ∈ edgesOf current := completes.continues.1
              rcases (completes_cons_iff valid bounded isEdge).mp completes with ⟨taken, followed⟩
              refine ⟨edge, isEdge, ?_⟩
              rw [if_pos taken]
              exact (next edge isEdge taken.1).mpr ⟨edges, followed, rfl⟩

end Search

/-! ## Calls -/

inductive Call (S : Type) where
  | insertEdge (edge : CausalEdge S)
  | materializeClosure (source target : Uuid)

def Call.edge? {S : Type} : Call S → Option (CausalEdge S)
  | .insertEdge edge => some edge
  | .materializeClosure _ _ => none

/-- The part of a list before the last place of an item. -/
def BeforeLast {Item : Type} (item : Item) (items before : List Item) : Prop :=
  ∃ after, items = before ++ item :: after ∧ item ∉ after

section BeforeLast

variable {Item : Type} {item other : Item} {items before : List Item}

theorem not_beforeLast_nil : ¬BeforeLast item [] before :=
  fun ⟨_, split, _⟩ => absurd split.symm (List.append_ne_nil_of_right_ne_nil _ (List.cons_ne_nil _ _))

theorem beforeLast_concat_self : BeforeLast item (items ++ [item]) before ↔ before = items := by
  constructor
  · rintro ⟨after, split, last⟩
    rcases List.eq_nil_or_concat after with rfl | ⟨after, final, rfl⟩
    · exact (List.append_inj_left' split rfl).symm
    · have same : [item] = [final] := by
        rw [List.concat_eq_append, ← List.cons_append, ← List.append_assoc] at split
        exact List.append_inj_right' split rfl
      cases same
      exact absurd (by simp) last
  · rintro rfl
    exact ⟨[], rfl, List.not_mem_nil⟩

theorem beforeLast_concat_of_ne (different : other ≠ item) :
    BeforeLast item (items ++ [other]) before ↔ BeforeLast item items before := by
  constructor
  · rintro ⟨after, split, last⟩
    rcases List.eq_nil_or_concat after with rfl | ⟨after, final, rfl⟩
    · cases List.append_inj_right' split rfl
      exact absurd rfl different
    · rw [List.concat_eq_append, ← List.cons_append, ← List.append_assoc] at split
      refine ⟨after, List.append_inj_left' split rfl, fun isIn => last ?_⟩
      rw [List.concat_eq_append]
      exact List.mem_append_left _ isIn
  · rintro ⟨after, rfl, last⟩
    refine ⟨after ++ [other], by simp, fun isIn => ?_⟩
    rcases List.mem_append.mp isIn with isIn | isIn
    · exact last isIn
    · exact different (List.mem_singleton.mp isIn).symm

end BeforeLast

namespace CausalDagIndex

def step (index : CausalDagIndex S) : Call S → CausalDagIndex S
  | .insertEdge edge => (index.insertEdge edge).2
  | .materializeClosure source target => index.materializeClosure source target

def afterCalls (calls : List (Call S)) : CausalDagIndex S := run step new calls

def insertions (calls : List (Call S)) : List (CausalEdge S) := calls.filterMap Call.edge?

theorem insertEdge_congr {index other : CausalDagIndex S} (edge : CausalEdge S)
    (same : index.graph = other.graph) :
    (index.insertEdge edge).2.graph = (other.insertEdge edge).2.graph := by
  unfold insertEdge
  rw [same]
  split
  · exact same
  · split
    · exact same
    · rfl

theorem closureCache_insertEdge (index : CausalDagIndex S) (edge : CausalEdge S) :
    (index.insertEdge edge).2.closureCache = index.closureCache := by
  rcases index.insertEdge_cases edge with ⟨-, inserted⟩ | ⟨-, error, rejected⟩
  · rw [inserted]
  · rw [rejected]

theorem graph_afterCalls (calls : List (Call S)) :
    (afterCalls calls).graph = (afterInserts (insertions calls)).graph := by
  induction calls using List.reverseRecOn with
  | nil => rfl
  | append_singleton calls call induction =>
      rw [afterCalls, run_concat, insertions, List.filterMap_append]
      cases call with
      | insertEdge edge =>
          have inserted : afterInserts (insertions calls ++ [edge]) =
              ((afterInserts (insertions calls)).insertEdge edge).2 := run_concat _ _ _ _
          exact (insertEdge_congr edge induction).trans (congrArg graph inserted.symm)
      | materializeClosure source target =>
          rw [List.filterMap_cons_none rfl, List.filterMap_nil, List.append_nil]
          exact induction

theorem closureCache_afterInserts (edges : List (CausalEdge S)) :
    (afterInserts edges).closureCache = ∅ := by
  apply run_invariant _ (fun index : CausalDagIndex S => index.closureCache = ∅) _ rfl
  intro index edge empty
  rw [closureCache_insertEdge]
  exact empty

/-- The cached paths of a pair are those that were found when it was last
materialized. -/
theorem lookup_closureCache_iff (calls : List (Call S)) (source target : Uuid)
    (cached : List (CausalPath S)) :
    (afterCalls calls).closureCache.lookup (source, target) = some cached ↔
      ∃ before, BeforeLast (.materializeClosure source target) calls before ∧
        (afterCalls before).searchPaths source target 10 0 = cached := by
  induction calls using List.reverseRecOn with
  | nil => exact iff_of_false (fun found => nomatch found) fun ⟨_, last, _⟩ => not_beforeLast_nil last
  | append_singleton calls call induction =>
      rw [afterCalls, run_concat]
      by_cases same : call = .materializeClosure source target
      · subst same
        simp only [beforeLast_concat_self, exists_eq_left]
        rw [step, materializeClosure, Dict.lookup_insert, if_pos rfl, Option.some_inj]
        rfl
      · simp only [beforeLast_concat_of_ne same]
        rw [← induction]
        cases call with
        | insertEdge edge =>
            rw [step, closureCache_insertEdge]
            rfl
        | materializeClosure first second =>
            have different : (source, target) ≠ (first, second) := by
              intro equal
              cases equal
              exact same rfl
            rw [step, materializeClosure, Dict.lookup_insert, if_neg different]
            rfl

theorem validStrengths_afterInserts (edges : List (CausalEdge S)) :
    ValidStrengths (afterInserts edges).graph.adjacency.bucket := by
  apply run_invariant _
    (fun index : CausalDagIndex S => ValidStrengths index.graph.adjacency.bucket)
  · intro index edge valid
    rcases index.insertEdge_cases edge with ⟨accepts, inserted⟩ | ⟨-, error, rejected⟩
    · rw [inserted]
      intro node other isIn
      rcases (Buckets.mem_bucket_push _ _ _ other node).mp isIn with old | ⟨-, rfl⟩
      · exact valid node other old
      · exact accepts.1
    · rw [rejected]
      exact valid
  · exact fun _ _ isIn => nomatch isIn

theorem validStrengths_afterCalls (calls : List (Call S)) :
    ValidStrengths (afterCalls calls).graph.adjacency.bucket :=
  graph_afterCalls calls ▸ validStrengths_afterInserts (insertions calls)

theorem bucket_subset_step (index : CausalDagIndex S) (call : Call S) (node : Uuid) :
    index.graph.adjacency.bucket node ⊆ (index.step call).graph.adjacency.bucket node := by
  cases call with
  | insertEdge edge =>
      rw [step]
      rcases index.insertEdge_cases edge with ⟨-, inserted⟩ | ⟨-, error, rejected⟩
      · rw [inserted]
        exact fun other isIn => (Buckets.mem_bucket_push _ _ _ other node).mpr (.inl isIn)
      · rw [rejected]
        exact List.Subset.refl _
  | materializeClosure source target => exact List.Subset.refl _

theorem route_of_beforeLast {calls before : List (Call S)} {call : Call S}
    (last : BeforeLast call calls before) {source target : Uuid} {edges : List (CausalEdge S)}
    (route : Route (afterCalls before).graph source target edges) :
    Route (afterCalls calls).graph source target edges := by
  rcases last with ⟨after, rfl, -⟩
  refine ⟨route.1, route.2.mono fun node => ?_⟩
  have later : afterCalls (before ++ call :: after) =
      run step (afterCalls before) (call :: after) := run_append _ _ _ _
  rw [later]
  apply run_invariant _ (fun index : CausalDagIndex S =>
    (afterCalls before).graph.adjacency.bucket node ⊆ index.graph.adjacency.bucket node)
  · exact fun index call kept => List.Subset.trans kept (index.bucket_subset_step call node)
  · exact List.Subset.refl _

/-! ## Paths -/

theorem mem_searchPaths_iff (index : CausalDagIndex S)
    (valid : ValidStrengths index.graph.adjacency.bucket) (source target : Uuid) (maxDepth : Nat)
    (minStrength : S) (path : CausalPath S) :
    path ∈ index.searchPaths source target maxDepth minStrength ↔
      ∃ edges, Route index.graph source target edges ∧ edges.length ≤ maxDepth ∧
        minStrength ≤ (along source edges).totalStrength ∧ along source edges = path := by
  have search : path ∈ dfsPaths index.graph.adjacency.bucket target minStrength maxDepth source
      (along source []) ↔ _ := mem_dfsPaths_iff valid bounded_start List.mem_cons_self (absurd rfl)
  apply search.trans
  constructor
  · rintro ⟨edges, ⟨continues, some, short, strong⟩, same⟩
    exact ⟨edges, ⟨some, continues⟩, short, strong, same⟩
  · rintro ⟨edges, ⟨some, continues⟩, short, strong, same⟩
    exact ⟨edges, ⟨continues, some, short, strong⟩, same⟩

variable (calls : List (Call S)) (source target : Uuid) (maxDepth : UInt32) (minStrength : S)
variable (path : CausalPath S)

/-- What an index without a cache returns after the same insertions. -/
theorem mem_paths_afterInserts_iff :
    path ∈ (afterInserts (insertions calls)).paths source target maxDepth minStrength ↔
      ∃ edges, Route (afterCalls calls).graph source target edges ∧
        edges.length ≤ maxDepth.toNat ∧ minStrength ≤ (along source edges).totalStrength ∧
        along source edges = path := by
  have uncached : (afterInserts (insertions calls)).closureCache.lookup (source, target) = none := by
    rw [closureCache_afterInserts]
    rfl
  rw [paths, uncached, graph_afterCalls]
  exact mem_searchPaths_iff _ (validStrengths_afterInserts _) _ _ _ _ _

variable {calls source target}

theorem mem_paths_iff_of_beforeLast {before : List (Call S)}
    (last : BeforeLast (.materializeClosure source target) calls before) :
    path ∈ (afterCalls calls).paths source target maxDepth minStrength ↔
      ∃ edges, Route (afterCalls before).graph source target edges ∧ edges.length ≤ 10 ∧
        minStrength ≤ (along source edges).totalStrength ∧ along source edges = path := by
  have valid := validStrengths_afterCalls before
  have found := (lookup_closureCache_iff calls source target _).mpr ⟨before, last, rfl⟩
  simp only [paths, found, List.mem_filter, decide_eq_true_eq,
    mem_searchPaths_iff _ valid source target]
  constructor
  · rintro ⟨⟨edges, route, short, -, rfl⟩, strong⟩
    exact ⟨edges, route, short, strong, rfl⟩
  · rintro ⟨edges, route, short, strong, rfl⟩
    have positive : 0 ≤ (along source edges).totalStrength :=
      (strength_foldl_follow valid bounded_start route.2).1
    exact ⟨⟨edges, route, short, positive, rfl⟩, strong⟩

/-- What is returned for a pair that was never materialized. -/
theorem paths_eq_of_not_beforeLast
    (never : ∀ before, ¬BeforeLast (.materializeClosure source target) calls before) :
    (afterCalls calls).paths source target maxDepth minStrength =
      (afterInserts (insertions calls)).paths source target maxDepth minStrength := by
  have uncached : (afterCalls calls).closureCache.lookup (source, target) = none := by
    rw [Option.eq_none_iff_forall_not_mem]
    intro cached found
    rcases (lookup_closureCache_iff calls source target cached).mp found with ⟨before, last, -⟩
    exact never before last
  rw [paths, uncached, paths, closureCache_afterInserts]
  simp only [searchPaths, graph_afterCalls]
  rfl

end CausalDagIndex

open CausalDagIndex

/-- The cache changes nothing exactly if every route that is strong enough is
within the depth asked for just when it is within ten edges that were there when
the pair was last materialized. -/
theorem closureCache_transparent_iff (calls : List (Call S)) (source target : Uuid)
    (maxDepth : UInt32) (minStrength : S) :
    (∀ path, path ∈ (afterCalls calls).paths source target maxDepth minStrength ↔
      path ∈ (afterInserts (insertions calls)).paths source target maxDepth minStrength) ↔
    ∀ before, BeforeLast (.materializeClosure source target) calls before →
      ∀ edges, Route (afterCalls calls).graph source target edges →
        minStrength ≤ (along source edges).totalStrength →
        (edges.length ≤ maxDepth.toNat ↔
          edges.length ≤ 10 ∧ Route (afterCalls before).graph source target edges) := by
  constructor
  · intro same before last edges route strong
    have cached := mem_paths_iff_of_beforeLast maxDepth minStrength (along source edges) last
    have searched :=
      mem_paths_afterInserts_iff calls source target maxDepth minStrength (along source edges)
    constructor
    · intro short
      have isFound := searched.mpr ⟨edges, route, short, strong, rfl⟩
      rcases cached.mp ((same _).mpr isFound) with ⟨others, old, short, -, equal⟩
      cases along_injective source equal
      exact ⟨short, old⟩
    · rintro ⟨short, old⟩
      have isCached := cached.mpr ⟨edges, old, short, strong, rfl⟩
      rcases searched.mp ((same _).mp isCached) with ⟨others, -, short, -, equal⟩
      cases along_injective source equal
      exact short
  · intro condition path
    by_cases materialized :
        ∃ before, BeforeLast (.materializeClosure source target) calls before
    · rcases materialized with ⟨before, last⟩
      rw [mem_paths_iff_of_beforeLast maxDepth minStrength path last, mem_paths_afterInserts_iff]
      constructor
      · rintro ⟨edges, old, short, strong, rfl⟩
        have route := route_of_beforeLast last old
        have within := (condition before last edges route strong).mpr ⟨short, old⟩
        exact ⟨edges, route, within, strong, rfl⟩
      · rintro ⟨edges, route, short, strong, rfl⟩
        rcases (condition before last edges route strong).mp short with ⟨within, old⟩
        exact ⟨edges, old, within, strong, rfl⟩
    · have never : ∀ before, ¬BeforeLast (.materializeClosure source target) calls before :=
        fun before last => materialized ⟨before, last⟩
      rw [paths_eq_of_not_beforeLast maxDepth minStrength never]

def sampleEdge : CausalEdge ℚ := declaredEdge (.ofByte 1) (.ofByte 2) 1

def sampleCalls : List (Call ℚ) :=
  [.materializeClosure (.ofByte 1) (.ofByte 2), .insertEdge sampleEdge]

/-- An edge that is inserted after its pair was materialized is not found. -/
theorem later_edge_not_found :
    along (.ofByte 1) [sampleEdge] ∉
        (afterCalls sampleCalls).paths (.ofByte 1) (.ofByte 2) 5 0 ∧
      along (.ofByte 1) [sampleEdge] ∈
        (afterInserts (insertions sampleCalls)).paths (.ofByte 1) (.ofByte 2) 5 0 := by
  decide +kernel

/-! ## Effects and causes

The stack takes deep arrivals before shallow ones. A deep arrival that is stronger can
stop a shallow one, although less of the depth is left behind it. -/

namespace CausalDagIndex

open StrongestWalks

/-- The effects and the causes of a node are the nodes that paths of at most so many
edges lead to, each once with the strength of the strongest, if and only if a strongest
path to each is offered behind what the search keeps. -/
theorem effects_causes_exact_iff (inserted : List (CausalEdge ℚ)) (node : Uuid)
    (maxDepth : UInt32) :
    Reversed (afterInserts inserted).graph.forward (afterInserts inserted).graph.backward ∧
    (∃ found, (afterInserts inserted).effects node maxDepth = some found ∧
      (Strongest (afterInserts inserted).graph.forward node maxDepth.toNat found ↔
        StrongestOffered (afterInserts inserted).graph.forward node maxDepth.toNat)) ∧
    ∃ found, (afterInserts inserted).causes node maxDepth = some found ∧
      (Strongest (afterInserts inserted).graph.backward node maxDepth.toNat found ↔
        StrongestOffered (afterInserts inserted).graph.backward node maxDepth.toNat) :=
  ⟨(sound_afterInserts inserted).reversed, reach_onTop_iff node maxDepth.toNat,
    reach_onTop_iff node maxDepth.toNat⟩

/-! ## A missed effect -/

/-- Two ways to the same node, a short one and a stronger one that is longer, and an edge
behind it. -/
def shortcutEdges : List (CausalEdge ℚ) :=
  [declaredEdge (.ofByte 1) (.ofByte 2) (1 / 2), declaredEdge (.ofByte 1) (.ofByte 3) 1,
    declaredEdge (.ofByte 2) (.ofByte 5) 1, declaredEdge (.ofByte 3) (.ofByte 4) 1,
    declaredEdge (.ofByte 4) (.ofByte 5) 1, declaredEdge (.ofByte 5) (.ofByte 6) 1]

/-- The last node is three edges away, but it is not among the effects up to that depth. -/
theorem effects_miss_last_node :
    ∃ found, (afterInserts shortcutEdges).effects (.ofByte 1) 3 = some found ∧
      ¬Strongest (afterInserts shortcutEdges).graph.forward (.ofByte 1) 3 found := by
  have missed : ((afterInserts shortcutEdges).effects (.ofByte 1) 3).map (List.map Prod.fst) =
      some [.ofByte 5, .ofByte 4, .ofByte 3, .ofByte 2] := by
    decide +kernel
  rcases Option.map_eq_some_iff.mp missed with ⟨found, ran, nodes⟩
  refine ⟨found, ran, fun strongest => ?_⟩
  have edges : ((.ofByte 2, 1 / 2) ∈ (afterInserts shortcutEdges).graph.forward (.ofByte 1) ∧
      (.ofByte 5, 1) ∈ (afterInserts shortcutEdges).graph.forward (.ofByte 2)) ∧
      (.ofByte 6, 1) ∈ (afterInserts shortcutEdges).graph.forward (.ofByte 5) := by
    decide +kernel
  have walk := ((Walk.single edges.1.1).step edges.1.2).step edges.2
  have isIn : Uuid.ofByte 6 ∈ found.map Prod.fst :=
    (strongest.nodes _).mpr ⟨_, 3, by decide, le_refl 3, walk⟩
  rw [nodes] at isIn
  revert isIn
  decide

end CausalDagIndex

end FunDB.CausalDag
