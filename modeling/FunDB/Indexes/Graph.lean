import FunDB.Core.Record
import FunDB.Foundation.BreadthFirst
import FunDB.Foundation.Buckets
import FunDB.Foundation.EdgePaths
import FunDB.Foundation.Execution
import Mathlib.Algebra.Order.Ring.Rat

/-! # The knowledge graph

Edges with a label, by their subject and by their object. -/

namespace FunDB.Graph

open BreadthFirst Execution

structure Edge (S : Type) where
  subject : Uuid
  predicate : String
  object : Uuid
  confidence : S
  props : List UInt8
deriving DecidableEq, Repr

variable {S : Type}

def Edge.isTriple (s : Uuid) (predicate : String) (o : Uuid) (edge : Edge S) : Bool :=
  edge.subject = s ∧ edge.predicate = predicate ∧ edge.object = o

structure GraphIndex (S : Type) where
  outgoing : Buckets Uuid (Edge S)
  incoming : Buckets Uuid (Edge S)

def dropTriple (edges : Buckets Uuid (Edge S)) (key s : Uuid) (predicate : String) (o : Uuid) :
    Buckets Uuid (Edge S) :=
  match edges.lookup key with
  | some found => edges.insert key (found.filter fun edge => !edge.isTriple s predicate o)
  | none => edges

namespace GraphIndex

def new : GraphIndex S := ⟨∅, ∅⟩

def insertEdge (index : GraphIndex S) (s : Uuid) (predicate : String) (o : Uuid) (confidence : S)
    (props : List UInt8) : GraphIndex S :=
  let edge : Edge S := ⟨s, predicate, o, confidence, props⟩
  ⟨index.outgoing.push s edge, index.incoming.push o edge⟩

def deleteEdge (index : GraphIndex S) (s : Uuid) (predicate : String) (o : Uuid) : GraphIndex S :=
  ⟨dropTriple index.outgoing s s predicate o, dropTriple index.incoming o s predicate o⟩

def follow (index : GraphIndex S) (predicate : String) (node : Uuid) : List (Uuid × S) :=
  ((index.outgoing.bucket node).filter fun edge => edge.predicate = predicate).map fun edge =>
    (edge.object, edge.confidence)

def edgeCount (index : GraphIndex S) : Nat :=
  (index.outgoing.entries.map fun entry => entry.2.length).sum

/-- Breadth-first traversal, with fuel for one turn at each edge and two more. -/
def bfs [Mul S] [One S] (index : GraphIndex S) (start : Uuid) (predicate : String)
    (maxDepth : UInt32) : Option (List (StrongestWalks.Arrival Uuid S)) :=
  search (index.follow predicate) maxDepth.toNat start (index.edgeCount + 2)
    ⟨[], [⟨start, 0, 1⟩], []⟩

/-- Simple paths to a target that start with a path, with at most so many more edges. -/
def dfs (outgoing : Uuid → List (Edge S)) (target : Uuid) :
    Nat → Uuid → List Uuid → List (List Uuid)
  | hops, current, path =>
      if current = target then [path]
      else
        match hops with
        | 0 => []
        | hops + 1 => (outgoing current).flatMap fun edge =>
            -- the visited nodes are those of the path
            if edge.object ∉ path then dfs outgoing target hops edge.object (path ++ [edge.object])
            else []

def path (index : GraphIndex S) (source target : Uuid) (maxDepth : UInt32) : List (List Uuid) :=
  dfs index.outgoing.bucket target maxDepth.toNat source [source]

end GraphIndex

/-! ## Calls -/

/-- A call that changes the index. -/
inductive Call (S : Type) where
  | insertEdge (edge : Edge S)
  | deleteEdge (s : Uuid) (predicate : String) (o : Uuid)

def GraphIndex.apply (index : GraphIndex S) : Call S → GraphIndex S
  | .insertEdge edge =>
      index.insertEdge edge.subject edge.predicate edge.object edge.confidence edge.props
  | .deleteEdge s predicate o => index.deleteEdge s predicate o

/-- The edges that are in the graph after another call. -/
def change (edges : List (Edge S)) : Call S → List (Edge S)
  | .insertEdge edge => edges ++ [edge]
  | .deleteEdge s predicate o => edges.filter fun edge => !edge.isTriple s predicate o

def afterCalls (calls : List (Call S)) : GraphIndex S :=
  run GraphIndex.apply GraphIndex.new calls

/-- The edges inserted by some calls, less those deleted later. -/
def edgesAfter (calls : List (Call S)) : List (Edge S) :=
  run change [] calls

/-- What those of some edges lead to that have a label and start at a node. -/
def labelled (edges : List (Edge S)) (predicate : String) (node : Uuid) : List (Uuid × S) :=
  (edges.filter fun edge => edge.subject = node ∧ edge.predicate = predicate).map fun edge =>
    (edge.object, edge.confidence)

/-- The bucket of a node has the edges with that end. -/
def Holds (buckets : Buckets Uuid (Edge S)) (ending : Edge S → Uuid) (edges : List (Edge S)) :
    Prop :=
  ∀ node, buckets.bucket node = edges.filter fun edge => ending edge = node

section Changes

variable {buckets : Buckets Uuid (Edge S)} {ending : Edge S → Uuid} {edges : List (Edge S)}

theorem Holds.push (holds : Holds buckets ending edges) (edge : Edge S) :
    Holds (buckets.push (ending edge) edge) ending (edges ++ [edge]) := by
  intro node
  rw [Buckets.bucket_push, List.filter_append, ← holds node]
  split
  · next same =>
      subst same
      rw [List.filter_singleton, decide_eq_true rfl, cond_true]
  · next different =>
      have other : decide (ending edge = node) = false := decide_eq_false (Ne.symm different)
      rw [List.filter_singleton, other, cond_false, List.append_nil]

theorem bucket_dropTriple (buckets : Buckets Uuid (Edge S)) (key s : Uuid) (predicate : String)
    (o node : Uuid) :
    (dropTriple buckets key s predicate o).bucket node =
      if node = key then (buckets.bucket key).filter fun edge => !edge.isTriple s predicate o
      else buckets.bucket node := by
  unfold dropTriple
  split
  · next found lookup =>
      have same : buckets.bucket key = found := by rw [Buckets.bucket, lookup]; rfl
      rw [Buckets.bucket, Dict.lookup_insert, same]
      split
      · rfl
      · rfl
  · next missing =>
      have empty : buckets.bucket key = [] := by rw [Buckets.bucket, missing]; rfl
      split
      · next same => rw [same, empty]; rfl
      · rfl

theorem Holds.dropTriple (holds : Holds buckets ending edges) {key s o : Uuid}
    {predicate : String} (own : ∀ edge : Edge S, edge.isTriple s predicate o → ending edge = key) :
    Holds (dropTriple buckets key s predicate o) ending
      (edges.filter fun edge => !edge.isTriple s predicate o) := by
  intro node
  rw [bucket_dropTriple, List.filter_comm]
  split
  · next same => rw [same, holds key]
  · next different =>
      rw [holds node, List.filter_filter]
      apply List.filter_congr
      intro edge _
      by_cases here : ending edge = node
      · have kept : edge.isTriple s predicate o = false :=
          Bool.eq_false_iff.mpr fun isTriple => different (here.symm.trans (own edge isTriple))
        rw [kept, Bool.not_false, Bool.true_and]
      · rw [decide_eq_false here, Bool.and_false]

/-- Both maps of the index hold the edges of the graph. -/
theorem holds_afterCalls (calls : List (Call S)) :
    Holds (afterCalls calls).outgoing Edge.subject (edgesAfter calls) ∧
      Holds (afterCalls calls).incoming Edge.object (edgesAfter calls) := by
  induction calls using List.reverseRecOn with
  | nil => exact ⟨fun _ => rfl, fun _ => rfl⟩
  | append_singleton calls call induction =>
      have index : afterCalls (calls ++ [call]) = (afterCalls calls).apply call := run_concat ..
      have edges : edgesAfter (calls ++ [call]) = change (edgesAfter calls) call := run_concat ..
      rw [index, edges]
      cases call with
      | insertEdge edge => exact ⟨induction.1.push edge, induction.2.push edge⟩
      | deleteEdge s predicate o =>
          have parts : ∀ edge : Edge S, edge.isTriple s predicate o →
              edge.subject = s ∧ edge.predicate = predicate ∧ edge.object = o :=
            fun _ isTriple => of_decide_eq_true isTriple
          exact ⟨induction.1.dropTriple fun edge isTriple => (parts edge isTriple).1,
            induction.2.dropTriple fun edge isTriple => (parts edge isTriple).2.2⟩

theorem follow_afterCalls (calls : List (Call S)) (predicate : String) :
    (afterCalls calls).follow predicate = labelled (edgesAfter calls) predicate := by
  funext node
  rw [GraphIndex.follow, (holds_afterCalls calls).1, List.filter_filter, labelled]
  simp only [Bool.decide_and, Bool.and_comm]

end Changes

/-! ## Traversals -/

namespace GraphIndex

variable (index : GraphIndex S) (predicate : String)

theorem mem_keys_of_follow (node : Uuid) (some : index.follow predicate node ≠ []) :
    node ∈ index.outgoing.keys := by
  by_contra absent
  apply some
  rw [follow, index.outgoing.bucket_eq_nil node absent]
  rfl

theorem sum_follow_le :
    (index.outgoing.keys.map fun node => (index.follow predicate node).length).sum ≤
      index.edgeCount := by
  have keys : index.outgoing.keys = index.outgoing.entries.map Sigma.fst := rfl
  rw [keys, List.map_map, edgeCount]
  apply List.sum_le_sum
  intro entry isEntry
  have bucket : index.outgoing.bucket entry.1 = entry.2 := by
    rw [Buckets.bucket, Option.mem_def.mp (AList.mem_lookup_iff.mpr isEntry)]
    rfl
  rw [Function.comp_apply, follow, List.length_map, bucket]
  exact List.length_filter_le _ _

/-- A traversal ends with the nodes that edges with the label lead to in at most so many
steps, the nearer ones first, each once with its distance and the confidence of some
shortest walk. -/
theorem bfs_nearest [Mul S] [One S] (calls : List (Call S)) (start : Uuid) (predicate : String)
    (maxDepth : UInt32) :
    ∃ found, (afterCalls calls).bfs start predicate maxDepth = some found ∧
      Nearest (labelled (edgesAfter calls) predicate) start maxDepth.toNat found := by
  rw [← follow_afterCalls]
  apply exists_nearest ((afterCalls calls).mem_keys_of_follow predicate)
  have bound := (afterCalls calls).sum_follow_le predicate
  omega

/-- Two nodes with edges to each other, a loop and a deleted shortcut. -/
def sampleCalls : List (Call ℚ) :=
  [.insertEdge ⟨.ofByte 1, "a", .ofByte 2, 1 / 2, []⟩,
    .insertEdge ⟨.ofByte 2, "a", .ofByte 1, 1, []⟩, .insertEdge ⟨.ofByte 2, "a", .ofByte 2, 1, []⟩,
    .insertEdge ⟨.ofByte 1, "a", .ofByte 3, 1, []⟩, .deleteEdge (.ofByte 1) "a" (.ofByte 3),
    .insertEdge ⟨.ofByte 2, "a", .ofByte 3, 1 / 3, []⟩]

example : ((afterCalls sampleCalls).bfs (.ofByte 1) "a" 5).map (List.map fun arrival =>
    (arrival.node, arrival.depth, arrival.strength)) =
      some [(.ofByte 2, 1, 1 / 2), (.ofByte 3, 2, 1 / 6)] := by
  decide +kernel

end GraphIndex

/-! ## Simple paths -/

section Paths

open EdgePaths

variable {outgoing : Uuid → List (Edge S)} {target current : Uuid} {hops : Nat}
variable {path : List Uuid} {edges : List (Edge S)}

def nodes (edges : List (Edge S)) : List Uuid := edges.map Edge.object

/-- Edges that complete a path to the target, with no node twice. -/
structure Completes (target : Uuid) (hops : Nat) (current : Uuid) (path : List Uuid)
    (edges : List (Edge S)) : Prop where
  ends : (nodes edges).getLastD current = target
  simple : (path ++ nodes edges).Nodup
  short : edges.length ≤ hops

theorem Completes.eq_nil (completes : Completes target hops current path edges)
    (isNode : target ∈ path) : edges = [] := by
  by_contra some
  have someNodes : nodes edges ≠ [] := fun none => some (List.map_eq_nil_iff.mp none)
  have returns : target ∈ nodes edges := by
    have last := completes.ends
    rw [List.getLastD_eq_getLast?, List.getLast?_eq_getLast_of_ne_nil someNodes,
      Option.getD_some] at last
    exact last ▸ List.getLast_mem someNodes
  exact (List.nodup_append.mp completes.simple).2.2 target isNode target returns rfl

theorem completes_cons_iff {edge : Edge S} :
    Completes target (hops + 1) current path (edge :: edges) ↔
      edge.object ∉ path ∧ Completes target hops edge.object (path ++ [edge.object]) edges := by
  have longer : path ++ nodes (edge :: edges) = path ++ [edge.object] ++ nodes edges := by
    rw [List.append_assoc]
    rfl
  have sameEnd : (nodes (edge :: edges)).getLastD current =
      (nodes edges).getLastD edge.object := List.getLastD_cons
  constructor
  · intro completes
    have ends := completes.ends
    rw [sameEnd] at ends
    have simple := completes.simple
    rw [longer] at simple
    refine ⟨fun seen => ?_, ends, simple, Nat.le_of_succ_le_succ completes.short⟩
    have start := (List.nodup_append.mp simple).1
    exact (List.nodup_append.mp start).2.2 edge.object seen edge.object
      (List.mem_singleton_self _) rfl
  · intro both
    exact ⟨sameEnd.trans both.2.ends, longer ▸ both.2.simple, Nat.succ_le_succ both.2.short⟩

theorem exists_enumerates_of_arrival (simple : path.Nodup) (isNode : target ∈ path) :
    ∃ ways, Enumerates Edge.object outgoing target (Completes target hops target path)
      (fun edges => path ++ nodes edges) [path] ways := by
  have only (edges : List (Edge S)) : Completes target hops target path edges ↔ edges = [] := by
    constructor
    · exact fun completes => completes.eq_nil isNode
    · intro none
      subst none
      exact ⟨rfl, (List.append_nil path).symm ▸ simple, Nat.zero_le _⟩
  have whole : path ++ nodes ([] : List (Edge S)) = path := List.append_nil path
  have found : Enumerates Edge.object outgoing target (Completes target hops target path)
      (fun edges => path ++ nodes edges) [path ++ nodes []] [[]] := enumerates_end only
  rw [whole] at found
  exact ⟨_, found⟩

/-- The search finds each way to complete a path once. -/
theorem exists_enumerates_dfs (simple : path.Nodup) (isNode : current ∈ path) :
    ∃ ways, Enumerates Edge.object outgoing current (Completes target hops current path)
      (fun edges => path ++ nodes edges)
      (GraphIndex.dfs outgoing target hops current path) ways := by
  induction hops generalizing current path with
  | zero =>
      rw [GraphIndex.dfs]
      split
      · next arrived =>
          subst arrived
          exact exists_enumerates_of_arrival simple isNode
      · next going =>
          refine ⟨[], enumerates_nothing fun edges completes => going ?_⟩
          have none := List.eq_nil_of_length_eq_zero (Nat.le_zero.mp completes.short)
          subst none
          exact completes.ends
  | succ hops induction =>
      rw [GraphIndex.dfs]
      split
      · next arrived =>
          subst arrived
          exact exists_enumerates_of_arrival simple isNode
      · next going =>
          apply exists_enumerates_flatMap
          · intro edges completes
            apply List.exists_cons_of_ne_nil
            intro none
            subst none
            exact going completes.ends
          · exact fun edge _ rest => completes_cons_iff
          · intro edge _
            by_cases seen : edge.object ∈ path
            · refine ⟨[], ?_⟩
              rw [if_neg (not_not.mpr seen)]
              exact enumerates_nothing fun _ both => both.1 seen
            · have longer : (path ++ [edge.object]).Nodup :=
                List.nodup_append.mpr ⟨simple, List.nodup_singleton _, fun node isEarlier last isLast =>
                  fun same => seen (List.mem_singleton.mp isLast ▸ same ▸ isEarlier)⟩
              rcases induction longer (List.mem_append_right _ List.mem_cons_self) with
                ⟨ways, enumerates⟩
              refine ⟨ways, ?_⟩
              rw [if_pos seen]
              apply enumerates.congr (fun _ _ _ => (and_iff_right seen).symm)
              intro rest
              rw [List.append_assoc]
              rfl

end Paths

namespace GraphIndex

open EdgePaths

/-- After any calls, each simple path of at most so many of the edges that are left is
found once, as the nodes on it. -/
theorem path_exact (calls : List (Call S)) (source target : Uuid) (maxDepth : UInt32) :
    ∃ ways, Enumerates Edge.object
      (fun node => (edgesAfter calls).filter fun edge => edge.subject = node) source
      (fun edges => (nodes edges).getLastD source = target ∧ (source :: nodes edges).Nodup ∧
        edges.length ≤ maxDepth.toNat)
      (fun edges => source :: nodes edges)
      ((afterCalls calls).path source target maxDepth) ways := by
  have buckets : (afterCalls calls).outgoing.bucket =
      fun node => (edgesAfter calls).filter fun edge => edge.subject = node :=
    funext (holds_afterCalls calls).1
  have found : ∃ ways, Enumerates Edge.object (afterCalls calls).outgoing.bucket source
      (Completes target maxDepth.toNat source [source]) (fun edges => [source] ++ nodes edges)
      (dfs (afterCalls calls).outgoing.bucket target maxDepth.toNat source [source]) ways :=
    exists_enumerates_dfs (List.nodup_singleton source) (List.mem_singleton_self source)
  rw [buckets] at found
  rcases found with ⟨ways, enumerates⟩
  refine ⟨ways, ?_⟩
  rw [path, buckets]
  exact enumerates.congr (fun _ edges _ =>
    ⟨fun completes => ⟨completes.ends, completes.simple, completes.short⟩,
      fun all => ⟨all.1, all.2.1, all.2.2⟩⟩) fun _ => rfl

example : (afterCalls sampleCalls).path (.ofByte 1) (.ofByte 3) 2 =
    [[.ofByte 1, .ofByte 2, .ofByte 3]] := by
  decide +kernel

end GraphIndex

end FunDB.Graph
