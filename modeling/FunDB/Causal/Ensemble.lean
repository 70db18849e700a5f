import FunDB.Causal.PcDiscovery
import FunDB.Foundation.Buckets
import Mathlib.Data.Finset.Sort
import Mathlib.Data.List.Sort
import Mathlib.Data.Prod.Lex
import Mathlib.Data.String.Basic
import Mathlib.Data.Sym.Sym2

/-! # Ensemble discovery

The edges that several methods propose, counted for each pair of variables. -/

namespace FunDB.Scm

structure EnsembleEdge where
  source : String
  target : String
  support : UInt8
  sources : List String
  orientation : EdgeOrientation
deriving DecidableEq, Repr

structure EdgeAccumulator where
  sources : Finset String
  directedFrom : Finset String
  hasUndirected : Bool

namespace EnsembleDiscovery

/-! ## Merging -/

def canonical (a b : String) : String × String :=
  if a ≤ b then (a, b) else (b, a)

structure Proposal where
  method : String
  source : String
  target : String
  directed : Bool

def ofPc (edge : PcEdge) : Proposal :=
  ⟨"PC", edge.source, edge.target, edge.orientation = .directed⟩

def ofGranger (pair : String × String) : Proposal := ⟨"Granger", pair.1, pair.2, true⟩

def ofExplicit (edge : String × String) : Proposal := ⟨"Explicit", edge.1, edge.2, true⟩

def accumulate (acc : EdgeAccumulator) (proposal : Proposal) : EdgeAccumulator where
  sources := insert proposal.method acc.sources
  directedFrom :=
    if proposal.directed then insert proposal.source acc.directedFrom else acc.directedFrom
  hasUndirected := acc.hasUndirected || !proposal.directed

def propose (info : Dict (String × String) EdgeAccumulator) (proposal : Proposal) :
    Dict (String × String) EdgeAccumulator :=
  let key := canonical proposal.source proposal.target
  info.insert key (accumulate ((info.lookup key).getD ⟨∅, ∅, false⟩) proposal)

/-- The three loops over the lists. -/
def edgeInfo (pcEdges : List PcEdge) (grangerPairs explicitEdges : List (String × String)) :
    Dict (String × String) EdgeAccumulator :=
  let info := pcEdges.foldl (fun info edge => propose info (ofPc edge)) ∅
  let info := grangerPairs.foldl (fun info pair => propose info (ofGranger pair)) info
  explicitEdges.foldl (fun info edge => propose info (ofExplicit edge)) info

def byName (left right : String) : Prop := left ≤ right

instance byName.decidable : DecidableRel byName := fun left right =>
  inferInstanceAs (Decidable (left ≤ right))

instance byName.trans : IsTrans String byName := ⟨fun _ _ _ => le_trans⟩

instance byName.antisymm : Std.Antisymm byName := ⟨fun _ _ => le_antisymm⟩

instance byName.total : Std.Total byName := ⟨fun left right => le_total left right⟩

/-- The edge of a pair, if enough methods propose it. -/
def edgeOf (minSupport : UInt8) (key : String × String) (acc : EdgeAccumulator) :
    Option EnsembleEdge :=
  let (a, b) := key
  let support := UInt8.ofNat acc.sources.card
  if support < minSupport then none
  else
    let (source, target, orientation) : String × String × EdgeOrientation :=
      match acc.directedFrom.sort byName with
      | [directedFrom] => (directedFrom, if directedFrom = a then b else a, .directed)
      | [] => (a, b, .undirected)
      | _ => (a, b, .directionUncertain)
    some ⟨source, target, support, acc.sources.sort byName, orientation⟩

def byEnds (left right : EnsembleEdge) : Prop :=
  toLex (left.source, left.target) ≤ toLex (right.source, right.target)

instance byEnds.decidable : DecidableRel byEnds := fun left right =>
  inferInstanceAs (Decidable
    (toLex (left.source, left.target) ≤ toLex (right.source, right.target)))

/-- The result for the entries of the map in some order. -/
def mergeEntries (entries : List (Sigma fun _ : String × String => EdgeAccumulator))
    (minSupport : UInt8) : List EnsembleEdge :=
  (entries.filterMap fun entry => edgeOf minSupport entry.1 entry.2).insertionSort byEnds

def merge (pcEdges : List PcEdge) (grangerPairs explicitEdges : List (String × String))
    (minSupport : UInt8) : List EnsembleEdge :=
  mergeEntries (edgeInfo pcEdges grangerPairs explicitEdges).entries minSupport

/-! ## Votes -/

/-- What the methods propose, in the order of the loops. -/
def votes (pcEdges : List PcEdge) (grangerPairs explicitEdges : List (String × String)) :
    List Proposal :=
  pcEdges.map ofPc ++ grangerPairs.map ofGranger ++ explicitEdges.map ofExplicit

def Proposal.ends (proposal : Proposal) : Sym2 String := s(proposal.source, proposal.target)

def ends (edge : EnsembleEdge) : Sym2 String := s(edge.source, edge.target)

/-- The methods that propose a pair in either direction. -/
def methodsOf (proposals : List Proposal) (a b : String) : Finset String :=
  ((proposals.filter fun proposal => proposal.ends = s(a, b)).map Proposal.method).toFinset

/-- Some proposal for a pair is directed, and those that are start at the first. -/
def OneSided (proposals : List Proposal) (a b : String) : Prop :=
  (∃ proposal ∈ proposals, proposal.ends = s(a, b) ∧ proposal.directed = true) ∧
    ∀ proposal ∈ proposals, proposal.ends = s(a, b) → proposal.directed = true →
      proposal.source = a

def NoneDirected (proposals : List Proposal) (a b : String) : Prop :=
  ∀ proposal ∈ proposals, proposal.ends = s(a, b) → proposal.directed = false

/-- The edges are those of the pairs that enough methods propose, as they propose them. -/
structure Faithful (proposals : List Proposal) (minSupport : UInt8) (edges : List EnsembleEdge) :
    Prop where
  distinct : (edges.map ends).Nodup
  returned : ∀ a b, s(a, b) ∈ edges.map ends ↔
    (methodsOf proposals a b).Nonempty ∧ minSupport.toNat ≤ (methodsOf proposals a b).card
  support : ∀ edge ∈ edges,
    edge.support.toNat = (methodsOf proposals edge.source edge.target).card
  sources : ∀ edge ∈ edges, edge.sources = (methodsOf proposals edge.source edge.target).sort byName
  directed : ∀ edge ∈ edges, ∀ a b, ends edge = s(a, b) →
    (edge.source = a ∧ edge.target = b ∧ edge.orientation = .directed ↔ OneSided proposals a b)
  undirected : ∀ edge ∈ edges,
    edge.orientation = .undirected ↔ NoneDirected proposals edge.source edge.target
  uncertain : ∀ edge ∈ edges, edge.orientation = .directionUncertain ↔
    ¬NoneDirected proposals edge.source edge.target ∧
      ¬OneSided proposals edge.source edge.target ∧ ¬OneSided proposals edge.target edge.source

/-! ## The map of the pairs -/

theorem ends_canonical (a b : String) : s((canonical a b).1, (canonical a b).2) = s(a, b) := by
  unfold canonical
  split
  · rfl
  · exact Sym2.eq_swap

theorem canonical_comm (a b : String) : canonical a b = canonical b a := by
  unfold canonical
  rcases lt_trichotomy a b with below | rfl | above
  · rw [if_pos below.le, if_neg below.not_ge]
  · rfl
  · rw [if_neg above.not_ge, if_pos above.le]

theorem canonical_eq_iff (a b c d : String) :
    canonical a b = canonical c d ↔ s(a, b) = s(c, d) := by
  constructor
  · intro same
    rw [← ends_canonical a b, same, ends_canonical]
  · intro same
    rcases Sym2.eq_iff.mp same with ⟨rfl, rfl⟩ | ⟨rfl, rfl⟩
    · rfl
    · exact canonical_comm a b

def proposalsOf (proposals : List Proposal) (key : String × String) : List Proposal :=
  proposals.filter fun proposal => canonical proposal.source proposal.target = key

/-- What some proposals of one pair make known. -/
def gather (proposals : List Proposal) : EdgeAccumulator where
  sources := (proposals.map Proposal.method).toFinset
  directedFrom := ((proposals.filter Proposal.directed).map Proposal.source).toFinset
  hasUndirected := proposals.any fun proposal => !proposal.directed

theorem gather_concat (proposals : List Proposal) (proposal : Proposal) :
    gather (proposals ++ [proposal]) = accumulate (gather proposals) proposal := by
  have insertLast : ∀ names : List String, ∀ name,
      (names ++ [name]).toFinset = insert name names.toFinset := by
    intro names name
    ext other
    simp
  cases directed : proposal.directed with
  | true => simp [gather, accumulate, directed, insertLast]
  | false => simp [gather, accumulate, directed, insertLast]

theorem gather_perm {first second : List Proposal} (same : first.Perm second) :
    gather first = gather second := by
  have sources := List.toFinset_eq_of_perm _ _ (same.map Proposal.method)
  have directedFrom := List.toFinset_eq_of_perm _ _
    ((same.filter Proposal.directed).map Proposal.source)
  have undirected : (first.any fun proposal => !proposal.directed) =
      second.any fun proposal => !proposal.directed := same.any_eq
  rw [gather, gather, sources, directedFrom, undirected]

theorem lookup_foldl_propose (proposals : List Proposal) (key : String × String) :
    (proposals.foldl propose ∅).lookup key =
      if proposalsOf proposals key = [] then none
      else some (gather (proposalsOf proposals key)) := by
  induction proposals using List.reverseRecOn with
  | nil => rfl
  | append_singleton proposals proposal induction =>
      rw [List.foldl_append, List.foldl_cons, List.foldl_nil, propose, Dict.lookup_insert]
      by_cases own : canonical proposal.source proposal.target = key
      · have more : proposalsOf (proposals ++ [proposal]) key =
            proposalsOf proposals key ++ [proposal] := by
          simp [proposalsOf, own]
        have before : ((proposals.foldl propose ∅).lookup key).getD ⟨∅, ∅, false⟩ =
            gather (proposalsOf proposals key) := by
          rw [induction]
          split
          · next none => rw [none]; rfl
          · rfl
        rw [if_pos own.symm, own, before, more, gather_concat, if_neg (by simp)]
      · have same : proposalsOf (proposals ++ [proposal]) key = proposalsOf proposals key := by
          simp [proposalsOf, own]
        rw [if_neg (Ne.symm own), induction, same]

theorem edgeInfo_eq (pcEdges : List PcEdge) (grangerPairs explicitEdges : List (String × String)) :
    edgeInfo pcEdges grangerPairs explicitEdges =
      (votes pcEdges grangerPairs explicitEdges).foldl propose ∅ := by
  rw [votes, List.foldl_append, List.foldl_append, List.foldl_map, List.foldl_map,
    List.foldl_map]
  rfl

/-! ## The edge of a pair -/

section Edge

variable {proposals : List Proposal} {minSupport : UInt8} {key : String × String}
variable {a b c d : String} {edge : EnsembleEdge}

theorem proposalsOf_canonical (proposals : List Proposal) (a b : String) :
    proposalsOf proposals (canonical a b) =
      proposals.filter fun proposal => proposal.ends = s(a, b) := by
  apply List.filter_congr
  intro proposal _
  exact decide_eq_decide.mpr (canonical_eq_iff _ _ _ _)

theorem sources_gather (proposals : List Proposal) (a b : String) :
    (gather (proposalsOf proposals (canonical a b))).sources = methodsOf proposals a b := by
  rw [gather, proposalsOf_canonical, methodsOf]

theorem mem_directedFrom_iff (a b name : String) :
    name ∈ (gather (proposalsOf proposals (canonical a b))).directedFrom ↔
      ∃ proposal ∈ proposals, proposal.ends = s(a, b) ∧ proposal.directed = true ∧
        proposal.source = name := by
  rw [gather, proposalsOf_canonical, List.mem_toFinset, List.mem_map]
  apply exists_congr
  intro proposal
  rw [List.mem_filter, List.mem_filter, decide_eq_true_eq]
  tauto

theorem directedFrom_eq_singleton_iff (a b name : String) :
    (gather (proposalsOf proposals (canonical a b))).directedFrom = {name} ↔
      (∃ proposal ∈ proposals, proposal.ends = s(a, b) ∧ proposal.directed = true) ∧
        ∀ proposal ∈ proposals, proposal.ends = s(a, b) → proposal.directed = true →
          proposal.source = name := by
  rw [Finset.eq_singleton_iff_nonempty_unique_mem]
  apply and_congr
  · constructor
    · rintro ⟨name, isIn⟩
      rcases (mem_directedFrom_iff a b name).mp isIn with ⟨proposal, isProposal, joins, directed, -⟩
      exact ⟨proposal, isProposal, joins, directed⟩
    · rintro ⟨proposal, isProposal, joins, directed⟩
      exact ⟨_, (mem_directedFrom_iff a b _).mpr ⟨proposal, isProposal, joins, directed, rfl⟩⟩
  · constructor
    · intro all proposal isProposal joins directed
      exact all _ ((mem_directedFrom_iff a b _).mpr ⟨proposal, isProposal, joins, directed, rfl⟩)
    · intro all other isIn
      rcases (mem_directedFrom_iff a b other).mp isIn with
        ⟨proposal, isProposal, joins, directed, rfl⟩
      exact all proposal isProposal joins directed

theorem directedFrom_eq_empty_iff (a b : String) :
    (gather (proposalsOf proposals (canonical a b))).directedFrom = ∅ ↔
      NoneDirected proposals a b := by
  rw [Finset.eq_empty_iff_forall_notMem]
  constructor
  · intro none proposal isProposal joins
    apply Bool.eq_false_iff.mpr
    intro directed
    exact none _ ((mem_directedFrom_iff a b _).mpr ⟨proposal, isProposal, joins, directed, rfl⟩)
  · intro none name isIn
    rcases (mem_directedFrom_iff a b name).mp isIn with ⟨proposal, isProposal, joins, directed, -⟩
    exact Bool.false_ne_true ((none proposal isProposal joins).symm.trans directed)

theorem card_methodsOf_le (pcEdges : List PcEdge)
    (grangerPairs explicitEdges : List (String × String)) (a b : String) :
    (methodsOf (votes pcEdges grangerPairs explicitEdges) a b).card ≤ 3 := by
  have known : methodsOf (votes pcEdges grangerPairs explicitEdges) a b ⊆
      {"PC", "Granger", "Explicit"} := by
    intro method isMethod
    rcases List.mem_map.mp (List.mem_toFinset.mp isMethod) with ⟨proposal, isProposal, rfl⟩
    rcases List.mem_append.mp (List.mem_of_mem_filter isProposal) with isEarlier | isExplicit
    · rcases List.mem_append.mp isEarlier with isPc | isGranger
      · rcases List.mem_map.mp isPc with ⟨edge, -, rfl⟩
        exact Finset.mem_insert_self _ _
      · rcases List.mem_map.mp isGranger with ⟨pair, -, rfl⟩
        exact Finset.mem_insert_of_mem (Finset.mem_insert_self _ _)
    · rcases List.mem_map.mp isExplicit with ⟨pair, -, rfl⟩
      exact Finset.mem_insert_of_mem (Finset.mem_insert_of_mem (Finset.mem_singleton_self _))
  exact (Finset.card_le_card known).trans (by decide)

/-- What is known of an edge of a pair. -/
structure Describes (proposals : List Proposal) (a b : String) (edge : EnsembleEdge) : Prop where
  ends : ends edge = s(a, b)
  support : edge.support.toNat = (methodsOf proposals a b).card
  sources : edge.sources = (methodsOf proposals a b).sort byName
  directed : edge.orientation = .directed → OneSided proposals edge.source edge.target
  undirected : edge.orientation = .undirected → NoneDirected proposals a b
  uncertain : edge.orientation = .directionUncertain →
    ¬NoneDirected proposals a b ∧ ∀ c d, s(c, d) = s(a, b) → ¬OneSided proposals c d

theorem oneSided_iff (joins : s(a, b) = s(c, d)) :
    OneSided proposals a b ↔
      (gather (proposalsOf proposals (canonical c d))).directedFrom = {a} := by
  rw [directedFrom_eq_singleton_iff, OneSided, joins]

theorem noneDirected_congr (joins : s(a, b) = s(c, d)) :
    NoneDirected proposals a b ↔ NoneDirected proposals c d := by
  rw [NoneDirected, NoneDirected, joins]

/-- A source of a pair and the other variable of the pair are the pair. -/
theorem ends_of_mem_directedFrom {name : String}
    (isSource : name ∈ (gather (proposalsOf proposals (canonical a b))).directedFrom) :
    s(name, if name = (canonical a b).1 then (canonical a b).2 else (canonical a b).1) =
      s(a, b) := by
  rcases (mem_directedFrom_iff a b name).mp isSource with ⟨proposal, -, joins, -, rfl⟩
  have isEnd : proposal.source ∈ s(a, b) := joins ▸ Sym2.mem_mk_left _ _
  rw [← ends_canonical a b] at isEnd ⊢
  rcases Sym2.mem_iff.mp isEnd with first | second
  · rw [if_pos first, first]
  · split
    · next first => rw [first]
    · rw [second, Sym2.eq_swap]

/-- A pair has an edge if enough methods propose it. -/
theorem edgeOf_spec (few : (methodsOf proposals a b).card < 256) (minSupport : UInt8) :
    minSupport.toNat ≤ (methodsOf proposals a b).card ∧
        (∃ edge, edgeOf minSupport (canonical a b)
          (gather (proposalsOf proposals (canonical a b))) = some edge ∧
            Describes proposals a b edge) ∨
      (methodsOf proposals a b).card < minSupport.toNat ∧
        edgeOf minSupport (canonical a b)
          (gather (proposalsOf proposals (canonical a b))) = none := by
  have count : (UInt8.ofNat (methodsOf proposals a b).card).toNat =
      (methodsOf proposals a b).card := UInt8.toNat_ofNat_of_lt' few
  unfold edgeOf
  dsimp only
  rw [sources_gather]
  split
  · next less =>
      rw [UInt8.lt_iff_toNat_lt, count] at less
      exact .inr ⟨less, rfl⟩
  · next enough =>
      rw [UInt8.lt_iff_toNat_lt, count, not_lt] at enough
      refine .inl ⟨enough, _, rfl, ?_⟩
      split
      · next name sorted =>
          -- One source: the edge leads from it to the other variable.
          have single : (gather (proposalsOf proposals (canonical a b))).directedFrom = {name} := by
            rw [← Finset.sort_toFinset (gather _).directedFrom byName, sorted]
            rfl
          have joins := ends_of_mem_directedFrom (single ▸ Finset.mem_singleton_self name)
          exact ⟨joins, count, rfl, fun _ => (oneSided_iff joins).mpr single,
            nofun, nofun⟩
      · next sorted =>
          have empty : (gather (proposalsOf proposals (canonical a b))).directedFrom = ∅ := by
            rw [← Finset.sort_toFinset (gather _).directedFrom byName, sorted]
            rfl
          exact ⟨ends_canonical a b, count, rfl, nofun,
            fun _ => (directedFrom_eq_empty_iff a b).mp empty, nofun⟩
      · next notSingle notEmpty =>
          refine ⟨ends_canonical a b, count, rfl, nofun,
            nofun, fun _ => ⟨fun none => ?_, ?_⟩⟩
          · apply notEmpty
            rw [(directedFrom_eq_empty_iff a b).mpr none, Finset.sort_empty]
          · intro c d joins oneSided
            apply notSingle c
            rw [(oneSided_iff joins).mp oneSided, Finset.sort_singleton]

end Edge

/-! ## All edges -/

section Merge

variable {pcEdges : List PcEdge} {grangerPairs explicitEdges : List (String × String)}
variable {minSupport : UInt8} {edge : EnsembleEdge}

theorem methodsOf_nonempty_iff (proposals : List Proposal) (a b : String) :
    (methodsOf proposals a b).Nonempty ↔ proposalsOf proposals (canonical a b) ≠ [] := by
  rw [proposalsOf_canonical, methodsOf, List.toFinset_nonempty_iff, ne_eq, List.map_eq_nil_iff]

theorem mem_entries_iff (entry : Sigma fun _ : String × String => EdgeAccumulator) :
    entry ∈ (edgeInfo pcEdges grangerPairs explicitEdges).entries ↔
      ∃ a b, (methodsOf (votes pcEdges grangerPairs explicitEdges) a b).Nonempty ∧
        entry = ⟨canonical a b,
          gather (proposalsOf (votes pcEdges grangerPairs explicitEdges) (canonical a b))⟩ := by
  have lookup := lookup_foldl_propose (votes pcEdges grangerPairs explicitEdges) entry.1
  rw [← edgeInfo_eq] at lookup
  have isEntry : entry ∈ (edgeInfo pcEdges grangerPairs explicitEdges).entries ↔
      (edgeInfo pcEdges grangerPairs explicitEdges).lookup entry.1 = some entry.2 :=
    AList.mem_lookup_iff.symm
  rw [isEntry, lookup]
  constructor
  · intro found
    split at found
    · cases found
    · next some =>
        rcases List.exists_mem_of_ne_nil _ some with ⟨proposal, isProposal⟩
        have own : canonical proposal.source proposal.target = entry.1 :=
          of_decide_eq_true (List.mem_filter.mp isProposal).2
        refine ⟨proposal.source, proposal.target, ?_, ?_⟩
        · rwa [methodsOf_nonempty_iff, own]
        · rw [own, Option.some_inj.mp found]
  · rintro ⟨a, b, some, rfl⟩
    rw [if_neg ((methodsOf_nonempty_iff _ a b).mp some)]

theorem mem_mergeEntries_iff
    (entries : List (Sigma fun _ : String × String => EdgeAccumulator)) :
    edge ∈ mergeEntries entries minSupport ↔
      ∃ entry ∈ entries, edgeOf minSupport entry.1 entry.2 = some edge := by
  rw [mergeEntries, (List.perm_insertionSort _ _).mem_iff, List.mem_filterMap]

theorem mem_merge_iff : edge ∈ merge pcEdges grangerPairs explicitEdges minSupport ↔
    ∃ a b, (methodsOf (votes pcEdges grangerPairs explicitEdges) a b).Nonempty ∧
      edgeOf minSupport (canonical a b)
        (gather (proposalsOf (votes pcEdges grangerPairs explicitEdges) (canonical a b))) =
          some edge := by
  rw [merge, mem_mergeEntries_iff]
  constructor
  · rintro ⟨entry, isEntry, isEdge⟩
    rcases (mem_entries_iff entry).mp isEntry with ⟨a, b, some, rfl⟩
    exact ⟨a, b, some, isEdge⟩
  · rintro ⟨a, b, some, isEdge⟩
    exact ⟨_, (mem_entries_iff _).mpr ⟨a, b, some, rfl⟩, isEdge⟩

/-- What is known of an edge that a pair has. -/
theorem describes_of_edgeOf {a b : String}
    (found : edgeOf minSupport (canonical a b) (gather
      (proposalsOf (votes pcEdges grangerPairs explicitEdges) (canonical a b))) = some edge) :
    minSupport.toNat ≤ (methodsOf (votes pcEdges grangerPairs explicitEdges) a b).card ∧
      Describes (votes pcEdges grangerPairs explicitEdges) a b edge := by
  have few : (methodsOf (votes pcEdges grangerPairs explicitEdges) a b).card < 256 :=
    (card_methodsOf_le ..).trans_lt (by decide)
  rcases edgeOf_spec few minSupport with ⟨enough, other, isOther, describes⟩ | ⟨-, none⟩
  · cases isOther.symm.trans found
    exact ⟨enough, describes⟩
  · cases none.symm.trans found

theorem nodup_ends : ((merge pcEdges grangerPairs explicitEdges minSupport).map ends).Nodup := by
  have sorted : ((merge pcEdges grangerPairs explicitEdges minSupport).map ends).Perm
      (((edgeInfo pcEdges grangerPairs explicitEdges).entries.filterMap fun entry =>
        edgeOf minSupport entry.1 entry.2).map ends) :=
    (List.perm_insertionSort _ _).map ends
  rw [sorted.nodup_iff, List.Nodup, List.pairwise_map, List.pairwise_filterMap]
  have keys := List.pairwise_map.mp (edgeInfo pcEdges grangerPairs explicitEdges).nodupKeys
  apply keys.imp_of_mem
  intro first second isFirst isSecond different edge isEdge other isOther same
  rcases (mem_entries_iff first).mp isFirst with ⟨a, b, -, rfl⟩
  rcases (mem_entries_iff second).mp isSecond with ⟨c, d, -, rfl⟩
  apply different
  apply (canonical_eq_iff a b c d).mpr
  rw [← (describes_of_edgeOf isEdge).2.ends, ← (describes_of_edgeOf isOther).2.ends, same]

theorem not_noneDirected_of_oneSided {proposals : List Proposal} {a b c d : String}
    (oneSided : OneSided proposals a b) (joins : s(a, b) = s(c, d)) :
    ¬NoneDirected proposals c d := by
  intro none
  rcases oneSided.1 with ⟨proposal, isProposal, same, directed⟩
  exact Bool.false_ne_true
    ((none proposal isProposal (same.trans joins)).symm.trans directed)

theorem OneSided.eq {proposals : List Proposal} {a b c d : String}
    (oneSided : OneSided proposals a b) (other : OneSided proposals c d)
    (joins : s(a, b) = s(c, d)) : a = c ∧ b = d := by
  rcases oneSided.1 with ⟨proposal, isProposal, same, directed⟩
  have first : proposal.source = a := oneSided.2 proposal isProposal same directed
  have second : proposal.source = c := other.2 proposal isProposal (same.trans joins) directed
  have sameSource : a = c := first.symm.trans second
  subst sameSource
  exact ⟨rfl, Sym2.congr_right.mp joins⟩

/-- Of the three orientations a pair has the one that its proposals give it. -/
theorem Describes.orientation {proposals : List Proposal} {a b : String}
    (describes : Describes proposals a b edge) :
    (∀ c d, s(c, d) = s(a, b) → (edge.source = c ∧ edge.target = d ∧
        edge.orientation = .directed ↔ OneSided proposals c d)) ∧
      (edge.orientation = .undirected ↔ NoneDirected proposals a b) ∧
      (edge.orientation = .directionUncertain ↔
        ¬NoneDirected proposals a b ∧ ¬OneSided proposals a b ∧ ¬OneSided proposals b a) := by
  have joins : s(edge.source, edge.target) = s(a, b) := describes.ends
  cases isOrientation : edge.orientation with
  | directed =>
      have oneSided := describes.directed isOrientation
      have some := not_noneDirected_of_oneSided oneSided joins
      refine ⟨fun c d same => ⟨?_, fun other => ?_⟩, iff_of_false nofun some,
        iff_of_false nofun fun none => ?_⟩
      · rintro ⟨rfl, rfl, -⟩
        exact oneSided
      · rcases oneSided.eq other (joins.trans same.symm) with ⟨sameSource, sameTarget⟩
        exact ⟨sameSource, sameTarget, rfl⟩
      · rcases Sym2.eq_iff.mp joins with ⟨rfl, rfl⟩ | ⟨rfl, rfl⟩
        · exact none.2.1 oneSided
        · exact none.2.2 oneSided
  | undirected =>
      have none := describes.undirected isOrientation
      refine ⟨fun c d same => iff_of_false (fun both => nomatch both.2.2) fun oneSided => ?_,
        iff_of_true rfl none, iff_of_false nofun fun both => both.1 none⟩
      exact not_noneDirected_of_oneSided oneSided same none
  | directionUncertain =>
      rcases describes.uncertain isOrientation with ⟨some, neither⟩
      refine ⟨fun c d same => iff_of_false (fun both => nomatch both.2.2) (neither c d same),
        iff_of_false nofun some, iff_of_true rfl ⟨some, neither a b rfl, ?_⟩⟩
      exact neither b a Sym2.eq_swap

theorem methodsOf_congr {proposals : List Proposal} {a b c d : String}
    (joins : s(a, b) = s(c, d)) : methodsOf proposals a b = methodsOf proposals c d := by
  rw [methodsOf, methodsOf, joins]

section Merged

variable (pcEdges : List PcEdge) (grangerPairs explicitEdges : List (String × String))
variable (minSupport : UInt8)

theorem describes_of_mem_merge {edge : EnsembleEdge}
    (isEdge : edge ∈ merge pcEdges grangerPairs explicitEdges minSupport) :
    Describes (votes pcEdges grangerPairs explicitEdges) edge.source edge.target edge := by
  rcases mem_merge_iff.mp isEdge with ⟨a, b, -, found⟩
  have describes := (describes_of_edgeOf found).2
  have joins : s(edge.source, edge.target) = s(a, b) := describes.ends
  exact {
    ends := rfl
    support := by rw [describes.support, methodsOf_congr joins]
    sources := by rw [describes.sources, methodsOf_congr joins]
    directed := describes.directed
    undirected := fun isUndirected =>
      (noneDirected_congr joins).mpr (describes.undirected isUndirected)
    uncertain := fun isUncertain => by
      rw [noneDirected_congr joins, joins]
      exact describes.uncertain isUncertain }

/-- The pairs that are returned are those that enough methods propose. -/
theorem mem_ends_merge_iff (a b : String) :
    s(a, b) ∈ (merge pcEdges grangerPairs explicitEdges minSupport).map ends ↔
      (methodsOf (votes pcEdges grangerPairs explicitEdges) a b).Nonempty ∧
        minSupport.toNat ≤ (methodsOf (votes pcEdges grangerPairs explicitEdges) a b).card := by
  rw [List.mem_map]
  constructor
  · intro returned
    rcases returned with ⟨edge, isEdge, joins⟩
    rcases mem_merge_iff.mp isEdge with ⟨c, d, some, found⟩
    rcases describes_of_edgeOf found with ⟨enough, describes⟩
    have same : methodsOf (votes pcEdges grangerPairs explicitEdges) a b =
        methodsOf (votes pcEdges grangerPairs explicitEdges) c d :=
      methodsOf_congr (joins.symm.trans describes.ends)
    rw [same]
    exact ⟨some, enough⟩
  · intro proposed
    rcases proposed with ⟨some, enough⟩
    have few : (methodsOf (votes pcEdges grangerPairs explicitEdges) a b).card < 256 :=
      (card_methodsOf_le ..).trans_lt (by decide)
    rcases edgeOf_spec few minSupport with ⟨-, edge, found, describes⟩ | ⟨less, -⟩
    · exact ⟨edge, mem_merge_iff.mpr ⟨a, b, some, found⟩, describes.ends⟩
    · exact absurd enough less.not_ge

theorem faithful_merge :
    Faithful (votes pcEdges grangerPairs explicitEdges) minSupport
      (merge pcEdges grangerPairs explicitEdges minSupport) where
  distinct := nodup_ends
  returned := mem_ends_merge_iff pcEdges grangerPairs explicitEdges minSupport
  support := fun _ isEdge => (describes_of_mem_merge _ _ _ _ isEdge).support
  sources := fun _ isEdge => (describes_of_mem_merge _ _ _ _ isEdge).sources
  directed := fun _ isEdge a b joins =>
    (describes_of_mem_merge _ _ _ _ isEdge).orientation.1 a b joins.symm
  undirected := fun _ isEdge => (describes_of_mem_merge _ _ _ _ isEdge).orientation.2.1
  uncertain := fun _ isEdge => (describes_of_mem_merge _ _ _ _ isEdge).orientation.2.2

end Merged

/-! ## The order of the lists -/

instance byEnds.total : Std.Total byEnds where
  total left right :=
    le_total (toLex (left.source, left.target)) (toLex (right.source, right.target))

instance byEnds.trans : IsTrans EnsembleEdge byEnds where
  trans _ _ _ first second := le_trans first second

/-- The result is the same for every order of the entries. -/
theorem mergeEntries_perm {entries : List (Sigma fun _ : String × String => EdgeAccumulator)}
    (perm : entries.Perm (edgeInfo pcEdges grangerPairs explicitEdges).entries) :
    mergeEntries entries minSupport = merge pcEdges grangerPairs explicitEdges minSupport := by
  have same : (mergeEntries entries minSupport).Perm
      (merge pcEdges grangerPairs explicitEdges minSupport) :=
    ((List.perm_insertionSort _ _).trans (perm.filterMap _)).trans
      (List.perm_insertionSort _ _).symm
  apply same.eq_of_pairwise _ (List.pairwise_insertionSort byEnds _)
    (List.pairwise_insertionSort byEnds _)
  intro left right isLeft isRight first second
  have sameEnds : (left.source, left.target) = (right.source, right.target) :=
    toLex.injective (le_antisymm first second)
  rcases Prod.mk.inj sameEnds with ⟨sameSource, sameTarget⟩
  apply List.inj_on_of_nodup_map nodup_ends (same.subset isLeft) isRight
  rw [ends, ends, sameSource, sameTarget]

theorem entries_perm {otherPcEdges : List PcEdge}
    {otherGrangerPairs otherExplicitEdges : List (String × String)}
    (pc : pcEdges.Perm otherPcEdges) (granger : grangerPairs.Perm otherGrangerPairs)
    (explicit : explicitEdges.Perm otherExplicitEdges) :
    (edgeInfo pcEdges grangerPairs explicitEdges).entries.Perm
      (edgeInfo otherPcEdges otherGrangerPairs otherExplicitEdges).entries := by
  have same : (votes pcEdges grangerPairs explicitEdges).Perm
      (votes otherPcEdges otherGrangerPairs otherExplicitEdges) :=
    ((pc.map _).append (granger.map _)).append (explicit.map _)
  apply List.lookup_ext (AList.nodupKeys _) (AList.nodupKeys _)
  intro key acc
  have first := lookup_foldl_propose (votes pcEdges grangerPairs explicitEdges) key
  have second := lookup_foldl_propose
    (votes otherPcEdges otherGrangerPairs otherExplicitEdges) key
  have sameOf : (proposalsOf (votes pcEdges grangerPairs explicitEdges) key).Perm
      (proposalsOf (votes otherPcEdges otherGrangerPairs otherExplicitEdges) key) :=
    same.filter _
  have sameLookup : (edgeInfo pcEdges grangerPairs explicitEdges).lookup key =
      (edgeInfo otherPcEdges otherGrangerPairs otherExplicitEdges).lookup key := by
    rw [edgeInfo_eq, edgeInfo_eq, first, second, gather_perm sameOf]
    simp only [← List.length_eq_zero_iff, sameOf.length_eq]
  exact iff_of_eq (congrArg (acc ∈ ·) sameLookup)

/-- The result has the pairs that some method and at least so many methods propose, with
these methods and the direction they agree on. It is the same for every order of the lists
and of the map. -/
theorem merge_faithful (pcEdges : List PcEdge) (grangerPairs explicitEdges : List (String × String))
    (minSupport : UInt8) :
    Faithful (votes pcEdges grangerPairs explicitEdges) minSupport
        (merge pcEdges grangerPairs explicitEdges minSupport) ∧
      ∀ otherPcEdges otherGrangerPairs otherExplicitEdges, pcEdges.Perm otherPcEdges →
        grangerPairs.Perm otherGrangerPairs → explicitEdges.Perm otherExplicitEdges →
          ∀ entries,
            entries.Perm (edgeInfo otherPcEdges otherGrangerPairs otherExplicitEdges).entries →
              mergeEntries entries minSupport =
                merge pcEdges grangerPairs explicitEdges minSupport := by
  refine ⟨faithful_merge pcEdges grangerPairs explicitEdges minSupport, ?_⟩
  intro otherPcEdges otherGrangerPairs otherExplicitEdges pc granger explicit entries perm
  exact mergeEntries_perm (perm.trans (entries_perm pc granger explicit).symm)

/-- Both variables occur and no method is asked for, but a pair that none proposes is not
returned. -/
theorem merge_misses_unproposed :
    (0 : UInt8).toNat ≤ (methodsOf (votes [] [] [("a", "b"), ("c", "d")]) "a" "c").card ∧
      s("a", "c") ∉ (merge [] [] [("a", "b"), ("c", "d")] 0).map ends :=
  ⟨Nat.zero_le _, by decide +kernel⟩

/-! ## Cycles -/

/-- One edge of a result leads from a variable to another. -/
def Leads (edges : List EnsembleEdge) (a b : String) : Prop :=
  ∃ edge ∈ edges, edge.source = a ∧ edge.target = b ∧ edge.orientation = .directed

/-- Enough methods propose a pair, and those that direct it agree. -/
def Agreed (proposals : List Proposal) (minSupport : UInt8) (a b : String) : Prop :=
  OneSided proposals a b ∧ minSupport.toNat ≤ (methodsOf proposals a b).card

theorem leads_iff (a b : String) :
    Leads (merge pcEdges grangerPairs explicitEdges minSupport) a b ↔
      Agreed (votes pcEdges grangerPairs explicitEdges) minSupport a b := by
  have faithful := faithful_merge pcEdges grangerPairs explicitEdges minSupport
  constructor
  · rintro ⟨edge, isEdge, isSource, isTarget, directed⟩
    have joins : ends edge = s(a, b) := by rw [ends, isSource, isTarget]
    exact ⟨(faithful.directed edge isEdge a b joins).mp ⟨isSource, isTarget, directed⟩,
      ((faithful.returned a b).mp (List.mem_map.mpr ⟨edge, isEdge, joins⟩)).2⟩
  · rintro ⟨oneSided, enough⟩
    rcases oneSided.1 with ⟨proposal, isProposal, joins, -⟩
    have some : (methodsOf (votes pcEdges grangerPairs explicitEdges) a b).Nonempty := by
      refine ⟨proposal.method, List.mem_toFinset.mpr (List.mem_map_of_mem ?_)⟩
      exact List.mem_filter.mpr ⟨isProposal, decide_eq_true joins⟩
    rcases List.mem_map.mp ((faithful.returned a b).mpr ⟨some, enough⟩) with ⟨edge, isEdge, same⟩
    exact ⟨edge, isEdge, (faithful.directed edge isEdge a b same).mpr oneSided⟩

/-- The directed edges of the result have no cycle if and only if no proposals agree on
one. -/
theorem merge_acyclic_iff (pcEdges : List PcEdge)
    (grangerPairs explicitEdges : List (String × String)) (minSupport : UInt8) :
    (∀ a, ¬Relation.TransGen (Leads (merge pcEdges grangerPairs explicitEdges minSupport)) a a) ↔
      ∀ a, ¬Relation.TransGen
        (Agreed (votes pcEdges grangerPairs explicitEdges) minSupport) a a := by
  have same : Leads (merge pcEdges grangerPairs explicitEdges minSupport) =
      Agreed (votes pcEdges grangerPairs explicitEdges) minSupport := by
    funext a b
    exact propext (leads_iff a b)
  rw [same]

theorem merge_ring :
    merge [] [] [("a", "b"), ("b", "c"), ("c", "a")] 1 =
        [⟨"a", "b", 1, ["Explicit"], .directed⟩, ⟨"b", "c", 1, ["Explicit"], .directed⟩,
          ⟨"c", "a", 1, ["Explicit"], .directed⟩] ∧
      Relation.TransGen (Leads (merge [] [] [("a", "b"), ("b", "c"), ("c", "a")] 1)) "a" "a" := by
  have result : merge [] [] [("a", "b"), ("b", "c"), ("c", "a")] 1 =
      [⟨"a", "b", 1, ["Explicit"], .directed⟩, ⟨"b", "c", 1, ["Explicit"], .directed⟩,
        ⟨"c", "a", 1, ["Explicit"], .directed⟩] := by decide +kernel
  refine ⟨result, ?_⟩
  rw [result]
  apply Relation.TransGen.trans (b := "b")
  · exact .single ⟨_, List.mem_cons_self, rfl, rfl, rfl⟩
  · apply Relation.TransGen.trans (b := "c")
    · exact .single ⟨_, List.mem_cons_of_mem _ List.mem_cons_self, rfl, rfl, rfl⟩
    · exact .single ⟨_, List.mem_cons_of_mem _ (List.mem_cons_of_mem _ List.mem_cons_self),
        rfl, rfl, rfl⟩

end Merge

end EnsembleDiscovery

end FunDB.Scm
