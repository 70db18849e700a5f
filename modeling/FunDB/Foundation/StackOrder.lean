import FunDB.Foundation.StrongestWalks
import Mathlib.Data.List.Lex
import Mathlib.Order.WellFoundedSet

/-! # The order of a stack

What a search with a stack keeps, told from the graph and the order of its edges. Walks
with the same nodes are told apart by the place of each step among the edges of a node. -/

namespace FunDB.StrongestWalks

universe u v

variable {Node : Type u} {S : Type v}

/-! ## Ways -/

/-- An edge behind a way, by its place among the edges that go on from there. -/
structure Offer where
  way : List Nat
  place : Nat

namespace Offer

def whole (offer : Offer) : List Nat := offer.way ++ [offer.place]

theorem whole_injective {first second : Offer} (same : first.whole = second.whole) :
    first = second := by
  rcases List.append_inj' same rfl with ⟨sameWay, samePlace⟩
  cases first
  cases second
  cases sameWay
  cases samePlace
  rfl

/-- A stack takes a way before those that go on from it, and the ways over later edges
before those over earlier ones. It goes over the edges behind a way in their order. -/
def Before (first second : Offer) : Prop :=
  List.Lex (· > ·) first.way second.way ∨ first.way = second.way ∧ first.place < second.place

theorem lex_append (way : List Nat) {rest : List Nat} (some : rest ≠ []) :
    List.Lex (· > ·) way (way ++ rest) := by
  have longer : List.Lex (· > ·) (way ++ []) (way ++ rest) := by
    apply List.Lex.append_left
    exact (List.lex_nil_or_eq_nil rest).resolve_right some
  rwa [List.append_nil] at longer

instance strictOrder : IsStrictOrder Offer Before where
  irrefl offer before := by
    rcases before with less | ⟨-, less⟩
    · have irreflexive : ∀ place : Nat, ¬place > place := Nat.lt_irrefl
      exact List.lex_irrefl irreflexive _ less
    · exact Nat.lt_irrefl _ less
  trans first second third before next := by
    rcases before with less | ⟨same, less⟩
    · rcases next with lessToo | ⟨sameToo, -⟩
      · exact .inl
          (List.lex_trans (fun greater greaterToo => greaterToo.trans greater) less lessToo)
      · exact .inl (sameToo ▸ less)
    · rcases next with lessToo | ⟨sameToo, lessToo⟩
      · exact .inl (same.symm ▸ lessToo)
      · exact .inr ⟨same.trans sameToo, less.trans lessToo⟩

theorem Before.asymm {first second : Offer} (before : Before first second) :
    ¬Before second first := by
  intro after
  exact irrefl_of Before first (trans_of Before before after)

end Offer

section Ways

variable [Mul S] [One S]

/-- Go on over the edge at a place. -/
def goOn (next : Node → List (Node × S)) (arrival : Arrival Node S) (place : Nat) :
    Option (Arrival Node S) :=
  (next arrival.node)[place]?.map fun edge =>
    ⟨edge.1, arrival.depth + 1, arrival.strength * edge.2⟩

def leadsTo (next : Node → List (Node × S)) (start : Node) (way : List Nat) :
    Option (Arrival Node S) :=
  way.foldlM (goOn next) ⟨start, 0, 1⟩

variable {next : Node → List (Node × S)} {start : Node} {way : List Nat} {place : Nat}
variable {arrival : Arrival Node S}

theorem leadsTo_concat : leadsTo next start (way ++ [place]) =
    (leadsTo next start way).bind (goOn next · place) := by
  rw [leadsTo, List.foldlM_append]
  apply congrArg (Option.bind (leadsTo next start way))
  funext before
  exact bind_pure (goOn next before place)

theorem leadsTo_concat_eq_some_iff : leadsTo next start (way ++ [place]) = some arrival ↔
    ∃ before edge, leadsTo next start way = some before ∧
      (next before.node)[place]? = some edge ∧
      arrival = ⟨edge.1, before.depth + 1, before.strength * edge.2⟩ := by
  rw [leadsTo_concat, Option.bind_eq_some_iff]
  constructor
  · rintro ⟨before, isBefore, found⟩
    rcases Option.map_eq_some_iff.mp found with ⟨edge, isEdge, same⟩
    exact ⟨before, edge, isBefore, isEdge, same.symm⟩
  · rintro ⟨before, edge, isBefore, isEdge, rfl⟩
    exact ⟨before, isBefore, Option.map_eq_some_iff.mpr ⟨edge, isEdge, rfl⟩⟩

theorem depth_leadsTo (leads : leadsTo next start way = some arrival) :
    arrival.depth = way.length := by
  induction way using List.reverseRecOn generalizing arrival with
  | nil =>
      cases leads
      rfl
  | append_singleton way place induction =>
      rcases leadsTo_concat_eq_some_iff.mp leads with ⟨before, edge, isBefore, -, rfl⟩
      rw [List.length_append, ← induction isBefore]
      rfl

end Ways

section Walks

variable [Monoid S] {next : Node → List (Node × S)} {start : Node}

theorem walk_leadsTo {way : List Nat} {arrival : Arrival Node S}
    (leads : leadsTo next start way = some arrival) :
    Walk next start arrival.depth arrival.node arrival.strength := by
  induction way using List.reverseRecOn generalizing arrival with
  | nil =>
      cases leads
      exact .nil
  | append_singleton way place induction =>
      rcases leadsTo_concat_eq_some_iff.mp leads with ⟨before, edge, isBefore, isEdge, rfl⟩
      exact (induction isBefore).step (List.mem_of_getElem? isEdge)

theorem exists_leadsTo {depth : Nat} {node : Node} {strength : S}
    (walk : Walk next start depth node strength) :
    ∃ way, leadsTo next start way = some ⟨node, depth, strength⟩ := by
  induction walk with
  | nil => exact ⟨[], rfl⟩
  | step walk isNext induction =>
      rcases induction with ⟨way, leads⟩
      rcases List.mem_iff_getElem?.mp isNext with ⟨place, isEdge⟩
      exact ⟨way ++ [place], leadsTo_concat_eq_some_iff.mpr ⟨_, _, leads, isEdge, rfl⟩⟩

/-- The strengths of walks are those that offers lead to. -/
theorem mem_strengths_iff {maxDepth : Nat} {node : Node} {strength : S} :
    strength ∈ strengths next start maxDepth node ↔
      ∃ offer : Offer, ∃ arrival, leadsTo next start offer.whole = some arrival ∧
        arrival.depth ≤ maxDepth ∧ arrival.node = node ∧ arrival.strength = strength := by
  constructor
  · rintro ⟨depth, some, within, walk⟩
    rcases exists_leadsTo walk with ⟨way, leads⟩
    rcases List.eq_nil_or_concat way with rfl | ⟨way, place, rfl⟩
    · have zero : depth = 0 := depth_leadsTo leads
      omega
    · rw [List.concat_eq_append] at leads
      exact ⟨⟨way, place⟩, _, leads, within, rfl, rfl⟩
  · rintro ⟨offer, arrival, leads, within, rfl, rfl⟩
    refine ⟨arrival.depth, ?_, within, walk_leadsTo leads⟩
    rw [depth_leadsTo leads, Offer.whole, List.length_append]
    exact Nat.le_add_left 1 _

end Walks

/-! ## What is kept -/

section Selection

variable [LinearOrder S] [Monoid S]

/-- What is kept before an offer and leads to the same node is weaker. -/
def Outdoes (next : Node → List (Node × S)) (start : Node) (kept : List Nat → Prop)
    (offer : Offer) (arrival : Arrival Node S) : Prop :=
  ∀ other : Offer, ∀ earlier, kept other.whole → other.Before offer →
    leadsTo next start other.whole = some earlier → earlier.node = arrival.node →
    earlier.strength < arrival.strength

/-- The ways that are kept. An offer behind one of them is kept too if nothing that is
kept before it is as strong. -/
structure Selection (next : Node → List (Node × S)) (start : Node) (maxDepth : Nat)
    (kept : List Nat → Prop) : Prop where
  root : kept []
  behind : ∀ offer : Offer, kept offer.whole → kept offer.way
  within : ∀ way, kept way → ∃ arrival, leadsTo next start way = some arrival ∧
    arrival.depth ≤ maxDepth
  step : ∀ offer : Offer, ∀ arrival, kept offer.way →
    leadsTo next start offer.whole = some arrival → arrival.depth ≤ maxDepth →
    (kept offer.whole ↔ Outdoes next start kept offer arrival)

variable {next : Node → List (Node × S)} {start : Node} {maxDepth : Nat}
variable {first second : List Nat → Prop}

omit [LinearOrder S] in
theorem finite_ways (next : Node → List (Node × S)) (start : Node) (length : Nat) :
    {way : List Nat | way.length = length ∧
      (leadsTo next start way).isSome}.Finite := by
  induction length with
  | zero =>
      apply (Set.finite_singleton []).subset
      rintro way ⟨empty, -⟩
      exact List.eq_nil_of_length_eq_zero empty
  | succ length induction =>
      apply (induction.biUnion fun way _ => ((List.range
        (((leadsTo next start way).map fun before => (next before.node).length).getD 0)).map
          fun place => way ++ [place]).finite_toSet).subset
      rintro longer ⟨long, leads⟩
      rcases List.eq_nil_or_concat longer with rfl | ⟨way, place, rfl⟩
      · cases long
      · rw [List.concat_eq_append] at long leads ⊢
        rcases Option.isSome_iff_exists.mp leads with ⟨arrival, leads⟩
        rcases leadsTo_concat_eq_some_iff.mp leads with ⟨before, edge, isBefore, isEdge, -⟩
        have inRange : place < (next before.node).length :=
          (List.getElem?_eq_some_iff.mp isEdge).1
        refine Set.mem_biUnion (x := way) ⟨?_, Option.isSome_iff_exists.mpr ⟨before, isBefore⟩⟩ ?_
        · rw [List.length_append] at long
          exact Nat.succ.inj long
        · refine List.mem_map.mpr ⟨place, List.mem_range.mpr ?_, rfl⟩
          rw [isBefore]
          exact inRange

/-- The offers that lead somewhere, within the depth. -/
def offers (next : Node → List (Node × S)) (start : Node) (maxDepth : Nat) : Set Offer :=
  {offer | ∃ arrival, leadsTo next start offer.whole = some arrival ∧ arrival.depth ≤ maxDepth}

omit [LinearOrder S] in
theorem finite_offers (next : Node → List (Node × S)) (start : Node) (maxDepth : Nat) :
    (offers next start maxDepth).Finite := by
  have ways : (⋃ length ∈ Set.Iic maxDepth, {way : List Nat | way.length = length ∧
      (leadsTo next start way).isSome}).Finite :=
    (Set.finite_Iic maxDepth).biUnion fun length _ => finite_ways next start length
  apply (ways.preimage _).subset
  · rintro offer ⟨arrival, leads, within⟩
    refine Set.mem_biUnion (x := offer.whole.length) ?_ ⟨rfl, Option.isSome_of_eq_some leads⟩
    exact (depth_leadsTo leads) ▸ within
  · exact fun _ _ _ _ => Offer.whole_injective

/-- What is kept of an offer depends on what is kept of those before it. -/
theorem Selection.transfer (isFirst : Selection next start maxDepth first)
    (isSecond : Selection next start maxDepth second) {offer : Offer}
    (same : ∀ other ∈ offers next start maxDepth, other.Before offer →
      (first other.whole ↔ second other.whole)) (isKept : first offer.whole) :
    second offer.whole := by
  rcases isFirst.within _ isKept with ⟨arrival, leads, within⟩
  have keptBefore : second offer.way := by
    have before := isFirst.behind offer isKept
    rcases List.eq_nil_or_concat offer.way with empty | ⟨way, place, isConcat⟩
    · exact empty ▸ isSecond.root
    · rw [List.concat_eq_append] at isConcat
      have comes : Offer.Before ⟨way, place⟩ offer :=
        .inl (isConcat ▸ Offer.lex_append way (List.cons_ne_nil _ _))
      rw [isConcat] at before ⊢
      exact (same ⟨way, place⟩ (isFirst.within _ before) comes).mp before
  apply (isSecond.step offer arrival keptBefore leads within).mpr
  intro other earlier otherKept comes otherLeads sameNode
  have outdoes := (isFirst.step offer arrival (isFirst.behind offer isKept) leads within).mp isKept
  rcases isSecond.within _ otherKept with ⟨_, otherLeadsToo, otherWithin⟩
  exact outdoes other earlier ((same other ⟨_, otherLeadsToo, otherWithin⟩ comes).mpr otherKept)
    comes otherLeads sameNode

/-- What is kept is determined by the graph and the order of its edges. -/
theorem Selection.unique (isFirst : Selection next start maxDepth first)
    (isSecond : Selection next start maxDepth second) : first = second := by
  have onOffers : ∀ offer ∈ offers next start maxDepth,
      (first offer.whole ↔ second offer.whole) := by
    intro offer isOffer
    have wellFounded : (offers next start maxDepth).WellFoundedOn Offer.Before :=
      (finite_offers next start maxDepth).wellFoundedOn
    apply wellFounded.induction isOffer
    intro offer _ induction
    constructor
    · exact isFirst.transfer isSecond induction
    · exact isSecond.transfer isFirst fun other isOther comes =>
        (induction other isOther comes).symm
  funext way
  apply propext
  rcases List.eq_nil_or_concat way with rfl | ⟨way, place, rfl⟩
  · exact iff_of_true isFirst.root isSecond.root
  · rw [List.concat_eq_append]
    constructor
    · intro isKept
      exact (onOffers ⟨way, place⟩ (isFirst.within _ isKept)).mp isKept
    · intro isKept
      exact (onOffers ⟨way, place⟩ (isSecond.within _ isKept)).mpr isKept

end Selection

/-! ## Comparing offers -/

section Compared

variable [DecidableEq Node] [LinearOrder S] [Monoid S]

/-- Some offers were compared with what was kept before them, and the best strengths are
those of kept offers. -/
structure Compared (next : Node → List (Node × S)) (start : Node) (maxDepth : Nat)
    (done : Offer → Prop) (kept : List Nat → Prop) (best : Dict Node S) : Prop where
  root : kept []
  covered : ∀ offer : Offer, kept offer.whole → done offer
  within : ∀ way, kept way → ∃ arrival, leadsTo next start way = some arrival ∧
    arrival.depth ≤ maxDepth
  step : ∀ offer : Offer, ∀ arrival, done offer → leadsTo next start offer.whole = some arrival →
    arrival.depth ≤ maxDepth → (kept offer.whole ↔ Outdoes next start kept offer arrival)
  recorded : ∀ node, ∀ strength ∈ best.lookup node, ∃ offer : Offer, ∃ arrival,
    kept offer.whole ∧ leadsTo next start offer.whole = some arrival ∧ arrival.node = node ∧
      arrival.strength = strength
  bounded : ∀ offer : Offer, ∀ arrival, kept offer.whole →
    leadsTo next start offer.whole = some arrival →
    ∃ strength ∈ best.lookup arrival.node, arrival.strength ≤ strength

variable {next : Node → List (Node × S)} {start : Node} {maxDepth : Nat}
variable {done : Offer → Prop} {kept : List Nat → Prop} {best : Dict Node S}

/-- Offers that lead nowhere, or too deep, can be left out. -/
theorem Compared.skip (compared : Compared next start maxDepth done kept best)
    {more : Offer → Prop} (grows : ∀ offer, done offer → more offer)
    (idle : ∀ offer arrival, more offer → leadsTo next start offer.whole = some arrival →
      arrival.depth ≤ maxDepth → done offer) :
    Compared next start maxDepth more kept best where
  root := compared.root
  covered offer isKept := grows offer (compared.covered offer isKept)
  within := compared.within
  step offer arrival isMore leads within :=
    compared.step offer arrival (idle offer arrival isMore leads within) leads within
  recorded := compared.recorded
  bounded := compared.bounded

/-- An offer that is not better than the best strength is not kept. -/
theorem Compared.reject (compared : Compared next start maxDepth done kept best) {offer : Offer}
    {arrival : Arrival Node S} (leads : leadsTo next start offer.whole = some arrival)
    (latest : ∀ other, done other → other.Before offer) {strength : S}
    (isBest : strength ∈ best.lookup arrival.node) (atMost : arrival.strength ≤ strength) :
    Compared next start maxDepth (fun other => done other ∨ other = offer) kept best where
  root := compared.root
  covered other isKept := .inl (compared.covered other isKept)
  within := compared.within
  step other found isDone foundLeads within := by
    rcases isDone with old | rfl
    · exact compared.step other found old foundLeads within
    · cases leads.symm.trans foundLeads
      apply iff_of_false
      · intro isKept
        exact irrefl_of Offer.Before other (latest other (compared.covered other isKept))
      · intro outdoes
        rcases compared.recorded _ _ isBest with
          ⟨earlier, earlierArrival, isKept, earlierLeads, sameNode, rfl⟩
        have comes := latest earlier (compared.covered earlier isKept)
        exact (outdoes earlier _ isKept comes earlierLeads sameNode).not_ge atMost
  recorded := compared.recorded
  bounded := compared.bounded

/-- An offer that is better than the best strength is kept. -/
theorem Compared.accept (compared : Compared next start maxDepth done kept best) {offer : Offer}
    {arrival : Arrival Node S} (leads : leadsTo next start offer.whole = some arrival)
    (within : arrival.depth ≤ maxDepth) (latest : ∀ other, done other → other.Before offer)
    (better : ∀ strength ∈ best.lookup arrival.node, strength < arrival.strength) :
    Compared next start maxDepth (fun other => done other ∨ other = offer)
      (fun way => kept way ∨ way = offer.whole) (best.insert arrival.node arrival.strength) where
  root := .inl compared.root
  covered other isKept := isKept.imp (compared.covered other) Offer.whole_injective
  within way isKept := by
    rcases isKept with old | rfl
    · exact compared.within way old
    · exact ⟨arrival, leads, within⟩
  step other found isDone foundLeads foundWithin := by
    rcases isDone with old | rfl
    · have apart : other.whole ≠ offer.whole := by
        intro same
        cases Offer.whole_injective same
        exact irrefl_of Offer.Before offer (latest offer old)
      rw [or_iff_left apart, compared.step other found old foundLeads foundWithin]
      constructor
      · intro outdoes earlier earlierArrival isKept comes
        rcases isKept with isOld | same
        · exact outdoes earlier earlierArrival isOld comes
        · cases Offer.whole_injective same
          exact absurd comes (latest other old).asymm
      · exact fun outdoes earlier earlierArrival isKept =>
          outdoes earlier earlierArrival (.inl isKept)
    · cases leads.symm.trans foundLeads
      refine iff_of_true (.inr rfl) ?_
      intro earlier earlierArrival isKept comes earlierLeads sameNode
      rcases isKept with isOld | same
      · rcases compared.bounded earlier earlierArrival isOld earlierLeads with
          ⟨strength, isBest, atMost⟩
        exact atMost.trans_lt (better strength (sameNode ▸ isBest))
      · cases Offer.whole_injective same
        exact absurd comes (irrefl_of Offer.Before _)
  recorded node strength isBest := by
    rw [Dict.lookup_insert] at isBest
    split at isBest
    · next same =>
        cases isBest
        exact ⟨offer, arrival, .inr rfl, leads, same.symm, rfl⟩
    · rcases compared.recorded node strength isBest with ⟨other, found, isKept, rest⟩
      exact ⟨other, found, .inl isKept, rest⟩
  bounded other found isKept foundLeads := by
    rw [Dict.lookup_insert]
    rcases isKept with old | same
    · rcases compared.bounded other found old foundLeads with ⟨strength, isBest, atMost⟩
      split
      · next same =>
          rw [same] at isBest
          exact ⟨_, rfl, atMost.trans (better strength isBest).le⟩
      · exact ⟨strength, isBest, atMost⟩
    · cases Offer.whole_injective same
      cases leads.symm.trans foundLeads
      rw [if_pos rfl]
      exact ⟨_, rfl, le_refl _⟩

end Compared

/-! ## The stack -/

/-- Two ways part at some step. The first one takes the later edge. -/
def Parts (first second : List Nat) : Prop :=
  List.Lex (· > ·) first second ∧ ¬first <+: second

theorem Parts.append {first second : List Nat} (parts : Parts first second) (rest : List Nat) :
    Parts (first ++ rest) second := by
  rcases parts with ⟨less, notPrefix⟩
  constructor
  · induction less with
    | nil => exact absurd List.nil_prefix notPrefix
    | rel greater => exact .rel greater
    | @cons place first second less induction =>
        refine .cons (induction fun isPrefix => notPrefix ?_)
        exact (List.prefix_cons_inj place).mpr isPrefix
  · exact fun isPrefix => notPrefix ((List.prefix_append first rest).trans isPrefix)

theorem parts_concat (way : List Nat) {earlier later : Nat} (less : earlier < later) :
    Parts (way ++ [later]) (way ++ [earlier]) := by
  constructor
  · exact List.Lex.append_left (· > ·) (.rel less) way
  · intro isPrefix
    have same := isPrefix.eq_of_length (by simp)
    cases List.append_cancel_left same
    exact Nat.lt_irrefl _ less

section Stack

variable [DecidableEq Node] [LinearOrder S] [Monoid S]
variable {next : Node → List (Node × S)} {start : Node} {maxDepth : Nat}
variable {way : List Nat} {expanded waiting : List (List Nat)} {current : Arrival Node S}
variable {best : Dict Node S} {rest : List (Arrival Node S)}

/-- The ways of what is on the stack, in the order in which they will be taken. -/
structure Stacked (next : Node → List (Node × S)) (start : Node) (expanded : List (List Nat))
    (waiting : List (List Nat)) (pending : List (Arrival Node S)) : Prop where
  leads : pending.map some = waiting.map (leadsTo next start)
  parts : waiting.Pairwise Parts
  later : ∀ taken ∈ expanded, ∀ way ∈ waiting, List.Lex (· > ·) taken way

/-- What a search with a stack keeps between two arrivals. -/
structure StackInvariant (next : Node → List (Node × S)) (start : Node) (maxDepth : Nat)
    (expanded waiting : List (List Nat)) (search : Search Node S) : Prop where
  stacked : Stacked next start expanded waiting search.pending
  compared : Compared next start maxDepth (fun offer => offer.way ∈ expanded)
    (fun way => way ∈ expanded ∨ way ∈ waiting) search.best

/-- What it keeps while it goes over the edges behind a way. -/
structure ExpandInvariant (next : Node → List (Node × S)) (start : Node) (maxDepth : Nat)
    (expanded : List (List Nat)) (way : List Nat) (place : Nat) (waiting : List (List Nat))
    (search : Search Node S) : Prop where
  stacked : Stacked next start (way :: expanded) waiting search.pending
  compared : Compared next start maxDepth
    (fun offer => offer.way ∈ expanded ∨ offer.way = way ∧ offer.place < place)
    (fun other => other ∈ way :: expanded ∨ other ∈ waiting) search.best
  ahead : ∀ other ∈ waiting, ∀ later, place ≤ later → Parts (way ++ [later]) other
  earlier : ∀ taken ∈ expanded, List.Lex (· > ·) taken way

omit [LinearOrder S] [DecidableEq Node] in
theorem Stacked.push {pending : List (Arrival Node S)}
    (stacked : Stacked next start expanded waiting pending) {arrival : Arrival Node S}
    (leads : leadsTo next start way = some arrival)
    (parts : ∀ other ∈ waiting, Parts way other)
    (later : ∀ taken ∈ expanded, List.Lex (· > ·) taken way) :
    Stacked next start expanded (way :: waiting) (arrival :: pending) where
  leads := by rw [List.map_cons, List.map_cons, stacked.leads, leads]
  parts := List.pairwise_cons.mpr ⟨parts, stacked.parts⟩
  later taken isTaken other isWaiting := by
    rcases List.mem_cons.mp isWaiting with rfl | old
    · exact later taken isTaken
    · exact stacked.later taken isTaken other old

theorem ExpandInvariant.relax {place : Nat} {search : Search Node S}
    (invariant : ExpandInvariant next start maxDepth expanded way place waiting search)
    (leads : leadsTo next start way = some current) (within : current.depth < maxDepth)
    {edge : Node × S} (isEdge : (next current.node)[place]? = some edge) :
    ∃ after, ExpandInvariant next start maxDepth expanded way (place + 1) after
      (relax onTop current search edge) := by
  let offer : Offer := ⟨way, place⟩
  have offerLeads : leadsTo next start offer.whole =
      some ⟨edge.1, current.depth + 1, current.strength * edge.2⟩ :=
    leadsTo_concat_eq_some_iff.mpr ⟨current, edge, leads, isEdge, rfl⟩
  have latest : ∀ other : Offer, other.way ∈ expanded ∨ other.way = way ∧ other.place < place →
      other.Before offer := by
    intro other isDone
    exact isDone.imp_left (invariant.earlier other.way)
  have sameDone : (fun other : Offer => (other.way ∈ expanded ∨ other.way = way ∧
      other.place < place) ∨ other = offer) = fun other =>
        other.way ∈ expanded ∨ other.way = way ∧ other.place < place + 1 := by
    funext other
    rcases other with ⟨otherWay, otherPlace⟩
    simp only [offer, Offer.mk.injEq, Nat.lt_succ_iff_lt_or_eq]
    apply propext
    tauto
  unfold StrongestWalks.relax
  dsimp only
  split
  · next better =>
      have accepted := invariant.compared.accept offerLeads within latest better
      rw [sameDone] at accepted
      have sameKept : (fun other => (other ∈ way :: expanded ∨ other ∈ waiting) ∨
          other = offer.whole) = fun other =>
            other ∈ way :: expanded ∨ other ∈ offer.whole :: waiting := by
        funext other
        apply propext
        rw [List.mem_cons (a := other) (b := offer.whole)]
        tauto
      rw [sameKept] at accepted
      refine ⟨offer.whole :: waiting, ?_, accepted, ?_, invariant.earlier⟩
      · apply invariant.stacked.push offerLeads
        · exact fun other isWaiting => invariant.ahead other isWaiting place (le_refl _)
        · intro taken isTaken
          rcases List.mem_cons.mp isTaken with rfl | old
          · exact Offer.lex_append taken (List.cons_ne_nil _ _)
          · exact List.Lex.append_right _ _ (invariant.earlier taken old)
      · intro other isWaiting later atLeast
        rcases List.mem_cons.mp isWaiting with rfl | old
        · exact parts_concat way atLeast
        · exact invariant.ahead other old later (Nat.le_of_succ_le atLeast)
  · next notBetter =>
      push Not at notBetter
      rcases notBetter with ⟨strength, isBest, atMost⟩
      have rejected := invariant.compared.reject offerLeads latest isBest atMost
      rw [sameDone] at rejected
      refine ⟨waiting, invariant.stacked, rejected, ?_, invariant.earlier⟩
      intro other isWaiting later atLeast
      exact invariant.ahead other isWaiting later (Nat.le_of_succ_le atLeast)

theorem ExpandInvariant.relaxes (leads : leadsTo next start way = some current)
    (within : current.depth < maxDepth) {before edges : List (Node × S)}
    (split : next current.node = before ++ edges) {search : Search Node S}
    (invariant : ExpandInvariant next start maxDepth expanded way before.length waiting search) :
    ∃ after, ExpandInvariant next start maxDepth expanded way (next current.node).length after
      (edges.foldl (StrongestWalks.relax onTop current) search) := by
  induction edges generalizing before waiting search with
  | nil =>
      rw [split, List.append_nil]
      exact ⟨waiting, invariant⟩
  | cons edge edges induction =>
      have isEdge : (next current.node)[before.length]? = some edge := by
        rw [split, List.getElem?_append_right (le_refl _), Nat.sub_self]
        rfl
      rcases invariant.relax leads within isEdge with ⟨after, relaxed⟩
      have longer : next current.node = (before ++ [edge]) ++ edges := by
        rw [split, List.append_assoc]
        rfl
      have sameLength : (before ++ [edge]).length = before.length + 1 := List.length_append
      exact induction longer (sameLength ▸ relaxed)

/-- Taking the top of the stack, before going over its edges. -/
theorem StackInvariant.take {ways : List (List Nat)}
    (invariant : StackInvariant next start maxDepth expanded (way :: ways)
      ⟨best, current :: rest⟩) :
    ExpandInvariant next start maxDepth expanded way 0 ways ⟨best, rest⟩ := by
  rcases invariant with ⟨stacked, compared⟩
  rcases List.pairwise_cons.mp stacked.parts with ⟨ahead, parts⟩
  have sameKept : (fun other => other ∈ expanded ∨ other ∈ way :: ways) = fun other =>
      other ∈ way :: expanded ∨ other ∈ ways := by
    funext other
    apply propext
    rw [List.mem_cons, List.mem_cons]
    tauto
  rw [sameKept] at compared
  refine ⟨⟨(List.cons.inj stacked.leads).2, parts, ?_⟩, compared.skip (fun _ => .inl) ?_, ?_, ?_⟩
  · intro taken isTaken other isWaiting
    rcases List.mem_cons.mp isTaken with rfl | old
    · exact (ahead other isWaiting).1
    · exact stacked.later taken old other (List.mem_cons_of_mem _ isWaiting)
  · rintro offer arrival (old | ⟨-, none⟩) - -
    · exact old
    · exact absurd none (Nat.not_lt_zero _)
  · exact fun other isWaiting later _ => (ahead other isWaiting).append [later]
  · exact fun taken isTaken => stacked.later taken isTaken way List.mem_cons_self

/-- After all edges behind the way that are not too deep. -/
theorem ExpandInvariant.finish {places : Nat} {search : Search Node S}
    (invariant : ExpandInvariant next start maxDepth expanded way places waiting search)
    (all : ∀ place arrival, leadsTo next start (way ++ [place]) = some arrival →
      arrival.depth ≤ maxDepth → place < places) :
    StackInvariant next start maxDepth (way :: expanded) waiting search := by
  refine ⟨invariant.stacked, invariant.compared.skip ?_ ?_⟩
  · rintro offer (old | ⟨same, -⟩)
    · exact List.mem_cons_of_mem _ old
    · exact same ▸ List.mem_cons_self
  · rintro ⟨offerWay, place⟩ arrival isDone leads within
    rcases List.mem_cons.mp isDone with rfl | old
    · exact .inr ⟨rfl, all place arrival leads within⟩
    · exact .inl old

theorem StackInvariant.expand {ways : List (List Nat)}
    (invariant : StackInvariant next start maxDepth expanded (way :: ways)
      ⟨best, current :: rest⟩) :
    ∃ after, StackInvariant next start maxDepth (way :: expanded) after
      (StrongestWalks.expand onTop next maxDepth current ⟨best, rest⟩) := by
  have leads : leadsTo next start way = some current :=
    (List.cons.inj invariant.stacked.leads).1.symm
  unfold StrongestWalks.expand
  split
  · next deep =>
      refine ⟨ways, invariant.take.finish fun place arrival offerLeads within => ?_⟩
      rcases leadsTo_concat_eq_some_iff.mp offerLeads with ⟨before, edge, isBefore, -, rfl⟩
      cases leads.symm.trans isBefore
      exact absurd within (Nat.not_le_of_lt (Nat.lt_succ_of_le deep))
  · next shallow =>
      have relaxed : ∃ after, ExpandInvariant next start maxDepth expanded way _ after _ :=
        ExpandInvariant.relaxes leads (Nat.lt_of_not_le shallow)
          (List.nil_append (next current.node)).symm invariant.take
      rcases relaxed with ⟨after, last⟩
      refine ⟨after, last.finish fun place arrival offerLeads _ => ?_⟩
      rcases leadsTo_concat_eq_some_iff.mp offerLeads with ⟨before, edge, isBefore, isEdge, rfl⟩
      cases leads.symm.trans isBefore
      exact (List.getElem?_eq_some_iff.mp isEdge).1

theorem stackInvariant_start (next : Node → List (Node × S)) (start : Node) (maxDepth : Nat) :
    StackInvariant next start maxDepth [] [[]] ⟨∅, [⟨start, 0, 1⟩]⟩ where
  stacked := ⟨rfl, List.pairwise_singleton _ _, fun _ isTaken => nomatch isTaken⟩
  compared := by
    have isRoot : ∀ way : List Nat, way ∈ ([] : List (List Nat)) ∨ way ∈ [[]] → way = [] := by
      rintro way (none | root)
      · cases none
      · exact List.mem_singleton.mp root
    have notRoot : ∀ offer : Offer,
        ¬(offer.whole ∈ ([] : List (List Nat)) ∨ offer.whole ∈ [[]]) :=
      fun offer isKept => List.append_ne_nil_of_right_ne_nil _ (List.cons_ne_nil _ _)
        (isRoot _ isKept)
    refine ⟨.inr List.mem_cons_self, ?_, ?_, ?_, ?_, ?_⟩
    · exact fun offer isKept => absurd isKept (notRoot offer)
    · intro way isKept
      rw [isRoot way isKept]
      exact ⟨_, rfl, Nat.zero_le _⟩
    · exact fun offer arrival isDone => nomatch isDone
    · intro node strength isBest
      cases isBest
    · exact fun offer arrival isKept => absurd isKept (notRoot offer)

theorem StackInvariant.selection
    (invariant : StackInvariant next start maxDepth expanded [] ⟨best, []⟩) :
    Selection next start maxDepth (· ∈ expanded) := by
  have compared := invariant.compared
  simp only [List.not_mem_nil, or_false] at compared
  exact ⟨compared.root, compared.covered, compared.within, compared.step⟩

/-- For every node that some walk leads to, an offer behind a kept way leads there with the
greatest strength. -/
def StrongestOffered (next : Node → List (Node × S)) (start : Node) (maxDepth : Nat) : Prop :=
  ∃ kept, Selection next start maxDepth kept ∧
    ∀ node, (strengths next start maxDepth node).Nonempty →
      ∃ offer : Offer, ∃ arrival, kept offer.way ∧
        leadsTo next start offer.whole = some arrival ∧ arrival.depth ≤ maxDepth ∧
        arrival.node = node ∧ arrival.strength ∈ upperBounds (strengths next start maxDepth node)

/-- At the end of a search, the best strengths are right if the strongest walks were
offered. -/
theorem StackInvariant.strongest_iff
    (invariant : StackInvariant next start maxDepth expanded [] ⟨best, []⟩) :
    Strongest next start maxDepth (best.entries.map fun entry => (entry.1, entry.2)) ↔
      StrongestOffered next start maxDepth := by
  have selection := invariant.selection
  have compared := invariant.compared
  simp only [List.not_mem_nil, or_false] at compared
  rw [strongest_entries_iff]
  constructor
  · rintro ⟨-, bestOf⟩
    refine ⟨_, selection, fun node ⟨strength, isStrength⟩ => ?_⟩
    rcases bestOf node strength isStrength with ⟨found, isBest, -⟩
    rcases compared.recorded node found isBest with
      ⟨offer, arrival, isKept, leads, atNode, rfl⟩
    rcases compared.within _ isKept with ⟨_, leadsToo, within⟩
    cases leads.symm.trans leadsToo
    refine ⟨offer, arrival, compared.covered offer isKept, leads, within, atNode, ?_⟩
    intro other isOther
    rcases bestOf node other isOther with ⟨same, isSame, atMost⟩
    cases isBest.symm.trans isSame
    exact atMost
  · rintro ⟨kept, isSelection, offered⟩
    cases isSelection.unique selection
    constructor
    · intro node strength isBest
      rcases compared.recorded node strength isBest with ⟨offer, arrival, isKept, leads, facts⟩
      rcases compared.within _ isKept with ⟨_, leadsToo, within⟩
      cases leads.symm.trans leadsToo
      exact mem_strengths_iff.mpr ⟨offer, arrival, leads, within, facts⟩
    · intro node strength isStrength
      rcases offered node ⟨strength, isStrength⟩ with
        ⟨offer, arrival, isKept, leads, within, rfl, bound⟩
      -- The offer was kept, or something as strong was kept before it.
      have atLeast : ∃ other : Offer, ∃ found, other.whole ∈ expanded ∧
          leadsTo next start other.whole = some found ∧ found.node = arrival.node ∧
          arrival.strength ≤ found.strength := by
        by_cases whole : offer.whole ∈ expanded
        · exact ⟨offer, arrival, whole, leads, rfl, le_refl _⟩
        · by_contra none
          apply whole
          apply (selection.step offer arrival isKept leads within).mpr
          intro other found otherKept _ otherLeads sameNode
          by_contra notLess
          exact none ⟨other, found, otherKept, otherLeads, sameNode, le_of_not_gt notLess⟩
      rcases atLeast with ⟨other, found, otherKept, otherLeads, sameNode, stronger⟩
      rcases compared.bounded other found otherKept otherLeads with ⟨best, isBest, atMost⟩
      exact ⟨best, sameNode ▸ isBest, ((bound isStrength).trans stronger).trans atMost⟩

/-- A search with a stack finds the strongest walks if and only if they are offered behind
what is kept. -/
theorem reach_onTop_iff (start : Node) (maxDepth : Nat) :
    ∃ found, reach onTop next maxDepth start = some found ∧
      (Strongest next start maxDepth found ↔ StrongestOffered next start maxDepth) := by
  have searched : ∃ _ : List (Arrival Node S), ∃ best, reach onTop next maxDepth start =
        some (best.entries.map fun entry => (entry.1, entry.2)) ∧
      ∃ expanded waiting, StackInvariant next start maxDepth expanded waiting ⟨best, []⟩ := by
    apply exists_reach (fun _ search => ∃ expanded waiting,
      StackInvariant next start maxDepth expanded waiting search) adds_onTop
    · rintro _ best current rest ⟨expanded, waiting, invariant⟩
      cases waiting with
      | nil => cases invariant.stacked.leads
      | cons way ways =>
          rcases invariant.expand with ⟨after, expandInvariant⟩
          exact ⟨way :: expanded, after, expandInvariant⟩
    · exact ⟨[], [[]], stackInvariant_start next start maxDepth⟩
  rcases searched with ⟨-, best, ran, expanded, waiting, invariant⟩
  cases waiting with
  | nil => exact ⟨_, ran, invariant.strongest_iff⟩
  | cons way ways => cases invariant.stacked.leads

end Stack

end FunDB.StrongestWalks
