import FunDB.Indexes.HnswCalls

/-! # The number of live nodes of the HNSW index

The count, the deleted nodes and the stored vectors agree as long as no stored node is
inserted again. -/

namespace FunDB.Hnsw

open FallibleRuns

variable {Coord Distance Recall : Type} [LinearOrder Distance]

def HnswIndex.len (index : HnswIndex Coord) : Nat := index.liveCount

/-- The node was inserted, and not deleted after that. -/
def Present (dims : Nat) (calls : List (IndexCall Coord)) (id : Uuid) : Prop :=
  ∃ before vector behind, calls = before ++ .insert id vector :: behind ∧
    vector.length = dims ∧ .delete id ∉ behind

/-- The index reports how many nodes are present, and none of them is deleted. -/
def CountsPresent (dims : Nat) (calls : List (IndexCall Coord)) (index : HnswIndex Coord) : Prop :=
  ∃ ids : List Uuid, ids.Nodup ∧ (∀ id, id ∈ ids ↔ Present dims calls id) ∧
    index.len = ids.length ∧ ∀ id ∈ ids, id ∉ index.tombstones

/-- The call inserts no node that is stored already. -/
def InsertsNew (index : HnswIndex Coord) : IndexCall Coord → Prop
  | .insert id vector => vector.length = index.dims → id ∉ index.vectors
  | _ => True

variable {numbers : Numbers Coord Distance Recall} {index after : HnswIndex Coord}

/-! ## Present nodes -/

section Present

variable {dims : Nat} {calls : List (IndexCall Coord)} {id : Uuid}

theorem present_concat_iff (call : IndexCall Coord) :
    Present dims (calls ++ [call]) id ↔
      (∃ vector, call = .insert id vector ∧ vector.length = dims) ∨
        Present dims calls id ∧ call ≠ .delete id := by
  constructor
  · rintro ⟨before, vector, behind, split, sameLength, kept⟩
    rcases List.eq_nil_or_concat behind with rfl | ⟨init, last, rfl⟩
    · rcases List.append_inj' split rfl with ⟨-, same⟩
      exact .inl ⟨vector, List.singleton_inj.mp same, sameLength⟩
    · rw [List.concat_eq_append, ← List.cons_append, ← List.append_assoc] at split
      rcases List.append_inj' split rfl with ⟨shorter, same⟩
      rw [List.concat_eq_append, List.mem_append, not_or] at kept
      refine .inr ⟨⟨before, vector, init, shorter, sameLength, kept.1⟩, ?_⟩
      rw [List.singleton_inj.mp same]
      exact fun isDelete => kept.2 (List.mem_singleton.mpr isDelete.symm)
  · rintro (⟨vector, rfl, sameLength⟩ | ⟨⟨before, vector, behind, rfl, sameLength, kept⟩, other⟩)
    · exact ⟨calls, vector, [], rfl, sameLength, List.not_mem_nil⟩
    · refine ⟨before, vector, behind ++ [call], by simp, sameLength, ?_⟩
      rw [List.mem_append, List.mem_singleton]
      rintro (isIn | same)
      · exact kept isIn
      · exact other same.symm

end Present

/-! ## One call -/

/-- The present nodes are the live ones, and they are counted. -/
structure Counted (dims : Nat) (calls : List (IndexCall Coord)) (index : HnswIndex Coord) :
    Prop where
  width : index.dims = dims
  present : ∀ id, Present dims calls id ↔ Live index id
  count : index.liveCount = (liveNodes index).length

section Call

variable {dims : Nat} {calls : List (IndexCall Coord)}

theorem Counted.countsPresent (counted : Counted dims calls index) :
    CountsPresent dims calls index := by
  refine ⟨liveNodes index, nodup_liveNodes index, fun id => ?_, counted.count, fun id isIn => ?_⟩
  · rw [mem_liveNodes_iff, counted.present]
  · exact (mem_liveNodes_iff.mp isIn).2

/-- A stored node that is inserted again is counted twice, or stays deleted. -/
theorem not_countsPresent_insert_stored (counted : Counted dims calls index) {id : Uuid}
    {vector : List Coord} (sameLength : vector.length = dims) (stored : id ∈ index.vectors)
    (inserted : Inserted index after id vector) :
    ¬CountsPresent dims (calls ++ [.insert id vector]) after := by
  rintro ⟨ids, distinct, isPresent, reported, alive⟩
  have idPresent : id ∈ ids :=
    (isPresent id).mpr ((present_concat_iff _).mpr (.inl ⟨vector, rfl, sameLength⟩))
  have idAlive : id ∉ index.tombstones := inserted.tombstones ▸ alive id idPresent
  have sameNodes : ids.Perm (liveNodes index) := by
    apply (List.perm_ext_iff_of_nodup distinct (nodup_liveNodes index)).mpr
    intro other
    rw [isPresent, present_concat_iff, mem_liveNodes_iff, counted.present]
    constructor
    · rintro (⟨_, same, -⟩ | ⟨live, -⟩)
      · cases same
        exact ⟨stored, idAlive⟩
      · exact live
    · exact fun live => .inr ⟨live, fun same => by cases same⟩
  rw [HnswIndex.len, inserted.liveCount, counted.count, sameNodes.length_eq] at reported
  omega

theorem Counted.insert_new (counted : Counted dims calls index) (ready : Ready index) {id : Uuid}
    {vector : List Coord} (sameLength : vector.length = dims) (new : id ∉ index.vectors)
    (inserted : Inserted index after id vector) :
    Counted dims (calls ++ [.insert id vector]) after := by
  have alive : id ∉ index.tombstones := fun dead => new (ready.buried id dead)
  refine ⟨inserted.dims.trans counted.width, fun other => ?_, ?_⟩
  · rw [present_concat_iff, live_insert_iff inserted, counted.present]
    constructor
    · rintro (⟨_, same, -⟩ | ⟨live, -⟩)
      · cases same
        exact .inl ⟨rfl, alive⟩
      · exact .inr live
    · rintro (⟨rfl, -⟩ | live)
      · exact .inl ⟨vector, rfl, sameLength⟩
      · exact .inr ⟨live, fun same => by cases same⟩
  · rw [inserted.liveCount, counted.count, (liveNodes_insert_new ready new inserted).length_eq,
      List.length_cons]

theorem Counted.insert_mismatch (counted : Counted dims calls index) {id : Uuid}
    {vector : List Coord} (mismatch : vector.length ≠ dims) :
    Counted dims (calls ++ [.insert id vector]) index := by
  refine ⟨counted.width, fun other => ?_, counted.count⟩
  rw [present_concat_iff, counted.present]
  constructor
  · rintro (⟨_, same, sameLength⟩ | ⟨live, -⟩)
    · cases same
      exact absurd sameLength mismatch
    · exact live
  · exact fun live => .inr ⟨live, fun same => by cases same⟩

omit [LinearOrder Distance] in
theorem Counted.delete (counted : Counted dims calls index) (id : Uuid) :
    Counted dims (calls ++ [.delete id]) (index.delete id).2 := by
  have presentAfter (other : Uuid) :
      Present dims (calls ++ [.delete id]) other ↔ Live index other ∧ other ≠ id := by
    rw [present_concat_iff, counted.present]
    constructor
    · rintro (⟨_, same, -⟩ | ⟨live, kept⟩)
      · cases same
      · exact ⟨live, fun same => kept (same ▸ rfl)⟩
    · rintro ⟨live, different⟩
      refine .inr ⟨live, fun same => ?_⟩
      cases same
      exact different rfl
  rcases delete_cases index id with ⟨gone, same⟩ | ⟨known, alive, deleted⟩
  · rw [same]
    refine ⟨counted.width, fun other => ?_, counted.count⟩
    rw [presentAfter]
    apply and_iff_left_of_imp
    rintro live rfl
    exact gone.elim (fun unknown => unknown live.1) live.2
  · have fewer : (liveNodes index).Perm (id :: liveNodes (index.delete id).2) := by
      apply liveNodes_delete known alive
      rw [deleted]
      exact ⟨rfl, rfl⟩
    have count := counted.count
    rw [fewer.length_eq, List.length_cons] at count
    rw [deleted] at count ⊢
    refine ⟨counted.width, fun other => ?_, Nat.sub_eq_of_eq_add count⟩
    rw [presentAfter, Live, Live, List.mem_cons, not_or]
    tauto

omit [LinearOrder Distance] in
theorem Counted.compact (counted : Counted dims calls index) (order : KeyOrder) :
    Counted dims (calls ++ [.compact order]) (index.compact order) := by
  rcases compact_counts index order with ⟨sameCount, sameDims, -⟩
  refine ⟨sameDims.trans counted.width, fun id => ?_, ?_⟩
  · rw [present_concat_iff, counted.present, live_compact_iff]
    constructor
    · rintro (⟨_, same, -⟩ | ⟨live, -⟩)
      · cases same
      · exact live
    · exact fun live => .inr ⟨live, fun same => by cases same⟩
  · rw [sameCount, counted.count, (liveNodes_perm live_compact_iff).length_eq]

end Call

/-! ## Runs -/

theorem counted_perform {dims : Nat} {calls : List (IndexCall Coord)} {call : IndexCall Coord}
    (ready : Ready index) (counted : Counted dims calls index) (new : InsertsNew index call)
    (performed : index.perform numbers call = some after) :
    Counted dims (calls ++ [call]) after := by
  cases call with
  | insert id vector =>
      rcases insert_cases numbers ready id vector with ⟨outcome, result, ran, changed⟩
      rw [HnswIndex.perform, ran] at performed
      cases performed
      rcases changed with ⟨mismatch, rfl⟩ | ⟨sameLength, inserted⟩
      · exact counted.insert_mismatch (counted.width ▸ mismatch)
      · exact counted.insert_new ready (counted.width ▸ sameLength) (new sameLength) inserted
  | delete id =>
      cases performed
      exact counted.delete id
  | compact order =>
      cases performed
      exact counted.compact order

theorem insertsNew_of_countsPresent {dims : Nat} {calls : List (IndexCall Coord)}
    {call : IndexCall Coord} (ready : Ready index) (counted : Counted dims calls index)
    (performed : index.perform numbers call = some after)
    (counts : CountsPresent dims (calls ++ [call]) after) : InsertsNew index call := by
  cases call with
  | insert id vector =>
      intro sameLength stored
      rcases insert_cases numbers ready id vector with ⟨outcome, result, ran, changed⟩
      rw [HnswIndex.perform, ran] at performed
      cases performed
      rcases changed with ⟨mismatch, -⟩ | ⟨-, inserted⟩
      · exact mismatch sameLength
      · exact not_countsPresent_insert_stored counted (counted.width ▸ sameLength) stored inserted
          counts
  | delete id => trivial
  | compact order => trivial

/-- The count is right throughout a run exactly when the run inserts no node that is
stored already. -/
theorem counts_throughout_iff (numbers : Numbers Coord Distance Recall)
    (dims m efConstruction : Nat) (calls : List (IndexCall Coord)) :
    (∀ done, done <+: calls → ∀ index,
        attempt (HnswIndex.perform numbers) (.new dims m efConstruction) done = some index →
          CountsPresent dims done index) ↔
      ∀ done call, done ++ [call] <+: calls → ∀ index after,
        attempt (HnswIndex.perform numbers) (.new dims m efConstruction) done = some index →
          index.perform numbers call = some after → InsertsNew index call := by
  apply holds_throughout_iff_of_strong _ _ (Counted dims)
  · refine ⟨rfl, fun id => iff_of_false ?_ ?_, rfl⟩
    · rintro ⟨before, vector, behind, split, -⟩
      cases before <;> cases split
    · exact fun live => nomatch live.1
  · exact fun _ _ counted => counted.countsPresent
  · exact fun _ _ _ _ reached performed counted counts =>
      insertsNew_of_countsPresent (ready_of_run reached) counted performed counts
  · exact fun _ _ _ _ reached performed counted new =>
      counted_perform (ready_of_run reached) counted new performed

theorem Present.inserted {dims : Nat} {calls : List (IndexCall Coord)} {id : Uuid}
    (present : Present dims calls id) : ∃ vector, .insert id vector ∈ calls := by
  rcases present with ⟨before, vector, behind, rfl, -⟩
  exact ⟨vector, List.mem_append_right _ List.mem_cons_self⟩

/-- One node that is inserted twice counts as two. A deleted node that is inserted again
stays deleted. -/
theorem insert_twice_counts_two :
    (∃ index, attempt (HnswIndex.perform sampleNumbers) (.new 1 1 16)
        [.insert (.ofByte 1) [0], .insert (.ofByte 1) [0]] = some index ∧
      ¬CountsPresent 1 [.insert (.ofByte 1) [0], .insert (.ofByte 1) [0]] index) ∧
    ∃ index, attempt (HnswIndex.perform sampleNumbers) (.new 1 1 16)
        [.insert (.ofByte 1) [0], .delete (.ofByte 1), .insert (.ofByte 1) [0]] = some index ∧
      Present 1 [.insert (.ofByte 1) [0], .delete (.ofByte 1), .insert (.ofByte 1) [0]]
        (.ofByte 1) ∧
      .ofByte 1 ∈ index.tombstones := by
  constructor
  · have two : (attempt (HnswIndex.perform sampleNumbers) (.new 1 1 16)
        [.insert (.ofByte 1) [0], .insert (.ofByte 1) [0]]).map HnswIndex.len = some 2 := by
      decide +kernel
    rcases Option.map_eq_some_iff.mp two with ⟨index, ran, reported⟩
    refine ⟨index, ran, ?_⟩
    rintro ⟨ids, distinct, isPresent, sameCount, -⟩
    have onlyOne : ids ⊆ [.ofByte 1] := by
      intro id isIn
      rcases ((isPresent id).mp isIn).inserted with ⟨vector, isCall⟩
      have same : id = .ofByte 1 ∧ vector = [0] := by simpa using isCall
      exact List.mem_singleton.mpr same.1
    have short := (distinct.subperm onlyOne).length_le
    rw [← sameCount, reported] at short
    exact Nat.not_succ_le_self 1 short
  · have buried : (attempt (HnswIndex.perform sampleNumbers) (.new 1 1 16)
        [.insert (.ofByte 1) [0], .delete (.ofByte 1), .insert (.ofByte 1) [0]]).map
          HnswIndex.tombstones = some [.ofByte 1] := by
      decide +kernel
    rcases Option.map_eq_some_iff.mp buried with ⟨index, ran, same⟩
    refine ⟨index, ran, ?_, same ▸ List.mem_singleton_self _⟩
    exact ⟨[_, _], [0], [], rfl, rfl, List.not_mem_nil⟩

end FunDB.Hnsw
