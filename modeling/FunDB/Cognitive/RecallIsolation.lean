import FunDB.Cognitive.Consolidation

/-! # What an agent recalls beside others

Two runs are compared: one with all agents, and one without the memories of the other
agents. An agent's memories are the same in both, but for the time at which they came:
the clock counts the memories of all agents. -/

namespace FunDB.Cognitive

open Thinning

/-! ## Runs -/

/-- A call that changes the store. A new memory comes with its id. -/
inductive MemoryCall where
  | remember (id : Uuid) (agentId content : String) (opts : RememberOptions ℚ)
  | forget (memoryId : Uuid)
  | consolidate (agentId : String)
  | decayAll

namespace MemoryCall

def rememberedId : MemoryCall → Option Uuid
  | remember id _ _ _ => some id
  | _ => none

/-- Is this no memory of another agent? -/
def isOwn (agentId : String) : MemoryCall → Bool
  | remember _ other _ _ => other == agentId
  | _ => true

end MemoryCall

def rememberedIds (calls : List MemoryCall) : List Uuid :=
  calls.filterMap MemoryCall.rememberedId

/-- The run without the memories of other agents. -/
def withoutOthers (agentId : String) (calls : List MemoryCall) : List MemoryCall :=
  calls.filter (MemoryCall.isOwn agentId)

/-- How many memories came from this one on, itself included. -/
def age (memoryId : Uuid) (calls : List MemoryCall) : Nat :=
  (rememberedIds calls).length - (rememberedIds calls).idxOf memoryId

namespace AgentMemory

variable {Embedding : Type} (embed : String → Embedding) (sim : Embedding → Embedding → ℚ)

def apply (memory : AgentMemory Embedding ℚ) : MemoryCall → AgentMemory Embedding ℚ
  | .remember id agentId content opts => (memory.remember embed id agentId content opts).2
  | .forget memoryId => (memory.forget memoryId).2
  | .consolidate agentId => (memory.consolidate sim agentId).2
  | .decayAll => memory.decayAll

def run (calls : List MemoryCall) : AgentMemory Embedding ℚ :=
  calls.foldl (apply embed sim) new

theorem run_concat (calls : List MemoryCall) (call : MemoryCall) :
    run embed sim (calls ++ [call]) = apply embed sim (run embed sim calls) call := by
  rw [run, List.foldl_append]
  rfl

def liveOf (memory : AgentMemory Embedding ℚ) (agentId : String) :
    List (MemoryEntry Embedding ℚ) :=
  memory.entries.filter (MemoryEntry.isLiveOf agentId)

/-! ## Recall from the live memories -/

def resultOf (queryEmbedding : Embedding) (weights : RecallWeights) (clock : Int)
    (entry : MemoryEntry Embedding ℚ) : MemoryResult :=
  let (score, components) := scoreOf sim queryEmbedding clock weights entry
  { memoryId := entry.id, content := entry.content, score, components }

theorem recall_eq (memory : AgentMemory Embedding ℚ) (agentId query : String)
    (weights : RecallWeights) (topK : Nat) :
    memory.recall embed sim agentId query weights topK =
      (((memory.liveOf agentId).map
        (resultOf sim (embed query) weights memory.clock)).insertionSort
          fun a b => b.score ≤ a.score).take topK := by
  have sorted := List.map_insertionSort
    (fun a b : MemoryEntry Embedding ℚ × ℚ × RecallComponents => b.2.1 ≤ a.2.1)
    (fun a b : MemoryResult => b.score ≤ a.score)
    (fun scored => { memoryId := scored.1.id, content := scored.1.content,
                     score := scored.2.1, components := scored.2.2 })
    ((memory.liveOf agentId).map fun entry =>
      (entry, scoreOf sim (embed query) memory.clock weights entry))
    (fun _ _ _ _ => Iff.rfl)
  rw [«recall», List.map_take]
  rw [List.map_map] at sorted
  exact congrArg (List.take topK) sorted

/-! ## Ages -/

section Frames

variable {Value : Type} (value : MemoryEntry Embedding ℚ → Value)

/-- Marking entries leaves everything as it is that a tombstone does not change. -/
theorem map_marked (keeps : ∀ entry, value entry.forgotten = value entry)
    (entries : List (MemoryEntry Embedding ℚ)) (dropped : List Nat) :
    (marked entries dropped).map value = entries.map value := by
  apply List.ext_getElem?
  intro index
  rw [List.getElem?_map, List.getElem?_map, getElem?_marked, Option.map_map]
  congr 1
  funext entry
  rw [Function.comp_apply]
  split
  · exact keeps entry
  · rfl

theorem map_forget (keeps : ∀ entry, value entry.forgotten = value entry)
    (memory : AgentMemory Embedding ℚ) (memoryId : Uuid) :
    (memory.forget memoryId).2.entries.map value = memory.entries.map value := by
  unfold forget
  split
  next position _ =>
    apply List.ext_getElem?
    intro index
    rw [List.getElem?_map, List.getElem?_map, List.getElem?_modify, Option.map_eq_map,
      Option.map_map]
    congr 1
    funext entry
    rw [Function.comp_apply]
    split
    · exact keeps entry
    · rfl
  next => rfl

end Frames

def stamp (entry : MemoryEntry Embedding ℚ) : Uuid × Int :=
  (entry.id, entry.createdAt)

/-- The clock counts the memories, and each has the time at which it came. -/
structure WellTimed (ids : List Uuid) (memory : AgentMemory Embedding ℚ) : Prop where
  clock : memory.clock = ids.length
  stamps : memory.entries.map stamp = ids.zipIdx.map fun (id, place) => (id, (place : Int))

theorem rememberedIds_concat (calls : List MemoryCall) (call : MemoryCall) :
    rememberedIds (calls ++ [call]) = rememberedIds calls ++ call.rememberedId.toList := by
  rw [rememberedIds, rememberedIds, List.filterMap_append]
  cases call <;> rfl

theorem apply_wellTimed {ids : List Uuid} {memory : AgentMemory Embedding ℚ}
    (timed : WellTimed ids memory) (call : MemoryCall) :
    WellTimed (ids ++ call.rememberedId.toList) (apply embed sim memory call) := by
  cases call with
  | remember id agentId content opts =>
      refine ⟨?_, ?_⟩
      · simp only [apply, remember, MemoryCall.rememberedId, Option.toList_some,
          List.length_append, List.length_singleton, timed.clock]
        rfl
      · simp only [apply, remember, MemoryCall.rememberedId, Option.toList_some,
          List.map_append, timed.stamps, List.zipIdx_append, stamp, timed.clock,
          List.map_singleton, List.zipIdx_singleton, Nat.zero_add]
  | forget memoryId =>
      have stamps := map_forget stamp (fun _ => rfl) memory memoryId
      refine ⟨?_, ?_⟩
      · have same : (memory.forget memoryId).2.clock = memory.clock := by
          unfold forget
          split <;> rfl
        simpa [apply, MemoryCall.rememberedId, same] using timed.clock
      · simpa [apply, MemoryCall.rememberedId, stamps] using timed.stamps
  | consolidate agentId =>
      have stamps := map_marked stamp (fun _ => rfl) memory.entries
        (droppedBy sim memory agentId)
      refine ⟨?_, ?_⟩
      · simpa [apply, consolidate_eq, MemoryCall.rememberedId] using timed.clock
      · simpa [apply, consolidate_eq, MemoryCall.rememberedId, stamps] using timed.stamps
  | decayAll =>
      have stamps : memory.decayAll.entries.map stamp = memory.entries.map stamp := by
        rw [decayAll, List.map_map]
        congr 1
        funext entry
        rw [Function.comp_apply, MemoryEntry.decay]
        split <;> rfl
      refine ⟨?_, ?_⟩
      · simpa [apply, decayAll, MemoryCall.rememberedId] using timed.clock
      · simpa [apply, MemoryCall.rememberedId, stamps] using timed.stamps

theorem run_wellTimed (calls : List MemoryCall) :
    WellTimed (rememberedIds calls) (run embed sim calls) := by
  induction calls using List.reverseRecOn with
  | nil => exact ⟨rfl, rfl⟩
  | append_singleton calls call induction =>
      rw [rememberedIds_concat, run_concat]
      exact apply_wellTimed embed sim induction call

theorem clock_sub_createdAt {calls : List MemoryCall} (distinct : (rememberedIds calls).Nodup)
    {entry : MemoryEntry Embedding ℚ} (member : entry ∈ (run embed sim calls).entries) :
    (run embed sim calls).clock - entry.createdAt = age entry.id calls := by
  rcases run_wellTimed embed sim calls with ⟨clock, stamps⟩
  have stamped : stamp entry ∈ (run embed sim calls).entries.map stamp :=
    List.mem_map_of_mem member
  rw [stamps] at stamped
  rcases List.mem_map.mp stamped with ⟨⟨id, place⟩, placed, same⟩
  rcases List.getElem?_eq_some_iff.mp (List.mem_zipIdx_iff_getElem?.mp placed) with
    ⟨within, here⟩
  have here : (rememberedIds calls)[place] = id := here
  have sameId : id = entry.id := congrArg Prod.fst same
  have sameTime : (place : Int) = entry.createdAt := congrArg Prod.snd same
  have found : (rememberedIds calls).idxOf entry.id = place := by
    rw [← sameId, ← here]
    exact distinct.idxOf_getElem place within
  rw [clock, ← sameTime, age, found]
  omega

/-! ## Calls as changes of single memories -/

def ids (memory : AgentMemory Embedding ℚ) : List Uuid :=
  memory.entries.map MemoryEntry.id

def forgetIn (dropped : List Uuid) (entry : MemoryEntry Embedding ℚ) :
    MemoryEntry Embedding ℚ :=
  if entry.id ∈ dropped then entry.forgotten else entry

theorem getElem?_inj_of_ids {memory : AgentMemory Embedding ℚ} (distinct : memory.ids.Nodup)
    {first second : Nat} {a b : MemoryEntry Embedding ℚ}
    (hereA : memory.entries[first]? = some a) (hereB : memory.entries[second]? = some b)
    (same : a.id = b.id) : first = second := by
  have within : first < memory.ids.length := by
    rw [ids, List.length_map]
    exact (List.getElem?_eq_some_iff.mp hereA).1
  apply (List.getElem?_inj within distinct).mp
  rw [ids, List.getElem?_map, List.getElem?_map, hereA, hereB, Option.map_some,
    Option.map_some, same]

theorem entries_forget {memory : AgentMemory Embedding ℚ} (distinct : memory.ids.Nodup)
    (memoryId : Uuid) :
    (memory.forget memoryId).2.entries = memory.entries.map (forgetIn [memoryId]) := by
  apply List.ext_getElem?
  intro index
  unfold forget
  rw [List.getElem?_map]
  split
  next position located =>
    rcases List.findIdx?_eq_some_iff_getElem.mp located with ⟨within, found, -⟩
    have found : memory.entries[position].id = memoryId := by simpa using found
    have there : memory.entries[position]? = some memory.entries[position] :=
      List.getElem?_eq_getElem within
    rw [List.getElem?_modify]
    cases here : memory.entries[index]? with
    | none => rfl
    | some entry =>
        have exactly : position = index ↔ entry.id ∈ [memoryId] := by
          rw [List.mem_singleton]
          constructor
          · intro same
            subst same
            rw [there] at here
            cases here
            exact found
          · intro same
            exact getElem?_inj_of_ids distinct there here (found.trans same.symm)
        simp only [Option.map_eq_map, Option.map_some, forgetIn, exactly]
  next absent =>
    have none := List.findIdx?_eq_none_iff.mp absent
    cases here : memory.entries[index]? with
    | none => rfl
    | some entry =>
        have other := none entry (List.mem_of_getElem? here)
        have other : entry.id ∉ [memoryId] := by
          simpa using other
        simp only [Option.map_some, forgetIn, if_neg other]

/-- What the pass reads of a memory. -/
def brief (entry : MemoryEntry Embedding ℚ) : Uuid × Embedding × ℚ :=
  (entry.id, entry.embedding, entry.importance)

def withId (items : List (Uuid × Embedding × ℚ)) (id : Uuid) :
    Option (Uuid × Embedding × ℚ) :=
  items.find? fun item => item.1 = id

def similarIds (items : List (Uuid × Embedding × ℚ)) (first second : Uuid) : Bool :=
  match withId items first, withId items second with
  | some a, some b => 9 / 10 < sim a.2.1 b.2.1
  | _, _ => false

def loserId (items : List (Uuid × Embedding × ℚ)) (first second : Uuid) : Uuid :=
  match withId items first, withId items second with
  | some a, some b => if b.2.2 ≤ a.2.2 then second else first
  | _, _ => first

/-- What the pass drops, told by ids. -/
def droppedIds (items : List (Uuid × Embedding × ℚ)) : List Uuid :=
  thin (similarIds sim items) (loserId items) (items.map Prod.fst)

theorem withId_of_mem {items : List (Uuid × Embedding × ℚ)}
    (distinct : (items.map Prod.fst).Nodup) {item : Uuid × Embedding × ℚ}
    (member : item ∈ items) : withId items item.1 = some item := by
  induction items with
  | nil => cases member
  | cons first rest induction =>
      rcases List.nodup_cons.mp distinct with ⟨fresh, distinct⟩
      rcases List.mem_cons.mp member with rfl | later
      · exact List.find?_cons_of_pos (by simp)
      · have other : first.1 ≠ item.1 :=
          fun same => fresh (same ▸ List.mem_map_of_mem later)
        rw [withId, List.find?_cons_of_neg (by simpa using other)]
        exact induction distinct later

def idAt (memory : AgentMemory Embedding ℚ) (index : Nat) : Uuid :=
  (memory.entries[index]?.map MemoryEntry.id).getD (Uuid.ofByte 0)

theorem map_idAt_candidates (memory : AgentMemory Embedding ℚ) (agentId : String) :
    (memory.candidates agentId).map memory.idAt =
      ((memory.liveOf agentId).map brief).map Prod.fst := by
  have entries : memory.entries.zipIdx.map Prod.fst = memory.entries :=
    List.zipIdx_map_fst 0 memory.entries
  have filtered : memory.liveOf agentId =
      (memory.entries.zipIdx.filter fun (entry, _) => entry.isLiveOf agentId).map
        Prod.fst := by
    conv_lhs => rw [liveOf, ← entries, List.filter_map]
    rfl
  rw [filtered, candidates, List.map_map, List.map_map, List.map_map]
  apply List.map_congr_left
  intro placed member
  have here := List.mem_zipIdx_iff_getElem?.mp (List.mem_of_mem_filter member)
  simp only [Function.comp_apply, idAt, here, Option.map_some, Option.getD_some, brief]

theorem mem_liveOf_of_candidate {memory : AgentMemory Embedding ℚ} {agentId : String}
    {index : Nat} {entry : MemoryEntry Embedding ℚ} (here : memory.entries[index]? = some entry)
    (live : entry.isLiveOf agentId = true) : brief entry ∈ (memory.liveOf agentId).map brief :=
  List.mem_map_of_mem (List.mem_filter.mpr ⟨List.mem_of_getElem? here, live⟩)

theorem nodup_briefs {memory : AgentMemory Embedding ℚ} (distinct : memory.ids.Nodup)
    (agentId : String) : (((memory.liveOf agentId).map brief).map Prod.fst).Nodup := by
  rw [List.map_map]
  exact distinct.sublist (List.filter_sublist.map MemoryEntry.id)

/-- The pass over the indices is the pass over the ids. -/
theorem map_idAt_droppedBy {memory : AgentMemory Embedding ℚ} (distinct : memory.ids.Nodup)
    (agentId : String) :
    (droppedBy sim memory agentId).map memory.idAt =
      droppedIds sim ((memory.liveOf agentId).map brief) := by
  have briefs := nodup_briefs distinct agentId
  have known {index : Nat} (isCandidate : index ∈ memory.candidates agentId) :
      ∃ entry, memory.entries[index]? = some entry ∧ memory.idAt index = entry.id ∧
        withId ((memory.liveOf agentId).map brief) (memory.idAt index) =
          some (brief entry) := by
    rcases mem_candidates.mp isCandidate with ⟨entry, here, live⟩
    have id : memory.idAt index = entry.id := by
      rw [idAt, here]
      rfl
    refine ⟨entry, here, id, ?_⟩
    rw [id]
    exact withId_of_mem briefs (mem_liveOf_of_candidate here live)
  rw [droppedIds, ← map_idAt_candidates, droppedBy]
  symm
  apply thin_map (loserAt_chosen memory.entries)
  · intro first isFirst second isSecond same
    rcases known isFirst with ⟨a, hereA, idA, -⟩
    rcases known isSecond with ⟨b, hereB, idB, -⟩
    exact getElem?_inj_of_ids distinct hereA hereB (by rw [← idA, ← idB, same])
  · intro first isFirst second isSecond
    rcases known isFirst with ⟨a, hereA, -, foundA⟩
    rcases known isSecond with ⟨b, hereB, -, foundB⟩
    simp only [similarIds, similarAt, foundA, foundB, hereA, hereB, brief]
  · intro first isFirst second isSecond
    rcases known isFirst with ⟨a, hereA, -, foundA⟩
    rcases known isSecond with ⟨b, hereB, -, foundB⟩
    simp only [loserId, loserAt, foundA, foundB, hereA, hereB, brief]
    split <;> rfl

theorem entries_consolidate {memory : AgentMemory Embedding ℚ} (distinct : memory.ids.Nodup)
    (agentId : String) :
    (memory.consolidate sim agentId).2.entries =
      memory.entries.map (forgetIn (droppedIds sim ((memory.liveOf agentId).map brief))) := by
  rw [consolidate_eq, ← map_idAt_droppedBy sim distinct]
  apply List.ext_getElem?
  intro index
  rw [getElem?_marked, List.getElem?_map]
  cases here : memory.entries[index]? with
  | none => rfl
  | some entry =>
      have exactly : index ∈ droppedBy sim memory agentId ↔
          entry.id ∈ (droppedBy sim memory agentId).map memory.idAt := by
        constructor
        · intro isDropped
          refine List.mem_map.mpr ⟨index, isDropped, ?_⟩
          rw [idAt, here]
          rfl
        · intro isDropped
          rcases List.mem_map.mp isDropped with ⟨other, otherDropped, same⟩
          rcases mem_candidates.mp (mem_of_mem_thin (loserAt_chosen memory.entries)
            otherDropped) with ⟨found, there, -⟩
          rw [idAt, there] at same
          exact getElem?_inj_of_ids distinct there here same ▸ otherDropped
      simp only [Option.map_some, forgetIn, exactly]

/-! ## Two runs -/

/-- A memory without the time at which it came. -/
def timeless (entry : MemoryEntry Embedding ℚ) : MemoryEntry Embedding ℚ :=
  { entry with createdAt := 0 }

/-- The second store has the agent's memories of the first one, and no others. -/
def Alike (agentId : String) (full own : AgentMemory Embedding ℚ) : Prop :=
  (full.entries.filter fun entry => entry.agentId == agentId).map timeless =
    own.entries.map timeless

theorem map_eq_map_of {Item Shape Result : Type} (first second : Item → Result)
    {shape : Item → Shape} {left right : List Item}
    (same : left.map shape = right.map shape)
    (agree : ∀ a ∈ left, ∀ b ∈ right, shape a = shape b → first a = second b) :
    left.map first = right.map second := by
  induction left generalizing right with
  | nil =>
      cases right with
      | nil => rfl
      | cons b right => cases same
  | cons a left induction =>
      cases right with
      | nil => cases same
      | cons b right =>
          rcases List.cons.inj same with ⟨here, same⟩
          have head := agree a List.mem_cons_self b List.mem_cons_self here
          have tail := induction same fun a inLeft b inRight =>
            agree a (List.mem_cons_of_mem _ inLeft) b (List.mem_cons_of_mem _ inRight)
          rw [List.map_cons, List.map_cons, head, tail]

section Alike

variable {sim} {agentId : String} {full own : AgentMemory Embedding ℚ}

theorem Alike.agentId_eq (alike : Alike agentId full own) {entry : MemoryEntry Embedding ℚ}
    (member : entry ∈ own.entries) : entry.agentId = agentId := by
  have shape : timeless entry ∈ own.entries.map timeless := List.mem_map_of_mem member
  rw [← alike] at shape
  rcases List.mem_map.mp shape with ⟨other, isOther, same⟩
  have named : other.agentId = agentId := by
    simpa using (List.mem_filter.mp isOther).2
  have sameAgent : (timeless other).agentId = (timeless entry).agentId := by rw [same]
  have sameAgent : other.agentId = entry.agentId := sameAgent
  rw [← sameAgent, named]

theorem Alike.liveOf (alike : Alike agentId full own) :
    (full.liveOf agentId).map timeless = (own.liveOf agentId).map timeless := by
  have unseen : MemoryEntry.isLiveOf agentId ∘ timeless =
      (MemoryEntry.isLiveOf agentId : MemoryEntry Embedding ℚ → Bool) := by
    funext entry
    rfl
  have filtered := congrArg (List.filter (MemoryEntry.isLiveOf agentId)) alike
  rw [List.filter_map, List.filter_map, unseen, List.filter_filter] at filtered
  rw [AgentMemory.liveOf, AgentMemory.liveOf, ← filtered]
  congr 1
  apply List.filter_congr
  intro entry _
  rw [MemoryEntry.isLiveOf]
  cases entry.agentId == agentId <;> simp

/-- Changes of single memories that do not look at the time keep stores alike. -/
theorem Alike.map (alike : Alike agentId full own)
    {first second : MemoryEntry Embedding ℚ → MemoryEntry Embedding ℚ}
    (agent : ∀ entry, (first entry).agentId = entry.agentId)
    (agree : ∀ a ∈ full.entries, a.agentId = agentId → ∀ b, timeless a = timeless b →
      timeless (first a) = timeless (second b)) (fullClock ownClock : Int) :
    Alike agentId ⟨full.entries.map first, fullClock⟩ ⟨own.entries.map second, ownClock⟩ := by
  have unseen : ((fun entry => entry.agentId == agentId) ∘ first) =
      fun entry : MemoryEntry Embedding ℚ => entry.agentId == agentId := by
    funext entry
    rw [Function.comp_apply, agent]
  rw [Alike, List.filter_map, unseen, List.map_map, List.map_map]
  apply map_eq_map_of _ _ alike
  intro a inFull b _ same
  rcases List.mem_filter.mp inFull with ⟨member, named⟩
  exact agree a member (by simpa using named) b same

theorem timeless_forgetIn {dropped : List Uuid} {a b : MemoryEntry Embedding ℚ}
    (same : timeless a = timeless b) :
    timeless (forgetIn dropped a) = timeless (forgetIn dropped b) := by
  have sameId : (timeless a).id = (timeless b).id := by rw [same]
  have sameId : a.id = b.id := sameId
  have forgotten : timeless a.forgotten = timeless b.forgotten :=
    congrArg MemoryEntry.forgotten same
  rw [forgetIn, forgetIn, sameId]
  split
  · exact forgotten
  · exact same

theorem timeless_decay {a b : MemoryEntry Embedding ℚ} (same : timeless a = timeless b) :
    timeless a.decay = timeless b.decay := by
  have commutes (entry : MemoryEntry Embedding ℚ) :
      timeless entry.decay = (timeless entry).decay := by
    cases dead : entry.tombstone <;> simp [MemoryEntry.decay, timeless, dead]
  rw [commutes, commutes, same]

theorem agentId_forgetIn (dropped : List Uuid) (entry : MemoryEntry Embedding ℚ) :
    (forgetIn dropped entry).agentId = entry.agentId := by
  rw [forgetIn]
  split <;> rfl

theorem agentId_decay (entry : MemoryEntry Embedding ℚ) :
    entry.decay.agentId = entry.agentId := by
  rw [MemoryEntry.decay]
  split <;> rfl

/-- The ids that the pass over another agent drops are not this agent's. -/
theorem id_notMem_droppedIds (distinct : full.ids.Nodup) {other : String}
    (different : other ≠ agentId) {entry : MemoryEntry Embedding ℚ}
    (member : entry ∈ full.entries) (named : entry.agentId = agentId) :
    entry.id ∉ droppedIds sim ((full.liveOf other).map brief) := by
  intro isDropped
  rw [← map_idAt_droppedBy sim distinct] at isDropped
  rcases List.mem_map.mp isDropped with ⟨index, dropped, same⟩
  rcases mem_candidates.mp (mem_of_mem_thin (loserAt_chosen full.entries) dropped) with
    ⟨found, there, live⟩
  rcases List.mem_iff_getElem?.mp member with ⟨place, here⟩
  rw [idAt, there] at same
  have samePlace := getElem?_inj_of_ids distinct there here same
  subst samePlace
  rw [there] at here
  cases here
  have isOther : entry.agentId = other := by
    simpa using (Bool.and_eq_true_iff.mp live).2
  exact different (isOther ▸ named)

theorem forgetIn_of_notMem {dropped : List Uuid} {entry : MemoryEntry Embedding ℚ}
    (kept : entry.id ∉ dropped) : forgetIn dropped entry = entry :=
  if_neg kept

/-- The pass over an agent's memories keeps stores alike, whoever the agent is. -/
theorem Alike.consolidate (alike : Alike agentId full own) (distinct : full.ids.Nodup)
    (ownDistinct : own.ids.Nodup) (other : String) :
    Alike agentId (full.consolidate sim other).2 (own.consolidate sim other).2 := by
  have shape (memory : AgentMemory Embedding ℚ) : (memory.consolidate sim other).2 =
      ⟨(memory.consolidate sim other).2.entries, memory.clock⟩ := by
    rw [consolidate_eq]
  rw [shape full, shape own, entries_consolidate sim distinct,
    entries_consolidate sim ownDistinct]
  apply alike.map (agentId_forgetIn _)
  intro a inFull named b same
  by_cases here : other = agentId
  · subst here
    have briefs : (full.liveOf other).map brief = (own.liveOf other).map brief := by
      have unseen : brief ∘ timeless = (brief : MemoryEntry Embedding ℚ → _) := by
        funext entry
        rfl
      have mapped := congrArg (List.map brief) alike.liveOf
      rwa [List.map_map, List.map_map, unseen] at mapped
    rw [briefs]
    exact timeless_forgetIn same
  · have none : own.liveOf other = [] := by
      apply List.filter_eq_nil_iff.mpr
      intro entry member live
      have isOther : entry.agentId = other := by
        simpa using (Bool.and_eq_true_iff.mp live).2
      exact here (isOther ▸ alike.agentId_eq member)
    rw [forgetIn_of_notMem (id_notMem_droppedIds distinct here inFull named), none]
    have kept : b.id ∉ droppedIds sim ([] : List (Uuid × Embedding × ℚ)) :=
      List.not_mem_nil
    rw [List.map_nil, forgetIn_of_notMem kept, same]

end Alike

theorem ids_run (calls : List MemoryCall) :
    (run embed sim calls).ids = rememberedIds calls := by
  have stamps := congrArg (List.map Prod.fst) (run_wellTimed embed sim calls).stamps
  rw [List.map_map, List.map_map] at stamps
  exact stamps.trans (List.zipIdx_map_fst 0 _)

theorem rememberedIds_withoutOthers (agentId : String) (calls : List MemoryCall) :
    (rememberedIds (withoutOthers agentId calls)).Sublist (rememberedIds calls) :=
  List.filter_sublist.filterMap _

theorem withoutOthers_concat (agentId : String) (calls : List MemoryCall)
    (call : MemoryCall) :
    withoutOthers agentId (calls ++ [call]) =
      if call.isOwn agentId then withoutOthers agentId calls ++ [call]
      else withoutOthers agentId calls := by
  rw [withoutOthers, withoutOthers, List.filter_append, List.filter_singleton]
  cases call.isOwn agentId <;> simp

/-- Both runs have the same memories of the agent after every call. -/
theorem run_alike {calls : List MemoryCall} (distinct : (rememberedIds calls).Nodup)
    (agentId : String) :
    Alike agentId (run embed sim calls) (run embed sim (withoutOthers agentId calls)) := by
  induction calls using List.reverseRecOn with
  | nil => rfl
  | append_singleton calls call induction =>
      rw [rememberedIds_concat] at distinct
      have distinct := (List.nodup_append.mp distinct).1
      have alike := induction distinct
      have fullIds : (run embed sim calls).ids.Nodup := by
        rw [ids_run]
        exact distinct
      have ownIds : (run embed sim (withoutOthers agentId calls)).ids.Nodup := by
        rw [ids_run]
        exact distinct.sublist (rememberedIds_withoutOthers agentId calls)
      rw [run_concat, withoutOthers_concat]
      cases call with
      | remember id other content opts =>
          by_cases named : other = agentId
          · subst named
            have own : (MemoryCall.remember id other content opts).isOwn other = true := by
              simp [MemoryCall.isOwn]
            rw [if_pos own, run_concat]
            simp only [Alike, apply, remember, List.filter_append, List.map_append,
              List.filter_singleton, beq_self_eq_true, List.map_singleton] at alike ⊢
            rw [alike]
            rfl
          · have foreign : ¬ (MemoryCall.remember id other content opts).isOwn agentId = true := by
              simpa [MemoryCall.isOwn] using named
            rw [if_neg foreign]
            have absent : (other == agentId) = false := by simpa using named
            simp only [Alike, apply, remember, List.filter_append, List.filter_singleton,
              absent, cond_false, List.append_nil] at alike ⊢
            exact alike
      | forget memoryId =>
          have own : (MemoryCall.forget memoryId).isOwn agentId = true := rfl
          rw [if_pos own, run_concat]
          rw [Alike, apply, apply, entries_forget fullIds, entries_forget ownIds]
          exact alike.map (agentId_forgetIn _) (fun _ _ _ _ same => timeless_forgetIn same) 0 0
      | consolidate other =>
          have own : (MemoryCall.consolidate other).isOwn agentId = true := rfl
          rw [if_pos own, run_concat]
          exact alike.consolidate fullIds ownIds other
      | decayAll =>
          have own : MemoryCall.decayAll.isOwn agentId = true := rfl
          rw [if_pos own, run_concat]
          exact alike.map agentId_decay (fun _ _ _ _ same => timeless_decay same) _ _

/-! ## Recall in both runs -/

/-- What a caller is shown of a result. -/
def shown (result : MemoryResult) : Uuid × String × ℚ :=
  (result.memoryId, result.content, result.score)

theorem recency_of_mem_recall {calls : List MemoryCall}
    (distinct : (rememberedIds calls).Nodup) {agentId query : String} {weights : RecallWeights}
    {topK : Nat} {result : MemoryResult}
    (member : result ∈ (run embed sim calls).recall embed sim agentId query weights topK) :
    result.components.recencyScore = 1 / (1 + (age result.memoryId calls : ℚ)) := by
  rw [recall_eq] at member
  have inSorted := List.mem_of_mem_take member
  have inResults := (List.mem_insertionSort _).mp inSorted
  rcases List.mem_map.mp inResults with ⟨entry, isLive, rfl⟩
  have time := clock_sub_createdAt embed sim distinct (List.mem_of_mem_filter isLive)
  simp only [resultOf, scoreOf, time]
  rfl

theorem map_shown_recall (memory : AgentMemory Embedding ℚ) (agentId query : String)
    (weights : RecallWeights) (topK : Nat) :
    (memory.recall embed sim agentId query weights topK).map shown =
      (((memory.liveOf agentId).map fun entry =>
        shown (resultOf sim (embed query) weights memory.clock entry)).insertionSort
          fun a b => b.2.2 ≤ a.2.2).take topK := by
  have sorted := List.map_insertionSort (fun a b : MemoryResult => b.score ≤ a.score)
    (fun a b : Uuid × String × ℚ => b.2.2 ≤ a.2.2) shown
    ((memory.liveOf agentId).map (resultOf sim (embed query) weights memory.clock))
    (fun _ _ _ _ => Iff.rfl)
  rw [List.map_map] at sorted
  rw [recall_eq, List.map_take]
  exact congrArg (List.take topK) sorted

/-- What an agent recalls beside others and without their memories. -/
structure RecallIsolated (calls : List MemoryCall) (agentId : String) : Prop where
  /-- The live memories are the same and in the same order, but for their times. -/
  memories : ((run embed sim calls).liveOf agentId).map timeless =
    ((run embed sim (withoutOthers agentId calls)).liveOf agentId).map timeless
  /-- The recency of a result is told by its age, which counts the memories of all. -/
  recency : ∀ query weights topK, ∀ result ∈
    (run embed sim calls).recall embed sim agentId query weights topK,
      result.components.recencyScore = 1 / (1 + (age result.memoryId calls : ℚ))
  /-- Without a weight on recency the others make no difference. -/
  unweighted : ∀ query weights topK, weights.recency = 0 →
    ((run embed sim calls).recall embed sim agentId query weights topK).map shown =
      ((run embed sim (withoutOthers agentId calls)).recall embed sim agentId query weights
        topK).map shown
  /-- Nor do they as long as they leave the ages of the agent's memories as they are. -/
  sameAges : (∀ entry ∈ (run embed sim (withoutOthers agentId calls)).liveOf agentId,
      age entry.id calls = age entry.id (withoutOthers agentId calls)) →
    ∀ query weights topK,
      (run embed sim calls).recall embed sim agentId query weights topK =
        (run embed sim (withoutOthers agentId calls)).recall embed sim agentId query weights
          topK

/-- For every run whose new memories have ids of their own. -/
theorem recall_isolated {calls : List MemoryCall} (distinct : (rememberedIds calls).Nodup)
    (agentId : String) : RecallIsolated embed sim calls agentId := by
  have live := (run_alike embed sim distinct agentId).liveOf
  have ownDistinct := distinct.sublist (rememberedIds_withoutOthers agentId calls)
  refine
    { memories := live
      recency := fun _ _ _ _ member => recency_of_mem_recall embed sim distinct member
      unweighted := ?_
      sameAges := ?_ }
  · intro query weights topK unweighted
    rw [map_shown_recall, map_shown_recall]
    have results := map_eq_map_of
      (fun entry => shown (resultOf sim (embed query) weights
        (run embed sim calls).clock entry))
      (fun entry => shown (resultOf sim (embed query) weights
        (run embed sim (withoutOthers agentId calls)).clock entry)) live (by
        intro a _ b _ same
        have parts := MemoryEntry.mk.inj same
        simp only [shown, resultOf, scoreOf, unweighted, zero_mul, add_zero, parts])
    rw [results]
  · intro ages query weights topK
    rw [recall_eq, recall_eq]
    have results := map_eq_map_of
      (resultOf sim (embed query) weights (run embed sim calls).clock)
      (resultOf sim (embed query) weights
        (run embed sim (withoutOthers agentId calls)).clock) live (by
        intro a inFull b inOwn same
        have parts := MemoryEntry.mk.inj same
        have fullTime := clock_sub_createdAt embed sim distinct
          (List.mem_of_mem_filter inFull)
        have ownTime := clock_sub_createdAt embed sim ownDistinct
          (List.mem_of_mem_filter inOwn)
        have time : (run embed sim calls).clock - a.createdAt =
            (run embed sim (withoutOthers agentId calls)).clock - b.createdAt := by
          rw [fullTime, ownTime, parts.1, ages b inOwn]
        simp only [resultOf, scoreOf, time, parts])
    rw [results]

/-- An older and more important memory of one agent, a newer one, and then three
memories of another agent. -/
def busyNeighbour : List MemoryCall :=
  [.remember (Uuid.ofByte 1) "a" "old" ⟨1 / 10, 0⟩, .remember (Uuid.ofByte 2) "a" "new" ⟨0, 0⟩,
    .remember (Uuid.ofByte 3) "b" "x" ⟨1, 0⟩, .remember (Uuid.ofByte 4) "b" "y" ⟨1, 0⟩,
    .remember (Uuid.ofByte 5) "b" "z" ⟨1, 0⟩]

/-- The words are single, so that their embeddings have length one and need no root. -/
theorem recall_isolated_busyNeighbour :
    RecallIsolated (bagOfWordsEmbed Text.asciiCases id) (cosineSim id) busyNeighbour "a" :=
  recall_isolated _ _ (by decide +kernel) "a"

/-- The other agent's memories change the scores, and with them the order. -/
theorem recall_shifts_with_neighbour :
    let embed := bagOfWordsEmbed Text.asciiCases id
    let weights : RecallWeights := ⟨0, 1, 1⟩
    let recalled (calls : List MemoryCall) :=
      ((run embed (cosineSim id) calls).recall embed (cosineSim id) "a" "old" weights 2).map
        fun result => (result.content, result.score)
    (rememberedIds busyNeighbour).Nodup ∧
      recalled busyNeighbour = [("old", 4 / 15), ("new", 1 / 5)] ∧
      recalled (withoutOthers "a" busyNeighbour) = [("new", 1 / 2), ("old", 13 / 30)] := by
  decide +kernel

end AgentMemory

end FunDB.Cognitive
