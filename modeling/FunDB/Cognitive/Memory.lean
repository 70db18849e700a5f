import FunDB.Core.Record
import FunDB.Foundation.Text
import FunDB.Foundation.Thinning
import FunDB.Foundation.Utf8
import Mathlib.Algebra.Order.Field.Rat

/-! # The memory of agents

The memories of all agents stand in one list, in the order in which they came, and
share one clock. How a text is embedded and how similar two embeddings are is left
open where the store uses it. -/

namespace FunDB.Cognitive

open Text Thinning Utf8

structure RememberOptions (Importance : Type) where
  importance : Importance
  decayRate : ℚ

structure RecallWeights where
  semantic : ℚ
  recency : ℚ
  importance : ℚ

structure RecallComponents where
  semanticScore : ℚ
  recencyScore : ℚ
  importanceScore : ℚ
deriving DecidableEq

structure MemoryResult where
  memoryId : Uuid
  content : String
  score : ℚ
  components : RecallComponents
deriving DecidableEq

/-- The message is `memory not found: ` with the id. -/
inductive MemoryError where
  | notFound (memoryId : Uuid)
deriving DecidableEq

structure MemoryEntry (Embedding Importance : Type) where
  id : Uuid
  agentId : String
  content : String
  embedding : Embedding
  importance : Importance
  decayRate : ℚ
  createdAt : Int
  confidence : ℚ
  tombstone : Bool
deriving DecidableEq

structure AgentMemory (Embedding Importance : Type) where
  entries : List (MemoryEntry Embedding Importance)
  clock : Int
deriving DecidableEq

/-! ## Embeddings -/

def djb2Hash (word : String) : UInt64 :=
  (asBytes word).foldl (fun acc byte => acc * 33 + byte.toUInt64) 5381

def isAsciiPunctuation (char : Char) : Bool :=
  let code := char.toNat
  (33 ≤ code && code ≤ 47) || (58 ≤ code && code ≤ 64) || (91 ≤ code && code ≤ 96) ||
    (123 ≤ code && code ≤ 126)

def tokenize (cases : CaseMapping) (text : String) : List String :=
  let pieces := text.toList.splitOnP fun char => isWhitespace char || isAsciiPunctuation char
  (pieces.filter (· ≠ [])).map fun piece => cases.toLowercase (String.ofList piece)

def sumOfSquares (vector : List ℚ) : ℚ :=
  (vector.map fun x => x * x).sum

/-- A unit vector of 64 word counts. `sqrt` rounds as the code does. -/
def bagOfWordsEmbed (cases : CaseMapping) (sqrt : ℚ → ℚ) (text : String) : List ℚ :=
  let counts := (tokenize cases text).foldl
    (fun vector word => vector.modify ((djb2Hash word).toNat % 64) (· + 1)) (List.replicate 64 0)
  let norm := sqrt (sumOfSquares counts)
  if 0 < norm then counts.map (· / norm) else counts

def cosineSim (sqrt : ℚ → ℚ) (a b : List ℚ) : ℚ :=
  let len := max a.length b.length
  let dot := ((List.range len).map fun i => a[i]?.getD 0 * b[i]?.getD 0).sum
  let na := sqrt (sumOfSquares a)
  let nb := sqrt (sumOfSquares b)
  if na = 0 ∨ nb = 0 then 0 else max (-1) (min (dot / (na * nb)) 1)

namespace MemoryEntry

variable {Embedding Importance : Type}

/-- Is the entry a live memory of the agent? -/
def isLiveOf (agentId : String) (entry : MemoryEntry Embedding Importance) : Bool :=
  !entry.tombstone && entry.agentId == agentId

def forgotten (entry : MemoryEntry Embedding Importance) : MemoryEntry Embedding Importance :=
  { entry with tombstone := true }

def decay (entry : MemoryEntry Embedding Importance) : MemoryEntry Embedding Importance :=
  if entry.tombstone then entry
  else { entry with confidence := max (entry.confidence - entry.decayRate * (1 / 100)) 0 }

end MemoryEntry

namespace AgentMemory

variable {Embedding Importance : Type}

def new : AgentMemory Embedding Importance where
  entries := []
  clock := 0

/-- The id is what `Uuid::now_v7` gives. -/
def remember (embed : String → Embedding) (memory : AgentMemory Embedding ℚ) (id : Uuid)
    (agentId content : String) (opts : RememberOptions ℚ) : Uuid × AgentMemory Embedding ℚ :=
  let now := memory.clock
  let entry :=
    { id := id
      agentId := agentId
      content := content
      embedding := embed content
      importance := opts.importance
      decayRate := opts.decayRate
      createdAt := now
      confidence := min opts.importance 1
      tombstone := false }
  (id, { entries := memory.entries ++ [entry], clock := now + 1 })

/-- The components and the total of an entry at a time. -/
def scoreOf (sim : Embedding → Embedding → ℚ) (queryEmbedding : Embedding) (clock : Int)
    (weights : RecallWeights) (entry : MemoryEntry Embedding ℚ) : ℚ × RecallComponents :=
  let semanticScore := sim queryEmbedding entry.embedding
  let recencyScore := 1 / (1 + ((clock - entry.createdAt : Int) : ℚ))
  let importanceScore := entry.importance
  (weights.semantic * semanticScore + weights.recency * recencyScore +
      weights.importance * importanceScore,
    { semanticScore, recencyScore, importanceScore })

/-- The best memories of the agent, those that came first before others of their score. -/
def «recall» (embed : String → Embedding) (sim : Embedding → Embedding → ℚ)
    (memory : AgentMemory Embedding ℚ) (agentId query : String) (weights : RecallWeights)
    (topK : Nat) : List MemoryResult :=
  let scored := (memory.entries.filter (MemoryEntry.isLiveOf agentId)).map fun entry =>
    (entry, scoreOf sim (embed query) memory.clock weights entry)
  let sorted := scored.insertionSort fun a b => b.2.1 ≤ a.2.1
  (sorted.take topK).map fun (entry, score, components) =>
    { memoryId := entry.id, content := entry.content, score, components }

/-- Marks the first entry of the id, dead or alive. -/
def forget (memory : AgentMemory Embedding Importance) (memoryId : Uuid) :
    Except MemoryError Unit × AgentMemory Embedding Importance :=
  match memory.entries.findIdx? fun entry => entry.id == memoryId with
  | some position =>
      (.ok (), { memory with entries := memory.entries.modify position MemoryEntry.forgotten })
  | none => (.error (.notFound memoryId), memory)

/-- The indices of the live memories of the agent. -/
def candidates (memory : AgentMemory Embedding Importance) (agentId : String) : List Nat :=
  (memory.entries.zipIdx.filter fun (entry, _) => entry.isLiveOf agentId).map Prod.snd

/-- One pair of the pass. The count wraps. -/
def consolidatePair [LinearOrder Importance] (sim : Embedding → Embedding → ℚ)
    (state : List (MemoryEntry Embedding Importance) × UInt32) (pair : Nat × Nat) :
    List (MemoryEntry Embedding Importance) × UInt32 :=
  let (entries, tombstoned) := state
  let (idxA, idxB) := pair
  match entries[idxA]?, entries[idxB]? with
  | some a, some b =>
      if a.tombstone || b.tombstone then state
      else if 9 / 10 < sim a.embedding b.embedding then
        let keepA := b.importance ≤ a.importance
        let dropIdx := if keepA then idxB else idxA
        (entries.modify dropIdx MemoryEntry.forgotten, tombstoned + 1)
      else state
  -- an index outside would panic
  | _, _ => state

/-- Drops one of each two similar memories of the agent. -/
def consolidate [LinearOrder Importance] (sim : Embedding → Embedding → ℚ)
    (memory : AgentMemory Embedding Importance) (agentId : String) :
    UInt32 × AgentMemory Embedding Importance :=
  let (entries, tombstoned) :=
    (orderedPairs (memory.candidates agentId)).foldl (consolidatePair sim) (memory.entries, 0)
  (tombstoned, { memory with entries })

def decayAll (memory : AgentMemory Embedding Importance) : AgentMemory Embedding Importance :=
  { memory with entries := memory.entries.map MemoryEntry.decay }

end AgentMemory

end FunDB.Cognitive
