import Mathlib.Algebra.Group.Nat.Defs

/-! # Raft data types and messages -/

namespace FunDB.Raft

abbrev NodeId := Nat

/-- `"host:port"`. -/
abbrev PeerAddr := String

inductive RaftError where
  | notLeader (leader : Option NodeId)
  | storage (cause : String)
  | network (reason : String)
  | timeout
deriving DecidableEq, Repr

inductive EntryType where
  | normal
  | config
  | snapshot
deriving DecidableEq, Repr

/-- One entry of the replicated log. -/
structure LogEntry where
  index : Nat
  term : Nat
  data : List UInt8
  entryType : EntryType
deriving DecidableEq, Repr

/-- What a node must find again after a restart besides its log. -/
structure HardState where
  currentTerm : Nat
  votedFor : Option NodeId
  commit : Nat
deriving DecidableEq, Repr

def HardState.default : HardState where
  currentTerm := 0
  votedFor := none
  commit := 0

structure Snapshot where
  index : Nat
  term : Nat
  data : List UInt8
deriving DecidableEq, Repr

inductive RaftRole where
  | follower
  | candidate
  | leader
deriving DecidableEq, Repr

/-! ## RPC messages -/

structure AppendEntriesRequest where
  term : Nat
  leaderId : NodeId
  prevLogIndex : Nat
  prevLogTerm : Nat
  entries : List LogEntry
  leaderCommit : Nat
deriving DecidableEq, Repr

structure AppendEntriesResponse where
  term : Nat
  success : Bool
deriving DecidableEq, Repr

structure RequestVoteRequest where
  term : Nat
  candidateId : NodeId
  lastLogIndex : Nat
  lastLogTerm : Nat
deriving DecidableEq, Repr

structure RequestVoteResponse where
  term : Nat
  voteGranted : Bool
deriving DecidableEq, Repr

structure InstallSnapshotRequest where
  term : Nat
  leaderId : NodeId
  lastIncludedIndex : Nat
  lastIncludedTerm : Nat
  data : List UInt8
deriving DecidableEq, Repr

structure InstallSnapshotResponse where
  term : Nat
deriving DecidableEq, Repr

/-- `u64` increment in the release profile, which wraps. Terms and indices come
from the wire, so the last one can occur. -/
def wrappingSucc (value : Nat) : Nat := (value + 1) % 2 ^ 64

theorem wrappingSucc_of_lt {value : Nat} (below : value + 1 < 2 ^ 64) :
    wrappingSucc value = value + 1 :=
  Nat.mod_eq_of_lt below

end FunDB.Raft
