import FunDB.Raft.State
import Mathlib.Data.List.Induction

/-! # The loops of a follower on any log

What `handle_append_entries` makes of a log, without any assumption about the
log or the received entries: it keeps what lies below every conflict and adds
what was missing. -/

namespace FunDB.Raft.RaftState

/-- Whether an entry of the log stands at the index. -/
def HasIndex (log : List LogEntry) (index : Nat) : Prop :=
  ∃ entry ∈ log, entry.index = index

/-- The log has another term at the index of the received entry. -/
def ConflictsWith (log : List LogEntry) (received : LogEntry) : Prop :=
  termAt log received.index ≠ 0 ∧ termAt log received.index ≠ received.term

instance (log : List LogEntry) (index : Nat) : Decidable (HasIndex log index) :=
  inferInstanceAs (Decidable (∃ entry ∈ log, _))

instance (log : List LogEntry) (received : LogEntry) :
    Decidable (ConflictsWith log received) :=
  inferInstanceAs (Decidable (_ ∧ _))

/-- The entries of the log below every received entry that conflicts with it. -/
def survivors (log entries : List LogEntry) : List LogEntry :=
  log.filter fun entry =>
    ∀ received ∈ entries, ConflictsWith log received → entry.index < received.index

/-- The received entries at whose index neither a known entry nor an earlier
received one has a term. -/
def newcomers : List LogEntry → List LogEntry → List LogEntry
  | _, [] => []
  | known, received :: rest =>
      if termAt known received.index = 0 then
        received :: newcomers (known ++ [received]) rest
      else
        newcomers (known ++ [received]) rest

/-- The index of the last entry that the loops leave. -/
def endIndex (log entries : List LogEntry) : Nat :=
  ((survivors log entries ++ newcomers (survivors log entries) entries).getLast?.map
    LogEntry.index).getD 0

/-! ## Terms in a part of the log -/

theorem termAt_filter (log : List LogEntry) (kept : Nat → Prop) [DecidablePred kept]
    (index : Nat) :
    termAt (log.filter fun entry => kept entry.index) index =
      if kept index then termAt log index else 0 := by
  have sameTest : (fun entry : LogEntry =>
      decide (decide (kept entry.index) = true ∧ decide (entry.index = index) = true)) =
        fun entry => decide (kept index) && decide (entry.index = index) := by
    funext entry
    by_cases same : entry.index = index <;> simp [same]
  rw [termAt, termAt, List.find?_filter, sameTest]
  by_cases isKept : kept index
  · simp [isKept]
  · have nothing : log.find? (fun _ => false) = none := List.find?_eq_none.mpr (by simp)
    simp [isKept, nothing]

theorem hasIndex_of_termAt_ne_zero {log : List LogEntry} {index : Nat}
    (known : termAt log index ≠ 0) : HasIndex log index := by
  rw [termAt] at known
  split at known
  · exact absurd rfl known
  · cases found : log.find? fun entry => entry.index = index with
    | none => simp [found] at known
    | some entry =>
        have same := List.find?_some found
        exact ⟨entry, List.mem_of_find?_eq_some found, by simpa using same⟩

/-! ## The truncating loop -/

theorem truncateConflicts_eq (log entries : List LogEntry) :
    truncateConflicts log entries = survivors log entries := by
  induction entries using List.reverseRecOn with
  | nil => simp [truncateConflicts, survivors]
  | append_singleton earlier received induction =>
      have foldStep : truncateConflicts log (earlier ++ [received]) =
          if termAt (survivors log earlier) received.index ≠ 0 ∧
              termAt (survivors log earlier) received.index ≠ received.term then
            (survivors log earlier).filter fun existing => existing.index < received.index
          else
            survivors log earlier := by
        rw [← induction, truncateConflicts, List.foldl_append]
        rfl
      have remaining := termAt_filter log (fun index => ∀ other ∈ earlier,
        ConflictsWith log other → index < other.index) received.index
      rw [foldStep]
      by_cases below : ∀ other ∈ earlier, ConflictsWith log other →
          received.index < other.index
      · rw [if_pos below] at remaining
        rw [survivors, remaining]
        by_cases conflict : ConflictsWith log received
        · rw [if_pos (show _ ∧ _ from conflict), List.filter_filter, survivors]
          congr 1
          funext entry
          simp [conflict, or_imp, forall_and, and_comm]
        · rw [if_neg (show ¬ (_ ∧ _) from conflict), survivors]
          congr 1
          funext entry
          simp [conflict, or_imp, forall_and]
      · -- An earlier conflict has already cut the log below this index.
        rw [if_neg below] at remaining
        rw [survivors, remaining, if_neg (by simp), survivors]
        congr 1
        funext entry
        simp only [not_forall, Nat.not_lt] at below
        rcases below with ⟨other, member, conflict, reached⟩
        simp only [List.mem_append, List.mem_singleton, or_imp, forall_and, forall_eq,
          decide_eq_decide]
        constructor
        · intro under
          have cut := under other member conflict
          exact ⟨under, fun _ => by omega⟩
        · exact fun under => under.1

/-! ## The appending loop -/

private theorem appendMissing_eq_of_sameFind (entries : List LogEntry) :
    ∀ {log known : List LogEntry},
      (∀ index, log.find? (fun entry => entry.index = index) =
        known.find? fun entry => entry.index = index) →
      appendMissing log entries = log ++ newcomers known entries := by
  induction entries with
  | nil => intro log known _; simp [appendMissing, newcomers]
  | cons received rest induction =>
      intro log known sameFind
      have sameTerm : termAt log received.index = termAt known received.index := by
        rw [termAt, termAt, sameFind]
      rw [appendMissing, List.foldl_cons, ← appendMissing, newcomers, sameTerm]
      by_cases absent : termAt known received.index = 0
      · have sameAfter (index : Nat) :
            (log ++ [received]).find? (fun entry => entry.index = index) =
              (known ++ [received]).find? fun entry => entry.index = index := by
          rw [List.find?_append, List.find?_append, sameFind]
        rw [if_pos absent, if_pos absent, induction sameAfter]
        simp
      · -- The entry is known, so remembering it again changes no search.
        have sameAfter (index : Nat) :
            log.find? (fun entry => entry.index = index) =
              (known ++ [received]).find? fun entry => entry.index = index := by
          rw [List.find?_append, sameFind]
          by_cases same : received.index = index
          · subst same
            rcases hasIndex_of_termAt_ne_zero absent with ⟨entry, member, sameIndex⟩
            have found : (known.find? fun item => item.index = received.index).isSome :=
              List.find?_isSome.mpr ⟨entry, member, by simp [sameIndex]⟩
            rw [Option.or_of_isSome found]
          · simp [same]
        rw [if_neg absent, if_neg absent, induction sameAfter]

theorem appendMissing_eq (log entries : List LogEntry) :
    appendMissing log entries = log ++ newcomers log entries :=
  appendMissing_eq_of_sameFind entries fun _ => rfl

theorem replicateEntries_eq (log entries : List LogEntry) :
    replicateEntries log entries =
      survivors log entries ++ newcomers (survivors log entries) entries := by
  rw [replicateEntries, truncateConflicts_eq, appendMissing_eq]

theorem lastIndex_replicateEntries (log entries : List LogEntry) :
    ((replicateEntries log entries).getLast?.map LogEntry.index).getD 0 =
      endIndex log entries := by
  rw [replicateEntries_eq, endIndex]

/-! ## Indices -/

theorem hasIndex_append (first second : List LogEntry) {index : Nat} :
    HasIndex (first ++ second) index ↔ HasIndex first index ∨ HasIndex second index := by
  simp [HasIndex, or_and_right, exists_or]

theorem hasIndex_cons (entry : LogEntry) (rest : List LogEntry) {index : Nat} :
    HasIndex (entry :: rest) index ↔ HasIndex [entry] index ∨ HasIndex rest index :=
  hasIndex_append [entry] rest

theorem hasIndex_newcomers_iff (entries : List LogEntry) (index : Nat) :
    ∀ known, HasIndex known index ∨ HasIndex (newcomers known entries) index ↔
      HasIndex known index ∨ HasIndex entries index := by
  induction entries with
  | nil => intro known; simp [newcomers]
  | cons received rest induction =>
      intro known
      have later := induction (known ++ [received])
      rw [hasIndex_append] at later
      rw [newcomers]
      split
      · rw [hasIndex_cons received (newcomers _ rest), hasIndex_cons received rest, ← or_assoc,
          ← or_assoc]
        exact later
      · rename_i present
        have redundant : HasIndex [received] index → HasIndex known index := by
          intro isReceived
          rcases isReceived with ⟨entry, member, rfl⟩
          rw [List.mem_singleton.mp member]
          exact hasIndex_of_termAt_ne_zero present
        rw [hasIndex_cons received rest, ← or_assoc]
        rw [or_iff_left_of_imp redundant] at later ⊢
        exact later

theorem hasIndex_replicateEntries_iff (log entries : List LogEntry) (index : Nat) :
    HasIndex (replicateEntries log entries) index ↔
      HasIndex (survivors log entries) index ∨ HasIndex entries index := by
  rw [replicateEntries_eq, hasIndex_append]
  exact hasIndex_newcomers_iff entries index _

theorem hasIndex_survivors_iff (log entries : List LogEntry) (index : Nat) :
    HasIndex (survivors log entries) index ↔ HasIndex log index ∧
      ∀ received ∈ entries, ConflictsWith log received → index < received.index := by
  constructor
  · intro survives
    rcases survives with ⟨entry, member, rfl⟩
    rcases List.mem_filter.mp member with ⟨inLog, below⟩
    exact ⟨⟨entry, inLog, rfl⟩, by simpa using below⟩
  · intro both
    rcases both with ⟨⟨entry, inLog, rfl⟩, below⟩
    exact ⟨entry, List.mem_filter.mpr ⟨inLog, by simpa using below⟩, rfl⟩

end FunDB.Raft.RaftState
