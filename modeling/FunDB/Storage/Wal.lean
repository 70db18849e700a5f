import FunDB.Core.Record
import FunDB.Foundation.Overlay

/-! # Write-ahead log

The log by its entries: the frames and their codec are taken to be exact. -/

namespace FunDB.Storage

inductive WalEntry where
  | write (txnId : Nat) (key : RecordKey) (record : FunRecord)
  | delete (txnId : Nat) (key : RecordKey)
  | txnCommit (txnId : Nat)
  | txnAbort (txnId : Nat)
  | checkpoint (lsn : Nat)
deriving DecidableEq, Repr

/-- The entries in the file, oldest first, and the number of the last one. -/
structure Wal where
  entries : List WalEntry
  currentLsn : Nat
deriving DecidableEq, Repr

namespace Wal

/-- Open a log file with the given content. -/
def openFile (entries : List WalEntry) : Wal where
  entries := entries
  currentLsn := entries.length

def append (wal : Wal) (entry : WalEntry) : Nat × Wal :=
  let lsn := wal.currentLsn + 1
  (lsn, { entries := wal.entries ++ [entry], currentLsn := lsn })

end Wal

/-- The record that a log entry writes for a key. -/
def WalEntry.written (entry : WalEntry) (key : RecordKey) : Option FunRecord :=
  match entry with
  | .write _ other record => if other = key then some record else none
  | _ => none

/-- The record last written for a key, deletes disregarded. -/
def lastLogged (entries : List WalEntry) (key : RecordKey) : Option FunRecord :=
  Overlay.newest WalEntry.written entries key

@[simp] theorem lastLogged_nil (key : RecordKey) : lastLogged [] key = none := rfl

theorem lastLogged_concat (entries : List WalEntry) (entry : WalEntry) (key : RecordKey) :
    lastLogged (entries ++ [entry]) key = (entry.written key).or (lastLogged entries key) := by
  simp [lastLogged]

end FunDB.Storage
