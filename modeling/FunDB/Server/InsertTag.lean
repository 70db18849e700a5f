import FunDB.Server.Shortcuts
import FunDB.Sql.InsertRows

/-! # The rows that an INSERT reports

The tag of an INSERT counts groups of parentheses in the text, from where the
upper-cased text has its first VALUES. -/

namespace FunDB.Server

open Text ByteSlices Sql Parentheses

variable (platform : HandlerPlatform)

/-! ## Counting -/

theorem ofInt_eq_zero_iff {level : Int} (low : level.natAbs < 2 ^ 31) :
    Int32.ofInt level = 0 ↔ level = 0 := by
  constructor
  · intro same
    have back := congrArg Int32.toInt same
    rw [Int32.toInt_ofInt_of_le (by omega) (by omega)] at back
    exact back
  · intro same
    rw [same]
    rfl

/-- Far from overflow, a step of the count reads a parenthesis. -/
theorem countStep_eq (groups : Groups) (char : Char) (low : groups.level.natAbs < 2 ^ 31) :
    countStep (groups.opened, Int32.ofInt groups.level) char =
      ((groups.read char).opened, Int32.ofInt (groups.read char).level) := by
  rw [countStep, Groups.read]
  split
  · simp only [ofInt_eq_zero_iff low, Int32.ofInt_add]
    rfl
  · split
    · simp only [Int32.ofInt_sub]
      rfl
    · rfl

theorem natAbs_level_read (groups : Groups) (char : Char) :
    (groups.read char).level.natAbs ≤ groups.level.natAbs + 1 := by
  rw [Groups.read]
  split
  · exact Int.natAbs_add_le groups.level 1
  · split
    · exact Int.natAbs_sub_le groups.level 1
    · exact Nat.le_succ _

theorem foldl_countStep (text : List Char) (groups : Groups)
    (low : groups.level.natAbs + text.length < 2 ^ 31) :
    text.foldl countStep (groups.opened, Int32.ofInt groups.level) =
      ((groups.readAll text).opened, Int32.ofInt (groups.readAll text).level) := by
  induction text generalizing groups with
  | nil => rfl
  | cons char text induction =>
      rw [List.length_cons] at low
      have next := natAbs_level_read groups char
      rw [List.foldl_cons, countStep_eq groups char (by omega), Groups.readAll_cons]
      exact induction (groups.read char) (by omega)

/-- The text that a query has behind as many bytes as its upper-cased copy has up
to the end of the first VALUES. -/
def behindValues (query : String) : Option (List Char) :=
  match find (platform.bind.cases.toUppercase query) "VALUES" with
  | some pos => dropBytes query.toList (pos + 6)
  | none => some []

/-- The count is that of the groups in the text, and never less than one. -/
theorem countValuesInQuery_eq {query : String} (short : query.length < 2 ^ 31) :
    countValuesInQuery platform query = (behindValues platform query).map groupCount := by
  rw [countValuesInQuery, behindValues]
  cases find (platform.bind.cases.toUppercase query) "VALUES" with
  | none => rfl
  | some pos =>
      change Option.map _ (dropBytes query.toList (pos + 6)) =
        (dropBytes query.toList (pos + 6)).map groupCount
      apply Option.map_congr
      intro rest dropped
      have low : Groups.start.level.natAbs + rest.length < 2 ^ 31 := by
        have shorter := length_dropBytes dropped
        rw [String.length_toList] at shorter
        change 0 + rest.length < 2 ^ 31
        omega
      have counted := foldl_countStep rest Groups.start low
      exact congrArg (fun counted => max counted.1 1) counted

/-! ## Texts that are counted right -/

/-- As many bytes into the query as its upper-cased copy has up to the end of the first
VALUES, a character starts, and no parenthesis stands between there and the keyword. -/
def OffsetFits (query : String) (behind : List Char) : Prop :=
  ∃ pos text, find (platform.bind.cases.toUppercase query) "VALUES" = some pos ∧
    dropBytes query.toList (pos + 6) = some text ∧ parentheses text = parentheses behind

/-- Behind the keyword VALUES, the parentheses of the text are those of the rows, but for
some in literals and comments that leave the rows as they are. -/
structure CountableText (query : String) (behind : List Char) : Prop where
  keyword : behindKeyword platform.text (query.length + 1) query.toList = some behind
  offset : OffsetFits platform query behind
  rows : keepsGroups platform.text (behind.length + 1) 0 0 behind = true
  ending : ∀ token ∈ unreadTokens platform.text query, token.parenthesis = none

/-- The number of rows is reported where only rows open groups in the text. -/
theorem countValuesInQuery_eq_length {query : String} {stmt : Ast.InsertStmt}
    {behind : List Char} (parsed : parse platform.text query = .ok (.insert stmt))
    (short : query.length < 2 ^ 31) (countable : CountableText platform query behind) :
    countValuesInQuery platform query = some stmt.values.length := by
  rcases countable.offset with ⟨pos, text, found, dropped, same⟩
  have sliced : behindValues platform query = some text := by
    rw [behindValues, found]
    exact dropped
  have groups : groupCount text = stmt.values.length := by
    rw [← groupCount_parentheses, same, groupCount_parentheses, groupCount,
      opened_of_keepsGroups parsed countable.keyword countable.rows countable.ending]
    exact Nat.max_eq_left (List.length_pos_of_ne_nil (parse_insert_ne_nil parsed))
  rw [countValuesInQuery_eq platform short, sliced, Option.map_some, groups]

/-! ## Parentheses in a literal -/

def rowCount : ParseOutcome → Option Nat
  | .ok (.insert stmt) => some stmt.values.length
  | _ => none

theorem exists_of_rowCount {outcome : ParseOutcome} {count : Nat}
    (counted : rowCount outcome = some count) :
    ∃ stmt, outcome = .ok (.insert stmt) ∧ stmt.values.length = count := by
  unfold rowCount at counted
  split at counted
  · next stmt => exact ⟨stmt, rfl, Option.some.inj counted⟩
  · cases counted

def bracketedInsert : String := "INSERT INTO notes (body) VALUES ('see (a)'), ('ok')"

/-- A pair of parentheses inside a literal does no harm. -/
theorem bracketed_literal_counted :
    ∃ stmt, parse .latin1 bracketedInsert = .ok (.insert stmt) ∧
      countValuesInQuery plainHandlerPlatform bracketedInsert = some stmt.values.length := by
  have rows : rowCount (parse .latin1 bracketedInsert) = some 2 := by decide +kernel
  rcases exists_of_rowCount rows with ⟨stmt, parsed, _⟩
  have countable : CountableText plainHandlerPlatform bracketedInsert
      " ('see (a)'), ('ok')".toList :=
    { keyword := by decide +kernel
      offset := ⟨25, " ('see (a)'), ('ok')".toList, by decide +kernel, by decide +kernel, rfl⟩
      rows := by decide +kernel
      ending := by decide +kernel }
  exact ⟨stmt, parsed,
    countValuesInQuery_eq_length plainHandlerPlatform parsed (by decide) countable⟩

def splitInsert : String := "INSERT INTO notes (body) VALUES ('a) (b')"

theorem split_literal_miscounted :
    ∃ stmt, parse .latin1 splitInsert = .ok (.insert stmt) ∧ stmt.values.length = 1 ∧
      countValuesInQuery plainHandlerPlatform splitInsert = some 2 := by
  have rows : rowCount (parse .latin1 splitInsert) = some 1 := by decide +kernel
  rcases exists_of_rowCount rows with ⟨stmt, parsed, length⟩
  exact ⟨stmt, parsed, length, by decide +kernel⟩

end FunDB.Server
