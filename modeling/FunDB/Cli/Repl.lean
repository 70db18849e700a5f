import FunDB.Cli.Commands
import FunDB.Foundation.Recency

/-! # The interactive loop

Lines are collected into statements, which are sent when they end with a
semicolon. A command drops what is collected. -/

namespace FunDB.Cli

open Text Recency

/-! ## The loop -/

structure Repl where
  format : OutputFormat
  history : List String
  running : Bool
  sqlBuf : List Char
  continuationLines : Nat

namespace Repl

def historyLimit : Nat := 100

def new (format : OutputFormat) : Repl where
  format := format
  history := []
  running := true
  sqlBuf := []
  continuationLines := 0

/-- Add an entry, and drop the oldest one of too many. -/
def addHistory (repl : Repl) (entry : String) : Repl :=
  if entry = "" then repl
  else if repl.history.length ≥ historyLimit then
    { repl with history := repl.history.tail ++ [entry] }
  else { repl with history := repl.history ++ [entry] }

/-- What a command changes, and the statement that it sends. -/
def handleMeta (repl : Repl) (cmd : MetaCommand) : Repl × Option String :=
  match cmd with
  | .quit => ({ repl with running := false }, cmd.sql)
  | .format format => ({ repl with format := format }, cmd.sql)
  | _ => (repl, cmd.sql)

/-- `line.trim_end_matches('\n').trim_end_matches('\r')` -/
def lineContent (line : String) : List Char :=
  (line.toList.rdropWhile (· == '\n')).rdropWhile (· == '\r')

variable (cases : CaseMapping)

/-- One turn of the loop: a line is read, and a statement may be sent. -/
def readLine (repl : Repl) (line : String) : Repl × Option String :=
  let trimmed := lineContent line
  let trimStart := trimmed.dropWhile isWhitespace
  if repl.running = false then (repl, none)
  else if trimStart = [] then (repl, none)
  else if trimStart.head? = some '\\' then
    let repl := if repl.sqlBuf ≠ [] then { repl with sqlBuf := [], continuationLines := 0 }
      else repl
    repl.handleMeta (MetaCommand.parse cases (String.ofList trimStart))
  else if trimmed.getLast? = some '\\' then
    ({ repl with
        sqlBuf := repl.sqlBuf ++ trimmed.dropLast ++ [' ']
        continuationLines := repl.continuationLines + 1 }, none)
  else
    let sqlBuf := repl.sqlBuf ++ trimmed
    let sql := trim (String.ofList sqlBuf)
    if sql.toList.getLast? = some ';' then
      let entry := trim (String.ofList (sql.toList.rdropWhile (· == ';')))
      ({ repl.addHistory entry with sqlBuf := [], continuationLines := 0 }, some sql)
    else
      ({ repl with
          sqlBuf := sqlBuf ++ ['\n']
          continuationLines := repl.continuationLines + 1 }, none)

end Repl

/-! ## Whole sessions -/

/-- The last character that is not white space. -/
def lastInk (text : List Char) : Option Char :=
  text.reverse.find? (!isWhitespace ·)

/-- The first character that is not white space. -/
def firstInk (text : List Char) : Option Char :=
  text.find? (!isWhitespace ·)

theorem head?_dropWhile_whitespace (text : List Char) :
    (text.dropWhile isWhitespace).head? = firstInk text := by
  rw [firstInk]
  induction text with
  | nil => rfl
  | cons char text induction =>
      cases space : isWhitespace char with
      | true => simp [space, induction]
      | false => simp [space]

theorem lastInk_ne_none {text : List Char} (ink : firstInk text ≠ none) : lastInk text ≠ none := by
  intro none
  apply ink
  rw [lastInk, List.find?_eq_none] at none
  rw [firstInk, List.find?_eq_none]
  intro char member
  exact none char (List.mem_reverse.mpr member)

theorem lastInk_of_getLast? {text : List Char} {char : Char} (last : text.getLast? = some char)
    (ink : isWhitespace char = false) : lastInk text = some char := by
  rcases List.getLast?_eq_some_iff.mp last with ⟨before, rfl⟩
  rw [lastInk, List.reverse_append, List.reverse_singleton, List.singleton_append,
    List.find?_cons, ink]
  rfl

theorem lastInk_append {text : List Char} (before : List Char) (ink : lastInk text ≠ none) :
    lastInk (before ++ text) = lastInk text := by
  rw [lastInk, List.reverse_append, List.find?_append, ← lastInk]
  cases last : lastInk text with
  | none => exact absurd last ink
  | some char => rfl

theorem getLast?_trim (text : List Char) :
    (trim (String.ofList text)).toList.getLast? = lastInk text := by
  have spaces : (text.takeWhile isWhitespace).reverse.find? (!isWhitespace ·) = none := by
    rw [List.find?_eq_none]
    intro char member
    rw [List.mem_takeWhile_imp (List.mem_reverse.mp member)]
    decide
  have parts : (text.dropWhile isWhitespace).reverse.find? (!isWhitespace ·) = lastInk text := by
    have whole : text.takeWhile isWhitespace ++ text.dropWhile isWhitespace = text :=
      List.takeWhile_append_dropWhile
    conv_rhs => rw [lastInk, ← whole]
    rw [List.reverse_append, List.find?_append, spaces, Option.or_none]
  rw [trim, String.toList_ofList, String.toList_ofList, List.rdropWhile, List.getLast?_reverse,
    head?_dropWhile_whitespace]
  exact parts

/-- A line of a statement that is not its last one. -/
inductive TypedLine where
  | blank (spaces : List Char)
  | continued (text : List Char)
  | broken (text : List Char)

/-- A text that a line holds and that is not a command. -/
structure IsText (text : List Char) : Prop where
  ink : firstInk text ≠ none
  noCommand : firstInk text ≠ some '\\'
  oneLine : '\n' ∉ text

namespace TypedLine

def written : TypedLine → String
  | .blank spaces => String.ofList (spaces ++ ['\n'])
  | .continued text => String.ofList (text ++ ['\\', '\n'])
  | .broken text => String.ofList (text ++ ['\n'])

def meant : TypedLine → List Char
  | .blank _ => []
  | .continued text => text ++ [' ']
  | .broken text => text ++ ['\n']

def WellFormed : TypedLine → Prop
  | .blank spaces => '\n' ∉ spaces ∧ ∀ char ∈ spaces, isWhitespace char = true
  | .continued text => IsText text
  | .broken text =>
      IsText text ∧ text.getLast? ≠ some '\r' ∧ text.getLast? ≠ some '\\' ∧
        lastInk text ≠ some ';'

end TypedLine

def MetaCommand.chosen : MetaCommand → Option OutputFormat
  | .format asked => some asked
  | .help | .quit | .connect _ _ | .memory _ | .causal _ _ | .understand _ | .status
  | .unknown _ => none

/-- What a user types up to the end of a statement, or up to a command. A
command drops the lines in front of it. -/
inductive Entry where
  | statement (lines : List TypedLine) (last : List Char)
  | command (lines : List TypedLine) (line : List Char)

namespace Entry

def lines : Entry → List String
  | .statement lines last => lines.map TypedLine.written ++ [String.ofList (last ++ ['\n'])]
  | .command lines line => lines.map TypedLine.written ++ [String.ofList (line ++ ['\n'])]

def WellFormed : Entry → Prop
  | .statement lines last => (∀ line ∈ lines, line.WellFormed) ∧ IsText last ∧
      last.getLast? ≠ some '\r' ∧ lastInk last = some ';'
  | .command lines line => (∀ line ∈ lines, line.WellFormed) ∧ firstInk line = some '\\' ∧
      '\n' ∉ line ∧ line.getLast? ≠ some '\r'

/-- The command behind the white space in front of it. -/
def commandOf (cases : CaseMapping) (line : List Char) : MetaCommand :=
  MetaCommand.parse cases (String.ofList (line.dropWhile isWhitespace))

def sql (cases : CaseMapping) : Entry → Option String
  | .statement lines last =>
      some (trim (String.ofList (lines.flatMap TypedLine.meant ++ last)))
  | .command _ line => (commandOf cases line).sql

/-- A statement is remembered without its semicolons, a command is not. -/
def remembered : Entry → List String
  | .statement lines last =>
      let text := trim (String.ofList (lines.flatMap TypedLine.meant ++ last))
      [trim (String.ofList (text.toList.rdropWhile (· == ';')))].filter (· ≠ "")
  | .command _ _ => []

def chosen (cases : CaseMapping) : Entry → Option OutputFormat
  | .statement _ _ => none
  | .command _ line => (commandOf cases line).chosen

/-- An entry after which the loop goes on. -/
def Stays (cases : CaseMapping) : Entry → Prop
  | .statement _ _ => True
  | .command _ line => commandOf cases line ≠ .quit

end Entry

namespace Repl

/-- The loop over lines, and what it sends. -/
def run (cases : CaseMapping) (repl : Repl) : List String → Repl × List String
  | [] => (repl, [])
  | line :: lines =>
      let turn := repl.readLine cases line
      let later := run cases turn.1 lines
      (later.1, turn.2.toList ++ later.2)

variable {cases : CaseMapping}

theorem run_append (repl : Repl) (first second : List String) :
    repl.run cases (first ++ second) =
      (((repl.run cases first).1.run cases second).1,
        (repl.run cases first).2 ++ ((repl.run cases first).1.run cases second).2) := by
  induction first generalizing repl with
  | nil => rfl
  | cons line first induction =>
      simp only [List.cons_append, run, induction, List.append_assoc]

theorem run_ended {repl : Repl} (ended : repl.running = false) (lines : List String) :
    repl.run cases lines = (repl, []) := by
  induction lines with
  | nil => rfl
  | cons line lines induction =>
      have ignored : repl.readLine cases line = (repl, none) := by
        simp only [readLine, if_pos ended]
      rw [run, ignored]
      exact induction

theorem lineContent_of_text {text : List Char} (oneLine : '\n' ∉ text)
    (noReturn : text.getLast? ≠ some '\r') :
    lineContent (String.ofList (text ++ ['\n'])) = text := by
  have noNewline : text.rdropWhile (· == '\n') = text := by
    rw [List.rdropWhile_eq_self_iff]
    intro some newline
    rw [beq_iff_eq] at newline
    exact oneLine (newline ▸ List.getLast_mem some)
  have stays : text.rdropWhile (· == '\r') = text := by
    rw [List.rdropWhile_eq_self_iff]
    intro some isReturn
    rw [beq_iff_eq] at isReturn
    exact noReturn (isReturn ▸ List.getLast?_eq_some_getLast some)
  rw [lineContent, String.toList_ofList, List.rdropWhile_concat_pos _ _ _ rfl, noNewline, stays]

theorem running_addHistory (repl : Repl) (entry : String) :
    (repl.addHistory entry).running = repl.running := by
  unfold addHistory
  split
  · rfl
  · split
    · rfl
    · rfl

theorem format_addHistory (repl : Repl) (entry : String) :
    (repl.addHistory entry).format = repl.format := by
  unfold addHistory
  split
  · rfl
  · split
    · rfl
    · rfl

theorem firstInk_append {text : List Char} (ink : firstInk text ≠ none) (behind : List Char) :
    firstInk (text ++ behind) = firstInk text := by
  rw [firstInk, List.find?_append, ← firstInk]
  cases first : firstInk text with
  | none => exact absurd first ink
  | some char => rfl

theorem run_concat {repl buffered next : Repl} {lines : List String} {line : String}
    {sent : Option String} (ran : repl.run cases lines = (buffered, []))
    (read : buffered.readLine cases line = (next, sent)) :
    repl.run cases (lines ++ [line]) = (next, sent.toList) := by
  rw [run_append, ran]
  dsimp only [run]
  rw [read, List.append_nil, List.nil_append]

variable (cases)

/-- A line that is not blank and no command goes into the buffer. -/
theorem readLine_text {repl : Repl} (running : repl.running = true) {line : String}
    {content : List Char} (read : lineContent line = content) (ink : firstInk content ≠ none)
    (noCommand : firstInk content ≠ some '\\') (sqlBuf : List Char)
    (buffered : repl.sqlBuf ++ content = sqlBuf) :
    repl.readLine cases line =
      if content.getLast? = some '\\' then
        ({ repl with
            sqlBuf := repl.sqlBuf ++ content.dropLast ++ [' ']
            continuationLines := repl.continuationLines + 1 }, none)
      else if lastInk content = some ';' then
        ({ repl.addHistory (trim (String.ofList
              ((trim (String.ofList sqlBuf)).toList.rdropWhile (· == ';')))) with
            sqlBuf := []
            continuationLines := 0 }, some (trim (String.ofList sqlBuf)))
      else
        ({ repl with
            sqlBuf := sqlBuf ++ ['\n']
            continuationLines := repl.continuationLines + 1 }, none) := by
  have goes : ¬repl.running = false := by
    rw [running]
    decide
  have some : ¬content.dropWhile isWhitespace = [] := by
    intro none
    rw [← head?_dropWhile_whitespace, none] at ink
    exact ink rfl
  have plain : ¬(content.dropWhile isWhitespace).head? = Option.some '\\' := by
    rw [head?_dropWhile_whitespace]
    exact noCommand
  have last : lastInk content ≠ none := lastInk_ne_none ink
  have ends : (trim (String.ofList sqlBuf)).toList.getLast? = lastInk content := by
    rw [getLast?_trim, ← buffered, lastInk_append _ last]
  simp only [readLine, read, buffered, if_neg goes, if_neg some, if_neg plain, ends]

theorem readLine_command {repl : Repl} (running : repl.running = true) {line : String}
    {content : List Char} (read : lineContent line = content)
    (command : firstInk content = some '\\') :
    ∃ count, repl.readLine cases line =
      ({ repl with sqlBuf := [], continuationLines := count } : Repl).handleMeta
        (Entry.commandOf cases content) := by
  have goes : ¬repl.running = false := by
    rw [running]
    decide
  rw [← head?_dropWhile_whitespace] at command
  have some : ¬content.dropWhile isWhitespace = [] := by
    intro none
    rw [none] at command
    cases command
  simp only [readLine, read, if_neg goes, if_neg some, if_pos command]
  by_cases pending : repl.sqlBuf ≠ []
  · exact ⟨0, by rw [if_pos pending]; rfl⟩
  · have empty : repl.sqlBuf = [] := not_not.mp pending
    exact ⟨repl.continuationLines, by rw [if_neg pending, ← empty]; rfl⟩

/-- A line that goes on with a statement, or that is blank. -/
theorem readLine_typed {repl : Repl} (running : repl.running = true) {line : TypedLine}
    (wellFormed : line.WellFormed) :
    ∃ count, repl.readLine cases line.written =
      ({ repl with sqlBuf := repl.sqlBuf ++ line.meant, continuationLines := count }, none) := by
  cases line with
  | blank spaces =>
      have inSpaces : ∀ char ∈ lineContent (TypedLine.blank spaces).written,
          isWhitespace char = true := by
        intro char member
        rw [lineContent, TypedLine.written, String.toList_ofList] at member
        have read := (List.rdropWhile_prefix _ _).subset
          ((List.rdropWhile_prefix _ _).subset member)
        rcases List.mem_append.mp read with inside | last
        · exact wellFormed.2 char inside
        · rw [List.mem_singleton.mp last]
          decide
      have nothing : (lineContent (TypedLine.blank spaces).written).dropWhile isWhitespace =
          [] := by
        rw [List.dropWhile_eq_nil_iff]
        exact inSpaces
      have goes : ¬repl.running = false := by
        rw [running]
        decide
      refine ⟨repl.continuationLines, ?_⟩
      rw [readLine, if_neg goes, if_pos nothing, TypedLine.meant, List.append_nil]
  | continued text =>
      have content : lineContent (TypedLine.continued text).written = text ++ ['\\'] := by
        have same : TypedLine.written (.continued text) =
            String.ofList ((text ++ ['\\']) ++ ['\n']) := by
          rw [List.append_assoc]
          rfl
        rw [same]
        apply lineContent_of_text
        · intro newline
          rcases List.mem_append.mp newline with inside | last
          · exact wellFormed.oneLine inside
          · cases List.mem_singleton.mp last
        · rw [List.getLast?_concat]
          decide
      have start := firstInk_append wellFormed.ink ['\\']
      refine ⟨repl.continuationLines + 1, ?_⟩
      rw [readLine_text cases running content (start ▸ wellFormed.ink)
        (start ▸ wellFormed.noCommand) _ rfl, if_pos List.getLast?_concat,
        List.dropLast_concat, TypedLine.meant, List.append_assoc]
  | broken text =>
      rcases wellFormed with ⟨isText, noReturn, noBackslash, noSemicolon⟩
      have content : lineContent (TypedLine.broken text).written = text :=
        lineContent_of_text isText.oneLine noReturn
      refine ⟨repl.continuationLines + 1, ?_⟩
      rw [readLine_text cases running content isText.ink isText.noCommand _ rfl,
        if_neg noBackslash, if_neg noSemicolon, TypedLine.meant, List.append_assoc]

theorem run_typed {repl : Repl} (running : repl.running = true) {lines : List TypedLine}
    (wellFormed : ∀ line ∈ lines, line.WellFormed) :
    ∃ count, repl.run cases (lines.map TypedLine.written) =
      ({ repl with sqlBuf := repl.sqlBuf ++ lines.flatMap TypedLine.meant,
                   continuationLines := count }, []) := by
  induction lines generalizing repl with
  | nil => exact ⟨repl.continuationLines, by rw [List.flatMap_nil, List.append_nil]; rfl⟩
  | cons line lines induction =>
      have parts := List.forall_mem_cons.mp wellFormed
      rcases readLine_typed cases running parts.1 with ⟨first, read⟩
      have ran := @induction { repl with
        sqlBuf := repl.sqlBuf ++ line.meant, continuationLines := first } running parts.2
      rcases ran with ⟨count, rest⟩
      refine ⟨count, ?_⟩
      rw [List.map_cons, run, read]
      dsimp only
      rw [rest, List.flatMap_cons, List.append_assoc]
      rfl

theorem history_addHistory {repl : Repl} {entries : List String}
    (kept : repl.history = newest historyLimit entries) (entry : String) :
    (repl.addHistory entry).history =
      newest historyLimit (entries ++ [entry].filter (· ≠ "")) := by
  unfold addHistory
  by_cases empty : entry = ""
  · rw [if_pos empty, empty, kept]
    exact congrArg (newest historyLimit) (List.append_nil entries).symm
  · have stays : [entry].filter (· ≠ "") = [entry] :=
      List.filter_eq_self.mpr fun other member =>
        decide_eq_true (List.mem_singleton.mp member ▸ empty)
    have room : 0 < historyLimit := by decide
    rw [if_neg empty, stays, newest_concat room, ← kept]
    split
    · rfl
    · rfl

theorem handleMeta_spec (repl : Repl) (command : MetaCommand) :
    ∃ next : Repl, repl.handleMeta command = (next, command.sql) ∧
      (next.running = true ↔ repl.running = true ∧ command ≠ .quit) ∧
      next.sqlBuf = repl.sqlBuf ∧ next.history = repl.history ∧
      next.format = command.chosen.getD repl.format := by
  cases command with
  | quit => exact ⟨{ repl with running := false }, rfl, by simp, rfl, rfl, rfl⟩
  | format format => exact ⟨{ repl with format := format }, rfl, by simp, rfl, rfl, rfl⟩
  | _ => exact ⟨repl, rfl, by simp, rfl, rfl, rfl⟩

theorem run_entry {repl : Repl} (running : repl.running = true) (fresh : repl.sqlBuf = [])
    {entries : List String} (kept : repl.history = newest historyLimit entries) {entry : Entry}
    (wellFormed : entry.WellFormed) :
    ∃ next : Repl, repl.run cases entry.lines = (next, (entry.sql cases).toList) ∧
      (next.running = true ↔ entry.Stays cases) ∧ next.sqlBuf = [] ∧
      next.history = newest historyLimit (entries ++ entry.remembered) ∧
      next.format = (entry.chosen cases).getD repl.format := by
  cases entry with
  | statement lines last =>
      rcases wellFormed with ⟨typed, isText, noReturn, semicolon⟩
      rcases run_typed cases running typed with ⟨count, ran⟩
      generalize before : ({ repl with
        sqlBuf := repl.sqlBuf ++ lines.flatMap TypedLine.meant
        continuationLines := count } : Repl) = buffered at ran
      have content : lineContent (String.ofList (last ++ ['\n'])) = last :=
        lineContent_of_text isText.oneLine noReturn
      have noBackslash : ¬last.getLast? = some '\\' := by
        intro backslash
        rw [lastInk_of_getLast? backslash (by decide)] at semicolon
        cases semicolon
      have running : buffered.running = true := before ▸ running
      have sql : buffered.sqlBuf ++ last = lines.flatMap TypedLine.meant ++ last := by
        rw [← before, fresh, List.nil_append]
      have read : buffered.readLine cases (String.ofList (last ++ ['\n'])) = _ :=
        readLine_text cases running content isText.ink isText.noCommand _ sql
      rw [if_neg noBackslash, if_pos semicolon] at read
      refine ⟨_, run_concat ran read, ?_, rfl, ?_, ?_⟩
      · dsimp only
        rw [running_addHistory, running]
        exact ⟨fun _ => trivial, fun _ => rfl⟩
      · have held : buffered.history = newest historyLimit entries := by
          rw [← before]
          exact kept
        rw [Entry.remembered]
        dsimp only
        rw [history_addHistory held]
      · dsimp only
        rw [format_addHistory, ← before]
        rfl
  | command lines line =>
      rcases wellFormed with ⟨typed, isCommand, oneLine, noReturn⟩
      rcases run_typed cases running typed with ⟨count, ran⟩
      generalize before : ({ repl with
        sqlBuf := repl.sqlBuf ++ lines.flatMap TypedLine.meant
        continuationLines := count } : Repl) = buffered at ran
      have content : lineContent (String.ofList (line ++ ['\n'])) = line :=
        lineContent_of_text oneLine noReturn
      have goes : buffered.running = true := before ▸ running
      rcases readLine_command cases goes content isCommand with ⟨left, read⟩
      rcases handleMeta_spec { buffered with sqlBuf := [], continuationLines := left }
        (Entry.commandOf cases line) with ⟨next, handled, goesOn, empty, history, format⟩
      rw [handled] at read
      rw [Entry.lines, Entry.remembered, List.append_nil, ← kept, Entry.sql, Entry.Stays,
        Entry.chosen]
      refine ⟨next, run_concat ran read, ?_, empty, ?_, ?_⟩
      · rw [goesOn]
        exact and_iff_right goes
      · rw [history, ← before]
      · rw [format, ← before]

theorem run_entries {repl : Repl} (running : repl.running = true) (fresh : repl.sqlBuf = [])
    {entered : List String} (kept : repl.history = newest historyLimit entered)
    {entries : List Entry} (wellFormed : ∀ entry ∈ entries, entry.WellFormed)
    (stays : ∀ entry ∈ entries, entry.Stays cases) :
    ∃ next : Repl, repl.run cases (entries.flatMap Entry.lines) =
        (next, entries.filterMap (Entry.sql cases)) ∧
      next.running = true ∧ next.sqlBuf = [] ∧
      next.history = newest historyLimit (entered ++ entries.flatMap Entry.remembered) ∧
      next.format = (entries.filterMap (Entry.chosen cases)).getLast?.getD repl.format := by
  induction entries generalizing repl entered with
  | nil =>
      refine ⟨repl, rfl, running, fresh, ?_, rfl⟩
      rw [List.flatMap_nil, List.append_nil, kept]
  | cons entry entries induction =>
      have here := List.forall_mem_cons.mp wellFormed
      have goes := List.forall_mem_cons.mp stays
      rcases run_entry cases running fresh kept here.1 with
        ⟨middle, first, goesOn, empty, history, chosen⟩
      rcases induction (goesOn.mpr goes.1) empty history here.2 goes.2 with
        ⟨next, rest, alive, done, remembered, format⟩
      refine ⟨next, ?_, alive, done, ?_, ?_⟩
      · rw [List.flatMap_cons, run_append, first, rest]
        cases sent : entry.sql cases with
        | none => rw [List.filterMap_cons_none sent]; rfl
        | some sql => rw [List.filterMap_cons_some sent]; rfl
      · rw [remembered, List.flatMap_cons, List.append_assoc]
      · rw [format, chosen]
        cases asked : entry.chosen cases with
        | none => rw [List.filterMap_cons_none asked]; rfl
        | some format =>
            rw [List.filterMap_cons_some asked, List.getLast?_cons]
            rfl

/-- A session up to the command that ends it: every statement and every command
is sent once, in order, and the newest statements are remembered. -/
theorem session_sends (format : OutputFormat) {entries : List Entry}
    (wellFormed : ∀ entry ∈ entries, entry.WellFormed)
    (stays : ∀ entry ∈ entries, entry.Stays cases) {ending : Entry}
    (ends : ending.WellFormed) (quits : ¬ending.Stays cases) (unread : List String) :
    ∃ final : Repl,
      (new format).run cases (entries.flatMap Entry.lines ++ (ending.lines ++ unread)) =
        (final, entries.filterMap (Entry.sql cases)) ∧
      final.running = false ∧
      final.history = newest historyLimit (entries.flatMap Entry.remembered) ∧
      final.format = (entries.filterMap (Entry.chosen cases)).getLast?.getD format := by
  have fresh : newest historyLimit [] = (new format).history := rfl
  rcases run_entries cases rfl rfl fresh.symm wellFormed stays with
    ⟨idle, ran, running, empty, history, chosen⟩
  rcases run_entry cases running empty history ends with
    ⟨final, ended, goesOn, _, kept, asked⟩
  have stopped : final.running = false := by
    rw [← Bool.not_eq_true, goesOn]
    exact quits
  cases ending with
  | statement lines last => exact absurd trivial quits
  | command lines line =>
      have quit : Entry.commandOf cases line = .quit := not_not.mp quits
      rw [Entry.sql, quit] at ended
      rw [Entry.remembered, List.append_nil] at kept
      rw [Entry.chosen, quit] at asked
      refine ⟨final, ?_, stopped, kept, asked.trans chosen⟩
      rw [run_append, ran, run_append, ended, run_ended stopped]
      exact congrArg (Prod.mk final) (List.append_nil _)

theorem session_sends_query : ∃ final : Repl,
    (new .table).run asciiCases
      ["SELECT name\\\n", " \n", "FROM users ; \n", "\\f json\n", "\\q\n", "SELECT 2;\n"] =
        (final, ["SELECT name FROM users ;"]) ∧
    final.running = false ∧ final.history = ["SELECT name FROM users"] ∧
      final.format = .json := by
  have formats : Entry.commandOf asciiCases "\\f json".toList = .format .json := by
    decide +kernel
  have quits : Entry.commandOf asciiCases "\\q".toList = .quit := by
    decide +kernel
  have continued : TypedLine.WellFormed (.continued "SELECT name".toList) :=
    ⟨by decide, by decide, by decide⟩
  have blank : TypedLine.WellFormed (.blank [' ']) :=
    ⟨by decide, List.forall_mem_singleton.mpr rfl⟩
  have query : Entry.WellFormed (.statement
      [.continued "SELECT name".toList, .blank [' ']] "FROM users ; ".toList) := by
    refine ⟨?_, ⟨by decide, by decide, by decide⟩, by decide, by decide⟩
    intro line member
    rcases List.mem_pair.mp member with rfl | rfl
    · exact continued
    · exact blank
  have ask : Entry.WellFormed (.command [] "\\f json".toList) :=
    ⟨fun line none => absurd none List.not_mem_nil, by decide, by decide, by decide⟩
  have leave : Entry.WellFormed (.command [] "\\q".toList) :=
    ⟨fun line none => absurd none List.not_mem_nil, by decide, by decide, by decide⟩
  rcases session_sends asciiCases .table (List.forall_mem_cons.mpr ⟨query,
    List.forall_mem_singleton.mpr ask⟩) (List.forall_mem_cons.mpr ⟨trivial,
      List.forall_mem_singleton.mpr (by rw [Entry.Stays, formats]; decide)⟩) leave
    (fun stays => stays quits) ["SELECT 2;\n"] with ⟨final, ran, stopped, history, format⟩
  refine ⟨final, ?_, stopped, history.trans ?_, format.trans ?_⟩
  · have sent : [Entry.statement [.continued "SELECT name".toList, .blank [' ']]
        "FROM users ; ".toList, .command [] "\\f json".toList].filterMap
          (Entry.sql asciiCases) = ["SELECT name FROM users ;"] := by
      decide +kernel
    rw [sent] at ran
    exact ran
  · decide +kernel
  · decide +kernel

end Repl

end FunDB.Cli
