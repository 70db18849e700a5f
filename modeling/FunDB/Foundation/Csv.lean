import Mathlib.Data.List.Basic

/-! # Comma-separated values

The grammar of RFC 4180 with a line feed as the line break, over all characters.
As in the RFC, the last record may or may not have an ending line break; after
one there is no further record unless it has text. A text has at most one reading,
which a machine finds that takes one character after another. -/

namespace FunDB.Csv

/-- What may stand outside quotes: no comma, quote, carriage return or line feed. -/
def TextData (char : Char) : Prop :=
  char ≠ ',' ∧ char ≠ '"' ∧ char ≠ '\r' ∧ char ≠ '\n'

instance (char : Char) : Decidable (TextData char) :=
  inferInstanceAs (Decidable (_ ∧ _))

/-- The text between two quotes and what it stands for. -/
inductive Quoted : List Char → List Char → Prop
  | nil : Quoted [] []
  | char {char : Char} {text value : List Char} (other : char ≠ '"')
      (rest : Quoted text value) : Quoted (char :: text) (char :: value)
  | pair {text value : List Char} (rest : Quoted text value) :
      Quoted ('"' :: '"' :: text) ('"' :: value)

inductive Field : List Char → List Char → Prop
  | escaped {text value : List Char} (quoted : Quoted text value) :
      Field ('"' :: text ++ ['"']) value
  | nonEscaped {text : List Char} (plain : ∀ char ∈ text, TextData char) :
      Field text text

inductive Record : List Char → List (List Char) → Prop
  | field {text value : List Char} (field : Field text value) : Record text [value]
  | comma {text value rest : List Char} {values : List (List Char)}
      (field : Field text value) (fields : Record rest values) :
      Record (text ++ ',' :: rest) (value :: values)

inductive File : List Char → List (List (List Char)) → Prop
  | nil : File [] []
  | last {text : List Char} {values : List (List Char)} (record : Record text values)
      (some : text ≠ []) : File text [values]
  | line {text rest : List Char} {values : List (List Char)}
      {records : List (List (List Char))} (record : Record text values)
      (file : File rest records) : File (text ++ '\n' :: rest) (values :: records)

/-! ## The machine -/

inductive Mode where
  | start
  | plain
  | quoted
  | closing
deriving DecidableEq, Repr

/-- The records and fields that are complete, and the field that is being read. -/
structure State where
  mode : Mode
  field : List Char
  fields : List (List Char)
  records : List (List (List Char))
deriving DecidableEq, Repr

namespace State

def ready (fields : List (List Char)) (records : List (List (List Char))) : State where
  mode := .start
  field := []
  fields := fields
  records := records

def push (state : State) (mode : Mode) (char : Char) : State :=
  { state with mode := mode, field := state.field ++ [char] }

def endField (state : State) : State :=
  ready (state.fields ++ [state.field]) state.records

def endRecord (state : State) : State :=
  ready [] (state.records ++ [state.fields ++ [state.field]])

def delimiter (state : State) (char : Char) : Option State :=
  if char = ',' then some state.endField
  else if char = '\n' then some state.endRecord
  else none

def step (state : State) (char : Char) : Option State :=
  match state.mode with
  | .quoted =>
      if char = '"' then some { state with mode := .closing }
      else some (state.push .quoted char)
  | .closing =>
      if char = '"' then some (state.push .quoted char) else state.delimiter char
  | .plain =>
      if TextData char then some (state.push .plain char) else state.delimiter char
  | .start =>
      if char = '"' then some { state with mode := .quoted }
      else if TextData char then some (state.push .plain char)
      else state.delimiter char

def run (state : State) (text : List Char) : Option State :=
  text.foldlM step state

/-- The records at the end of the text, an open record being the last one. -/
def finish (state : State) : Option (List (List (List Char))) :=
  match state.mode with
  | .quoted => none
  | .start =>
      if state.fields = [] then some state.records
      else some state.endRecord.records
  | .plain | .closing => some state.endRecord.records

end State

def read (text : List Char) : Option (List (List (List Char))) :=
  ((State.ready [] []).run text).bind State.finish

/-! ## The machine finds every reading -/

namespace State

variable {state : State}

theorem run_cons (state : State) (char : Char) (text : List Char) :
    state.run (char :: text) = (state.step char).bind fun next => next.run text :=
  rfl

theorem run_append (state : State) (text more : List Char) :
    state.run (text ++ more) = (state.run text).bind fun next => next.run more :=
  List.foldlM_append

theorem step_comma (outside : state.mode ≠ .quoted) :
    state.step ',' = some state.endField := by
  unfold step
  cases mode : state.mode with
  | quoted => exact absurd mode outside
  | start => rfl
  | plain => rfl
  | closing => rfl

theorem step_newline (outside : state.mode ≠ .quoted) :
    state.step '\n' = some state.endRecord := by
  unfold step
  cases mode : state.mode with
  | quoted => exact absurd mode outside
  | start => rfl
  | plain => rfl
  | closing => rfl

/-- Between the quotes the value grows, and the second quote closes it. -/
theorem run_quoted {text value : List Char} (quoted : Quoted text value)
    (field : List Char) (fields : List (List Char))
    (records : List (List (List Char))) :
    run ⟨.quoted, field, fields, records⟩ (text ++ ['"']) =
      some ⟨.closing, field ++ value, fields, records⟩ := by
  induction quoted generalizing field with
  | nil => rw [List.append_nil]; rfl
  | @char char text value other rest induction =>
      have stepped : step ⟨.quoted, field, fields, records⟩ char =
          some ⟨.quoted, field ++ [char], fields, records⟩ := by
        rw [step, if_neg other]
        rfl
      rw [List.cons_append, run_cons, stepped, Option.bind_some, induction,
        List.append_assoc, List.singleton_append]
  | @pair text value rest induction =>
      have stepped : run ⟨.quoted, field, fields, records⟩ ['"', '"'] =
          some ⟨.quoted, field ++ ['"'], fields, records⟩ := rfl
      have split : '"' :: '"' :: text ++ ['"'] = ['"', '"'] ++ (text ++ ['"']) := rfl
      rw [split, run_append, stepped, Option.bind_some, induction, List.append_assoc,
        List.singleton_append]

theorem run_plain {text : List Char} (plain : ∀ char ∈ text, TextData char)
    (field : List Char) (fields : List (List Char))
    (records : List (List (List Char))) :
    run ⟨.plain, field, fields, records⟩ text =
      some ⟨.plain, field ++ text, fields, records⟩ := by
  induction text generalizing field with
  | nil => rw [List.append_nil]; rfl
  | cons char text induction =>
      rcases List.forall_mem_cons.mp plain with ⟨here, plain⟩
      have stepped : step ⟨.plain, field, fields, records⟩ char =
          some ⟨.plain, field ++ [char], fields, records⟩ := by
        rw [step, if_pos here]
        rfl
      rw [run_cons, stepped, Option.bind_some, induction plain, List.append_assoc,
        List.singleton_append]

/-- After a field the machine stands outside quotes and holds its value. Only an
empty text leaves it where it was. -/
theorem run_field {text value : List Char} (field : Field text value)
    (fields : List (List Char)) (records : List (List (List Char))) :
    ∃ mode, (ready fields records).run text = some ⟨mode, value, fields, records⟩ ∧
      mode ≠ .quoted ∧ (mode = .start → text = []) := by
  cases field with
  | @escaped text _ quoted =>
      refine ⟨.closing, ?_, by decide, fun impossible => by cases impossible⟩
      rw [List.cons_append, run_cons]
      exact run_quoted quoted [] fields records
  | nonEscaped plain =>
      cases text with
      | nil => exact ⟨.start, rfl, by decide, fun _ => rfl⟩
      | cons char text =>
          rcases List.forall_mem_cons.mp plain with ⟨here, plain⟩
          refine ⟨.plain, ?_, by decide, fun impossible => by cases impossible⟩
          have stepped : (ready fields records).step char =
              some ⟨.plain, [char], fields, records⟩ := by
            simp [step, ready, push, here, here.2.1]
          rw [run_cons, stepped, Option.bind_some, run_plain plain, List.singleton_append]

/-- After a record the machine holds its fields, the last one still open. -/
theorem run_record {text : List Char} {values : List (List Char)}
    (record : Record text values) (fields : List (List Char))
    (records : List (List (List Char))) :
    ∃ state, (ready fields records).run text = some state ∧ state.mode ≠ .quoted ∧
      state.fields ++ [state.field] = fields ++ values ∧ state.records = records ∧
      (state.mode = .start → state.fields = [] → text = []) := by
  induction record generalizing fields with
  | field field =>
      rcases run_field field fields records with ⟨mode, ran, outside, empty⟩
      exact ⟨_, ran, outside, rfl, rfl, fun start _ => empty start⟩
  | @comma text value rest values field record induction =>
      rcases run_field field fields records with ⟨mode, ran, outside, -⟩
      rcases induction (fields ++ [value]) with
        ⟨state, ranRest, outsideRest, held, sameRecords, -⟩
      refine ⟨state, ?_, outsideRest, ?_, sameRecords, ?_⟩
      · rw [run_append, ran, Option.bind_some, run_cons, step_comma outside,
          Option.bind_some]
        exact ranRest
      · rw [held, List.append_assoc, List.singleton_append]
      · intro _ none
        rw [none, List.nil_append] at held
        have lengths := congrArg List.length held
        have some : 0 < values.length := by
          cases record <;> exact Nat.succ_pos _
        simp only [List.length_append, List.length_singleton] at lengths
        omega

theorem finish_of_record (outside : state.mode ≠ .quoted)
    (some : state.mode = .start → state.fields ≠ []) :
    state.finish = Option.some state.endRecord.records := by
  unfold finish
  cases mode : state.mode with
  | quoted => exact absurd mode outside
  | start => exact if_neg (some mode)
  | plain => rfl
  | closing => rfl

theorem run_file {text : List Char} {found : List (List (List Char))}
    (file : File text found) (records : List (List (List Char))) :
    ((ready [] records).run text).bind finish = some (records ++ found) := by
  induction file generalizing records with
  | nil =>
      rw [List.append_nil]
      rfl
  | last record some =>
      rcases run_record record [] records with
        ⟨state, ran, outside, held, sameRecords, empty⟩
      have opened : state.mode = .start → state.fields ≠ [] :=
        fun start none => some (empty start none)
      rw [ran, Option.bind_some, finish_of_record outside opened, endRecord, held,
        sameRecords]
      rfl
  | line record file induction =>
      rcases run_record record [] records with
        ⟨state, ran, outside, held, sameRecords, -⟩
      rw [run_append, ran, Option.bind_some, run_cons, step_newline outside,
        Option.bind_some, endRecord, held, sameRecords, induction, List.append_assoc]
      rfl

end State

theorem File.read {text : List Char} {records : List (List (List Char))}
    (file : File text records) : read text = some records :=
  State.run_file file []

theorem File.unique {text : List Char} {records others : List (List (List Char))}
    (file : File text records) (other : File text others) : records = others := by
  have same := file.read.symm.trans other.read
  exact Option.some.inj same

theorem File.flatMap {Value : Type} (lines : List Value) (text : Value → List Char)
    (values : Value → List (List Char))
    (record : ∀ line ∈ lines, Record (text line) (values line)) :
    File (lines.flatMap fun line => text line ++ ['\n']) (lines.map values) := by
  induction lines with
  | nil => exact .nil
  | cons line lines induction =>
      rcases List.forall_mem_cons.mp record with ⟨here, record⟩
      rw [List.flatMap_cons, List.append_assoc, List.singleton_append]
      exact .line here (induction record)

theorem Record.intercalate {Value : Type} {cells : List Value} (some : cells ≠ [])
    (text value : Value → List Char) (field : ∀ cell ∈ cells, Field (text cell) (value cell)) :
    Record ([','].intercalate (cells.map text)) (cells.map value) := by
  induction cells with
  | nil => exact absurd rfl some
  | cons cell cells induction =>
      rcases List.forall_mem_cons.mp field with ⟨here, field⟩
      cases cells with
      | nil =>
          rw [List.map_singleton, List.intercalate_singleton]
          exact .field here
      | cons next cells =>
          have rest := induction (List.cons_ne_nil next cells) field
          exact .comma here rest

end FunDB.Csv
