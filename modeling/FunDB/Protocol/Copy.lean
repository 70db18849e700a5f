import Mathlib.Tactic.Common

/-! # Rows of COPY in text format

A row is one line: its fields are separated by tabs, and a field `\N` is NULL. -/

namespace FunDB.Protocol.Copy

/-- Unescapes one field. A backslash before a character that names nothing, or at
the end of the field, stands for itself. -/
def unescapeChars : List Char → List Char
  | [] => []
  | '\\' :: '\\' :: rest => '\\' :: unescapeChars rest
  | '\\' :: 'n' :: rest => '\n' :: unescapeChars rest
  | '\\' :: 't' :: rest => '\t' :: unescapeChars rest
  | '\\' :: 'r' :: rest => '\r' :: unescapeChars rest
  | '\\' :: other :: rest => '\\' :: other :: unescapeChars rest
  | char :: rest => char :: unescapeChars rest

def unescapeCopyText (field : String) : String :=
  String.ofList (unescapeChars field.toList)

def parseCopyTextRow (line : String) : List (Option String) :=
  (line.toList.splitOn '\t').map fun field =>
    if String.ofList field = "\\N" then none
    else some (unescapeCopyText (String.ofList field))

/-! ## Writing rows -/

def escapeChar (char : Char) : List Char :=
  if char = '\\' then ['\\', '\\']
  else if char = '\n' then ['\\', 'n']
  else if char = '\r' then ['\\', 'r']
  else if char = '\t' then ['\\', 't']
  else [char]

def escapeCopyText (value : String) : List Char :=
  value.toList.flatMap escapeChar

def encodeField : Option String → List Char
  | none => ['\\', 'N']
  | some value => escapeCopyText value

/-- The line that stands for a row. -/
def encodeCopyTextRow (row : List (Option String)) : String :=
  String.ofList (['\t'].intercalate (row.map encodeField))

/-! ## A field is read as it was written -/

theorem unescapeChars_cons {char : Char} (plain : char ≠ '\\') (rest : List Char) :
    unescapeChars (char :: rest) = char :: unescapeChars rest := by
  cases rest with
  | nil =>
      rw [unescapeChars.eq_7 char [] (by simp) (by simp) (by simp) (by simp) (by simp)]
  | cons next rest =>
      apply unescapeChars.eq_7 <;> simp [plain]

theorem unescapeChars_escapeChar (char : Char) (rest : List Char) :
    unescapeChars (escapeChar char ++ rest) = char :: unescapeChars rest := by
  by_cases backslash : char = '\\'
  · subst backslash
    rfl
  by_cases newline : char = '\n'
  · subst newline
    rfl
  by_cases carriageReturn : char = '\r'
  · subst carriageReturn
    rfl
  by_cases tab : char = '\t'
  · subst tab
    rfl
  simpa [escapeChar, backslash, newline, carriageReturn, tab] using
    unescapeChars_cons backslash rest

theorem unescapeChars_flatMap_escapeChar (chars : List Char) :
    unescapeChars (chars.flatMap escapeChar) = chars := by
  induction chars with
  | nil => rfl
  | cons char chars induction =>
      rw [List.flatMap_cons, unescapeChars_escapeChar, induction]

@[simp] theorem unescapeCopyText_escapeCopyText (value : String) :
    unescapeCopyText (String.ofList (escapeCopyText value)) = value := by
  simp [unescapeCopyText, escapeCopyText, unescapeChars_flatMap_escapeChar]

theorem tab_not_mem_escapeChar (char : Char) : '\t' ∉ escapeChar char := by
  unfold escapeChar
  split_ifs with backslash newline carriageReturn tab
  · decide
  · decide
  · decide
  · decide
  · simpa using Ne.symm tab

theorem tab_not_mem_encodeField (value : Option String) : '\t' ∉ encodeField value := by
  cases value with
  | none => decide
  | some text =>
      intro member
      rcases List.mem_flatMap.mp member with ⟨char, _, inside⟩
      exact tab_not_mem_escapeChar char inside

/-- A backslash in front of an `N` is never written for a value: the one that ends
an escape is followed by another escape or by a character that is none. -/
theorem escapeCopyText_ne_null (value : String) : escapeCopyText value ≠ ['\\', 'N'] := by
  intro written
  have read := unescapeChars_flatMap_escapeChar value.toList
  change unescapeChars (escapeCopyText value) = value.toList at read
  rw [written] at read
  have spelled : value.toList = ['\\', 'N'] := read.symm
  rw [escapeCopyText, spelled] at written
  revert written
  decide

theorem parseField_encodeField (value : Option String) :
    (if String.ofList (encodeField value) = "\\N" then none
      else some (unescapeCopyText (String.ofList (encodeField value)))) = value := by
  cases value with
  | none => rfl
  | some text =>
      have different : String.ofList (escapeCopyText text) ≠ "\\N" := by
        intro same
        apply escapeCopyText_ne_null text
        simpa using congrArg String.toList same
      simp [encodeField, different]

theorem splitOn_encodeCopyTextRow {row : List (Option String)} (nonempty : row ≠ []) :
    (encodeCopyTextRow row).toList.splitOn '\t' = row.map encodeField := by
  rw [encodeCopyTextRow, String.toList_ofList]
  apply List.splitOn_intercalate
  · intro field member
    rcases List.mem_map.mp member with ⟨value, _, written⟩
    rw [← written]
    exact tab_not_mem_encodeField value
  · simpa using nonempty

/-- Reading the line of a row gives the row. -/
theorem parseCopyTextRow_encodeCopyTextRow {row : List (Option String)} (nonempty : row ≠ []) :
    parseCopyTextRow (encodeCopyTextRow row) = row := by
  rw [parseCopyTextRow, splitOn_encodeCopyTextRow nonempty, List.map_map]
  calc row.map _ = row.map id := by
        apply List.map_congr_left
        intro value _
        exact parseField_encodeField value
    _ = row := List.map_id row

theorem parseCopyTextRow_encodeCopyTextRow_lookalikes :
    parseCopyTextRow (encodeCopyTextRow [some "\\N", none, some "a\\", some "\\n\t\n"]) =
      [some "\\N", none, some "a\\", some "\\n\t\n"] :=
  parseCopyTextRow_encodeCopyTextRow (by decide)

/-- No value at all and one empty value have the same line. -/
example : encodeCopyTextRow [] = encodeCopyTextRow [some ""] := rfl

end FunDB.Protocol.Copy
