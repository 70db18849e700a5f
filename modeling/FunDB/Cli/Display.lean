import FunDB.Cli.Connection
import FunDB.Foundation.Csv

/-! # How the command line shows a response

The JSON and the CSV form of a response. A cell that a row does not have is
shown as `null` or as nothing. -/

namespace FunDB.Cli

/-- `format!("{:04x}")` -/
def hexFour (code : Nat) : String :=
  String.ofList ((Nat.toDigits 16 code).leftpad 4 '0')

def escapeJsonChar (char : Char) : List Char :=
  if char = '"' then ['\\', '"']
  else if char = '\\' then ['\\', '\\']
  else if char = '\n' then ['\\', 'n']
  else if char = '\r' then ['\\', 'r']
  else if char = '\t' then ['\\', 't']
  else if char.toNat < 0x20 then ['\\', 'u'] ++ (hexFour char.toNat).toList
  else [char]

def escapeJson (text : String) : String :=
  String.ofList (text.toList.flatMap escapeJsonChar)

/-- `str::replace` of a double quote by two. -/
def doubleQuotes (text : String) : String :=
  String.ofList (text.toList.flatMap fun char => if char = '"' then ['"', '"'] else [char])

def csvEscape (text : String) : String :=
  if ',' ∈ text.toList ∨ '"' ∈ text.toList ∨ '\n' ∈ text.toList ∨ '\r' ∈ text.toList then
    "\"" ++ doubleQuotes text ++ "\""
  else
    text

def jsonCell (cell : String) : String :=
  if cell = "NULL" then "null" else "\"" ++ escapeJson cell ++ "\""

def renderJson (response : QueryResponse) : String :=
  let columns := response.columns
  let colJson := columns.map fun column => "\"" ++ escapeJson column ++ "\""
  let rowsJson := response.rows.map fun row =>
    let cells := (List.range columns.length).map fun i => jsonCell (row[i]?.getD "null")
    "[" ++ ", ".intercalate cells ++ "]"
  "\x7b\"columns\": [" ++ ", ".intercalate colJson ++ "], \"rows\": [" ++
    ", ".intercalate rowsJson ++ "]\x7d" ++ "\n"

def renderCsv (response : QueryResponse) : String :=
  let columns := response.columns
  let header := ",".intercalate (columns.map csvEscape)
  let line (row : List String) :=
    ",".intercalate ((List.range columns.length).map fun i => csvEscape (row[i]?.getD ""))
  response.rows.foldl (fun out row => out ++ line row ++ "\n") (header ++ "\n")

/-- The cells of a row that is as wide as the columns. -/
theorem map_range_cells {row : List String} {width : Nat} (wide : row.length = width)
    (fallback : String) :
    ((List.range width).map fun i => row[i]?.getD fallback) = row := by
  apply List.ext_getElem
  · simp [wide]
  · intro position _ within
    simp [List.getElem?_eq_getElem within]

/-! ## The CSV form -/

section Csv

open Csv

/-- A doubled quote is read as one, whatever stands around it. -/
theorem quoted_doubleQuotes (text : String) :
    Quoted (doubleQuotes text).toList text.toList := by
  rw [doubleQuotes, String.toList_ofList]
  induction text.toList with
  | nil => exact .nil
  | cons char rest induction =>
      rw [List.flatMap_cons]
      by_cases quote : char = '"'
      · rw [if_pos quote, quote]
        exact .pair induction
      · rw [if_neg quote]
        exact .char quote induction

theorem field_csvEscape (text : String) :
    Field (csvEscape text).toList text.toList := by
  unfold csvEscape
  split
  next =>
    rw [String.toList_append, String.toList_append]
    exact .escaped (quoted_doubleQuotes text)
  next plain =>
    simp only [not_or] at plain
    rcases plain with ⟨comma, quote, newline, carriage⟩
    apply Field.nonEscaped
    intro char member
    refine ⟨?_, ?_, ?_, ?_⟩
    · exact fun same => comma (same ▸ member)
    · exact fun same => quote (same ▸ member)
    · exact fun same => carriage (same ▸ member)
    · exact fun same => newline (same ▸ member)

theorem record_csvEscape {cells : List String} (some : cells ≠ []) :
    Record (",".intercalate (cells.map csvEscape)).toList (cells.map String.toList) := by
  rw [String.toList_intercalate, List.map_map]
  exact Record.intercalate some _ _ fun cell _ => field_csvEscape cell

theorem toList_foldl_append (lines : List (List String)) (line : List String → String)
    (out : String) :
    (lines.foldl (fun out row => out ++ line row ++ "\n") out).toList =
      out.toList ++ lines.flatMap fun row => (line row).toList ++ ['\n'] := by
  induction lines generalizing out with
  | nil => rw [List.foldl_nil, List.flatMap_nil, List.append_nil]
  | cons row lines induction =>
      rw [List.foldl_cons, induction, String.toList_append, String.toList_append,
        List.flatMap_cons, List.append_assoc, List.append_assoc, List.append_assoc]
      rfl

theorem toList_renderCsv {response : QueryResponse}
    (wide : ∀ row ∈ response.rows, row.length = response.columns.length) :
    (renderCsv response).toList =
      (response.columns :: response.rows).flatMap fun row =>
        (",".intercalate (row.map csvEscape)).toList ++ ['\n'] := by
  rw [renderCsv, toList_foldl_append, List.flatMap_cons, String.toList_append]
  congr 1
  apply List.flatMap_congr
  intro row member
  have cells := map_range_cells (wide row member) ""
  have escaped := congrArg (List.map csvEscape) cells
  rw [List.map_map] at escaped
  rw [← escaped]
  rfl

/-- The CSV form of a response whose rows are as wide as its columns has exactly one
reading: the columns, and then the rows. -/
theorem renderCsv_reading_iff {response : QueryResponse} (some : response.columns ≠ [])
    (wide : ∀ row ∈ response.rows, row.length = response.columns.length)
    (records : List (List (List Char))) :
    File (renderCsv response).toList records ↔
      records = (response.columns :: response.rows).map (·.map String.toList) := by
  have file : File (renderCsv response).toList
      ((response.columns :: response.rows).map (·.map String.toList)) := by
    rw [toList_renderCsv wide]
    apply File.flatMap
    intro row member
    apply record_csvEscape
    rcases List.mem_cons.mp member with rfl | inRows
    · exact some
    · apply List.ne_nil_of_length_pos
      rw [wide row inRows]
      exact List.length_pos_of_ne_nil some
  constructor
  · intro other
    exact other.unique file
  · intro same
    exact same ▸ file

theorem renderCsv_reading_iff_specials :
    let response : QueryResponse :=
      { columns := ["a,b", ""], rows := [["say \"x\"", "\r\n"], ["", ","]] }
    (renderCsv response = "\"a,b\",\n\"say \"\"x\"\"\",\"\r\n\"\n,\",\"\n") ∧
      ∀ records, File (renderCsv response).toList records ↔
        records = (response.columns :: response.rows).map (·.map String.toList) :=
  ⟨by decide +kernel, renderCsv_reading_iff (by decide) (by decide)⟩

end Csv

end FunDB.Cli
