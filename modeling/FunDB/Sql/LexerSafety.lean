import FunDB.Sql.Scanner

/-! # Safety of the lexer

The lexer computes what scanning the characters computes, except that it panics
where a token starts with two bytes that end inside a character. -/

namespace FunDB.Sql

open ByteSlices

/-! ## Two bytes -/

theorem two_le_byteLength (first second : Char) (rest : List Char) :
    2 ≤ byteLength (first :: second :: rest) := by
  have firstPositive := Char.utf8Size_pos first
  have secondPositive := Char.utf8Size_pos second
  simp only [byteLength_cons]
  omega

namespace PairAligned

theorem pair {rest : List Char} (aligned : PairAligned rest)
    (long : 2 ≤ byteLength rest) : ∃ pair, takeBytes rest 2 = some pair := by
  match rest, aligned with
  | [], _ => exact absurd long (by simp)
  | [char], small =>
      have exactly : byteLength [char] = 2 := le_antisymm (by simpa [PairAligned] using small) long
      exact ⟨[char], takeBytes_eq_some_iff.mpr ⟨[], rfl, exactly⟩⟩
  | first :: second :: rest, .inl double =>
      exact ⟨[first], takeBytes_eq_some_iff.mpr ⟨second :: rest, rfl, by simpa using double⟩⟩
  | first :: second :: rest, .inr single =>
      exact ⟨[first, second], takeBytes_eq_some_iff.mpr
        ⟨rest, rfl, by simp [single.1, single.2]⟩⟩

theorem of_short {rest : List Char} (short : byteLength rest < 2) :
    PairAligned rest := by
  match rest with
  | [] => trivial
  | [char] => exact le_of_lt (by simpa using short)
  | first :: second :: rest =>
      exact absurd (two_le_byteLength first second rest) (Nat.not_le.mpr short)

theorem of_takeBytes {rest pair : List Char} (taken : takeBytes rest 2 = some pair) :
    PairAligned rest := by
  rcases takeBytes_eq_some_iff.mp taken with ⟨left, split, length⟩
  subst split
  match pair with
  | [] => cases length
  | [char] =>
      have double : char.utf8Size = 2 := by simpa using length
      cases left with
      | nil => exact double.le
      | cons next left => exact .inl double
  | first :: second :: rest =>
      have firstPositive := Char.utf8Size_pos first
      have secondPositive := Char.utf8Size_pos second
      simp only [byteLength_cons] at length
      exact .inr ⟨by omega, by omega⟩

end PairAligned

theorem takeBytes_dashes (tail : List Char) :
    takeBytes ('-' :: '-' :: tail) 2 = some ['-', '-'] := takeBytes_append ['-', '-'] tail

theorem takeBytes_slashStar (tail : List Char) :
    takeBytes ('/' :: '*' :: tail) 2 = some ['/', '*'] := takeBytes_append ['/', '*'] tail

namespace Lexer

/-! ## Places of a run -/

/-- The lexer has read `seen` of its input, and `rest` is left. -/
structure Reads (input : List Char) (lexer : Lexer) (seen rest : List Char) : Prop where
  input_eq : lexer.input = input
  cut : CutAt input lexer.pos seen rest

namespace Reads

variable {input seen rest : List Char} {lexer : Lexer} {char : Char}

theorem new (text : String) : Reads text.toList (Lexer.new text) [] text.toList :=
  ⟨rfl, .start _⟩

theorem len (reads : Reads input lexer seen rest) :
    lexer.len = lexer.pos + byteLength rest := by
  rw [Lexer.len, reads.input_eq, reads.cut.byteLength_eq]

theorem enough (reads : Reads input lexer seen rest) : rest.length < lexer.fuel := by
  rw [Lexer.fuel, reads.input_eq, reads.cut.text_eq, List.length_append]
  omega

theorem currentChar (reads : Reads input lexer seen rest) :
    lexer.currentChar = .ok rest.head? := by
  rw [Lexer.currentChar, sliceFrom, reads.input_eq, reads.cut.dropBytes]
  rfl

theorem past (reads : Reads input lexer seen (char :: rest)) :
    Reads input (lexer.past char) (seen ++ [char]) rest :=
  ⟨reads.input_eq, reads.cut.cons⟩

theorem advance_nil (reads : Reads input lexer seen []) :
    lexer.advance = .ok (none, lexer) := by
  rw [Lexer.advance, reads.currentChar]
  rfl

theorem advance_cons (reads : Reads input lexer seen (char :: rest)) :
    lexer.advance = .ok (some char, lexer.past char) := by
  rw [Lexer.advance, reads.currentChar]
  rfl

theorem peekChar_one (reads : Reads input lexer seen (char :: rest))
    (single : char.utf8Size = 1) : lexer.peekChar 1 = .ok rest.head? := by
  have next := reads.past
  have pos : (lexer.past char).pos = lexer.pos + 1 := by rw [Lexer.past, single]
  have length := next.len
  rw [pos] at length
  rw [peekChar, show lexer.len = (lexer.past char).len from rfl, length]
  cases rest with
  | nil => simp
  | cons following rest =>
      have positive := Char.utf8Size_pos following
      rw [if_neg (by simp only [byteLength_cons]; omega)]
      have current := next.currentChar
      rw [Lexer.currentChar, pos] at current
      exact current

theorem slice {read : List Char} {next : Lexer} (reads : Reads input lexer seen (read ++ rest))
    (readsNext : Reads input next (seen ++ read) rest) :
    next.slice lexer.pos next.pos = .ok read := by
  rw [Lexer.slice, readsNext.input_eq, reads.cut.slice_eq readsNext.cut]
  rfl

end Reads

/-! ## The loops -/

variable {input seen rest : List Char} {lexer : Lexer}

theorem advanceWhile_spec (keep : Char → Bool) (fuel : Nat)
    (reads : Reads input lexer seen rest) (enough : rest.length < fuel) :
    ∃ next, lexer.advanceWhile keep fuel = .ok next ∧
      Reads input next (seen ++ rest.takeWhile keep) (rest.dropWhile keep) := by
  induction fuel generalizing lexer seen rest with
  | zero => omega
  | succ fuel induction =>
      rw [advanceWhile, reads.currentChar, Outcome.ok_bind]
      cases rest with
      | nil => exact ⟨lexer, rfl, by simpa using reads⟩
      | cons char rest =>
          simp only [List.head?_cons]
          by_cases kept : keep char = true
          · rcases induction reads.past (by simpa using enough) with ⟨next, run, readsNext⟩
            refine ⟨next, ?_, ?_⟩
            · rw [if_pos kept, reads.advance_cons, Outcome.ok_bind]
              exact run
            · rw [List.takeWhile_cons_of_pos kept, List.dropWhile_cons_of_pos kept]
              simpa using readsNext
          · refine ⟨lexer, by rw [if_neg kept]; rfl, ?_⟩
            rw [List.takeWhile_cons_of_neg kept, List.dropWhile_cons_of_neg kept,
              List.append_nil]
            exact reads

theorem numberLoop_spec (hasDot : Bool) (fuel : Nat) (reads : Reads input lexer seen rest)
    (enough : rest.length < fuel) :
    ∃ next, lexer.numberLoop fuel hasDot = .ok ((scanNumber hasDot rest).1, next) ∧
      Reads input next (seen ++ (scanNumber hasDot rest).2.1) (scanNumber hasDot rest).2.2 := by
  induction fuel generalizing lexer seen rest hasDot with
  | zero => omega
  | succ fuel induction =>
      rw [numberLoop, reads.currentChar, Outcome.ok_bind]
      cases rest with
      | nil => exact ⟨lexer, rfl, by simpa [scanNumber] using reads⟩
      | cons char rest =>
          have consumes : ∀ dotted, ∃ next,
              (lexer.past char).numberLoop fuel dotted = .ok ((scanNumber dotted rest).1, next) ∧
              Reads input next (seen ++ char :: (scanNumber dotted rest).2.1)
                (scanNumber dotted rest).2.2 := by
            intro dotted
            rcases induction dotted reads.past (by simpa using enough) with ⟨next, run, left⟩
            exact ⟨next, run, by simpa using left⟩
          have stops : ∃ next, (Outcome.ok (hasDot, lexer)) = .ok (hasDot, next) ∧
              Reads input next (seen ++ []) (char :: rest) :=
            ⟨lexer, rfl, by simpa using reads⟩
          simp only [List.head?_cons, scanNumber]
          by_cases digit : char.isDigit = true
          · rw [if_pos digit, if_pos digit, reads.advance_cons]
            exact consumes hasDot
          · rw [if_neg digit, if_neg digit]
            by_cases dot : char = '.' ∧ hasDot = false
            · have single : char.utf8Size = 1 := by rw [dot.1]; rfl
              rw [if_pos dot, reads.peekChar_one single, Outcome.ok_bind]
              by_cases twice : rest.head? = some '.'
              · rw [if_pos twice, if_neg fun dotted => dotted.2.2 twice]
                exact stops
              · rw [if_neg twice, if_pos ⟨dot.1, dot.2, twice⟩, reads.advance_cons]
                exact consumes true
            · rw [if_neg dot, if_neg fun dotted => dot ⟨dotted.1, dotted.2.1⟩]
              exact stops

/-- A string is read to its closing quote, or to the end of the input. -/
inductive ReadsString (input : List Char) (line col : UInt32) (content : String) :
    Outcome (String × Lexer) → Option (List Char × List Char) → Prop where
  | closed {next : Lexer} {seen read tail : List Char} : Reads input next seen tail →
      ReadsString input line col content (.ok (content ++ String.ofList read, next))
        (some (read, tail))
  | unterminated :
      ReadsString input line col content (.err ⟨"unterminated string literal", line, col⟩) none

theorem ReadsString.push {line col : UInt32} {content : String} {char : Char}
    {outcome : Outcome (String × Lexer)} {scanned : Option (List Char × List Char)}
    (reads : ReadsString input line col (content.push char) outcome scanned) :
    ReadsString input line col content outcome
      (scanned.map fun parts => (char :: parts.1, parts.2)) := by
  cases reads with
  | @closed next seen read tail left =>
      rw [String.push_eq_append, String.append_assoc, ← String.ofList_cons]
      exact .closed left
  | unterminated => exact .unterminated

theorem stringLoop_spec (line col : UInt32) (content : String) (fuel : Nat)
    (reads : Reads input lexer seen rest) (enough : rest.length < fuel) :
    ReadsString input line col content (lexer.stringLoop line col fuel content)
      (scanString rest) := by
  induction fuel generalizing lexer seen rest content with
  | zero => omega
  | succ fuel induction =>
      rw [stringLoop]
      fun_cases scanString rest with
      | case1 =>
          rw [reads.advance_nil]
          exact .unterminated
      | case2 rest =>
          have doubled := reads.past
          simp only [reads.advance_cons, Outcome.ok_bind, if_true, doubled.currentChar,
            List.head?_cons, doubled.advance_cons]
          exact (induction (content.push '\'') doubled.past
            (by simp only [List.length_cons] at enough; omega)).push
      | case3 rest single =>
          have closing : rest.head? ≠ some '\'' := by
            cases rest with
            | nil => simp
            | cons following rest =>
                intro same
                exact single rest (by rw [Option.some.inj same])
          simp only [reads.advance_cons, Outcome.ok_bind, if_true, reads.past.currentChar,
            if_neg closing]
          have left : ReadsString input line col content
              (.ok (content ++ String.ofList [], lexer.past '\'')) (some ([], rest)) :=
            .closed reads.past
          simpa using left
      | case4 char rest pair single =>
          simp only [reads.advance_cons, Outcome.ok_bind, if_neg (fun same => single same)]
          exact (induction (content.push char) reads.past (by simpa using enough)).push

/-! ## Comments and whitespace -/

theorem skipLine_spec (fuel : Nat) (reads : Reads input lexer seen rest)
    (enough : rest.length < fuel) :
    ∃ next seenNext left, lexer.skipLine fuel = .ok next ∧ Reads input next seenNext left ∧
      skip .line rest = skip .code left ∧ left.length ≤ rest.length - 1 := by
  induction fuel generalizing lexer seen rest with
  | zero => omega
  | succ fuel induction =>
      rw [skipLine]
      cases rest with
      | nil => exact ⟨lexer, seen, [], by rw [reads.advance_nil]; rfl, reads, rfl, le_rfl⟩
      | cons char rest =>
          rw [reads.advance_cons, Outcome.ok_bind, skip]
          by_cases ends : char = '\n'
          · simp only [if_pos ends]
            exact ⟨_, _, rest, rfl, reads.past, rfl, le_rfl⟩
          · simp only [if_neg ends]
            rcases induction reads.past (by simpa using enough) with
              ⟨next, seenNext, left, run, readsNext, same, shorter⟩
            exact ⟨next, seenNext, left, run, readsNext, same,
              shorter.trans (by simp only [List.length_cons]; omega)⟩

theorem skipBlock_spec (fuel : Nat) (reads : Reads input lexer seen rest)
    (enough : rest.length < fuel) :
    (∃ next seenNext left, lexer.skipBlock fuel = .ok next ∧ Reads input next seenNext left ∧
      skip .block rest = skip .code left ∧ left.length ≤ rest.length) ∨
    ∃ error, lexer.skipBlock fuel = .err error ∧ skip .block rest = .error error.message := by
  induction fuel generalizing lexer seen rest with
  | zero => omega
  | succ fuel induction =>
      rw [skipBlock]
      have continues : ∀ {char : Char} {rest : List Char},
          Reads input lexer seen (char :: rest) → rest.length < fuel →
          (∃ next seenNext left, (lexer.past char).skipBlock fuel = .ok next ∧
            Reads input next seenNext left ∧ skip .block rest = skip .code left ∧
            left.length ≤ (char :: rest).length) ∨
          ∃ error, (lexer.past char).skipBlock fuel = .err error ∧
            skip .block rest = .error error.message := by
        intro char rest reads shorter
        rcases induction reads.past shorter with
          ⟨next, seenNext, left, run, readsNext, same, length⟩ | failed
        · exact .inl ⟨next, seenNext, left, run, readsNext, same, Nat.le_succ_of_le length⟩
        · exact .inr failed
      cases rest with
      | nil =>
          rw [reads.advance_nil]
          exact .inr ⟨_, rfl, rfl⟩
      | cons char rest =>
          have shorter : rest.length < fuel := by simpa using enough
          rw [reads.advance_cons, Outcome.ok_bind]
          by_cases star : char = '*'
          · subst star
            simp only [if_true, reads.past.currentChar, Outcome.ok_bind]
            by_cases slash : rest.head? = some '/'
            · rcases List.head?_eq_some_iff.mp slash with ⟨tail, same⟩
              subst same
              rw [if_pos slash, reads.past.advance_cons]
              exact .inl ⟨_, _, tail, rfl, reads.past.past, by rw [skip], by simp; omega⟩
            · rw [if_neg slash]
              have same : skip .block ('*' :: rest) = skip .block rest := by
                rw [skip]
                intro tail _ closes
                exact slash (by rw [closes]; rfl)
              rw [same]
              exact continues reads shorter
          · simp only [if_neg star]
            have same : skip .block (char :: rest) = skip .block rest := by
              rw [skip]
              intro tail same
              exact absurd same star
            rw [same]
            exact continues reads shorter

/-- The two bytes at a place of the input, where there are two. -/
theorem Reads.pair (reads : Reads input lexer seen rest) :
    lexer.slice lexer.pos (lexer.pos + 2) = .ofSlice (takeBytes rest 2) := by
  rw [Lexer.slice, reads.input_eq, reads.cut.takeBytes]

theorem skip_dropWhile (rest : List Char) :
    skip .code rest = skip .code (rest.dropWhile isBlank) := by
  induction rest with
  | nil => rfl
  | cons char rest induction =>
      by_cases blank : isBlank char = true
      · rw [List.dropWhile_cons_of_pos blank, ← induction, skip, if_pos blank]
        · intro tail dash _
          rw [dash] at blank
          exact absurd blank (by decide)
        · intro tail slash _
          rw [slash] at blank
          exact absurd blank (by decide)
      · rw [List.dropWhile_cons_of_neg blank]

theorem skip_solid {rest : List Char} (solid : ∀ char, rest.head? = some char → ¬isBlank char)
    (line : ∀ tail, rest ≠ '-' :: '-' :: tail) (block : ∀ tail, rest ≠ '/' :: '*' :: tail) :
    skip .code rest = .ok rest := by
  cases rest with
  | nil => rfl
  | cons char rest =>
      rw [skip, if_neg (solid char rfl)]
      · intro tail dash second
        exact line tail (by rw [dash, second])
      · intro tail slash second
        exact block tail (by rw [slash, second])

/-- Nothing is skipped before two bytes that open no comment. -/
theorem skip_of_pair {rest : List Char} (solid : ∀ char, rest.head? = some char → ¬isBlank char)
    (line : takeBytes rest 2 ≠ some ['-', '-']) (block : takeBytes rest 2 ≠ some ['/', '*']) :
    skip .code rest = .ok rest := by
  apply skip_solid solid
  · rintro tail rfl
    exact line (takeBytes_dashes tail)
  · rintro tail rfl
    exact block (takeBytes_slashStar tail)

/-- Skipping ends where scanning does, and panics there if the two bytes at that
place are not whole characters. -/
inductive SkipsTo (input : List Char) : Outcome Lexer → Except String (List Char) → Prop where
  | aligned {next : Lexer} {seen left : List Char} : Reads input next seen left →
      PairAligned left → SkipsTo input (.ok next) (.ok left)
  | misaligned {left : List Char} : ¬PairAligned left → SkipsTo input .panic (.ok left)
  | failed {error : LexError} : SkipsTo input (.err error) (.error error.message)

theorem skipWhitespaceAndComments_spec (fuel : Nat) (reads : Reads input lexer seen rest)
    (enough : rest.length < fuel) :
    SkipsTo input (lexer.skipWhitespaceAndComments fuel) (skip .code rest) := by
  induction fuel generalizing lexer seen rest with
  | zero => omega
  | succ fuel induction =>
      rcases advanceWhile_spec isBlank lexer.fuel reads reads.enough with ⟨next, run, left⟩
      have shorter : (rest.dropWhile isBlank).length ≤ rest.length :=
        (List.dropWhile_sublist _).length_le
      have solid : ∀ char, (rest.dropWhile isBlank).head? = some char → ¬isBlank char := by
        intro char first
        have := List.head?_dropWhile_not isBlank rest
        rw [first] at this
        simpa using this
      rw [skipWhitespaceAndComments, run, Outcome.ok_bind, skip_dropWhile]
      generalize rest.dropWhile isBlank = code at *
      generalize seen ++ rest.takeWhile isBlank = seenCode at *
      have long : next.pos + 1 < next.len ↔ 2 ≤ byteLength code := by
        rw [left.len]
        omega
      simp only [long, left.pair]
      by_cases two : 2 ≤ byteLength code
      · rw [if_pos two]
        cases taken : takeBytes code 2 with
        | none =>
            have scanned : skip .code code = .ok code :=
              skip_of_pair solid (by simp [taken]) (by simp [taken])
            rw [scanned]
            apply SkipsTo.misaligned
            intro aligned
            rcases aligned.pair two with ⟨pair, found⟩
            rw [taken] at found
            cases found
        | some pair =>
            rcases takeBytes_eq_some_iff.mp taken with ⟨tail, split, length⟩
            simp only [Outcome.ofSlice, Outcome.ok_bind]
            by_cases line : pair = ['-', '-']
            · rcases skipLine_spec next.fuel left left.enough with
                ⟨after, seenAfter, rest, run, readsAfter, same, less⟩
              have lines : skip .code code = skip .line code := by
                rw [split, line]
                rfl
              rw [if_pos line, run, Outcome.ok_bind, lines, same]
              apply induction readsAfter
              rw [split, line] at shorter less
              simp only [List.length_append, List.length_cons] at shorter less
              omega
            · rw [if_neg line]
              by_cases block : pair = ['/', '*']
              · subst block
                subst split
                have opened : Reads input ((next.past '/').past '*') _ tail := left.past.past
                rw [if_pos rfl, left.advance_cons, Outcome.ok_bind, left.past.advance_cons,
                  Outcome.ok_bind, List.cons_append, List.cons_append, List.nil_append, skip]
                rcases skipBlock_spec _ opened opened.enough with
                  ⟨after, seenAfter, rest, run, readsAfter, same, less⟩ | ⟨error, run, same⟩
                · rw [run, Outcome.ok_bind, same]
                  apply induction readsAfter
                  simp only [List.length_append, List.length_cons] at shorter
                  omega
                · rw [run, same]
                  exact .failed
              · rw [if_neg block]
                have scanned : skip .code code = .ok code :=
                  skip_of_pair solid (by simpa [taken] using line) (by simpa [taken] using block)
                rw [scanned]
                exact .aligned left (.of_takeBytes taken)
      · rw [if_neg two]
        have scanned : skip .code code = .ok code := by
          apply skip_solid solid
          · intro tail same
            exact two (same ▸ two_le_byteLength '-' '-' tail)
          · intro tail same
            exact two (same ▸ two_le_byteLength '/' '*' tail)
        rw [scanned]
        exact .aligned left (.of_short (Nat.not_le.mp two))

/-! ## One token -/

variable (platform : TextPlatform)

/-- Lexing gives the value that scanning gives and stops where it stops, or
fails with the same message. -/
inductive LexesTo {α β : Type} (input : List Char) (view : α → β) :
    Outcome (α × Lexer) → Except String (β × List Char) → Prop where
  | ok {value : α} {next : Lexer} {seen tail : List Char} : Reads input next seen tail →
      LexesTo input view (.ok (value, next)) (.ok (view value, tail))
  | err {error : LexError} : LexesTo input view (.err error) (.error error.message)

/-- The end of `lexNumber`, once the number is read. -/
theorem numberToken_spec {char : Char} {next : Lexer} (line col : UInt32) (hasDot : Bool)
    {read tail : List Char} (reads : Reads input lexer seen (char :: read ++ tail))
    (left : Reads input next (seen ++ char :: read) tail) :
    LexesTo input Prod.fst
      (do
        let raw ← next.slice lexer.pos next.pos
        match numberToken platform hasDot raw with
        | .ok token => return ((token, (⟨line, col, byteLength raw⟩ : Span)), next)
        | .error message => .err ⟨message, line, col⟩)
      ((numberToken platform hasDot (char :: read)).map (·, tail)) := by
  rw [reads.slice left, Outcome.ok_bind]
  cases numberToken platform hasDot (char :: read) with
  | ok token => exact .ok left
  | error message => exact .err

theorem lexNumber_spec {char : Char} (line col : UInt32)
    (reads : Reads input lexer seen (char :: rest)) (opens : char.isDigit = true ∨ char = '.') :
    LexesTo input Prod.fst (lexer.lexNumber platform line col lexer.pos)
      ((numberToken platform (scanNumber (char == '.') rest).1
        (char :: (scanNumber (char == '.') rest).2.1)).map
          (·, (scanNumber (char == '.') rest).2.2)) := by
  have whole : Reads input lexer seen (char :: (scanNumber (char == '.') rest).2.1 ++
      (scanNumber (char == '.') rest).2.2) := by
    rw [List.cons_append, append_scanNumber]
    exact reads
  simp only [lexNumber, reads.currentChar, Outcome.ok_bind, List.head?_cons, Option.some.injEq]
  by_cases dot : char = '.'
  · subst dot
    rcases numberLoop_spec true _ reads.past reads.past.enough with ⟨next, run, left⟩
    rw [if_pos rfl, reads.advance_cons]
    simp only [Outcome.ok_bind, Outcome.pure_eq, decide_true, run]
    exact numberToken_spec platform line col _ whole (by simpa using left)
  · rcases numberLoop_spec false _ reads reads.enough with ⟨next, run, left⟩
    rw [scanNumber, if_pos (opens.resolve_right dot)] at run left
    rw [if_neg dot]
    simp only [Outcome.ok_bind, Outcome.pure_eq, decide_eq_false dot, run]
    rw [beq_false_of_ne dot] at whole ⊢
    exact numberToken_spec platform line col _ whole left

theorem lexWord_spec {char : Char} (line col : UInt32)
    (reads : Reads input lexer seen (char :: rest))
    (opens : platform.isWordStart char = true) :
    LexesTo input Prod.fst (lexer.lexWord platform line col lexer.pos)
      (.ok (wordToken (char :: rest.takeWhile platform.isWordChar),
        rest.dropWhile platform.isWordChar)) := by
  have word : platform.isWordChar char = true := platform.isWordChar_of_isWordStart opens
  rcases advanceWhile_spec platform.isWordChar lexer.fuel reads reads.enough with
    ⟨next, run, left⟩
  rw [List.takeWhile_cons_of_pos word, List.dropWhile_cons_of_pos word] at left
  have read : next.slice lexer.pos next.pos =
      .ok (char :: rest.takeWhile platform.isWordChar) := by
    apply Reads.slice _ left
    rw [List.cons_append, List.takeWhile_append_dropWhile]
    exact reads
  rw [lexWord, run, Outcome.ok_bind, read]
  exact .ok left

theorem lexString_spec (line col : UInt32) (reads : Reads input lexer seen ('\'' :: rest)) :
    LexesTo input Prod.fst (lexer.lexString line col)
      (match scanString rest with
      | none => .error "unterminated string literal"
      | some (content, tail) => .ok (.stringLiteral (String.ofList content), tail)) := by
  have read := stringLoop_spec line col "" _ reads.past reads.past.enough
  rw [lexString, reads.advance_cons]
  simp only [Outcome.ok_bind]
  revert read
  generalize (lexer.past '\'').stringLoop line col (lexer.past '\'').fuel "" = outcome
  generalize scanString rest = scanned
  intro read
  cases read with
  | closed left =>
      rw [String.empty_append]
      exact .ok left
  | unterminated => exact .err

theorem lexParam_spec (line col : UInt32) (reads : Reads input lexer seen (':' :: rest)) :
    LexesTo input Prod.fst (lexer.lexParam platform line col)
      (.ok (.param (String.ofList (rest.takeWhile platform.isWordChar)),
        rest.dropWhile platform.isWordChar)) := by
  rcases advanceWhile_spec platform.isWordChar _ reads.past reads.past.enough with
    ⟨next, run, left⟩
  have read : next.slice (lexer.past ':').pos next.pos =
      .ok (rest.takeWhile platform.isWordChar) := by
    apply Reads.slice _ left
    rw [List.takeWhile_append_dropWhile]
    exact reads.past
  rw [lexParam, reads.advance_cons]
  simp only [Outcome.ok_bind, run, read]
  exact .ok left

theorem either_spec (following : Char) (longer shorter : Token)
    (reads : Reads input lexer seen rest) :
    LexesTo input id (lexer.either following longer shorter)
      (.ok (scanEither following longer shorter rest)) := by
  rw [either, reads.currentChar, Outcome.ok_bind]
  cases rest with
  | nil => exact .ok reads
  | cons char rest =>
      rw [scanEither]
      by_cases same : char = following
      · rw [if_pos same, if_pos (by rw [same]; rfl), reads.advance_cons]
        exact .ok reads.past
      · rw [if_neg same, List.head?_cons, if_neg fun found => same (Option.some.inj found)]
        exact .ok reads

theorem less_spec (reads : Reads input lexer seen rest) :
    LexesTo input id lexer.less (.ok (scanLess rest)) := by
  rw [less, reads.currentChar, Outcome.ok_bind]
  fun_cases scanLess rest with
  | case1 tail =>
      simp only [List.head?_cons, if_true, reads.peekChar_one rfl, Outcome.ok_bind, and_self,
        reads.advance_cons, reads.past.advance_cons]
      exact .ok reads.past.past
  | case2 tail =>
      rw [reads.advance_cons]
      exact .ok reads.past
  | case3 tail =>
      rw [reads.advance_cons]
      exact .ok reads.past
  | case4 _ arrow equal greater =>
      cases rest with
      | nil => exact .ok reads
      | cons char rest =>
          have notEqual : char ≠ '=' := fun same => equal rest (by rw [same])
          have notGreater : char ≠ '>' := fun same => greater rest (by rw [same])
          by_cases minus : char = '-'
          · subst minus
            have notArrow : rest.head? ≠ some '>' := by
              intro same
              rcases List.head?_eq_some_iff.mp same with ⟨tail, split⟩
              exact arrow tail (by rw [split])
            simp only [List.head?_cons, if_true, reads.peekChar_one rfl, Outcome.ok_bind,
              notArrow, and_false, if_false]
            exact .ok reads
          · simp only [List.head?_cons, Option.some.injEq, minus, if_false, false_and,
              notEqual, notGreater]
            exact .ok reads

theorem operatorToken_spec (line col : UInt32) (char : Char)
    (reads : Reads input lexer seen rest) :
    LexesTo input id (lexer.operatorToken platform line col char)
      (scanOperator platform char rest) := by
  fun_cases scanOperator platform char rest with
  | case1 =>
      unfold operatorToken
      rw [‹singleToken char = some _›]
      exact .ok reads
  | case2 => exact either_spec _ _ _ reads
  | case3 tail =>
      simp only [operatorToken, singleToken, reads.currentChar, reads.advance_cons,
        Outcome.ok_bind, List.head?_cons, if_true]
      exact .ok reads.past
  | case4 _ alone =>
      have other : rest.head? ≠ some '=' := by
        intro same
        rcases List.head?_eq_some_iff.mp same with ⟨tail, split⟩
        exact alone tail split
      simp only [operatorToken, singleToken, reads.currentChar, Outcome.ok_bind, if_neg other]
      exact .err
  | case5 => exact less_spec reads
  | case6 => exact either_spec _ _ _ reads
  | case7 => exact either_spec _ _ _ reads
  | case8 => exact either_spec _ _ _ reads
  | case9 =>
      simp only [operatorToken, ‹singleToken char = none›]
      exact .err

theorem startsNumber_spec {char : Char} (reads : Reads input lexer seen (char :: rest)) :
    lexer.startsNumber char =
      .ok (decide (char.isDigit = true ∨ char = '.' ∧ rest.head?.any Char.isDigit = true)) := by
  unfold startsNumber
  by_cases digit : char.isDigit = true
  · simp [digit]
  · by_cases dot : char = '.'
    · have single : char.utf8Size = 1 := by rw [dot]; rfl
      simp [dot, reads.peekChar_one single]
    · simp [digit, dot]

theorem nextToken_spec {char : Char} (reads : Reads input lexer seen (char :: rest)) :
    LexesTo input Prod.fst (lexer.nextToken platform) (scanToken platform char rest) := by
  simp only [nextToken, reads.currentChar, Outcome.ok_bind, List.head?_cons,
    startsNumber_spec reads, decide_eq_true_eq, scanToken]
  by_cases digits : char.isDigit = true ∨ char = '.' ∧ rest.head?.any Char.isDigit = true
  · rw [if_pos digits, if_pos digits]
    exact lexNumber_spec platform _ _ reads (digits.imp_right And.left)
  · rw [if_neg digits, if_neg digits]
    by_cases word : platform.isWordStart char = true
    · rw [if_pos word, if_pos word]
      exact lexWord_spec platform _ _ reads word
    · rw [if_neg word, if_neg word]
      by_cases quote : char = '\''
      · subst quote
        exact lexString_spec _ _ reads
      · rw [if_neg quote, if_neg quote]
        by_cases colon : char = ':'
        · subst colon
          rw [if_pos rfl, if_pos rfl, reads.peekChar_one rfl, Outcome.ok_bind]
          by_cases named : rest.head?.any platform.isWordStart = true
          · rw [if_pos named, if_pos named]
            exact lexParam_spec platform _ _ reads
          · rw [if_neg named, if_neg named, reads.advance_cons]
            exact .ok reads.past
        · rw [if_neg colon, if_neg colon, reads.advance_cons, Outcome.ok_bind]
          have operator := operatorToken_spec platform lexer.line lexer.col char reads.past
          revert operator
          simp only
          generalize (lexer.past char).operatorToken platform lexer.line lexer.col char = outcome
          generalize scanOperator platform char rest = scanned
          intro operator
          cases operator with
          | ok left => exact .ok left
          | err => exact .err

/-! ## The whole text -/

/-- Tokenizing gives the tokens that scanning gives, behind those it had, and
reaches the end of the input; or it fails with the same message. -/
inductive TokenizesTo (input : List Char) (before : List (Token × Span)) :
    Outcome (List (Token × Span) × Lexer) → Except String (List Token) → Prop where
  | ok {spanned : List (Token × Span)} {next : Lexer} : next.pos = byteLength input →
      TokenizesTo input before (.ok (before ++ spanned, next)) (.ok (spanned.map Prod.fst))
  | err {error : LexError} : TokenizesTo input before (.err error) (.error error.message)

theorem TokenizesTo.cons {before : List (Token × Span)} {token : Token} {span : Span}
    {outcome : Outcome (List (Token × Span) × Lexer)} {scanned : Except String (List Token)}
    (tokenizes : TokenizesTo input (before ++ [(token, span)]) outcome scanned) :
    TokenizesTo input before outcome (scanned.map (token :: ·)) := by
  cases tokenizes with
  | @ok spanned next atEnd =>
      rw [List.append_assoc]
      have extended : TokenizesTo input before (.ok (before ++ (token, span) :: spanned, next))
          (.ok (((token, span) :: spanned).map Prod.fst)) := .ok atEnd
      exact extended
  | err => exact .err

theorem tokenLoop_spec (tokens : List (Token × Span)) (fuel : Nat)
    (reads : Reads input lexer seen rest) (enough : rest.length < fuel) :
    (TokensAligned platform rest →
      TokenizesTo input tokens (lexer.tokenLoop platform fuel tokens) (scan platform rest)) ∧
    (¬TokensAligned platform rest → lexer.tokenLoop platform fuel tokens = .panic) := by
  induction fuel generalizing lexer seen rest tokens with
  | zero => omega
  | succ fuel induction =>
      have skips := skipWhitespaceAndComments_spec lexer.fuel reads reads.enough
      rw [tokenLoop]
      generalize lexer.skipWhitespaceAndComments lexer.fuel = outcome at skips
      generalize skipped : skip .code rest = scanned at skips
      cases skips with
      | failed =>
          rw [Outcome.err_bind, scan_skipError skipped]
          exact ⟨fun _ => .err, fun unaligned => absurd (.of_skipError skipped) unaligned⟩
      | misaligned pair =>
          exact ⟨fun aligned => absurd (aligned _ (.first skipped)) pair, fun _ => rfl⟩
      | @aligned next seenNext left readsNext pair =>
          rw [Outcome.ok_bind]
          cases left with
          | nil =>
              have atEnd : next.pos = byteLength input := by
                rw [readsNext.cut.byteLength_eq, byteLength_nil, Nat.add_zero]
              have done : next.pos ≥ next.len := by
                rw [Lexer.len, readsNext.input_eq, atEnd]
              rw [if_pos done, scan_eof skipped]
              exact ⟨fun _ => .ok atEnd, fun unaligned => absurd (.of_eof skipped) unaligned⟩
          | cons char left =>
              have inside : ¬next.pos ≥ next.len := by
                have positive := Char.utf8Size_pos char
                rw [readsNext.len, byteLength_cons]
                omega
              rw [if_neg inside]
              have lexes := nextToken_spec platform readsNext
              generalize next.nextToken platform = outcome at lexes
              generalize found : scanToken platform char left = scanned at lexes
              cases lexes with
              | err =>
                  rw [Outcome.err_bind, scan_tokenError skipped found]
                  exact ⟨fun _ => .err,
                    fun unaligned => absurd (.of_tokenError skipped found pair) unaligned⟩
              | @ok spanned after seenAfter tail readsAfter =>
                  have shorter : tail.length < fuel := by
                    have left := length_skip skipped
                    have tailLeft := length_scanToken platform found
                    rw [List.length_cons] at left
                    omega
                  have rest := induction (tokens ++ [spanned]) readsAfter shorter
                  rw [Outcome.ok_bind, scan_token skipped found,
                    TokensAligned.token_iff skipped found]
                  simp only [if_neg (scanToken_ne_newline platform found)]
                  constructor
                  · intro aligned
                    exact (rest.1 aligned.2).cons
                  · intro unaligned
                    exact rest.2 fun aligned => unaligned ⟨pair, aligned⟩

/-! ## Where lexing is safe -/

/-- Lexing returns, and on success it ends the tokens with `eof` at the end of
the input. -/
def Safe (text : String) : Prop :=
  match (Lexer.new text).tokenize platform with
  | .ok (tokens, lexer) =>
      tokens.getLast?.map Prod.fst = some .eof ∧ lexer.pos = byteLength text.toList
  | .err _ => True
  | .panic => False
  | .running => False

theorem scan_getLast {text : List Char} {tokens : List Token}
    (scanned : scan platform text = .ok tokens) : tokens.getLast? = some .eof := by
  fun_induction scan platform text generalizing tokens with
  | case1 => cases scanned
  | case2 =>
      cases scanned
      rfl
  | case3 => cases scanned
  | case4 text char rest skipped token tail found induction =>
      rcases exists_of_map_eq_ok scanned with ⟨inner, scannedTail, same⟩
      have last := induction scannedTail
      rw [← same]
      cases inner with
      | nil => cases last
      | cons head inner => exact last

/-- Lexing is safe exactly on the texts whose tokens all start with two bytes
that are whole characters. -/
theorem safe_iff_tokensAligned (text : String) :
    Safe platform text ↔ TokensAligned platform text.toList := by
  have run := tokenLoop_spec platform [] _ (Reads.new text) (Reads.new text).enough
  constructor
  · intro safe
    apply Classical.byContradiction
    intro unaligned
    rw [Safe, tokenize, run.2 unaligned] at safe
    exact safe
  · intro aligned
    have tokenizes := run.1 aligned
    rw [Safe, tokenize]
    generalize (Lexer.new text).tokenLoop platform _ [] = outcome at tokenizes
    generalize found : scan platform text.toList = scanned at tokenizes
    cases tokenizes with
    | ok atEnd =>
        have last := scan_getLast platform found
        rw [List.getLast?_map] at last
        exact ⟨last, atEnd⟩
    | err => trivial

/-- The quote of `'é'` and the first byte of `é` are two bytes that end inside a
character. -/
theorem quoted_accent_panics :
    (Lexer.new "'é'").tokenize .latin1 = .panic ∧ ¬Safe .latin1 "'é'" := by
  have panics : (Lexer.new "'é'").tokenize .latin1 = .panic := rfl
  exact ⟨panics, by rw [Safe, panics]; exact id⟩

end Lexer

/-- What lexing gives is what scanning gives. -/
theorem scan_of_tokenize {platform : TextPlatform} {text : String}
    {tokens : List (Token × Span)} {lexer : Lexer}
    (tokenized : (Lexer.new text).tokenize platform = .ok (tokens, lexer)) :
    scan platform text.toList = .ok (tokens.map Prod.fst) := by
  have run := Lexer.tokenLoop_spec platform [] _ (Lexer.Reads.new text)
    (Lexer.Reads.new text).enough
  rw [Lexer.tokenize] at tokenized
  by_cases aligned : TokensAligned platform text.toList
  · have result := run.1 aligned
    rw [tokenized] at result
    generalize scan platform text.toList = scanned at result
    cases result
    rfl
  · have panicked := run.2 aligned
    rw [tokenized] at panicked
    cases panicked

end FunDB.Sql
