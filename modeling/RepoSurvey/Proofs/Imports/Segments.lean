import RepoSurvey.Proofs.Imports.Cleanup

/-!
# The segments of a text with comments

A text with comments can be cut into segments: runs that neither a string nor a comment begins in,
strings, and comments of both kinds. Each kind says on its own where it stops, so that marks of
comments in a string, quotes in a comment and escaped quotes belong to the segment in which they
stand. `stripComments` finds exactly these segments (`stripComments_segments`): it keeps the runs
and the strings as they are, and the ends of lines behind line comments.

The scanner is followed segment by segment. `stripFrom_segment` says that each segment is left in
the mode in which it was entered, whatever follows; the whole text is then an induction on its
segments, and only a line comment that the text stops with is looked at on its own.
-/

namespace RepoSurvey.Imports

/-! ### Segments -/

/-- What a string is made of between its quotes. -/
inductive StringPart where
  | char (c : Char) (hquote : c ≠ '"') (hslash : c ≠ '\\')
  /-- A backslash with the character that it escapes. -/
  | pair (c : Char)

/-- A part of a string as it is written. -/
def StringPart.text : StringPart → List Char
  | .char c _ _ => [c]
  | .pair c => ['\\', c]

/-- A comment to the end of its line. -/
structure LineComment where
  body : List Char
  newline_not_mem : '\n' ∉ body

/-- A line comment as it is written, without the end of its line. -/
def LineComment.text (comment : LineComment) : List Char := '/' :: '/' :: comment.body

/-- What a text with comments is made of. -/
inductive Segment where
  | plain (run : List Char) (h : ∀ c ∈ run, c ≠ '"' ∧ c ≠ '/')
  | string (parts : List StringPart)
  | blockComment (body : List Char) (h : ¬['*', '/'] <:+: body)
  /-- A line comment with the end of its line. -/
  | lineComment (comment : LineComment)

namespace Segment

/-- A segment as it is written. -/
def text : Segment → List Char
  | .plain run _ => run
  | .string parts => '"' :: (parts.flatMap StringPart.text ++ ['"'])
  | .blockComment body _ => '/' :: '*' :: (body ++ ['*', '/'])
  | .lineComment comment => comment.text ++ ['\n']

/-- What is no comment in a segment. -/
def kept : Segment → List Char
  | .plain run _ => run
  | .string parts => text (.string parts)
  | .blockComment _ _ => []
  | .lineComment _ => ['\n']

end Segment

/-! ### One segment -/

theorem stripFrom_stringParts (parts : List StringPart) (rest : List Char) :
    stripFrom .string (parts.flatMap StringPart.text ++ rest) =
      parts.flatMap StringPart.text ++ stripFrom .string rest := by
  induction parts with
  | nil => rfl
  | cons part parts ih =>
    rw [List.flatMap_cons, List.append_assoc]
    cases part with
    | char c hquote hslash =>
      show stripFrom .string (c :: (parts.flatMap StringPart.text ++ rest)) = _
      rw [stripFrom_string_cons hquote hslash, ih]
      rfl
    | pair c =>
      show stripFrom .string ('\\' :: c :: (parts.flatMap StringPart.text ++ rest)) = _
      rw [stripFrom, ih]
      rfl

/-- A block comment stops at the first mark that closes it. -/
theorem stripFrom_blockComment {body : List Char} (h : ¬['*', '/'] <:+: body) (rest : List Char) :
    stripFrom .blockComment (body ++ '*' :: '/' :: rest) = stripFrom .plain rest := by
  induction body with
  | nil => rfl
  | cons c body ih =>
    have hbody : ¬['*', '/'] <:+: body :=
      fun hwithin ↦ h (hwithin.trans (List.suffix_cons c body).isInfix)
    -- a star at the end of the body does not close the comment with the star behind it
    have hopen : ∀ back, c = '*' → body ++ '*' :: '/' :: rest = '/' :: back → False := by
      intro back hc hback
      cases body with
      | nil => simp at hback
      | cons d body =>
        have hd : d = '/' := (List.cons.inj hback).1
        refine h ⟨[], body, ?_⟩
        rw [hc, hd]
        rfl
    rw [List.cons_append, stripFrom, ih hbody]
    exact hopen

theorem stripFrom_lineComment {body : List Char} (h : '\n' ∉ body) (rest : List Char) :
    stripFrom .lineComment (body ++ rest) = stripFrom .lineComment rest := by
  induction body with
  | nil => rfl
  | cons c body ih =>
    rw [List.mem_cons, not_or] at h
    rw [List.cons_append, stripFrom, if_neg (Ne.symm h.1), ih h.2]

/-- A segment is read to its end and no further. -/
theorem stripFrom_segment (segment : Segment) (rest : List Char) :
    stripFrom .plain (segment.text ++ rest) = segment.kept ++ stripFrom .plain rest := by
  cases segment with
  | plain run h => exact stripFrom_plain_append h rest
  | string parts =>
    show stripFrom .plain ('"' :: (parts.flatMap StringPart.text ++ ['"'] ++ rest)) = _
    have hopen (cs : List Char) : stripFrom .plain ('"' :: cs) = '"' :: stripFrom .string cs := rfl
    have hclose : stripFrom .string ('"' :: rest) = '"' :: stripFrom .plain rest := rfl
    rw [hopen, List.append_assoc, stripFrom_stringParts, List.singleton_append, hclose]
    simp [Segment.kept, Segment.text]
  | blockComment body h =>
    show stripFrom .blockComment (body ++ ['*', '/'] ++ rest) = _
    rw [List.append_assoc]
    exact stripFrom_blockComment h rest
  | lineComment comment =>
    show stripFrom .lineComment (comment.body ++ ['\n'] ++ rest) = _
    rw [List.append_assoc, stripFrom_lineComment comment.newline_not_mem]
    rfl

/-! ### Whole texts -/

theorem stripFrom_segments (segments : List Segment) (rest : List Char) :
    stripFrom .plain (segments.flatMap Segment.text ++ rest) =
      segments.flatMap Segment.kept ++ stripFrom .plain rest := by
  induction segments with
  | nil => rfl
  | cons segment segments ih =>
    rw [List.flatMap_cons, List.append_assoc, stripFrom_segment, ih, List.flatMap_cons,
      List.append_assoc]

/-- A line comment that nothing follows leaves nothing. -/
theorem stripFrom_lastLine (comment : LineComment) : stripFrom .plain comment.text = [] := by
  show stripFrom .lineComment comment.body = []
  rw [← List.append_nil comment.body, stripFrom_lineComment comment.newline_not_mem, stripFrom]

/-- **Taking comments out reads a text in segments.** Of every sequence of segments, with or without
a line comment behind it that the text stops with, the runs, the strings and the ends of the lines
behind line comments are left. -/
theorem stripComments_segments (segments : List Segment) (lastLine : Option LineComment) :
    stripComments (String.ofList
        (segments.flatMap Segment.text ++ lastLine.elim [] LineComment.text)) =
      String.ofList (segments.flatMap Segment.kept) := by
  have hend : stripFrom .plain (lastLine.elim [] LineComment.text) = [] := by
    cases lastLine with
    | none => rw [Option.elim_none, stripFrom]
    | some comment => exact stripFrom_lastLine comment
  rw [stripComments, stripChars, String.toList_ofList, stripFrom_segments, hend, List.append_nil]

-- a quote in a comment opens no string, and an escaped quote closes none
example : stripComments "1/*\"**/\"\\\"//\"//\"" = "1\"\\\"//\"" := by decide

end RepoSurvey.Imports
