import RepoSurvey.Proofs.Imports.Cleanup

/-!
# Texts whose comments are gone

Where a comment is taken out, characters come together that stood apart. They never make a comment,
nor a string that begins or stops elsewhere: what is left is read as it was read before
(`markedFrom_stripFrom`). So taking comments out of it again changes nothing.

The scan of a text and the scan of what is left of it are followed side by side. They are in the
same mode, or the first is in a comment and the second outside of strings (`Mode.outside`). All that
could part them is a slash: it is left alone where no slash and no star stands behind it, and then
what is left has the same character behind it, since a comment would have begun with a slash
(`head?_stripFrom_of_lone`).
-/

namespace RepoSurvey.Imports

/-! ### Characters and their places -/

/-- The characters that are left of a text, each with whether it is read inside of a string. The
quote that opens a string stands outside, the one that closes it inside. -/
def markedFrom : Mode → List Char → List (Char × Bool)
  | _, [] => []
  | .plain, '/' :: '/' :: cs => markedFrom .lineComment cs
  | .plain, '/' :: '*' :: cs => markedFrom .blockComment cs
  | .plain, c :: cs => (c, false) :: markedFrom (if c = '"' then .string else .plain) cs
  | .string, '\\' :: c :: cs => ('\\', true) :: (c, true) :: markedFrom .string cs
  | .string, c :: cs => (c, true) :: markedFrom (if c = '"' then .plain else .string) cs
  | .lineComment, c :: cs =>
    if c = '\n' then (c, false) :: markedFrom .plain cs else markedFrom .lineComment cs
  | .blockComment, '*' :: '/' :: cs => markedFrom .plain cs
  | .blockComment, _ :: cs => markedFrom .blockComment cs

/-- The characters that are left of a text, each with whether it is read inside of a string. -/
def marked (text : String) : List (Char × Bool) := markedFrom .plain text.toList

/-- What is marked is what is left. -/
theorem map_fst_markedFrom (m : Mode) (cs : List Char) :
    (markedFrom m cs).map Prod.fst = stripFrom m cs := by
  fun_induction markedFrom m cs with
  | case1 => rw [stripFrom, List.map_nil]
  | case2 cs ih => rw [stripFrom, ih]
  | case3 cs ih => rw [stripFrom, ih]
  | case4 c cs hline hblock ih =>
    rw [List.map_cons, ih, stripFrom]
    · exact hline
    · exact hblock
  | case5 c cs ih => rw [List.map_cons, List.map_cons, ih, stripFrom]
  | case6 c cs hescape ih =>
    rw [List.map_cons, ih, stripFrom]
    exact hescape
  | case7 cs ih => rw [List.map_cons, ih, stripFrom, if_pos rfl]
  | case8 c cs hend ih => rw [ih, stripFrom, if_neg hend]
  | case9 cs ih => rw [stripFrom, ih]
  | case10 c cs hclose ih =>
    rw [ih, stripFrom]
    exact hclose

theorem markedFrom_plain_cons {c : Char} {cs : List Char}
    (h : c = '/' → cs.head? ≠ some '/' ∧ cs.head? ≠ some '*') :
    markedFrom .plain (c :: cs) =
      (c, false) :: markedFrom (if c = '"' then .string else .plain) cs := by
  rw [markedFrom]
  · rintro _ rfl rfl
    exact (h rfl).1 rfl
  · rintro _ rfl rfl
    exact (h rfl).2 rfl

theorem markedFrom_string_cons {c : Char} (h : c ≠ '\\') (cs : List Char) :
    markedFrom .string (c :: cs) =
      (c, true) :: markedFrom (if c = '"' then .plain else .string) cs := by
  rw [markedFrom]
  exact fun _ _ hc _ ↦ h hc

/-! ### The scan of what is left -/

/-- The mode in which what is left of a text is read while the text itself is read in a given
mode. -/
def Mode.outside : Mode → Mode
  | .string => .string
  | .plain | .lineComment | .blockComment => .plain

/-- A character that begins no comment is the next that is left. -/
theorem head?_stripFrom {cs : List Char} (h : cs.head? ≠ some '/') :
    (stripFrom .plain cs).head? = cs.head? := by
  cases cs with
  | nil => rfl
  | cons c cs =>
    have hslash : c ≠ '/' := by
      rintro rfl
      exact h rfl
    by_cases hquote : c = '"'
    · subst hquote
      rfl
    · rw [stripFrom_plain_cons hslash hquote, List.head?_cons, List.head?_cons]

/-- A slash that begins no comment is not joined to a slash or a star. -/
theorem head?_stripFrom_of_lone {cs : List Char} (hline : ∀ cs', cs ≠ '/' :: cs')
    (hblock : ∀ cs', cs ≠ '*' :: cs') :
    (stripFrom .plain cs).head? ≠ some '/' ∧ (stripFrom .plain cs).head? ≠ some '*' := by
  have hslash : cs.head? ≠ some '/' := fun h ↦ by
    obtain ⟨cs', hcs⟩ := List.head?_eq_some_iff.1 h
    exact hline cs' hcs
  have hstar : cs.head? ≠ some '*' := fun h ↦ by
    obtain ⟨cs', hcs⟩ := List.head?_eq_some_iff.1 h
    exact hblock cs' hcs
  rw [head?_stripFrom hslash]
  exact ⟨hslash, hstar⟩

/-- What is left of a text is read as it was read in the text. -/
theorem markedFrom_stripFrom (m : Mode) (cs : List Char) :
    markedFrom m.outside (stripFrom m cs) = markedFrom m cs := by
  fun_induction stripFrom m cs with
  | case1 m => cases m <;> rfl
  | case2 cs ih => exact ih
  | case3 cs ih => exact ih
  | case4 c cs hline hblock ih =>
    -- a slash is read outside of strings, and so is what stands behind it
    have halone : c = '/' → (stripFrom (if c = '"' then .string else .plain) cs).head? ≠ some '/' ∧
        (stripFrom (if c = '"' then .string else .plain) cs).head? ≠ some '*' := by
      rintro rfl
      rw [if_neg (by decide)]
      exact head?_stripFrom_of_lone (fun cs' hcs ↦ hline cs' rfl hcs)
        fun cs' hcs ↦ hblock cs' rfl hcs
    have hmode : (if c = '"' then Mode.string else .plain).outside =
        if c = '"' then .string else .plain := by
      split <;> rfl
    rw [hmode] at ih
    show markedFrom .plain (c :: stripFrom _ cs) = _
    rw [markedFrom_plain_cons halone, ih, markedFrom]
    · exact hline
    · exact hblock
  | case5 c cs ih =>
    show markedFrom .string ('\\' :: c :: stripFrom .string cs) = _
    rw [markedFrom, markedFrom]
    exact congrArg (fun rest ↦ ('\\', true) :: (c, true) :: rest) ih
  | case6 c cs hescape ih =>
    show markedFrom .string (c :: stripFrom _ cs) = _
    cases cs with
    | nil => rw [stripFrom]
    | cons d cs =>
      have hslash : c ≠ '\\' := fun hc ↦ hescape d cs hc rfl
      have hmode : (if c = '"' then Mode.plain else .string).outside =
          if c = '"' then .plain else .string := by
        split <;> rfl
      rw [hmode] at ih
      rw [markedFrom_string_cons hslash, ih, markedFrom_string_cons hslash]
  | case7 cs ih =>
    show markedFrom .plain ('\n' :: stripFrom .plain cs) = _
    rw [markedFrom_plain_cons (by simp), markedFrom, if_pos rfl]
    exact congrArg (fun rest ↦ ('\n', false) :: rest) ih
  | case8 c cs hend ih =>
    rw [markedFrom, if_neg hend]
    exact ih
  | case9 cs ih => exact ih
  | case10 c cs hclose ih =>
    rw [markedFrom]
    · exact ih
    · exact hclose

/-- **Comments are taken out once and for all.** Every text, with whatever strings and comments
that do not stop, is left without any comment: to take them out again changes nothing. The strings
begin and stop where they did, since each character that is left is read inside of a string, or
outside, as it was in the text. -/
theorem stripComments_idempotent (text : String) :
    stripComments (stripComments text) = stripComments text ∧
      marked (stripComments text) = marked text ∧
      (marked text).map Prod.fst = (stripComments text).toList := by
  have hleft (t : String) : (stripComments t).toList = stripFrom .plain t.toList := by
    rw [stripComments, stripChars, String.toList_ofList]
  have hchars (t : String) : (marked t).map Prod.fst = (stripComments t).toList :=
    (map_fst_markedFrom .plain t.toList).trans (hleft t).symm
  have hmarked : marked (stripComments text) = marked text := by
    rw [marked, hleft]
    exact markedFrom_stripFrom .plain text.toList
  refine ⟨?_, hmarked, hchars text⟩
  rw [← String.toList_inj, ← hchars, hmarked, hchars]

-- the slash before the space is not joined to the slash behind the comment
example : stripComments "/ /**// \"//\\" = "/ / \"//\\" := by decide

end RepoSurvey.Imports
