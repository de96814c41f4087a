import RepoSurvey.Proofs.Yaml.Spelling

/-!
# Faults found in tokens

What is remembered of possible keys and of blocks finds malformed texts only and leaves the place
alone (the `keeps_` lemmas). A token goes on from one end of the text to a later one
(`reads_token`), and so does a run over all of them (`reads_run`), so a scalar fault of the tokens
comes from something the text spells wrongly (`misspelt_of_tokens`).
-/

namespace RepoSurvey.Yaml

open Cursor

namespace Lexer

variable {text : List Char} {c : Cursor} {x : Lexer}

/-! ### Names and tags -/

/-- A cursor that runs over characters of a class splits what is before it. -/
theorem span_append_rest (p : Char → Bool) (c : Cursor) :
    (c.span p).1 ++ (c.span p).2.rest = c.rest := by
  simp only [span, rest_skip]
  exact List.prefix_iff_eq_append.1 (List.takeWhile_prefix p)

/-- A name is what stands in front of the place behind it. -/
theorem yields_name (c : Cursor) :
    Yields (Misspelt text) (fun found ↦ found.1.toList ++ found.2.rest = c.rest) (name c) := by
  unfold name
  have happend := span_append_rest isNameChar c
  generalize c.span isNameChar = found at *
  dsimp only
  split
  · exact yields_malformed _
  · simpa [Yields] using happend

theorem scans_name (h : c.Behind text) : Scans text (name c) :=
  (yields_name c).mono fun found hfound ↦
    List.IsSuffix.trans ⟨found.1.toList, hfound⟩ h

/-- The handle of a tag ends at an end of the text. -/
theorem scans_handle (h : c.Behind text) : Scans text (handle c) := by
  unfold handle
  split
  · exact .ok h.next
  have h₁ := h.next.span isNameChar
  generalize c.next.span isNameChar = found at *
  dsimp only
  split
  · exact .ok h₁.next
  · exact scans_malformed _

/-- Escaped bytes in a tag end at an end of the text, and only their coding can be wrong. -/
theorem scans_escapedBytes (fuel : Nat) (h : c.Behind text) :
    Scans text (escapedBytes fuel c) := by
  induction fuel generalizing c with
  | zero => exact .ok h
  | succ fuel ih =>
    unfold escapedBytes
    split
    · split
      · exact (ih (h.skip 3)).map fun _ ↦ rfl
      · exact scans_malformed _
    · exact scans_malformed _
    · exact .ok h

/-- The characters of a tag end at an end of the text. -/
theorem scans_tagChars (fuel : Nat) (done : List Char) (h : c.Behind text) :
    Scans text (tagChars fuel done c) := by
  induction fuel generalizing done c with
  | zero => exact .ok h
  | succ fuel ih =>
    unfold tagChars
    split
    · exact .ok h
    split
    · have hbytes := scans_escapedBytes (c.rest.length + 1) h
      split
      · exact hbytes.error ‹_›
      · rename_i hfound
        rw [hfound] at hbytes
        split
        · exact ih _ hbytes
        · exact scans_malformed _
    split
    · exact ih _ h.next
    · exact .ok h

theorem scans_tagText (h : c.Behind text) : Scans text (tagText c) := by
  unfold tagText
  have hchars := scans_tagChars (c.rest.length + 1) [] h
  split
  · exact hchars.error ‹_›
  · rename_i hfound
    rw [hfound] at hchars
    split
    · exact scans_malformed _
    · exact .ok hchars

/-- The name of an anchor or alias ends at an end of the text. -/
theorem scans_anchorName (h : c.Behind text) : Scans text (anchorName c) := by
  unfold anchorName
  refine Yields.bind (scans_name h.next) fun ⟨n, c₁⟩ h₁ ↦ ?_
  dsimp only
  split
  · exact h₁
  · exact yields_malformed _

/-- A tag as it is written ends at an end of the text. -/
theorem scans_writtenTag (h : c.Behind text) : Scans text (writtenTag c) := by
  unfold writtenTag
  extract_lets finish shorten
  have hfinish (tag : WrittenTag) {c₁ : Cursor} (h₁ : c₁.Behind text) :
      Scans text (finish (tag, c₁)) := by
    simp only [finish]
    split
    · exact h₁
    · exact scans_malformed _
  have hshorten (handle : String) {c₁ : Cursor} (h₁ : c₁.Behind text) :
      Scans text (shorten (handle, c₁)) :=
    Yields.bind (scans_tagText h₁) fun rest hrest ↦ hfinish (.short handle rest.1) hrest
  split
  · refine Yields.bind (scans_tagText (h.skip 2)) fun ⟨tag, c₁⟩ h₁ ↦ ?_
    exact Yields.guard fun _ ↦ hfinish (.whole tag) (Cursor.Behind.next h₁)
  split
  · exact hfinish _ h.next
  split
  · exact Yields.bind (scans_handle h) fun found hfound ↦ hshorten found.1 hfound
  · exact hshorten "!" h.next

/-! ### Directives -/

/-- A cursor stands inside the version that a directive states. -/
def InVersion (text : List Char) (c : Cursor) : Prop :=
  ∃ middle, "%YAML".toList ++ (middle ++ c.rest) <:+ text ∧
    ∀ a ∈ middle, a = ' ' ∨ a = '.' ∨ (Text.asciiDigit? a).isSome

/-- Inside a version a cursor stands at an end of the text. -/
theorem InVersion.behind (h : InVersion text c) : c.Behind text := by
  obtain ⟨middle, hmiddle, -⟩ := h
  exact ((List.suffix_append _ _).trans (List.suffix_append _ _)).trans hmiddle

/-- A cursor that goes on over blanks, points and digits stays inside the version. -/
theorem InVersion.forward {c' : Cursor} (h : InVersion text c) {front : List Char}
    (hrest : c.rest = front ++ c'.rest)
    (hfront : ∀ a ∈ front, a = ' ' ∨ a = '.' ∨ (Text.asciiDigit? a).isSome) :
    InVersion text c' := by
  obtain ⟨middle, hmiddle, hall⟩ := h
  refine ⟨middle ++ front, ?_, fun a ha ↦ (List.mem_append.1 ha).elim (hall a) (hfront a)⟩
  rwa [List.append_assoc, ← hrest]

theorem InVersion.skipSpaces (h : InVersion text c) : InVersion text c.skipSpaces :=
  h.forward (span_append_rest (· == ' ') c).symm fun _ ha ↦
    .inl (beq_iff_eq.1 (List.mem_takeWhile_imp (p := (· == ' ')) ha))

/-- A version that is too long is too long in the text. -/
theorem yields_number (h : InVersion text c) :
    Yields (Misspelt text) (fun found ↦ InVersion text found.2) (number c) := by
  unfold number
  have happend := span_append_rest (fun a ↦ (Text.asciiDigit? a).isSome) c
  have hdigits : ∀ a ∈ (c.span fun a ↦ (Text.asciiDigit? a).isSome).1,
      (Text.asciiDigit? a).isSome := fun _ ha ↦
    List.mem_takeWhile_imp (p := fun a ↦ (Text.asciiDigit? a).isSome) ha
  generalize (c.span fun a ↦ (Text.asciiDigit? a).isSome) = found at *
  rcases found with ⟨digits, c₁⟩
  dsimp only at happend hdigits ⊢
  split
  · exact yields_malformed _
  split
  · rename_i hlong
    obtain ⟨middle, ⟨front, rfl⟩, hmiddle⟩ := h
    exact @Misspelt.version _ front middle digits c₁.rest (by rw [happend]) hmiddle hdigits hlong
  · exact h.forward happend.symm fun a ha ↦ .inr (.inr (hdigits a ha))

/-- The value of a directive can be at fault only as a version, by a number that is too long. -/
theorem scans_directiveValue {directive : String} (h : c.Behind text)
    (hversion : directive = "YAML" → InVersion text c) :
    Scans text (directiveValue directive c) := by
  unfold directiveValue
  split
  · rename_i hyaml
    refine Yields.bind (yields_number (hversion hyaml).skipSpaces) ?_
    rintro ⟨major, c₁⟩ h₁
    refine Yields.guard fun hpeek ↦ ?_
    -- the point has been seen, so it can be gone past within the version
    have h₂ : InVersion text c₁.next := by
      obtain ⟨rest, hrest⟩ : ∃ rest, c₁.rest = '.' :: rest := by
        rw [bne_iff_ne, not_not, peek] at hpeek
        exact List.head?_eq_some_iff.1 hpeek
      refine @InVersion.forward _ _ _ h₁ ['.'] ?_ (by simp)
      rw [rest_next, hrest, List.tail_cons, List.singleton_append]
    refine Yields.bind (yields_number h₂) ?_
    rintro ⟨minor, c₃⟩ h₃
    dsimp only
    split
    · exact InVersion.behind h₃
    · exact yields_malformed _
  split
  · refine Yields.guard fun _ ↦ ?_
    refine Yields.bind (scans_handle h.skipSpaces) ?_
    rintro ⟨handle, c₂⟩ h₂
    refine Yields.guard fun _ ↦ ?_
    refine Yields.bind (scans_tagText (Cursor.Behind.skipSpaces h₂)) ?_
    rintro ⟨front, c₃⟩ h₃
    dsimp only
    split
    · exact h₃
    · exact yields_malformed _
  · exact h.skipLine

/-- A directive ends at an end of the text. -/
theorem scans_directive (h : c.Behind text) (hpeek : c.peek = some '%') :
    Scans text (directive c) := by
  unfold directive
  obtain ⟨rest, hrest⟩ : ∃ rest, c.rest = '%' :: rest := List.head?_eq_some_iff.1 hpeek
  refine Yields.bind (yields_name c.next) fun ⟨directive, c₁⟩ happend ↦ ?_
  rw [rest_next, hrest, List.tail_cons] at happend
  have hsuffix : '%' :: (directive.toList ++ c₁.rest) <:+ text := by
    rw [happend, ← hrest]
    exact h
  have h₁ : c₁.Behind text :=
    ((List.suffix_append _ _).trans (List.suffix_cons _ _)).trans hsuffix
  refine Yields.guard fun _ ↦ ?_
  refine Yields.bind (scans_directiveValue h₁ fun hyaml ↦ ⟨[], ?_, by simp⟩)
    fun ⟨token, c₂⟩ h₂ ↦ ?_
  · rwa [hyaml] at hsuffix
  · dsimp only
    split
    · exact Cursor.Behind.endLine? h₂ ‹_›
    · exact yields_malformed _

/-! ### What leaves the place alone -/

/-- To forget keys that have become impossible does not move the cursor. -/
theorem keeps_dropStale (x : Lexer) :
    Yields (Misspelt text) (fun y : Lexer ↦ y.here = x.here) x.dropStale := by
  unfold dropStale
  dsimp only
  split
  · exact yields_malformed _
  · rfl

/-- To forget a possible key does not move the cursor. -/
theorem keeps_dropKey (x : Lexer) :
    Yields (Misspelt text) (fun y : Lexer ↦ y.here = x.here) x.dropKey := by
  unfold dropKey
  split
  · split
    · exact yields_malformed _
    · rfl
  · rfl

/-- To remember a possible key does not move the cursor. -/
theorem keeps_saveKey (x : Lexer) :
    Yields (Misspelt text) (fun y : Lexer ↦ y.here = x.here) x.saveKey := by
  unfold saveKey
  split
  · exact Yields.bind (keeps_dropKey x) fun y hy ↦ hy
  · rfl

/-- Blocks are closed without a move of the cursor. -/
theorem here_closeBlocks (column : Int) (fuel : Nat) (x : Lexer) :
    (closeBlocks column fuel x).here = x.here := by
  induction fuel generalizing x with
  | zero => rfl
  | succ fuel ih =>
    unfold closeBlocks
    split
    · exact ih _
    · rfl

theorem here_unwind (x : Lexer) (column : Int) : (x.unwind column).here = x.here := by
  unfold unwind
  split
  · exact here_closeBlocks _ _ _
  · rfl

theorem here_openBlock (x : Lexer) (column : Nat) : (x.openBlock column).1.here = x.here := by
  unfold openBlock
  split <;> rfl

/-- To open a block at a token does not move the cursor. -/
theorem keeps_openAt (x : Lexer) (t : Token) (problem : Problem) :
    Yields (Misspelt text) (fun y : Lexer ↦ y.here = x.here) (x.openAt t problem) := by
  unfold openAt
  split
  · rfl
  split
  · have hopen := here_openBlock x x.here.column
    generalize x.openBlock x.here.column = opened at *
    dsimp only
    split <;> exact hopen
  · exact yields_malformed _

theorem keeps_atOutermost (x : Lexer) :
    Yields (Misspelt text) (fun y : Lexer ↦ y.here = x.here) x.atOutermost :=
  Yields.bind (keeps_dropKey _) fun _ hy ↦ Eq.trans hy (here_unwind x _)

/-! ### One token -/

/-- A step of the lexer stops at an end of the text. -/
def Reads (text : List Char) (r : Except Fault Lexer) : Prop :=
  Yields (Misspelt text) (fun x : Lexer ↦ x.here.Behind text) r

/-- A step that does not move the cursor stops where it stood. -/
theorem Reads.ofKeeps {r : Except Fault Lexer}
    (hr : Yields (Misspelt text) (fun y : Lexer ↦ y.here = x.here) r) (h : x.here.Behind text) :
    Reads text r :=
  hr.mono fun y hy ↦ by rwa [hy]

/-- A token that may be a key is read where the cursor stands. -/
theorem reads_keyed {read : Cursor → Except Fault (Token × Cursor)}
    (hread : Scans text (read x.here)) : Reads text (x.keyed read) :=
  Yields.bind (keeps_saveKey x) fun y (hy : y.here = x.here) ↦
    Yields.bind (hy ▸ hread) fun _ hfound ↦ hfound

theorem reads_openBracket (h : x.here.Behind text) (t : Token) : Reads text (x.openBracket t) :=
  Yields.bind (keeps_saveKey x) fun y (hy : y.here = x.here) ↦ Cursor.Behind.skip (hy ▸ h) 1

/-- A closing bracket is one character. -/
theorem reads_closeBracket (h : x.here.Behind text) (t : Token) :
    Reads text (x.closeBracket t) := by
  unfold closeBracket
  refine Yields.bind (keeps_dropKey x) fun y (hy : y.here = x.here) ↦ ?_
  split
  · exact yields_malformed _
  · exact Cursor.Behind.skip (hy ▸ h) 1

theorem reads_separator (h : x.here.Behind text) : Reads text x.separator :=
  Yields.bind (keeps_dropKey _) fun y (hy : y.here = x.here) ↦ Cursor.Behind.skip (hy ▸ h) 1

/-- Where a block may open, a mark of one character follows. -/
theorem reads_mark (h : x.here.Behind text) (t : Token) (problem : Problem)
    (allow : Lexer → Bool) (mark : Token) :
    Reads text (do
      let x ← x.openAt t problem
      let x ← ({ x with keyAllowed := allow x } : Lexer).dropKey
      return x.take 1 mark) :=
  Yields.bind (keeps_openAt x t problem) fun y (hy : y.here = x.here) ↦
    Yields.bind (keeps_dropKey _) fun z (hz : z.here = y.here) ↦
      Cursor.Behind.skip (hz ▸ hy ▸ h) 1

/-- The colon of a value is one character, whatever becomes of the key in front of it. -/
theorem reads_valueMark (h : x.here.Behind text) : Reads text x.valueMark := by
  unfold valueMark
  split
  · rename_i k hk
    extract_lets y
    have hopened :
        (if y.depth == 0 then y.openBlock k.start.column else (y, false)).1.here = x.here := by
      split
      · exact here_openBlock y _
      · rfl
    generalize (if y.depth == 0 then y.openBlock k.start.column else (y, false)) = opened at *
    exact Cursor.Behind.skip (c := opened.1.here) (hopened ▸ h) 1
  · exact reads_mark h _ _ (fun x ↦ x.depth == 0) _

theorem reads_block (h : x.here.Behind text) (folded : Bool) : Reads text (x.block folded) :=
  Yields.bind (keeps_dropKey _) fun y (hy : y.here = x.here) ↦
    Yields.bind (scans_blockScalar folded _ (Cursor.Behind.next (hy ▸ h))) fun _ hfound ↦ hfound

theorem reads_plain (h : x.here.Behind text) : Reads text x.plain :=
  Yields.bind (keeps_saveKey x) fun y (hy : y.here = x.here) ↦
    behind_plainScalar (y.depth != 0) y.indent (hy ▸ h)

theorem reads_documentMark (h : x.here.Behind text) (t : Token) :
    Reads text (x.atOutermost >>= fun x ↦ pure (x.take 3 t)) :=
  Yields.bind (keeps_atOutermost x) fun y (hy : y.here = x.here) ↦ Cursor.Behind.skip (hy ▸ h) 3

/-- **Every token stops at an end of the text.** The character in front of the cursor tells which
kind of token follows. -/
theorem reads_token {a : Char} (h : x.here.Behind text) (hpeek : x.here.peek = some a) :
    Reads text (x.token a) := by
  unfold token
  refine .ite (fun hmark ↦ ?_) fun _ ↦ ?_
  · have hpercent : a = '%' := beq_iff_eq.1 (Bool.and_eq_true_iff.1 hmark).1
    refine Yields.bind (keeps_atOutermost x) fun y (hy : y.here = x.here) ↦ ?_
    refine Yields.bind (scans_directive (hy ▸ h) ?_) fun found hfound ↦ hfound
    rw [hy, hpeek, hpercent]
  refine .ite (fun _ ↦ reads_documentMark h _) fun _ ↦ ?_
  refine .ite (fun _ ↦ reads_documentMark h _) fun _ ↦ ?_
  refine .ite (fun _ ↦ reads_openBracket h _) fun _ ↦ ?_
  refine .ite (fun _ ↦ reads_openBracket h _) fun _ ↦ ?_
  refine .ite (fun _ ↦ reads_closeBracket h _) fun _ ↦ ?_
  refine .ite (fun _ ↦ reads_closeBracket h _) fun _ ↦ ?_
  refine .ite (fun _ ↦ reads_separator h) fun _ ↦ ?_
  refine .ite (fun _ ↦ reads_mark h _ _ (fun _ ↦ true) _) fun _ ↦ ?_
  refine .ite (fun _ ↦ reads_mark h _ _ (fun x ↦ x.depth == 0) _) fun _ ↦ ?_
  refine .ite (fun _ ↦ reads_valueMark h) fun _ ↦ ?_
  refine .ite (fun _ ↦ reads_keyed ((scans_anchorName h).map fun _ ↦ rfl)) fun _ ↦ ?_
  refine .ite (fun _ ↦ reads_keyed ((scans_anchorName h).map fun _ ↦ rfl)) fun _ ↦ ?_
  refine .ite (fun _ ↦ reads_keyed ((scans_writtenTag h).map fun _ ↦ rfl)) fun _ ↦ ?_
  refine .ite (fun _ ↦ reads_block h _) fun _ ↦ ?_
  refine .ite (fun _ ↦ reads_block h _) fun _ ↦ ?_
  refine .ite (fun _ ↦ reads_keyed ((scans_quotedScalar a h).map fun _ ↦ rfl)) fun _ ↦ ?_
  exact .ite (fun _ ↦ reads_plain h) fun _ ↦ yields_malformed _

/-! ### All tokens -/

/-- What stands between tokens is skipped up to an end of the text. -/
theorem behind_skipGap (fuel : Nat) (h : x.here.Behind text) :
    (skipGap fuel x).here.Behind text := by
  induction fuel generalizing x with
  | zero => exact h
  | succ fuel ih =>
    unfold skipGap
    extract_lets c₁ c₂
    have h₂ : c₂.Behind text := by
      simp only [c₂]
      split
      · exact h.skipSpaces.skipLine
      · exact h.skipSpaces
    split
    · exact ih (h₂.lineBreak? ‹_›)
    · exact h₂

theorem behind_toNext (h : x.here.Behind text) : x.toNext.here.Behind text := by
  unfold toNext
  extract_lets y
  refine behind_skipGap _ ?_
  simp only [y]
  split
  · exact h.next
  · exact h

/-- A run over tokens stops at an end of the text, by induction on its fuel. -/
theorem reads_run (fuel : Nat) (h : x.here.Behind text) : Reads text (run fuel x) := by
  induction fuel generalizing x with
  | zero => exact h
  | succ fuel ih =>
    unfold run
    refine Yields.bind (keeps_dropStale _) fun y (hy : y.here = x.toNext.here) ↦ ?_
    have hbehind : (y.unwind y.here.column).here.Behind text := by
      rw [here_unwind, hy]
      exact behind_toNext h
    dsimp only
    split
    · exact Reads.ofKeeps (keeps_atOutermost _) hbehind
    · exact Yields.bind (reads_token hbehind ‹_›) fun z hz ↦ ih hz

end Lexer

/-- A scalar fault of the tokens is a misspelt part of the text. -/
theorem misspelt_of_tokens {text : List Char} {fault : ScalarFault}
    (h : tokens text = .error (.scalar fault)) : Misspelt text fault := by
  unfold tokens at h
  split at h
  · have hrun : Lexer.Reads text (Lexer.run (text.length + 1) { here := { rest := text } }) :=
      Lexer.reads_run _ (List.suffix_refl text)
    have hmap : Yields (Misspelt text) (fun _ ↦ True)
        (.error (.scalar fault) : Except Fault (List Token)) :=
      h ▸ Yields.map hrun fun _ _ ↦ trivial
    exact hmap
  · cases h

end RepoSurvey.Yaml
