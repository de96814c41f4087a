import Mathlib.Algebra.GroupWithZero.Nat
import RepoSurvey.Proofs.Text.Pieces
import RepoSurvey.Proofs.Yaml.Outcome
import RepoSurvey.Yaml.Lexer

/-!
# Scalars that cannot be spelt

Reading a scalar of a text finds a fault of it for one reason only: an escape names a code point
that does not exist. With the version in a directive, which can have too many digits, these are the
faults of tokens (`Misspelt`). Every cursor that comes up stands at an end of the text
(`Cursor.Behind`), so what a cursor sees stands in the text.
-/

namespace RepoSurvey.Yaml

/-- A text holds something that is written like a scalar, or a part of one, and stands for no
value. -/
inductive Misspelt (text : List Char) : ScalarFault → Prop
  /-- An escape of a code point beyond the last. -/
  | escape {front digits back : List Char} {n : Nat} :
      text = front ++ '\\' :: 'U' :: (digits ++ back) → digits.length = 8 →
      n = Decimal.valueIn 16 (digits.filterMap Text.hexDigit?) → 0x110000 ≤ n →
      Misspelt text (.codePoint n)
  /-- A version of too many digits. -/
  | version {front middle digits back : List Char} :
      text = front ++ ("%YAML".toList ++ (middle ++ (digits ++ back))) →
      (∀ a ∈ middle, a = ' ' ∨ a = '.' ∨ (Text.asciiDigit? a).isSome) →
      (∀ a ∈ digits, (Text.asciiDigit? a).isSome) → Decimal.longestInt < digits.length →
      Misspelt text (.longWhole digits.length)

/-- What is misspelt at the end of a text is misspelt in the text. -/
theorem Misspelt.of_suffix {cs text : List Char} {fault : ScalarFault} (h : Misspelt cs fault)
    (hs : cs <:+ text) : Misspelt text fault := by
  obtain ⟨before, rfl⟩ := hs
  cases h with
  | @escape front digits back n h hlength hvalue hlarge =>
    have htext : before ++ cs = before ++ front ++ '\\' :: 'U' :: (digits ++ back) := by
      rw [h, List.append_assoc]
    exact .escape htext hlength hvalue hlarge
  | @version front middle digits back h hmiddle hdigits hlong =>
    have htext :
        before ++ cs = before ++ front ++ ("%YAML".toList ++ (middle ++ (digits ++ back))) := by
      rw [h, List.append_assoc]
    exact .version htext hmiddle hdigits hlong

/-! ### Cursors -/

namespace Cursor

/-- A cursor stands at an end of a text. -/
def Behind (text : List Char) (c : Cursor) : Prop := c.rest <:+ text

variable {text : List Char} {c : Cursor}

theorem rest_next (c : Cursor) : c.next.rest = c.rest.tail := by
  unfold next
  split
  · rename_i h
    simp [h]
  · rename_i h
    split <;> simp [h]

/-- A cursor that skips characters drops them from what is before it. -/
theorem rest_skip (n : Nat) (c : Cursor) : (c.skip n).rest = c.rest.drop n := by
  induction n generalizing c with
  | zero => rfl
  | succ n ih => rw [skip, ih, rest_next, List.drop_tail]

/-- One character further on, a cursor still stands at an end of the text. -/
theorem Behind.next (h : c.Behind text) : c.next.Behind text := by
  rw [Behind, rest_next]
  exact (List.tail_suffix _).trans h

/-- Some characters further on, a cursor still stands at an end of the text. -/
theorem Behind.skip (h : c.Behind text) (n : Nat) : (c.skip n).Behind text := by
  rw [Behind, rest_skip]
  exact (List.drop_suffix _ _).trans h

theorem Behind.span (h : c.Behind text) (p : Char → Bool) : (c.span p).2.Behind text :=
  h.skip _

theorem Behind.skipSpaces (h : c.Behind text) : c.skipSpaces.Behind text := h.span _

theorem Behind.skipLine (h : c.Behind text) : c.skipLine.Behind text := h.span _

/-- Behind a line break, of one character or two, a cursor stands at an end of the text. -/
theorem Behind.lineBreak? (h : c.Behind text) {b : Char} {c' : Cursor}
    (hbreak : c.lineBreak? = some (b, c')) : c'.Behind text := by
  unfold Cursor.lineBreak? at hbreak
  split at hbreak
  · obtain ⟨-, rfl⟩ := Prod.mk.inj (Option.some.inj hbreak)
    exact h.skip 2
  · split at hbreak
    · obtain ⟨-, rfl⟩ := Prod.mk.inj (Option.some.inj hbreak)
      exact h.next
    · split at hbreak
      · obtain ⟨-, rfl⟩ := Prod.mk.inj (Option.some.inj hbreak)
        exact h.next
      · cases hbreak
  · cases hbreak

/-- Behind the end of a line a cursor stands at an end of the text. -/
theorem Behind.endLine? (h : c.Behind text) {c' : Cursor} (hend : c.endLine? = some c') :
    c'.Behind text := by
  unfold Cursor.endLine? at hend
  extract_lets c₁ c₂ at hend
  have h₂ : c₂.Behind text := by
    simp only [c₂]
    split
    · exact h.skipSpaces.skipLine
    · exact h.skipSpaces
  split at hend
  · obtain rfl := Option.some.inj hend
    split
    · exact h₂.lineBreak? ‹_›
    · exact h₂
  · cases hend

end Cursor

open Cursor

variable {text : List Char} {c : Cursor}

/-- A scan stops at an end of the text too. -/
def Scans {α : Type} (text : List Char) (r : Scan α) : Prop :=
  Yields (Misspelt text) (fun found ↦ found.2.Behind text) r

theorem Scans.ok {α : Type} {a : α} (h : c.Behind text) : Scans text (.ok (a, c) : Scan α) := h

theorem scans_malformed {α : Type} (problem : Problem) :
    Scans text (malformed problem : Scan α) := trivial

/-- What is made of a result does not matter to where its scan stops. -/
theorem Scans.map {α β : Type} {r : Scan α} {f : α × Cursor → β × Cursor} (h : Scans text r)
    (hf : ∀ found, (f found).2 = found.2) : Scans text (r.map f) :=
  Yields.map h fun found hfound ↦ by rwa [hf]

/-! ### Quoted scalars -/

/-- Empty lines are skipped up to an end of the text. -/
theorem scans_emptyLines (fuel : Nat) (h : c.Behind text) : Scans text (emptyLines fuel c) := by
  induction fuel generalizing c with
  | zero => exact .ok h
  | succ fuel ih =>
    unfold emptyLines
    split
    · exact scans_malformed _
    · extract_lets c₁
      have h₁ : c₁.Behind text := h.span _
      split
      · exact (ih (h₁.lineBreak? ‹_›)).map fun _ ↦ rfl
      · exact .ok h₁

/-- A number is below the base to the power of its places. -/
theorem valueIn_lt {base : Nat} (digits : List Nat) (h : ∀ d ∈ digits, d < base) :
    Decimal.valueIn base digits < base ^ digits.length := by
  have hfold (n : Nat) :
      digits.foldl (fun n d ↦ n * base + d) n < (n + 1) * base ^ digits.length := by
    induction digits generalizing n with
    | nil => simp
    | cons d digits ih =>
      obtain ⟨hd, hdigits⟩ := List.forall_mem_cons.1 h
      rw [List.foldl_cons, List.length_cons]
      have hle : n * base + d + 1 ≤ (n + 1) * base := by
        rw [Nat.add_one_mul]
        omega
      calc digits.foldl (fun n d ↦ n * base + d) (n * base + d)
        _ < (n * base + d + 1) * base ^ digits.length := ih hdigits _
        _ ≤ (n + 1) * base * base ^ digits.length := Nat.mul_le_mul_right _ hle
        _ = (n + 1) * base ^ (digits.length + 1) := by rw [Nat.mul_assoc, Nat.pow_succ']
  simpa [Decimal.valueIn] using hfold 0

/-- Only one kind of escape has eight digits, and all others have four at most. -/
theorem escapeWidth?_eq_some {e : Char} {width : Nat} (h : escapeWidth? e = some width) :
    width ≤ 4 ∨ (e = 'U' ∧ width = 8) := by
  simp only [escapeWidth?, beq_iff_eq] at h
  split at h
  · exact .inl ((Option.some.inj h).symm.le.trans (by decide))
  split at h
  · exact .inl ((Option.some.inj h).symm.le.trans (by decide))
  split at h
  · exact .inr ⟨‹_›, (Option.some.inj h).symm⟩
  · cases h

/-- Only eight digits reach beyond the last code point. -/
theorem scans_codePoint {e : Char} {width : Nat} (hwidth : escapeWidth? e = some width)
    {c : Cursor} (h : c.Behind text) (hescape : '\\' :: e :: c.rest <:+ text) :
    Scans text (codePoint width c) := by
  unfold codePoint
  extract_lets digits n
  split
  · exact scans_malformed _
  split
  · rename_i hlength hlarge
    have hn : n < 16 ^ digits.length := valueIn_lt digits fun d hd ↦ by
      obtain ⟨a, -, ha⟩ := List.mem_filterMap.1 hd
      exact Text.hexDigit?_lt ha
    have hle : digits.length ≤ (c.rest.take width).length := List.length_filterMap_le _ _
    have htake : (c.rest.take width).length ≤ width := List.length_take_le _ _
    obtain hsmall | ⟨rfl, rfl⟩ := escapeWidth?_eq_some hwidth
    · have hpow : 16 ^ digits.length ≤ 16 ^ 4 := Nat.pow_le_pow_right (by decide) (by omega)
      omega
    · refine Misspelt.of_suffix ?_ hescape
      exact @Misspelt.escape _ [] (c.rest.take 8) (c.rest.drop 8) n
        (by rw [List.take_append_drop]; rfl) (by omega) rfl hlarge
  · exact .ok (h.skip _)

/-- An escape is at fault only by its code point. -/
theorem scans_escape (h : c.Behind text) (hpeek : c.peek = some '\\') :
    Scans text (escape c.next) := by
  obtain ⟨rest, hrest⟩ : ∃ rest, c.rest = '\\' :: rest := List.head?_eq_some_iff.1 hpeek
  have hnext : c.next.rest = rest := by rw [rest_next, hrest, List.tail_cons]
  unfold escape
  split
  · exact scans_malformed _
  rename_i e he
  obtain ⟨after, hafter⟩ : ∃ after, rest = e :: after := by
    rw [peek, hnext] at he
    exact List.head?_eq_some_iff.1 he
  split
  · exact .ok h.next.next
  · rename_i hwidth
    refine (scans_codePoint hwidth h.next.next ?_).map fun _ ↦ rfl
    rw [rest_next, hnext, hafter, List.tail_cons, ← hafter, ← hrest]
    exact h
  · exact scans_emptyLines _ (h.next.lineBreak? ‹_›)
  · exact scans_malformed _

/-- Blanks and line breaks in a quoted scalar end at an end of the text. -/
theorem scans_quotedGap (h : c.Behind text) : Scans text (quotedGap c) := by
  unfold quotedGap
  split
  rename_i blanks c₁ hspan
  have h₁ : c₁.Behind text := by
    rw [← (Prod.mk.inj hspan).2]
    exact h.span _
  split
  · exact (scans_emptyLines _ (h₁.lineBreak? ‹_›)).map fun _ ↦ rfl
  · split
    · exact scans_malformed _
    · exact .ok h₁

/-- What stands between quotes is at fault only in an escape. The induction is on the fuel, one
character, escape or gap at a time. -/
theorem scans_quotedFrom (quote : Char) (fuel : Nat) (done : List Char) (h : c.Behind text) :
    Scans text (quotedFrom quote fuel done c) := by
  induction fuel generalizing done c with
  | zero => exact scans_malformed _
  | succ fuel ih =>
    unfold quotedFrom
    split
    · exact scans_malformed _
    rename_i a hpeek
    split
    · split
      · exact ih _ (h.skip 2)
      · exact .ok h.next
    split
    · rename_i hslash
      have hescape : Scans text (escape c.next) := scans_escape h (by simp_all)
      split
      · exact hescape.error ‹_›
      · rename_i found c' hfound
        rw [hfound] at hescape
        exact ih _ hescape
    split
    · have hgap := scans_quotedGap h
      split
      · exact hgap.error ‹_›
      · rename_i hfound
        rw [hfound] at hgap
        exact ih _ hgap
    · exact ih _ h.next

theorem scans_quotedScalar (quote : Char) (h : c.Behind text) :
    Scans text (quotedScalar quote c) :=
  scans_quotedFrom quote _ _ h.next

/-! ### Plain scalars -/

/-- A word of a plain scalar ends at an end of the text. -/
theorem behind_plainWord (inFlow : Bool) (fuel : Nat) (done : List Char) (h : c.Behind text) :
    (plainWord inFlow fuel done c).2.Behind text := by
  induction fuel generalizing done c with
  | zero => exact h
  | succ fuel ih =>
    unfold plainWord
    split
    · exact h
    · split
      · exact h
      · exact ih _ h.next

theorem behind_plainBreaks (fuel : Nat) (h : c.Behind text) :
    (plainBreaks fuel c).2.Behind text := by
  induction fuel generalizing c with
  | zero => exact h
  | succ fuel ih =>
    unfold plainBreaks
    split
    · exact h
    · extract_lets c₁
      split
      · exact ih (h.skipSpaces.lineBreak? ‹_›)
      · exact h.skipSpaces

/-- The blanks between words end at an end of the text. -/
theorem behind_plainGap (h : c.Behind text) : (plainGap c).2.2.Behind text := by
  unfold plainGap
  split
  rename_i blanks c₁ hspan
  have h₁ : c₁.Behind text := by
    rw [← (Prod.mk.inj hspan).2]
    exact h.span _
  split
  · rename_i b c₂ hbreak
    have h₂ := behind_plainBreaks (c₂.rest.length + 1) (h₁.lineBreak? hbreak)
    split
    · rename_i hbreaks
      rwa [hbreaks] at h₂
    · rename_i hbreaks
      rwa [hbreaks] at h₂
  · exact h₁

/-- Words and blanks take turns, and all of them end at an end of the text. -/
theorem behind_plainFrom (inFlow : Bool) (indent : Int) (fuel : Nat) (done gap : List Char)
    (newLine : Bool) (h : c.Behind text) :
    (plainFrom inFlow indent fuel done gap newLine c).2.2.Behind text := by
  induction fuel generalizing done gap newLine c with
  | zero => exact h
  | succ fuel ih =>
    unfold plainFrom
    split
    · exact h
    · have hword := behind_plainWord inFlow c.rest.length (gap.reverse ++ done) h
      have hgap := behind_plainGap hword
      simp only
      split
      · exact hgap
      · exact ih _ _ _ hgap

theorem behind_plainScalar (inFlow : Bool) (indent : Int) (h : c.Behind text) :
    (plainScalar inFlow indent c).2.2.Behind text :=
  behind_plainFrom _ _ _ _ _ _ h

/-! ### Block scalars -/

/-- A mark for the line ends behind a block scalar is one character. -/
theorem behind_chompingMark (h : c.Behind text) : (chompingMark c).2.Behind text := by
  unfold chompingMark
  split
  · exact h.next
  · exact h.next
  · exact h

/-- A mark for the depth of a block scalar is one digit. -/
theorem scans_indentMark (h : c.Behind text) : Scans text (indentMark c) := by
  unfold indentMark
  split
  · exact .ok h
  · exact scans_malformed _
  · exact .ok h.next

/-- The header of a block scalar ends with its line. -/
theorem yields_headerEnd {α : Type} (a : α) (h : c.Behind text) :
    Yields (Misspelt text) (fun found : α × Cursor ↦ found.2.Behind text)
      (if isStop c.peek then
        match c.endLine? with
        | some c => pure (a, c)
        | none => malformed .badBlockHeader
      else malformed .badBlockHeader) := by
  split
  · split
    · exact h.endLine? ‹_›
    · exact yields_malformed _
  · exact yields_malformed _

/-- The header of a block scalar ends at an end of the text. -/
theorem scans_blockHeader (h : c.Behind text) : Scans text (blockHeader c) := by
  unfold blockHeader
  have h₁ := behind_chompingMark h
  generalize chompingMark c = mark at *
  rcases mark with ⟨chomping, c₁⟩
  refine Yields.bind (scans_indentMark h₁) fun ⟨indent, c₂⟩ h₂ ↦ ?_
  rcases chomping with - | chomping
  · rcases indent with - | indent
    · exact yields_headerEnd _ h₂
    · exact yields_headerEnd _ (behind_chompingMark h₂)
  · exact yields_headerEnd _ h₂

/-- The empty lines in front of a block scalar end at an end of the text. -/
theorem behind_leadingLines (fuel widest : Nat) (h : c.Behind text) :
    (leadingLines fuel widest c).2.2.Behind text := by
  induction fuel generalizing widest c with
  | zero => exact h
  | succ fuel ih =>
    unfold leadingLines
    extract_lets c₁ widest₁
    split
    · exact ih _ (h.skipSpaces.lineBreak? ‹_›)
    · exact h.skipSpaces

theorem behind_blockBreaks (indent fuel : Nat) (h : c.Behind text) :
    (blockBreaks indent fuel c).2.Behind text := by
  induction fuel generalizing c with
  | zero => exact h
  | succ fuel ih =>
    unfold blockBreaks
    extract_lets c₁
    have h₁ : c₁.Behind text := h.skip _
    split
    · exact ih (h₁.lineBreak? ‹_›)
    · exact h₁

/-- The lines of a block scalar end at an end of the text. -/
theorem behind_blockLines (folded : Bool) (indent fuel : Nat) (done breaks : List Char)
    (h : c.Behind text) : (blockLines folded indent fuel done breaks c).2.2.2.Behind text := by
  induction fuel generalizing done breaks c with
  | zero => exact h
  | succ fuel ih =>
    unfold blockLines
    have h₁ := h.span fun a ↦ !isBreak a
    generalize (c.span fun a ↦ !isBreak a) = found at *
    rcases found with ⟨line, c₁⟩
    rcases hbreak : c₁.lineBreak? with - | ⟨b, c₂⟩
    · have h₂ := behind_blockBreaks indent (c₁.rest.length + 1) h₁
      simp only [hbreak]
      split
      · exact ih _ _ h₂
      · exact h₂
    · have h₂ := behind_blockBreaks indent (c₂.rest.length + 1) (h₁.lineBreak? hbreak)
      simp only [hbreak]
      split
      · exact ih _ _ h₂
      · exact h₂

theorem behind_blockText (folded : Bool) (indent fuel : Nat) (breaks : List Char)
    (h : c.Behind text) :
    (if inBlock indent c then blockLines folded indent fuel [] breaks c
      else ([], [], breaks, c)).2.2.2.Behind text := by
  split
  · exact behind_blockLines _ _ _ _ _ h
  · exact h

/-- A block scalar stands for its lines, so no part of it can be misspelt. -/
theorem scans_blockScalar (folded : Bool) (indent : Int) (h : c.Behind text) :
    Scans text (blockScalar folded indent c) := by
  unfold blockScalar
  refine Yields.bind (scans_blockHeader h) fun ⟨⟨chomping, step⟩, c₁⟩ h₁ ↦ ?_
  dsimp only at h₁ ⊢
  generalize c₁.rest.length + 1 = fuel
  rcases step with - | step
  · exact behind_blockText folded _ fuel _ (behind_leadingLines fuel 0 h₁)
  · exact behind_blockText folded _ fuel _ (behind_blockBreaks _ fuel h₁)

end RepoSurvey.Yaml
