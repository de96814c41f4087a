import RepoSurvey.Proofs.Imports.AliasFaults
import RepoSurvey.Proofs.Json.Reading

/-!
# What the clean-up does to JSON

Outside of strings a JSON document has nothing that looks like a comment, and no comma before a
closing bracket. So dropping comments leaves a document as it is (`stripChars_document`), while
dropping trailing commas may still change what stands in a string: a document keeps its commas
exactly if none of its strings has one that only blanks separate from a closing bracket
(`holdsTrailingComma_document`). Such a document is read as if there were no clean-up, whatever
line ends it has (`readFile_document`).
-/

namespace RepoSurvey.Imports

open Text Json

theorem ne_of_isSpace {c : Char} (h : isSpace c = true) : c ≠ '"' ∧ c ≠ '/' ∧ c ≠ ',' := by
  simp only [isSpace, Bool.or_eq_true, beq_iff_eq] at h
  rcases h with ((rfl | rfl) | rfl) | rfl <;> decide

theorem comma_not_mem {space : List Char} (h : IsSpace space) : ',' ∉ space :=
  fun hmem ↦ (ne_of_isSpace (h _ hmem)).2.2 rfl

/-! ### Comments -/

/-- Outside of strings a character is copied that begins neither a string nor a comment. -/
theorem stripFrom_plain_cons {c : Char} (hslash : c ≠ '/') (hquote : c ≠ '"') (cs : List Char) :
    stripFrom .plain (c :: cs) = c :: stripFrom .plain cs := by
  rw [stripFrom]
  · rw [if_neg hquote]
  · exact fun _ h _ ↦ hslash h
  · exact fun _ h _ ↦ hslash h

/-- So is a stretch of such characters. -/
theorem stripFrom_plain_append {text : List Char} (h : ∀ c ∈ text, c ≠ '"' ∧ c ≠ '/')
    (rest : List Char) : stripFrom .plain (text ++ rest) = text ++ stripFrom .plain rest := by
  induction text with
  | nil => rfl
  | cons c text ih =>
    obtain ⟨⟨hquote, hslash⟩, htext⟩ := List.forall_mem_cons.1 h
    rw [List.cons_append, stripFrom_plain_cons hslash hquote, ih htext, List.cons_append]

theorem stripFrom_bare {text : List Char} (h : Bare text) (rest : List Char) :
    stripFrom .plain (text ++ rest) = text ++ stripFrom .plain rest :=
  stripFrom_plain_append (fun c hc ↦ ⟨(h c hc).1, (h c hc).2.1⟩) rest

/-- Space is copied. -/
theorem stripFrom_space {space : List Char} (h : IsSpace space) (rest : List Char) :
    stripFrom .plain (space ++ rest) = space ++ stripFrom .plain rest :=
  stripFrom_plain_append
    (fun c hc ↦ ⟨(ne_of_isSpace (h c hc)).1, (ne_of_isSpace (h c hc)).2.1⟩) rest

theorem stripFrom_string_cons {c : Char} (hquote : c ≠ '"') (hslash : c ≠ '\\') (cs : List Char) :
    stripFrom .string (c :: cs) = c :: stripFrom .string cs := by
  rw [stripFrom]
  · rw [if_neg hquote]
  · exact fun _ _ h _ ↦ hslash h

/-- The body of a string is copied: each escape with the character behind it, so that no quote in it
ends the string. -/
theorem stripFrom_body {body : List Char} (h : IsBody body) (rest : List Char) :
    stripFrom .string (body ++ rest) = body ++ stripFrom .string rest := by
  induction h with
  | nil => rfl
  | plain hquote hslash _ _ ih =>
    rw [List.cons_append, stripFrom_string_cons hquote hslash, ih, List.cons_append]
  | escape _ _ ih => rw [List.cons_append, List.cons_append, stripFrom, ih]; rfl
  | @unit digits cs _ hdigits _ ih =>
    have hrun (digits : List Char) (hdigits : ∀ c ∈ digits, (hexDigit? c).isSome)
        (rest : List Char) :
        stripFrom .string (digits ++ rest) = digits ++ stripFrom .string rest := by
      induction digits with
      | nil => rfl
      | cons d digits ih =>
        obtain ⟨hd, hdigits⟩ := List.forall_mem_cons.1 hdigits
        have hquote : d ≠ '"' := by rintro rfl; exact absurd hd (by decide)
        have hslash : d ≠ '\\' := by rintro rfl; exact absurd hd (by decide)
        rw [List.cons_append, stripFrom_string_cons hquote hslash, ih hdigits, List.cons_append]
    rw [List.cons_append, List.cons_append, stripFrom, List.append_assoc, hrun digits hdigits, ih]
    simp

/-- A string is copied, whatever stands in it. -/
theorem stripFrom_quoted {body : List Char} (h : IsBody body) (rest : List Char) :
    stripFrom .plain ('"' :: (body ++ '"' :: rest)) =
      '"' :: (body ++ '"' :: stripFrom .plain rest) := by
  have hopen : stripFrom .plain ('"' :: (body ++ '"' :: rest)) =
      '"' :: stripFrom .string (body ++ '"' :: rest) := rfl
  have hclose : stripFrom .string ('"' :: rest) = '"' :: stripFrom .plain rest := rfl
  rw [hopen, stripFrom_body h, hclose]

/-- The name of a member is copied, with its colon. -/
theorem stripFrom_label {holder : Holder} {label : List Char} {names : List (List Char)}
    (h : Label holder label names) (rest : List Char) :
    stripFrom .plain (label ++ rest) = label ++ stripFrom .plain rest := by
  cases h with
  | item => rfl
  | name hbody hbefore hafter =>
    simp only [List.cons_append, List.append_assoc]
    rw [stripFrom_quoted hbody, stripFrom_space hbefore,
      stripFrom_plain_cons (by decide) (by decide), stripFrom_space hafter]

/-- Every part of a document is copied, by induction on how it is spelled. -/
theorem stripFrom_spelled {part : Part} {text : List Char} {strings : List (List Char)}
    (h : Spelled part text strings) (rest : List Char) :
    stripFrom .plain (text ++ rest) = text ++ stripFrom .plain rest := by
  induction h generalizing rest with
  | word h => exact stripFrom_bare (bare_of_mem_words h) rest
  | number h => exact stripFrom_bare h.bare rest
  | string h =>
    rw [List.cons_append, List.append_assoc, List.singleton_append, stripFrom_quoted h]
    simp
  | empty holder h =>
    simp only [List.cons_append, List.append_assoc, List.nil_append]
    cases holder <;>
      rw [stripFrom_plain_cons (by decide) (by decide), stripFrom_space h,
        stripFrom_plain_cons (by decide) (by decide)]
  | filled holder h _ ih =>
    simp only [List.cons_append, List.append_assoc, List.nil_append]
    cases holder <;>
      rw [stripFrom_plain_cons (by decide) (by decide), stripFrom_space h, ih,
        stripFrom_plain_cons (by decide) (by decide)]
  | last hlabel _ h ih =>
    simp only [List.append_assoc]
    rw [stripFrom_label hlabel, ih, stripFrom_space h]
  | more hlabel _ hbefore hafter _ ih ihrest =>
    simp only [List.append_assoc, List.cons_append]
    rw [stripFrom_label hlabel, ih, stripFrom_space hbefore,
      stripFrom_plain_cons (by decide) (by decide), stripFrom_space hafter, ihrest]

/-- A JSON document has no comments. -/
theorem stripChars_document {text : List Char} {strings : List (List Char)}
    (h : Document text strings) : stripChars text = text := by
  obtain ⟨hbefore, htext, hafter⟩ := h
  have hend := stripFrom_space hafter []
  rw [List.append_nil] at hend
  rw [stripChars, stripFrom_space hbefore, stripFrom_spelled htext, hend, stripFrom,
    List.append_nil]

/-! ### Trailing commas -/

/-- Only blanks stand between a comma and a closing bracket. -/
def HoldsTrailingComma (cs : List Char) : Prop :=
  ∃ front blanks bracket back, cs = front ++ ',' :: (blanks ++ bracket :: back) ∧
    (∀ c ∈ blanks, isBlank c = true) ∧ (bracket = '\x7d' ∨ bracket = ']')

section Commas

variable {c : Char} {cs rest : List Char}

theorem closesNext_cons_of_blank (h : isBlank c = true) (cs : List Char) :
    closesNext (c :: cs) = closesNext cs := by
  rw [closesNext, closesNext, List.dropWhile_cons_of_pos h]

/-- The first character that is no blank tells whether a bracket closes next. -/
theorem closesNext_cons (h : isBlank c = false) (cs : List Char) :
    closesNext (c :: cs) = (c == '\x7d' || c == ']') := by
  rw [closesNext, List.dropWhile_cons_of_neg (by simp [h])]

/-- A bracket closes next if only blanks stand in front of it. -/
theorem closesNext_iff : closesNext cs = true ↔ ∃ blanks bracket back,
    cs = blanks ++ bracket :: back ∧ (∀ c ∈ blanks, isBlank c = true) ∧
      (bracket = '\x7d' ∨ bracket = ']') := by
  constructor
  · intro h
    rw [closesNext] at h
    split at h
    · rename_i bracket back hdrop
      refine ⟨cs.takeWhile isBlank, bracket, back, ?_, fun _ ↦ List.mem_takeWhile_imp, ?_⟩
      · rw [← hdrop, List.takeWhile_append_dropWhile]
      · simpa using h
    · cases h
  · rintro ⟨blanks, bracket, back, rfl, hblanks, hbracket⟩
    have hbracket' : isBlank bracket = false := by rcases hbracket with rfl | rfl <;> decide
    rw [closesNext, List.dropWhile_append_of_pos hblanks,
      List.dropWhile_cons_of_neg (by simp [hbracket'])]
    simpa using hbracket

theorem not_holdsTrailingComma_nil : ¬HoldsTrailingComma [] := by
  rintro ⟨front, blanks, bracket, back, h, -⟩
  simp at h

/-- A trailing comma stands at the front, or behind it. -/
theorem holdsTrailingComma_cons : HoldsTrailingComma (c :: cs) ↔
    (c = ',' ∧ closesNext cs = true) ∨ HoldsTrailingComma cs := by
  constructor
  · rintro ⟨- | ⟨d, front⟩, blanks, bracket, back, h, hblanks, hbracket⟩
    · obtain ⟨rfl, rfl⟩ := List.cons.inj h
      exact .inl ⟨rfl, closesNext_iff.2 ⟨blanks, bracket, back, rfl, hblanks, hbracket⟩⟩
    · obtain ⟨rfl, rfl⟩ := List.cons.inj h
      exact .inr ⟨front, blanks, bracket, back, rfl, hblanks, hbracket⟩
  · rintro (⟨rfl, hcloses⟩ | ⟨front, blanks, bracket, back, rfl, hblanks, hbracket⟩)
    · obtain ⟨blanks, bracket, back, rfl, hblanks, hbracket⟩ := closesNext_iff.1 hcloses
      exact ⟨[], blanks, bracket, back, rfl, hblanks, hbracket⟩
    · exact ⟨c :: front, blanks, bracket, back, rfl, hblanks, hbracket⟩

/-- Nothing but commas goes. -/
theorem dropTrailingCommas_sublist (cs : List Char) : (dropTrailingCommas cs).Sublist cs := by
  induction cs with
  | nil => exact .slnil
  | cons c cs ih =>
    rw [dropTrailingCommas]
    split
    · exact ih.cons c
    · exact ih.cons_cons c

/-- Only a text with a trailing comma is changed. -/
theorem dropTrailingCommas_eq_self_iff : dropTrailingCommas cs = cs ↔ ¬HoldsTrailingComma cs := by
  induction cs with
  | nil => exact iff_of_true rfl not_holdsTrailingComma_nil
  | cons c cs ih =>
    rw [holdsTrailingComma_cons, not_or, ← ih, dropTrailingCommas]
    split
    · rename_i h
      refine iff_of_false (fun heq ↦ ?_) fun hnot ↦ hnot.1 h
      have hlength := (dropTrailingCommas_sublist cs).length_le
      rw [heq, List.length_cons] at hlength
      omega
    · rename_i h
      simp [h]

theorem holdsTrailingComma_cons_of_ne (h : c ≠ ',') :
    HoldsTrailingComma (c :: cs) ↔ HoldsTrailingComma cs := by
  simp [holdsTrailingComma_cons, h]

/-- A stretch without commas holds no trailing one. -/
theorem holdsTrailingComma_append_of_not_mem {text : List Char} (h : ',' ∉ text) :
    HoldsTrailingComma (text ++ rest) ↔ HoldsTrailingComma rest := by
  induction text with
  | nil => rfl
  | cons c text ih =>
    rw [List.mem_cons, not_or] at h
    rw [List.cons_append, holdsTrailingComma_cons_of_ne (Ne.symm h.1), ih h.2]

/-- In front of a quote, whether a bracket closes next is told by what stands before the quote: a
quote is no bracket. -/
theorem closesNext_quoted (body rest : List Char) :
    closesNext (body ++ '"' :: rest) = closesNext body := by
  induction body with
  | nil => rfl
  | cons c body ih =>
    rw [List.cons_append]
    rcases hblank : isBlank c with - | -
    · rw [closesNext_cons hblank, closesNext_cons hblank]
    · rw [closesNext_cons_of_blank hblank, closesNext_cons_of_blank hblank, ih]

/-- What closes a comma in a string stands in the string. -/
theorem holdsTrailingComma_quoted (body rest : List Char) :
    HoldsTrailingComma (body ++ '"' :: rest) ↔
      HoldsTrailingComma body ∨ HoldsTrailingComma rest := by
  induction body with
  | nil =>
    rw [List.nil_append, holdsTrailingComma_cons_of_ne (by decide)]
    simp [not_holdsTrailingComma_nil]
  | cons c body ih =>
    rw [List.cons_append, holdsTrailingComma_cons, holdsTrailingComma_cons, ih, closesNext_quoted,
      or_assoc]

/-- A comma between two entries is not in front of a closing bracket. -/
theorem holdsTrailingComma_separator {space text : List Char} (hspace : IsSpace space)
    (hstarts : Starts text) : HoldsTrailingComma (',' :: (space ++ (text ++ rest))) ↔
      HoldsTrailingComma (text ++ rest) := by
  have hblank : ∀ c ∈ space, isBlank c = true := by
    intro c hc
    have hc := hspace c hc
    simp only [isSpace, Bool.or_eq_true, beq_iff_eq] at hc
    rcases hc with ((rfl | rfl) | rfl) | rfl <;> decide
  have hcloses : closesNext (space ++ (text ++ rest)) = false := by
    obtain ⟨c, cs, rfl, -, hc, hbracket, hbrace⟩ := hstarts
    rw [closesNext, List.dropWhile_append_of_pos hblank, List.cons_append,
      List.dropWhile_cons_of_neg (by simp [hc])]
    simp [hbracket, hbrace]
  rw [holdsTrailingComma_cons, hcloses, holdsTrailingComma_append_of_not_mem (comma_not_mem hspace)]
  simp

end Commas

/-- The name of a member has a trailing comma only inside. -/
theorem holdsTrailingComma_label {holder : Holder} {label : List Char} {names : List (List Char)}
    (h : Label holder label names) (rest : List Char) :
    HoldsTrailingComma (label ++ rest) ↔
      (∃ body ∈ names, HoldsTrailingComma body) ∨ HoldsTrailingComma rest := by
  cases h with
  | item => simp
  | name hbody hbefore hafter =>
    simp only [List.cons_append, List.append_assoc]
    rw [holdsTrailingComma_cons_of_ne (by decide), holdsTrailingComma_quoted,
      holdsTrailingComma_append_of_not_mem (comma_not_mem hbefore),
      holdsTrailingComma_cons_of_ne (by decide),
      holdsTrailingComma_append_of_not_mem (comma_not_mem hafter)]
    simp

/-- The only trailing commas of a part are those inside of its strings. The induction is on how the
part is spelled. -/
theorem holdsTrailingComma_spelled {part : Part} {text : List Char} {strings : List (List Char)}
    (h : Spelled part text strings) (rest : List Char) :
    HoldsTrailingComma (text ++ rest) ↔
      (∃ body ∈ strings, HoldsTrailingComma body) ∨ HoldsTrailingComma rest := by
  induction h generalizing rest with
  | word h =>
    rw [holdsTrailingComma_append_of_not_mem fun hmem ↦ (bare_of_mem_words h _ hmem).2.2.1 rfl]
    simp
  | number h =>
    rw [holdsTrailingComma_append_of_not_mem fun hmem ↦ (h.bare _ hmem).2.2.1 rfl]
    simp
  -- no bracket can close behind the quote that ends a string
  | string h =>
    rw [List.cons_append, List.append_assoc, List.singleton_append,
      holdsTrailingComma_cons_of_ne (by decide), holdsTrailingComma_quoted]
    simp
  | empty holder h =>
    simp only [List.cons_append, List.append_assoc, List.nil_append]
    cases holder <;>
      rw [holdsTrailingComma_cons_of_ne (by decide),
        holdsTrailingComma_append_of_not_mem (comma_not_mem h),
        holdsTrailingComma_cons_of_ne (by decide)] <;> simp
  | filled holder h _ ih =>
    simp only [List.cons_append, List.append_assoc, List.nil_append]
    cases holder <;>
      rw [holdsTrailingComma_cons_of_ne (by decide),
        holdsTrailingComma_append_of_not_mem (comma_not_mem h), ih,
        holdsTrailingComma_cons_of_ne (by decide)]
  | last hlabel _ h ih =>
    simp only [List.append_assoc]
    rw [holdsTrailingComma_label hlabel, ih,
      holdsTrailingComma_append_of_not_mem (comma_not_mem h)]
    simp [or_and_right, exists_or, or_assoc]
  -- a comma between entries is no trailing one, since an entry starts behind it
  | more hlabel _ hbefore hafter hothers ih ihothers =>
    simp only [List.append_assoc, List.cons_append]
    rw [holdsTrailingComma_label hlabel, ih,
      holdsTrailingComma_append_of_not_mem (comma_not_mem hbefore),
      holdsTrailingComma_separator hafter hothers.starts, ihothers]
    simp [or_and_right, exists_or, or_assoc]

/-- A JSON document has a trailing comma exactly if one of its strings has. -/
theorem holdsTrailingComma_document {text : List Char} {strings : List (List Char)}
    (h : Document text strings) :
    HoldsTrailingComma text ↔ ∃ body ∈ strings, HoldsTrailingComma body := by
  obtain @⟨before, text, after, _, hbefore, htext, hafter⟩ := h
  have hend : ¬HoldsTrailingComma after := by
    rw [← List.append_nil after, holdsTrailingComma_append_of_not_mem (comma_not_mem hafter)]
    exact not_holdsTrailingComma_nil
  rw [holdsTrailingComma_append_of_not_mem (comma_not_mem hbefore),
    holdsTrailingComma_spelled htext]
  simp [hend]

/-! ### Reading a document -/

/-- A text with an object at its root that the clean-up leaves alone is read as it is parsed. -/
theorem readMembers_of_cleaned {text : List Char} (hclean : cleaned text = text)
    (hroot : (skipSpace text).head? = some '\x7b') {value : Option Json}
    (h : Settles (parse text) value) :
    (∃ members, value = some (.obj members) ∧
      Imports.readMembers text = .ok (some members)) ∨
      (value = none ∧ ∃ fault, Imports.readMembers text = .error fault) := by
  rw [Imports.readMembers, show dropTrailingCommas (stripChars text) = text from hclean]
  cases value with
  | none =>
    obtain ⟨fault, hparse, hproblem⟩ := h
    refine .inr ⟨rfl, ?refusal, ?read⟩
    case read =>
      rw [hparse]
      exact if_pos hproblem
  | some value =>
    obtain ⟨members, rfl⟩ := obj_of_parse hroot h
    refine .inl ⟨members, rfl, ?_⟩
    rw [show parse text = _ from h]

/-- A file that holds a JSON document with an object at its root, and no string with a trailing
comma, is read as the document is parsed, whatever line ends it has: both give the same object, or
both refuse a whole number that is too long. The clean-up of a document never drops a comment, and
it drops a comma exactly if a string has a trailing one. -/
theorem readFile_document {files : FileTree} {path : String} {text : List Char}
    {strings : List (List Char)} (h : Document text strings)
    (hfile : files.readText path = .ok (String.ofList (readLines text))) :
    stripChars text = text ∧
    (dropTrailingCommas text = text ↔ ∀ body ∈ strings, ¬HoldsTrailingComma body) ∧
    ((skipSpace text).head? = some '\x7b' → (∀ body ∈ strings, ¬HoldsTrailingComma body) →
      (∃ members, parse text = .ok (.obj members) ∧ readFile files path = .ok (some members)) ∨
      (∃ fault refusal, parse text = .error fault ∧ fault.problem = .hugeInteger ∧
        readFile files path = .error refusal)) := by
  have hcommas : dropTrailingCommas text = text ↔ ∀ body ∈ strings, ¬HoldsTrailingComma body := by
    rw [dropTrailingCommas_eq_self_iff, holdsTrailingComma_document h]
    simp
  refine ⟨stripChars_document h, hcommas, fun hroot hstrings ↦ ?_⟩
  obtain ⟨hlines, value, hvalue, hvalue'⟩ := parse_document h
  have hclean : cleaned (readLines text) = readLines text := by
    rw [cleaned, stripChars_document hlines, dropTrailingCommas_eq_self_iff,
      holdsTrailingComma_document hlines]
    simpa using hstrings
  have hread : readFile files path = Imports.readMembers (readLines text) := by
    rw [readFile, hfile]
    simp only [String.toList_ofList]
  rw [hread]
  rcases readMembers_of_cleaned hclean ((head?_skipSpace_readLines text).trans hroot) hvalue' with
    ⟨members, rfl, hmembers⟩ | ⟨rfl, refusal, hrefusal⟩
  · exact .inl ⟨members, hvalue, hmembers⟩
  · obtain ⟨fault, hfault, hproblem⟩ := hvalue
    exact .inr ⟨fault, refusal, hfault, hproblem, hrefusal⟩

/-- An object over two lines, with a comma in a name. -/
def twoLines : String := "\x7b\"a, b\": [1,\r\n true]\x7d"

/-- A tree with one project file, of two lines. -/
def twoLineTree : FileTree :=
  .dir [("repo", .dir [("tsconfig.json", .file twoLines.toUTF8.toList)])]

/-- The text is a document, with one string in it. -/
theorem document_twoLines : Document twoLines.toList ["a, b".toList] := by
  have hname :
      Label .object ('"' :: ("a, b".toList ++ '"' :: ([] ++ ':' :: [' ']))) ["a, b".toList] :=
    .name (.plain (by decide) (by decide) (by decide) (.plain (by decide) (by decide) (by decide)
      (.plain (by decide) (by decide) (by decide)
        (.plain (by decide) (by decide) (by decide) .nil))))
      (by simp [IsSpace]) (by simp [IsSpace]; rfl)
  have hdigits : IsDigits ['1'] := ⟨List.cons_ne_nil _ _, List.forall_mem_singleton.2 rfl⟩
  have hone : Spelled .value (['1'] ++ ([] ++ [])) [] :=
    .number (.positive (.mk (.digits hdigits (by decide)) .absent .absent))
  have htrue : Spelled .value "true".toList [] := .word (by decide)
  have hnone : IsSpace [] := by simp [IsSpace]
  have hline : IsSpace ['\r', '\n', ' '] := List.all_eq_true.1 rfl
  have hitems := Spelled.filled .array hnone
    (.more .item hone hnone hline (.last .item htrue hnone))
  exact .mk hnone (.filled .object hnone (.last hname hitems hnone)) hnone

theorem readText_twoLineTree : twoLineTree.readText "/repo/tsconfig.json" =
    .ok (String.ofList (readLines twoLines.toList)) := by
  have hresolve : twoLineTree.resolve "/repo/tsconfig.json" = some ["repo", "tsconfig.json"] :=
    FileTree.resolve_of_at? (by decide) rfl rfl (by decide) (by decide +kernel)
      (by decide +kernel) (by decide +kernel)
  have hplace :
      twoLineTree.at? ["repo", "tsconfig.json"] = some (.file twoLines.toUTF8.toList) := rfl
  have hdecode : decode? twoLines.toUTF8.toList = some twoLines.toList := by decide +kernel
  rw [FileTree.readText, FileTree.locate_eq_ok_iff.2 hresolve]
  simp only [hplace, hdecode]

/-- Neither the comma in a name nor the line end between two items changes what is read. -/
theorem readFile_document_twoLineTree :
    (∀ body ∈ ["a, b".toList], ¬HoldsTrailingComma body) ∧
      ∃ members, parse twoLines.toList = .ok (.obj members) ∧
        readFile twoLineTree "/repo/tsconfig.json" = .ok (some members) := by
  have hstrings : ∀ body ∈ ["a, b".toList], ¬HoldsTrailingComma body := by
    simp only [List.mem_singleton, forall_eq, ← dropTrailingCommas_eq_self_iff]
    decide
  have hshort : (parse twoLines.toList).isOk = true := by decide +kernel
  obtain ⟨-, -, hread⟩ := readFile_document document_twoLines readText_twoLineTree
  rcases hread (by decide +kernel) hstrings with hsame | ⟨fault, refusal, hfault, -⟩
  · exact ⟨hstrings, hsame⟩
  · rw [hfault] at hshort
    cases hshort

end RepoSurvey.Imports
