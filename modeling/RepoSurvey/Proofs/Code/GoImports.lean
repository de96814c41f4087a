import RepoSurvey.Proofs.Code.Patterns

/-!
# Imports of Go sources

A `GoSource` is a package clause with import declarations below it: single ones and groups, with
blanks between all tokens as they may stand there. Its imports are the paths of the single
declarations, then those of the groups (`go_imports_exact`). Of the single declarations this takes
those in which blanks set the tokens off from each other. `import"fmt"` is one without them, which
no pattern reads.

Two patterns go over the same text. Each passes the tokens of what it does not read one by one, and
none of these is the word `import` at the beginning of a line (`captures_specs`). A group is read by
its own pattern as a whole and by the other one token by token, so no path is found twice.
-/

namespace RepoSurvey.Code

open RepoSurvey.Text RepoSurvey.Text.Pattern

/-! ### Sources -/

/-- The name that an import gives to a package: a point, or a word other than `import`. -/
def IsLocalName (name : List Char) : Prop :=
  name = ['.'] ∨ name ≠ [] ∧ (∀ c ∈ name, isWord c = true) ∧ name ≠ "import".toList

/-- What is imported: a path in quotes, perhaps with a name and a gap in front of it. -/
structure ImportSpec where
  localName : Option (List Char × List Char) := none
  path : List Char
  isLocalName : ∀ a ∈ localName, IsLocalName a.1 ∧ IsGap a.2
  path_ne_nil : path ≠ []
  isPlain : ∀ c ∈ path, c ≠ '"' ∧ c ≠ '\n' ∧ c ≠ ')'

namespace ImportSpec

/-- A path in quotes. -/
def quotedPath (s : ImportSpec) : List Char := '"' :: (s.path ++ ['"'])

/-- The written form. -/
def text (s : ImportSpec) : List Char := s.localName.elim [] (fun a ↦ a.1 ++ a.2) ++ s.quotedPath

/-- Blanks stand between the name and the path. -/
def IsSetOff (s : ImportSpec) : Prop := ∀ a ∈ s.localName, a.2 ≠ []

instance : DecidablePred IsSetOff := fun s ↦
  inferInstanceAs (Decidable (∀ a ∈ s.localName, a.2 ≠ []))

end ImportSpec

/-- An import declaration: the word `import`, and behind a gap one spec, or specs between
parentheses, each behind a gap. In a source the gaps in front of the specs of a group hold line
ends; nothing here depends on it. -/
inductive ImportDecl where
  | single (gap : List Char) (spec : ImportSpec)
  | group (gap : List Char) (specs : List (List Char × ImportSpec)) (back : List Char)

namespace ImportDecl

/-- What stands behind the word `import`. -/
def tail : ImportDecl → List Char
  | single gap spec => gap ++ spec.text
  | group gap specs back => gap ++ '(' :: (specs.flatMap (fun s ↦ s.1 ++ s.2.text) ++ back ++ [')'])

/-- The written form. -/
def text (d : ImportDecl) : List Char := "import".toList ++ d.tail

/-- Gaps are gaps, and the word `import` ends where it should. -/
def IsProper (d : ImportDecl) : Prop :=
  (∀ c ∈ d.tail.head?, isWord c = false) ∧
    match d with
    | single gap _ => IsGap gap
    | group gap specs back => IsGap gap ∧ (∀ s ∈ specs, IsGap s.1) ∧ IsGap back

/-- The path of a single declaration in which blanks set off all tokens. -/
def singlePath? : ImportDecl → Option (List Char)
  | single gap spec => if gap ≠ [] ∧ spec.IsSetOff then some spec.path else none
  | group .. => none

/-- The paths in a group. -/
def groupPaths : ImportDecl → List (List Char)
  | single .. => []
  | group _ specs _ => specs.map fun s ↦ s.2.path

end ImportDecl

/-- A package clause on a line of its own, and import declarations that begin on lines below it. -/
structure GoSource where
  front : List Char := []
  gap : List Char
  package : List Char
  decls : List (List Char × ImportDecl)
  back : List Char := []
  isGap_front : IsGap front
  isGap_gap : IsGap gap ∧ gap ≠ [] ∧ '\n' ∉ gap
  isPackage : package ≠ [] ∧ ∀ c ∈ package, isWord c = true
  isProper : ∀ d ∈ decls, IsGap d.1 ∧ '\n' ∈ d.1 ∧ d.2.IsProper
  isGap_back : IsGap back

namespace GoSource

/-- The written form. -/
def text (s : GoSource) : List Char :=
  s.front ++ (("package".toList ++ s.gap ++ s.package) ++
    (s.decls.flatMap (fun d ↦ d.1 ++ d.2.text) ++ s.back))

/-- The paths of the single declarations in which blanks set off all tokens. -/
def singlePaths (s : GoSource) : List (List Char) := s.decls.filterMap fun d ↦ d.2.singlePath?

/-- The paths in the groups. -/
def groupPaths (s : GoSource) : List (List Char) := s.decls.flatMap fun d ↦ d.2.groupPaths

end GoSource

/-! ### Tokens -/

/-- A text that begins with no word character begins with no word. -/
theorem takeWhile_isWord_eq_nil {text : List Char} (h : ∀ c ∈ text.head?, isWord c = false) :
    text.takeWhile isWord = [] := by
  cases text with
  | nil => rfl
  | cons c text => exact List.takeWhile_cons_of_neg (by simp [h c rfl])

theorem newline_not_mem_of_isWord {word : List Char} (h : ∀ c ∈ word, isWord c = true) :
    '\n' ∉ word := fun hmem ↦ absurd (h '\n' hmem) (by decide)

namespace IsLocalName

variable {name : List Char} (h : IsLocalName name)
include h

theorem ne_nil : name ≠ [] := by
  rcases h with rfl | ⟨hne, -⟩
  · exact List.cons_ne_nil _ _
  · exact hne

/-- A local name consists of characters that the pattern takes for a name. -/
theorem isPathPart : ∀ c ∈ name, isPathPart c = true := by
  rcases h with rfl | ⟨-, hword, -⟩
  · exact List.all_eq_true.1 (by decide)
  · exact fun c hc ↦ isPathPart_of_isWord (hword c hc)

theorem isBlank_head : ∀ c ∈ name.head?, isBlank c = false := fun c hc ↦
  isBlank_eq_false_of_isPathPart (h.isPathPart c (List.mem_of_head? hc))

theorem not_mem {c : Char} (hc : Code.isPathPart c = false) : c ∉ name := fun hmem ↦ by
  rw [h.isPathPart c hmem] at hc
  exact Bool.false_ne_true hc.symm

/-- No name is the word `import`. -/
theorem takeWhile_ne {rest : List Char} (hrest : ∀ c ∈ rest.head?, isWord c = false) :
    (name ++ rest).takeWhile isWord ≠ "import".toList := by
  rcases h with rfl | ⟨-, hword, hne⟩
  · have hpoint : ∀ c ∈ (['.'] ++ rest).head?, isWord c = false := by
      rintro c ⟨⟩
      decide
    rw [takeWhile_isWord_eq_nil hpoint]
    decide
  · rwa [(takeWhile_dropWhile_append hword hrest).1]

end IsLocalName

/-- The written form of a single declaration, cut at its tokens. -/
theorem ImportDecl.text_single_append (gap : List Char) (s : ImportSpec) (rest : List Char) :
    (single gap s).text ++ rest = "import".toList ++ (gap ++ (s.text ++ rest)) := by
  rw [← List.append_assoc gap, ← List.append_assoc]
  rfl

/-- The written form of a group, cut at its tokens. -/
theorem ImportDecl.text_group (gap : List Char) (specs : List (List Char × ImportSpec))
    (back : List Char) :
    (group gap specs back).text = "import".toList ++ (gap ++ (['('] ++
      ((specs.flatMap (fun s ↦ s.1 ++ s.2.text) ++ back) ++ [')']))) := rfl

theorem ImportSpec.newline_not_mem_quotedPath (s : ImportSpec) : '\n' ∉ s.quotedPath := by
  have hpath : '\n' ∉ s.path := fun hmem ↦ (s.isPlain '\n' hmem).2.1 rfl
  simp [quotedPath, hpath]

/-- What a spec begins with: a word character, a point or a quote. -/
theorem ImportSpec.head?_text (s : ImportSpec) :
    ∀ c ∈ s.text.head?, isBlank c = false ∧ c ≠ '(' := by
  intro c hc
  rcases hname : s.localName with - | ⟨name, gap⟩
  · have hquote : c = '"' := by simpa [text, quotedPath, hname, eq_comm] using hc
    rw [hquote]
    decide
  · have hlocal := (s.isLocalName _ hname).1
    have hhead : c ∈ name.head? := by
      rw [text, hname] at hc
      obtain ⟨d, name, rfl⟩ := List.exists_cons_of_ne_nil hlocal.ne_nil
      exact hc
    refine ⟨hlocal.isBlank_head c hhead, ?_⟩
    rintro rfl
    exact hlocal.not_mem (by decide) (List.mem_of_head? hhead)

theorem ImportSpec.text_ne_nil (s : ImportSpec) : s.text ≠ [] := by
  simp [text, quotedPath]

/-- A spec begins neither with a blank nor with a parenthesis, whatever follows it. -/
theorem ImportSpec.head?_text_append (s : ImportSpec) (rest : List Char) :
    ∀ c ∈ (s.text ++ rest).head?, isBlank c = false ∧ c ≠ '(' := by
  rw [List.head?_append, Option.or_of_isSome (by simpa using s.text_ne_nil)]
  exact s.head?_text

/-! ### Passing tokens -/

section Passing

variable {pattern : Pattern} (r : Headed "import".toList pattern)
include r

/-- The word is passed where the pattern does not read what stands behind it. -/
theorem captures_word (before : Option Char) {gap rest : List Char} (hgap : IsGap gap)
    (hmiss : Misses (literal "import".toList ++ r.tail) ("import".toList ++ rest)) :
    capturesFrom pattern 0 before (gap ++ ("import".toList ++ rest)) =
      capturesFrom pattern 0 "import".toList.getLast? rest :=
  r.anchored.captures_pass before hgap (by decide) isBlank_head_import (by decide) hmiss

/-- A token that is no word is passed. -/
theorem captures_mark (before : Option Char) {gap token : List Char} (hgap : IsGap gap)
    (hne : token ≠ []) (hhead : ∀ c ∈ token.head?, isBlank c = false ∧ isWord c = false)
    (hline : '\n' ∉ token) (rest : List Char) :
    capturesFrom pattern 0 before (gap ++ (token ++ rest)) =
      capturesFrom pattern 0 token.getLast? rest := by
  refine r.anchored.captures_pass before hgap hne (fun c hc ↦ (hhead c hc).1) hline (r.misses ?_)
  obtain ⟨c, token, rfl⟩ := List.exists_cons_of_ne_nil hne
  have hnone : (c :: token ++ rest).takeWhile isWord = [] :=
    takeWhile_isWord_eq_nil fun d hd ↦ (hhead d hd).2
  rw [hnone]
  decide

/-- A spec is passed, with the blanks in front of it. -/
theorem captures_spec (before : Option Char) {gap : List Char} (hgap : IsGap gap) (s : ImportSpec)
    (rest : List Char) :
    capturesFrom pattern 0 before (gap ++ (s.text ++ rest)) =
      capturesFrom pattern 0 (some '"') rest := by
  have hquote : ∀ c ∈ s.quotedPath.head?, isBlank c = false ∧ isWord c = false := by
    rintro c ⟨⟩
    decide
  have hlast : s.quotedPath.getLast? = some '"' := by
    rw [ImportSpec.quotedPath, ← List.cons_append, List.getLast?_concat]
  have hpath (before : Option Char) {gap : List Char} (hgap : IsGap gap) :
      capturesFrom pattern 0 before (gap ++ (s.quotedPath ++ rest)) =
        capturesFrom pattern 0 (some '"') rest := by
    have hne : s.quotedPath ≠ [] := List.cons_ne_nil _ _
    rw [captures_mark r before hgap hne hquote s.newline_not_mem_quotedPath rest, hlast]
  rcases hname : s.localName with - | ⟨name, space⟩
  · rw [ImportSpec.text, hname]
    exact hpath before hgap
  · obtain ⟨hlocal, hspace⟩ := s.isLocalName _ hname
    -- behind the name comes a blank or a quote
    have hafter : ∀ c ∈ (space ++ (s.quotedPath ++ rest)).head?, isWord c = false := by
      intro c hc
      rcases space with - | ⟨b, space⟩
      · exact (hquote c hc).2
      · obtain rfl : b = c := by simpa using hc
        exact isWord_eq_false_of_isBlank (hspace b List.mem_cons_self)
    have htext : s.text ++ rest = name ++ (space ++ (s.quotedPath ++ rest)) := by
      simp [ImportSpec.text, hname]
    rw [htext, r.anchored.captures_pass before hgap hlocal.ne_nil hlocal.isBlank_head
      (hlocal.not_mem (by decide)) (r.misses (hlocal.takeWhile_ne hafter)), hpath _ hspace]

/-- Specs are passed, with the gaps in front of them: none of them begins a line with the word
`import`. -/
theorem captures_specs {specs : List (List Char × ImportSpec)} (hspecs : ∀ s ∈ specs, IsGap s.1)
    (before : Option Char) (rest : List Char) :
    ∃ last, capturesFrom pattern 0 before (specs.flatMap (fun s ↦ s.1 ++ s.2.text) ++ rest) =
      capturesFrom pattern 0 last rest := by
  induction specs generalizing before with
  | nil => exact ⟨before, rfl⟩
  | cons s specs ih =>
    obtain ⟨hs, hspecs⟩ := List.forall_mem_cons.1 hspecs
    obtain ⟨last, hlast⟩ := ih hspecs (some '"')
    refine ⟨last, ?_⟩
    rw [List.flatMap_cons, List.append_assoc, List.append_assoc, captures_spec r before hs, hlast]

end Passing

/-! ### Single declarations -/

/-- What the pattern for single imports reads behind the word `import`. -/
def singleTail : Pattern :=
  blanks1 ++ (optional (many1 isPathPart ++ blanks1) ++ doubleQuoted)

/-- The pattern for single imports. -/
def singleImport : Pattern :=
  lineStart ++ blanks ++ "import" ++ blanks1 ++ optional (many1 isPathPart ++ blanks1) ++
    doubleQuoted

theorem shuns_doubleQuoted {p : Char → Bool} (h : p '"' = false) : Shuns p doubleQuoted :=
  ((shuns_literal h []).append (group (many1 (isNone ['"', '\n'])))).append (literal ['"'])

theorem shuns_named_path : Shuns isBlank (optional (many1 isPathPart ++ blanks1) ++ doubleQuoted) :=
  (shuns_doubleQuoted (by decide)).optional_append
    ((shuns_many1 fun _ h ↦ isPathPart_eq_false_of_isBlank h).append blanks1)

/-- The pattern for single imports reads lines with the word `import`. -/
def readsSingle : Headed "import".toList singleImport where
  tail := singleTail
  anchored := {
    fit_eq := fun _ ↦ rfl
    shuns := shuns_import singleTail }
  isRun := isWord_import
  shuns := (shuns_many1 fun _ h ↦ isBlank_eq_false_of_isWord h).append _

/-- A quoted path is read up to the second quote. -/
theorem reads_doubleQuoted (s : ImportSpec) (rest : List Char) :
    Reads doubleQuoted s.quotedPath rest s.path := by
  have hpath : ∀ c ∈ s.path, isNone ['"', '\n'] c = true := fun c hc ↦ by
    simp [isNone, s.isPlain c hc]
  have hquote : ∀ c ∈ (['"'] ++ rest).head?, isNone ['"', '\n'] c = false := by
    rintro c ⟨⟩
    decide
  have hgroup := (takes_many1 s.path_ne_nil hpath hquote).group.append (takes_literal ['"'] rest)
  exact (takes_literal ['"'] ((s.path ++ ['"']) ++ rest)).reads_append hgroup

/-- Where no quote stands, no path is read. -/
theorem misses_doubleQuoted {text : List Char} (h : text.head? ≠ some '"') :
    Misses doubleQuoted text := by
  have hquote : ¬['"'] <+: text := by
    rintro ⟨rest, rfl⟩
    exact h rfl
  exact ((misses_literal hquote).append (group (many1 (isNone ['"', '\n'])))).append (literal ['"'])

/-- A single declaration is read if blanks set off its tokens. -/
theorem reads_single {gap : List Char} (hgap : IsGap gap) (hne : gap ≠ []) {s : ImportSpec}
    (hset : s.IsSetOff) (rest : List Char) :
    Reads (literal "import".toList ++ singleTail) ("import".toList ++ (gap ++ s.text)) rest
      s.path := by
  have hhead : ∀ c ∈ (s.text ++ rest).head?, isBlank c = false := fun c hc ↦
    (s.head?_text_append rest c hc).1
  have hquote : ∀ c ∈ (s.quotedPath ++ rest).head?, isPathPart c = false ∧ isBlank c = false := by
    rintro c ⟨⟩
    decide
  refine (takes_literal _ _).reads_append ((takes_many1 hne hgap hhead).reads_append ?_)
  rcases hname : s.localName with - | ⟨name, space⟩
  · have htext : s.text = [] ++ s.quotedPath := by simp [ImportSpec.text, hname]
    have hmiss : Misses (many1 isPathPart ++ blanks1) (s.quotedPath ++ rest) :=
      (misses_many1 fun c hc ↦ (hquote c hc).1).append blanks1
    rw [htext]
    exact hmiss.takes_optional.reads_append (reads_doubleQuoted s rest)
  · obtain ⟨hlocal, hspace⟩ := s.isLocalName _ hname
    have htext : s.text = (name ++ space) ++ s.quotedPath := by simp [ImportSpec.text, hname]
    have hblank : ∀ c ∈ (space ++ (s.quotedPath ++ rest)).head?, isPathPart c = false := by
      obtain ⟨b, space, rfl⟩ := List.exists_cons_of_ne_nil (hset _ hname)
      rintro c ⟨⟩
      exact isPathPart_eq_false_of_isBlank (hspace b List.mem_cons_self)
    -- the name ends at the blanks that set it off
    have htake := (takes_many1 hlocal.ne_nil hlocal.isPathPart hblank).append
      (takes_many1 (hset _ hname) hspace fun c hc ↦ (hquote c hc).2)
    rw [htext]
    exact htake.optional.reads_append (reads_doubleQuoted s rest)

/-- Without blanks between its tokens, a single declaration is not read. -/
theorem misses_single {gap : List Char} (hgap : IsGap gap) {s : ImportSpec}
    (htight : ¬(gap ≠ [] ∧ s.IsSetOff)) (rest : List Char) :
    Misses (literal "import".toList ++ singleTail)
      ("import".toList ++ (gap ++ (s.text ++ rest))) := by
  have hhead : ∀ c ∈ (s.text ++ rest).head?, isBlank c = false := fun c hc ↦
    (s.head?_text_append rest c hc).1
  refine Misses.literal_append ?_ _
  by_cases hne : gap = []
  · subst hne
    exact (misses_many1 hhead).append _
  · -- the quote stands right behind the name
    have hset : ¬s.IsSetOff := fun hset ↦ htight ⟨hne, hset⟩
    rw [ImportSpec.IsSetOff] at hset
    push Not at hset
    obtain ⟨⟨name, space⟩, hname, rfl⟩ := hset
    rw [Option.mem_def] at hname
    have hlocal := (s.isLocalName _ hname).1
    have htext : s.text ++ rest = name ++ (s.quotedPath ++ rest) := by
      simp [ImportSpec.text, hname]
    have hquote : ∀ c ∈ (s.quotedPath ++ rest).head?, isPathPart c = false ∧ isBlank c = false := by
      rintro c ⟨⟩
      decide
    have hname_quote : (name ++ (s.quotedPath ++ rest)).head? ≠ some '"' := by
      intro hc
      rw [List.head?_append, Option.or_of_isSome (by simpa using hlocal.ne_nil)] at hc
      exact hlocal.not_mem (by decide) (List.mem_of_head? hc)
    have hpiece : Misses (many1 isPathPart ++ blanks1) (name ++ (s.quotedPath ++ rest)) :=
      (misses_many1 fun c hc ↦ (hquote c hc).2).many1_append
        (shuns_many1 fun c h ↦ isBlank_eq_false_of_isPathPart h) hlocal.isPathPart
        fun c hc ↦ (hquote c hc).1
    refine Misses.many1_append ?_ shuns_named_path hgap hhead
    rw [htext]
    exact (misses_doubleQuoted hname_quote).optional_append hpiece

/-- The pattern for single imports does not read a group. -/
theorem misses_single_group {gap : List Char} (hgap : IsGap gap) (rest : List Char) :
    Misses (literal "import".toList ++ singleTail)
      ("import".toList ++ (gap ++ (['('] ++ rest))) := by
  have hparen : ∀ c ∈ (['('] ++ rest).head?, isPathPart c = false ∧ isBlank c = false := by
    rintro c ⟨⟩
    decide
  have hpiece : Misses (many1 isPathPart ++ blanks1) (['('] ++ rest) :=
    (misses_many1 fun c hc ↦ (hparen c hc).1).append blanks1
  have hquoted : Misses doubleQuoted (['('] ++ rest) := misses_doubleQuoted (by simp)
  have hmiss := hquoted.optional_append hpiece
  exact (hmiss.many1_append shuns_named_path hgap fun c hc ↦ (hparen c hc).2).literal_append _

/-- What the pattern for single imports finds in a declaration. -/
theorem captures_single {before : Option Char} {gap : List Char} (hgap : IsGap gap)
    (hline : '\n' ∈ gap) {d : ImportDecl} (hd : d.IsProper) (rest : List Char) :
    ∃ last, capturesFrom singleImport 0 before (gap ++ (d.text ++ rest)) =
      d.singlePath?.toList ++ capturesFrom singleImport 0 last rest := by
  rcases d with ⟨space, s⟩ | ⟨space, specs, back⟩
  · have htext := ImportDecl.text_single_append space s rest
    rw [ImportDecl.singlePath?]
    split
    -- blanks stand behind the word and before the path
    · rename_i hset
      have hpiece : "import".toList ++ (space ++ s.text) ≠ [] := by simp
      have hread := reads_single hd.2 hset.1 hset.2 rest
      have hjoin : "import".toList ++ (space ++ (s.text ++ rest)) =
          ("import".toList ++ (space ++ s.text)) ++ rest := by simp
      rw [htext, hjoin]
      exact ⟨_, readsSingle.anchored.captures_take hgap (Or.inr hline) hpiece isBlank_head_import
        hread⟩
    · rename_i htight
      have hmiss := misses_single hd.2 htight rest
      rw [htext, captures_word readsSingle before hgap hmiss, captures_spec readsSingle _ hd.2]
      exact ⟨_, rfl⟩
  -- in a group the paths are passed over, since no word `import` stands in front of them
  · obtain ⟨-, hspace, hspecs, hback⟩ := hd
    have htext : (ImportDecl.group space specs back).text ++ rest =
        "import".toList ++ (space ++ (['('] ++
          (specs.flatMap (fun s ↦ s.1 ++ s.2.text) ++ (back ++ ([')'] ++ rest))))) := by
      simp only [ImportDecl.text_group, List.append_assoc]
    have hopen : ∀ c ∈ ['('].head?, isBlank c = false ∧ isWord c = false := by
      rintro c ⟨⟩
      decide
    have hclose : ∀ c ∈ [')'].head?, isBlank c = false ∧ isWord c = false := by
      rintro c ⟨⟩
      decide
    have hmiss := misses_single_group hspace
      (specs.flatMap (fun s ↦ s.1 ++ s.2.text) ++ (back ++ ([')'] ++ rest)))
    obtain ⟨last, hlast⟩ := captures_specs readsSingle hspecs ['('].getLast?
      (back ++ ([')'] ++ rest))
    rw [htext, captures_word readsSingle before hgap hmiss,
      captures_mark readsSingle _ hspace (by decide) hopen (by decide), hlast,
      captures_mark readsSingle _ hback (by decide) hclose (by decide)]
    exact ⟨_, rfl⟩

/-! ### Groups -/

/-- What the pattern for groups reads behind the word `import`. -/
def groupTail : Pattern := blanks ++ ("(" ++ (group (many (isNone [')'])) ++ ")"))

/-- The pattern for groups. -/
def groupImport : Pattern :=
  lineStart ++ blanks ++ "import" ++ blanks ++ "(" ++ group (many (isNone [')'])) ++ ")"

theorem shuns_parenthesis {p : Char → Bool} (h : p '(' = false) :
    Shuns p ("(" ++ (group (many (isNone [')'])) ++ ")") : Pattern) :=
  (shuns_literal h []).append _

/-- The pattern for groups reads lines with the word `import`. -/
def readsGroup : Headed "import".toList groupImport where
  tail := groupTail
  anchored := {
    fit_eq := fun _ ↦ rfl
    shuns := shuns_import groupTail }
  isRun := isWord_import
  shuns := (shuns_parenthesis (by decide)).many_append fun _ h ↦ isBlank_eq_false_of_isWord h

/-- A group is read up to its end, if nothing in it ends it before. -/
theorem reads_group {gap inner : List Char} (hgap : IsGap gap) (hinner : ')' ∉ inner)
    (rest : List Char) :
    Reads (literal "import".toList ++ groupTail)
      ("import".toList ++ (gap ++ (['('] ++ (inner ++ [')'])))) rest inner := by
  have hclass : ∀ c ∈ inner, isNone [')'] c = true := fun c hc ↦ by
    have hne : c ≠ ')' := by
      rintro rfl
      exact hinner hc
    simp [isNone, hne]
  have hparen : ∀ c ∈ (['('] ++ (inner ++ [')']) ++ rest).head?, isBlank c = false := by
    rintro c ⟨⟩
    decide
  have hend : ∀ c ∈ ([')'] ++ rest).head?, isNone [')'] c = false := by
    rintro c ⟨⟩
    decide
  have hgroup := (takes_many hclass hend).group.append (takes_literal [')'] rest)
  have hopen := (takes_literal ['('] _).reads_append hgroup
  exact (takes_literal _ _).reads_append ((takes_many hgap hparen).reads_append hopen)

/-- The pattern for groups does not read a single declaration. -/
theorem misses_group_single {gap : List Char} (hgap : IsGap gap) (s : ImportSpec)
    (rest : List Char) :
    Misses (literal "import".toList ++ groupTail)
      ("import".toList ++ (gap ++ (s.text ++ rest))) := by
  have hparen : ¬['('] <+: s.text ++ rest := by
    rintro ⟨after, hafter⟩
    exact (s.head?_text_append rest '(' (by rw [← hafter]; rfl)).2 rfl
  have hmiss := (misses_literal hparen).append (group (many (isNone [')'])) ++ literal [')'])
  exact (hmiss.many_append (shuns_parenthesis (by decide)) hgap fun c hc ↦
    (s.head?_text_append rest c hc).1).literal_append _

/-- What stands between the parentheses of a group. -/
def ImportDecl.inner? : ImportDecl → Option (List Char)
  | single .. => none
  | group _ specs back => some (specs.flatMap (fun s ↦ s.1 ++ s.2.text) ++ back)

/-- No spec ends the group that it stands in. -/
theorem ImportSpec.parenthesis_not_mem_text (s : ImportSpec) : ')' ∉ s.text := by
  have hpath : ')' ∉ s.path := fun hmem ↦ (s.isPlain ')' hmem).2.2 rfl
  rcases hname : s.localName with - | ⟨name, gap⟩
  · simp [text, quotedPath, hname, hpath]
  · obtain ⟨hlocal, hgap⟩ := s.isLocalName _ hname
    have hgap' : ')' ∉ gap := hgap.not_mem (by decide)
    have hlocal' : ')' ∉ name := hlocal.not_mem (by decide)
    simp [text, quotedPath, hname, hpath, hgap', hlocal']

/-- What the pattern for groups finds in a declaration. -/
theorem captures_group {before : Option Char} {gap : List Char} (hgap : IsGap gap)
    (hline : '\n' ∈ gap) {d : ImportDecl} (hd : d.IsProper) (rest : List Char) :
    ∃ last, capturesFrom groupImport 0 before (gap ++ (d.text ++ rest)) =
      d.inner?.toList ++ capturesFrom groupImport 0 last rest := by
  rcases d with ⟨space, s⟩ | ⟨space, specs, back⟩
  · have htext := ImportDecl.text_single_append space s rest
    have hmiss := misses_group_single hd.2 s rest
    rw [htext, captures_word readsGroup before hgap hmiss, captures_spec readsGroup _ hd.2]
    exact ⟨_, rfl⟩
  · obtain ⟨-, hspace, hspecs, hback⟩ := hd
    have hinner : ')' ∉ specs.flatMap (fun s ↦ s.1 ++ s.2.text) ++ back := by
      rw [List.mem_append, List.mem_flatMap]
      rintro (⟨s, hs, hmem⟩ | hmem)
      · rcases List.mem_append.1 hmem with hmem | hmem
        · exact (hspecs s hs).not_mem (by decide) hmem
        · exact s.2.parenthesis_not_mem_text hmem
      · exact hback.not_mem (by decide) hmem
    have hread := reads_group hspace hinner rest
    rw [← ImportDecl.text_group] at hread
    have hne : (ImportDecl.group space specs back).text ≠ [] := List.cons_ne_nil _ _
    exact ⟨_, readsGroup.anchored.captures_take hgap (Or.inr hline) hne isBlank_head_import hread⟩

/-! ### Paths in groups -/

/-- Nothing is found where there is no quote. -/
theorem captures_unquoted (before : Option Char) {s : List Char} (hs : '"' ∉ s)
    (rest : List Char) :
    capturesFrom doubleQuoted 0 before (s ++ rest) =
      capturesFrom doubleQuoted 0 (s.getLast?.or before) rest := by
  induction s generalizing before with
  | nil => rfl
  | cons c s ih =>
    rw [List.mem_cons, not_or] at hs
    have hnone : doubleQuoted.fit { before, rest := c :: (s ++ rest) } some = none :=
      misses_doubleQuoted (by simpa using Ne.symm hs.1) _ some rfl
    rw [List.cons_append, capturesFrom_of_eq_none hnone, ih (some c) hs.2, getLast?_cons_or]

/-- The path of a spec is found in its written form, and a name in front of it is passed. -/
theorem captures_quoted (before : Option Char) (s : ImportSpec) (rest : List Char) :
    ∃ last, capturesFrom doubleQuoted 0 before (s.text ++ rest) =
      s.path :: capturesFrom doubleQuoted 0 last rest := by
  have hpath (before : Option Char) : ∃ last,
      capturesFrom doubleQuoted 0 before (s.quotedPath ++ rest) =
        s.path :: capturesFrom doubleQuoted 0 last rest := by
    have hfit := reads_doubleQuoted s rest { before, rest := s.quotedPath ++ rest } some _ rfl rfl
    exact ⟨_, capturesFrom_of_eq_some (List.cons_ne_nil _ _) hfit rfl rfl⟩
  rcases hname : s.localName with - | ⟨name, gap⟩
  · have htext : s.text = s.quotedPath := by simp [ImportSpec.text, hname]
    rw [htext]
    exact hpath before
  · obtain ⟨hlocal, hgap⟩ := s.isLocalName _ hname
    have hquote : '"' ∉ name ++ gap := by
      rw [List.mem_append, not_or]
      exact ⟨hlocal.not_mem (by decide), hgap.not_mem (by decide)⟩
    have htext : s.text ++ rest = (name ++ gap) ++ (s.quotedPath ++ rest) := by
      simp [ImportSpec.text, hname]
    rw [htext, captures_unquoted before hquote]
    exact hpath _

/-- The paths of all specs are found in what stands between the parentheses. -/
theorem captures_inner {specs : List (List Char × ImportSpec)} (hspecs : ∀ s ∈ specs, IsGap s.1)
    {back : List Char} (hback : IsGap back) (before : Option Char) :
    capturesFrom doubleQuoted 0 before (specs.flatMap (fun s ↦ s.1 ++ s.2.text) ++ back) =
      specs.map fun s ↦ s.2.path := by
  induction specs generalizing before with
  | nil =>
    have hnone := captures_unquoted before (hback.not_mem (by decide)) []
    rw [List.append_nil] at hnone
    exact hnone
  | cons s specs ih =>
    obtain ⟨hs, hspecs⟩ := List.forall_mem_cons.1 hspecs
    obtain ⟨last, hlast⟩ := captures_quoted (s.1.getLast?.or before) s.2
      (specs.flatMap (fun s ↦ s.1 ++ s.2.text) ++ back)
    rw [List.flatMap_cons, List.append_assoc, List.append_assoc,
      captures_unquoted _ (hs.not_mem (by decide)), hlast, ih hspecs, List.map_cons]

/-! ### Whole sources -/

namespace GoSource

/-- What a pattern for lines with the word `import` finds in a source is what it finds in the
declarations, one after the other. -/
theorem captures_text {pattern : Pattern} (r : Headed "import".toList pattern)
    {found : ImportDecl → List (List Char)}
    (hdecl : ∀ (before : Option Char) (gap : List Char) (d : ImportDecl) (rest : List Char),
      IsGap gap → '\n' ∈ gap → d.IsProper → ∃ last,
        capturesFrom pattern 0 before (gap ++ (d.text ++ rest)) =
          found d ++ capturesFrom pattern 0 last rest)
    (s : GoSource) : pattern.captures s.text = s.decls.flatMap fun d ↦ found d.2 := by
  have hclause : '\n' ∉ "package".toList ++ s.gap ++ s.package := by
    have hname := newline_not_mem_of_isWord s.isPackage.2
    simp [s.isGap_gap.2.2, hname]
  -- the word that begins the clause is not the one of an import
  have hmiss (rest : List Char) : Misses (literal "import".toList ++ r.tail)
      ("package".toList ++ s.gap ++ s.package ++ rest) := by
    refine r.misses ?_
    obtain ⟨b, gap, hgap⟩ := List.exists_cons_of_ne_nil s.isGap_gap.2.1
    have hblank : isWord b = false :=
      isWord_eq_false_of_isBlank (s.isGap_gap.1 b (hgap ▸ List.mem_cons_self))
    have hrun : ∀ c ∈ "package".toList, isWord c = true := List.all_eq_true.1 (by decide)
    have hafter : ∀ c ∈ (s.gap ++ (s.package ++ rest)).head?, isWord c = false := by
      rw [hgap]
      rintro c ⟨⟩
      exact hblank
    rw [List.append_assoc, List.append_assoc, (takeWhile_dropWhile_append hrun hafter).1]
    decide
  have hdecls (before : Option Char) {decls : List (List Char × ImportDecl)}
      (hproper : ∀ d ∈ decls, IsGap d.1 ∧ '\n' ∈ d.1 ∧ d.2.IsProper) :
      capturesFrom pattern 0 before (decls.flatMap (fun d ↦ d.1 ++ d.2.text) ++ s.back) =
        decls.flatMap fun d ↦ found d.2 := by
    induction decls generalizing before with
    | nil =>
      exact r.captures_back (by decide) before s.isGap_back
    | cons d decls ih =>
      obtain ⟨⟨hgap, hline, hd⟩, hproper⟩ := List.forall_mem_cons.1 hproper
      obtain ⟨last, hlast⟩ := hdecl before d.1 d.2 _ hgap hline hd
      rw [List.flatMap_cons, List.append_assoc, List.append_assoc, hlast, ih last hproper,
        List.flatMap_cons]
  have hne : "package".toList ++ s.gap ++ s.package ≠ [] := List.cons_ne_nil _ _
  have hhead : ∀ c ∈ ("package".toList ++ s.gap ++ s.package).head?, isBlank c = false := by
    rintro c ⟨⟩
    decide
  rw [captures, text, r.anchored.captures_pass none s.isGap_front hne hhead hclause (hmiss _),
    hdecls _ s.isProper]

/-- No path is empty, so none is left out when imports are collected. -/
theorem forall_ne_nil (s : GoSource) : ∀ p ∈ s.singlePaths ++ s.groupPaths, p ≠ [] := by
  intro p hp
  rcases List.mem_append.1 hp with hp | hp
  · obtain ⟨⟨gap, d⟩, -, hd⟩ := List.mem_filterMap.1 hp
    rcases d with ⟨space, spec⟩ | _
    · rw [ImportDecl.singlePath?, Option.ite_none_right_eq_some] at hd
      obtain ⟨-, ⟨⟩⟩ := hd
      exact spec.path_ne_nil
    · cases hd
  · obtain ⟨⟨gap, d⟩, -, hd⟩ := List.mem_flatMap.1 hp
    rcases d with _ | ⟨space, specs, back⟩
    · cases hd
    · obtain ⟨spec, -, rfl⟩ := List.mem_map.1 hd
      exact spec.2.path_ne_nil

/-- The pattern for single imports finds the paths of the single declarations that it reads. -/
theorem captures_singleImport (s : GoSource) : singleImport.captures s.text = s.singlePaths := by
  rw [s.captures_text readsSingle fun _ _ _ rest hgap hline hd ↦ captures_single hgap hline hd rest,
    singlePaths, List.filterMap_eq_flatMap_toList]

/-- In what the pattern for groups finds, the paths of the groups are found. -/
theorem captures_groupImport (s : GoSource) :
    (groupImport.captures s.text).flatMap doubleQuoted.captures = s.groupPaths := by
  rw [s.captures_text readsGroup fun _ _ _ rest hgap hline hd ↦ captures_group hgap hline hd rest,
    List.flatMap_assoc, groupPaths, List.flatMap_def, List.flatMap_def]
  refine congrArg List.flatten (List.map_congr_left fun d hd ↦ ?_)
  obtain ⟨gap, ⟨space, spec⟩ | ⟨space, specs, back⟩⟩ := d
  · rfl
  · obtain ⟨-, -, hspecs, hback⟩ := (s.isProper _ hd).2.2
    simp [ImportDecl.inner?, ImportDecl.groupPaths, captures, captures_inner hspecs hback]

end GoSource

/-- **Imports of a source.** They are the paths of the single declarations in which blanks set off
all tokens, in order, and behind them the paths of all groups, each path where it first occurs. So
no import is lost but those without a blank behind the word `import` or behind the name that is
given to the package. -/
theorem go_imports_exact (s : GoSource) :
    ((PatternSet.ofLanguage .go).extract (String.ofList s.text)).imports =
      Assoc.distinct ((s.singlePaths ++ s.groupPaths).map String.ofList) := by
  have hnames : Code.go.names .imports s.text = s.singlePaths.map String.ofList := by
    have hget : Code.go.get .imports = [singleImport] := rfl
    have hself : Code.go.namesOf = fun capture ↦ [capture] := rfl
    rw [PatternSet.names, hget, hself, List.flatMap_singleton, List.flatMap_singleton',
      s.captures_singleImport]
  have hgroups : Code.go.groupedNames s.text = s.groupPaths.map String.ofList :=
    congrArg (List.map String.ofList) s.captures_groupImport
  have hne : ∀ n ∈ (s.singlePaths ++ s.groupPaths).map String.ofList, n ≠ "" := by
    intro n hn
    obtain ⟨p, hp, rfl⟩ := List.mem_map.1 hn
    simpa using s.forall_ne_nil p hp
  have hget := Code.go.get_extract (String.ofList s.text) .imports
  rw [String.toList_ofList, hnames, hgroups, if_pos rfl] at hget
  have hreserved : (s.singlePaths.map String.ofList).filter
      (fun n ↦ !Code.go.reserved.contains n) = s.singlePaths.map String.ofList :=
    List.filter_eq_self.2 fun _ _ ↦ rfl
  rw [hreserved, ← List.map_append, List.filter_eq_self.2 (by simpa using hne)] at hget
  exact hget

/-- No blank stands behind the first `import`. -/
example : (Code.go.extract "package a\nimport\"fmt\"\nimport \"os\"").imports = ["os"] := by
  decide +kernel

end RepoSurvey.Code
