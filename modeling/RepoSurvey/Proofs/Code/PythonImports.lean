import RepoSurvey.Proofs.Code.Patterns

/-!
# Imports of Python sources

A `PythonSource` consists of lines `from M import N` and `import A, B as C, D`. Its imports are the
modules `M`, then what the lists name, list by list (`python_imports_exact`).

A list is read up to the first module that is not plain, and of its name the front that consists of
word characters and points (`readNames`). So no name is lost if all consist of word characters.
Names of the language may hold other characters: the vowel signs of many scripts are marks, and no
word characters.
-/

namespace RepoSurvey.Code

open RepoSurvey.Text RepoSurvey.Text.Pattern

/-! ### Sources -/

/-- What may stand for a name in a list: a text without blanks and commas. -/
def IsListable (name : List Char) : Prop := name ≠ [] ∧ ∀ c ∈ name, isBlank c = false ∧ c ≠ ','

/-- A module in a list of imports, perhaps with a name that is given to it. -/
structure ListedModule where
  name : List Char
  localName : Option (List Char) := none
  isName : IsListable name
  isLocalName : ∀ a ∈ localName, IsListable a

namespace ListedModule

/-- The written form. -/
def text (m : ListedModule) : List Char :=
  m.name ++ m.localName.elim [] fun a ↦ " as ".toList ++ a

/-- The names consist of word characters, and points in the name of the module. -/
def IsPlain (m : ListedModule) : Prop :=
  (∀ c ∈ m.name, isPathPart c = true) ∧ ∀ a ∈ m.localName, ∀ c ∈ a, isWord c = true

instance : DecidablePred IsPlain := fun m ↦
  decidable_of_iff (m.name.all isPathPart = true ∧ m.localName.all (List.all · isWord) = true)
    (by simp [IsPlain, Option.all_eq_true])

/-- The front of the name that consists of word characters and points. -/
def front (m : ListedModule) : List Char := m.name.takeWhile isPathPart

end ListedModule

/-- The names that are read of a list: those of the modules up to the first that is not plain, and
of this one the front of its name, if there is one. -/
def readNames (ms : List ListedModule) : List (List Char) :=
  (ms.takeWhile fun m ↦ m.IsPlain).map ListedModule.name ++
    (((ms.dropWhile fun m ↦ m.IsPlain).head?.map ListedModule.front).filter (· ≠ [])).toList

/-- A line that imports. -/
inductive ImportLine where
  | fromModule (module names : List Char)
  | list (first : ListedModule) (others : List ListedModule)

namespace ImportLine

/-- The written form. -/
def text : ImportLine → List Char
  | fromModule module names => "from ".toList ++ (module ++ (" import ".toList ++ names))
  | list first others =>
    "import ".toList ++ join ", ".toList ((first :: others).map ListedModule.text)

/-- The module is a run of word characters and points, and what is imported from it stands on the
line. -/
def IsProper : ImportLine → Prop
  | fromModule module names =>
    module ≠ [] ∧ (∀ c ∈ module, isPathPart c = true) ∧ '\n' ∉ names
  | list .. => True

/-- The module from which names are imported. -/
def module? : ImportLine → Option (List Char)
  | fromModule module _ => some module
  | list .. => none

/-- The modules in a list. -/
def listed : ImportLine → List ListedModule
  | fromModule .. => []
  | list first others => first :: others

end ImportLine

/-- Lines that import, one below the other, perhaps with blanks behind the last one. -/
structure PythonSource where
  lines : List ImportLine
  back : List Char := []
  isProper : ∀ l ∈ lines, l.IsProper
  isGap_back : IsGap back

namespace PythonSource

/-- The written form. -/
def text (s : PythonSource) : List Char := join ['\n'] (s.lines.map ImportLine.text) ++ s.back

/-- The modules from which names are imported. -/
def modules (s : PythonSource) : List (List Char) := s.lines.filterMap ImportLine.module?

/-- The names that are read of the lists. -/
def listedNames (s : PythonSource) : List (List Char) := s.lines.flatMap fun l ↦ readNames l.listed

end PythonSource

/-! ### The names in a capture -/

/-- A stretch of a list without a comma names a module. -/
def NamesModule (name s : List Char) : Prop := ',' ∉ s ∧ (words s).head? = some name

namespace NamesModule

variable {name s : List Char}

/-- Blanks in front of a module do not change what is named. -/
theorem cons (h : NamesModule name s) {c : Char} (hc : isBlank c = true) :
    NamesModule name (c :: s) := by
  have hcomma : ',' ≠ c := by
    rintro rfl
    exact absurd hc (by decide)
  exact ⟨by simp [hcomma, h.1], by rw [words_cons_of_isBlank hc, h.2]⟩

theorem listedNames (h : NamesModule name s) : PatternSet.listedNames s = [name] := by
  simp [PatternSet.listedNames, split_of_not_mem h.1, h.2]

theorem listedNames_append (h : NamesModule name s) (rest : List Char) :
    PatternSet.listedNames (s ++ ',' :: rest) = name :: PatternSet.listedNames rest := by
  simp [PatternSet.listedNames, split_append_cons h.1, h.2]

end NamesModule

section ReadNames

variable {m : ListedModule} {ms : List ListedModule}

theorem ListedModule.front_eq_name (h : m.IsPlain) : m.front = m.name :=
  List.takeWhile_eq_self_iff.2 h.1

/-- Where nothing is read of the first name, nothing is read of the list. -/
theorem readNames_of_front_eq_nil (h : m.front = []) : readNames (m :: ms) = [] := by
  have hplain : ¬m.IsPlain := fun hplain ↦
    m.isName.1 ((ListedModule.front_eq_name hplain).symm.trans h)
  simp [readNames, hplain, h]

/-- A module that is not plain is the last of which something is read. -/
theorem readNames_of_not_isPlain (h : ¬m.IsPlain) (hfront : m.front ≠ []) :
    readNames (m :: ms) = [m.front] := by
  rw [readNames, List.takeWhile_cons_of_neg (by simpa using h),
    List.dropWhile_cons_of_neg (by simpa using h), List.head?_cons, Option.map_some,
    Option.filter_some, if_pos (decide_eq_true hfront)]
  rfl

theorem readNames_of_isPlain (h : m.IsPlain) : readNames (m :: ms) = m.front :: readNames ms := by
  simp [readNames, h, ListedModule.front_eq_name h]

end ReadNames

/-! ### One module of a list -/

/-- What the pattern for lists reads as the name that is given to a module. -/
def givenName : Pattern := blanks1 ++ ("as" ++ (blanks1 ++ many1 isWord))

/-- What the pattern for lists reads as a module. -/
def oneModule : Pattern := many1 isPathPart ++ optional givenName

/-- What the pattern for lists reads as one more module. -/
def oneMore : Pattern := blanks ++ ("," ++ (blanks ++ oneModule))

/-- No name is given where, behind blanks, no `a` stands. -/
theorem misses_givenName {gap rest : List Char} (hgap : IsGap gap)
    (hrest : ∀ c ∈ rest.head?, isBlank c = false ∧ c ≠ 'a') : Misses givenName (gap ++ rest) := by
  have has : ¬"as".toList <+: rest := by
    rintro ⟨after, rfl⟩
    exact (hrest 'a' rfl).2 rfl
  exact ((misses_literal has).append (blanks1 ++ many1 isWord)).many1_append
    ((shuns_literal (by decide) _).append _) hgap fun c hc ↦ (hrest c hc).1

theorem isGap_space : IsGap [' '] := by decide

/-- A given name is taken as far as its word characters go. -/
theorem takes_givenName {word rest : List Char} (hne : word ≠ [])
    (hword : ∀ c ∈ word, isWord c = true) (hrest : ∀ c ∈ rest.head?, isWord c = false) :
    Takes givenName (" as ".toList ++ word) rest := by
  have hhead : ∀ c ∈ (word ++ rest).head?, isBlank c = false := by
    obtain ⟨c, cs, rfl⟩ := List.exists_cons_of_ne_nil hne
    rintro d ⟨⟩
    exact isBlank_eq_false_of_isWord (hword c List.mem_cons_self)
  have has : ∀ c ∈ ("as".toList ++ ([' '] ++ word) ++ rest).head?, isBlank c = false := by
    rintro c ⟨⟩
    decide
  have hname := (takes_many1 (by decide) isGap_space hhead).append (takes_many1 hne hword hrest)
  have hbehind := (takes_literal "as".toList _).append hname
  exact (takes_many1 (by decide) isGap_space has).append hbehind

/-- A given name is none that begins with no word character. -/
theorem misses_givenName_of_foreign {rest : List Char}
    (hrest : ∀ c ∈ rest.head?, isBlank c = false ∧ isWord c = false) :
    Misses givenName (" as ".toList ++ rest) := by
  have hname : Misses (blanks1 ++ many1 isWord) ([' '] ++ rest) :=
    (misses_many1 fun c hc ↦ (hrest c hc).2).many1_append
      (shuns_many1 fun c hc ↦ isWord_eq_false_of_isBlank hc) isGap_space fun c hc ↦ (hrest c hc).1
  have has : ∀ c ∈ ("as".toList ++ ([' '] ++ rest)).head?, isBlank c = false := by
    rintro c ⟨⟩
    decide
  exact (hname.literal_append "as".toList).many1_append ((shuns_literal (by decide) _).append _)
    isGap_space has

/-- No other module is listed where, behind blanks, no comma stands. -/
theorem misses_oneMore {gap rest : List Char} (hgap : IsGap gap)
    (hrest : ∀ c ∈ rest.head?, isBlank c = false ∧ c ≠ ',') : Misses oneMore (gap ++ rest) := by
  have hcomma : ¬",".toList <+: rest := by
    rintro ⟨after, rfl⟩
    exact (hrest ',' rfl).2 rfl
  exact ((misses_literal hcomma).append (blanks ++ oneModule)).many_append
    ((shuns_literal (by decide) _).append _) hgap fun c hc ↦ (hrest c hc).1

theorem misses_oneMore_of_head? {rest : List Char}
    (h : ∀ c ∈ rest.head?, isBlank c = false ∧ c ≠ ',') : Misses oneMore rest :=
  misses_oneMore isGap_nil h

/-- What may follow a module: no character of its name, and no name that is given to it. -/
def EndsModule (t : List Char) : Prop :=
  (∀ c ∈ t.head?, isPathPart c = false) ∧
    ∃ gap rest, t = gap ++ rest ∧ IsGap gap ∧ ∀ c ∈ rest.head?, isBlank c = false ∧ c ≠ 'a'

theorem EndsModule.misses {t : List Char} (h : EndsModule t) : Misses givenName t := by
  obtain ⟨-, gap, rest, rfl, hgap, hrest⟩ := h
  exact misses_givenName hgap hrest

/-- A comma ends a module. -/
theorem endsModule_comma (rest : List Char) : EndsModule (',' :: rest) := by
  refine ⟨?_, [], ',' :: rest, rfl, List.forall_mem_nil _, ?_⟩
  · rintro c ⟨⟩
    decide
  · rintro c ⟨⟩
    decide

/-- A module that `t` follows is read up to `left`: what is read of it is the front of its name, and
`given` behind it. If it is not plain, no other module is read behind it. -/
structure IsReadUpTo (m : ListedModule) (given left t : List Char) : Prop where
  text_eq : m.text = m.front ++ (given ++ left)
  takes : Takes (optional givenName) given (left ++ t)
  endsName : ∀ c ∈ (given ++ (left ++ t)).head?, isPathPart c = false
  isGiven : ∀ c ∈ given.head?, isBlank c = true
  comma_not_mem : ',' ∉ given
  left_eq_nil : m.IsPlain → left = []
  misses : ¬m.IsPlain → Misses oneMore (left ++ t)

namespace ListedModule

variable {m : ListedModule} {a t : List Char}

/-- A module without a given name is read whole, if its name is. -/
theorem isReadUpTo_of_name (hfront : m.front = m.name) (hlocal : m.localName = none)
    (ht : EndsModule t) : IsReadUpTo m [] [] t where
  text_eq := by simp [text, hlocal, hfront]
  takes := ht.misses.takes_optional
  endsName := ht.1
  isGiven := by simp
  comma_not_mem := List.not_mem_nil
  left_eq_nil _ := rfl
  misses h := by
    have hplain : m.IsPlain := ⟨List.takeWhile_eq_self_iff.1 hfront, by simp [hlocal]⟩
    exact absurd hplain h

/-- With a name that is read whole, a module is plain exactly if the given name is a word. -/
theorem isPlain_iff_of_localName (hfront : m.front = m.name) (hlocal : m.localName = some a) :
    m.IsPlain ↔ ∀ c ∈ a, isWord c = true := by
  have hname : ∀ c ∈ m.name, isPathPart c = true := List.takeWhile_eq_self_iff.1 hfront
  rw [IsPlain, and_iff_right hname, hlocal]
  simp

/-- A given name that begins with no word character is not read. -/
theorem isReadUpTo_of_foreign_localName (hfront : m.front = m.name)
    (hlocal : m.localName = some a) (hword : a.takeWhile isWord = []) (t : List Char) :
    IsReadUpTo m [] (" as ".toList ++ a) t := by
  obtain ⟨hne, hlistable⟩ := m.isLocalName a hlocal
  have hhead : ∀ c ∈ (a ++ t).head?, isBlank c = false ∧ isWord c = false := by
    obtain ⟨c, a, rfl⟩ := List.exists_cons_of_ne_nil hne
    rintro d ⟨⟩
    refine ⟨(hlistable c List.mem_cons_self).1, ?_⟩
    by_contra hc
    simp [hc] at hword
  -- the local name is not read, and what is left does not begin with a comma
  have hmiss : Misses givenName (" as ".toList ++ a ++ t) := by
    rw [List.append_assoc]
    exact misses_givenName_of_foreign hhead
  have hmore : Misses oneMore ([' '] ++ ("as ".toList ++ (a ++ t))) := by
    refine misses_oneMore isGap_space ?_
    rintro c ⟨⟩
    decide
  refine {
    text_eq := by simp [text, hlocal, hfront]
    takes := hmiss.takes_optional
    endsName := ?_
    isGiven := by simp
    comma_not_mem := List.not_mem_nil
    left_eq_nil := fun h ↦ ?_
    misses := fun _ ↦ hmore }
  · rintro c ⟨⟩
    decide
  · rw [isPlain_iff_of_localName hfront hlocal] at h
    rw [List.takeWhile_eq_self_iff.2 h] at hword
    exact absurd hword hne

/-- A given name is read as far as its word characters go. -/
theorem isReadUpTo_of_localName (hfront : m.front = m.name) (hlocal : m.localName = some a)
    (hword : a.takeWhile isWord ≠ []) (ht : EndsModule t) :
    IsReadUpTo m (" as ".toList ++ a.takeWhile isWord) (a.dropWhile isWord) t := by
  obtain ⟨hne, hlistable⟩ := m.isLocalName a hlocal
  have hsplit : a.takeWhile isWord ++ a.dropWhile isWord = a := List.takeWhile_append_dropWhile
  have hrun : ∀ c ∈ a.takeWhile isWord, isWord c = true := fun c hc ↦ List.mem_takeWhile_imp hc
  -- the word ends where the local name or the module does
  have hrest : ∀ c ∈ (a.dropWhile isWord ++ t).head?, isWord c = false := by
    intro c hc
    rcases hleft : a.dropWhile isWord with - | ⟨d, left⟩
    · rw [hleft] at hc
      by_contra hcword
      have hpath := isPathPart_of_isWord (c := c) (by simpa using hcword)
      rw [ht.1 c hc] at hpath
      exact Bool.false_ne_true hpath
    · rw [hleft] at hc
      refine head?_dropWhile isWord a c ?_
      rw [hleft]
      exact hc
  refine {
    text_eq := by simp [text, hlocal, hfront, hsplit]
    takes := (takes_givenName hword hrun hrest).optional
    endsName := ?_
    isGiven := ?_
    comma_not_mem := ?_
    left_eq_nil := fun h ↦ ?_
    misses := fun h ↦ ?_ }
  · rintro c ⟨⟩
    decide
  · rintro c ⟨⟩
    decide
  · rw [List.mem_append, not_or]
    refine ⟨by decide, fun hmem ↦ (hlistable ',' ?_).2 rfl⟩
    exact (List.takeWhile_prefix _).subset hmem
  · rw [isPlain_iff_of_localName hfront hlocal] at h
    exact List.dropWhile_eq_nil_iff.2 h
  · -- the foreign character is no comma
    rw [isPlain_iff_of_localName hfront hlocal, ← List.dropWhile_eq_nil_iff] at h
    obtain ⟨c, left, hleft⟩ := List.exists_cons_of_ne_nil h
    have hc := hlistable c ((List.dropWhile_suffix _).subset (hleft ▸ List.mem_cons_self))
    have hhead : ∀ d ∈ (c :: left ++ t).head?, isBlank d = false ∧ d ≠ ',' := by
      rintro d ⟨⟩
      exact hc
    rw [hleft]
    exact misses_oneMore_of_head? hhead

/-- Nothing is read behind a foreign character in the name. -/
theorem isReadUpTo_of_foreign_name (hname : m.name.dropWhile isPathPart ≠ []) (t : List Char) :
    IsReadUpTo m [] (m.name.dropWhile isPathPart ++
      m.localName.elim [] fun a ↦ " as ".toList ++ a) t := by
  have hsplit : m.front ++ m.name.dropWhile isPathPart = m.name :=
    List.takeWhile_append_dropWhile
  have hforeign : ¬m.IsPlain := fun h ↦ hname (List.dropWhile_eq_nil_iff.2 h.1)
  obtain ⟨c, post, hpost⟩ := List.exists_cons_of_ne_nil hname
  have hc := m.isName.2 c ((List.dropWhile_suffix _).subset (hpost ▸ List.mem_cons_self))
  have hpath : isPathPart c = false := head?_dropWhile isPathPart m.name c (by rw [hpost]; rfl)
  have hhead : ∀ d ∈ (m.name.dropWhile isPathPart ++
      (m.localName.elim [] fun a ↦ " as ".toList ++ a) ++ t).head?,
      isPathPart d = false ∧ (isBlank d = false ∧ d ≠ 'a') ∧ isBlank d = false ∧ d ≠ ',' := by
    have ha : c ≠ 'a' := by
      rintro rfl
      exact absurd hpath (by decide)
    rw [hpost]
    rintro d ⟨⟩
    exact ⟨hpath, ⟨hc.1, ha⟩, hc⟩
  refine {
    text_eq := by rw [text, List.nil_append, ← List.append_assoc, hsplit]
    takes := ?_
    endsName := ?_
    isGiven := by simp
    comma_not_mem := List.not_mem_nil
    left_eq_nil := fun h ↦ absurd h hforeign
    misses := fun _ ↦ ?_ }
  · exact (misses_givenName isGap_nil fun d hd ↦ (hhead d hd).2.1).takes_optional
  · exact fun d hd ↦ (hhead d hd).1
  · exact misses_oneMore_of_head? fun d hd ↦ (hhead d hd).2.2

/-- Every module is read up to some place. -/
theorem exists_isReadUpTo (m : ListedModule) (ht : EndsModule t) :
    ∃ given left, IsReadUpTo m given left t := by
  by_cases hname : m.name.dropWhile isPathPart = []
  · have hfront : m.front = m.name :=
      List.takeWhile_eq_self_iff.2 (List.dropWhile_eq_nil_iff.1 hname)
    rcases hlocal : m.localName with - | a
    · exact ⟨_, _, isReadUpTo_of_name hfront hlocal ht⟩
    · by_cases hword : a.takeWhile isWord = []
      · exact ⟨_, _, isReadUpTo_of_foreign_localName hfront hlocal hword t⟩
      · exact ⟨_, _, isReadUpTo_of_localName hfront hlocal hword ht⟩
  · exact ⟨_, _, isReadUpTo_of_foreign_name hname t⟩

end ListedModule

namespace IsReadUpTo

variable {m : ListedModule} {given left t : List Char} (h : IsReadUpTo m given left t)
include h

theorem takes_oneModule (hfront : m.front ≠ []) : Takes oneModule (m.front ++ given) (left ++ t) :=
  (takes_many1 hfront (fun _ hc ↦ List.mem_takeWhile_imp hc) h.endsName).append h.takes

/-- What is read of a module names it by the front of its name, also with a given name behind it. -/
theorem names (hfront : m.front ≠ []) : NamesModule m.front (m.front ++ given) := by
  have hmem : ∀ c ∈ m.front, isBlank c = false ∧ c ≠ ',' := fun c hc ↦
    m.isName.2 c ((List.takeWhile_prefix _).subset hc)
  refine ⟨?_, head?_words hfront (fun c hc ↦ (hmem c hc).1) h.isGiven⟩
  rw [List.mem_append, not_or]
  exact ⟨fun hc ↦ (hmem ',' hc).2 rfl, h.comma_not_mem⟩

end IsReadUpTo

/-! ### Lists -/

/-- The written form of more modules. -/
def moreText (ms : List ListedModule) : List Char := ms.flatMap fun m ↦ ", ".toList ++ m.text

/-- In front of more modules stands a comma, so the one before them ends there. -/
theorem endsModule_moreText (ms : List ListedModule) {t : List Char} (ht : EndsModule t) :
    EndsModule (moreText ms ++ t) := by
  cases ms with
  | nil => exact ht
  | cons m ms => exact endsModule_comma _

/-- Of more modules `taken` is read, up to `left`: what names the modules that `readNames` has. -/
structure AreReadUpTo (ms : List ListedModule) (taken left t : List Char) : Prop where
  text_eq : moreText ms = taken ++ left
  takesMany : TakesMany oneMore taken (left ++ t)
  listedNames : ∀ name s, NamesModule name s →
    PatternSet.listedNames (s ++ taken) = name :: readNames ms

section Lists

variable {m : ListedModule} {ms : List ListedModule} {t : List Char}

/-- The pattern misses a name of which nothing can be read. -/
theorem misses_oneModule (hfront : m.front = []) (t : List Char) :
    Misses oneModule (m.text ++ t) := by
  obtain ⟨c, name, hname⟩ := List.exists_cons_of_ne_nil m.isName.1
  refine (misses_many1 ?_).append _
  rw [ListedModule.text, hname]
  rintro d ⟨⟩
  by_contra hc
  simp [ListedModule.front, hname, hc] at hfront

theorem shuns_oneModule : Shuns isBlank oneModule :=
  (shuns_many1 fun _ h ↦ isPathPart_eq_false_of_isBlank h).append _

/-- A module begins with its name, and no name with a blank. -/
theorem head?_text_append (m : ListedModule) (t : List Char) :
    ∀ c ∈ (m.text ++ t).head?, isBlank c = false := by
  obtain ⟨c, name, hname⟩ := List.exists_cons_of_ne_nil m.isName.1
  rw [ListedModule.text, hname]
  rintro d ⟨⟩
  exact (m.isName.2 c (hname ▸ List.mem_cons_self)).1

/-- What is read of a module and of others behind it. -/
theorem exists_takes_modules (hfront : m.front ≠ []) (ht : EndsModule t)
    (hms : ∃ taken left, AreReadUpTo ms taken left t) :
    ∃ s taken left, m.text ++ moreText ms = s ++ (taken ++ left) ∧ NamesModule m.front s ∧
      Takes oneModule s (taken ++ (left ++ t)) ∧ TakesMany oneMore taken (left ++ t) ∧
      ∀ u, NamesModule m.front u → PatternSet.listedNames (u ++ taken) = readNames (m :: ms) := by
  obtain ⟨given, left, h⟩ := m.exists_isReadUpTo (endsModule_moreText ms ht)
  by_cases hplain : m.IsPlain
  · obtain ⟨taken, left', hms⟩ := hms
    obtain rfl := h.left_eq_nil hplain
    have htakes := h.takes_oneModule hfront
    rw [List.nil_append, hms.text_eq, List.append_assoc] at htakes
    refine ⟨_, taken, left', ?_, h.names hfront, htakes, hms.takesMany, fun u hu ↦ ?_⟩
    · rw [h.text_eq, hms.text_eq, List.append_nil]
    · rw [hms.listedNames _ u hu, readNames_of_isPlain hplain]
  · have htakes := h.takes_oneModule hfront
    have hmiss := h.misses hplain
    rw [← List.append_assoc] at htakes hmiss
    refine ⟨_, [], left ++ moreText ms, ?_, h.names hfront, htakes, hmiss.takesMany, fun u hu ↦ ?_⟩
    · rw [h.text_eq, List.nil_append, ← List.append_assoc, List.append_assoc]
    · rw [List.append_nil, hu.listedNames, readNames_of_not_isPlain hplain hfront]

/-- Every list is read up to some place. -/
theorem exists_areReadUpTo (ms : List ListedModule) (ht : EndsModule t)
    (hmore : Misses oneMore t) : ∃ taken left, AreReadUpTo ms taken left t := by
  have hcomma (rest : List Char) : ∀ c ∈ (",".toList ++ rest).head?, isBlank c = false := by
    rintro c ⟨⟩
    decide
  have hshuns : Shuns isBlank (literal ",".toList ++ (blanks ++ oneModule)) :=
    (shuns_literal (by decide) _).append _
  induction ms with
  | nil =>
    refine ⟨[], [], rfl, hmore.takesMany, fun name s hs ↦ ?_⟩
    rw [List.append_nil, hs.listedNames]
    rfl
  | cons m ms ih =>
    by_cases hfront : m.front = []
    -- a name that cannot be read ends the list in front of its comma
    · have hbehind := ((misses_oneModule hfront (moreText ms ++ t)).many_append shuns_oneModule
        isGap_space (head?_text_append m _)).literal_append ",".toList
      have hmiss := hbehind.many_append hshuns isGap_nil (hcomma _)
      refine ⟨[], moreText (m :: ms), rfl, Misses.takesMany ?_, fun name s hs ↦ ?_⟩
      · have hcons : moreText (m :: ms) ++ t =
            [] ++ (",".toList ++ ([' '] ++ (m.text ++ (moreText ms ++ t)))) := by simp [moreText]
        rw [hcons]
        exact hmiss
      · rw [List.append_nil, hs.listedNames, readNames_of_front_eq_nil hfront]
    · obtain ⟨s, taken, left, htext, hs, htakes, hmany, hnames⟩ :=
        exists_takes_modules hfront ht ih
      have hhead : ∀ c ∈ (s ++ (taken ++ (left ++ t))).head?, isBlank c = false := by
        have hwhole : s ++ (taken ++ (left ++ t)) = m.text ++ (moreText ms ++ t) := by
          rw [← List.append_assoc taken, ← List.append_assoc, ← htext, List.append_assoc]
        rw [hwhole]
        exact head?_text_append m _
      -- the comma, the blank behind it and the module are one more piece of the repetition
      have hbehind := (takes_literal ",".toList _).append
        ((takes_many isGap_space hhead).append htakes)
      have hblanks : Takes blanks [] (",".toList ++ ([' '] ++ s) ++ (taken ++ (left ++ t))) :=
        takes_many isGap_nil (hcomma _)
      have hpiece := hblanks.append hbehind
      refine ⟨", ".toList ++ s ++ taken, left, ?_, hmany.cons hpiece (by simp), fun name u hu ↦ ?_⟩
      · have hcons : moreText (m :: ms) = ", ".toList ++ (m.text ++ moreText ms) := by
          simp [moreText]
        rw [hcons, htext, List.append_assoc, List.append_assoc]
      · have hsplit : u ++ (", ".toList ++ s ++ taken) = u ++ ',' :: (' ' :: s ++ taken) := by simp
        rw [hsplit, hu.listedNames_append, hnames _ (hs.cons (by decide))]

end Lists

/-! ### Lines -/

/-- What the pattern for modules reads behind the word `from`. -/
def fromTail : Pattern :=
  blanks1 ++ (group (many1 isPathPart) ++ (blanks1 ++ ("import" ++ wordEdge)))

/-- The pattern for modules from which names are imported. -/
def fromImport : Pattern :=
  lineStart ++ blanks ++ "from" ++ blanks1 ++ group (many1 isPathPart) ++ blanks1 ++ "import" ++
    wordEdge

/-- The pattern for modules reads lines with the word `from`. -/
def readsFrom : Headed "from".toList fromImport where
  tail := fromTail
  anchored := {
    fit_eq := fun _ ↦ rfl
    shuns := (shuns_literal (by decide) _).append fromTail }
  isRun := List.all_eq_true.1 (by decide)
  shuns := (shuns_many1 fun _ h ↦ isBlank_eq_false_of_isWord h).append _

/-- What the pattern for lists reads behind the word `import`. -/
def listTail : Pattern := blanks1 ++ group (oneModule ++ repeated oneMore)

/-- The pattern for lists. -/
def listImport : Pattern :=
  lineStart ++ blanks ++ "import" ++ blanks1 ++
    group (many1 isPathPart ++ renamed ++
      repeated (blanks ++ "," ++ blanks ++ many1 isPathPart ++ renamed))

/-- The pattern for lists reads lines with the word `import`. -/
def readsList : Headed "import".toList listImport where
  tail := listTail
  anchored := {
    fit_eq := fun _ ↦ rfl
    shuns := shuns_import listTail }
  isRun := isWord_import
  shuns := (shuns_many1 fun _ h ↦ isBlank_eq_false_of_isWord h).append _

/-- What stands behind a line: blanks, and perhaps another line. -/
def EndsLine (rest : List Char) : Prop :=
  (∀ c ∈ rest.head?, isBlank c = true) ∧
    ∃ gap next, rest = gap ++ next ∧ IsGap gap ∧ ∀ c ∈ next.head?, c = 'f' ∨ c = 'i'

/-- The end of a line ends a module: neither a letter nor a comma follows on the blanks and the line
feed there. The next line begins with `from` or `import`. -/
theorem EndsLine.endsModule {rest : List Char} (h : EndsLine rest) : EndsModule rest := by
  obtain ⟨hhead, gap, next, rfl, hgap, hnext⟩ := h
  refine ⟨fun c hc ↦ isPathPart_eq_false_of_isBlank (hhead c hc), gap, next, rfl, hgap, ?_⟩
  intro c hc
  rcases hnext c hc with rfl | rfl <;> decide

/-- No comma follows on a line. -/
theorem EndsLine.misses_oneMore {rest : List Char} (h : EndsLine rest) : Misses oneMore rest := by
  obtain ⟨-, gap, next, rfl, hgap, hnext⟩ := h
  refine Code.misses_oneMore hgap fun c hc ↦ ?_
  rcases hnext c hc with rfl | rfl <;> decide

namespace ImportLine

/-- The written form, cut where the pattern for modules stops. -/
theorem text_fromModule (module names : List Char) : (fromModule module names).text =
    "from".toList ++ ([' '] ++ (module ++ ([' '] ++ "import".toList))) ++ ' ' :: names := by
  rw [List.append_assoc, List.append_assoc, List.append_assoc, List.append_assoc]
  rfl

/-- The written form, cut where a list begins. -/
theorem text_list (first : ListedModule) (others : List ListedModule) :
    (list first others).text =
      "import".toList ++ ([' '] ++ (first.text ++ moreText others)) := by
  have hjoin := join_cons_eq_flatMap ", ".toList first.text (others.map ListedModule.text)
  rw [List.flatMap_map] at hjoin
  exact congrArg ("import ".toList ++ ·) hjoin

/-- Each line is one line. -/
theorem newline_not_mem_text {l : ImportLine} (hl : l.IsProper) : '\n' ∉ l.text := by
  have hlistable {name : List Char} (h : IsListable name) : '\n' ∉ name := fun hmem ↦
    absurd (h.2 '\n' hmem).1 (by decide)
  cases l with
  | fromModule module names =>
    obtain ⟨-, hpath, hnames⟩ := hl
    have hmodule : '\n' ∉ module := fun hmem ↦
      absurd (isBlank_eq_false_of_isPathPart (hpath '\n' hmem)) (by decide)
    simp [text_fromModule, hmodule, hnames]
  | list first others =>
    have hmodule (m : ListedModule) : '\n' ∉ m.text := by
      rw [ListedModule.text, List.mem_append, not_or]
      refine ⟨hlistable m.isName, ?_⟩
      rcases hlocal : m.localName with - | a
      · exact List.not_mem_nil
      · simp [hlistable (m.isLocalName a hlocal)]
    simp [text_list, moreText, hmodule]

/-- The first word of a line tells which pattern reads it. -/
theorem takeWhile_fromModule (module names rest : List Char) :
    ((fromModule module names).text ++ rest).takeWhile isWord = "from".toList := by
  have hword : ∀ c ∈ "from".toList, isWord c = true := List.all_eq_true.1 (by decide)
  have hspace (t : List Char) : ∀ c ∈ ([' '] ++ t).head?, isWord c = false := by
    rintro c ⟨⟩
    decide
  rw [text_fromModule]
  simp only [List.append_assoc]
  exact (takeWhile_dropWhile_append hword (hspace _)).1

/-- The first word of a list is `import`. -/
theorem takeWhile_list (first : ListedModule) (others : List ListedModule) (rest : List Char) :
    ((list first others).text ++ rest).takeWhile isWord = "import".toList := by
  have hspace (t : List Char) : ∀ c ∈ ([' '] ++ t).head?, isWord c = false := by
    rintro c ⟨⟩
    decide
  rw [text_list]
  simp only [List.append_assoc]
  exact (takeWhile_dropWhile_append isWord_import (hspace _)).1

end ImportLine

section Lines

variable {before : Option Char} {gap rest : List Char}

/-- A line that a pattern does not read is passed. -/
theorem captures_other {word : List Char} {pattern : Pattern} (r : Headed word pattern)
    (hgap : IsGap gap) {l : ImportLine} (hl : l.IsProper)
    (hword : (l.text ++ rest).takeWhile isWord ≠ word) :
    ∃ last, capturesFrom pattern 0 before (gap ++ (l.text ++ rest)) =
      capturesFrom pattern 0 last rest := by
  have hne : l.text ≠ [] := by cases l <;> exact List.cons_ne_nil _ _
  have hhead : ∀ c ∈ l.text.head?, isBlank c = false := by
    cases l <;> (rintro c ⟨⟩; decide)
  exact ⟨_, r.anchored.captures_pass before hgap hne hhead (ImportLine.newline_not_mem_text hl)
    (r.misses hword)⟩

/-- The pattern for modules captures the module between `from` and `import`. -/
theorem reads_fromModule {module : List Char} (hne : module ≠ [])
    (hpath : ∀ c ∈ module, isPathPart c = true) (rest : List Char) :
    Reads (literal "from".toList ++ fromTail)
      ("from".toList ++ ([' '] ++ (module ++ ([' '] ++ "import".toList)))) (' ' :: rest)
      module := by
  have hedge : Takes (literal "import".toList ++ wordEdge) "import".toList (' ' :: rest) :=
    takes_word_edge (by decide) rfl
  have himport : ∀ c ∈ ("import".toList ++ ' ' :: rest).head?, isBlank c = false := by
    rintro c ⟨⟩
    decide
  have hblank : ∀ c ∈ ([' '] ++ "import".toList ++ ' ' :: rest).head?, isPathPart c = false := by
    rintro c ⟨⟩
    decide
  have hmodule := (takes_many1 hne hpath hblank).group.append
    ((takes_many1 (by decide) isGap_space himport).append hedge)
  have hhead : ∀ c ∈ (module ++ ([' '] ++ "import".toList) ++ ' ' :: rest).head?,
      isBlank c = false := by
    obtain ⟨c, module, rfl⟩ := List.exists_cons_of_ne_nil hne
    rintro d ⟨⟩
    exact isBlank_eq_false_of_isPathPart (hpath c List.mem_cons_self)
  exact (takes_literal _ _).reads_append
    ((takes_many1 (by decide) isGap_space hhead).reads_append hmodule)

/-- The name of a module is one word, so it names itself. -/
theorem names_module {module : List Char} (hne : module ≠ [])
    (hpath : ∀ c ∈ module, isPathPart c = true) : NamesModule module module := by
  have hblank : ∀ c ∈ module, isBlank c = false := fun c hc ↦
    isBlank_eq_false_of_isPathPart (hpath c hc)
  have hcomma : isPathPart ',' = false := by decide
  refine ⟨fun hmem ↦ ?_, ?_⟩
  · rw [hpath ',' hmem] at hcomma
    exact Bool.false_ne_true hcomma.symm
  · have hnone : ∀ c ∈ ([] : List Char).head?, isBlank c = true := by simp
    have hwords := head?_words hne hblank hnone
    rwa [List.append_nil] at hwords

/-- What the pattern for modules finds in a line. -/
theorem captures_fromImport (hgap : IsGap gap)
    (hbegins : before.all (· == '\n') = true ∨ '\n' ∈ gap) {l : ImportLine} (hl : l.IsProper)
    (rest : List Char) :
    ∃ last captures, capturesFrom fromImport 0 before (gap ++ (l.text ++ rest)) =
        captures ++ capturesFrom fromImport 0 last rest ∧
      captures.flatMap PatternSet.listedNames = l.module?.toList := by
  cases l with
  | fromModule module names =>
    have hproper := hl
    obtain ⟨hne, hpath, -⟩ := hproper
    let piece := "from".toList ++ ([' '] ++ (module ++ ([' '] ++ "import".toList)))
    have htext : (ImportLine.fromModule module names).text = piece ++ ' ' :: names :=
      ImportLine.text_fromModule module names
    have hpiece : ∀ c ∈ piece.head?, isBlank c = false := by
      rintro c ⟨⟩
      decide
    have hline := ImportLine.newline_not_mem_text hl
    rw [htext] at hline
    obtain ⟨last, hlast⟩ := readsFrom.anchored.captures_line hgap hbegins (by simp [piece]) hpiece
      hline (reads_fromModule hne hpath (names ++ rest))
    refine ⟨last, [module], ?_, ?_⟩
    · rw [htext, List.append_assoc]
      exact hlast
    · rw [List.flatMap_singleton, (names_module hne hpath).listedNames]
      rfl
  | list first others =>
    have hother : "import".toList ≠ "from".toList := by decide
    obtain ⟨last, hlast⟩ := captures_other readsFrom hgap hl
      ((ImportLine.takeWhile_list first others rest).trans_ne hother)
    exact ⟨last, [], hlast, rfl⟩

/-- What the pattern for lists finds in a line. -/
theorem captures_listImport (hgap : IsGap gap)
    (hbegins : before.all (· == '\n') = true ∨ '\n' ∈ gap) {l : ImportLine} (hl : l.IsProper)
    (hrest : EndsLine rest) :
    ∃ last captures, capturesFrom listImport 0 before (gap ++ (l.text ++ rest)) =
        captures ++ capturesFrom listImport 0 last rest ∧
      captures.flatMap PatternSet.listedNames = readNames l.listed := by
  cases l with
  | fromModule module names =>
    have hother : "from".toList ≠ "import".toList := by decide
    obtain ⟨last, hlast⟩ := captures_other readsList hgap hl
      ((ImportLine.takeWhile_fromModule module names rest).trans_ne hother)
    exact ⟨last, [], hlast, rfl⟩
  | list first others =>
    have htext := ImportLine.text_list first others
    have hline := ImportLine.newline_not_mem_text hl
    rw [htext] at hline
    by_cases hfront : first.front = []
    -- the first name cannot be read, so the pattern misses the whole line
    · have hmiss := (((misses_oneModule hfront (moreText others ++ rest)).append
        (repeated oneMore)).group.many1_append (shuns_oneModule.append _).group isGap_space
        (head?_text_append first _)).literal_append "import".toList
      have hhead : ∀ c ∈ (ImportLine.list first others).text.head?, isBlank c = false := by
        rintro c ⟨⟩
        decide
      refine ⟨_, [], readsList.anchored.captures_pass before hgap (by simp [htext]) hhead
        (ImportLine.newline_not_mem_text hl) ?_, (readNames_of_front_eq_nil hfront).symm⟩
      rw [htext]
      simp only [List.append_assoc]
      exact hmiss
    · obtain ⟨s, taken, left, hsplit, hs, htakes, hmany, hnames⟩ := exists_takes_modules hfront
        hrest.endsModule (exists_areReadUpTo others hrest.endsModule hrest.misses_oneMore)
      -- what is read up to, and what is left of the line behind it
      let piece := "import".toList ++ ([' '] ++ (s ++ taken))
      have hwhole :
          "import".toList ++ ([' '] ++ (first.text ++ moreText others)) = piece ++ left := by
        simp [piece, hsplit]
      have hhead : ∀ c ∈ (s ++ taken ++ (left ++ rest)).head?, isBlank c = false := by
        have hfirst : s ++ taken ++ (left ++ rest) = first.text ++ (moreText others ++ rest) := by
          rw [← List.append_assoc first.text, hsplit]
          simp
        rw [hfirst]
        exact head?_text_append first _
      have hpiece : ∀ c ∈ piece.head?, isBlank c = false := by
        rintro c ⟨⟩
        decide
      have hread : Reads (literal "import".toList ++ listTail) piece (left ++ rest) (s ++ taken) :=
        (takes_literal _ _).reads_append ((takes_many1 (by decide) isGap_space hhead).reads_append
          (htakes.append hmany.takes).group)
      rw [hwhole] at hline htext
      obtain ⟨last, hlast⟩ := readsList.anchored.captures_line hgap hbegins (by simp [piece]) hpiece
        hline hread
      refine ⟨last, [s ++ taken], ?_, ?_⟩
      · rw [htext, List.append_assoc]
        exact hlast
      · rw [List.flatMap_singleton, hnames s hs]
        rfl

end Lines

/-! ### Whole sources -/

namespace PythonSource

/-- What stands behind the first of some lines. -/
def moreLines (ls : List ImportLine) : List Char := ls.flatMap fun l ↦ ['\n'] ++ l.text

/-- Behind a line there are more lines, or blanks to the end. -/
theorem endsLine_moreLines (ls : List ImportLine) {back : List Char} (hback : IsGap back) :
    EndsLine (moreLines ls ++ back) := by
  cases ls with
  | nil =>
    refine ⟨fun c hc ↦ hback c (List.mem_of_head? hc), back, [], ?_, hback, by simp⟩
    rw [List.append_nil]
    rfl
  | cons l ls =>
    refine ⟨?_, ['\n'], l.text ++ (moreLines ls ++ back), ?_, by decide, ?_⟩
    · rintro c ⟨⟩
      decide
    · simp [moreLines]
    · cases l <;> (rintro c ⟨⟩; decide)

variable {word : List Char} {pattern : Pattern} {found : ImportLine → List (List Char)}

/-- What a pattern finds in a source is what it finds in the lines, one after the other. -/
theorem listedNames_captures (r : Headed word pattern) (hword : word ≠ [])
    (hline : ∀ (before : Option Char) (gap : List Char) (l : ImportLine) (rest : List Char),
      IsGap gap → before.all (· == '\n') = true ∨ '\n' ∈ gap → l.IsProper → EndsLine rest →
      ∃ last captures, capturesFrom pattern 0 before (gap ++ (l.text ++ rest)) =
          captures ++ capturesFrom pattern 0 last rest ∧
        captures.flatMap PatternSet.listedNames = found l)
    (s : PythonSource) :
    (pattern.captures s.text).flatMap PatternSet.listedNames = s.lines.flatMap found := by
  have hback (before : Option Char) : capturesFrom pattern 0 before s.back = [] :=
    r.captures_back hword before s.isGap_back
  -- all lines but the first have a line end in front of them
  have hmore (before : Option Char) {ls : List ImportLine} (hproper : ∀ l ∈ ls, l.IsProper) :
      (capturesFrom pattern 0 before (moreLines ls ++ s.back)).flatMap PatternSet.listedNames =
        ls.flatMap found := by
    induction ls generalizing before with
    | nil =>
      exact congrArg (List.flatMap PatternSet.listedNames) (hback before)
    | cons l ls ih =>
      obtain ⟨hl, hproper⟩ := List.forall_mem_cons.1 hproper
      obtain ⟨last, captures, hlast, hfound⟩ := hline before ['\n'] l _ (by decide)
        (Or.inr List.mem_cons_self) hl (endsLine_moreLines ls s.isGap_back)
      have htext : moreLines (l :: ls) ++ s.back =
          ['\n'] ++ (l.text ++ (moreLines ls ++ s.back)) := by simp [moreLines]
      rw [htext, hlast, List.flatMap_append, hfound, ih last hproper, List.flatMap_cons]
  have hproper := s.isProper
  rw [captures, text]
  generalize s.lines = lines at hproper ⊢
  rcases lines with - | ⟨l, ls⟩
  · exact congrArg (List.flatMap PatternSet.listedNames) (hback none)
  · obtain ⟨hl, hproper⟩ := List.forall_mem_cons.1 hproper
    obtain ⟨last, captures, hlast, hfound⟩ := hline none [] l _ isGap_nil (Or.inl rfl) hl
      (endsLine_moreLines ls s.isGap_back)
    have htext : join ['\n'] ((l :: ls).map ImportLine.text) ++ s.back =
        [] ++ (l.text ++ (moreLines ls ++ s.back)) := by
      rw [List.map_cons, join_cons_eq_flatMap, List.flatMap_map, List.append_assoc]
      rfl
    rw [htext, hlast, List.flatMap_append, hfound, hmore last hproper, List.flatMap_cons]

/-- No name is empty, so none is left out when imports are collected. -/
theorem forall_ne_nil (s : PythonSource) : ∀ p ∈ s.modules ++ s.listedNames, p ≠ [] := by
  intro p hp
  rcases List.mem_append.1 hp with hp | hp
  · obtain ⟨l, hl, hp⟩ := List.mem_filterMap.1 hp
    cases l with
    | fromModule module names =>
      obtain ⟨⟩ := hp
      exact (s.isProper _ hl).1
    | list first others => cases hp
  · obtain ⟨l, -, hp⟩ := List.mem_flatMap.1 hp
    rcases List.mem_append.1 hp with hp | hp
    · obtain ⟨m, -, rfl⟩ := List.mem_map.1 hp
      exact m.isName.1
    · exact of_decide_eq_true (Option.mem_filter_iff.1 (Option.mem_toList.1 hp)).2

end PythonSource

/-- **Imports of lines.** They are the modules from which names are imported, in the order of the
lines, and behind them what is read of the lists, each name where it first occurs. Of a list all
names are read up to the first module that is not plain. -/
theorem python_imports_exact (s : PythonSource) :
    ((PatternSet.ofLanguage .python).extract (String.ofList s.text)).imports =
      Assoc.distinct ((s.modules ++ s.listedNames).map String.ofList) := by
  have hmodules := s.listedNames_captures readsFrom (by decide)
    fun _ _ _ rest hgap hbegins hl _ ↦ captures_fromImport hgap hbegins hl rest
  have hlists := s.listedNames_captures readsList (by decide)
    fun _ _ _ _ hgap hbegins hl hrest ↦ captures_listImport hgap hbegins hl hrest
  rw [← List.filterMap_eq_flatMap_toList] at hmodules
  have hnames : Code.python.names .imports s.text =
      (s.modules ++ s.listedNames).map String.ofList := by
    have hget : Code.python.get .imports = [fromImport, listImport] := rfl
    have hsplits : Code.python.namesOf = PatternSet.listedNames := rfl
    rw [PatternSet.names, hget, hsplits]
    simp only [List.flatMap_cons, List.flatMap_nil, List.append_nil, List.flatMap_append, hmodules,
      hlists]
    rfl
  have hne : ∀ n ∈ (s.modules ++ s.listedNames).map String.ofList, n ≠ "" := by
    intro n hn
    obtain ⟨p, hp, rfl⟩ := List.mem_map.1 hn
    simpa using s.forall_ne_nil p hp
  have hget := Code.python.get_extract (String.ofList s.text) .imports
  have hgroups : Code.python.groupedNames s.text = [] := rfl
  rw [String.toList_ofList, hnames, hgroups, ite_self, List.append_nil] at hget
  have hreserved : ((s.modules ++ s.listedNames).map String.ofList).filter
      (fun n ↦ !Code.python.reserved.contains n) = (s.modules ++ s.listedNames).map String.ofList :=
    List.filter_eq_self.2 fun _ _ ↦ rfl
  rw [hreserved, List.filter_eq_self.2 (by simpa using hne)] at hget
  exact hget

/-- A vowel sign ends what is read of a name and of its list. -/
example : (Code.python.extract "import os, हिन्दी, re").imports = ["os", "ह"] := by decide +kernel

end RepoSurvey.Code
