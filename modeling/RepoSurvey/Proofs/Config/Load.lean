import RepoSurvey.Proofs.Yaml.Nodes
import RepoSurvey.Proofs.Yaml.Tokens
import RepoSurvey.Survey.Groundwork

/-!
# Broken configurations

A configuration is loaded, or refused with a fault that a survey goes on without, whatever the file
says, unless one of the causes of `Config.Unforeseen` stands in it: text that stands for no scalar,
or a number that does not fit where it is used; or the file cannot be looked up at all, since links
lead in a circle or a path is no path or too long. `Config.load_settles` says that there are no
other causes, and that a survey has a configuration without them.
-/

namespace RepoSurvey

/-- A text is written for a document. -/
def Yaml.Writes (text : String) (d : Document) : Prop :=
  ∃ ts, tokens text.toList = .ok ts ∧ Grammar.document { tokens := ts } = .ok (some d)

namespace Config

/-! ### Causes -/

/-- The settings of a document of which a list of texts is made. -/
def patternSettings (d : Yaml.Document) : List Setting :=
  [settingAt d (some d.root) "ignore", settingAt d (d.field? d.root "dead_code") "entry_points"]

/-- What a text says keeps it from being read, in a way that is not reported. -/
inductive Unreadable (text : String) : ConfigFault → Prop
  /-- A part of the text stands for no scalar. -/
  | misspelt {fault : Yaml.ScalarFault} :
      Yaml.Misspelt text.toList fault → Unreadable text (.scalar fault)
  /-- Somewhere in the document stands a node without a value. -/
  | valueless {d : Yaml.Document} {n : Yaml.Node} {fault : Yaml.ScalarFault} :
      Yaml.Writes text d → d.Within n → d.Valueless n fault → Unreadable text (.scalar fault)
  /-- The threshold is beyond all doubles. -/
  | threshold {d : Yaml.Document} {n : Int} :
      Yaml.Writes text d →
      settingAt d (d.field? d.root "history") "cochange_threshold" = .int n →
      Decimal.ofInt? n = none → Unreadable text (.hugeNumber .hugeNumber)
  /-- A pattern is a whole number that is too long to be written. -/
  | pattern {d : Yaml.Document} {s : Setting} {n : Int} :
      Yaml.Writes text d → s ∈ patternSettings d → .int n ∈ s.items →
      Nat.pow 10 Decimal.longestInt ≤ n.natAbs → Unreadable text (.hugeNumber .longNumber)

/-- The configuration of a path cannot be loaded, and a survey cannot go on without it. -/
inductive Unforeseen (files : FileTree) (path : String) : ConfigFault → Prop
  /-- The file is a link in a circle of links, or its path has a null character. -/
  | realPath {fault : FileTree.RealPathFault} :
      filePath files path = .error (.realPath fault) → Unforeseen files path (.realPath fault)
  /-- The path is refused for length. -/
  | longPath : files.refuses path = true → Unforeseen files path (.tooLong ⟨path⟩)
  /-- The real path of the file is refused for length. -/
  | longFile {file : String} :
      filePath files path = .ok file → files.refuses file = true →
      Unforeseen files path (.tooLong ⟨file⟩)
  /-- The text of the file cannot be read, in a way that is not reported. -/
  | text {file text : String} {fault : ConfigFault} :
      filePath files path = .ok file → files.readText file = .ok text →
      Unreadable text fault → Unforeseen files path fault

/-! ### Numbers -/

/-- A number is too huge for a double only if it is an integer that rounds to none. -/
theorem hugeNumber_of_toFloat? {s : Setting} {fault : Setting.HugeNumber}
    (h : s.toFloat? = .error fault) :
    fault = .hugeNumber ∧ ∃ n, s = .int n ∧ Decimal.ofInt? n = none := by
  unfold Setting.toFloat? at h
  split at h
  · split at h
    · cases h
    · cases h
      exact ⟨rfl, _, rfl, ‹_›⟩
  · cases h
  · cases h
  · cases h

/-- A list of texts is refused only for an integer with too many digits. -/
theorem longNumber_of_toTexts? {s : Setting} {fault : Setting.HugeNumber}
    (h : s.toTexts? = .error fault) :
    fault = .longNumber ∧ ∃ n, .int n ∈ s.items ∧ Nat.pow 10 Decimal.longestInt ≤ n.natAbs := by
  unfold Setting.toTexts? at h
  split at h
  · rename_i hlong
    cases h
    obtain ⟨item, hitem, hlong⟩ := List.any_eq_true.1 hlong
    unfold Setting.isLong at hlong
    split at hlong
    · exact ⟨rfl, _, hitem, of_decide_eq_true hlong⟩
    · cases hlong
  · cases h

/-- Where a document makes no configuration, what is wrong stands in the text. -/
theorem unreadable_of_ofDocument {text root : String} {d : Yaml.Document}
    {fault : Setting.HugeNumber} (hd : Yaml.Writes text d)
    (h : ofDocument root d = .error fault) : Unreadable text (.hugeNumber fault) := by
  unfold ofDocument at h
  extract_lets deadCode history at h
  rcases hentries : (deadCode "entry_points").toTexts? with e | entries
  · rw [hentries] at h
    cases h
    obtain ⟨rfl, n, hn, hlong⟩ := longNumber_of_toTexts? hentries
    exact .pattern hd (List.mem_cons_of_mem _ List.mem_cons_self) hn hlong
  rcases hthreshold : (history "cochange_threshold").toFloat? with e | threshold
  · rw [hentries, hthreshold] at h
    cases h
    obtain ⟨rfl, n, hn, hhuge⟩ := hugeNumber_of_toFloat? hthreshold
    exact .threshold hd hn hhuge
  rcases hignore : (settingAt d (some d.root) "ignore").toTexts? with e | ignore
  · rw [hentries, hthreshold, hignore] at h
    cases h
    obtain ⟨rfl, n, hn, hlong⟩ := longNumber_of_toTexts? hignore
    exact .pattern hd List.mem_cons_self hn hlong
  · rw [hentries, hthreshold, hignore] at h
    cases h

/-! ### Documents -/

/-- To read a text has a document of it, or finds it malformed, or meets a scalar without a value.
-/
theorem yields_read (text : String) :
    Yaml.Yields (fun fault ↦ Unreadable text (.scalar fault))
      (fun found ↦ ∀ d, found = some d → Yaml.Writes text d) (Yaml.read text) := by
  unfold Yaml.read
  rcases htokens : Yaml.tokens text.toList with (problem | fault) | ts
  · trivial
  · exact .misspelt (Yaml.misspelt_of_tokens htokens)
  simp only [bind, Except.bind]
  rcases hdocument : Yaml.Grammar.document { tokens := ts } with problem | - | d
  · trivial
  · exact fun d hd ↦ nomatch hd
  have hd : Yaml.Writes text d := ⟨ts, htokens, hdocument⟩
  have hcheck : Yaml.Yields (fun fault ↦ Unreadable text (.scalar fault)) (fun _ ↦ True) d.check :=
    d.yields_check.imp fun fault ⟨n, hn, hfault⟩ ↦ .valueless hd hn hfault
  exact hcheck.bind fun _ _ d' hd' ↦ Option.some.inj hd' ▸ hd

/-! ### Loading -/

/-- A step has a result, or a fault that is reported or has a cause of a kind. -/
def Settles {α : Type} (cause : ConfigFault → Prop) (r : Except ConfigFault α) : Prop :=
  (∃ a, r = .ok a) ∨ ∃ fault, r = .error fault ∧ (fault.isExpected ∨ cause fault)

/-- What a text is read as, or why it is not. -/
theorem settles_ofText (path root text : String) :
    Settles (Unreadable text) (ofText path root text) := by
  unfold ofText
  split
  · exact .inl ⟨_, rfl⟩
  have hread := yields_read text
  split
  · exact .inr ⟨_, rfl, .inl rfl⟩
  · rename_i hfault
    rw [hfault] at hread
    exact .inr ⟨_, rfl, .inr hread⟩
  · exact .inl ⟨_, rfl⟩
  rename_i d hd
  rw [hd] at hread
  split
  · rcases hof : ofDocument root d with fault | c
    · exact .inr ⟨_, rfl, .inr (unreadable_of_ofDocument (hread d rfl) hof)⟩
    · exact .inl ⟨c, rfl⟩
  split
  · exact .inl ⟨_, rfl⟩
  · exact .inr ⟨_, rfl, .inl rfl⟩

/-- An answer is withheld only where the look-up is refused for length. -/
theorem eq_of_unlessRefused {files : FileTree} {path : String} {answer : Bool}
    {fault : FileTree.LongPath} (h : files.unlessRefused path answer = .error fault) :
    files.refuses path = true ∧ fault = ⟨path⟩ := by
  rw [FileTree.unlessRefused] at h
  split at h
  · exact ⟨‹_›, (Except.error.inj h).symm⟩
  · cases h

/-- The file of a configuration cannot be looked up for an unforeseen cause only. -/
theorem unforeseen_of_filePath {files : FileTree} {path : String} {fault : ConfigFault}
    (h : filePath files path = .error fault) : Unforeseen files path fault := by
  rcases hcheck : files.checkDir path with long | isDirectory
  · obtain ⟨hrefuses, rfl⟩ := eq_of_unlessRefused hcheck
    rw [filePath, hcheck] at h
    obtain rfl := Except.error.inj h
    exact .longPath hrefuses
  · have hfile := h
    rw [filePath, hcheck] at hfile
    dsimp only at hfile
    -- what is left to fail is the search for the real path
    generalize files.realPath _ = real at hfile
    cases real with
    | error realFault =>
      obtain rfl := Except.error.inj hfile
      exact .realPath h
    | ok file => cases hfile

/-- A configuration is loaded, or refused for a cause that is known. -/
theorem settles_load (files : FileTree) (path : String) :
    Settles (Unforeseen files path) (load files path) := by
  unfold load
  split
  · exact .inr ⟨_, rfl, .inr (unforeseen_of_filePath ‹_›)⟩
  rename_i file hfile
  dsimp only
  split
  · rename_i long hcheck
    obtain ⟨hrefuses, rfl⟩ := eq_of_unlessRefused hcheck
    exact .inr ⟨_, rfl, .inr (.longFile hfile hrefuses)⟩
  · exact .inl ⟨_, rfl⟩
  · split
    · exact .inr ⟨_, rfl, .inl rfl⟩
    · rename_i text htext
      obtain hok | ⟨fault, hfault, hcause⟩ := settles_ofText file (Path.parent file) text
      · exact .inl hok
      · exact .inr ⟨fault, hfault, hcause.imp_right (.text hfile htext)⟩

/-- **Only an unforeseen cause keeps a survey from its configuration.** -/
theorem load_settles (files : FileTree) (path : String) :
    Settles (Unforeseen files path) (load files path) ∧
      ((∃ found, Groundwork.config files path = .ok found) ∨
        ∃ fault, Groundwork.config files path = .error (.config fault) ∧
          Unforeseen files path fault) := by
  have hload := settles_load files path
  refine ⟨hload, ?_⟩
  unfold Groundwork.config
  obtain ⟨c, hc⟩ | ⟨fault, hfault, hcause⟩ := hload
  · rw [hc]
    exact .inl ⟨_, rfl⟩
  · rw [hfault]
    dsimp only
    split
    · exact .inl ⟨_, rfl⟩
    · exact .inr ⟨fault, rfl, hcause.resolve_left ‹_›⟩

end Config

end RepoSurvey
