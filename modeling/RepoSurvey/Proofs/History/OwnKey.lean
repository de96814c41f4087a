import RepoSurvey.Proofs.History.KeyPlace
import RepoSurvey.Proofs.History.Ownership

/-!
# The commits over which files are counted

Which files change together with a file is counted over commits that are looked up by the key of the
file, taken for a path once more. These are the commits that are told of the key
(`Turns.AtRest.ask_together`), so they are those of the file where the key is its own key.
-/

namespace RepoSurvey.History

open RepoSurvey.Path RepoSurvey.Text

namespace Memory

variable {script : Script} {m : Memory} {x : LogIndex}

/-- Once a repository has been found, to look for it again does not change what index there is. -/
theorem snd_readIndex_check (h : (m.check script).2 = true) :
    ((m.check script).1.readIndex script).2 = (m.readIndex script).2 := by
  have hbelow := m.isSome_below_check script
  rw [h] at hbelow
  have hagain : (m.check script).1.check script = m.check script := by
    rw [check_of_below hbelow, ← h]
  rw [readIndex, readIndex, m.index_check]
  cases m.index with
  | some x => rfl
  | none => rw [build, build, hagain]

/-- Where the index can be had, the commits that a key has by it are those that are told of it. -/
theorem Sound.snd_commitsFor (hm : m.Sound script) (hx : (m.readIndex script).2 = some x)
    (key : String) :
    ((m.readIndex script).1.commitsFor key x).2 = (m.commitsOf script key).2 := by
  have hread := m.reading_readIndex script
  by_cases hkey : key = ""
  · rw [commitsFor, if_pos hkey, commitsOf]
    split
    · rfl
    · rw [if_pos hkey]
  have hfind := hm.finding hkey
  generalize m.commitsOf script key = go at hfind ⊢
  rw [commitsFor, if_neg hkey]
  cases hfind with
  | refused hrefused =>
    -- there is no index where there is no repository
    generalize m.readIndex script = reading at hread hx
    cases hread with
    | known hindex => exact absurd (hm.check_of_index hindex) (by simp [hrefused])
    | refused | failed => cases hx
    | read _ hbelow =>
      have hfound := m.isSome_below_check script
      rw [hbelow, hrefused] at hfound
      cases hfound
  | told _ htold => rw [hread.steps.keeps htold]
  | looked hbelow hnone =>
    have hfound : (m.check script).2 = true := by rw [← m.isSome_below_check, hbelow]
    rw [lookUp_of_index (by rw [snd_readIndex_check hfound, hx])]
    rcases htold : (m.readIndex script).1.told.lookup key with - | cs
    · rfl
    · exact hread.hold hx hnone htold

/-- To look up the commits of a key does not touch the index. -/
theorem index_commitsFor (m : Memory) (key : String) (x : LogIndex) :
    (m.commitsFor key x).1.index = m.index := by
  rw [commitsFor]
  split_ifs
  · rfl
  · split <;> rfl

/-- Which files change together is counted over the commits of the key of the key. -/
theorem answerFrom_together (m : Memory) (x : LogIndex) (path : String) (threshold : Float) :
    m.answerFrom x (.together path threshold) =
      ((m.commitsFor (keyOf m.repo (keyOf m.repo path)) x).1, .ok (.related (relatedOf x
        (keyOf m.repo path) (m.commitsFor (keyOf m.repo (keyOf m.repo path)) x).2 threshold))) :=
  rfl

/-- A question about a file is answered by the commits of its key. -/
theorem snd_answer_history (script : Script) (m : Memory) (path : String) :
    (m.answer script (.history path)).2 =
      .ok (.commits (m.commitsOf script (keyOf m.repo path)).2) :=
  rfl

/-- How the files are had that change together with a file: there are none, or they are counted over
the commits that are told of its key. -/
theorem Sound.answer_together (hm : m.Sound script) {path key : String}
    (hkey : keyOf m.repo path = key) (threshold : Float) :
    (m.answer script (.together path threshold)).2 = .ok (.related []) ∨
      ∃ x, (m.answer script (.together path threshold)).1.index = some x ∧
        (m.answer script (.together path threshold)).2 =
          .ok (.related (relatedOf x key (m.commitsOf script (keyOf m.repo key)).2 threshold)) := by
  have hread := m.reading_readIndex script
  rw [answer, hkey]
  by_cases hnone : key = ""
  · rw [if_pos hnone]
    exact Or.inl rfl
  rw [if_neg hnone, answerWhole]
  rcases hreads : m.readIndex script with ⟨m₁, _ | x⟩
  · exact Or.inl rfl
  · have hx : (m.readIndex script).2 = some x := by rw [hreads]
    have hcommits := hm.snd_commitsFor hx (keyOf m.repo key)
    have hrepo := m.repo_readIndex script
    rw [hreads] at hread hcommits hrepo
    dsimp only at hcommits hrepo ⊢
    have hindex := m₁.index_commitsFor (keyOf m.repo key) x
    rw [answerFrom_together, hrepo, hkey, hcommits]
    dsimp only
    exact Or.inr ⟨x, hindex.trans hread.index, rfl⟩

end Memory

/-- A question about files that change together with a file, and the commits that would be told of
its key instead. -/
theorem Turns.AtRest.ask_together {script : Script} {t : Turns} {m : Memory} (h : t.AtRest m)
    (hm : m.Sound script) (hscript : script.IsExpected) {path key : String}
    (hkey : keyOf m.repo path = key) (threshold : Float) :
    (t.ask script (.together path threshold)).2 = .ok (.related []) ∨
      ∃ x cs, (t.ask script (.together path threshold)).1.world.index = some x ∧
        (t.ask script (.together path threshold)).2 =
          .ok (.related (relatedOf x key cs threshold)) ∧
        (t.ask script (.history key)).2 = .ok (.commits cs) := by
  obtain ⟨hafter, hanswer⟩ := h.ask hscript (.together path threshold)
  have htold := (h.ask hscript (.history key)).2
  rw [hafter.index, hanswer, htold, Memory.snd_answer_history]
  rcases hm.answer_together hkey threshold with hnone | ⟨x, hx, hrelated⟩
  · exact Or.inl hnone
  · exact Or.inr ⟨x, _, hx, hrelated, rfl⟩

/-- **Files are counted over the commits of a key that stays.** The key of a path, taken for a path,
is its own key if no blank stands at its ends, and is not otherwise. The files that change together
with a file are counted over the commits that would be told of its key, so that with a key that is
its own these are the commits of the file itself, which is left out of the answer. They are so too
where threads take turns. -/
theorem own_key_iff_no_blank_at_ends (repo : String) (now : Int) (path : String)
    (threshold : Float) :
    let root := absolute repo
    let key := keyOf root path
    let q : Query := .together path threshold
    (keyOf root key = key ↔ strip key = key) ∧
    (∀ script : Script, script.IsExpected → ∀ earlier,
      let t := (fresh repo now).afterAsking script earlier
      (t.ask script q).2 = .ok (.related []) ∨
      ∃ x cs, (t.ask script q).1.world.index = some x ∧
        (t.ask script q).2 = .ok (.related (relatedOf x key cs threshold)) ∧
        (t.ask script (.history key)).2 = .ok (.commits cs) ∧
        (strip key = key → (t.ask script (.history path)).2 = .ok (.commits cs))) ∧
    ∀ (b : Outcomes) (events : List Event), (∀ e ∈ events, e.IsExpected) →
      (fresh repo now).world.Obeys b events → strip key = key →
      ∀ a, (fresh repo now).world.Gets events q a →
        a = .related [] ∨ ∃ x cs, b.MayIndex x ∧ a = .related (relatedOf x key cs threshold) ∧
          b.MayYield root now (.history path) (.ok (.commits cs)) := by
  intro root key q
  have hown : keyOf root key = key ↔ strip key = key := keyOf_keyOf_eq_iff repo path
  refine ⟨hown, fun script hscript earlier ↦ ?_, fun b events hevents hobeys hstrip a ha ↦ ?_⟩
  · intro t
    obtain ⟨m, hrest, hsteps⟩ := (atRest_fresh repo now).afterAsking hscript earlier
    have hsound := hsteps.sound (Memory.sound_fresh script root now)
    have hrepo : m.repo = root := hsteps.repo
    have hkey : keyOf m.repo path = key := by rw [hrepo]
    rcases hrest.ask_together hsound hscript hkey threshold with
      hnone | ⟨x, cs, hx, hrelated, htold⟩
    · exact Or.inl hnone
    · refine Or.inr ⟨x, cs, hx, hrelated, htold, fun hstrip ↦ ?_⟩
      -- a question for the commits of a file depends on its key alone
      have hsame : keyOf m.repo key = keyOf m.repo path := by rw [hkey, hrepo, hown.2 hstrip]
      have htold' := (hrest.ask hscript (.history key)).2.symm.trans htold
      rw [(hrest.ask hscript (.history path)).2, ← htold', Memory.snd_answer_history,
        Memory.snd_answer_history, hsame]
  · have hyield : b.MayYield root now (.together path threshold) (.ok a) :=
      ha.mayYield hevents hobeys
    cases hyield with
    | outside | noKey | noIndex => exact Or.inl rfl
    | file hpath | fileLost hpath => cases hpath
    | @together _ _ x cs hkey hx hcs =>
      rw [hown.2 hstrip] at hcs
      exact Or.inr ⟨x, cs, hx, rfl, .file (q := .history path) rfl hkey hcs⟩

/-- The names of the files that are told to change together with a file. -/
def toldFiles : Except Fault Answer → List String
  | .ok (.related files) => files.map CoChange.file
  | _ => []

/-- A path with a detour has a key that stays, so the files are counted over the commits that are
told of the path. -/
theorem own_key_iff_no_blank_at_ends_of_shared :
    let script := topScript sharedLog
    let t := (fresh "/srv/app" 63900000000000000).afterAsking script [.history "b.js"]
    script.IsExpected ∧ strip "a.js" = "a.js" ∧ ∃ x cs,
      (t.ask script (.together "lib/../a.js" 0.2)).2 =
        .ok (.related (relatedOf x "a.js" cs 0.2)) ∧
      (t.ask script (.history "lib/../a.js")).2 = .ok (.commits cs) ∧
      authorsOf cs = ["Ben", "Ada", "Cy", "Ada"] := by
  intro script t
  have hexpected : script.IsExpected := isExpected_topScript sharedLog
  have hkey : keyOf (absolute "/srv/app") "lib/../a.js" = "a.js" := by decide +kernel
  have hstrip : strip "a.js" = "a.js" := by decide
  obtain ⟨-, hasked, -⟩ :=
    own_key_iff_no_blank_at_ends "/srv/app" 63900000000000000 "lib/../a.js" 0.2
  have hauthors : authorsOf (toldCommits (t.ask script (.history "lib/../a.js")).2) =
      ["Ben", "Ada", "Cy", "Ada"] := by
    decide +kernel
  have hfiles : toldFiles (t.ask script (.together "lib/../a.js" 0.2)).2 = ["b.js"] := by
    decide +kernel
  have hresult := hasked script hexpected [.history "b.js"]
  rw [hkey] at hresult
  -- The instance is fixed now, so that nothing unfolds it.
  have ht : (fresh "/srv/app" 63900000000000000).afterAsking script [.history "b.js"] = t :=
    rfl
  rw [ht] at hresult
  clear_value t
  rcases hresult with hnone | ⟨x, cs, -, hrelated, -, hhistory⟩
  · rw [hnone] at hfiles
    cases hfiles
  · refine ⟨hexpected, hstrip, x, cs, hrelated, hhistory hstrip, ?_⟩
    rw [hhistory hstrip] at hauthors
    exact hauthors

end RepoSurvey.History
