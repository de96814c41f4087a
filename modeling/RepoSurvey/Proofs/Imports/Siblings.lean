import RepoSurvey.Proofs.Imports.Spelling
import RepoSurvey.Proofs.Path.Entry

/-!
# Imports of a file beside the importer

A file may import the files of its own directory by a point, a slash and a name. Such a specifier
has one base, the entry of that name (`normal_append_here`), so its candidates can be listed by the
directory and the name alone (`candidates_here`): the entry, the entry with each extension, and the
index files below it.

Extensions are tried for bare names only. So an import that leaves out the extension finds its file
if the name is bare (`resolve_sibling`). Behind a name that has an extension of its own nothing is
put, and the file is missed (`resolve_dotted_sibling`).
-/

namespace RepoSurvey.Imports

open RepoSurvey.Text

variable {directory name : String}

/-- A point in front of a name leads nowhere. -/
theorem normal_append_here (hdirectory : Path.InNormalForm directory.toList)
    (hname : Path.LeadsDown name.toList) :
    Path.normal (Path.append directory ("./" ++ name)) = Path.append directory name := by
  have hrooted := hdirectory.isAbsolute
  have hentry : Path.InNormalForm (Path.joinChars directory.toList name.toList) :=
    hdirectory.joinChars hname
  have hhere : ("./" ++ name).toList = ['.'] ++ '/' :: name.toList := by
    rw [String.toList_append]
    rfl
  have hparts : Path.parts (['.'] ++ '/' :: name.toList) = Path.parts name.toList := by
    rw [Path.parts_append_sep]
    rfl
  rw [Path.normal, Path.append, Path.append, String.toList_ofList, hhere,
    Path.normalChars_joinChars_congr hrooted rfl hname.isAbsolute_eq_false (by rw [hparts]),
    hentry.normalChars_eq]

/-- The candidates for a file beside the importer. -/
theorem candidates_here (hdirectory : Path.InNormalForm directory.toList)
    (hname : Path.LeadsDown name.toList) :
    candidates (Path.append directory ("./" ++ name)) =
      Path.append directory name ::
        ((if Path.IsBare name.toList then
            resolvableExtensions.map fun e ↦ Path.append directory (name ++ e)
          else []) ++
          resolvableExtensions.map fun e ↦
            Path.append (Path.append directory name) ("index" ++ e)) := by
  have hne : name ≠ "" := by
    rintro rfl
    exact hname.ne_nil rfl
  have hlonger : (resolvableExtensions.map fun e ↦ Path.append directory (name ++ e)) =
      resolvableExtensions.map (Path.append directory name ++ ·) :=
    List.map_congr_left fun e _ ↦ Path.append_append hne directory e
  rw [candidates, normal_append_here hdirectory hname, hlonger]
  simp only [Path.extension_append_eq_empty_iff hdirectory hname.1]

theorem resolve_here {r : Resolver} {importer : String}
    (himporter : Path.directory importer = directory) (hpython : endsWith importer ".py" = false) :
    r.resolve importer ("./" ++ name) =
      (candidates (Path.append directory ("./" ++ name))).find? r.hasFile := by
  have hrelative : startsWith ("./" ++ name) "." = true :=
    startsWith_iff.2 ⟨"/" ++ name, by rw [← String.append_assoc]; rfl⟩
  rw [Resolver.resolve_of_not_python hpython (ne_empty_of_relative hrelative),
    Resolver.bases_of_relative hrelative, himporter, List.flatMap_singleton]

/-- What there has to be for an import of a file beside the importer to come to a file. -/
theorem exists_find?_candidates_here (hdirectory : Path.InNormalForm directory.toList)
    (hname : Path.LeadsDown name.toList) (hasFile : String → Bool) :
    (∃ p, (candidates (Path.append directory ("./" ++ name))).find? hasFile = some p) ↔
      hasFile (Path.append directory name) = true ∨
      (Path.IsBare name.toList ∧
        ∃ e ∈ resolvableExtensions, hasFile (Path.append directory (name ++ e)) = true) ∨
      ∃ e ∈ resolvableExtensions,
        hasFile (Path.append (Path.append directory name) ("index" ++ e)) = true := by
  rw [candidates_here hdirectory hname, ← Option.isSome_iff_exists, List.find?_isSome]
  by_cases hbare : Path.IsBare name.toList <;> simp [hbare, or_and_right, exists_or]

/-- An import that leaves out the extension of a file beside the importer comes to a file, provided
that the name is bare. It comes to one exactly if there is the file that is named, a file with an
extension behind the name, for bare names only, or an index file in a directory of that name. -/
theorem resolve_sibling {r : Resolver} {importer : String}
    (hrooted : Path.isRooted directory = true) (hnormal : Path.normal directory = directory)
    (himporter : Path.directory importer = directory) (hpython : endsWith importer ".py" = false)
    (hname : Path.LeadsDown name.toList) :
    (Path.IsBare name.toList → ∀ e ∈ resolvableExtensions,
      r.hasFile (Path.append directory (name ++ e)) = true →
        ∃ p, r.resolve importer ("./" ++ name) = some p ∧ r.hasFile p = true) ∧
    ((∃ p, r.resolve importer ("./" ++ name) = some p) ↔
      r.hasFile (Path.append directory name) = true ∨
      (Path.IsBare name.toList ∧
        ∃ e ∈ resolvableExtensions, r.hasFile (Path.append directory (name ++ e)) = true) ∨
      ∃ e ∈ resolvableExtensions,
        r.hasFile (Path.append (Path.append directory name) ("index" ++ e)) = true) := by
  have hdirectory : Path.InNormalForm directory.toList := by
    rw [← hnormal, Path.normal, String.toList_ofList]
    exact Path.inNormalForm_normalChars hrooted
  have hfound := exists_find?_candidates_here hdirectory hname r.hasFile
  rw [resolve_here himporter hpython]
  refine ⟨fun hbare e he hfile ↦ ?_, hfound⟩
  obtain ⟨p, hp⟩ := hfound.2 (Or.inr (Or.inl ⟨hbare, e, he, hfile⟩))
  exact ⟨p, hp, List.find?_some hp⟩

/-- A resolver for a repository with one file. -/
def oneFile (path : String) : Resolver where
  hasFile p := p == path

/-- The points at the front of a name begin no extension. -/
theorem resolve_sibling_oneFile :
    Path.IsBare ".user".toList ∧
      (oneFile "/repo/.user.ts").hasFile (Path.append "/repo" (".user" ++ ".ts")) = true ∧
      ∃ p, (oneFile "/repo/.user.ts").resolve "/repo/main.js" ("./" ++ ".user") = some p ∧
        (oneFile "/repo/.user.ts").hasFile p = true := by
  have hbare : Path.IsBare ".user".toList := by decide
  have hfile :
      (oneFile "/repo/.user.ts").hasFile (Path.append "/repo" (".user" ++ ".ts")) = true := by
    decide +kernel
  obtain ⟨hfinds, -⟩ := @resolve_sibling "/repo" ".user" (oneFile "/repo/.user.ts") "/repo/main.js"
    (by decide) (by decide +kernel) (by decide +kernel) (by decide) (by decide)
  exact ⟨hbare, hfile, hfinds hbare ".ts" (by decide) hfile⟩

/-- The file behind a name with an extension of its own is missed. -/
theorem resolve_dotted_sibling :
    Path.isRooted "/repo" = true ∧ Path.normal "/repo" = "/repo" ∧
      Path.directory "/repo/main.ts" = "/repo" ∧ endsWith "/repo/main.ts" ".py" = false ∧
      Path.LeadsDown "user.service".toList ∧ ".ts" ∈ resolvableExtensions ∧
      (oneFile "/repo/user.service.ts").hasFile
        (Path.append "/repo" ("user.service" ++ ".ts")) = true ∧
      (oneFile "/repo/user.service.ts").resolve "/repo/main.ts" ("./" ++ "user.service") =
        none := by
  decide +kernel

end RepoSurvey.Imports
