import RepoSurvey.Imports.Resolver
import RepoSurvey.Proofs.Path.Normal

/-!
# Spellings of an import

A specifier comes to the first file among the candidates of its bases, and the candidates of a base
are told by its normal form (`candidates_congr`). So it does not matter how a base is spelled, nor
by which way a specifier came to it (`Resolver.resolve_congr`). Where bases are absolute, every
candidate is in normal form (`inNormalForm_of_mem_candidates`): what is found can be looked up among
the files of a graph by its text.

`resolve_any_spelling` puts this together. `resolve_empty_specifier` shows why it leaves the empty
specifier out.
-/

namespace RepoSurvey.Imports

open RepoSurvey.Text

/-! ### Candidates -/

/-- The files that a path may mean are told by its normal form. -/
theorem candidates_congr {base base' : String} (h : Path.normal base = Path.normal base') :
    candidates base = candidates base' := by
  unfold candidates
  rw [h]

/-- The files that an absolute path may mean have paths in normal form. -/
theorem inNormalForm_of_mem_candidates {base p : String} (hbase : Path.isRooted base = true)
    (hp : p ∈ candidates base) : Path.InNormalForm p.toList := by
  have hextension : ∀ e ∈ resolvableExtensions, '/' ∉ e.toList ∧ 2 < e.toList.length := by decide
  have hindex : ∀ e ∈ resolvableExtensions, Path.LeadsDown ("index" ++ e).toList := by decide
  have hnormal : Path.InNormalForm (Path.normal base).toList := by
    rw [Path.normal, String.toList_ofList]
    exact Path.inNormalForm_normalChars hbase
  rcases List.mem_cons.1 hp with rfl | hp
  · exact hnormal
  rcases List.mem_append.1 hp with hp | hp
  · split at hp
    · obtain ⟨e, he, rfl⟩ := List.mem_map.1 hp
      rw [String.toList_append]
      exact hnormal.append (hextension e he).1 (hextension e he).2
    · cases hp
  · obtain ⟨e, he, rfl⟩ := List.mem_map.1 hp
    rw [Path.append, String.toList_ofList]
    exact hnormal.joinChars (hindex e he)

/-! ### Bases -/

/-- What an alias stands for begins at the root if its front does, whatever fills the star. -/
theorem AliasTarget.isRooted_expand {t : AliasTarget} (h : Path.isRooted t.front = true)
    (wild : String) : Path.isRooted (t.expand wild) = true := by
  rw [AliasTarget.expand]
  split
  · rw [Path.isRooted, String.toList_append]
    exact Path.isAbsolute_append h _
  · exact h

/-- A relative specifier has a point at least. -/
theorem ne_empty_of_relative {specifier : String} (h : startsWith specifier "." = true) :
    specifier ≠ "" := by
  rintro rfl
  exact absurd h (by decide)

/-- A relative specifier does not begin at the root. -/
theorem isRooted_eq_false_of_relative {specifier : String} (h : startsWith specifier "." = true) :
    Path.isRooted specifier = false := by
  obtain ⟨rest, rfl⟩ := startsWith_iff.1 h
  rw [Path.isRooted, String.toList_append]
  rfl

namespace Resolver

variable {r : Resolver} {importer specifier : String}

/-- The base directory and what aliases stand for are absolute paths. -/
structure IsAnchored (r : Resolver) : Prop where
  base : ∀ base, r.base = some base → Path.isRooted base = true
  targets : ∀ rule ∈ r.rules, ∀ t ∈ rule.targets, Path.isRooted t.front = true

/-- A relative specifier has one base, which is seen from the directory of the importer. -/
theorem bases_of_relative (h : startsWith specifier "." = true) :
    r.bases importer specifier = [Path.append (Path.directory importer) specifier] := by
  rw [bases, if_pos h]

/-- The bases of an anchored resolver begin at the root, whatever the specifier is. -/
theorem isRooted_of_mem_bases (hr : r.IsAnchored) (himporter : Path.isRooted importer = true) :
    ∀ base ∈ r.bases importer specifier, Path.isRooted base = true := by
  intro base hbase
  unfold bases at hbase
  split at hbase
  · rw [List.mem_singleton.1 hbase]
    exact Path.isRooted_append (Path.isRooted_directory himporter) _
  split at hbase
  · rename_i rule hfind
    have htargets := hr.targets rule (List.mem_of_find?_eq_some hfind)
    unfold AliasRule.expand at hbase
    split at hbase
    · obtain ⟨t, ht, rfl⟩ := List.mem_map.1 hbase
      exact AliasTarget.isRooted_expand (htargets t ht) _
    · cases hbase
  split at hbase
  · rename_i directory hdirectory
    split at hbase
    · rw [List.mem_singleton.1 hbase]
      exact Path.isRooted_append (hr.base _ (Option.filter_eq_some_iff.1 hdirectory).1) _
    · cases hbase
  · cases hbase

/-- Outside Python a specifier comes to the first file among the candidates of its bases. -/
theorem resolve_of_not_python (hpython : endsWith importer ".py" = false)
    (hne : specifier ≠ "") :
    r.resolve importer specifier =
      ((r.bases importer specifier).flatMap candidates).find? r.hasFile := by
  rw [resolve, if_neg hne, specifierIn, hpython, if_neg Bool.false_ne_true]

/-- Only the normal forms of what a specifier may mean count. -/
theorem flatMap_candidates_congr {bases bases' : List String}
    (h : bases.map Path.normal = bases'.map Path.normal) :
    bases.flatMap candidates = bases'.flatMap candidates := by
  induction bases generalizing bases' with
  | nil =>
    rw [List.map_nil, List.nil_eq, List.map_eq_nil_iff] at h
    rw [h]
  | cons base bases ih =>
    cases bases' with
    | nil => cases h
    | cons base' bases' =>
      obtain ⟨hhead, htail⟩ := List.cons_eq_cons.1 h
      rw [List.flatMap_cons, List.flatMap_cons, candidates_congr hhead, ih htail]

/-- Specifiers that may mean paths of the same normal forms, in the same order, mean the same
file. -/
theorem resolve_congr {importer' specifier' : String} (hpython : endsWith importer ".py" = false)
    (hpython' : endsWith importer' ".py" = false) (hne : specifier ≠ "") (hne' : specifier' ≠ "")
    (h : (r.bases importer specifier).map Path.normal =
      (r.bases importer' specifier').map Path.normal) :
    r.resolve importer specifier = r.resolve importer' specifier' := by
  rw [resolve_of_not_python hpython hne, resolve_of_not_python hpython' hne',
    flatMap_candidates_congr h]

/-- A relative specifier with a detour means the same paths as the one without. -/
theorem map_normal_bases_of_detour (himporter : Path.isRooted importer = true)
    {long short : String} (hlong : startsWith long "." = true)
    (hshort : startsWith short "." = true) (h : Path.Detour long.toList short.toList) :
    (r.bases importer long).map Path.normal = (r.bases importer short).map Path.normal := by
  have hdir := Path.isRooted_directory himporter
  have heq := Path.normalChars_joinChars_congr hdir (isRooted_eq_false_of_relative hlong)
    (isRooted_eq_false_of_relative hshort) (h.normalParts_eq _)
  rw [bases_of_relative hlong, bases_of_relative hshort, List.map_singleton, List.map_singleton]
  simp only [Path.normal, Path.append, String.toList_ofList, heq]

/-- A specifier that goes through a wildcard with one target may mean the path that this target
stands for, and no other. -/
theorem bases_of_wildcard {rule : AliasRule} {target : AliasTarget}
    (h : startsWith specifier "." = false)
    (hfind : r.rules.find? (fun rule ↦ rule.applies specifier) = some rule)
    (hwildcard : rule.wildcard = true) (htargets : rule.targets = [target]) :
    r.bases importer specifier = [target.expand (dropChars rule.front.length specifier)] := by
  have happlies : rule.applies specifier = true :=
    List.find?_some (p := fun rule : AliasRule ↦ rule.applies specifier) hfind
  rw [bases, h, if_neg Bool.false_ne_true, hfind]
  show rule.expand specifier = _
  rw [AliasRule.expand, if_pos happlies, hwildcard, htargets]
  rfl

end Resolver

/-- What an import comes to does not depend on how it is spelled. For a file at an absolute path and
a resolver whose base directory and aliases are absolute, what is found is a file, at an absolute
path in normal form; nothing is found only if there is no file among the candidates, and otherwise
the first one is. Specifiers that may mean paths of the same normal forms, in the same order, come
to the same; so do relative ones with and without a segment that leads nowhere, and a wildcard with
one target comes to what a relative way to its target does, wherever that way is worked out. The
empty specifier comes to nothing. -/
theorem resolve_any_spelling {r : Resolver} {importer : String} (hr : r.IsAnchored)
    (himporter : Path.isRooted importer = true) (hpython : endsWith importer ".py" = false) :
    (∀ s p, r.resolve importer s = some p →
      r.hasFile p = true ∧ Path.isRooted p = true ∧ Path.normal p = p) ∧
    (∀ s, s ≠ "" → (r.resolve importer s = none ↔
      ∀ base ∈ r.bases importer s, ∀ p ∈ candidates base, r.hasFile p = false)) ∧
    (∀ s p, s ≠ "" → (r.resolve importer s = some p ↔
      r.hasFile p = true ∧ ∃ before after,
        (r.bases importer s).flatMap candidates = before ++ p :: after ∧
          ∀ q ∈ before, r.hasFile q = false)) ∧
    (∀ importer' s s', endsWith importer' ".py" = false → s ≠ "" → s' ≠ "" →
      (r.bases importer s).map Path.normal = (r.bases importer' s').map Path.normal →
        r.resolve importer s = r.resolve importer' s') ∧
    (∀ s s', startsWith s "." = true → startsWith s' "." = true →
      Path.Detour s.toList s'.toList → r.resolve importer s = r.resolve importer s') ∧
    (∀ s rule target, s ≠ "" → startsWith s "." = false →
      r.rules.find? (fun rule ↦ rule.applies s) = some rule → rule.wildcard = true →
      rule.targets = [target] →
      let path := target.expand (dropChars rule.front.length s)
      let directory := Path.directory importer
      (∀ way, startsWith way "." = true →
        Path.normal (Path.append directory way) = Path.normal path →
          r.resolve importer s = r.resolve importer way) ∧
      (Path.rootMark directory.toList = Path.rootMark path.toList → ∀ here,
        r.resolve importer s = r.resolve importer ("./" ++ Path.relative here path directory))) ∧
    r.resolve importer "" = none := by
  have hresolve (s : String) (hs : s ≠ "") := Resolver.resolve_of_not_python (r := r) hpython hs
  refine ⟨fun s p hp ↦ ?_, fun s hs ↦ ?_, fun s p hs ↦ ?_, ?_, ?_, ?_, rfl⟩
  -- what is found is a candidate of an absolute base, which is in normal form
  · have hs : s ≠ "" := by
      rintro rfl
      cases hp
    rw [hresolve s hs] at hp
    obtain ⟨base, hbase, hmem⟩ := List.mem_flatMap.1 (List.mem_of_find?_eq_some hp)
    have hform := inNormalForm_of_mem_candidates
      (Resolver.isRooted_of_mem_bases hr himporter base hbase) hmem
    exact ⟨List.find?_some hp, hform.isAbsolute, hform.normal_eq⟩
  · rw [hresolve s hs, List.find?_eq_none]
    simp only [List.mem_flatMap, Bool.not_eq_true]
    exact ⟨fun h base hbase p hp ↦ h p ⟨base, hbase, hp⟩,
      fun h p ⟨base, hbase, hp⟩ ↦ h base hbase p hp⟩
  · rw [hresolve s hs, List.find?_eq_some_iff_append]
    simp only [Bool.not_eq_true']
  · intro importer' s s' hpython' hs hs' h
    exact Resolver.resolve_congr hpython hpython' hs hs' h
  · intro s s' hs hs' h
    exact Resolver.resolve_congr hpython hpython (ne_empty_of_relative hs)
      (ne_empty_of_relative hs') (Resolver.map_normal_bases_of_detour himporter hs hs' h)
  · intro s rule target hs hrelative hfind hwildcard htargets path directory
    have hbases : r.bases importer s = [path] :=
      Resolver.bases_of_wildcard hrelative hfind hwildcard htargets
    have hway : ∀ way, startsWith way "." = true →
        Path.normal (Path.append directory way) = Path.normal path →
          r.resolve importer s = r.resolve importer way := by
      intro way hdot hnormal
      refine Resolver.resolve_congr hpython hpython hs (ne_empty_of_relative hdot) ?_
      rw [hbases, Resolver.bases_of_relative hdot, List.map_singleton, List.map_singleton, hnormal]
    -- the way from the importer to what the alias stands for is a relative specifier
    refine ⟨hway, fun hmark here ↦ hway _ ?_ ?_⟩
    · refine startsWith_iff.2 ⟨"/" ++ Path.relative here path directory, ?_⟩
      rw [← String.append_assoc]
      rfl
    · have htarget := hr.targets rule (List.mem_of_find?_eq_some hfind) target (by simp [htargets])
      exact Path.normal_append_relative here (AliasTarget.isRooted_expand htarget _)
        (Path.isRooted_directory himporter) hmark

/-- A resolver with one alias, for a repository with one file. -/
def sourceResolver : Resolver where
  rules := [⟨"@/*", "@/", true, [⟨"/repo/src/", true⟩]⟩]
  hasFile path := path == "/repo/src/ui/button.ts"

/-- An alias, a plain relative path and one with a detour come to the same file. -/
theorem resolve_any_spelling_sourceResolver :
    sourceResolver.resolve "/repo/app/main.js" "@/ui/button" =
      sourceResolver.resolve "/repo/app/main.js" "./../src/ui/button" ∧
    sourceResolver.resolve "/repo/app/main.js" "./lib/../../src/ui/button" =
      sourceResolver.resolve "/repo/app/main.js" "./../src/ui/button" ∧
    sourceResolver.resolve "/repo/app/main.js" "./../src/ui/button" =
      some "/repo/src/ui/button.ts" := by
  have hr : sourceResolver.IsAnchored := { base := nofun, targets := by decide }
  have himporter : Path.isRooted "/repo/app/main.js" = true := by decide
  obtain ⟨-, -, -, -, hdetour, hwildcard, -⟩ := resolve_any_spelling hr himporter (by decide)
  obtain ⟨hway, -⟩ := hwildcard "@/ui/button" ⟨"@/*", "@/", true, [⟨"/repo/src/", true⟩]⟩
    ⟨"/repo/src/", true⟩ (by decide) (by decide) (by decide) rfl rfl
  have hlong : "./lib/../../src/ui/button".toList = ['.'] ++ '/' ::
      ("lib".toList ++ '/' :: (['.', '.'] ++ '/' :: "../src/ui/button".toList)) := by decide
  have hshort : "./../src/ui/button".toList = ['.'] ++ '/' :: "../src/ui/button".toList := by
    decide
  refine ⟨hway "./../src/ui/button" (by decide) (by decide +kernel), ?_, by decide +kernel⟩
  refine hdetour _ _ (by decide) (by decide) ?_
  rw [hlong, hshort]
  exact .back (by decide) _ _

/-- The empty specifier is refused, although a wildcard that puts nothing before its star applies to
it and stands for a directory that can be imported by another way. -/
theorem resolve_empty_specifier :
    let r : Resolver :=
      { rules := [⟨"*", "", true, [⟨"/repo/src/", true⟩]⟩]
        hasFile := fun path ↦ path == "/repo/src/index.js" }
    (∀ rule ∈ r.rules, ∀ t ∈ rule.targets, Path.isRooted t.front = true) ∧
      (r.bases "/repo/a.js" "").map Path.normal = (r.bases "/repo/a.js" "./src").map Path.normal ∧
      (∃ base ∈ r.bases "/repo/a.js" "", ∃ p ∈ candidates base, r.hasFile p = true) ∧
      r.resolve "/repo/a.js" "" = none ∧
      r.resolve "/repo/a.js" "./src" = some "/repo/src/index.js" := by
  decide +kernel

end RepoSurvey.Imports
