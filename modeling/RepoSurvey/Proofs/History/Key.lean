import RepoSurvey.History.Query
import RepoSurvey.Proofs.Path.Normal

/-!
# The key of a path

A path has a key if it leads below the repository. The key is then the way from the repository to
the path, whose components all lead down (`exists_way_of_keyOf`). Taken as a path of its own, a key
that has no blanks at its ends leads to where it came from, so it is its own key (`keyOf_keyOf`).
-/

namespace RepoSurvey.History

open RepoSurvey.Path RepoSurvey.Text

variable {repo path : String}

theorem keyOf_of_strip_ne (h : strip path ≠ "") :
    keyOf repo path =
      let way := relative repo (append repo (strip path)) repo
      if way = "." ∨ way = ".." ∨ startsWith way "../" then "" else way := by
  rw [keyOf, if_neg h]

/-- The key of a path that has the components of the repository and more. -/
theorem keyOf_eq_ofParts {way : List (List Char)} (hstrip : strip path ≠ "") (hway : way ≠ [])
    (hparts : absoluteParts repo.toList (append repo (strip path)).toList =
      absoluteParts repo.toList repo.toList ++ way) :
    keyOf repo path = String.ofList (ofParts [] way) := by
  have hdown : ∀ p ∈ way, LeadsDown p := fun p hp ↦
    of_mem_absoluteParts (hparts ▸ List.mem_append_right _ hp)
  have hstays := not_goesUp_of_down hdown
  have hpoint : String.ofList (ofParts [] way) ≠ "." := by
    intro hpoint
    obtain ⟨p, ps, rfl⟩ := List.exists_cons_of_ne_nil hway
    obtain ⟨hslash, hidle, -⟩ := hdown p List.mem_cons_self
    have hfirst := takeWhile_ofParts hslash hidle ps
    have hchars : ofParts [] (p :: ps) = ['.'] := by simpa using congrArg String.toList hpoint
    rw [hchars] at hfirst
    rw [← hfirst] at hidle
    exact absurd hidle (by decide)
  rw [GoesUp, not_or] at hstays
  rw [keyOf_of_strip_ne hstrip, relative_of_append hparts]
  exact if_neg (by simp [hpoint, hstays])

/-- A path that has a key has the components of the repository, and the key is what stands behind
them. -/
theorem exists_way_of_keyOf (h : keyOf repo path ≠ "") :
    ∃ way, way ≠ [] ∧ (∀ p ∈ way, LeadsDown p) ∧
      keyOf repo path = String.ofList (ofParts [] way) := by
  have hstrip : strip path ≠ "" := by
    intro hstrip
    rw [keyOf, if_pos hstrip] at h
    exact h rfl
  by_cases hprefix : absoluteParts repo.toList repo.toList <+:
      absoluteParts repo.toList (append repo (strip path)).toList
  · obtain ⟨way, hparts⟩ := hprefix
    have hway : way ≠ [] := by
      rintro rfl
      rw [keyOf_of_strip_ne hstrip, relative_of_append hparts.symm] at h
      exact h rfl
    refine ⟨way, hway, fun p hp ↦ ?_, keyOf_eq_ofParts hstrip hway hparts.symm⟩
    exact of_mem_absoluteParts (hparts ▸ List.mem_append_right _ hp)
  · have hup := goesUp_relative hprefix
    rw [keyOf_of_strip_ne hstrip] at h
    exact absurd (if_pos (Or.inr hup)) h

/-- The key of a path is its own key, unless it begins or stops with a blank. -/
theorem keyOf_keyOf (hrepo : isRooted repo = true) (hkey : keyOf repo path ≠ "")
    (hstrip : strip (keyOf repo path) = keyOf repo path) :
    keyOf repo (keyOf repo path) = keyOf repo path := by
  obtain ⟨way, hway, hdown, heq⟩ := exists_way_of_keyOf hkey
  have hsolid : ∀ p ∈ way, '/' ∉ p ∧ isIdle p = false := fun p hp ↦
    ⟨(hdown p hp).1, (hdown p hp).2.1⟩
  have hparts : parts (ofParts [] way) = way := parts_ofParts 0 hsolid
  have hrelative : isAbsolute (ofParts [] way) = false := by
    have hhead := head?_join_ne hsolid
    have hjoin := join_ne_nil hway fun p hp ↦ (hsolid p hp).2
    rw [ofParts_eq (by simpa using hjoin), isAbsolute, beq_eq_false_iff_ne]
    exact hhead
  refine (keyOf_eq_ofParts (by rwa [hstrip]) hway ?_).trans heq.symm
  have hchars : (append repo (strip (keyOf repo path))).toList =
      joinChars repo.toList (ofParts [] way) := by
    rw [hstrip, heq, append, String.toList_ofList, String.toList_ofList]
  rw [hchars, absoluteParts_of_isAbsolute _ (isAbsolute_joinChars hrepo _),
    absoluteParts_of_isAbsolute _ hrepo, parts_joinChars _ hrelative, hparts, normalParts_append,
    foldl_pushPart_of_ne fun p hp ↦ (hdown p hp).2.2, List.reverse_append, List.reverse_reverse,
    List.reverse_reverse]

end RepoSurvey.History
