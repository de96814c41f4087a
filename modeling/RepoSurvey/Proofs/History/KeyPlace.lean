import RepoSurvey.Proofs.History.Key
import RepoSurvey.Proofs.Path.Place

/-!
# A key and the place of its path

A path is spelled in full from the root: as it is if it begins there, and behind the path of the
repository otherwise (`inFull`). Its key is told by the place to which that leads alone: the names
that stand behind those of the repository, or nothing if these do not stand in front
(`keyOf_eq_pathText`, `keyOf_eq_empty`).

Since following components only brings names that are among them, the characters of a key are among
those of its path, in their order (`sublist_keyOf`). So whoever takes a key for a path may lose
something, but never gains.
-/

namespace RepoSurvey.History

open RepoSurvey.Path RepoSurvey.Text RepoSurvey.FileTree RepoSurvey.Scan

/-- A path as it is spelled in full, without blanks around it. -/
def inFull (repo path : String) : String :=
  if isRooted (strip path) then strip path else repo ++ "/" ++ strip path

variable {repo path : String} {way : List String}

theorem placeOf_append_absolute (repo path : String) :
    placeOf (append (absolute repo) (strip path)) = placeOf (inFull repo path) := by
  rw [inFull]
  by_cases h : isRooted (strip path) = true
  · rw [if_pos h, append_of_isRooted _ h]
  · have hrelative : isRooted (strip path) = false := by simpa using h
    rw [if_neg h, placeOf_append _ hrelative, placeOf_slash, placeOf_absolute, placeOf_slash]

theorem placeOf_absolute_eq (repo : String) : placeOf repo =
    (absoluteParts (absolute repo).toList (absolute repo).toList).map String.ofList := by
  rw [← placeOf_absolute, placeOf_of_isRooted _ (isRooted_absolute repo)]

theorem placeOf_inFull_eq (repo path : String) : placeOf (inFull repo path) =
    (absoluteParts (absolute repo).toList
      (append (absolute repo) (strip path)).toList).map String.ofList := by
  rw [← placeOf_append_absolute,
    placeOf_of_isRooted _ (isRooted_append (isRooted_absolute repo) _)]

theorem keyOf_of_strip_eq (h : strip path = "") : keyOf repo path = "" := by
  rw [keyOf, if_pos h]

/-- A path that lies below the repository has the names behind it as its key. -/
theorem keyOf_eq_pathText (h : placeOf (inFull repo path) = placeOf repo ++ way) :
    keyOf (absolute repo) path = pathText way := by
  by_cases hstrip : strip path = ""
  · have hplace : placeOf (inFull repo path) = placeOf repo := by
      have hempty : components "" = [""] := rfl
      have hrooted : isRooted "" = false := rfl
      rw [inFull, hstrip, if_neg (by simp [hrooted]), placeOf_slash, hempty]
      rfl
    rw [hplace, List.self_eq_append_right] at h
    rw [keyOf_of_strip_eq hstrip, h]
    rfl
  · rw [placeOf_inFull_eq, placeOf_absolute_eq, eq_comm, List.append_eq_map_iff] at h
    obtain ⟨front, ps, hparts, hfront, rfl⟩ := h
    rw [map_ofList_injective hfront] at hparts
    by_cases hps : ps = []
    · -- the way to the repository itself is a point
      rw [hps, List.append_nil] at hparts
      have hway := relative_of_append (hparts.trans (List.append_nil _).symm)
      rw [keyOf_of_strip_ne hstrip, hway, hps]
      rfl
    · have hdown : ∀ p ∈ ps, LeadsDown p := fun p hp ↦
        of_mem_absoluteParts (hparts ▸ List.mem_append_right _ hp)
      rw [keyOf_eq_ofParts hstrip hps hparts, ofList_ofParts hps hdown]

/-- A path that does not lie below the repository has no key. -/
theorem keyOf_eq_empty (h : ¬placeOf repo <+: placeOf (inFull repo path)) :
    keyOf (absolute repo) path = "" := by
  by_cases hstrip : strip path = ""
  · exact keyOf_of_strip_eq hstrip
  · rw [placeOf_inFull_eq, placeOf_absolute_eq] at h
    have hup := goesUp_relative fun hfront ↦ h (hfront.map String.ofList)
    rw [keyOf_of_strip_ne hstrip]
    exact if_pos (Or.inr hup)

/-- A key that there is stands for the names behind the repository. -/
theorem exists_way_of_keyOf_ne (h : keyOf (absolute repo) path ≠ "") :
    ∃ way, way ≠ [] ∧ placeOf (inFull repo path) = placeOf repo ++ way ∧
      keyOf (absolute repo) path = pathText way := by
  by_cases hprefix : placeOf repo <+: placeOf (inFull repo path)
  · obtain ⟨way, hway⟩ := hprefix
    have hkey := keyOf_eq_pathText hway.symm
    refine ⟨way, ?_, hway.symm, hkey⟩
    rintro rfl
    exact h hkey
  · exact absurd (keyOf_eq_empty hprefix) h

/-- Paths that lead to the same place have the same key. -/
theorem keyOf_congr {path' : String}
    (h : placeOf (inFull repo path) = placeOf (inFull repo path')) :
    keyOf (absolute repo) path = keyOf (absolute repo) path' := by
  by_cases hprefix : placeOf repo <+: placeOf (inFull repo path)
  · obtain ⟨way, hway⟩ := hprefix
    rw [keyOf_eq_pathText hway.symm, keyOf_eq_pathText (h.symm.trans hway.symm)]
  · have hprefix' : ¬placeOf repo <+: placeOf (inFull repo path') := by rwa [← h]
    rw [keyOf_eq_empty hprefix, keyOf_eq_empty hprefix']

/-- The characters of a key are among those of its path. -/
theorem sublist_keyOf (repo path : String) :
    (keyOf (absolute repo) path).toList.Sublist (strip path).toList := by
  by_cases hkey : keyOf (absolute repo) path = ""
  · rw [hkey]
    exact List.nil_sublist _
  obtain ⟨way, -, hplace, heq⟩ := exists_way_of_keyOf_ne hkey
  rw [heq]
  rw [inFull] at hplace
  split_ifs at hplace
  · exact sublist_pathText (sublist_of_follow List.nil_prefix hplace)
  · rw [placeOf_slash] at hplace
    exact sublist_pathText (sublist_of_follow List.prefix_rfl hplace)

/-- Of a path that does not begin at the root, the spelling behind the path of the repository is the
same in full. -/
theorem inFull_slash (hrepo : isRooted repo = true) (h : isRooted (strip path) = false) :
    inFull repo (repo ++ "/" ++ strip path) = inFull repo path := by
  obtain ⟨rest, hrest⟩ := isAbsolute_iff.1 hrepo
  have hchars : (repo ++ "/" ++ strip path).toList =
      ('/' :: rest ++ ['/']) ++ trim path.toList := by
    have hslash : "/".toList = ['/'] := rfl
    rw [String.toList_append, String.toList_append, hrest, hslash, strip, String.toList_ofList]
  have hstrip : strip (repo ++ "/" ++ strip path) = repo ++ "/" ++ strip path := by
    rw [strip_eq_iff, hchars]
    refine ⟨fun c hc ↦ ?_, fun c hc ↦ ?_⟩
    · obtain rfl := Option.some.inj hc
      decide
    · rw [List.getLast?_append, List.getLast?_concat] at hc
      rcases hlast : (trim path.toList).getLast? with - | last
      · rw [hlast] at hc
        obtain rfl := Option.some.inj hc
        decide
      · rw [hlast] at hc
        obtain rfl := Option.some.inj hc
        exact (isTrimmed_trim path.toList).2 last hlast
  have hrooted : isRooted (repo ++ "/" ++ strip path) = true := by
    rw [isRooted, hchars]
    rfl
  rw [inFull, hstrip, if_pos hrooted, inFull, if_neg (by simp [h])]

/-- A key that begins and stops with no blank is its own key, and no other is. -/
theorem keyOf_keyOf_eq_iff (repo path : String) :
    let key := keyOf (absolute repo) path
    keyOf (absolute repo) key = key ↔ strip key = key := by
  intro key
  constructor
  · -- taking off blanks and taking the key both take characters away
    intro hkey
    have hloss := sublist_keyOf repo key
    rw [hkey] at hloss
    exact String.toList_injective ((sublist_strip key).antisymm hloss)
  · intro hstrip
    by_cases hkey : key = ""
    · rw [hkey]
      rfl
    · exact keyOf_keyOf (isRooted_absolute repo) hkey hstrip

example : keyOf (absolute "/srv/app") "/srv/app/ a.js" = " a.js" ∧
    keyOf (absolute "/srv/app") " a.js" = "a.js" := by
  decide +kernel

/-- **A key is what lies below the repository.** A path without anything but blanks has no key. If
the place to which a path leads in full lies below that of the repository, its key is made of the
names behind this one; and otherwise it has none. So no key begins at the root, no component of a
key is empty or made of one or two points, and paths that lead to one place have one key, such as a
path that does not begin at the root and its spelling behind the path of the repository. -/
theorem key_is_way_below_repository {repo : String} (hrepo : isRooted repo = true) (path : String) :
    let key := keyOf (absolute repo)
    let place (path : String) := placeOf (inFull repo path)
    (strip path = "" → key path = "") ∧
    (∀ way, way ≠ [] → place path = placeOf repo ++ way → key path = "/".intercalate way) ∧
    ((∀ way, way ≠ [] → place path ≠ placeOf repo ++ way) → key path = "") ∧
    isRooted (key path) = false ∧
    (key path ≠ "" → ∀ name ∈ components (key path), name ≠ "" ∧ name ≠ "." ∧ name ≠ "..") ∧
    (∀ path', place path' = place path → key path' = key path) ∧
    (isRooted (strip path) = false → key (repo ++ "/" ++ strip path) = key path) := by
  intro key place
  have hway : key path ≠ "" → ∃ way, way ≠ [] ∧ place path = placeOf repo ++ way ∧
      key path = pathText way := exists_way_of_keyOf_ne
  -- the components of a place are names, so what is left of one is a row of names
  have hnames : ∀ way, place path = placeOf repo ++ way → ∀ name ∈ way, isName name = true :=
    fun way hplace name hname ↦
      isName_of_mem_placeOf (hplace ▸ List.mem_append_right (placeOf repo) hname)
  refine ⟨keyOf_of_strip_eq, fun way _ hplace ↦ keyOf_eq_pathText hplace, fun hnone ↦ ?_, ?_, ?_,
    fun path' ↦ keyOf_congr, fun hrelative ↦ ?_⟩
  · by_contra hkey
    obtain ⟨way, hne, hplace, -⟩ := hway hkey
    exact hnone way hne hplace
  · by_cases hkey : key path = ""
    · rw [hkey]
      rfl
    · obtain ⟨way, -, hplace, heq⟩ := hway hkey
      rw [heq]
      exact isRooted_pathText (hnames way hplace)
  · intro hkey name hname
    obtain ⟨way, hne, hplace, heq⟩ := hway hkey
    rw [heq, components_pathText hne (hnames way hplace)] at hname
    obtain ⟨hempty, hpoint, hup, -⟩ := isName_iff.1 (hnames way hplace name hname)
    exact ⟨hempty, hpoint, hup⟩
  · exact keyOf_congr (congrArg placeOf (inFull_slash hrepo hrelative))

/-- A path that leaves the repository and comes back, and one to a neighbour with a longer name. -/
theorem key_is_way_below_repository_of_detour :
    let key := keyOf (absolute "/srv/./app/")
    isRooted "/srv/./app/" = true ∧
      placeOf (inFull "/srv/./app/" " ../..//srv/app/lib/./..a\n") =
        placeOf "/srv/./app/" ++ ["lib", "..a"] ∧
      key " ../..//srv/app/lib/./..a\n" = "lib/..a" ∧
      key ("/srv/./app/" ++ "/" ++ "../..//srv/app/lib/./..a") = "lib/..a" ∧
      key "../app2/a.js" = "" := by
  intro key
  have hrooted : isRooted "/srv/./app/" = true := by decide +kernel
  have hplace : placeOf (inFull "/srv/./app/" " ../..//srv/app/lib/./..a\n") =
      placeOf "/srv/./app/" ++ ["lib", "..a"] := by
    decide +kernel
  have hstrip : strip " ../..//srv/app/lib/./..a\n" = "../..//srv/app/lib/./..a" := by
    decide +kernel
  have hrelative : isRooted "../..//srv/app/lib/./..a" = false := by decide +kernel
  obtain ⟨-, hbelow, -, -, -, -, hspelled⟩ :=
    key_is_way_below_repository hrooted " ../..//srv/app/lib/./..a\n"
  obtain ⟨-, -, houtside, -⟩ := key_is_way_below_repository hrooted "../app2/a.js"
  have hkey : key " ../..//srv/app/lib/./..a\n" = "lib/..a" :=
    hbelow ["lib", "..a"] (by simp) hplace
  rw [hstrip] at hspelled
  refine ⟨hrooted, hplace, hkey, (hspelled hrelative).trans hkey, houtside fun way _ hway ↦ ?_⟩
  have hother : placeOf (inFull "/srv/./app/" "../app2/a.js") = ["srv", "app2", "a.js"] := by
    decide +kernel
  have hrepo : placeOf "/srv/./app/" = ["srv", "app"] := by decide +kernel
  have hsplit : ["srv", "app2", "a.js"] = ["srv", "app"] ++ way :=
    hother.symm.trans (hway.trans (by rw [hrepo]))
  simp at hsplit

end RepoSurvey.History
