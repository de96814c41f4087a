import RepoSurvey.Proofs.Files.Components

/-!
# Paths as seen from a root

`Path.below` gives the path of a file below a root, and the path itself where the file does not lie
there. `SeenFrom` says this by the components of both paths, as they are seen from the current
directory `here`, without the way from one to the other: a file lies below a root if the components
of the root stand in front of its own. The two agree (`seenFrom_iff`).

What decides is whether the way from the root begins by going up. It goes up exactly where the root
has a component that the path does not share (`dropCommon_append`, `dropCommon_fst_ne_nil`), since
no component of a path that is seen from a directory goes up itself (`of_mem_absoluteParts`).
-/

namespace RepoSurvey.Path

open RepoSurvey.Text

/-! ### Components of a normal form -/

/-- Components that are kept of a path which begins at the root are components of it, and do not go
up. -/
theorem mem_of_mem_foldl_pushPart {ps kept : List (List Char)} {p : List Char}
    (hkept : ∀ q ∈ kept, q ≠ ['.', '.']) (hp : p ∈ ps.foldl (pushPart true) kept) :
    (p ∈ kept ∨ p ∈ ps) ∧ p ≠ ['.', '.'] := by
  induction ps generalizing kept with
  | nil => exact ⟨Or.inl hp, hkept p hp⟩
  | cons q ps ih =>
    have hpush : ∀ c ∈ pushPart true kept q, (c ∈ kept ∨ c = q) ∧ c ≠ ['.', '.'] := by
      intro c hc
      by_cases hq : q = ['.', '.']
      · -- going up takes away the last component, which does not go up itself
        rcases kept with - | ⟨last, others⟩
        · simp [pushPart, hq] at hc
        · have hlast : last ≠ ['.', '.'] := hkept last List.mem_cons_self
          simp only [pushPart, hq, hlast, if_true, if_false] at hc
          have hmem : c ∈ last :: others := List.mem_cons_of_mem last hc
          exact ⟨Or.inl hmem, hkept c hmem⟩
      · simp only [pushPart, hq, if_false] at hc
        rcases List.mem_cons.1 hc with rfl | hc
        · exact ⟨Or.inr rfl, hq⟩
        · exact ⟨Or.inl hc, hkept c hc⟩
    obtain ⟨hmem, hne⟩ := ih (fun c hc ↦ (hpush c hc).2) hp
    refine ⟨?_, hne⟩
    rcases hmem with hmem | hmem
    · rcases (hpush p hmem).1 with hmem | rfl
      · exact Or.inl hmem
      · exact Or.inr List.mem_cons_self
    · exact Or.inr (List.mem_cons_of_mem q hmem)

/-- What is left of components are some of them, and none that goes up. -/
theorem mem_of_mem_normalParts {ps : List (List Char)} {p : List Char}
    (hp : p ∈ normalParts true ps) : p ∈ ps ∧ p ≠ ['.', '.'] := by
  have hnone : ∀ q ∈ ([] : List (List Char)), q ≠ ['.', '.'] := by simp
  have hfold := mem_of_mem_foldl_pushPart hnone (List.mem_reverse.1 hp)
  exact ⟨hfold.1.resolve_left List.not_mem_nil, hfold.2⟩

/-- A component of a path that is seen from a directory. -/
theorem of_mem_absoluteParts {here cs p : List Char} (hp : p ∈ absoluteParts here cs) :
    '/' ∉ p ∧ isIdle p = false ∧ p ≠ ['.', '.'] := by
  obtain ⟨hmem, hne⟩ := mem_of_mem_normalParts hp
  obtain ⟨hslash, hidle⟩ := not_mem_of_mem_parts hmem
  exact ⟨hslash, hidle, hne⟩

/-! ### The way from one path to another -/

/-- Without the front that they share nothing is left of the shorter path. -/
theorem dropCommon_append (as bs : List (List Char)) : dropCommon as (as ++ bs) = ([], bs) := by
  induction as with
  | nil => cases bs <;> rfl
  | cons a as ih => rw [List.cons_append, dropCommon, if_pos rfl, ih]

/-- If one path does not continue the other, something is left to go up from. -/
theorem dropCommon_fst_ne_nil {as bs : List (List Char)} (h : ¬as <+: bs) :
    (dropCommon as bs).1 ≠ [] := by
  induction as generalizing bs with
  | nil => exact absurd (List.nil_prefix) h
  | cons a as ih =>
    rcases bs with - | ⟨b, bs⟩
    · simp [dropCommon]
    · rw [dropCommon]
      split
      · rename_i hab
        refine ih fun hprefix ↦ h ?_
        rw [List.cons_prefix_cons]
        exact ⟨hab, hprefix⟩
      · simp

/-- Whether a way begins by going up. -/
def GoesUp (way : String) : Prop := way = ".." ∨ startsWith way "../" = true

/-- A way that begins with two points goes up. -/
theorem goesUp_ofParts_dotDot (ps : List (List Char)) :
    GoesUp (String.ofList (ofParts [] (['.', '.'] :: ps))) := by
  rcases ps with - | ⟨p, ps⟩
  · exact Or.inl rfl
  · refine Or.inr ?_
    rw [startsWith, String.toList_ofList, ofParts_eq (by simp [join])]
    simp [join]

/-- What stands in front of the first slash of a path of components is the first component. -/
theorem takeWhile_ofParts {p : List Char} (hslash : '/' ∉ p) (hidle : isIdle p = false)
    (ps : List (List Char)) : (ofParts [] (p :: ps)).takeWhile (· != '/') = p := by
  have hp : p ≠ [] := by
    rintro rfl
    exact absurd hidle (by decide)
  have hall : ∀ c ∈ p, (c != '/') = true := forall_bne_of_not_mem hslash
  rcases ps with - | ⟨q, ps⟩
  · rw [ofParts_eq (by simpa [join] using hp)]
    exact List.takeWhile_eq_self_iff.2 hall
  · rw [ofParts_eq (by simp [join])]
    show List.takeWhile (· != '/') (p ++ ['/'] ++ join ['/'] (q :: ps)) = p
    rw [List.append_assoc, List.takeWhile_append_of_pos hall]
    simp

/-- A way of components that lead down does not go up. -/
theorem not_goesUp_of_down {ps : List (List Char)}
    (hps : ∀ p ∈ ps, '/' ∉ p ∧ isIdle p = false ∧ p ≠ ['.', '.']) :
    ¬GoesUp (String.ofList (ofParts [] ps)) := by
  rcases ps with - | ⟨p, ps⟩
  · unfold GoesUp
    decide
  · obtain ⟨hslash, hidle, hne⟩ := hps p List.mem_cons_self
    have hfirst := takeWhile_ofParts hslash hidle ps
    rintro (hup | hup)
    · have hchars : ofParts [] (p :: ps) = ['.', '.'] := by
        simpa using congrArg String.toList hup
      rw [hchars] at hfirst
      exact hne hfirst.symm
    · simp only [startsWith, List.isPrefixOf_iff_prefix, String.toList_ofList] at hup
      obtain ⟨rest, hrest⟩ := hup
      rw [← hrest] at hfirst
      exact hne hfirst.symm

variable {here : String}

/-- The way to a path below a root is what stands behind the root. -/
theorem relative_of_append {root path : String} {way : List (List Char)}
    (h : absoluteParts here.toList path.toList = absoluteParts here.toList root.toList ++ way) :
    relative here path root = String.ofList (ofParts [] way) := by
  rw [relative, relativeChars, h, dropCommon_append]
  rfl

/-- The way to a path elsewhere goes up first. -/
theorem goesUp_relative {root path : String}
    (h : ¬absoluteParts here.toList root.toList <+: absoluteParts here.toList path.toList) :
    GoesUp (relative here path root) := by
  obtain ⟨first, others, hup⟩ := List.exists_cons_of_ne_nil (dropCommon_fst_ne_nil h)
  rw [relative, relativeChars]
  simp only [hup, List.map_cons, List.cons_append]
  exact goesUp_ofParts_dotDot _

/-! ### Seen from a root -/

/-- How a path is seen from a root, if there is one: without the components of the root if these
stand in front of its own, and as it is otherwise. -/
inductive SeenFrom (here : String) (root : Option String) (path : String) : String → Prop
  | inside {r : String} {way : List (List Char)} (hroot : root = some r) (hr : r ≠ "")
    (hpath : path ≠ "")
    (hway : absoluteParts here.toList path.toList = absoluteParts here.toList r.toList ++ way) :
    SeenFrom here root path (String.ofList (ofParts [] way))
  | outside (h : ∀ r, root = some r → r ≠ "" → path ≠ "" →
      ¬absoluteParts here.toList r.toList <+: absoluteParts here.toList path.toList) :
    SeenFrom here root path path

/-- A path is seen in one way only. -/
theorem SeenFrom.unique {root : Option String} {path seen seen' : String}
    (h : SeenFrom here root path seen) (h' : SeenFrom here root path seen') : seen = seen' := by
  cases h with
  | outside hout =>
    cases h' with
    | outside => rfl
    | inside hroot hr hpath hway =>
      exact absurd ⟨_, hway.symm⟩ (hout _ hroot hr hpath)
  | inside hroot hr hpath hway =>
    cases h' with
    | outside hout => exact absurd ⟨_, hway.symm⟩ (hout _ hroot hr hpath)
    | inside hroot' _ _ hway' =>
      obtain rfl := Option.some.inj (hroot.symm.trans hroot')
      rw [List.append_cancel_left (hway.symm.trans hway')]

/-- A path is seen from a root as it should be. -/
theorem seenFrom_below (here : String) (root : Option String) (path : String) :
    SeenFrom here root path (below here root path) := by
  by_cases hroot : ∃ r, root = some r ∧ r ≠ "" ∧ path ≠ ""
  · obtain ⟨r, rfl, hr, hpath⟩ := hroot
    have hfilter : (some r).filter (· != "") = some r := by simp [hr]
    rw [below, hfilter]
    simp only [hpath, if_false]
    by_cases hprefix : absoluteParts here.toList r.toList <+: absoluteParts here.toList path.toList
    · obtain ⟨way, hway⟩ := hprefix
      -- the path goes on from the root, so the way to it never leads up
      have hdown : ∀ p ∈ way, '/' ∉ p ∧ isIdle p = false ∧ p ≠ ['.', '.'] := fun p hp ↦
        of_mem_absoluteParts (hway ▸ List.mem_append_right _ hp)
      have hstays : ¬GoesUp (relative here path r) := by
        rw [relative_of_append hway.symm]
        exact not_goesUp_of_down hdown
      rw [GoesUp] at hstays
      rw [if_neg hstays, relative_of_append hway.symm]
      exact .inside rfl hr hpath hway.symm
    -- otherwise the way from the root begins with a step up
    · have hup := goesUp_relative hprefix
      rw [GoesUp] at hup
      rw [if_pos hup]
      refine .outside fun r' hr' _ _ ↦ ?_
      obtain rfl := Option.some.inj hr'
      exact hprefix
  · -- there is no root, or nothing to be seen from it
    have hbelow : below here root path = path := by
      rw [below]
      split
      · rfl
      · rename_i r hfilter
        obtain ⟨rfl, hr⟩ := Option.filter_eq_some_iff.1 hfilter
        refine if_pos ?_
        by_contra hpath
        exact hroot ⟨r, rfl, by simpa using hr, hpath⟩
    rw [hbelow]
    refine .outside fun r hr hne hpath ↦ ?_
    exact absurd ⟨r, hr, hne, hpath⟩ hroot

/-- So how a path is seen is told by its components. -/
theorem seenFrom_iff {root : Option String} {path seen : String} :
    SeenFrom here root path seen ↔ seen = below here root path := by
  constructor
  · exact fun h ↦ h.unique (seenFrom_below here root path)
  · rintro rfl
    exact seenFrom_below here root path

end RepoSurvey.Path
