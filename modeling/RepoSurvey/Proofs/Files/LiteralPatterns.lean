import RepoSurvey.Files.Ignore
import RepoSurvey.Proofs.Text.LowerCase

/-!
# Ignore patterns without marks

A pattern without the marks of a glob describes components. A path is compared with it in three
ways, as a whole, by its front and component by component; for a literal pattern these amount to one
rule (`literal_pattern_matches_whole_components`): a single component is looked for among all
components of the path, and several components are looked for at its front. Letter case counts for
nothing, and neither do blanks and slashes at the ends of the pattern.

Nothing in this depends on how the path is spelled: `matchesLower_iff` reads the comparison of texts
as one of components, and `split_lower` moves lower case into the components.
-/

namespace RepoSurvey

open RepoSurvey.Text

/-! ### Literal globs -/

namespace Text.Glob

/-- A glob without marks. -/
def IsLiteral (glob : List Char) : Prop := ∀ c ∈ glob, c ≠ '*' ∧ c ≠ '?' ∧ c ≠ '['

instance : DecidablePred IsLiteral := fun glob ↦
  List.decidableBAll (fun c ↦ c ≠ '*' ∧ c ≠ '?' ∧ c ≠ '[') glob

/-- A literal glob is read as its characters. -/
theorem pieces_of_isLiteral {glob : List Char} (h : IsLiteral glob) :
    pieces glob = glob.map .char := by
  unfold pieces
  induction glob with
  | nil => rfl
  | cons c glob ih =>
    obtain ⟨⟨hstar, hany, hset⟩, hglob⟩ := List.forall_mem_cons.1 h
    rw [List.length_cons, piecesWith, if_neg hstar, if_neg hany, if_neg hset, ih hglob,
      List.map_cons]

/-- A row of characters fits itself only. -/
theorem fits_map_char {cs text : List Char} : fits (cs.map .char) text = true ↔ text = cs := by
  induction cs generalizing text with
  | nil => cases text <;> simp [fits]
  | cons c cs ih =>
    cases text with
    | nil => simp [fits]
    | cons d text =>
      rw [List.map_cons, fits, accepts, Bool.and_eq_true, decide_eq_true_iff, ih, List.cons.injEq,
        eq_comm]
      exact fun h ↦ nomatch h

/-- A literal glob describes itself and nothing else. -/
theorem isMatch_of_isLiteral {glob text : List Char} (h : IsLiteral glob) :
    isMatch glob text = true ↔ text = glob := by
  rw [isMatch, pieces_of_isLiteral h, fits_map_char]

end Text.Glob

namespace IgnoreRule

/-! ### Normal forms of patterns -/

/-- What stands in a normal form stands in the pattern, but for letters and slashes. -/
theorem mem_of_mem_normalChars {c : Char} (hmark : IsMark c) (hslash : c ≠ '/')
    {pattern : List Char} (h : c ∈ normalChars pattern) : c ∈ pattern := by
  have htrimmed : c ∈ replaceChar '\\' '/' (trim pattern) :=
    mem_of_mem_trimMark (mem_of_mem_lowerFrom hmark h)
  obtain ⟨d, hd, heq⟩ := List.mem_map.1 htrimmed
  split at heq
  · exact absurd heq.symm hslash
  · have hstrip := (sublist_strip (String.ofList pattern)).subset
    rw [strip, String.toList_ofList, String.toList_ofList] at hstrip
    exact heq ▸ hstrip hd

/-- The normal form of a literal pattern is literal. -/
theorem isLiteral_normalChars {pattern : List Char} (h : Glob.IsLiteral pattern) :
    Glob.IsLiteral (normalChars pattern) := by
  have hkept {c : Char} (hmark : IsMark c) (hslash : c ≠ '/') (hc : c ∉ pattern) :
      c ∉ normalChars pattern :=
    fun hmem ↦ hc (mem_of_mem_normalChars hmark hslash hmem)
  have hstar := hkept (c := '*') (by decide) (by decide) fun hmem ↦ (h _ hmem).1 rfl
  have hany := hkept (c := '?') (by decide) (by decide) fun hmem ↦ (h _ hmem).2.1 rfl
  have hset := hkept (c := '[') (by decide) (by decide) fun hmem ↦ (h _ hmem).2.2 rfl
  intro c hc
  exact ⟨ne_of_mem_of_not_mem hc hstar, ne_of_mem_of_not_mem hc hany, ne_of_mem_of_not_mem hc hset⟩

/-- A pattern in its normal form has no slash at its end. -/
theorem dropSlashes_normalChars (pattern : List Char) :
    dropSlashes (normalChars pattern) = normalChars pattern := by
  have hlast : (normalChars pattern).getLast? ≠ some '/' :=
    fun h ↦ getLast?_trimMark '/' _ (getLast?_of_lowerFrom (by decide) h)
  have hreverse : (normalChars pattern).reverse.dropWhile (· == '/') =
      (normalChars pattern).reverse := by
    refine dropWhile_of_head? fun c hc ↦ ?_
    rw [List.head?_reverse] at hc
    rw [beq_eq_false_iff_ne]
    rintro rfl
    exact hlast hc
  rw [dropSlashes, hreverse, List.reverse_reverse]

/-! ### Components -/

/-- The components of a pattern as they are compared. -/
def patternParts (pattern : String) : List (List Char) := split '/' (normalChars pattern.toList)

/-- The components of a path, each in lower case. -/
def pathParts (path : String) : List (List Char) := (split '/' path.toList).map lower

/-- One component stands for itself anywhere in a path, several stand for the front of a path. -/
def Describes (named parts : List (List Char)) : Prop :=
  (∃ component, named = [component] ∧ component ∈ parts) ∨ (1 < named.length ∧ named <+: parts)

/-- All components that are described are there. -/
theorem Describes.subset {named parts : List (List Char)} (h : Describes named parts) :
    named ⊆ parts := by
  rcases h with ⟨component, rfl, hmem⟩ | ⟨-, hfront⟩
  · exact List.cons_subset.2 ⟨hmem, List.nil_subset parts⟩
  · exact hfront.subset

/-- What is described stays described further down. -/
theorem Describes.append {named parts : List (List Char)} (h : Describes named parts)
    (more : List (List Char)) : Describes named (parts ++ more) := by
  rcases h with ⟨component, hnamed, hmem⟩ | ⟨hseveral, hfront⟩
  · exact .inl ⟨component, hnamed, List.mem_append_left more hmem⟩
  · exact .inr ⟨hseveral, hfront.trans (List.prefix_append parts more)⟩

/-- The components of a path further down come behind those of the path. -/
theorem pathParts_append (path below : String) :
    pathParts (path ++ "/" ++ below) = pathParts path ++ pathParts below := by
  have hslash : "/".toList = ['/'] := rfl
  rw [pathParts, String.toList_append, String.toList_append, hslash, List.append_assoc,
    List.singleton_append, split_append_sep, List.map_append]
  rfl

/-- The three comparisons of a literal pattern are one comparison of components. -/
theorem matchesLower_iff {pattern : List Char} (hliteral : Glob.IsLiteral pattern)
    (hend : dropSlashes pattern = pattern) (target : List Char) :
    matchesLower pattern target = true ↔ Describes (split '/' pattern) (split '/' target) := by
  unfold matchesLower
  by_cases hslash : '/' ∈ pattern
  · have hseveral := one_lt_length_split hslash
    have hone : ¬∃ component, split '/' pattern = [component] ∧ component ∈ split '/' target := by
      rintro ⟨component, hcomponent, -⟩
      rw [hcomponent] at hseveral
      exact Nat.lt_irrefl 1 hseveral
    rw [if_pos (by simpa using hslash), hend, Bool.or_eq_true, Glob.isMatch_of_isLiteral hliteral,
      List.isPrefixOf_iff_prefix, ← split_prefix_split_iff, Describes, or_iff_right hone,
      and_iff_right hseveral]
  -- a single component is compared with the path and with each of its components
  · have hone : split '/' pattern = [pattern] := split_of_not_mem hslash
    rw [if_neg (by simpa using hslash), Bool.or_eq_true, Glob.isMatch_of_isLiteral hliteral,
      List.any_eq_true, hone]
    constructor
    · rintro (rfl | ⟨part, hpart, hmatch⟩)
      · exact .inl ⟨target, rfl, by rw [hone]; exact List.mem_singleton_self target⟩
      · rw [Glob.isMatch_of_isLiteral hliteral] at hmatch
        exact .inl ⟨part, by rw [hmatch], hpart⟩
    · rintro (⟨component, hcomponent, hmem⟩ | ⟨hseveral, -⟩)
      · obtain rfl := (List.cons.inj hcomponent).1
        exact .inr ⟨pattern, hmem, (Glob.isMatch_of_isLiteral hliteral).2 rfl⟩
      · exact absurd hseveral (Nat.lt_irrefl 1)

/-- A single pattern ignores what it matches. -/
theorem isIgnored_ofPatterns_singleton {pattern : String} (hne : normalChars pattern.toList ≠ [])
    (path : String) :
    isIgnored (ofPatterns [pattern]) path =
      matchesLower (normalChars pattern.toList) (lower path.toList) := by
  have hrules : ofPatterns [pattern] = [⟨String.ofList (normalChars pattern.toList)⟩] := by
    rcases hchars : normalChars pattern.toList with - | ⟨c, cs⟩
    · exact absurd hchars hne
    · simp [ofPatterns, hchars]
  have hpattern : (String.ofList (normalChars pattern.toList) != "") = true := by
    simpa using hne
  rw [hrules, isIgnored, List.any_cons, List.any_nil, Bool.or_false, ignores, hpattern,
    Bool.true_and, String.toList_ofList]

/-- A literal pattern ignores what its components describe. -/
theorem isIgnored_iff_describes {pattern : String} (hliteral : Glob.IsLiteral pattern.toList)
    (hne : normalChars pattern.toList ≠ []) (path : String) :
    isIgnored (ofPatterns [pattern]) path = true ↔
      Describes (patternParts pattern) (pathParts path) := by
  rw [isIgnored_ofPatterns_singleton hne,
    matchesLower_iff (isLiteral_normalChars hliteral) (dropSlashes_normalChars _), split_lower]
  rfl

/-- **A literal pattern matches whole components.** A path is ignored by it exactly if the pattern
is one component and a component of the path, or several components and the first ones of the path,
in lower case. So all its components are components of what it ignores, and never mere parts of
them; and what lies below an ignored path is ignored as well. -/
theorem literal_pattern_matches_whole_components {pattern : String}
    (hliteral : Glob.IsLiteral pattern.toList) (hne : normalChars pattern.toList ≠ [])
    (path : String) :
    (isIgnored (ofPatterns [pattern]) path = true ↔
      (∃ component, patternParts pattern = [component] ∧ component ∈ pathParts path) ∨
        (1 < (patternParts pattern).length ∧ patternParts pattern <+: pathParts path)) ∧
    (isIgnored (ofPatterns [pattern]) path = true →
      patternParts pattern ⊆ pathParts path ∧
      ∀ below, isIgnored (ofPatterns [pattern]) (path ++ "/" ++ below) = true) := by
  refine ⟨isIgnored_iff_describes hliteral hne path, fun hignored ↦ ?_⟩
  have hdescribes := (isIgnored_iff_describes hliteral hne path).1 hignored
  refine ⟨hdescribes.subset, fun below ↦ ?_⟩
  rw [isIgnored_iff_describes hliteral hne, pathParts_append]
  exact hdescribes.append _

/-- Letter case, a backslash and a slash at the end count for nothing; a longer name is another
component. -/
theorem literal_pattern_matches_whole_components_of_generated :
    Glob.IsLiteral " Src\\Gen/".toList ∧ normalChars " Src\\Gen/".toList ≠ [] ∧
      patternParts " Src\\Gen/" = ["src".toList, "gen".toList] ∧
      isIgnored (ofPatterns [" Src\\Gen/"]) "SRC/gen/a.js" = true ∧
      (∀ below, isIgnored (ofPatterns [" Src\\Gen/"]) ("SRC/gen/a.js" ++ "/" ++ below) = true) ∧
      isIgnored (ofPatterns [" Src\\Gen/"]) "src/generated/a.js" = false := by
  have hliteral : Glob.IsLiteral " Src\\Gen/".toList := by decide
  have hne : normalChars " Src\\Gen/".toList ≠ [] := by decide
  have hparts : patternParts " Src\\Gen/" = ["src".toList, "gen".toList] := by decide
  have hgenerated := literal_pattern_matches_whole_components hliteral hne "SRC/gen/a.js"
  have hignored := hgenerated.1.2 (.inr ⟨by decide, by decide⟩)
  refine ⟨hliteral, hne, hparts, hignored, (hgenerated.2 hignored).2, ?_⟩
  rw [Bool.eq_false_iff]
  intro hother
  have hsubset := ((literal_pattern_matches_whole_components hliteral hne _).2 hother).1
  exact absurd (hsubset (show "gen".toList ∈ _ from hparts ▸ by decide)) (by decide)

end IgnoreRule

end RepoSurvey
