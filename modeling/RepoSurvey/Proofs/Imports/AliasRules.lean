import Mathlib.Data.List.Basic
import RepoSurvey.Imports.AliasConfig
import RepoSurvey.Proofs.Assoc
import RepoSurvey.Proofs.Text.Pieces

/-!
# Which alias rule applies

Alias settings come from a chain of files, and later files go before earlier ones. `baseIn` and
`targetsIn` say what one file gives; what a chain amounts to is found by looking through it from its
end (`base_ofChain`, `mem_rules_ofChain_iff`).

Rules are `Ranked`: one for each pattern, those with longer fronts before those with shorter ones,
and of equal fronts the one without a wildcard first. So the first rule that applies to a specifier
is the one for just this specifier (`AliasRule.Ranked.find?_exact`), or else a wildcard with the
longest front (`AliasRule.Ranked.find?_wildcard`). `alias_rule_choice` puts both together.
-/

namespace RepoSurvey.Imports

open RepoSurvey.Text

/-! ### What one file says -/

/-- The members of the object that stands under a name; there are none if no object does. -/
def membersUnder (name : String) (members : Members) : Members :=
  match members.lookup name with
  | some (.obj inner) => inner
  | _ => []

/-- The base directory that a file gives. -/
def baseIn (file : String × Members) : Option String :=
  match (membersUnder "compilerOptions" file.2).lookup "baseUrl" with
  | some (.str s) => some (Path.normal (Path.append (Path.parent file.1) s))
  | _ => none

/-- The written targets of a pattern among members; what has no text among its targets does not
count. -/
def targetsAmong (pattern : String) (members : Members) : Option (List String) :=
  members.reverse.findSome? fun (name, value) ↦
    if name = pattern ∧ targetTexts value ≠ [] then some (targetTexts value) else none

/-- The written targets that a file gives to a pattern. -/
def targetsIn (pattern : String) (file : String × Members) : Option (List String) :=
  targetsAmong pattern (membersUnder "paths" (membersUnder "compilerOptions" file.2))

/-- A file that gives a base directory sets it. -/
theorem base_gather (g : Gathered) (file : String × Members) :
    (gather g file).base = (baseIn file).or g.base := by
  unfold gather baseIn membersUnder
  rcases file.2.lookup "compilerOptions" with - | options
  · rfl
  cases options with
  | obj options =>
    rcases hbase : options.lookup "baseUrl" with - | value
    · simp only [hbase, Option.none_or]
    · cases value <;> simp only [hbase, Option.none_or, Option.some_or]
  | _ => rfl

/-- A file adds the patterns that stand under `compilerOptions` and `paths`. -/
theorem patterns_gather (g : Gathered) (file : String × Members) :
    (gather g file).patterns = gatherPatterns (Path.parent file.1) g.patterns
      (membersUnder "paths" (membersUnder "compilerOptions" file.2)) := by
  unfold gather membersUnder
  rcases file.2.lookup "compilerOptions" with - | options
  · rfl
  cases options with
  | obj options =>
    rcases hpaths : options.lookup "paths" with - | value
    · simp only [hpaths]
      rfl
    · cases value <;> simp only [hpaths] <;> rfl
  | _ => rfl

section GatherPatterns

variable {patterns : List (String × (List String × String))} {directory : String}

/-- A member sets its pattern, unless there is no text among its targets. -/
theorem gatherPatterns_cons (name : String) (value : Json) (members : Members) :
    gatherPatterns directory patterns ((name, value) :: members) =
      gatherPatterns directory
        (if targetTexts value = [] then patterns
          else Assoc.set name (targetTexts value, directory) patterns) members := by
  rw [gatherPatterns, List.foldl_cons, gatherPatterns]
  congr 1
  dsimp only
  cases targetTexts value <;> simp

/-- Under a pattern stands what these members give to it last, with the directory of their file, or
what stood there before. -/
theorem lookup_gatherPatterns (pattern : String) (members : Members) :
    (gatherPatterns directory patterns members).lookup pattern =
      ((targetsAmong pattern members).map fun targets ↦ (targets, directory)).or
        (patterns.lookup pattern) := by
  induction members generalizing patterns with
  | nil => rfl
  | cons member members ih =>
    obtain ⟨name, value⟩ := member
    rw [gatherPatterns_cons, ih, targetsAmong, targetsAmong, List.reverse_cons,
      List.findSome?_append, List.findSome?_singleton, Option.map_or, Option.or_assoc]
    congr 1
    by_cases hempty : targetTexts value = []
    · simp [hempty]
    · by_cases hname : name = pattern
      · subst hname
        simp [hempty, Assoc.set, Assoc.lookup_modify]
      · have hname' : (pattern == name) = false := by simpa using Ne.symm hname
        simp [hempty, hname, Assoc.set, Assoc.lookup_modify, hname']

/-- Each pattern stands once. -/
theorem nodup_keys_gatherPatterns (h : (Assoc.keys patterns).Nodup) (members : Members) :
    (Assoc.keys (gatherPatterns directory patterns members)).Nodup := by
  induction members generalizing patterns with
  | nil => exact h
  | cons member members ih =>
    rw [gatherPatterns_cons]
    apply ih
    split
    · exact h
    · exact Assoc.nodup_keys_modify h

end GatherPatterns

/-! ### What a chain of files says -/

section Chain

variable (chain : List (String × Members))

/-- The base directory of a chain is that of the last file that gives one. -/
theorem base_foldl_gather (g : Gathered) :
    (chain.foldl gather g).base = (chain.reverse.findSome? baseIn).or g.base := by
  induction chain generalizing g with
  | nil => rfl
  | cons file chain ih =>
    rw [List.foldl_cons, ih, base_gather, List.reverse_cons, List.findSome?_append,
      List.findSome?_singleton, Option.or_assoc]

/-- Under a pattern stands what the last file of the chain that gives it targets gives to it. -/
theorem lookup_foldl_gather (pattern : String) (g : Gathered) :
    (chain.foldl gather g).patterns.lookup pattern =
      (chain.reverse.findSome? fun file ↦
        (targetsIn pattern file).map fun targets ↦ (targets, Path.parent file.1)).or
          (g.patterns.lookup pattern) := by
  induction chain generalizing g with
  | nil => rfl
  | cons file chain ih =>
    rw [List.foldl_cons, ih, patterns_gather, lookup_gatherPatterns, List.reverse_cons,
      List.findSome?_append, List.findSome?_singleton, Option.or_assoc, targetsIn]

/-- Each pattern stands once in what a chain gathers. -/
theorem nodup_keys_foldl_gather {g : Gathered} (h : (Assoc.keys g.patterns).Nodup) :
    (Assoc.keys (chain.foldl gather g).patterns).Nodup := by
  induction chain generalizing g with
  | nil => exact h
  | cons file chain ih =>
    rw [List.foldl_cons]
    apply ih
    rw [patterns_gather]
    exact nodup_keys_gatherPatterns h _

theorem base_ofChain : (AliasConfig.ofChain chain).base = chain.reverse.findSome? baseIn := by
  rw [AliasConfig.ofChain, base_foldl_gather, Option.or_none]

/-- The last file of a chain that gives targets to a pattern decides. -/
theorem mem_patterns_iff {pattern directory : String} {targets : List String} :
    (pattern, targets, directory) ∈ (chain.foldl gather {}).patterns ↔
      ∃ before file after, chain = before ++ file :: after ∧
        targetsIn pattern file = some targets ∧
        (∀ later ∈ after, targetsIn pattern later = none) ∧ directory = Path.parent file.1 := by
  have hnodup := nodup_keys_foldl_gather chain (g := {}) List.nodup_nil
  rw [← Assoc.lookup_eq_some_iff_mem hnodup, lookup_foldl_gather, List.lookup_nil, Option.or_none,
    List.findSome?_eq_some_iff]
  simp only [Option.map_eq_some_iff, Option.map_eq_none_iff, Prod.mk.injEq]
  constructor
  · rintro ⟨after, file, before, hchain, ⟨_, htargets, rfl, rfl⟩, hlater⟩
    refine ⟨before.reverse, file, after.reverse, ?_, htargets,
      fun later h ↦ hlater later (List.mem_reverse.1 h), rfl⟩
    simpa using List.reverse_eq_iff.1 hchain
  · rintro ⟨before, file, after, rfl, htargets, hlater, rfl⟩
    exact ⟨after.reverse, file, before.reverse, by simp, ⟨_, htargets, rfl, rfl⟩,
      fun later h ↦ hlater later (List.mem_reverse.1 h)⟩

end Chain

/-! ### Rules in order -/

namespace AliasRule

variable {r s t : AliasRule}

/-- A rule goes before those with a shorter front, and an exact one before a wildcard with the same
front. -/
theorem precedes_iff : r.precedes s = true ↔ s.front.length < r.front.length ∨
    (r.front.length = s.front.length ∧ (r.wildcard = true → s.wildcard = true)) := by
  cases hr : r.wildcard <;> cases hs : s.wildcard <;> simp [precedes, hr, hs]

/-- To go before is transitive: the longer front decides, and then the wildcard. -/
theorem precedes_trans (h : r.precedes s = true) (h' : s.precedes t = true) :
    r.precedes t = true := by
  rw [precedes_iff] at h h' ⊢
  rcases h with h | ⟨heq, h⟩ <;> rcases h' with h' | ⟨heq', h'⟩
  · exact Or.inl (h'.trans h)
  · exact Or.inl (heq' ▸ h)
  · exact Or.inl (heq ▸ h')
  · exact Or.inr ⟨heq.trans heq', h' ∘ h⟩

theorem precedes_total (r s : AliasRule) : (r.precedes s || s.precedes r) = true := by
  rw [Bool.or_eq_true, precedes_iff, precedes_iff]
  rcases Nat.lt_trichotomy r.front.length s.front.length with h | h | h
  · exact Or.inr (Or.inl h)
  · by_cases hs : s.wildcard = true
    · exact Or.inl (Or.inr ⟨h, fun _ ↦ hs⟩)
    · exact Or.inr (Or.inr ⟨h.symm, fun hs' ↦ absurd hs' hs⟩)
  · exact Or.inl (Or.inl h)

/-- A text without a star stands before the star that it does not have. -/
theorem beforeStar_of_hasStar_eq_false {text : String} (h : hasStar text = false) :
    beforeStar text = text := by
  rw [hasStar, List.contains_eq_mem, decide_eq_false_iff_not] at h
  have hall : ∀ c ∈ text.toList, (c != '*') = true := forall_bne_of_not_mem h
  rw [beforeStar, List.takeWhile_eq_self_iff.2 hall, String.ofList_toList]

/-- The front of a rule and whether it has a wildcard are read off its pattern. -/
def IsRead (r : AliasRule) : Prop :=
  r.front = beforeStar r.pattern ∧ r.wildcard = hasStar r.pattern

theorem isRead_ofTexts (directory pattern : String) (targets : List String) :
    (ofTexts directory pattern targets).IsRead := ⟨rfl, rfl⟩

namespace IsRead

theorem applies_of_exact (h : r.IsRead) (hstar : hasStar r.pattern = false) {specifier : String} :
    r.applies specifier = true ↔ r.pattern = specifier := by
  rw [applies, h.2, hstar, if_neg Bool.false_ne_true, beq_iff_eq, eq_comm]

theorem applies_of_wildcard (h : r.IsRead) (hstar : hasStar r.pattern = true)
    (specifier : String) : r.applies specifier = startsWith specifier (beforeStar r.pattern) := by
  rw [applies, h.2, hstar, if_pos rfl, h.1]

/-- The targets of an exact rule are taken as they are. -/
theorem expand_exact (h : r.IsRead) (hstar : hasStar r.pattern = false) :
    r.expand r.pattern = r.targets.map fun t ↦ t.expand "" := by
  rw [expand, if_pos ((h.applies_of_exact hstar).2 rfl), h.2, hstar]
  rfl

/-- What stands behind the front is put into the targets of a wildcard. -/
theorem expand_wildcard (h : r.IsRead) (hstar : hasStar r.pattern = true) (rest : String) :
    r.expand (beforeStar r.pattern ++ rest) = r.targets.map fun t ↦ t.expand rest := by
  have happlies : r.applies (beforeStar r.pattern ++ rest) = true := by
    rw [h.applies_of_wildcard hstar]
    exact startsWith_iff.2 ⟨rest, rfl⟩
  rw [expand, if_pos happlies, h.2, hstar, h.1]
  simp only [if_true, dropChars_append]

end IsRead

/-- Rules in order of preference, one for each pattern. -/
structure Ranked (rules : List AliasRule) : Prop where
  isRead : ∀ r ∈ rules, r.IsRead
  nodup : (rules.map pattern).Nodup
  ordered : rules.Pairwise fun r s ↦ r.precedes s = true

namespace Ranked

variable {rules : List AliasRule} {specifier : String}

/-- The first rule that applies, with what stands before and after it. -/
theorem exists_first (h : Ranked rules) (hr : r ∈ rules) (happlies : r.applies specifier = true) :
    ∃ before found after, rules = before ++ found :: after ∧
      rules.find? (fun rule ↦ rule.applies specifier) = some found ∧
      found.applies specifier = true ∧ (∀ other ∈ before, other.applies specifier = false) ∧
      ∀ other ∈ after, found.precedes other = true := by
  rcases hfind : rules.find? (fun rule ↦ rule.applies specifier) with - | found
  · exact absurd happlies (List.find?_eq_none.1 hfind r hr)
  obtain ⟨hfound, before, after, hrules, hbefore⟩ := List.find?_eq_some_iff_append.1 hfind
  refine ⟨before, found, after, hrules, hfind, hfound, fun other hother ↦ ?_, ?_⟩
  · simpa using hbefore other hother
  · exact (List.pairwise_cons.1 (List.pairwise_append.1 (hrules ▸ h.ordered)).2.1).1

/-- A rule for just this specifier goes before all others. -/
theorem find?_exact (h : Ranked rules) (hr : r ∈ rules) (hstar : hasStar r.pattern = false) :
    rules.find? (fun rule ↦ rule.applies r.pattern) = some r := by
  have happlies := ((h.isRead r hr).applies_of_exact hstar).2 rfl
  obtain ⟨before, found, after, hrules, hfind, hfound, hbefore, hafter⟩ :=
    h.exists_first hr happlies
  have hread := h.isRead found (hrules ▸ by simp)
  rw [hfind, Option.some_inj]
  rcases List.mem_append.1 (hrules ▸ hr) with hmem | hmem
  · rw [hbefore r hmem] at happlies
    exact absurd happlies Bool.false_ne_true
  rcases List.mem_cons.1 hmem with heq | hmem
  · exact heq.symm
  exfalso
  by_cases hwild : hasStar found.pattern = true
  · -- the front of a wildcard is at most as long, and the wildcard decides if it is as long
    obtain ⟨rest, hrest⟩ := startsWith_iff.1 (hread.applies_of_wildcard hwild _ ▸ hfound)
    have hlength := congrArg String.length hrest
    have hprecedes := hafter r hmem
    rw [String.length_append] at hlength
    rw [precedes_iff, hread.1, hread.2, (h.isRead r hr).1, (h.isRead r hr).2,
      beforeStar_of_hasStar_eq_false hstar, hwild, hstar] at hprecedes
    rcases hprecedes with hlt | ⟨-, himp⟩
    · omega
    · exact Bool.false_ne_true (himp rfl)
  · have heq := (hread.applies_of_exact (eq_false_of_ne_true hwild)).1 hfound
    have hnodup := h.nodup
    rw [hrules, List.map_append, List.map_cons] at hnodup
    exact (List.nodup_cons.1 (List.nodup_append.1 hnodup).2.1).1 (heq ▸ List.mem_map_of_mem hmem)

/-- If no rule is for just this specifier, the first wildcard with the longest front goes before
all others. -/
theorem find?_wildcard (h : Ranked rules)
    (hexact : ∀ rule ∈ rules, rule.pattern = specifier → hasStar specifier = true)
    (hr : r ∈ rules) (hstar : hasStar r.pattern = true)
    (hfront : startsWith specifier (beforeStar r.pattern) = true) :
    ∃ before found after, rules = before ++ found :: after ∧
      rules.find? (fun rule ↦ rule.applies specifier) = some found ∧
      hasStar found.pattern = true ∧ startsWith specifier (beforeStar found.pattern) = true ∧
      (∀ other ∈ before, hasStar other.pattern = true →
        startsWith specifier (beforeStar other.pattern) = false) ∧
      ∀ other ∈ rules, hasStar other.pattern = true →
        startsWith specifier (beforeStar other.pattern) = true →
          (beforeStar other.pattern).length ≤ (beforeStar found.pattern).length := by
  have happlies : r.applies specifier = true := by
    rw [(h.isRead r hr).applies_of_wildcard hstar]
    exact hfront
  obtain ⟨before, found, after, hrules, hfind, hfound, hbefore, hafter⟩ :=
    h.exists_first hr happlies
  have hmem : found ∈ rules := hrules ▸ by simp
  have hread := h.isRead found hmem
  -- an exact rule that applies would have the specifier for its pattern
  have hwild : hasStar found.pattern = true := by
    by_contra hwild
    have heq := (hread.applies_of_exact (eq_false_of_ne_true hwild)).1 hfound
    rw [heq] at hwild
    exact hwild (hexact found hmem heq)
  have hearlier : ∀ other ∈ before, hasStar other.pattern = true →
      startsWith specifier (beforeStar other.pattern) = false := by
    intro other hother hstar'
    have hread' := h.isRead other (hrules ▸ List.mem_append_left _ hother)
    rw [← hread'.applies_of_wildcard hstar']
    exact hbefore other hother
  refine ⟨before, found, after, hrules, hfind, hwild, hread.applies_of_wildcard hwild _ ▸ hfound,
    hearlier, ?_⟩
  intro other hother hstar' hfront'
  rcases List.mem_append.1 (hrules ▸ hother) with hmem' | hmem'
  · rw [hearlier other hmem' hstar'] at hfront'
    exact absurd hfront' Bool.false_ne_true
  rcases List.mem_cons.1 hmem' with rfl | hmem'
  · exact Nat.le_refl _
  -- behind the rule that is found, none has a longer front
  have hprecedes := hafter other hmem'
  rw [precedes_iff, hread.1, (h.isRead other hother).1] at hprecedes
  rcases hprecedes with hlt | ⟨heq, -⟩
  · exact Nat.le_of_lt hlt
  · exact Nat.le_of_eq heq.symm

end Ranked

end AliasRule

/-! ### The rules of a chain -/

section OfChain

variable (chain : List (String × Members))

/-- The last file of a chain that gives targets to a pattern decides its rule. -/
theorem mem_rules_ofChain_iff {rule : AliasRule} :
    rule ∈ (AliasConfig.ofChain chain).rules ↔
      ∃ before file after targets, chain = before ++ file :: after ∧
        targetsIn rule.pattern file = some targets ∧
        (∀ later ∈ after, targetsIn rule.pattern later = none) ∧
        rule = AliasRule.ofTexts ((AliasConfig.ofChain chain).base.getD (Path.parent file.1))
          rule.pattern targets := by
  rw [AliasConfig.ofChain, (List.mergeSort_perm _ _).mem_iff, List.mem_map]
  constructor
  · rintro ⟨⟨pattern, targets, directory⟩, hmem, rfl⟩
    obtain ⟨before, file, after, hchain, htargets, hlater, rfl⟩ := (mem_patterns_iff chain).1 hmem
    exact ⟨before, file, after, targets, hchain, htargets, hlater, rfl⟩
  · rintro ⟨before, file, after, targets, hchain, htargets, hlater, hrule⟩
    exact ⟨(rule.pattern, targets, Path.parent file.1),
      (mem_patterns_iff chain).2 ⟨before, file, after, hchain, htargets, hlater, rfl⟩, hrule.symm⟩

/-- The rules of a chain are made of its patterns and sorted. -/
theorem rules_ofChain : (AliasConfig.ofChain chain).rules =
    ((chain.foldl gather {}).patterns.map fun (pattern, targets, directory) ↦
      AliasRule.ofTexts ((AliasConfig.ofChain chain).base.getD directory) pattern
        targets).mergeSort AliasRule.precedes := rfl

/-- The rules of a chain are in order of preference, one for each pattern. -/
theorem ranked_rules_ofChain : AliasRule.Ranked (AliasConfig.ofChain chain).rules where
  isRead := by
    intro rule hrule
    obtain ⟨_, file, _, targets, -, -, -, hread⟩ := (mem_rules_ofChain_iff chain).1 hrule
    rw [hread]
    exact AliasRule.isRead_ofTexts _ _ _
  nodup := by
    have hkeys := nodup_keys_foldl_gather chain (g := {}) List.nodup_nil
    rw [rules_ofChain, ((List.mergeSort_perm _ _).map _).nodup_iff, List.map_map]
    exact hkeys
  ordered := by
    rw [rules_ofChain]
    apply List.pairwise_mergeSort
    · intro r s t h h'
      exact AliasRule.precedes_trans h h'
    · exact AliasRule.precedes_total

end OfChain

/-! ### What a specifier stands for -/

namespace Resolver

variable {r : Resolver} {importer specifier : String}

/-- A specifier that is not relative is taken as it is. -/
theorem specifierIn_of_not_relative (h : startsWith specifier "." = false) :
    specifierIn importer specifier = specifier := by
  have hpoints : specifier.toList.takeWhile (· == '.') = [] := by
    rw [startsWith] at h
    cases hchars : specifier.toList with
    | nil => rfl
    | cons c cs =>
      have hc : ¬(c == '.') = true := by
        intro hc
        rw [hchars, beq_iff_eq.1 hc] at h
        exact Bool.false_ne_true (h.symm.trans (by simp [List.isPrefixOf]))
      exact List.takeWhile_cons_of_neg hc
  rw [specifierIn, pythonSpecifier, pythonChars, hpoints, String.ofList_toList, ite_self]

/-- A specifier to which a rule applies stands for the targets of the first such rule. -/
theorem bases_of_find? {rule : AliasRule} (h : startsWith specifier "." = false)
    (hfind : r.rules.find? (fun rule ↦ rule.applies specifier) = some rule) :
    r.bases importer specifier = rule.expand specifier := by
  rw [bases, h, if_neg Bool.false_ne_true, hfind]

/-- A specifier that is not relative means the first file among the candidates of what it stands
for. -/
theorem resolve_of_not_relative (h : startsWith specifier "." = false) (hne : specifier ≠ "") :
    r.resolve importer specifier =
      ((r.bases importer specifier).flatMap candidates).find? r.hasFile := by
  rw [resolve, if_neg hne, specifierIn_of_not_relative h]

end Resolver

/-- The alias settings that a chain of files amounts to, and what they do. The base directory is the
last that a file gives. There is one rule for each pattern that some file gives targets to, with the
targets of the last such file, seen from the base directory or else from the directory of that file.
What is not relative stands for the targets of the rule for just this specifier; if there is none,
for those of the first wildcard with the longest front. -/
theorem alias_rule_choice (chain : List (String × Members)) :
    let config := AliasConfig.ofChain chain
    (∀ files root steps, loadAliases files root = .ok (.chain steps) → settingsOf steps = chain →
      aliasConfig files root = .ok config) ∧
    config.base = chain.reverse.findSome? baseIn ∧
    (config.rules.map AliasRule.pattern).Nodup ∧
    (∀ rule, rule ∈ config.rules ↔ ∃ before file after targets, chain = before ++ file :: after ∧
      targetsIn rule.pattern file = some targets ∧
      (∀ later ∈ after, targetsIn rule.pattern later = none) ∧
      rule = AliasRule.ofTexts (config.base.getD (Path.parent file.1)) rule.pattern targets) ∧
    ∀ (r : Resolver) (importer s : String), r.rules = config.rules → startsWith s "." = false →
      (s ≠ "" →
        r.resolve importer s = ((r.bases importer s).flatMap candidates).find? r.hasFile) ∧
      (∀ rule ∈ config.rules, rule.pattern = s → hasStar s = false →
        r.bases importer s = rule.targets.map fun t ↦ t.expand "") ∧
      ((∀ rule ∈ config.rules, rule.pattern = s → hasStar s = true) →
        (∃ rule ∈ config.rules, hasStar rule.pattern = true ∧
          startsWith s (beforeStar rule.pattern) = true) →
        ∃ before rule after rest, config.rules = before ++ rule :: after ∧
          hasStar rule.pattern = true ∧ s = beforeStar rule.pattern ++ rest ∧
          r.bases importer s = rule.targets.map (fun t ↦ t.expand rest) ∧
          (∀ other ∈ before, hasStar other.pattern = true →
            startsWith s (beforeStar other.pattern) = false) ∧
          ∀ other ∈ config.rules, hasStar other.pattern = true →
            startsWith s (beforeStar other.pattern) = true →
              (beforeStar other.pattern).length ≤ (beforeStar rule.pattern).length) := by
  intro config
  have hranked : AliasRule.Ranked config.rules := ranked_rules_ofChain chain
  refine ⟨fun files root steps hload hsteps ↦ ?_, base_ofChain chain, hranked.nodup,
    fun rule ↦ mem_rules_ofChain_iff chain, fun r importer s hrules hs ↦
      ⟨Resolver.resolve_of_not_relative hs, fun rule hrule hpattern hstar ↦ ?_, ?_⟩⟩
  · rw [aliasConfig, hload]
    show Except.ok (AliasConfig.ofChain (settingsOf steps)) = .ok (AliasConfig.ofChain chain)
    rw [hsteps]
  -- an exact rule goes before all others
  · subst hpattern
    have hfind := hranked.find?_exact hrule hstar
    rw [← hrules] at hfind
    rw [Resolver.bases_of_find? hs hfind, (hranked.isRead rule hrule).expand_exact hstar]
  -- without an exact rule, the first wildcard that applies is the longest
  · rintro hexact ⟨rule, hrule, hstar, hfront⟩
    obtain ⟨before, found, after, hsplit, hfind, hwild, hfound, hearlier, hlongest⟩ :=
      hranked.find?_wildcard hexact hrule hstar hfront
    obtain ⟨rest, rfl⟩ := startsWith_iff.1 hfound
    have hread := hranked.isRead found (hsplit ▸ by simp)
    rw [← hrules] at hfind
    exact ⟨before, found, after, rest, hsplit, hwild, rfl,
      (Resolver.bases_of_find? hs hfind).trans (hread.expand_wildcard hwild rest), hearlier,
      hlongest⟩

/-- A file with two patterns, and a project file that overrides one of them. -/
def layeredChain : List (String × Members) :=
  [("/repo/base.json", [("compilerOptions", .obj
      [("paths", .obj [("@/*", .str "lib/*"), ("util", .str "lib/util.js")])])]),
    ("/repo/tsconfig.json", [("compilerOptions", .obj [("baseUrl", .str "src"),
      ("paths", .obj [("@/*", .arr [.str "*"]), ("@/ui/*", .arr [.str "ui/*", .null])])])])]

/-- The project file overrides one of the patterns and leaves the other to the file that it extends.
-/
theorem alias_rule_choice_layeredChain :
    let config := AliasConfig.ofChain layeredChain
    let r : Resolver := { rules := config.rules, hasFile := fun _ ↦ true }
    config.base = some "/repo/src" ∧
      r.bases "/repo/a.js" "util" = ["/repo/src/lib/util.js"] ∧
      ∃ rule ∈ config.rules, ∃ rest, "@/ui/button" = beforeStar rule.pattern ++ rest ∧
        r.bases "/repo/a.js" "@/ui/button" = rule.targets.map (fun t ↦ t.expand rest) ∧
        (beforeStar "@/ui/*").length ≤ (beforeStar rule.pattern).length := by
  intro config r
  obtain ⟨-, hbase, -, hmem, hchoice⟩ := alias_rule_choice layeredChain
  have hbase : config.base = some "/repo/src" := hbase.trans (by decide +kernel)
  obtain ⟨-, hutil, -⟩ := hchoice r "/repo/a.js" "util" rfl (by decide)
  obtain ⟨-, -, hbutton⟩ := hchoice r "/repo/a.js" "@/ui/button" rfl (by decide)
  refine ⟨hbase, ?_, ?_⟩
  · have hrule := (hmem (AliasRule.ofTexts "/repo/src" "util" ["lib/util.js"])).2
      ⟨[], _, _, ["lib/util.js"], rfl, by decide +kernel, by decide +kernel, by rw [hbase]; rfl⟩
    rw [hutil _ hrule rfl (by decide)]
    decide +kernel
  · have hexact : ∀ rule ∈ config.rules, rule.pattern = "@/ui/button" →
        hasStar "@/ui/button" = true := by
      intro rule hrule hpattern
      obtain ⟨before, file, after, targets, hchain, htargets, -⟩ := (hmem rule).1 hrule
      have hnone : ∀ file ∈ layeredChain, targetsIn "@/ui/button" file = none := by decide +kernel
      rw [hpattern, hnone file (hchain ▸ by simp)] at htargets
      cases htargets
    have hrule := (hmem (AliasRule.ofTexts "/repo/src" "@/ui/*" ["ui/*"])).2
      ⟨[_], _, [], ["ui/*"], rfl, by decide +kernel, by decide +kernel, by rw [hbase]; rfl⟩
    obtain ⟨before, rule, after, rest, hsplit, -, hrest, hbases, -, hlongest⟩ :=
      hbutton hexact ⟨_, hrule, by decide, by decide⟩
    have hlength := hlongest _ hrule (by decide) (by decide)
    rw [AliasRule.ofTexts] at hlength
    exact ⟨rule, hsplit ▸ by simp, rest, hrest, hbases, hlength⟩

end RepoSurvey.Imports
