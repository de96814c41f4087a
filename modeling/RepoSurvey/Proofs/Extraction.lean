import Mathlib.Data.List.Induction
import RepoSurvey.Code.Findings
import RepoSurvey.Code.Patterns
import RepoSurvey.Proofs.Assoc

/-!
# What an extraction holds

A collector finds out from the sets that it keeps whether a name is new. Such a set is made when it
is first wanted and is never looked up in the bucket again, so it has to follow the bucket with
every name (`Collector.Mirrors.add`). While it does, a finding puts its name behind the others of
its bucket unless this has it, and changes no other bucket (`Collector.Mirrors.get_add`).

So the names of a bucket after findings have been added are the old ones and behind them the new
ones, each where it is first found (`get_addAll`), and a name is there exactly if it was there
before or one of the findings puts it there (`mem_get_addAll_iff`). `buckets_ordered_sets` says this
of all extractions that begin as ordered sets, and that those of both ways of looking for names are.
-/

namespace RepoSurvey

open RepoSurvey.Assoc

namespace Extraction

theorem get_set (e : Extraction) (b c : Bucket) (names : List String) :
    (e.set b names).get c = if c = b then names else e.get c := by
  cases b <;> cases c <;> rfl

/-- The names that findings have for a bucket. -/
def namesFor (b : Bucket) (fs : List Finding) : List String :=
  fs.filterMap fun f ↦ if f.1 = b then f.2 else none

/-- A name is there for a bucket if a finding has it. -/
theorem mem_namesFor {b : Bucket} {name : String} {fs : List Finding} :
    name ∈ namesFor b fs ↔ (b, some name) ∈ fs := by
  rw [namesFor, List.mem_filterMap]
  constructor
  · rintro ⟨⟨c, found⟩, hf, hname⟩
    by_cases hc : c = b
    · subst hc
      rw [if_pos rfl] at hname
      exact hname ▸ hf
    · rw [if_neg hc] at hname
      cases hname
  · intro hf
    exact ⟨_, hf, if_pos rfl⟩

theorem namesFor_append (b : Bucket) (fs gs : List Finding) :
    namesFor b (fs ++ gs) = namesFor b fs ++ namesFor b gs :=
  List.filterMap_append

/-- Findings for one bucket have names for no other. -/
theorem namesFor_map_some (b c : Bucket) (names : List String) :
    namesFor b (names.map fun n ↦ (c, some n)) = if c = b then names else [] := by
  rw [namesFor, List.filterMap_map]
  split
  · rename_i h
    simp [h]
  · rename_i h
    simp [h]

/-- A last finding has a last name for its bucket, if it has any. -/
theorem namesFor_concat (b : Bucket) (fs : List Finding) (f : Finding) :
    namesFor b (fs ++ [f]) = namesFor b fs ++ (if f.1 = b then f.2 else none).toList := by
  rw [namesFor_append]
  rfl

/-- Findings for other buckets do not matter. -/
theorem namesFor_filter (b : Bucket) (fs : List Finding) :
    namesFor b (fs.filter fun f ↦ f.1 = b) = namesFor b fs := by
  rw [namesFor, namesFor, List.filterMap_filter]
  refine List.filterMap_congr fun f _ ↦ ?_
  by_cases h : f.1 = b <;> simp [h]

end Extraction

/-! ### The sets beside the buckets -/

namespace Collector

open Extraction

variable {c : Collector}

/-- What a collector knows of the names of a bucket is what the bucket holds. -/
def Mirrors (c : Collector) : Prop := ∀ b name, name ∈ c.knownIn b ↔ name ∈ c.names.get b

/-- A set that is still to be made is made from its bucket. -/
theorem mirrors_start (e : Extraction) : Mirrors ⟨e, []⟩ := fun _ _ ↦ Iff.rfl

/-- A name that is known is not put in again, but from then on its set is kept. -/
theorem put_of_known {b : Bucket} {name : String} (h : name ∈ c.knownIn b) :
    c.put b name = { c with known := Assoc.set b (c.knownIn b) c.known } :=
  if_pos h

/-- A name that is new is put behind the others, and into the set. -/
theorem put_of_new {b : Bucket} {name : String} (h : name ∉ c.knownIn b) :
    c.put b name = { names := c.names.set b (c.names.get b ++ [name])
                     known := Assoc.set b (name :: c.knownIn b) c.known } :=
  if_neg h

/-- A set follows its bucket, and is kept for it from then on. -/
theorem Mirrors.put (h : c.Mirrors) (b : Bucket) (name : String) : (c.put b name).Mirrors := by
  intro b' other
  by_cases hknown : name ∈ c.knownIn b
  · rw [put_of_known hknown, knownIn, Assoc.set, lookup_modify]
    by_cases hb : b' = b
    · subst hb
      rw [if_pos (beq_self_eq_true _)]
      exact h b' other
    · rw [if_neg (by simpa using hb)]
      exact h b' other
  · rw [put_of_new hknown, knownIn, Assoc.set, lookup_modify, get_set]
    by_cases hb : b' = b
    · subst hb
      rw [if_pos (beq_self_eq_true _), if_pos rfl, Option.getD_some, List.mem_cons, List.mem_append,
        List.mem_singleton, h b' other, or_comm]
    · rw [if_neg (by simpa using hb), if_neg hb]
      exact h b' other

/-- One more finding leaves the sets as the buckets are. -/
theorem Mirrors.add (h : c.Mirrors) (f : Finding) : (c.add f).Mirrors := by
  obtain ⟨b, found⟩ := f
  cases found with
  | none => exact h
  | some name =>
    rw [Collector.add]
    split
    · exact h
    · exact h.put b name

theorem Mirrors.addAll (h : c.Mirrors) (fs : List Finding) : (c.addAll fs).Mirrors :=
  List.foldlRecOn fs Collector.add h fun _ h f _ ↦ h.add f

/-! ### What is put in -/

/-- Puts a name behind the others, unless it is empty or there already. -/
def insertName (name : String) (names : List String) : List String :=
  if name = "" ∨ name ∈ names then names else names ++ [name]

/-- A name goes into its own bucket only. -/
theorem get_put_of_ne {b b' : Bucket} (hb : b' ≠ b) (name : String) :
    (c.put b name).names.get b' = c.names.get b' := by
  by_cases hknown : name ∈ c.knownIn b
  · rw [put_of_known hknown]
  · rw [put_of_new hknown, get_set, if_neg hb]

/-- A name goes behind the others of its bucket, if it is not there. -/
theorem Mirrors.get_put (h : c.Mirrors) (b : Bucket) (name : String) :
    (c.put b name).names.get b =
      if name ∈ c.names.get b then c.names.get b else c.names.get b ++ [name] := by
  by_cases hknown : name ∈ c.knownIn b
  · rw [put_of_known hknown, if_pos ((h b name).1 hknown)]
  · rw [put_of_new hknown, if_neg fun hname ↦ hknown ((h b name).2 hname), get_set, if_pos rfl]

/-- One more finding puts its name behind the others of its bucket. -/
theorem Mirrors.get_add (h : c.Mirrors) (f : Finding) (b : Bucket) :
    (c.add f).names.get b =
      (if f.1 = b then f.2 else none).elim (c.names.get b) fun name ↦
        insertName name (c.names.get b) := by
  obtain ⟨b', found⟩ := f
  rcases found with - | name
  · show c.names.get b = _
    split <;> rfl
  · rw [Collector.add]
    by_cases hempty : name = ""
    · subst hempty
      rw [if_pos rfl]
      split <;> simp [insertName]
    · rw [if_neg hempty]
      by_cases hb : b' = b
      · subst hb
        rw [h.get_put, if_pos rfl, Option.elim_some, insertName]
        exact if_congr (or_iff_right hempty).symm rfl rfl
      · rw [get_put_of_ne (Ne.symm hb), if_neg hb, Option.elim_none]

/-- The names of a bucket after findings are those that were there, and behind them the new ones
that are not empty, each where it is first found. -/
theorem Mirrors.get_addAll (h : c.Mirrors) (fs : List Finding) (b : Bucket) :
    (c.addAll fs).names.get b = c.names.get b ++
      distinct ((namesFor b fs).filter fun n ↦ n ≠ "" ∧ n ∉ c.names.get b) := by
  induction fs using List.reverseRecOn with
  | nil => simp [Collector.addAll, namesFor, distinct]
  | append_singleton fs f ih =>
    have hconcat : c.addAll (fs ++ [f]) = (c.addAll fs).add f := List.foldl_concat ..
    rw [hconcat, (h.addAll fs).get_add, ih, namesFor_concat, List.filter_append]
    rcases (if f.1 = b then f.2 else none) with - | name
    · simp
    · show insertName name _ = _
      rw [insertName]
      by_cases hold : name = "" ∨ name ∈ c.names.get b
      · have hout : ¬(name ≠ "" ∧ name ∉ c.names.get b) := by tauto
        rw [if_pos (hold.imp_right fun h ↦ List.mem_append_left _ h)]
        simp [hout]
      · rw [not_or] at hold
        have hin : (Option.toList (some name)).filter (fun n ↦ n ≠ "" ∧ n ∉ c.names.get b) =
            [name] := by
          simp [hold]
        rw [hin, distinct_concat]
        have hmem : (name = "" ∨ name ∈ c.names.get b ++
            distinct ((namesFor b fs).filter fun n ↦ n ≠ "" ∧ n ∉ c.names.get b)) ↔
            name ∈ (namesFor b fs).filter fun n ↦ n ≠ "" ∧ n ∉ c.names.get b := by
          rw [List.mem_append, mem_distinct, or_iff_right hold.1, or_iff_right hold.2]
        rw [if_congr hmem rfl rfl]
        split
        · rfl
        · rw [List.append_assoc]

end Collector

namespace Extraction

variable {e : Extraction} {b : Bucket} {name : String}

/-- The names of a bucket after findings are added to an extraction: the old ones, and behind them
those that are new and not empty. -/
theorem get_addAll (e : Extraction) (fs : List Finding) (b : Bucket) :
    (e.addAll fs).get b = e.get b ++
      distinct ((namesFor b fs).filter fun n ↦ n ≠ "" ∧ n ∉ e.get b) :=
  (Collector.mirrors_start e).get_addAll fs b

/-- A name is in a bucket if it was there, or has been found and is not empty. -/
theorem mem_get_addAll_iff {fs : List Finding} :
    name ∈ (e.addAll fs).get b ↔ name ∈ e.get b ∨ name ≠ "" ∧ (b, some name) ∈ fs := by
  rw [get_addAll, List.mem_append, mem_distinct, List.mem_filter, mem_namesFor, decide_eq_true_eq]
  tauto

/-- What findings amount to from the beginning. -/
theorem get_ofFindings (fs : List Finding) (b : Bucket) :
    (ofFindings fs).get b = distinct ((namesFor b fs).filter (· ≠ "")) := by
  have hempty : ({} : Extraction).get b = [] := by cases b <;> rfl
  rw [ofFindings, get_addAll, hempty]
  simp

/-- From the beginning, a name is in a bucket if it has been found and is not empty. -/
theorem mem_get_ofFindings_iff {fs : List Finding} :
    name ∈ (ofFindings fs).get b ↔ name ≠ "" ∧ (b, some name) ∈ fs := by
  have hempty : name ∉ ({} : Extraction).get b := by
    cases b <;> exact List.not_mem_nil
  rw [ofFindings, mem_get_addAll_iff, or_iff_right hempty]

/-! ### Ordered sets -/

/-- Each bucket holds each of its names once, and no empty name. -/
def IsOrderedSets (e : Extraction) : Prop := ∀ b, (e.get b).Nodup ∧ "" ∉ e.get b

instance (e : Extraction) : Decidable e.IsOrderedSets :=
  decidable_of_iff (∀ b ∈ Bucket.all, (e.get b).Nodup ∧ "" ∉ e.get b)
    ⟨fun h b ↦ h b (by cases b <;> decide), fun h b _ ↦ h b⟩

theorem isOrderedSets_empty : ({} : Extraction).IsOrderedSets := by decide

/-- Ordered sets stay so with any findings. -/
theorem IsOrderedSets.addAll (h : e.IsOrderedSets) (fs : List Finding) :
    (e.addAll fs).IsOrderedSets := by
  intro b
  obtain ⟨hnodup, hempty⟩ := h b
  refine ⟨?_, fun hmem ↦ ?_⟩
  · rw [get_addAll, List.nodup_append]
    refine ⟨hnodup, nodup_distinct _, ?_⟩
    rintro name hold _ hnew rfl
    have hfresh := of_decide_eq_true (List.mem_filter.1 (mem_distinct.1 hnew)).2
    exact hfresh.2 hold
  · rcases mem_get_addAll_iff.1 hmem with hold | ⟨hne, -⟩
    · exact hempty hold
    · exact hne rfl

/-- **Buckets are ordered sets.** Whatever findings are added one after the other to an extraction
that begins with ordered sets, each bucket holds what it held, and behind it the names that are
neither empty nor there before, each where it is first added; findings for other buckets do not
matter. So the names that patterns find in a text in any language are ordered sets, and so are those
that are found in any syntax tree. -/
theorem buckets_ordered_sets :
    (∀ e : Extraction, e.IsOrderedSets → ∀ (fs : List Finding) (b : Bucket),
      (∃ new, (e.addAll fs).get b = e.get b ++ new ∧
        IsFirstOccurrences ((namesFor b fs).filter fun n ↦ n ≠ "" ∧ n ∉ e.get b) new) ∧
      (e.addAll fs).get b = (e.addAll (fs.filter fun f ↦ f.1 = b)).get b ∧
      (e.addAll fs).IsOrderedSets) ∧
    (∀ (language : Code.Language) (text : String),
      ((Code.PatternSet.ofLanguage language).extract text).IsOrderedSets) ∧
    ∀ (source : List UInt8) (root : Code.Node), (Code.extract source root).IsOrderedSets := by
  refine ⟨fun e he fs b ↦ ⟨⟨_, get_addAll e fs b, isFirstOccurrences_distinct _⟩, ?_,
    he.addAll fs⟩, fun language text ↦ ?_, fun source root ↦ ?_⟩
  · rw [get_addAll, get_addAll, namesFor_filter]
  · exact isOrderedSets_empty.addAll _
  · exact isOrderedSets_empty.addAll _

/-- Names that are there, that come twice, that are empty and that are missing, for two buckets in
turn. -/
def mixedFindings : List Finding :=
  [(.imports, some "b"), (.exports, some "a"), (.imports, none), (.imports, some "a"),
    (.exports, some "b"), (.imports, some ""), (.imports, some "c"), (.imports, some "b")]

theorem buckets_ordered_sets_of_mixed :
    let e : Extraction := { imports := ["a"], exports := ["b"] }
    e.IsOrderedSets ∧ (e.addAll mixedFindings).get .imports = ["a", "b", "c"] ∧
      (e.addAll mixedFindings).get .exports = ["b", "a"] ∧
      (∃ new, (e.addAll mixedFindings).get .imports = ["a"] ++ new ∧
        IsFirstOccurrences ["b", "c", "b"] new) ∧
      (e.addAll mixedFindings).IsOrderedSets := by
  intro e
  have he : e.IsOrderedSets := by decide
  obtain ⟨hnew, -, hsets⟩ := buckets_ordered_sets.1 e he mixedFindings .imports
  exact ⟨he, by decide, by decide, hnew, hsets⟩

end Extraction

end RepoSurvey
