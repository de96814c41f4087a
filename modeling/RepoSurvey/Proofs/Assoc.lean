import Mathlib.Algebra.GroupWithZero.Nat
import Mathlib.Data.List.Induction
import Mathlib.Data.List.Nodup
import RepoSurvey.Assoc

/-!
# What a map of pairs holds

The laws of `Assoc.modify` and `Assoc.distinct` through their views: the keys of a map, and what
`List.lookup` finds under each.

* A map has each key once, and keeps it so (`nodup_keys_modify`); a new key comes last
  (`keys_modify`).
* Setting a key changes what is found under it and under no other (`lookup_modify`).
* Keys can be renamed before or after one of them is set (`modify_renameKeys`), and what is found
  under a name is what was found under its key (`lookup_renameKeys`).
* Where each pair of a list changes what stands under its key, the keys stand where they first
  occur, each with what its own values come to (`accumulate_eq`). So do the values of a list that
  are counted (`foldl_modify_succ`) and those that are gathered (`gather_eq`).
* `distinct` holds what the list holds, each value where it first occurs
  (`isFirstOccurrences_distinct`). `IsFirstOccurrences` says this without the function.
-/

namespace RepoSurvey.Assoc

variable {α β : Type}

/-- The keys of a map, in order. -/
def keys (pairs : List (α × β)) : List α := pairs.map Prod.fst

@[simp] theorem keys_nil : keys ([] : List (α × β)) = [] := rfl

@[simp] theorem keys_cons (p : α × β) (pairs : List (α × β)) :
    keys (p :: pairs) = p.1 :: keys pairs := rfl

/-- `firsts` are the values of a list without repetitions, in the order in which they first
occur. -/
def IsFirstOccurrences [BEq α] (values firsts : List α) : Prop :=
  (∀ a, a ∈ firsts ↔ a ∈ values) ∧
    firsts.Pairwise fun a b ↦ values.idxOf a < values.idxOf b

variable [BEq α] [LawfulBEq α]

/-! ### Looking up -/

/-- Nothing is found under what is no key. -/
theorem lookup_eq_none_iff_not_mem_keys {key : α} {pairs : List (α × β)} :
    pairs.lookup key = none ↔ key ∉ keys pairs := by
  rw [List.lookup_eq_none_iff, keys, List.mem_map]
  constructor
  · rintro h ⟨p, hp, rfl⟩
    simpa using h p hp
  · intro h p hp
    simp only [bne_iff_ne, ne_eq]
    rintro rfl
    exact h ⟨p, hp, rfl⟩

/-- What is found under a key stands there in a pair. -/
theorem mem_of_lookup {key : α} {value : β} {pairs : List (α × β)}
    (h : pairs.lookup key = some value) : (key, value) ∈ pairs := by
  obtain ⟨l₁, l₂, rfl, -⟩ := List.lookup_eq_some_iff.1 h
  simp

/-- Where each key occurs once, looking up a key and finding its pair are the same. -/
theorem lookup_eq_some_iff_mem {key : α} {value : β} {pairs : List (α × β)}
    (h : (keys pairs).Nodup) : pairs.lookup key = some value ↔ (key, value) ∈ pairs := by
  refine ⟨mem_of_lookup, fun hmem ↦ ?_⟩
  induction pairs with
  | nil => simp at hmem
  | cons p pairs ih =>
    obtain ⟨hp, hrest⟩ := List.nodup_cons.1 h
    rw [List.lookup_cons]
    rcases List.mem_cons.1 hmem with rfl | hmem
    · simp
    · have hkey : key ∈ keys pairs := List.mem_map_of_mem (f := Prod.fst) hmem
      have hne : (key == p.1) = false := by
        rw [beq_eq_false_iff_ne]
        rintro rfl
        exact hp hkey
      rw [hne]
      exact ih hrest hmem

/-! ### Setting a key -/

/-- Setting a key adds it behind the others, unless it is there. -/
theorem keys_modify (key : α) (f : Option β → β) (pairs : List (α × β)) :
    keys (modify key f pairs) = if key ∈ keys pairs then keys pairs else keys pairs ++ [key] := by
  induction pairs with
  | nil => rfl
  | cons p pairs ih =>
    obtain ⟨k, v⟩ := p
    by_cases hk : k = key
    · simp [modify, hk]
    · have hk' : key ≠ k := Ne.symm hk
      simp only [modify, beq_iff_eq, hk, if_false, keys_cons, ih, List.mem_cons, hk', false_or]
      split <;> rfl

/-- No key but the one that is set is new. -/
theorem mem_keys_modify {a key : α} {f : Option β → β} {pairs : List (α × β)} :
    a ∈ keys (modify key f pairs) ↔ a = key ∨ a ∈ keys pairs := by
  rw [keys_modify]
  split
  · rename_i hkey
    exact ⟨Or.inr, fun h ↦ h.elim (fun heq ↦ heq ▸ hkey) id⟩
  · rw [List.mem_append, List.mem_singleton, or_comm]

/-- Where each key stands once, it does so after one has been set. -/
theorem nodup_keys_modify {key : α} {f : Option β → β} {pairs : List (α × β)}
    (h : (keys pairs).Nodup) : (keys (modify key f pairs)).Nodup := by
  rw [keys_modify]
  split
  · exact h
  · rename_i hkey
    refine List.nodup_append.2 ⟨h, List.nodup_singleton key, ?_⟩
    rintro a ha b hb rfl
    exact hkey (List.mem_singleton.1 hb ▸ ha)

/-- Setting a key changes what is found under it, and under no other key. -/
theorem lookup_modify (a key : α) (f : Option β → β) (pairs : List (α × β)) :
    (modify key f pairs).lookup a =
      if a == key then some (f (pairs.lookup key)) else pairs.lookup a := by
  induction pairs with
  | nil =>
    rw [modify, List.lookup_cons]
    cases a == key <;> rfl
  | cons p pairs ih =>
    obtain ⟨k, v⟩ := p
    by_cases hk : k = key
    · subst hk
      simp only [modify, beq_self_eq_true, if_true, List.lookup_cons]
      cases a == k <;> rfl
    · have hk' : (key == k) = false := by simpa using Ne.symm hk
      by_cases ha : a = k
      · subst ha
        simp [modify, hk]
      · have ha' : (a == k) = false := by simpa using ha
        simp only [modify, beq_iff_eq, hk, if_false, List.lookup_cons, ha', hk', ih]

/-- Setting a key that is there to what it has changes nothing. -/
theorem modify_eq_self {key : α} {f : Option β → β} (hf : ∀ v, f (some v) = v)
    {pairs : List (α × β)} (h : key ∈ keys pairs) : modify key f pairs = pairs := by
  induction pairs with
  | nil => exact absurd h List.not_mem_nil
  | cons p pairs ih =>
    rw [modify]
    split
    · rw [hf]
    · rename_i hp
      have hrest : key ∈ keys pairs := by
        refine (List.mem_cons.1 h).resolve_left fun heq ↦ hp ?_
        rw [heq, beq_self_eq_true]
      rw [ih hrest]

/-- A new key comes last, and what stands before it stays. -/
theorem modify_append_of_not_mem_keys {key : α} {pairs : List (α × β)} (h : key ∉ keys pairs)
    (f : Option β → β) (others : List (α × β)) :
    modify key f (pairs ++ others) = pairs ++ modify key f others := by
  induction pairs with
  | nil => rfl
  | cons p pairs ih =>
    rw [keys_cons, List.mem_cons, not_or] at h
    rw [List.cons_append, modify, if_neg (by simpa using Ne.symm h.1), ih h.2, List.cons_append]

theorem modify_of_not_mem_keys {key : α} {pairs : List (α × β)} (h : key ∉ keys pairs)
    (f : Option β → β) : modify key f pairs = pairs ++ [(key, f none)] := by
  simpa [modify] using modify_append_of_not_mem_keys h f []

/-- Setting a key in a map that is a list of keys with a value for each. -/
theorem modify_map_of_mem {key : α} {ks : List α} (hks : ks.Nodup) (hkey : key ∈ ks) (v : α → β)
    (f : Option β → β) :
    modify key f (ks.map fun k ↦ (k, v k)) =
      ks.map fun k ↦ (k, if k == key then f (some (v k)) else v k) := by
  induction ks with
  | nil => exact absurd hkey List.not_mem_nil
  | cons k ks ih =>
    obtain ⟨hk, hrest⟩ := List.nodup_cons.1 hks
    rw [List.map_cons, List.map_cons, modify]
    by_cases heq : k = key
    · subst heq
      rw [if_pos (beq_self_eq_true k), if_pos (beq_self_eq_true k)]
      refine congrArg _ (List.map_congr_left fun a ha ↦ ?_)
      have hne : ¬(a == k) = true := by
        rw [beq_iff_eq]
        rintro rfl
        exact hk ha
      rw [if_neg hne]
    · have hne : ¬(k == key) = true := by simpa using heq
      rw [if_neg hne, if_neg hne, ih hrest ((List.mem_cons.1 hkey).resolve_left (Ne.symm heq))]

omit [LawfulBEq α] in
/-- A measure of values that a change raises by `d`, whether the key is new or not, grows by `d` in
sum. -/
theorem sum_modify {μ : β → Nat} {d : Nat} {f : Option β → β} (hnew : μ (f none) = d)
    (hold : ∀ b, μ (f (some b)) = μ b + d) (key : α) (pairs : List (α × β)) :
    ((modify key f pairs).map fun p ↦ μ p.2).sum = (pairs.map fun p ↦ μ p.2).sum + d := by
  induction pairs with
  | nil => simp [modify, hnew]
  | cons p pairs ih =>
    obtain ⟨k, v⟩ := p
    rw [modify]
    split
    · simp only [List.map_cons, List.sum_cons, hold]
      omega
    · simp only [List.map_cons, List.sum_cons, ih]
      omega

/-! ### Other values and other keys -/

section Rename

variable {γ : Type}

/-- The map in which each value is replaced by its image. -/
def mapValues (g : β → γ) (pairs : List (α × β)) : List (α × γ) := pairs.map fun p ↦ (p.1, g p.2)

/-- The map in which each key has its name instead; a key without a name is left out. -/
def renameKeys (name : α → Option γ) (pairs : List (α × β)) : List (γ × β) :=
  pairs.filterMap fun p ↦ (name p.1).map (·, p.2)

omit [BEq α] [LawfulBEq α] in
@[simp] theorem keys_mapValues (g : β → γ) (pairs : List (α × β)) :
    keys (mapValues g pairs) = keys pairs := by
  simp [keys, mapValues, Function.comp_def]

omit [LawfulBEq α] in
/-- Under a key the image of its value is found. -/
theorem lookup_mapValues (a : α) (g : β → γ) (pairs : List (α × β)) :
    (mapValues g pairs).lookup a = (pairs.lookup a).map g := by
  induction pairs with
  | nil => rfl
  | cons p pairs ih =>
    show List.lookup a ((p.1, g p.2) :: mapValues g pairs) = _
    rw [List.lookup_cons, List.lookup_cons, ih]
    cases a == p.1 <;> rfl

omit [LawfulBEq α] in
/-- Setting a key and replacing values by their images can change places, if the functions that
set the key agree on images. -/
theorem modify_mapValues {g : β → γ} {f : Option γ → γ} {h : Option β → β}
    (hf : ∀ old, f (old.map g) = g (h old)) (key : α) (pairs : List (α × β)) :
    modify key f (mapValues g pairs) = mapValues g (modify key h pairs) := by
  induction pairs with
  | nil => exact congrArg (fun v ↦ [(key, v)]) (hf none)
  | cons p pairs ih =>
    show modify key f ((p.1, g p.2) :: mapValues g pairs) = _
    rw [modify, modify, ih]
    split
    · exact congrArg (fun v ↦ (p.1, v) :: mapValues g pairs) (hf (some p.2))
    · rfl

omit [BEq α] [LawfulBEq α] in
/-- The keys are the names that there are. -/
theorem keys_renameKeys (name : α → Option γ) (pairs : List (α × β)) :
    keys (renameKeys name pairs) = (keys pairs).filterMap name := by
  rw [keys, renameKeys, List.map_filterMap, keys, List.filterMap_map]
  refine List.filterMap_congr fun p _ ↦ ?_
  cases h : name p.1 <;> simp [h]

omit [BEq α] [LawfulBEq α] in
/-- The first pair is kept under its name, if its key has one. -/
theorem renameKeys_cons (name : α → Option γ) (p : α × β) (pairs : List (α × β)) :
    renameKeys name (p :: pairs) =
      ((name p.1).map (·, p.2)).toList ++ renameKeys name pairs := by
  rw [renameKeys, List.filterMap_cons]
  cases name p.1 <;> rfl

variable [BEq γ] [LawfulBEq γ] {name : α → Option γ} {a : α} {c : γ}
  (ha : name a = some c) (honly : ∀ b, name b = some c → b = a)
include ha honly

/-- What is found under the name of a key is what was found under the key, if no other key has this
name. -/
theorem lookup_renameKeys (pairs : List (α × β)) :
    (renameKeys name pairs).lookup c = pairs.lookup a := by
  induction pairs with
  | nil => rfl
  | cons p pairs ih =>
    rw [renameKeys_cons, List.lookup_cons]
    by_cases hp : p.1 = a
    · rw [hp, ha, beq_self_eq_true]
      simp
    · have hne : (a == p.1) = false := by simpa using Ne.symm hp
      rw [hne, ← ih]
      rcases hname : name p.1 with - | c'
      · rfl
      · have hc' : (c == c') = false := by
          rw [beq_eq_false_iff_ne]
          rintro rfl
          exact hp (honly p.1 hname)
        simp [List.lookup_cons, hc']

/-- Setting a key and renaming keys can change places. -/
theorem modify_renameKeys (f : Option β → β) (pairs : List (α × β)) :
    modify c f (renameKeys name pairs) = renameKeys name (modify a f pairs) := by
  induction pairs with
  | nil => rw [modify, renameKeys_cons, ha]; rfl
  | cons p pairs ih =>
    by_cases hp : p.1 = a
    · subst hp
      rw [renameKeys_cons, modify, if_pos (beq_self_eq_true _), renameKeys_cons, ha]
      show modify c f ((c, p.2) :: renameKeys name pairs) = _
      rw [modify, if_pos (beq_self_eq_true c)]
      rfl
    · have hne : ¬(p.1 == a) = true := by simpa using hp
      rw [renameKeys_cons, modify, if_neg hne, renameKeys_cons, ← ih]
      rcases hname : name p.1 with - | c'
      · rfl
      · have hc' : ¬(c' == c) = true := by
          rw [beq_iff_eq]
          rintro rfl
          exact hp (honly p.1 hname)
        show modify c f ((c', p.2) :: renameKeys name pairs) = _
        rw [modify, if_neg hc']
        rfl

end Rename

/-- Setting a key that has no name changes nothing for those who know only names. -/
theorem renameKeys_modify_of_eq_none {γ : Type} {name : α → Option γ} {a : α} (ha : name a = none)
    (f : Option β → β) (pairs : List (α × β)) :
    renameKeys name (modify a f pairs) = renameKeys name pairs := by
  induction pairs with
  | nil => rw [modify, renameKeys_cons, ha]; rfl
  | cons p pairs ih =>
    by_cases hp : p.1 = a
    · rw [modify, if_pos (by simpa using hp), renameKeys_cons, renameKeys_cons, hp, ha]
      rfl
    · rw [modify, if_neg (by simpa using hp), renameKeys_cons, renameKeys_cons, ih]

/-! ### Values without repetitions -/

@[simp] theorem mem_distinct {a : α} {as : List α} : a ∈ distinct as ↔ a ∈ as := by
  induction as with
  | nil => rfl
  | cons b as ih =>
    rw [distinct, List.mem_cons, List.mem_cons, List.mem_filter, ih]
    by_cases h : a = b <;> simp [h]

/-- No value stands twice among distinct ones. -/
theorem nodup_distinct (as : List α) : (distinct as).Nodup := by
  induction as with
  | nil => exact List.nodup_nil
  | cons b as ih =>
    rw [distinct, List.nodup_cons]
    exact ⟨by simp [List.mem_filter], ih.filter _⟩

/-- A last value is kept if it is new. -/
theorem distinct_concat (as : List α) (a : α) :
    distinct (as ++ [a]) = if a ∈ as then distinct as else distinct as ++ [a] := by
  induction as with
  | nil => rfl
  | cons b as ih =>
    rw [List.cons_append, distinct, ih, distinct]
    by_cases hb : a = b
    · subst hb
      rw [if_pos List.mem_cons_self]
      split
      · rfl
      · simp
    · by_cases hmem : a ∈ as
      · rw [if_pos hmem, if_pos (List.mem_cons_of_mem b hmem)]
      · rw [if_neg hmem, if_neg (by simp [hb, hmem])]
        simp [List.filter_append, hb]

/-- Leaving out values and leaving out repetitions can change places. -/
theorem distinct_filter (p : α → Bool) (as : List α) :
    distinct (as.filter p) = (distinct as).filter p := by
  induction as with
  | nil => rfl
  | cons b as ih =>
    by_cases hb : p b = true
    · rw [List.filter_cons_of_pos hb, distinct, distinct, List.filter_cons_of_pos hb, ih,
        List.filter_filter, List.filter_filter]
      simp only [Bool.and_comm]
    · rw [List.filter_cons_of_neg hb, distinct, List.filter_cons_of_neg hb, ih,
        List.filter_filter]
      -- `b` is left out as it is
      refine List.filter_congr fun a _ ↦ ?_
      by_cases ha : a = b
      · subst ha
        simp [hb]
      · simp [ha]

/-- What has no repetitions loses nothing. -/
theorem distinct_of_nodup {as : List α} (h : as.Nodup) : distinct as = as := by
  induction as with
  | nil => rfl
  | cons a as ih =>
    obtain ⟨ha, has⟩ := List.nodup_cons.1 h
    rw [distinct, ih has, List.filter_eq_self.2]
    intro b hb
    have hne : b ≠ a := by
      rintro rfl
      exact ha hb
    simpa using hne

/-- The order of a list does not matter for what it holds. -/
theorem distinct_perm {as bs : List α} (h : as.Perm bs) : (distinct as).Perm (distinct bs) := by
  rw [List.perm_ext_iff_of_nodup (nodup_distinct as) (nodup_distinct bs)]
  intro a
  rw [mem_distinct, mem_distinct, h.mem_iff]

/-- Distinct values stand where they first occur. -/
theorem isFirstOccurrences_distinct (as : List α) : IsFirstOccurrences as (distinct as) := by
  refine ⟨fun a ↦ mem_distinct, ?_⟩
  induction as with
  | nil => exact List.Pairwise.nil
  | cons b as ih =>
    rw [distinct, List.pairwise_cons]
    -- `b` stands at the front; all others are found one place later than behind it
    have hidx : ∀ a ∈ (distinct as).filter fun a ↦ !(a == b),
        (b :: as).idxOf a = as.idxOf a + 1 := by
      intro a ha
      have hne : (b == a) = false := by
        have := (List.mem_filter.1 ha).2
        rw [Bool.not_eq_true', beq_eq_false_iff_ne] at this
        simpa using Ne.symm this
      rw [List.idxOf_cons, hne, cond_false]
    refine ⟨fun a ha ↦ ?_, (ih.filter _).imp_of_mem fun ha ha' h ↦ ?_⟩
    · rw [hidx a ha, List.idxOf_cons_self]
      exact Nat.succ_pos _
    · rw [hidx _ ha, hidx _ ha']
      exact Nat.succ_lt_succ h

/-! ### Values under a key -/

/-- The values that stand with a key in a list of pairs. -/
def valuesOf (key : α) (pairs : List (α × β)) : List β :=
  (pairs.filter fun p ↦ p.1 == key).map Prod.snd

omit [LawfulBEq α] in
/-- Values of a key in front come before those behind. -/
theorem valuesOf_append (key : α) (pairs others : List (α × β)) :
    valuesOf key (pairs ++ others) = valuesOf key pairs ++ valuesOf key others := by
  rw [valuesOf, List.filter_append, List.map_append, valuesOf, valuesOf]

omit [LawfulBEq α] in
/-- The values of a key in pairs that are made of other things are made of those that get this key.
-/
theorem valuesOf_map {γ : Type} (key : α) (f : γ → α × β) (cs : List γ) :
    valuesOf key (cs.map f) = (cs.filter fun c ↦ (f c).1 == key).map fun c ↦ (f c).2 := by
  rw [valuesOf, List.filter_map, List.map_map]
  rfl

/-- Only what is no key has no values. -/
theorem valuesOf_eq_nil_iff {key : α} {pairs : List (α × β)} :
    valuesOf key pairs = [] ↔ key ∉ keys pairs := by
  rw [valuesOf, List.map_eq_nil_iff, List.filter_eq_nil_iff, keys, List.mem_map]
  constructor
  · rintro h ⟨p, hp, rfl⟩
    exact h p hp (beq_self_eq_true p.1)
  · intro h p hp hkey
    exact h ⟨p, hp, by simpa using hkey⟩

theorem valuesOf_concat_self (pairs : List (α × β)) (p : α × β) :
    valuesOf p.1 (pairs ++ [p]) = valuesOf p.1 pairs ++ [p.2] := by
  simp [valuesOf]

theorem valuesOf_concat_of_ne {key : α} {p : α × β} (h : key ≠ p.1) (pairs : List (α × β)) :
    valuesOf key (pairs ++ [p]) = valuesOf key pairs := by
  simp [valuesOf, Ne.symm h]

/-! ### Adding up under keys -/

section Accumulate

variable {γ : Type}

/-- The map that a list of pairs amounts to where each pair changes what stands under its key. What
is new begins with `start`. -/
def accumulate (start : α → β) (step : β → γ → β) (pairs : List (α × γ)) : List (α × β) :=
  pairs.foldl (fun m p ↦ modify p.1 (fun b ↦ step (b.getD (start p.1)) p.2) m) []

variable (start : α → β) (step : β → γ → β)

omit [LawfulBEq α] in
/-- A last pair changes what has been accumulated under its key. -/
theorem accumulate_concat (pairs : List (α × γ)) (p : α × γ) :
    accumulate start step (pairs ++ [p]) =
      modify p.1 (fun b ↦ step (b.getD (start p.1)) p.2) (accumulate start step pairs) :=
  List.foldl_concat ..

/-- What is accumulated has the keys of the pairs, each where it first occurs, and under each what
its own values come to, one after the other. -/
theorem accumulate_eq (pairs : List (α × γ)) :
    accumulate start step pairs =
      (distinct (keys pairs)).map fun k ↦ (k, (valuesOf k pairs).foldl step (start k)) := by
  induction pairs using List.reverseRecOn with
  | nil => rfl
  | append_singleton pairs p ih =>
    have hkeys : keys (pairs ++ [p]) = keys pairs ++ [p.1] := List.map_append
    -- the value of the last key is the only one that changes
    have hself : (valuesOf p.1 (pairs ++ [p])).foldl step (start p.1) =
        step ((valuesOf p.1 pairs).foldl step (start p.1)) p.2 := by
      rw [valuesOf_concat_self, List.foldl_concat]
    rw [accumulate_concat, ih, hkeys, distinct_concat]
    split
    · rename_i hmem
      rw [modify_map_of_mem (nodup_distinct _) (mem_distinct.2 hmem)]
      refine List.map_congr_left fun k _ ↦ ?_
      by_cases hk : k = p.1
      · subst hk
        rw [if_pos (beq_self_eq_true _), hself]
        rfl
      · rw [if_neg (by simpa using hk), valuesOf_concat_of_ne hk]
    · rename_i hnew
      have hfresh : p.1 ∉ keys ((distinct (keys pairs)).map fun k ↦
          (k, (valuesOf k pairs).foldl step (start k))) := by
        simpa [keys, Function.comp_def] using hnew
      rw [modify_of_not_mem_keys hfresh, List.map_append]
      refine congrArg₂ _ (List.map_congr_left fun k hk ↦ ?_) ?_
      · have hne : k ≠ p.1 := by
          rintro rfl
          exact hnew (mem_distinct.1 hk)
        rw [valuesOf_concat_of_ne hne]
      · rw [List.map_singleton, hself, valuesOf_eq_nil_iff.2 hnew]
        rfl

omit [LawfulBEq α] in
/-- A measure of values that begins with nothing, and to which each pair adds a part of its own,
adds up over all keys. -/
theorem sum_accumulate {μ : β → Nat} {ν : γ → Nat} (hstart : ∀ k, μ (start k) = 0)
    (hstep : ∀ b c, μ (step b c) = μ b + ν c) (pairs : List (α × γ)) :
    ((accumulate start step pairs).map fun p ↦ μ p.2).sum = (pairs.map fun p ↦ ν p.2).sum := by
  induction pairs using List.reverseRecOn with
  | nil => rfl
  | append_singleton pairs p ih =>
    have hnew : μ (step ((none : Option β).getD (start p.1)) p.2) = ν p.2 := by
      rw [hstep, Option.getD_none, hstart, Nat.zero_add]
    have hold : ∀ b, μ (step ((some b).getD (start p.1)) p.2) = μ b + ν p.2 := fun b ↦ hstep b p.2
    rw [accumulate_concat, sum_modify hnew hold, ih, List.map_append, List.sum_append]
    simp

end Accumulate

/-! ### Counting and gathering -/

/-- Counting each value of a list, one after the other, gives each value where it first occurs, with
the number of its occurrences. -/
theorem foldl_modify_succ (as : List α) :
    as.foldl (fun counts a ↦ modify a (fun n ↦ n.getD 0 + 1) counts) [] =
      (distinct as).map fun a ↦ (a, as.count a) := by
  have hkeys : keys (as.map (·, ())) = as := by simp [keys, Function.comp_def]
  have hcount : ∀ a, (valuesOf a (as.map (·, ()))).foldl (fun n _ ↦ n + 1) 0 = as.count a := by
    intro a
    rw [List.foldl_add_const, valuesOf, List.length_map, List.filter_map, List.length_map,
      List.count_eq_length_filter]
    simp [Function.comp_def]
  have hfold : as.foldl (fun counts a ↦ modify a (fun n ↦ n.getD 0 + 1) counts) [] =
      accumulate (fun _ ↦ 0) (fun n _ ↦ n + 1) (as.map (·, ())) := by
    rw [accumulate, List.foldl_map]
  rw [hfold, accumulate_eq, hkeys]
  exact List.map_congr_left fun a _ ↦ congrArg (Prod.mk a) (hcount a)

omit [BEq α] [LawfulBEq α] in
/-- In lists without repetitions a value occurs as often as there are lists that hold it. -/
theorem count_flatMap_of_nodup [DecidableEq β] {f : α → List β} (hf : ∀ a, (f a).Nodup) (b : β)
    (as : List α) : (as.flatMap f).count b = (as.filter fun a ↦ b ∈ f a).length := by
  induction as with
  | nil => rfl
  | cons a as ih =>
    rw [List.flatMap_cons, List.count_append, ih, (hf a).count, List.filter_cons]
    by_cases hb : b ∈ f a
    · simp only [hb, decide_true, if_true, List.length_cons]
      omega
    · simp [hb]

/-- The map that gathers the values of each key. -/
def gather (pairs : List (α × β)) : List (α × List β) :=
  pairs.foldl (fun m p ↦ modify p.1 (fun values ↦ values.getD [] ++ [p.2]) m) []

/-- What is gathered has the keys of the pairs, each where it first occurs, with its values in
order. -/
theorem gather_eq (pairs : List (α × β)) :
    gather pairs = (distinct (keys pairs)).map fun k ↦ (k, valuesOf k pairs) := by
  have hvalues : ∀ vs : List β, vs.foldl (fun values v ↦ values ++ [v]) [] = vs := by
    intro vs
    induction vs using List.reverseRecOn with
    | nil => rfl
    | append_singleton vs v ih => rw [List.foldl_concat, ih]
  have haccumulate : gather pairs =
      accumulate (fun _ ↦ []) (fun values v ↦ values ++ [v]) pairs := rfl
  rw [haccumulate, accumulate_eq]
  exact List.map_congr_left fun k _ ↦ congrArg (Prod.mk k) (hvalues _)

/-- The keys of what is gathered are those of the pairs, each where it first occurs. -/
theorem keys_gather (pairs : List (α × β)) : keys (gather pairs) = distinct (keys pairs) := by
  rw [gather_eq, keys, List.map_map]
  exact List.map_id _

theorem nodup_keys_gather (pairs : List (α × β)) : (keys (gather pairs)).Nodup := by
  rw [keys_gather]
  exact nodup_distinct _

/-- What is gathered under a key are its values, in order, if it has any. -/
theorem lookup_gather_eq_some_iff {key : α} {pairs : List (α × β)} {values : List β} :
    (gather pairs).lookup key = some values ↔ values = valuesOf key pairs ∧ values ≠ [] := by
  rw [lookup_eq_some_iff_mem (nodup_keys_gather pairs), gather_eq, List.mem_map]
  constructor
  · rintro ⟨k, hk, hpair⟩
    obtain ⟨rfl, rfl⟩ := Prod.mk.inj hpair
    exact ⟨rfl, fun hnil ↦ valuesOf_eq_nil_iff.1 hnil (mem_distinct.1 hk)⟩
  · rintro ⟨rfl, hne⟩
    have hkey : key ∈ keys pairs := by
      by_contra hkey
      exact hne (valuesOf_eq_nil_iff.2 hkey)
    exact ⟨key, mem_distinct.2 hkey, rfl⟩

end RepoSurvey.Assoc
