import RepoSurvey.Proofs.Text.Pieces

/-!
# Lower case

A character of ASCII that is no letter stands in the lower case of a text exactly where it stands in
the text: none is changed, and no other character becomes one (`exists_lowerFrom_cons`). A capital
sigma has two forms in lower case, and the choice looks at what stands around it, but never past a
slash; so a path in lower case consists of its components in lower case (`split_lower`).
-/

namespace RepoSurvey.Text

/-! ### ASCII -/

/-- Outside the capital letters of ASCII nothing is changed. -/
theorem toLower_of_lt {c : Char} (h : c.toNat < 65 ∨ 90 < c.toNat) : c.toLower = c := by
  unfold Char.toLower
  refine dif_neg fun hupper ↦ ?_
  have hA : 65 ≤ c.toNat := hupper.1
  have hZ : c.toNat ≤ 90 := hupper.2
  omega

/-- Only letters are lower case of something else. -/
theorem eq_of_toLower_eq {c d : Char} (h : c.toLower = d) (hd : d.toNat < 97) : c = d := by
  by_cases hupper : c.toNat < 65 ∨ 90 < c.toNat
  · rwa [toLower_of_lt hupper] at h
  · have hletters : ∀ n ∈ List.range 91, 65 ≤ n → 97 ≤ (Char.ofNat n).toLower.toNat := by decide
    have hletter := hletters c.toNat (List.mem_range.2 (by omega)) (by omega)
    rw [Char.ofNat_toNat, h] at hletter
    omega

/-- A text in ASCII has one character for each in lower case. -/
theorem lower_of_ascii {cs : List Char} (h : ∀ c ∈ cs, c.toNat < 128) :
    lower cs = cs.map Char.toLower := by
  have hfrom (before : List Char) : lowerFrom before cs = cs.map Char.toLower := by
    induction cs generalizing before with
    | nil => rfl
    | cons c cs ih =>
      obtain ⟨hc, hcs⟩ := List.forall_mem_cons.1 h
      have hsigma : (c.toNat == 0x3A3) = false := by simp; omega
      rw [lowerFrom, hsigma, ih hcs, lowerChar, if_pos hc]
      rfl
  exact hfrom []

/-! ### Marks -/

/-- The characters of ASCII before the letters, and the bracket behind the capital ones. -/
def IsMark (c : Char) : Prop := 0 < c.toNat ∧ c.toNat < 65 ∨ c = '['

instance : DecidablePred IsMark := fun c ↦
  inferInstanceAs (Decidable (0 < c.toNat ∧ c.toNat < 65 ∨ c = '['))

/-- The marks by their code points. -/
theorem IsMark.bounds {c : Char} (h : IsMark c) :
    0 < c.toNat ∧ c.toNat ≤ 91 ∧ (c.toNat < 65 ∨ 90 < c.toNat) := by
  rcases h with ⟨hpos, hlt⟩ | rfl
  · omega
  · decide

/-- The lower case of a character beyond ASCII is none of the marks. -/
theorem lt_lowerWide {n : Nat} (h : 128 ≤ n) : 91 < lowerWide n := by
  have hruns : ∀ r ∈ lowerRuns, 91 < Int.ofNat r.1 + r.2.2.2 := by decide +kernel
  unfold lowerWide
  split
  · rename_i first last step shift hfound
    have hrun := hruns _ (List.mem_of_find?_eq_some hfound)
    have hfirst := List.find?_some hfound
    simp only [Bool.and_eq_true, decide_eq_true_eq] at hfirst
    obtain ⟨⟨hle, -⟩, -⟩ := hfirst
    dsimp only at hrun
    simp only [Int.ofNat_eq_natCast] at hrun ⊢
    omega
  · omega

/-- A character beyond ASCII that is made from a code point is no mark. -/
theorem not_isMark_ofNat {n : Nat} (h : 91 < n) : ¬IsMark (Char.ofNat n) := by
  intro hmark
  obtain ⟨hpos, hle, -⟩ := hmark.bounds
  by_cases hvalid : n.isValidChar
  · have hcode : (Char.ofNat n).toNat = n := by
      rw [Char.ofNat, dif_pos hvalid]
      rfl
    omega
  · rw [Char.ofNat, dif_neg hvalid] at hpos
    exact absurd hpos (by decide)

/-- The characters that one character has in lower case; it is the only mark that can be among
them. -/
theorem exists_lowerFrom_cons (c : Char) (before cs : List Char) : ∃ form,
    lowerFrom before (c :: cs) = form ++ lowerFrom (c :: before) cs ∧ form ≠ [] ∧
      ∀ m ∈ form, IsMark m → m = c := by
  rw [lowerFrom]
  refine ⟨_, rfl, ?_⟩
  split
  · refine ⟨List.cons_ne_nil _ _, fun m hm hmark ↦ absurd hmark ?_⟩
    rw [List.mem_singleton.1 hm]
    split <;> exact not_isMark_ofNat (by decide)
  · unfold lowerChar
    split
    · refine ⟨List.cons_ne_nil _ _, fun m hm hmark ↦ ?_⟩
      obtain ⟨-, hle, -⟩ := hmark.bounds
      exact (eq_of_toLower_eq (List.mem_singleton.1 hm).symm (by omega)).symm
    split
    · refine ⟨List.cons_ne_nil _ _, fun m hm hmark ↦ absurd hmark ?_⟩
      simp only [List.mem_cons, List.not_mem_nil, or_false] at hm
      rcases hm with rfl | rfl
      · decide
      · exact not_isMark_ofNat (by decide)
    · rename_i hwide _
      refine ⟨List.cons_ne_nil _ _, fun m hm hmark ↦ absurd hmark ?_⟩
      rw [List.mem_singleton.1 hm]
      exact not_isMark_ofNat (lt_lowerWide (by omega))

/-- A mark in the lower case of a text stands in the text. -/
theorem mem_of_mem_lowerFrom {m : Char} (hmark : IsMark m) {before cs : List Char}
    (h : m ∈ lowerFrom before cs) : m ∈ cs := by
  induction cs generalizing before with
  | nil => exact h
  | cons c cs ih =>
    obtain ⟨form, hform, -, hmarks⟩ := exists_lowerFrom_cons c before cs
    rw [hform, List.mem_append] at h
    rcases h with h | h
    · rw [hmarks m h hmark]
      exact List.mem_cons_self
    · exact List.mem_cons_of_mem c (ih h)

/-- A mark at the end has been there before. -/
theorem getLast?_of_lowerFrom {m : Char} (hmark : IsMark m) {before cs : List Char}
    (h : (lowerFrom before cs).getLast? = some m) : cs.getLast? = some m := by
  induction cs generalizing before with
  | nil => exact h
  | cons c cs ih =>
    obtain ⟨form, hform, -, hmarks⟩ := exists_lowerFrom_cons c before cs
    rw [hform] at h
    rcases cs with - | ⟨d, cs⟩
    · rw [lowerFrom, List.append_nil] at h
      rw [hmarks m (List.mem_of_getLast? h) hmark]
      rfl
    · have hne : lowerFrom (c :: before) (d :: cs) ≠ [] := by
        obtain ⟨form, hform, hne, -⟩ := exists_lowerFrom_cons d (c :: before) cs
        rw [hform]
        exact List.append_ne_nil_of_left_ne_nil hne _
      rw [List.getLast?_append, List.getLast?_eq_some_getLast hne, Option.some_or,
        ← List.getLast?_eq_some_getLast hne] at h
      rw [List.getLast?_cons_cons]
      exact ih h

/-! ### Paths -/

/-- A slash is as good as an end where a letter with case is looked for. -/
theorem meetsCased_append_slash (cs rest : List Char) :
    meetsCased (cs ++ '/' :: rest) = meetsCased cs := by
  have hslash : inRanges caseIgnorableRanges '/'.toNat = false ∧
      inRanges casedRanges '/'.toNat = false := by decide +kernel
  induction cs with
  | nil =>
    rw [List.nil_append, meetsCased,
      List.dropWhile_cons_of_neg (by exact ne_true_of_eq_false hslash.1)]
    exact hslash.2
  | cons c cs ih =>
    rw [List.cons_append, meetsCased, meetsCased]
    rcases hskipped : inRanges caseIgnorableRanges c.toNat with - | -
    · rw [List.dropWhile_cons_of_neg (by simp [hskipped]),
        List.dropWhile_cons_of_neg (by simp [hskipped])]
    · rw [List.dropWhile_cons_of_pos (by exact hskipped),
        List.dropWhile_cons_of_pos (by exact hskipped)]
      exact ih

/-- What is in front of a slash does not count for what is behind it. -/
theorem lowerFrom_append_slash (before more cs : List Char) :
    lowerFrom (before ++ '/' :: more) cs = lowerFrom before cs := by
  induction cs generalizing before with
  | nil => rfl
  | cons c cs ih =>
    rw [lowerFrom, lowerFrom, meetsCased_append_slash, ← List.cons_append, ih]

/-- The lower case of a path is cut at a slash. -/
theorem lowerFrom_slash (before front back : List Char) :
    lowerFrom before (front ++ '/' :: back) = lowerFrom before front ++ '/' :: lower back := by
  induction front generalizing before with
  | nil =>
    show '/' :: lowerFrom ([] ++ '/' :: before) back = _
    rw [lowerFrom_append_slash]
    rfl
  | cons c front ih =>
    rw [List.cons_append, lowerFrom, lowerFrom, meetsCased_append_slash, ih, List.append_assoc]

/-- Components are put in lower case one by one. -/
theorem lower_join (pieces : List (List Char)) :
    lower (join ['/'] pieces) = join ['/'] (pieces.map lower) := by
  induction pieces with
  | nil => rfl
  | cons piece pieces ih =>
    by_cases hnil : pieces = []
    · rw [hnil]
      rfl
    · rw [join_cons _ _ hnil, List.map_cons, join_cons _ _ (by simpa using hnil), ← ih,
        List.append_assoc, List.append_assoc, List.singleton_append, List.singleton_append]
      exact lowerFrom_slash [] piece _

/-- The components of a path in lower case are its components, each in lower case. -/
theorem split_lower (cs : List Char) : split '/' (lower cs) = (split '/' cs).map lower := by
  have hpieces : ∀ piece ∈ (split '/' cs).map lower, '/' ∉ piece := by
    intro piece hpiece hslash
    obtain ⟨component, hcomponent, rfl⟩ := List.mem_map.1 hpiece
    exact not_mem_of_mem_split hcomponent (mem_of_mem_lowerFrom (by decide) hslash)
  have hne : (split '/' cs).map lower ≠ [] := by
    simpa using split_ne_nil '/' cs
  calc split '/' (lower cs)
      = split '/' (lower (join ['/'] (split '/' cs))) := by rw [join_split]
    _ = split '/' (join ['/'] ((split '/' cs).map lower)) := by rw [lower_join]
    _ = (split '/' cs).map lower := split_join hne hpieces

end RepoSurvey.Text
