import RepoSurvey.Code.Complexity
import RepoSurvey.Proofs.Text.Runs

/-!
# Complexity counts runs

The three counters of branches look at a text in different ways: from each place on for a word, two
characters at a time for an operator, and with one character on both sides for a question mark. All
three depend on the runs of the text only (`countWord_eq`, `countPairs_eq`, `countChoices_eq`), each
on those of its own class. Hence `complexity_counts_runs`: which branches a text has can be read off
its runs, and since no run goes over the end of a line, texts that are put below each other have the
branches of both.
-/

namespace RepoSurvey.Code

open RepoSurvey.Text

/-! ### Words -/

section Words

variable {word : List Char} (hword : ∀ c ∈ word, isWord c = true)
include hword

/-- A whole word is a run of word characters. -/
theorem standsAt_iff {before : Option Char} {cs : List Char} : standsAt word before cs = true ↔
    before.any isWord = false ∧ cs.takeWhile isWord = word := by
  rw [standsAt, Bool.and_eq_true, Bool.not_eq_true']
  refine and_congr_right fun _ ↦ ?_
  constructor
  · intro h
    split at h
    · rename_i rest hrest
      obtain rfl := dropFront?_eq_some_iff.1 hrest
      rw [Bool.not_eq_true', Option.any_eq_false] at h
      exact (takeWhile_dropWhile_append hword h).1
    · cases h
  · rintro rfl
    have hfront : dropFront? (cs.takeWhile isWord) cs = some (cs.dropWhile isWord) :=
      dropFront?_eq_some_iff.2 List.takeWhile_append_dropWhile.symm
    rw [hfront]
    show (!(cs.dropWhile isWord).head?.any isWord) = true
    rw [Bool.not_eq_true', Option.any_eq_false]
    exact head?_dropWhile isWord cs

/-- A word stands at a place if a run of word characters begins there and is this word. -/
theorem standsAt_cons_iff (hne : word ≠ []) {before : Option Char} {c : Char} {cs : List Char} :
    standsAt word before (c :: cs) = true ↔
      (isWord c = true ∧ before.any isWord = false) ∧ (c :: cs).takeWhile isWord = word := by
  rw [standsAt_iff hword]
  constructor
  · rintro ⟨hbefore, htake⟩
    refine ⟨⟨?_, hbefore⟩, htake⟩
    by_contra hc
    rw [List.takeWhile_cons_of_neg hc] at htake
    exact hne htake.symm
  · rintro ⟨⟨-, hbefore⟩, htake⟩
    exact ⟨hbefore, htake⟩

/-- A word is counted once for each run that is this word. -/
theorem countWord_eq (hne : word ≠ []) (before : Option Char) (cs : List Char) :
    countWord word before cs = (runsFrom isWord before cs).countP (·.chars = word) := by
  induction cs generalizing before with
  | nil => rfl
  | cons c cs ih =>
    rw [countWord, ih, countP_runsFrom_cons, if_congr (standsAt_cons_iff hword hne) rfl rfl]

end Words

theorem countP_mem_cons {w : String} {words : List String} (hw : w ∉ words) (rs : List Run) :
    rs.countP (String.ofList ·.chars ∈ w :: words) =
      rs.countP (·.chars = w.toList) + rs.countP (String.ofList ·.chars ∈ words) := by
  induction rs with
  | nil => rfl
  | cons r rs ih =>
    have hone : (if String.ofList r.chars ∈ w :: words then 1 else 0) =
        (if r.chars = w.toList then 1 else 0) +
          if String.ofList r.chars ∈ words then 1 else 0 := by
      by_cases hr : r.chars = w.toList
      · simp [hr, hw]
      · have hofList : String.ofList r.chars ≠ w := by
          rintro rfl
          exact hr String.toList_ofList.symm
        simp [hr, hofList]
    simp only [List.countP_cons, decide_eq_true_eq, ih, hone]
    omega

/-- What is counted for each of several words is counted for the words together. -/
theorem sum_countP_chars {words : List String} (hwords : words.Nodup) (rs : List Run) :
    (words.map fun w ↦ rs.countP (·.chars = w.toList)).sum =
      rs.countP (String.ofList ·.chars ∈ words) := by
  induction words with
  | nil => simp
  | cons w words ih =>
    obtain ⟨hw, hwords⟩ := List.nodup_cons.1 hwords
    rw [List.map_cons, List.sum_cons, ih hwords, countP_mem_cons hw]

/-- The words that branch are counted by runs, all of them together. -/
theorem countWords_eq (cs : List Char) :
    (branchingWords.map fun w ↦ countWord w.toList none cs).foldl (· + ·) 0 =
      (runs isWord cs).countP (String.ofList ·.chars ∈ branchingWords) := by
  have hwords : ∀ w ∈ branchingWords, w.toList ≠ [] ∧ w.toList.all isWord = true := by decide
  have hcount : (branchingWords.map fun w ↦ countWord w.toList none cs) =
      branchingWords.map fun w ↦ (runs isWord cs).countP (·.chars = w.toList) :=
    List.map_congr_left fun w hw ↦
      countWord_eq (List.all_eq_true.1 (hwords w hw).2) (hwords w hw).1 none cs
  rw [hcount, ← List.sum_eq_foldl, sum_countP_chars (by decide)]

/-! ### Operators -/

/-- Any other character is passed over. -/
theorem countPairs_cons_of_ne {mark c : Char} (h : c ≠ mark) (cs : List Char) :
    countPairs mark (c :: cs) = countPairs mark cs := by
  cases cs with
  | nil => rfl
  | cons d cs => rw [countPairs, if_neg fun hboth ↦ h hboth.1]

/-- Of a run of marks each two are a pair, and a last one without a partner is none. -/
theorem countPairs_replicate {mark : Char} {rest : List Char} (hrest : ∀ c ∈ rest.head?, c ≠ mark)
    (n : Nat) : countPairs mark (List.replicate n mark ++ rest) = n / 2 + countPairs mark rest := by
  induction n using Nat.twoStepInduction with
  | zero => simp
  | one =>
    cases rest with
    | nil => rfl
    | cons d rest =>
      show countPairs mark (mark :: d :: rest) = 0 + countPairs mark (d :: rest)
      rw [countPairs, if_neg fun hboth ↦ hrest d rfl hboth.2, Nat.zero_add]
  | more n ih _ =>
    show countPairs mark (mark :: mark :: (List.replicate n mark ++ rest)) = _
    rw [countPairs, if_pos ⟨rfl, rfl⟩, ih, Nat.add_div_right n Nat.two_pos]
    omega

/-- A run has half as many pairs as it has characters. -/
theorem countPairs_eq (mark : Char) (cs : List Char) :
    countPairs mark cs = ((runs (· == mark) cs).map (·.chars.length / 2)).sum := by
  induction cs using runs_induction (· == mark) with
  | nil => rfl
  | outside c cs hc ih =>
    have hruns : runs (· == mark) (c :: cs) = runs (· == mark) cs :=
      runsFrom_cons_of_not (by exact hc) none cs
    rw [countPairs_cons_of_ne (by simpa using hc), ih, hruns]
  | run run rest hne hrun hrest ih =>
    have hreplicate : run = List.replicate run.length mark :=
      List.eq_replicate_iff.2 ⟨rfl, fun c hc ↦ by simpa using hrun c hc⟩
    have hpairs := countPairs_replicate (fun c hc ↦ by simpa using hrest c hc) run.length
    rw [← hreplicate] at hpairs
    rw [hpairs, runs_run_append hne hrun hrest, List.map_cons, List.sum_cons, ih]

/-! ### Question marks -/

/-- A question mark that chooses is a run of its own. -/
theorem choice_iff {before : Option Char} {c : Char} {cs : List Char} :
    (c = '?' ∧ before ≠ some '?' ∧ cs.head? ≠ some '.' ∧ cs.head? ≠ some '?') ↔
      ((c == '?') = true ∧ before.any (· == '?') = false) ∧
        ((c :: cs).takeWhile (· == '?')).length = 1 ∧
        ((c :: cs).dropWhile (· == '?')).head? ≠ some '.' := by
  have hbefore : before.any (· == '?') = false ↔ before ≠ some '?' := by
    cases before <;> simp
  rw [beq_iff_eq, hbefore, and_assoc]
  refine and_congr_right fun hc ↦ and_congr_right fun _ ↦ ?_
  subst hc
  cases cs with
  | nil => simp
  | cons d cs => by_cases hd : d = '?' <;> simp [hd]

/-- A question mark chooses if it is a run of its own and no point follows. -/
theorem countChoices_eq (before : Option Char) (cs : List Char) :
    countChoices before cs = (runsFrom (· == '?') before cs).countP
      fun r ↦ r.chars.length = 1 ∧ r.after.head? ≠ some '.' := by
  induction cs generalizing before with
  | nil => rfl
  | cons c cs ih =>
    rw [countChoices, ih, countP_runsFrom_cons, if_congr choice_iff rfl rfl]

/-! ### Whole texts -/

/-- All branches of a text by its runs. -/
theorem branches_eq (cs : List Char) :
    branches cs = (runs isWord cs).countP (String.ofList ·.chars ∈ branchingWords) +
      ((runs (· == '&') cs).map (·.chars.length / 2)).sum +
      ((runs (· == '|') cs).map (·.chars.length / 2)).sum +
      (runs (· == '?') cs).countP fun r ↦ r.chars.length = 1 ∧ r.after.head? ≠ some '.' := by
  rw [branches, countWords_eq, countPairs_eq, countPairs_eq, countChoices_eq]
  rfl

/-- No run goes over the end of a line, so lines are counted one by one. -/
theorem branches_lines (front back : List Char) :
    branches (front ++ '\n' :: back) = branches front + branches back := by
  have hcut (p : Char → Bool) (hp : p '\n' = false) : runs p (front ++ '\n' :: back) =
      (runs p front).map (fun r ↦ ⟨r.chars, r.after ++ '\n' :: back⟩) ++ runs p back :=
    runsFrom_append_cons hp none front back
  have hafter (r : Run) :
      (r.after ++ '\n' :: back).head? = some '.' ↔ r.after.head? = some '.' := by
    cases r.after <;> simp
  rw [branches_eq, branches_eq, branches_eq, hcut isWord (by decide), hcut (· == '&') (by decide),
    hcut (· == '|') (by decide), hcut (· == '?') (by decide)]
  simp only [List.countP_append, List.countP_map, Function.comp_def, List.map_append,
    List.map_map, List.sum_append, hafter, ne_eq]
  omega

/-- **Complexity counts branching runs.** It is one more than the number of runs of word characters
that are one of eight words, half the length of each run of ampersands and of each run of bars,
rounded down, and the number of question marks that stand alone and have no point behind them. So
two texts, one below the other, have the branches of both. -/
theorem complexity_counts_runs (text : String) :
    complexity text = 1 +
      {r | IsRun isWord text.toList r ∧ String.ofList r.chars ∈
        ["if", "else", "for", "while", "switch", "case", "try", "catch"]}.ncard +
      (∑ᶠ r ∈ {r | IsRun (· == '&') text.toList r}, r.chars.length / 2) +
      (∑ᶠ r ∈ {r | IsRun (· == '|') text.toList r}, r.chars.length / 2) +
      {r | IsRun (· == '?') text.toList r ∧
        r.chars.length = 1 ∧ r.after.head? ≠ some '.'}.ncard ∧
    ∀ other, complexity (text ++ "\n" ++ other) = complexity text + complexity other - 1 := by
  constructor
  · rw [ncard_isRun, ncard_isRun, finsum_isRun, finsum_isRun, complexity, branches_eq]
    show 1 + (_ + _ + _ + _) = 1 + _ + _ + _ + _
    simp only [Nat.add_assoc]
    rfl
  · intro other
    have htext : (text ++ "\n" ++ other).toList = text.toList ++ '\n' :: other.toList := by simp
    rw [complexity, htext, branches_lines, complexity, complexity]
    omega

-- three ampersands are one operator, and neither a longer word nor `?.` or `??` is a branch
example : complexity "if (a &&& b) x?.y ?? z; if2 ? 1 : 2" = 4 := by decide

end RepoSurvey.Code
