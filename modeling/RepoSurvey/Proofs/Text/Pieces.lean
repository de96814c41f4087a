import Mathlib.Data.List.TakeWhile
import RepoSurvey.Text.Utf8

/-!
# Cutting a text and putting it together again

`split` and `join` are inverse to each other: cutting the joined pieces gives back pieces that do
not hold the separator (`split_join`), and joining the pieces of a text gives back the text
(`join_split`). A text in two parts is cut between them if a class of characters stops there
(`takeWhile_dropWhile_append`). `trim` and `replaceChar` leave a text alone that has nothing for
them to do.
-/

namespace RepoSurvey.Text

/-! ### Pieces -/

/-- There is always a piece, if only an empty one. -/
theorem split_ne_nil (sep : Char) (cs : List Char) : split sep cs ≠ [] := by
  cases cs with
  | nil => exact List.cons_ne_nil _ _
  | cons c cs =>
    rw [split]
    split
    · exact List.cons_ne_nil _ _
    · split <;> exact List.cons_ne_nil _ _

/-- A character that is no separator begins the first piece. -/
theorem split_cons_of_ne {sep c : Char} (h : c ≠ sep) {cs piece : List Char}
    {pieces : List (List Char)} (hcs : split sep cs = piece :: pieces) :
    split sep (c :: cs) = (c :: piece) :: pieces := by
  rw [split, if_neg h, hcs]

theorem split_of_not_mem {sep : Char} {cs : List Char} (h : sep ∉ cs) : split sep cs = [cs] := by
  induction cs with
  | nil => rfl
  | cons c cs ih =>
    rw [List.mem_cons, not_or] at h
    exact split_cons_of_ne (Ne.symm h.1) (ih h.2)

/-- A piece without a separator comes first, and what stands behind the separator is cut by itself.
-/
theorem split_append_cons {sep : Char} {piece : List Char} (h : sep ∉ piece) (cs : List Char) :
    split sep (piece ++ sep :: cs) = piece :: split sep cs := by
  induction piece with
  | nil => simp [split]
  | cons c piece ih =>
    rw [List.mem_cons, not_or] at h
    exact split_cons_of_ne (Ne.symm h.1) (ih h.2)

/-- A text is cut at each separator in it, so it may be cut in two there first. -/
theorem split_append_sep (sep : Char) (as bs : List Char) :
    split sep (as ++ sep :: bs) = split sep as ++ split sep bs := by
  induction as with
  | nil => simp [split]
  | cons a as ih =>
    by_cases ha : a = sep
    · simp [split, ha, ih]
    · rcases has : split sep as with - | ⟨piece, pieces⟩
      · exact absurd has (split_ne_nil sep as)
      · rw [has] at ih
        rw [split_cons_of_ne ha has]
        exact split_cons_of_ne ha ih

/-- A text with the separator has several pieces. -/
theorem one_lt_length_split {sep : Char} {cs : List Char} (h : sep ∈ cs) :
    1 < (split sep cs).length := by
  obtain ⟨front, back, rfl⟩ := List.append_of_mem h
  have hfront := List.length_pos_iff.2 (split_ne_nil sep front)
  have hback := List.length_pos_iff.2 (split_ne_nil sep back)
  rw [split_append_sep, List.length_append]
  omega

@[simp] theorem join_singleton (sep piece : List Char) : join sep [piece] = piece := rfl

/-- Other pieces follow a separator. -/
theorem join_cons (sep piece : List Char) {pieces : List (List Char)} (h : pieces ≠ []) :
    join sep (piece :: pieces) = piece ++ sep ++ join sep pieces := by
  cases pieces with
  | nil => exact absurd rfl h
  | cons next pieces => rfl

/-- Each piece but the first one brings its separator with it. -/
theorem join_cons_eq_flatMap (sep piece : List Char) (pieces : List (List Char)) :
    join sep (piece :: pieces) = piece ++ pieces.flatMap (sep ++ ·) := by
  induction pieces generalizing piece with
  | nil => exact (List.append_nil piece).symm
  | cons next pieces ih =>
    rw [join_cons _ _ (List.cons_ne_nil _ _), ih, List.flatMap_cons, List.append_assoc,
      List.append_assoc]

/-- The last piece follows a separator, if there are others. -/
theorem join_concat (sep piece : List Char) {pieces : List (List Char)} (h : pieces ≠ []) :
    join sep (pieces ++ [piece]) = join sep pieces ++ sep ++ piece := by
  induction pieces with
  | nil => exact absurd rfl h
  | cons first pieces ih =>
    rw [List.cons_append, join_cons _ _ (List.append_ne_nil_of_right_ne_nil _ (by simp))]
    by_cases hp : pieces = []
    · subst hp
      rfl
    · rw [ih hp, join_cons _ _ hp]
      simp only [List.append_assoc]

/-- The last piece stands at the end. -/
theorem exists_join_concat (sep : List Char) (pieces : List (List Char)) :
    ∃ front, ∀ piece, join sep (pieces ++ [piece]) = front ++ piece := by
  by_cases hp : pieces = []
  · exact ⟨[], fun piece ↦ by rw [hp]; rfl⟩
  · exact ⟨join sep pieces ++ sep, fun piece ↦ join_concat sep piece hp⟩

/-- Pieces that do not hold the separator are found again when they have been joined. -/
theorem split_join {sep : Char} {pieces : List (List Char)} (hne : pieces ≠ [])
    (h : ∀ piece ∈ pieces, sep ∉ piece) : split sep (join [sep] pieces) = pieces := by
  induction pieces with
  | nil => exact absurd rfl hne
  | cons piece pieces ih =>
    obtain ⟨hpiece, hpieces⟩ := List.forall_mem_cons.1 h
    by_cases hnil : pieces = []
    · rw [hnil, join_singleton, split_of_not_mem hpiece]
    · rw [join_cons _ _ hnil, List.append_assoc, List.singleton_append, split_append_cons hpiece,
        ih hnil hpieces]

/-- No character of a text gets lost by cutting it. -/
theorem join_split (sep : Char) (cs : List Char) : join [sep] (split sep cs) = cs := by
  induction cs with
  | nil => rfl
  | cons c cs ih =>
    by_cases hc : c = sep
    · rw [split, if_pos hc, join_cons _ _ (split_ne_nil sep cs), ih, hc]
      rfl
    · rcases hcs : split sep cs with - | ⟨piece, pieces⟩
      · exact absurd hcs (split_ne_nil sep cs)
      · rw [split_cons_of_ne hc hcs]
        rw [hcs] at ih
        cases pieces with
        | nil => rw [join_singleton, ← ih, join_singleton]
        | cons next pieces => rw [← ih, join, join, List.cons_append, List.cons_append]

/-- No piece holds the separator. -/
theorem not_mem_of_mem_split {sep : Char} {cs piece : List Char} (hpiece : piece ∈ split sep cs) :
    sep ∉ piece := by
  induction cs generalizing piece with
  | nil =>
    obtain rfl := List.mem_singleton.1 hpiece
    exact List.not_mem_nil
  | cons c cs ih =>
    by_cases hc : c = sep
    · rw [split, if_pos hc] at hpiece
      rcases List.mem_cons.1 hpiece with rfl | hpiece
      · exact List.not_mem_nil
      · exact ih hpiece
    · rcases hcs : split sep cs with - | ⟨first, others⟩
      · exact absurd hcs (split_ne_nil sep cs)
      · rw [split_cons_of_ne hc hcs] at hpiece
        rw [hcs] at ih
        rcases List.mem_cons.1 hpiece with rfl | hpiece
        · rw [List.mem_cons, not_or]
          exact ⟨Ne.symm hc, ih List.mem_cons_self⟩
        · exact ih (List.mem_cons_of_mem _ hpiece)

/-- Pieces may be joined in two heaps. -/
theorem join_append (sep : List Char) {ps qs : List (List Char)} (hps : ps ≠ []) (hqs : qs ≠ []) :
    join sep (ps ++ qs) = join sep ps ++ sep ++ join sep qs := by
  induction ps with
  | nil => exact absurd rfl hps
  | cons p ps ih =>
    by_cases hnil : ps = []
    · rw [hnil, List.singleton_append, join_cons _ _ hqs, join_singleton]
    · rw [List.cons_append, join_cons _ _ (List.append_ne_nil_of_left_ne_nil hnil qs), ih hnil,
        join_cons _ _ hnil]
      simp only [List.append_assoc]

/-- The pieces of a text come first in another if it is the other, or stands at its front with the
separator behind it. -/
theorem split_prefix_split_iff {sep : Char} {as bs : List Char} :
    split sep as <+: split sep bs ↔ bs = as ∨ as ++ [sep] <+: bs := by
  constructor
  · rintro ⟨pieces, hpieces⟩
    by_cases hnil : pieces = []
    · rw [hnil, List.append_nil] at hpieces
      exact .inl (by rw [← join_split sep bs, ← hpieces, join_split])
    · refine .inr ⟨join [sep] pieces, ?_⟩
      rw [← join_split sep bs, ← hpieces, join_append _ (split_ne_nil sep as) hnil, join_split]
  · rintro (rfl | ⟨rest, rfl⟩)
    · exact List.prefix_rfl
    · rw [List.append_assoc, List.singleton_append, split_append_sep]
      exact List.prefix_append _ _

theorem join_eq_intercalate (sep : List Char) (pieces : List (List Char)) :
    join sep pieces = sep.intercalate pieces := by
  induction pieces with
  | nil => rfl
  | cons piece pieces ih =>
    cases pieces with
    | nil => simp
    | cons next pieces => rw [join, ih, List.intercalate_cons_cons]

/-- Fewer pieces make less text. -/
theorem join_sublist (sep : List Char) {ps qs : List (List Char)} (h : ps.Sublist qs) :
    (join sep ps).Sublist (join sep qs) := by
  induction h with
  | slnil => exact List.Sublist.refl _
  | @cons ps qs q h ih =>
    by_cases hqs : qs = []
    · rw [hqs, List.sublist_nil] at h
      rw [h]
      exact List.nil_sublist _
    · rw [join_cons _ _ hqs]
      exact ih.trans (List.sublist_append_right _ _)
  | @cons_cons ps qs p h ih =>
    by_cases hps : ps = []
    · -- nothing follows the name that is kept
      rw [hps, join_singleton]
      by_cases hqs : qs = []
      · rw [hqs]
        exact List.Sublist.refl p
      · rw [join_cons _ _ hqs, List.append_assoc]
        exact List.sublist_append_left _ _
    · have hqs : qs ≠ [] := by
        rintro rfl
        exact hps (List.sublist_nil.1 h)
      rw [join_cons _ _ hps, join_cons _ _ hqs]
      exact (List.Sublist.refl (p ++ sep)).append ih

/-- The pieces of a text hold no character that is not in it. -/
theorem mem_of_mem_split {sep c : Char} {cs piece : List Char} (hpiece : piece ∈ split sep cs)
    (hc : c ∈ piece) : c ∈ cs := by
  induction cs generalizing piece with
  | nil => simp_all [split]
  | cons d cs ih =>
    by_cases hd : d = sep
    · rw [split, if_pos hd] at hpiece
      rcases List.mem_cons.1 hpiece with rfl | hpiece
      · exact absurd hc List.not_mem_nil
      · exact List.mem_cons_of_mem _ (ih hpiece hc)
    · rcases hcs : split sep cs with - | ⟨first, others⟩
      · exact absurd hcs (split_ne_nil sep cs)
      · rw [split_cons_of_ne hd hcs] at hpiece
        rw [hcs] at ih
        rcases List.mem_cons.1 hpiece with rfl | hpiece
        · rcases List.mem_cons.1 hc with rfl | hc
          · exact List.mem_cons_self
          · exact List.mem_cons_of_mem _ (ih List.mem_cons_self hc)
        · exact List.mem_cons_of_mem _ (ih (List.mem_cons_of_mem _ hpiece) hc)

/-- A text begins with the character with which its first piece begins. -/
theorem head?_of_split {sep c : Char} {cs first : List Char} {others : List (List Char)}
    (h : split sep cs = first :: others) (hc : first.head? = some c) : cs.head? = some c := by
  rcases cs with - | ⟨d, cs⟩
  · cases h
    cases hc
  · by_cases hd : d = sep
    · rw [split, if_pos hd] at h
      cases h
      cases hc
    · rcases hcs : split sep cs with - | ⟨piece, pieces⟩
      · exact absurd hcs (split_ne_nil sep cs)
      · rw [split_cons_of_ne hd hcs] at h
        cases h
        exact hc

/-- No piece is longer than the text. -/
theorem length_le_of_mem_split {sep : Char} {cs piece : List Char}
    (hpiece : piece ∈ split sep cs) : piece.length ≤ cs.length := by
  induction cs generalizing piece with
  | nil => simp_all [split]
  | cons c cs ih =>
    by_cases hc : c = sep
    · rw [split, if_pos hc] at hpiece
      rcases List.mem_cons.1 hpiece with rfl | hpiece
      · exact Nat.zero_le _
      · exact (ih hpiece).trans (Nat.le_succ _)
    · rcases hcs : split sep cs with - | ⟨first, others⟩
      · exact absurd hcs (split_ne_nil sep cs)
      rw [split_cons_of_ne hc hcs] at hpiece
      rw [hcs] at ih
      rcases List.mem_cons.1 hpiece with rfl | hpiece
      · exact Nat.succ_le_succ (ih List.mem_cons_self)
      · exact (ih (List.mem_cons_of_mem _ hpiece)).trans (Nat.le_succ _)

/-- Each character of a text is the separator or stands in a piece. -/
theorem eq_or_exists_mem_split (sep : Char) {c : Char} {cs : List Char} (hc : c ∈ cs) :
    c = sep ∨ ∃ piece ∈ split sep cs, c ∈ piece := by
  induction cs with
  | nil => exact absurd hc List.not_mem_nil
  | cons d cs ih =>
    by_cases hd : d = sep
    · subst hd
      rw [split, if_pos rfl]
      rcases List.mem_cons.1 hc with rfl | hc
      · exact .inl rfl
      · exact (ih hc).imp_right fun ⟨piece, hpiece, hc⟩ ↦ ⟨piece, List.mem_cons_of_mem _ hpiece, hc⟩
    · rcases hcs : split sep cs with - | ⟨first, others⟩
      · exact absurd hcs (split_ne_nil sep cs)
      rw [split_cons_of_ne hd hcs]
      rw [hcs] at ih
      simp only [List.mem_cons, exists_eq_or_imp] at hc ih ⊢
      rcases hc with rfl | hc
      · exact .inr (.inl (.inl rfl))
      · exact (ih hc).imp_right (Or.imp_left .inr)

/-- Leaving out characters that are no separators leaves them out of the pieces. -/
theorem split_filter {sep : Char} {p : Char → Bool} (hsep : p sep = true) (cs : List Char) :
    split sep (cs.filter p) = (split sep cs).map (List.filter p) := by
  induction cs with
  | nil => rfl
  | cons c cs ih =>
    rcases hcs : split sep cs with - | ⟨piece, pieces⟩
    · exact absurd hcs (split_ne_nil sep cs)
    rw [hcs, List.map_cons] at ih
    by_cases hc : c = sep
    · subst hc
      rw [List.filter_cons_of_pos hsep, split, if_pos rfl, split, if_pos rfl, ih, hcs]
      rfl
    rw [split_cons_of_ne hc hcs, List.map_cons]
    by_cases hp : p c = true
    · rw [List.filter_cons_of_pos hp, List.filter_cons_of_pos hp, split_cons_of_ne hc ih]
    · rw [List.filter_cons_of_neg hp, List.filter_cons_of_neg hp, ih]

/-- What is put behind a text stands behind its last piece. -/
theorem exists_split_append {sep : Char} {bs : List Char} (hbs : sep ∉ bs) (as : List Char) :
    ∃ front last,
      split sep as = front ++ [last] ∧ split sep (as ++ bs) = front ++ [last ++ bs] := by
  induction as with
  | nil => exact ⟨[], [], rfl, split_of_not_mem hbs⟩
  | cons a as ih =>
    obtain ⟨front, last, has, happend⟩ := ih
    by_cases ha : a = sep
    · refine ⟨[] :: front, last, ?_, ?_⟩
      · rw [split, if_pos ha, has, List.cons_append]
      · rw [List.cons_append, split, if_pos ha, happend, List.cons_append]
    · rcases front with - | ⟨first, front⟩
      · exact ⟨[], a :: last, split_cons_of_ne ha has, split_cons_of_ne ha happend⟩
      · exact ⟨(a :: first) :: front, last, split_cons_of_ne ha has, split_cons_of_ne ha happend⟩

/-! ### The front in a class of characters -/

/-- A text is cut where a class of characters stops. -/
theorem takeWhile_dropWhile_append {p : Char → Bool} {front back : List Char}
    (hfront : ∀ c ∈ front, p c = true) (hback : ∀ c ∈ back.head?, p c = false) :
    (front ++ back).takeWhile p = front ∧ (front ++ back).dropWhile p = back := by
  rw [List.takeWhile_append_of_pos hfront, List.dropWhile_append_of_pos hfront]
  cases back with
  | nil => simp
  | cons c back => simp [hback c rfl]

/-- Behind a character of another class nothing more of the class is at the front. -/
theorem takeWhile_dropWhile_append_cons {p : Char → Bool} {c : Char} (hc : p c = false)
    (front back : List Char) :
    (front ++ c :: back).takeWhile p = front.takeWhile p ∧
      (front ++ c :: back).dropWhile p = front.dropWhile p ++ c :: back := by
  induction front with
  | nil => simp [hc]
  | cons d front ih =>
    rcases hd : p d with - | -
    · simp [hd]
    · simpa [hd] using ih

theorem dropWhile_of_head? {p : Char → Bool} {cs : List Char} (h : ∀ c ∈ cs.head?, p c = false) :
    cs.dropWhile p = cs := by
  have hnone : ∀ c ∈ ([] : List Char), p c = true := List.forall_mem_nil _
  exact (takeWhile_dropWhile_append hnone h).2

theorem forall_bne_of_not_mem {mark : Char} {cs : List Char} (h : mark ∉ cs) :
    ∀ c ∈ cs, (c != mark) = true :=
  fun _ hc ↦ bne_iff_ne.2 (ne_of_mem_of_not_mem hc h)

/-- What is left begins with a character of another class. -/
theorem head?_dropWhile (p : Char → Bool) (cs : List Char) :
    ∀ c ∈ (cs.dropWhile p).head?, p c = false := by
  intro c hc
  have hhead := List.head?_dropWhile_not p cs
  rw [Option.mem_def.1 hc] at hhead
  exact hhead

/-- What stands in front of a place one character further on. -/
theorem getLast?_cons_or (c : Char) (before : List Char) (prev : Option Char) :
    (c :: before).getLast?.or prev = before.getLast?.or (some c) := by
  rw [List.getLast?_cons]
  cases before.getLast? <;> rfl

/-! ### Words -/

/-- Blanks in front of the first word count for nothing. -/
theorem words_cons_of_isBlank {c : Char} (hc : isBlank c = true) (cs : List Char) :
    words (c :: cs) = words cs := by
  rw [words, wordsFrom, if_pos hc]
  rfl

/-- A word that has been begun goes on until a blank. -/
theorem wordsFrom_append {word : List Char} (hword : ∀ c ∈ word, isBlank c = false)
    (begun rest : List Char) :
    wordsFrom begun (word ++ rest) = wordsFrom (word.reverse ++ begun) rest := by
  induction word generalizing begun with
  | nil => rfl
  | cons c word ih =>
    obtain ⟨hc, hword⟩ := List.forall_mem_cons.1 hword
    rw [List.cons_append, wordsFrom, if_neg (by simp [hc]), ih hword, List.reverse_cons,
      List.append_assoc, List.singleton_append]

/-- A text that begins with a word has it as its first one. -/
theorem head?_words {word rest : List Char} (hne : word ≠ [])
    (hword : ∀ c ∈ word, isBlank c = false) (hrest : ∀ c ∈ rest.head?, isBlank c = true) :
    (words (word ++ rest)).head? = some word := by
  rw [words, wordsFrom_append hword, List.append_nil]
  cases rest with
  | nil => simp [wordsFrom, hne]
  | cons c rest => simp [wordsFrom, hrest c rfl, hne]

/-! ### Blanks at the ends -/

/-- A text neither begins nor stops with a blank. -/
def IsTrimmed (cs : List Char) : Prop :=
  (∀ c ∈ cs.head?, isBlank c = false) ∧ ∀ c ∈ cs.getLast?, isBlank c = false

instance : DecidablePred IsTrimmed := fun cs ↦
  decidable_of_iff ((cs.head?.all fun c ↦ !isBlank c) = true ∧
    (cs.getLast?.all fun c ↦ !isBlank c) = true) (by simp [IsTrimmed, Option.all_eq_true])

/-- A text without blanks at its ends is left as it is. -/
theorem trim_of_isTrimmed {cs : List Char} (h : IsTrimmed cs) : trim cs = cs := by
  have hreverse : cs.reverse.dropWhile isBlank = cs.reverse :=
    dropWhile_of_head? fun c hc ↦ h.2 c (by rwa [List.head?_reverse] at hc)
  rw [trim, trimLeft, dropWhile_of_head? h.1, trimRight, hreverse, List.reverse_reverse]

theorem trim_of_forall_isBlank {cs : List Char} (h : ∀ c ∈ cs, isBlank c = true) :
    trim cs = [] := by
  have hleft : trimLeft cs = [] := List.dropWhile_eq_nil_iff.2 h
  rw [trim, hleft]
  rfl

/-- What is left of a text has no blanks at its ends. -/
theorem isTrimmed_trim (cs : List Char) : IsTrimmed (trim cs) := by
  refine ⟨fun c hc ↦ ?_, fun c hc ↦ ?_⟩
  · -- what is taken off the end leaves the front as it is
    have hprefix : trim cs <+: trimLeft cs := by
      rw [trim, trimRight, ← List.reverse_suffix, List.reverse_reverse]
      exact List.dropWhile_suffix _
    obtain ⟨rest, hrest⟩ := hprefix
    refine head?_dropWhile isBlank cs c ?_
    show c ∈ (trimLeft cs).head?
    rw [← hrest, List.head?_append, Option.mem_def.1 hc]
    rfl
  · rw [trim, trimRight, List.getLast?_reverse] at hc
    exact head?_dropWhile isBlank _ c hc

/-- Marks at the end are all taken off. -/
theorem getLast?_trimMark (mark : Char) (cs : List Char) :
    (trimMark mark cs).getLast? ≠ some mark := by
  intro hlast
  rw [trimMark, List.getLast?_reverse] at hlast
  simpa using head?_dropWhile (· == mark) _ mark hlast

theorem mem_of_mem_trimMark {mark c : Char} {cs : List Char} (h : c ∈ trimMark mark cs) :
    c ∈ cs := by
  rw [trimMark, List.mem_reverse] at h
  exact (List.dropWhile_suffix _).subset
    (List.mem_reverse.1 ((List.dropWhile_suffix _).subset h))

/-- A text is left as it is exactly if no blanks are at its ends. -/
theorem strip_eq_iff {s : String} : strip s = s ↔ IsTrimmed s.toList := by
  constructor
  · intro h
    rw [← h, strip, String.toList_ofList]
    exact isTrimmed_trim _
  · intro h
    rw [strip, trim_of_isTrimmed h, String.ofList_toList]

/-- Taking off blanks takes characters away. -/
theorem sublist_strip (s : String) : (strip s).toList.Sublist s.toList := by
  have hleft : (trimLeft s.toList).Sublist s.toList := (List.dropWhile_suffix _).sublist
  have hright := List.reverse_sublist.2
    (List.dropWhile_suffix (l := (trimLeft s.toList).reverse) isBlank).sublist
  rw [List.reverse_reverse] at hright
  rw [strip, String.toList_ofList]
  exact hright.trans hleft

/-- A text with a last mark, seen from its end. -/
theorem takeWhile_dropWhile_reverse {mark : Char} {back : List Char} (hback : mark ∉ back)
    (front : List Char) :
    (front ++ mark :: back).reverse.takeWhile (· != mark) = back.reverse ∧
      (front ++ mark :: back).reverse.dropWhile (· != mark) = mark :: front.reverse := by
  have hreverse : (front ++ mark :: back).reverse = back.reverse ++ mark :: front.reverse := by simp
  have hall : ∀ c ∈ back.reverse, (c != mark) = true :=
    forall_bne_of_not_mem fun hmem ↦ hback (List.mem_reverse.1 hmem)
  rw [hreverse]
  exact takeWhile_dropWhile_append hall (by simp)

/-- A text without the character is left as it is. -/
theorem replaceChar_of_not_mem {old : Char} (new : Char) {cs : List Char} (h : old ∉ cs) :
    replaceChar old new cs = cs := by
  refine (List.map_congr_left fun c hc ↦ if_neg ?_).trans (List.map_id cs)
  rintro rfl
  exact h hc

/-- The pieces stay where each separator is replaced. -/
theorem replaceChar_join {old : Char} (new : Char) {pieces : List (List Char)}
    (h : ∀ piece ∈ pieces, old ∉ piece) :
    replaceChar old new (join [old] pieces) = join [new] pieces := by
  induction pieces with
  | nil => rfl
  | cons piece pieces ih =>
    obtain ⟨hpiece, hpieces⟩ := List.forall_mem_cons.1 h
    by_cases hnil : pieces = []
    · rw [hnil, join_singleton, join_singleton, replaceChar_of_not_mem new hpiece]
    · have hsep : replaceChar old new [old] = [new] := by simp [replaceChar]
      have happend (as bs : List Char) :
          replaceChar old new (as ++ bs) = replaceChar old new as ++ replaceChar old new bs :=
        List.map_append
      rw [join_cons _ _ hnil, join_cons _ _ hnil, happend, happend, hsep,
        replaceChar_of_not_mem new hpiece, ih hpieces]

/-! ### Fronts -/

/-- The front of a text can be dropped exactly if it stands there. -/
theorem dropFront?_eq_some_iff {front cs rest : List Char} :
    dropFront? front cs = some rest ↔ cs = front ++ rest := by
  induction front generalizing cs with
  | nil =>
    rw [dropFront?, Option.some_inj, List.nil_append]
  | cons f front ih =>
    rcases cs with - | ⟨c, cs⟩
    · simp [dropFront?]
    · by_cases hc : f = c
      · subst hc
        rw [dropFront?, if_pos rfl, ih]
        simp
      · rw [dropFront?, if_neg hc]
        simp [Ne.symm hc]

/-- A text starts with another one exactly if it continues this one. -/
theorem startsWith_iff {s front : String} :
    startsWith s front = true ↔ ∃ rest, s = front ++ rest := by
  rw [startsWith, List.isPrefixOf_iff_prefix]
  constructor
  · rintro ⟨rest, h⟩
    refine ⟨String.ofList rest, String.toList_injective ?_⟩
    rw [String.toList_append, String.toList_ofList, h]
  · rintro ⟨rest, rfl⟩
    rw [String.toList_append]
    exact List.prefix_append _ _

@[simp] theorem dropChars_append (front rest : String) :
    dropChars front.length (front ++ rest) = rest := by
  rw [dropChars, String.toList_append, ← String.length_toList, List.drop_left, String.ofList_toList]

/-! ### Line ends -/

theorem readLines_cons {c : Char} (h : c ≠ '\r') (cs : List Char) :
    readLines (c :: cs) = c :: readLines cs := by
  rw [readLines]
  · exact fun _ hc _ ↦ h hc
  · exact h

/-- A text without carriage returns is read as it is, whatever follows it. -/
theorem readLines_append_of_not_mem {as : List Char} (h : '\r' ∉ as) (bs : List Char) :
    readLines (as ++ bs) = as ++ readLines bs := by
  induction as with
  | nil => rfl
  | cons a as ih =>
    rw [List.mem_cons, not_or] at h
    rw [List.cons_append, readLines_cons (Ne.symm h.1), ih h.2, List.cons_append]

/-- Only between a carriage return and a line feed can a text not be cut. -/
theorem readLines_append {cs : List Char} (hcs : cs.head? ≠ some '\n') (as : List Char) :
    readLines (as ++ cs) = readLines as ++ readLines cs := by
  fun_induction readLines as with
  | case1 => rfl
  | case2 as ih => simpa [readLines] using ih
  | case3 as hline ih =>
    rw [List.cons_append, readLines, ih]
    · rfl
    · intro bs hbs
      cases as with
      | nil => exact hcs (by rw [← List.nil_append cs, hbs]; rfl)
      | cons a as => exact hline as (by rw [(List.cons.inj hbs).1])
  | case4 a as hline hreturn ih =>
    rw [List.cons_append, readLines_cons hreturn, ih, List.cons_append]

/-- Reading a text adds line feeds at most. -/
theorem eq_or_mem_of_mem_readLines {c : Char} {cs : List Char} (h : c ∈ readLines cs) :
    c = '\n' ∨ c ∈ cs := by
  fun_induction readLines cs with
  | case1 => exact .inr h
  | case2 cs ih => rcases List.mem_cons.1 h with rfl | h <;> grind
  | case3 cs _ ih => rcases List.mem_cons.1 h with rfl | h <;> grind
  | case4 a cs _ _ ih => rcases List.mem_cons.1 h with rfl | h <;> grind

/-! ### Digits -/

theorem char_le_iff (a b : Char) : a ≤ b ↔ a.toNat ≤ b.toNat := Iff.rfl

/-- The code points of decimal digits. -/
theorem toNat_of_asciiDigit? {c : Char} (h : (asciiDigit? c).isSome = true) :
    48 ≤ c.toNat ∧ c.toNat ≤ 57 := by
  unfold asciiDigit? at h
  simp only [char_le_iff, Bool.and_eq_true, decide_eq_true_eq] at h
  split at h
  · rename_i hcodes
    exact hcodes
  · cases h

/-- The code points of hexadecimal digits. -/
theorem toNat_of_hexDigit? {c : Char} (h : (hexDigit? c).isSome = true) :
    (48 ≤ c.toNat ∧ c.toNat ≤ 57) ∨ (97 ≤ c.toNat ∧ c.toNat ≤ 102) ∨
      (65 ≤ c.toNat ∧ c.toNat ≤ 70) := by
  unfold hexDigit? at h
  simp only [char_le_iff, Bool.and_eq_true, decide_eq_true_eq] at h
  split at h
  · exact Or.inl ‹_›
  · split at h
    · exact Or.inr (Or.inl ‹_›)
    · split at h
      · exact Or.inr (Or.inr ‹_›)
      · simp at h

theorem hexDigit?_lt {c : Char} {d : Nat} (h : hexDigit? c = some d) : d < 16 := by
  have hcodes : '9'.toNat = 57 ∧ 'f'.toNat = 102 ∧ 'F'.toNat = 70 := ⟨rfl, rfl, rfl⟩
  unfold hexDigit? at h
  simp only [char_le_iff, Bool.and_eq_true, decide_eq_true_eq] at h
  split at h
  · obtain rfl := Option.some.inj h
    omega
  · split at h
    · obtain rfl := Option.some.inj h
      omega
    · split at h
      · obtain rfl := Option.some.inj h
        omega
      · cases h

theorem isBlank_eq_false_of_hexDigit? {c : Char} (h : (hexDigit? c).isSome = true) :
    isBlank c = false := by
  have hc := toNat_of_hexDigit? h
  have hspace : c ≠ ' ' := by
    rintro rfl
    revert hc
    decide
  rw [isBlank, if_pos (by omega)]
  simp only [beq_eq_false_iff_ne.2 hspace, Bool.false_or, Bool.or_eq_false_iff,
    Bool.and_eq_false_iff, decide_eq_false_iff_not]
  omega

end RepoSurvey.Text
