import Mathlib.Data.List.TakeWhile
import RepoSurvey.Decimal.Text
import RepoSurvey.Proofs.Text.Pieces

/-!
# Numbers that can be read

A run of digits is a whole number unless it is too long (`readInt_of_digits`), and digits with a
point among them or behind them, and an exponent that is complete, are a number with a fraction
(`isSome_readFloat?`). Nothing that stands around numbers, and no underscore, stands in them.
-/

namespace RepoSurvey.Decimal

open RepoSurvey.Text

/-! ### Plain texts -/

/-- A character that stands for itself in a number. -/
def IsNumeric (c : Char) : Prop := c.toNat < 128 ∧ isMargin c = false ∧ c ≠ '_'

instance (c : Char) : Decidable (IsNumeric c) := inferInstanceAs (Decidable (_ ∧ _ ∧ _))

theorem isNumeric_of_hexDigit? {c : Char} (h : (hexDigit? c).isSome) : IsNumeric c := by
  have hc := toNat_of_hexDigit? h
  have hmark : c ≠ '_' ∧ c ≠ ' ' := by
    constructor <;> rintro rfl <;> revert hc <;> decide
  refine ⟨by omega, ?_, hmark.1⟩
  simp only [isMargin, beq_eq_false_iff_ne.2 hmark.2, Bool.false_or, Bool.and_eq_false_iff,
    decide_eq_false_iff_not]
  omega

/-- Decimal digits have one value, in whatever base. -/
theorem hexDigit?_of_asciiDigit? {c : Char} (h : (asciiDigit? c).isSome) :
    hexDigit? c = some (c.toNat - 48) := by
  unfold asciiDigit? at h
  split at h
  · exact if_pos ‹_›
  · cases h

theorem isNumeric_of_asciiDigit? {c : Char} (h : (asciiDigit? c).isSome) : IsNumeric c :=
  isNumeric_of_hexDigit? (by rw [hexDigit?_of_asciiDigit? h, Option.isSome_some])

/-- A text of such characters is read as it is. -/
theorem plainText_of_isNumeric {cs : List Char} (h : ∀ c ∈ cs, IsNumeric c) :
    plainText cs = cs := by
  have hmap : cs.map plainChar = cs := by
    refine (List.map_congr_left fun c hc ↦ ?_).trans (List.map_id cs)
    rw [plainChar, if_pos (h c hc).1, id]
  have hdrop {bs : List Char} (hbs : ∀ c ∈ bs, IsNumeric c) : bs.dropWhile isMargin = bs :=
    List.dropWhile_eq_self_iff.2 fun _ ↦ by simp [(hbs _ (List.getElem_mem _)).2.1]
  rw [plainText, hmap, hdrop h, hdrop fun c hc ↦ h c (List.mem_reverse.1 hc), List.reverse_reverse]

/-- What begins with neither sign has none. -/
theorem takeSign_of_ne {c : Char} (h : c ≠ '-' ∧ c ≠ '+') (cs : List Char) :
    takeSign (c :: cs) = (false, c :: cs) := by
  unfold takeSign
  split <;> simp_all

/-! ### Whole numbers -/

/-- Without underscores nothing has to be taken out. -/
theorem ungroup_of_forall {isDigit : Char → Bool} {cs : List Char} (h : ∀ c ∈ cs, isDigit c)
    {afterDigit : Bool} (hsome : afterDigit ∨ cs ≠ []) :
    ungroup isDigit afterDigit cs = some cs := by
  induction cs generalizing afterDigit with
  | nil => simp_all [ungroup]
  | cons c cs ih =>
    obtain ⟨hc, hcs⟩ := List.forall_mem_cons.1 h
    rw [ungroup, if_pos hc, ih hcs (.inl rfl), Option.map_some]

/-- What is a digit in some base is one in base sixteen. -/
theorem hexDigit?_of_digitIn? {base : Nat} {c : Char} (h : (digitIn? base c).isSome) :
    (hexDigit? c).isSome :=
  Option.isSome_of_isSome_filter _ _ h

/-- The mark of a base is no digit in it. -/
theorem dropBaseMark_of_digits {base : Nat} {cs : List Char}
    (h : ∀ c ∈ cs, (digitIn? base c).isSome) : dropBaseMark base cs = cs := by
  unfold dropBaseMark
  split
  · rename_i m cs
    refine if_neg fun hmark ↦ ?_
    have hm := h m (by simp)
    simp only [Bool.or_eq_true, Bool.and_eq_true, beq_iff_eq] at hmark
    obtain (⟨rfl, rfl | rfl⟩ | ⟨rfl, rfl | rfl⟩) | ⟨rfl, rfl | rfl⟩ := hmark <;>
      revert hm <;> decide
  · rfl

/-- A run of digits is a whole number, unless it is too long. -/
theorem readInt_of_digits {base : Nat} {cs : List Char} (hne : cs ≠ [])
    (h : ∀ c ∈ cs, (digitIn? base c).isSome) :
    readInt base cs =
      if base == 10 && longestInt < cs.length then .error (.tooLong cs.length)
      else .ok (Int.ofNat (valueIn base (cs.filterMap (digitIn? base)))) := by
  obtain ⟨c, cs, rfl⟩ := List.exists_cons_of_ne_nil hne
  have hnumeric : ∀ a ∈ c :: cs, IsNumeric a :=
    fun a ha ↦ isNumeric_of_hexDigit? (hexDigit?_of_digitIn? (h a ha))
  have hsign : c ≠ '-' ∧ c ≠ '+' := by
    have hc := hexDigit?_of_digitIn? (h c List.mem_cons_self)
    constructor <;> rintro rfl <;> revert hc <;> decide
  have hrun : (c :: cs).takeWhile (fun c ↦ (digitIn? base c).isSome || c == '_') = c :: cs :=
    List.takeWhile_eq_self_iff.2 fun a ha ↦ by simp [h a ha]
  rw [readInt, plainText_of_isNumeric hnumeric, takeSign_of_ne hsign]
  simp only [dropBaseMark_of_digits h, hrun, ungroup_of_forall h (.inr hne), lt_self_iff_false,
    if_false]
  rfl

/-! ### Fractions -/

/-- A text without underscores is left as it is. -/
theorem dropUnderscores_of_not_mem {cs : List Char} (h : '_' ∉ cs) (before : Char) :
    dropUnderscores before cs = some cs := by
  induction cs generalizing before with
  | nil => rfl
  | cons c cs ih =>
    obtain ⟨hc, hcs⟩ := not_or.1 (List.mem_cons.not.1 h)
    unfold dropUnderscores
    split
    · cases ‹_›
    · simp_all
    · rename_i heq
      obtain ⟨rfl, rfl⟩ := List.cons.inj heq
      rw [if_neg (by simpa using Ne.symm hc), ih hcs, Option.map_some]

/-- An exponent: nothing, or a mark, a sign and digits. -/
inductive IsExponent : List Char → Prop
  | none : IsExponent []
  | some {e sign : Char} {digits : List Char} :
      (e = 'e' ∨ e = 'E') → (sign = '-' ∨ sign = '+') → digits ≠ [] →
      (∀ c ∈ digits, (asciiDigit? c).isSome) → IsExponent (e :: sign :: digits)

/-- An exponent that is complete can be read. -/
theorem IsExponent.isSome {cs : List Char} (h : IsExponent cs) : (readExponent? cs).isSome := by
  cases h with
  | none => rfl
  | @some e sign digits he hsign hne hdigits =>
    have hmark : (e == 'e' || e == 'E') = true := by simpa using he
    have hsigned : (takeSign (sign :: digits)).2 = digits := by
      rcases hsign with rfl | rfl <;> rfl
    have hall : (digits.isEmpty || !digits.all fun c ↦ (asciiDigit? c).isSome) = false := by
      simp [hne, List.all_eq_true.2 hdigits]
    unfold readExponent?
    simp only [hmark, if_true]
    rw [hsigned, hall]
    rfl

/-- An exponent consists of characters that stand for themselves. -/
theorem IsExponent.isNumeric {cs : List Char} (h : IsExponent cs) : ∀ c ∈ cs, IsNumeric c := by
  cases h with
  | none => exact fun c hc ↦ absurd hc List.not_mem_nil
  | @some e sign digits he hsign hne hdigits =>
    have hmark : IsNumeric e := by rcases he with rfl | rfl <;> decide
    have hsigned : IsNumeric sign := by rcases hsign with rfl | rfl <;> decide
    simp only [List.forall_mem_cons]
    exact ⟨hmark, hsigned, fun c hc ↦ isNumeric_of_asciiDigit? (hdigits c hc)⟩

/-- No exponent begins with a digit, so the digits in front of it end there. -/
theorem IsExponent.head? {cs : List Char} (h : IsExponent cs) :
    ∀ c ∈ cs.head?, (asciiDigit? c).isSome = false := by
  cases h with
  | none => exact fun c hc ↦ absurd hc (Option.not_mem_none c)
  | @some e sign digits he =>
    intro c hc
    obtain rfl : e = c := Option.some.inj hc
    rcases he with rfl | rfl <;> decide

/-- A number without a sign: digits, and perhaps a point among them or behind them and an
exponent. -/
inductive IsFraction : List Char → Prop
  | digits {whole : List Char} :
      whole ≠ [] → (∀ c ∈ whole, (asciiDigit? c).isSome) → IsFraction whole
  | point {whole places exponent : List Char} :
      whole ≠ [] ∨ places ≠ [] → (∀ c ∈ whole, (asciiDigit? c).isSome) →
      (∀ c ∈ places, (asciiDigit? c).isSome) → IsExponent exponent →
      IsFraction (whole ++ '.' :: (places ++ exponent))

/-- A number consists of characters that stand for themselves. -/
theorem IsFraction.isNumeric {cs : List Char} (h : IsFraction cs) : ∀ c ∈ cs, IsNumeric c := by
  cases h with
  | digits _ hwhole => exact fun c hc ↦ isNumeric_of_asciiDigit? (hwhole c hc)
  | point _ hwhole hplaces hexponent =>
    simp only [List.forall_mem_append, List.forall_mem_cons]
    exact ⟨fun c hc ↦ isNumeric_of_asciiDigit? (hwhole c hc), by decide,
      fun c hc ↦ isNumeric_of_asciiDigit? (hplaces c hc), hexponent.isNumeric⟩

theorem takeSign_of_asciiDigit? {c : Char} (h : (asciiDigit? c).isSome) (cs : List Char) :
    takeSign (c :: cs) = (false, c :: cs) := by
  refine takeSign_of_ne ?_ cs
  constructor <;> rintro rfl <;> revert h <;> decide

/-- A number without a sign is not read with one. -/
theorem IsFraction.takeSign {cs : List Char} (h : IsFraction cs) :
    Decimal.takeSign cs = (false, cs) := by
  cases h with
  | digits hne hwhole =>
    obtain ⟨c, cs, rfl⟩ := List.exists_cons_of_ne_nil hne
    exact takeSign_of_asciiDigit? (hwhole c List.mem_cons_self) cs
  | @point whole places exponent _ hwhole =>
    rcases whole with - | ⟨c, cs⟩
    · rfl
    · exact takeSign_of_asciiDigit? (hwhole c List.mem_cons_self) _

/-- A number without a sign can be read. -/
theorem IsFraction.isSome_readFloat? {cs : List Char} (h : IsFraction cs) :
    (readFloat? cs).isSome := by
  have hplain : dropUnderscores ' ' (plainText cs) = some cs := by
    rw [plainText_of_isNumeric h.isNumeric]
    exact dropUnderscores_of_not_mem (fun hmark ↦ (h.isNumeric _ hmark).2.2 rfl) _
  unfold readFloat?
  rw [hplain]
  simp only [Option.bind_eq_bind, Option.bind_some, h.takeSign]
  split
  · rfl
  split
  · rfl
  cases h with
  | digits hne hwhole =>
    have htake := List.takeWhile_eq_self_iff.2 hwhole
    have hdrop := List.dropWhile_eq_nil_iff.2 hwhole
    simp [htake, hdrop, hne, readExponent?]
  | @point whole places exponent hne hwhole hplaces hexponent =>
    obtain ⟨e, he⟩ := Option.isSome_iff_exists.1 hexponent.isSome
    have hpoint : (asciiDigit? '.').isSome = false := by decide
    obtain ⟨htake, hdrop⟩ := takeWhile_dropWhile_append hplaces hexponent.head?
    have hempty : (whole.isEmpty && places.isEmpty) = false := by
      rcases hne with hne | hne <;> simp [hne]
    simp only [List.takeWhile_append_of_pos hwhole, List.dropWhile_append_of_pos hwhole,
      List.takeWhile_cons, List.dropWhile_cons, hpoint, Bool.false_eq_true, if_false, htake, hdrop,
      he, List.append_nil, hempty]
    rfl

end RepoSurvey.Decimal
