import RepoSurvey.Proofs.Decimal.Reading
import RepoSurvey.Proofs.Text.LowerCase
import RepoSurvey.Proofs.Yaml.Unresolved

/-!
# Scalars that are what they look like

What looks like a number is one: once its sign and its underscores are gone, its places are runs of
digits (`digits_of_mem_split_bare`), the last perhaps with a fraction (`IsPointed.isFraction`).
`Unresolved.of_scalarOf` says so for all types: a text that looks like a value of a type is one, but
for what `Unresolved` lists.
-/

namespace RepoSurvey.Yaml

open RepoSurvey.Decimal RepoSurvey.Text

/-! ### Digits and underscores -/

/-- A text without its underscores. -/
def bare (cs : List Char) : List Char := cs.filter (· != '_')

theorem mem_bare {c : Char} {cs : List Char} (h : c ∈ bare cs) : c ∈ cs ∧ c ≠ '_' := by
  simpa [bare] using h

theorem bare_eq_self {cs : List Char} (h : '_' ∉ cs) : bare cs = cs :=
  List.filter_eq_self.2 fun c hc ↦ by simpa using ne_of_mem_of_not_mem hc h

/-- The sign goes, whether the underscores go before it or after it. -/
theorem takeSign_bare {cs body : List Char} {c : Char} (h : unsigned cs = c :: body)
    (hc : c ≠ '_' ∧ c ≠ '-' ∧ c ≠ '+') : (takeSign (bare cs)).2 = bare (c :: body) := by
  have hhead : bare (c :: body) = c :: bare body := by simp [bare, hc.1]
  unfold unsigned takeSign at h
  split at h
  · rw [← h]
    rfl
  · rw [← h]
    rfl
  · dsimp only at h
    subst h
    rw [hhead, takeSign_of_ne hc.2]

/-- A number is read without sign and underscores, if something else comes first behind the sign. -/
theorem exists_bareNumber {text : String} {body : List Char} {c : Char}
    (h : unsigned text.toList = c :: body) (hc : c ≠ '_' ∧ c ≠ '-' ∧ c ≠ '+') :
    ∃ negative, bareNumber text = .ok (negative, bare (c :: body)) := by
  have hsign := takeSign_bare h hc
  have hnumber : bareNumber text = .ok (takeSign (bare text.toList)) := by
    unfold bareNumber
    rw [← bare]
    split
    · rename_i hnil
      rw [hnil] at hsign
      simp [takeSign, bare, hc.1] at hsign
    · simp_all [takeSign]
    · simp_all [takeSign]
    · unfold takeSign
      split <;> simp_all
  exact ⟨_, hnumber.trans (congrArg Except.ok (Prod.ext rfl hsign))⟩

/-- Of digits and underscores, only digits are left. -/
theorem isSome_of_mem_bare {cs : List Char} (h : cs.all isDigitOrGap) :
    ∀ c ∈ bare cs, (asciiDigit? c).isSome := by
  intro c hc
  obtain ⟨hmem, hne⟩ := mem_bare hc
  have hdigit := List.all_eq_true.1 h c hmem
  simpa [isDigitOrGap, isDigit, hne] using hdigit

theorem all_of_isGrouped {cs : List Char} (h : isGrouped cs) : cs.all isDigitOrGap := by
  rcases cs with - | ⟨c, cs⟩
  · rfl
  · obtain ⟨hc, hcs⟩ := Bool.and_eq_true_iff.1 h
    rw [List.all_cons, hcs, isDigitOrGap, hc]
    rfl

/-- Grouped digits begin with a digit, so something is left of them. -/
theorem bare_ne_nil_of_isGrouped {cs : List Char} (h : isGrouped cs) : bare cs ≠ [] := by
  rcases cs with - | ⟨c, cs⟩
  · cases h
  · obtain ⟨hdigit, -⟩ := Bool.and_eq_true_iff.1 h
    have hc : c ≠ '_' := by
      rintro rfl
      revert hdigit
      decide
    simp [bare, hc]

/-- A place in base sixty is a place of grouped digits, with no more than two of them. -/
theorem isGrouped_of_isSixtieth {cs : List Char} (h : isSixtieth cs) : isGrouped cs := by
  have hlow {a : Char} (h₀ : '0' ≤ a) (h₅ : a ≤ '5') : isDigit a := by
    have h₉ : a ≤ '9' := Char.le_trans h₅ (by decide)
    simp [isDigit, asciiDigit?, h₀, h₉]
  unfold isSixtieth at h
  split at h
  · simpa [isGrouped] using h
  · simp only [Bool.and_eq_true, decide_eq_true_eq] at h
    simp [isGrouped, isDigitOrGap, hlow h.1.1 h.1.2, h.2]
  · cases h

/-- The places of a number are runs of digits once the underscores are gone. -/
theorem digits_of_mem_split_bare {cs : List Char} (h : ∀ piece ∈ split ':' cs, isGrouped piece) :
    ∀ piece ∈ split ':' (bare cs), piece ≠ [] ∧ ∀ c ∈ piece, (asciiDigit? c).isSome := by
  rw [bare, split_filter (by decide)]
  intro piece hpiece
  obtain ⟨grouped, hgrouped, rfl⟩ := List.mem_map.1 hpiece
  exact ⟨bare_ne_nil_of_isGrouped (h _ hgrouped),
    isSome_of_mem_bare (all_of_isGrouped (h _ hgrouped))⟩

theorem ne_of_isDigit {c : Char} (h : isDigit c) : c ≠ '_' ∧ c ≠ '-' ∧ c ≠ '+' := by
  refine ⟨?_, ?_, ?_⟩ <;> rintro rfl <;> revert h <;> decide

/-- A text whose first place is a number begins with a digit. -/
theorem exists_digit_of_split {cs first : List Char} {places : List (List Char)}
    (hsplit : split ':' cs = first :: places) (hfirst : isGrouped first) :
    ∃ c body, cs = c :: body ∧ isDigit c := by
  rcases first with - | ⟨c, first⟩
  · cases hfirst
  obtain ⟨body, hbody⟩ := List.head?_eq_some_iff.1 (head?_of_split hsplit rfl)
  exact ⟨c, body, hbody, (Bool.and_eq_true_iff.1 hfirst).1⟩

theorem length_unsigned_le (cs : List Char) : (unsigned cs).length ≤ cs.length := by
  unfold unsigned takeSign
  split <;> simp

/-! ### Whole numbers -/

theorem digitIn?_ten {c : Char} (h : (asciiDigit? c).isSome) : (digitIn? 10 c).isSome := by
  have hvalue : c.toNat - 48 < 10 := by
    have hcodes := toNat_of_asciiDigit? h
    omega
  rw [digitIn?, hexDigit?_of_asciiDigit? h, Option.filter_some, if_pos (by simpa using hvalue)]
  rfl

/-- Digits are a whole number, unless there are too many in base ten. -/
theorem faults_wholeIn {base : Nat} {cs : List Char} (hne : cs ≠ [])
    (h : ∀ c ∈ cs, (digitIn? base c).isSome) :
    Faults (fun fault ↦ base = 10 ∧ fault = .longWhole cs.length ∧ longestInt < cs.length)
      (wholeIn base cs) := by
  unfold wholeIn
  rw [readInt_of_digits hne h]
  by_cases hlong : (base == 10 && longestInt < cs.length) = true
  · rw [if_pos hlong]
    obtain ⟨hbase, hlong⟩ := Bool.and_eq_true_iff.1 hlong
    exact faults_error ⟨beq_iff_eq.1 hbase, rfl, of_decide_eq_true hlong⟩
  · rw [if_neg hlong]
    exact faults_ok _

/-- A number in base ten, or one with places in base sixty. -/
theorem faults_unsignedWhole {cs : List Char} (hzero : cs.head? ≠ some '0')
    (h : ∀ piece ∈ split ':' cs, piece ≠ [] ∧ ∀ c ∈ piece, (asciiDigit? c).isSome) :
    Faults (fun fault ↦ ∃ n, fault = .longWhole n ∧ longestInt < n ∧ n ≤ cs.length)
      (unsignedWhole cs) := by
  have hpiece (piece : List Char) (hp : piece ∈ split ':' cs) :
      Faults (fun fault ↦ ∃ n, fault = .longWhole n ∧ longestInt < n ∧ n ≤ cs.length)
        (wholeIn 10 piece) := by
    obtain ⟨hne, hdigits⟩ := h piece hp
    intro fault hfault
    obtain ⟨-, rfl, hlong⟩ :=
      faults_wholeIn hne (fun c hc ↦ digitIn?_ten (hdigits c hc)) fault hfault
    exact ⟨_, rfl, hlong, length_le_of_mem_split hp⟩
  unfold unsignedWhole
  split
  · exact absurd rfl (h [] List.mem_cons_self).1
  · exact faults_ok _
  · exact absurd rfl hzero
  · exact absurd rfl hzero
  · exact absurd rfl hzero
  · refine .ite (fun _ ↦ ?_) fun hcolon ↦ hpiece cs ?_
    · exact (Faults.mapM hpiece).bind fun places ↦ faults_ok _
    · rw [split_of_not_mem (by simpa using hcolon)]
      exact List.mem_cons_self

/-- Of a whole number, only what is read of its digits can be at fault: the sign is put back. -/
theorem Faults.wholeOf {B : ScalarFault → Prop} {text : String} {c : Char} {body : List Char}
    (hbody : unsigned text.toList = c :: body) (hc : c ≠ '_' ∧ c ≠ '-' ∧ c ≠ '+')
    (h : Faults B (unsignedWhole (bare (c :: body)))) : Faults B (wholeOf text) := by
  obtain ⟨negative, hnumber⟩ := exists_bareNumber hbody hc
  unfold Yaml.wholeOf
  rw [hnumber]
  exact h.bind fun n ↦ faults_ok _

/-- Behind the mark of a base other than ten only a missing digit is wrong. -/
theorem faults_wholeIn_bare {base : Nat} {mark : Char} {gap : List Char} {text : String}
    (hbody : unsigned text.toList = '0' :: mark :: gap)
    (hbase : (base = 2 ∧ mark = 'b') ∨ (base = 16 ∧ mark = 'x'))
    (h : ∀ c ∈ bare gap, (digitIn? base c).isSome) :
    Faults (Unresolved text) (wholeIn base (bare gap)) := by
  by_cases hgap : bare gap = []
  · have hunder : ∀ c ∈ gap, c = '_' := by simpa [bare] using hgap
    have hfault : wholeIn base [] = .error (.whole base "") := by
      obtain ⟨rfl, -⟩ | ⟨rfl, -⟩ := hbase <;> rfl
    rw [hgap, hfault]
    exact faults_error (.noDigits hbody hbase hunder)
  · intro fault hfault
    obtain ⟨rfl, -⟩ := faults_wholeIn hgap h fault hfault
    simp at hbase

theorem digitIn?_sixteen {c : Char} (h : (hexDigit? c).isSome) : (digitIn? 16 c).isSome := by
  obtain ⟨d, hd⟩ := Option.isSome_iff_exists.1 h
  rw [digitIn?, hd, Option.filter_some, if_pos (by simpa using hexDigit?_lt hd)]
  rfl

theorem digitIn?_eight {c : Char} (h : '0' ≤ c ∧ c ≤ '7') : (digitIn? 8 c).isSome := by
  have hdigit : (asciiDigit? c).isSome := by
    simp [asciiDigit?, h.1, Char.le_trans h.2 (by decide : '7' ≤ '9')]
  have hvalue : c.toNat - 48 < 8 := by
    have hseven : c.toNat ≤ 55 := h.2
    omega
  rw [digitIn?, hexDigit?_of_asciiDigit? hdigit, Option.filter_some,
    if_pos (by simpa using hvalue)]
  rfl

/-- Digits of base eight are a whole number behind a zero. -/
theorem faults_octal {B : ScalarFault → Prop} {cs : List Char}
    (h : ∀ c ∈ cs, '0' ≤ c ∧ c ≤ '7') : Faults B (unsignedWhole ('0' :: cs)) := by
  have hdigits : ∀ c ∈ '0' :: cs, (digitIn? 8 c).isSome :=
    List.forall_mem_cons.2 ⟨by decide, fun c hc ↦ digitIn?_eight (h c hc)⟩
  have hoctal : Faults B (wholeIn 8 ('0' :: cs)) := fun fault hfault ↦ by
    obtain ⟨hten, -⟩ := faults_wholeIn (List.cons_ne_nil _ _) hdigits fault hfault
    cases hten
  rcases cs with - | ⟨c, cs⟩
  · exact faults_ok _
  have hc : c ≠ 'b' ∧ c ≠ 'x' := by
    have hc := h c List.mem_cons_self
    constructor <;> rintro rfl <;> revert hc <;> decide
  unfold unsignedWhole
  split <;> simp_all

/-- A text that looks like a whole number is one, unless it has no digits or too many. -/
theorem faults_wholeOf {text : String} (h : isInt text.toList) :
    Faults (Unresolved text) (wholeOf text) := by
  have hint := h
  have hzero : '0' ≠ '_' ∧ '0' ≠ '-' ∧ '0' ≠ '+' := by decide
  unfold isInt at h
  split at h
  · rename_i hbody
    exact Faults.wholeOf hbody hzero (faults_ok _)
  -- in base two
  · rename_i rest hbody
    refine Faults.wholeOf hbody hzero (faults_wholeIn_bare hbody (.inl ⟨rfl, rfl⟩) fun c hc ↦ ?_)
    obtain ⟨hmem, hne⟩ := mem_bare hc
    have hbit := List.all_eq_true.1 (Bool.and_eq_true_iff.1 h).2 c hmem
    have hbit : c = '0' ∨ c = '1' := by simpa [hne] using hbit
    rcases hbit with rfl | rfl <;> decide
  -- in base sixteen
  · rename_i rest hbody
    refine Faults.wholeOf hbody hzero (faults_wholeIn_bare hbody (.inr ⟨rfl, rfl⟩) fun c hc ↦ ?_)
    obtain ⟨hmem, hne⟩ := mem_bare hc
    have hhex := List.all_eq_true.1 (Bool.and_eq_true_iff.1 h).2 c hmem
    exact digitIn?_sixteen (by simpa [hne] using hhex)
  -- in base eight
  · rename_i rest _ _ _ hbody
    refine Faults.wholeOf hbody hzero (@faults_octal _ (bare rest) fun c hc ↦ ?_)
    obtain ⟨hmem, hne⟩ := mem_bare hc
    have hoctal := List.all_eq_true.1 (Bool.and_eq_true_iff.1 h).2 c hmem
    simpa [hne] using hoctal
  -- in base ten or sixty, where only a number with too many digits has no value
  · rename_i hnot
    split at h
    · rename_i first places hsplit
      obtain ⟨hfirst, hplaces⟩ := Bool.and_eq_true_iff.1 h
      obtain ⟨c, body, hbody, hc⟩ := exists_digit_of_split hsplit hfirst
      have hgrouped : ∀ piece ∈ split ':' (c :: body), isGrouped piece := by
        rw [← hbody, hsplit]
        exact List.forall_mem_cons.2
          ⟨hfirst, fun p hp ↦ isGrouped_of_isSixtieth (List.all_eq_true.1 hplaces p hp)⟩
      have hhead : (bare (c :: body)).head? ≠ some '0' := by
        have hzero : c ≠ '0' := fun hc ↦ hnot body (hc ▸ hbody)
        simpa [bare, (ne_of_isDigit hc).1] using hzero
      refine Faults.wholeOf hbody (ne_of_isDigit hc) fun fault hfault ↦ ?_
      obtain ⟨n, rfl, hlong, hn⟩ :=
        faults_unsignedWhole hhead (digits_of_mem_split_bare hgrouped) fault hfault
      have hlength : (bare (c :: body)).length ≤ text.length := by
        rw [← hbody, ← String.length_toList]
        exact (List.length_filter_le _ _).trans (length_unsigned_le _)
      exact .longWhole hint hlong (hn.trans hlength)
    · cases h

/-! ### Lower case -/

theorem toLower_of_asciiDigit? {c : Char} (h : (asciiDigit? c).isSome) : c.toLower = c := by
  have hcodes := toNat_of_asciiDigit? h
  exact toLower_of_lt (by omega)

theorem toLower_of_isDigitOrGap {c : Char} (h : isDigitOrGap c) : c.toLower = c := by
  rcases Bool.or_eq_true_iff.1 h with hdigit | hgap
  · exact toLower_of_asciiDigit? hdigit
  · rw [beq_iff_eq.1 hgap]
    decide

theorem map_toLower_eq_self {cs : List Char} (h : ∀ c ∈ cs, c.toLower = c) :
    cs.map Char.toLower = cs :=
  (List.map_congr_left h).trans (List.map_id cs)

/-! ### Numbers with a fraction -/

/-- A text with a point: places of a number in front of it, digits and an exponent behind it. -/
inductive IsPointed : List Char → Prop
  | point {whole gap exponent : List Char} :
      (whole = [] ∧ isGrouped gap) ∨ (∀ piece ∈ split ':' whole, isGrouped piece) →
      gap.all isDigitOrGap → IsExponent exponent → IsPointed (whole ++ '.' :: (gap ++ exponent))

/-- What is matched as an exponent is one. -/
theorem isExponent_iff {cs : List Char} (h : isExponent cs) : IsExponent cs := by
  unfold isExponent at h
  split at h
  · exact .none
  · rename_i e sign digits
    simp only [isRun, Bool.and_eq_true, Bool.or_eq_true, beq_iff_eq, Bool.not_eq_true',
      List.isEmpty_eq_false_iff, List.all_eq_true] at h
    exact .some h.1.1 h.1.2 h.2.1 h.2.2
  · cases h

theorem ne_of_mem_exponent {cs : List Char} (h : IsExponent cs) {c : Char} (hc : c ∈ cs) :
    c ≠ ':' := by
  rintro rfl
  cases h with
  | none => exact List.not_mem_nil hc
  | some he hsign hne hdigits =>
    simp only [List.mem_cons] at hc
    obtain rfl | rfl | hc := hc
    · simp at he
    · simp at hsign
    · exact absurd (hdigits _ hc) (by decide)

/-- In lower case an exponent is still one: only its mark is a letter. -/
theorem isExponent_map_toLower {cs : List Char} (h : IsExponent cs) :
    IsExponent (cs.map Char.toLower) := by
  cases h with
  | none => exact .none
  | @some e sign digits he hsign hne hdigits =>
    have hlower : digits.map Char.toLower = digits :=
      map_toLower_eq_self fun c hc ↦ toLower_of_asciiDigit? (hdigits c hc)
    rw [List.map_cons, List.map_cons, hlower]
    refine .some (.inl ?_) ?_ hne hdigits
    · rcases he with rfl | rfl <;> decide
    · rcases hsign with rfl | rfl <;> decide

/-- In the whole part stand digits, underscores and the marks between places. -/
theorem isDigitOrGap_of_mem_whole {whole gap : List Char} {c : Char}
    (h : (whole = [] ∧ isGrouped gap) ∨ ∀ piece ∈ split ':' whole, isGrouped piece)
    (hc : c ∈ whole) : c = ':' ∨ isDigitOrGap c := by
  rcases h with ⟨rfl, -⟩ | h
  · exact absurd hc List.not_mem_nil
  · refine (eq_or_exists_mem_split ':' hc).imp_right fun ⟨piece, hpiece, hc⟩ ↦ ?_
    exact List.all_eq_true.1 (all_of_isGrouped (h piece hpiece)) c hc

/-- Lower case changes nothing but the mark of the exponent. -/
theorem IsPointed.map_toLower {cs : List Char} (h : IsPointed cs) :
    IsPointed (cs.map Char.toLower) := by
  cases h with
  | @point whole gap exponent hfront hgap hexponent =>
    have hwhole : whole.map Char.toLower = whole := map_toLower_eq_self fun c hc ↦ by
      obtain rfl | hc := isDigitOrGap_of_mem_whole hfront hc
      · decide
      · exact toLower_of_isDigitOrGap hc
    have hgap' : gap.map Char.toLower = gap :=
      map_toLower_eq_self fun c hc ↦ toLower_of_isDigitOrGap (List.all_eq_true.1 hgap c hc)
    have hpoint : Char.toLower '.' = '.' := by decide
    rw [List.map_append, List.map_cons, List.map_append, hwhole, hgap', hpoint]
    exact .point hfront hgap (isExponent_map_toLower hexponent)

/-- A number with a point has no characters beyond those of the seven-bit code. -/
theorem IsPointed.ascii {cs : List Char} (h : IsPointed cs) : ∀ c ∈ cs, c.toNat < 128 := by
  have hgap {c : Char} (h : isDigitOrGap c) : c.toNat < 128 := by
    rcases Bool.or_eq_true_iff.1 h with hdigit | hmark
    · exact (isNumeric_of_asciiDigit? hdigit).1
    · rw [beq_iff_eq.1 hmark]
      decide
  cases h with
  | @point whole gap exponent hfront hall hexponent =>
    simp only [List.forall_mem_append, List.forall_mem_cons]
    refine ⟨fun c hc ↦ ?_, by decide, fun c hc ↦ hgap (List.all_eq_true.1 hall c hc),
      fun c hc ↦ (hexponent.isNumeric c hc).1⟩
    obtain rfl | hc := isDigitOrGap_of_mem_whole hfront hc
    · decide
    · exact hgap hc

/-- A number with a point begins with a digit or with the point. -/
theorem IsPointed.exists_cons {cs : List Char} (h : IsPointed cs) :
    ∃ c body, cs = c :: body ∧ (isDigit c ∨ c = '.') := by
  cases h with
  | @point whole gap exponent hfront =>
    rcases hfront with ⟨rfl, -⟩ | hfront
    · exact ⟨_, _, rfl, .inr rfl⟩
    · rcases hsplit : split ':' whole with - | ⟨first, places⟩
      · exact absurd hsplit (split_ne_nil _ _)
      rw [hsplit] at hfront
      obtain ⟨c, body, rfl, hc⟩ := exists_digit_of_split hsplit (hfront _ List.mem_cons_self)
      exact ⟨c, _, rfl, .inl hc⟩

/-- The places of a number with a point are numbers with a fraction. -/
theorem IsPointed.isFraction {cs : List Char} (h : IsPointed cs) :
    ∀ piece ∈ split ':' (bare cs), IsFraction piece := by
  cases h with
  | @point whole gap exponent hfront hgap hexponent =>
    have hbare : bare (whole ++ '.' :: (gap ++ exponent)) =
        bare whole ++ '.' :: (bare gap ++ exponent) := by
      have hkept : bare exponent = exponent :=
        bare_eq_self fun hmark ↦ (hexponent.isNumeric _ hmark).2.2 rfl
      rw [← hkept]
      simp [bare]
    have hplaces := isSome_of_mem_bare hgap
    have hcolon : ':' ∉ '.' :: (bare gap ++ exponent) := by
      rw [List.mem_cons, List.mem_append]
      rintro (hpoint | hdigit | hmark)
      · exact absurd hpoint (by decide)
      · exact absurd (hplaces _ hdigit) (by decide)
      · exact ne_of_mem_exponent hexponent hmark rfl
    rw [hbare]
    rcases hfront with ⟨rfl, hgrouped⟩ | hgrouped
    · rw [bare, List.filter_nil, List.nil_append, split_of_not_mem hcolon]
      refine List.forall_mem_singleton.2 ?_
      exact @IsFraction.point [] _ _ (.inr (bare_ne_nil_of_isGrouped hgrouped))
        (fun c hc ↦ absurd hc List.not_mem_nil) hplaces hexponent
    -- the point belongs to the last place, since no colon stands behind it
    · obtain ⟨front, last, hsplit, happend⟩ := exists_split_append hcolon (bare whole)
      have hdigits := digits_of_mem_split_bare hgrouped
      rw [hsplit] at hdigits
      obtain ⟨hfront, hlast⟩ := List.forall_mem_append.1 hdigits
      obtain ⟨hne, hwhole⟩ := hlast last List.mem_cons_self
      rw [happend]
      refine List.forall_mem_append.2 ⟨fun piece hp ↦ ?_, fun piece hp ↦ ?_⟩
      · exact .digits (hfront piece hp).1 (hfront piece hp).2
      · rw [List.mem_singleton.1 hp]
        exact .point (.inl hne) hwhole hplaces hexponent

/-- Behind a first digit, digits and underscores are grouped, as far as they go. -/
theorem isGrouped_takeWhile {cs : List Char} (h : isRun isDigit (cs.take 1)) :
    isGrouped (cs.takeWhile isDigitOrGap) := by
  rcases cs with - | ⟨c, cs⟩
  · cases h
  · have hc : isDigit c := by simpa [isRun] using h
    have hgap : isDigitOrGap c := by simp [isDigitOrGap, hc]
    rw [List.takeWhile_cons_of_pos hgap, isGrouped, hc, Bool.true_and]
    exact List.all_eq_true.2 fun a ha ↦ List.mem_takeWhile_imp ha

/-- The words that stand for numbers, behind their point. -/
def floatWords : List String := ["inf", "Inf", "INF", "nan", "NaN", "NAN"]

/-- What is matched as a number with a fraction is one of the words, or has a point in it. -/
theorem isPointed_of_isFloat {cs : List Char} (h : isFloat cs) :
    (∃ word ∈ floatWords, unsigned cs = '.' :: word.toList) ∨ IsPointed (unsigned cs) := by
  unfold isFloat at h
  extract_lets body whole at h
  have hbody : whole ++ body.dropWhile (· != '.') = body := List.takeWhile_append_dropWhile
  have hpoint := List.head?_dropWhile_not (· != '.') body
  split at h
  · cases h
  rename_i point rest hrest
  rw [hrest] at hbody hpoint
  obtain rfl : point = '.' := by simpa using hpoint
  have hparts : rest.takeWhile isDigitOrGap ++ rest.dropWhile isDigitOrGap = rest :=
    List.takeWhile_append_dropWhile
  have hgap : (rest.takeWhile isDigitOrGap).all isDigitOrGap :=
    List.all_eq_true.2 fun c hc ↦ List.mem_takeWhile_imp hc
  have hpointed (hfront : (whole = [] ∧ isGrouped (rest.takeWhile isDigitOrGap)) ∨
      ∀ piece ∈ split ':' whole, isGrouped piece) (hfraction : isFraction rest) :
      IsPointed (unsigned cs) := by
    have hpoint := IsPointed.point hfront hgap (isExponent_iff hfraction)
    rwa [hparts, hbody] at hpoint
  split at h
  -- nothing stands before the point: a word for infinity, or a fraction
  · rename_i hwhole
    rw [List.isEmpty_iff.1 hwhole, List.nil_append] at hbody
    have hword {words : List String} (h : words.contains (String.ofList rest))
        (hwords : words ⊆ floatWords) : ∃ word ∈ floatWords, unsigned cs = '.' :: word.toList :=
      ⟨_, hwords (List.contains_iff_mem.1 h), by rw [String.toList_ofList, hbody]⟩
    simp only [Bool.or_eq_true, Bool.and_eq_true] at h
    obtain hinf | ⟨-, hnan | ⟨hdigit, hfraction⟩⟩ := h
    · exact .inl (hword hinf (by decide))
    · exact .inl (hword hnan (by decide))
    · exact .inr (hpointed (.inl ⟨List.isEmpty_iff.1 hwhole, isGrouped_takeWhile hdigit⟩) hfraction)
  · refine .inr ?_
    split at h
    -- a single piece before the point
    · rename_i piece hsplit
      obtain ⟨hpiece, hfraction⟩ := Bool.and_eq_true_iff.1 h
      refine hpointed (.inr ?_) hfraction
      rw [hsplit]
      exact List.forall_mem_singleton.2 hpiece
    -- several pieces, which are places in base sixty
    · rename_i first places _ hsplit
      obtain ⟨hgrouped, hrest⟩ := Bool.and_eq_true_iff.1 h
      obtain ⟨hfirst, hplaces⟩ := Bool.and_eq_true_iff.1 hgrouped
      refine hpointed (.inr ?_) ?_
      · rw [hsplit]
        exact List.forall_mem_cons.2
          ⟨hfirst, fun p hp ↦ isGrouped_of_isSixtieth (List.all_eq_true.1 hplaces p hp)⟩
      · rw [isFraction, List.dropWhile_eq_nil_iff.2 (List.all_eq_true.1 hrest)]
        rfl
    · cases h

/-- Adding up places in base sixty is at fault only where there are too many of them. -/
theorem faults_sixtieths (unit : Nat) (total : Float) (places : List Float) :
    Faults (· = .manyPlaces) (sixtieths unit total places) := by
  induction places generalizing unit total with
  | nil => exact faults_ok _
  | cons x places ih =>
    unfold sixtieths
    split
    · exact ih _ _
    · exact faults_error rfl

/-- Digits with a fraction are read without a fault. -/
theorem faults_fractionOf {B : ScalarFault → Prop} {cs : List Char} (h : IsFraction cs) :
    Faults B (fractionOf cs) := by
  obtain ⟨x, hx⟩ := Option.isSome_iff_exists.1 h.isSome_readFloat?
  rw [fractionOf, hx]
  exact faults_ok x

/-- Only several places can be too many. -/
theorem faults_unsignedFloat {cs : List Char} (h : ∀ piece ∈ split ':' cs, IsFraction piece) :
    Faults (fun fault ↦ fault = .manyPlaces ∧ ':' ∈ cs) (unsignedFloat cs) := by
  refine .ite (fun _ ↦ faults_ok _) fun _ ↦ .ite (fun _ ↦ faults_ok _) fun _ ↦ ?_
  refine .ite (fun hcolon ↦ ?_) fun hcolon ↦ ?_
  · refine (Faults.mapM fun piece hp ↦ faults_fractionOf (h piece hp)).bind fun places ↦ ?_
    exact fun fault hfault ↦ ⟨faults_sixtieths _ _ _ fault hfault, by simpa using hcolon⟩
  · refine faults_fractionOf (h cs ?_)
    rw [split_of_not_mem (by simpa using hcolon)]
    exact List.mem_cons_self

/-- A sign has no lower case. -/
theorem unsigned_map_toLower (cs : List Char) :
    unsigned (cs.map Char.toLower) = (unsigned cs).map Char.toLower := by
  unfold unsigned
  rcases cs with - | ⟨c, cs⟩
  · rfl
  by_cases hminus : c = '-'
  · subst hminus
    rfl
  by_cases hplus : c = '+'
  · subst hplus
    rfl
  have hlower : c.toLower ≠ '-' ∧ c.toLower ≠ '+' :=
    ⟨fun h ↦ hminus (eq_of_toLower_eq h (by decide)),
      fun h ↦ hplus (eq_of_toLower_eq h (by decide))⟩
  rw [List.map_cons, takeSign_of_ne hlower, takeSign_of_ne ⟨hminus, hplus⟩, List.map_cons]

/-- A sign is a character of the seven-bit code. -/
theorem ascii_of_unsigned {cs : List Char} (h : ∀ c ∈ unsigned cs, c.toNat < 128) :
    ∀ c ∈ cs, c.toNat < 128 := by
  unfold unsigned takeSign at h
  split at h
  · exact List.forall_mem_cons.2 ⟨by decide, h⟩
  · exact List.forall_mem_cons.2 ⟨by decide, h⟩
  · exact h

theorem mem_of_mem_unsigned {c : Char} {cs : List Char} (h : c ∈ unsigned cs) : c ∈ cs := by
  unfold unsigned takeSign at h
  split at h
  · exact List.mem_cons_of_mem _ h
  · exact List.mem_cons_of_mem _ h
  · exact h

/-- Of a number with a fraction, only what is read behind its sign can be at fault. -/
theorem Faults.floatOf {B : ScalarFault → Prop} {text : String} {c : Char} {body : List Char}
    (hbody : (unsigned text.toList).map Char.toLower = c :: body)
    (hascii : ∀ a ∈ unsigned text.toList, a.toNat < 128) (hc : c ≠ '_' ∧ c ≠ '-' ∧ c ≠ '+')
    (h : Faults B (unsignedFloat (bare (c :: body)))) : Faults B (floatOf text) := by
  have hlower : unsigned (String.ofList (lower text.toList)).toList = c :: body := by
    rw [String.toList_ofList, lower_of_ascii (ascii_of_unsigned hascii), unsigned_map_toLower,
      hbody]
  obtain ⟨negative, hnumber⟩ := exists_bareNumber hlower hc
  unfold Yaml.floatOf
  rw [hnumber]
  exact h.bind fun x ↦ faults_ok _

/-- In lower case the words are two. -/
theorem lower_floatWords : ∀ word ∈ floatWords,
    ('.' :: word.toList).all (·.toNat < 128) = true ∧
      bare ('.' :: word.toList.map Char.toLower) ∈ [".inf".toList, ".nan".toList] := by
  decide

/-- The words are read without a fault. -/
theorem faults_specialFloat {B : ScalarFault → Prop} {cs : List Char}
    (h : cs ∈ [".inf".toList, ".nan".toList]) : Faults B (unsignedFloat cs) := by
  refine .ite (fun _ ↦ faults_ok _) fun hinf ↦ .ite (fun _ ↦ faults_ok _) fun hnan ↦ ?_
  simp only [List.mem_cons, List.not_mem_nil, or_false] at h
  rcases h with rfl | rfl
  · exact absurd String.ofList_toList hinf
  · exact absurd String.ofList_toList hnan

/-- A text that looks like a number with a fraction is one, unless it has too many places in base
sixty. -/
theorem faults_floatOf {text : String} (h : isFloat text.toList) :
    Faults (Unresolved text) (floatOf text) := by
  obtain ⟨word, hword, hbody⟩ | hpointed := isPointed_of_isFloat h
  · obtain ⟨hascii, hbare⟩ := lower_floatWords word hword
    have hascii : ∀ c ∈ unsigned text.toList, c.toNat < 128 := by
      rw [hbody]
      exact fun c hc ↦ of_decide_eq_true (List.all_eq_true.1 hascii c hc)
    refine Faults.floatOf (by rw [hbody, List.map_cons]) hascii (by decide) ?_
    exact faults_specialFloat hbare
  · obtain ⟨c, body, hbody, hc⟩ := hpointed.map_toLower.exists_cons
    have hne : c ≠ '_' ∧ c ≠ '-' ∧ c ≠ '+' := by
      rcases hc with hc | rfl
      · exact ne_of_isDigit hc
      · decide
    refine Faults.floatOf hbody hpointed.ascii hne fun fault hfault ↦ ?_
    have hpieces := hpointed.map_toLower.isFraction
    rw [hbody] at hpieces
    obtain ⟨rfl, hcolon⟩ := faults_unsignedFloat hpieces fault hfault
    refine .manyPlaces h (mem_of_mem_unsigned ?_)
    have hmem := (mem_bare hcolon).1
    rw [← hbody] at hmem
    obtain ⟨a, ha, hlower⟩ := List.mem_map.1 hmem
    rwa [← eq_of_toLower_eq hlower (by decide)]

/-! ### All types -/

/-- Each of the truth words stands for a truth value. -/
theorem faults_truthOf {B : ScalarFault → Prop} {word : String} (h : word ∈ truthWords) :
    Faults B (truthOf word) := by
  have hwords : ∀ word ∈ truthWords, (truthOf word).isOk := by decide
  rcases hvalue : truthOf word with e | b
  · exact absurd (hwords word h) (by rw [hvalue]; exact Bool.false_ne_true)
  · exact faults_ok b

/-- A text that does not stop with a line feed is matched as it is. -/
theorem withoutLineEnd_eq_self {cs : List Char} (h : cs.getLast? ≠ some '\n') :
    withoutLineEnd cs = cs := by
  unfold withoutLineEnd
  split
  · rename_i hreverse
    rw [← List.head?_reverse, hreverse] at h
    exact absurd rfl h
  · rfl

/-- **A text that looks like a value of a type is one, with few exceptions.** -/
theorem Unresolved.of_scalarOf {text : String} {fault : ScalarFault}
    (h : scalarOf (Tag.ofText text) text = .error (.scalar fault)) : Unresolved text fault := by
  by_cases hend : text.toList.getLast? = some '\n'
  · exact .lineEnd hend
  have hcs := withoutLineEnd_eq_self hend
  unfold Tag.ofText at h
  simp only [hcs, String.ofList_toList] at h
  -- one case for each type that a plain scalar may have, in the order in which they are tried
  split at h
  · rename_i hword
    exact Faults.of_mapError (faults_truthOf (List.contains_iff_mem.1 hword)).map h
  split at h
  · exact Faults.of_mapError (faults_floatOf ‹_›).map h
  split at h
  · exact Faults.of_mapError (faults_wholeOf ‹_›).map h
  split at h
  · cases h
  split at h
  · cases h
  split at h
  · rename_i hmoment
    unfold isMoment at hmoment
    split at hmoment
    · rename_i m hm
      obtain ⟨f, rfl, hlacks⟩ := Faults.of_mapError (faults_momentOf (hcs.symm ▸ hm)) h
      exact .moment hm hlacks
    · cases hmoment
  split at h
  · cases h
  split at h
  · cases h
  · cases h

end RepoSurvey.Yaml
