import RepoSurvey.Proofs.Json.Grammar

/-!
# Reading what the grammar derives

The reader accepts every document of the grammar (`parse_document`). What it makes of a part depends
on the part only (`ReadsValue` and its companions), with one reservation: behind a value there must
be something that cannot continue a number (`Follows`). A whole number of too many digits is written
correctly and yet refused, so what is read of a part is optional.
-/

namespace RepoSurvey.Json

/-! ### What is read of a part -/

/-- A reading step yields a value and a rest, or, if there is no value, it finds a whole number too
long. -/
def Yields {α : Type} (step : Step α) (value : Option α) (rest : List Char) : Prop :=
  match value with
  | some v => step = .ok (v, rest)
  | none => ∃ place, step = .error (.hugeInteger, place)

/-- Nothing in front of a text can continue a number. -/
def Follows (rest : List Char) : Prop :=
  ∀ c ∈ rest.head?, isSpace c = true ∨ c = ',' ∨ c = ']' ∨ c = '\x7d'

section Space

variable {space rest : List Char}

theorem skipSpace_append (h : IsSpace space) (rest : List Char) :
    skipSpace (space ++ rest) = skipSpace rest :=
  List.dropWhile_append_of_pos h

theorem skipSpace_cons {c : Char} (h : isSpace c = false) (rest : List Char) :
    skipSpace (c :: rest) = c :: rest := by
  rw [skipSpace, List.dropWhile_cons_of_neg (by simp [h])]

/-- A comma or a closing bracket, with or without space in front of it, ends a number. -/
theorem follows_space_append (h : IsSpace space) {c : Char} (hc : c = ',' ∨ c = ']' ∨ c = '\x7d')
    (rest : List Char) : Follows (space ++ c :: rest) := by
  cases space with
  | nil => exact fun d hd ↦ .inr (by simpa [← Option.some.inj hd] using hc)
  | cons d space => exact fun e he ↦ .inl (Option.some.inj he ▸ h d List.mem_cons_self)

end Space

/-! ### Numbers -/

/-- No digit, point or mark of an exponent stands in front of what follows a number. -/
theorem Follows.head {rest : List Char} (h : Follows rest) {c : Char} (hc : c ∈ rest.head?) :
    isDigit c = false ∧ c ≠ '.' ∧ c ≠ 'e' ∧ c ≠ 'E' := by
  rcases h c hc with hspace | rfl | rfl | rfl
  · simp only [isSpace, Bool.or_eq_true, beq_iff_eq] at hspace
    rcases hspace with ((rfl | rfl) | rfl) | rfl <;> decide
  all_goals decide

theorem IsDigits.isEmpty {digits : List Char} (h : IsDigits digits) : digits.isEmpty = false := by
  rw [List.isEmpty_eq_false_iff]
  exact h.1

/-- A fraction is read to its end, and none is read where none stands. -/
theorem fraction_append {part rest : List Char} (h : IsFraction part)
    (hrest : ∀ c ∈ rest.head?, isDigit c = false ∧ c ≠ '.') :
    (fraction (part ++ rest)).getD ([], part ++ rest) = (part.tail, rest) := by
  cases h with
  | absent =>
    rw [List.nil_append, fraction]
    · rfl
    · rintro cs rfl
      exact (hrest '.' rfl).2 rfl
  | present hdigits =>
    obtain ⟨htake, hdrop⟩ :=
      Text.takeWhile_dropWhile_append hdigits.2 fun c hc ↦ (hrest c hc).1
    simp [fraction, htake, hdrop, hdigits.isEmpty]

/-- An exponent is read to its end. Its value is missing where it has too many digits. -/
theorem exponent_append {part : List Char} (h : IsExponent part) :
    ∃ e : Option Int, (e = none → part = []) ∧
      ∀ rest, Follows rest → exponent (part ++ rest) = e.map (·, rest) := by
  cases h with
  | absent =>
    refine ⟨none, fun _ ↦ rfl, fun rest hrest ↦ ?_⟩
    cases rest with
    | nil => rfl
    | cons c rest =>
      obtain ⟨-, -, he, hE⟩ := hrest.head rfl
      simp [exponent, he, hE]
  | @present mark sign digits hmark hsign hdigits =>
    have hrun (rest : List Char) (hrest : Follows rest) :
        (digits ++ rest).takeWhile isDigit = digits ∧ (digits ++ rest).dropWhile isDigit = rest :=
      Text.takeWhile_dropWhile_append hdigits.2 fun c hc ↦ (hrest.head hc).1
    have hmark : (mark == 'e' || mark == 'E') = true := by simpa using hmark
    -- without a sign the first digit has to be told from one
    rcases hsign with rfl | rfl | rfl
    · obtain ⟨d, digits, rfl⟩ := List.exists_cons_of_ne_nil hdigits.1
      have hd : isDigit d = true := hdigits.2 d List.mem_cons_self
      have hminus : d ≠ '-' := by rintro rfl; cases hd
      have hplus : d ≠ '+' := by rintro rfl; cases hd
      refine ⟨some (digitsValue (d :: digits)), nofun, fun rest hrest ↦ ?_⟩
      obtain ⟨htake, hdrop⟩ := hrun rest hrest
      rw [List.cons_append] at htake hdrop
      simp [exponent, hmark, htake, hdrop, hminus, hplus]
    · refine ⟨some (-digitsValue digits), nofun, fun rest hrest ↦ ?_⟩
      obtain ⟨htake, hdrop⟩ := hrun rest hrest
      simp [exponent, hmark, htake, hdrop, hdigits.isEmpty]
    · refine ⟨some (digitsValue digits), nofun, fun rest hrest ↦ ?_⟩
      obtain ⟨htake, hdrop⟩ := hrun rest hrest
      simp [exponent, hmark, htake, hdrop, hdigits.isEmpty]

/-- Neither a digit nor a point stands in front of an exponent and of what follows it. -/
theorem head_exponent {part rest : List Char} (h : IsExponent part) (hrest : Follows rest) :
    ∀ c ∈ (part ++ rest).head?, isDigit c = false ∧ c ≠ '.' := by
  cases h with
  | absent => exact fun c hc ↦ ⟨(hrest.head hc).1, (hrest.head hc).2.1⟩
  | present hmark =>
    rintro c ⟨⟩
    rcases hmark with rfl | rfl <;> decide

/-- No digit stands in front of a fraction and of what follows it. -/
theorem head_fraction {part rest : List Char} (h : IsFraction part)
    (hrest : ∀ c ∈ rest.head?, isDigit c = false) :
    ∀ c ∈ (part ++ rest).head?, isDigit c = false := by
  cases h with
  | absent => exact hrest
  | present => rintro c ⟨⟩; decide

/-- A number without a sign is read to its end, and its value does not depend on what stands behind
it. -/
theorem readNumber_append (negative : Bool) {text : List Char} (h : IsUnsigned text) :
    ∃ value : Option Json, ∀ start rest, Follows rest →
      Yields (readNumber start negative (text ++ rest)) value rest := by
  obtain @⟨whole, part, exponent, hwhole, hpart, hexponent⟩ := h
  obtain ⟨e, hnone, he⟩ := exponent_append hexponent
  -- a whole number has a bound on its digits, and all other numbers are read as doubles
  let short : Option Json :=
    if longestInteger < whole.length then none
    else some (.int (if negative then -Int.ofNat (digitsValue whole) else digitsValue whole))
  let long (e : Int) : Option Json :=
    some (.float (Decimal.nearest negative (digitsValue (whole ++ part.tail)) e))
  refine ⟨match e with
    | some e => long (e - Int.ofNat part.tail.length)
    | none => if part.tail.isEmpty then short else long (-Int.ofNat part.tail.length),
    fun start rest hrest ↦ ?_⟩
  have hexponent := head_exponent hexponent hrest
  have hhead := head_fraction hpart fun c hc ↦ (hexponent c hc).1
  rw [List.append_assoc, List.append_assoc]
  unfold readNumber
  extract_lets found afterWhole n
  -- all digits of the whole part are found: a zero stands alone, and others end at `hhead`
  obtain ⟨hfound, hne⟩ : found = whole ∧ whole.isEmpty = false := by
    cases hwhole with
    | zero => exact ⟨rfl, rfl⟩
    | digits hdigits hzero =>
      refine ⟨?_, hdigits.isEmpty⟩
      simp only [found]
      split
      · rename_i heq
        cases whole with
        | nil => exact absurd rfl hdigits.1
        | cons c cs => exact absurd (congrArg some (List.cons.inj heq).1) hzero
      · exact (Text.takeWhile_dropWhile_append hdigits.2 hhead).1
  have hafter : afterWhole = part ++ (exponent ++ rest) := by simp [afterWhole, hfound]
  rw [if_neg (by simp [hfound, hne]), hafter, fraction_append hpart hexponent]
  simp only [he rest hrest, n, hfound]
  cases e with
  | some e => rfl
  | none =>
    obtain rfl := hnone rfl
    simp only [Option.map_none, List.nil_append]
    split
    · by_cases hlong : longestInteger < whole.length
      · simp only [hlong, if_true, short]
        exact ⟨start, rfl⟩
      · simp only [hlong, if_false, short]
        rfl
    · rfl

/-! ### Strings -/

/-- Four hexadecimal digits make a code unit. -/
theorem codeUnit_of_digits {digits : List Char} (hlength : digits.length = 4)
    (h : ∀ c ∈ digits, (Text.hexDigit? c).isSome) : ∃ n, codeUnit? digits = some n := by
  match digits, hlength with
  | [a, b, c, d], _ =>
    obtain ⟨a', ha⟩ := Option.isSome_iff_exists.1 (h a (by simp))
    obtain ⟨b', hb⟩ := Option.isSome_iff_exists.1 (h b (by simp))
    obtain ⟨c', hc⟩ := Option.isSome_iff_exists.1 (h c (by simp))
    obtain ⟨d', hd⟩ := Option.isSome_iff_exists.1 (h d (by simp))
    exact ⟨_, by simp [codeUnit?, ha, hb, hc, hd]; rfl⟩

/-- Whether the low half of a pair stands in front is decided inside the string. -/
theorem lowSurrogate_append {body : List Char} (h : IsBody body) :
    (∀ rest, lowSurrogate? (body ++ '"' :: rest) = none) ∨
      ∃ low after, IsBody after ∧ after.length < body.length ∧ ∀ rest,
        lowSurrogate? (body ++ '"' :: rest) = some low ∧
          (body ++ '"' :: rest).drop 6 = after ++ '"' :: rest := by
  cases h with
  | nil => exact .inl fun rest ↦ by simp [lowSurrogate?]
  | plain hquote hslash => exact .inl fun rest ↦ by simp [lowSurrogate?, hslash]
  | @escape e cs he =>
    have hu : e ≠ 'u' := by rintro rfl; cases he
    exact .inl fun rest ↦ by simp [lowSurrogate?, hu]
  | @unit digits cs hlength hdigits hcs =>
    obtain ⟨n, hn⟩ := codeUnit_of_digits hlength hdigits
    match digits, hlength with
    | [a, b, c, d], _ =>
      have hlow (rest : List Char) :
          lowSurrogate? ('\\' :: 'u' :: ([a, b, c, d] ++ cs) ++ '"' :: rest) =
            (some n).filter fun n ↦ 0xDC00 ≤ n && n ≤ 0xDFFF := by
        rw [← hn]
        cases cs <;> rfl
      rcases hfilter : (some n).filter fun n ↦ 0xDC00 ≤ n && n ≤ 0xDFFF with - | low
      · exact .inl fun rest ↦ (hlow rest).trans hfilter
      · exact .inr ⟨low, cs, hcs, by simp; omega, fun rest ↦ ⟨(hlow rest).trans hfilter, rfl⟩⟩

/-- The same where the low half is only looked for behind a high one. -/
theorem lowSurrogate_append_of_high (high : Bool) {body : List Char} (h : IsBody body) :
    (∀ rest, (if high then lowSurrogate? (body ++ '"' :: rest) else none) = none) ∨
      ∃ low after, IsBody after ∧ after.length < body.length ∧ ∀ rest,
        (if high then lowSurrogate? (body ++ '"' :: rest) else none) = some low ∧
          (body ++ '"' :: rest).drop 6 = after ++ '"' :: rest := by
  cases high with
  | true => exact lowSurrogate_append h
  | false => exact .inl fun _ ↦ rfl

/-- A character that is no quote, no backslash and no control character stands for itself. -/
theorem readString_plain {c : Char} (hquote : c ≠ '"') (hslash : c ≠ '\\')
    (hcontrol : 0x1F < c.toNat) (start : List Char) (fuel : Nat) (out rest : List Char) :
    readString start (fuel + 1) out (c :: rest) = readString start fuel (c :: out) rest := by
  rw [readString]
  · rw [if_neg (by omega)]
  · exact hquote
  · exact hslash

/-- An escaped character stands for another one. -/
theorem readString_escape {e c : Char} (h : escaped? e = some c) (start : List Char) (fuel : Nat)
    (out rest : List Char) :
    readString start (fuel + 1) out ('\\' :: e :: rest) =
      readString start fuel (c :: out) rest := by
  have hu : e ≠ 'u' := by rintro rfl; cases h
  rw [readString]
  · rw [h]
  · exact hu

/-- A code unit is read together with the low half of a pair, if that stands behind it. -/
theorem readString_unit {digits : List Char} {n : Nat} (hlength : digits.length = 4)
    (hn : codeUnit? digits = some n) (start : List Char) (fuel : Nat) (out : List Char)
    {rest : List Char}
    (hrest : rest ≠ []) :
    readString start (fuel + 1) out ('\\' :: 'u' :: (digits ++ rest)) =
      match if 0xD800 ≤ n && n ≤ 0xDBFF then lowSurrogate? rest else none with
      | some low => readString start fuel
          (Char.ofNat (0x10000 + (n - 0xD800) * 1024 + (low - 0xDC00)) :: out) (rest.drop 6)
      | none => readString start fuel
          ((if 0xD800 ≤ n && n ≤ 0xDFFF then Char.ofNat 0xFFFD else Char.ofNat n) :: out) rest := by
  have hlong : ¬(digits ++ rest).length ≤ 4 := by
    have := List.length_pos_iff.2 hrest
    rw [List.length_append]
    omega
  cases hlow : if 0xD800 ≤ n && n ≤ 0xDBFF then lowSurrogate? rest else none with
  | none =>
    rw [readString]
    simp only [if_neg hlong, List.take_left' hlength, List.drop_left' hlength, hn, hlow]
  | some low =>
    rw [readString]
    simp only [if_neg hlong, List.take_left' hlength, List.drop_left' hlength, hn, hlow]

/-- The body of a string is read up to the quote that ends it. The text that it means does not
depend on what stands behind this quote. -/
theorem readString_append {body : List Char} (h : IsBody body) (out : List Char) :
    ∃ s, ∀ start fuel rest, body.length < fuel →
      readString start fuel out (body ++ '"' :: rest) = .ok (s, rest) := by
  induction hsize : body.length using Nat.strong_induction_on generalizing body out with
  | _ size ih =>
    subst hsize
    -- What is left of the body is read with less fuel, and has less to be read.
    have hnext {after : List Char} (hafter : IsBody after) (hlt : after.length < body.length)
        (out : List Char) : ∃ s, ∀ start fuel rest, body.length < fuel + 1 →
          readString start fuel out (after ++ '"' :: rest) = .ok (s, rest) := by
      obtain ⟨s, hs⟩ := ih _ hlt hafter out rfl
      exact ⟨s, fun start fuel rest hfuel ↦ hs start fuel rest (by omega)⟩
    have hstep (s : String) (h : ∀ start fuel rest, body.length < fuel + 1 →
        readString start (fuel + 1) out (body ++ '"' :: rest) = .ok (s, rest)) :
        ∃ s, ∀ start fuel rest, body.length < fuel →
          readString start fuel out (body ++ '"' :: rest) = .ok (s, rest) := by
      refine ⟨s, fun start fuel rest hfuel ↦ ?_⟩
      obtain ⟨fuel, rfl⟩ := Nat.exists_eq_add_one_of_ne_zero (Nat.ne_zero_of_lt hfuel)
      exact h start fuel rest hfuel
    cases h with
    | nil => exact hstep (String.ofList out.reverse) fun start fuel rest _ ↦ by simp [readString]
    | @plain c cs hquote hslash hcontrol hcs =>
      obtain ⟨s, hs⟩ := hnext hcs (by simp) (c :: out)
      exact hstep s fun start fuel rest hfuel ↦
        (readString_plain hquote hslash hcontrol ..).trans (hs start fuel rest hfuel)
    | @escape e cs he hcs =>
      obtain ⟨c, hc⟩ := Option.isSome_iff_exists.1 he
      obtain ⟨s, hs⟩ := hnext hcs (by simp only [List.length_cons]; omega) (c :: out)
      exact hstep s fun start fuel rest hfuel ↦
        (readString_escape hc ..).trans (hs start fuel rest hfuel)
    | @unit digits cs hlength hdigits hcs =>
      obtain ⟨n, hn⟩ := codeUnit_of_digits hlength hdigits
      have hread (start : List Char) (fuel : Nat) (rest : List Char) :=
        readString_unit hlength hn start fuel out
          (show cs ++ '"' :: rest ≠ [] from List.append_ne_nil_of_right_ne_nil _ (by simp))
      rcases lowSurrogate_append_of_high (0xD800 ≤ n && n ≤ 0xDBFF) hcs with
        hnone | ⟨low, after, hafter, hlt, hsome⟩
      · obtain ⟨s, hs⟩ := hnext hcs (by simp; omega)
          ((if 0xD800 ≤ n && n ≤ 0xDFFF then Char.ofNat 0xFFFD else Char.ofNat n) :: out)
        refine hstep s fun start fuel rest hfuel ↦ ?_
        rw [List.cons_append, List.cons_append, List.append_assoc, hread, hnone]
        exact hs start fuel rest hfuel
      · obtain ⟨s, hs⟩ := hnext hafter (by simp; omega)
          (Char.ofNat (0x10000 + (n - 0xD800) * 1024 + (low - 0xDC00)) :: out)
        refine hstep s fun start fuel rest hfuel ↦ ?_
        rw [List.cons_append, List.cons_append, List.append_assoc, hread, (hsome rest).1]
        simp only [(hsome rest).2]
        exact hs start fuel rest hfuel

/-! ### Scalars -/

/-- A word is read as the value that it names, whatever follows it. -/
theorem readScalar_word {text : List Char} (h : text ∈ words) :
    ∃ value, ∀ rest, readScalar (text ++ rest) = .ok (value, rest) := by
  rcases List.mem_cons.1 h with rfl | h
  · exact ⟨.null, fun rest ↦ rfl⟩
  rcases List.mem_cons.1 h with rfl | h
  · exact ⟨.bool true, fun rest ↦ rfl⟩
  obtain rfl := List.mem_singleton.1 h
  exact ⟨.bool false, fun rest ↦ rfl⟩

/-- No constant begins with a digit, or with a sign and a digit, so what begins so is read as a
number. -/
theorem readConstant_digit {d : Char} (hd : isDigit d = true) (cs : List Char) :
    readConstant? (d :: cs) = none ∧ readConstant? ('-' :: d :: cs) = none := by
  have hN := ne_of_isDigit hd (c := 'N') rfl
  have hI := ne_of_isDigit hd (c := 'I') rfl
  have hn := ne_of_isDigit hd (c := 'n') rfl
  have ht := ne_of_isDigit hd (c := 't') rfl
  have hf := ne_of_isDigit hd (c := 'f') rfl
  have hminus := ne_of_isDigit hd (c := '-') rfl
  simp [readConstant?, constants, Text.dropFront?, hN.symm, hI.symm, hn.symm, ht.symm, hf.symm,
    hminus.symm]

/-- A number is read to its end, if something follows that cannot continue it. -/
theorem readScalar_number {text : List Char} (h : IsNumber text) :
    ∃ value, ∀ rest, Follows rest → Yields (readScalar (text ++ rest)) value rest := by
  cases h with
  | positive h =>
    obtain ⟨d, cs, rfl, hd⟩ := h.head
    obtain ⟨value, hvalue⟩ := readNumber_append false h
    refine ⟨value, fun rest hrest ↦ ?_⟩
    rw [List.cons_append, readScalar, (readConstant_digit hd _).1]
    · exact hvalue _ rest hrest
    · rintro _ ⟨⟩
      cases hd
    · rintro _ ⟨⟩
      cases hd
  | negative h =>
    obtain ⟨d, cs, rfl, hd⟩ := h.head
    obtain ⟨value, hvalue⟩ := readNumber_append true h
    refine ⟨value, fun rest hrest ↦ ?_⟩
    rw [List.cons_append, List.cons_append, readScalar, (readConstant_digit hd _).2]
    exact hvalue _ rest hrest

/-- A string is read up to its closing quote. -/
theorem readScalar_string {body : List Char} (h : IsBody body) :
    ∃ s, ∀ rest, readScalar ('"' :: (body ++ '"' :: rest)) = .ok (.str s, rest) := by
  obtain ⟨s, hs⟩ := readString_append h []
  refine ⟨s, fun rest ↦ ?_⟩
  rw [readScalar, hs _ _ _ (by simp only [List.length_append, List.length_cons]; omega)]
  rfl

/-! ### Values -/

/-- What the reader makes of the text of a value, whatever follows it. -/
def ReadsValue (text : List Char) (value : Option Json) : Prop :=
  ∀ fuel rest, 2 * text.length ≤ fuel → Follows rest →
    Yields (readValue fuel (text ++ rest)) value rest

/-- What the reader makes of what stands in an array. -/
def ReadsItems (text : List Char) (items : Option (List Json)) : Prop :=
  ∀ fuel out rest, 2 * text.length < fuel →
    Yields (readItems fuel out (text ++ ']' :: rest))
      (items.map fun items ↦ .arr (out.reverse ++ items)) rest

/-- What the reader makes of what stands in an object: a change of the members before it. -/
def ReadsMembers (text : List Char)
    (change : Option (List (String × Json) → List (String × Json))) : Prop :=
  ∀ fuel out rest, 2 * text.length < fuel →
    Yields (readMembers fuel out (text ++ '\x7d' :: rest))
      (change.map fun change ↦ .obj (change out)) rest

/-- Space is skipped up to the first character of a value. -/
theorem Starts.skipSpace {text space : List Char} (h : Starts text) (hspace : IsSpace space)
    (rest : List Char) : skipSpace (space ++ (text ++ rest)) = text ++ rest := by
  obtain ⟨c, cs, rfl, -, hc, -, -⟩ := h
  rw [skipSpace_append hspace, List.cons_append, skipSpace_cons (isSpace_eq_false hc)]

section Reading

variable {text text' space space' : List Char}

/-- A value that is neither an array nor an object is read as a scalar. -/
theorem readsValue_of_readScalar {c : Char} {cs : List Char} {value : Option Json}
    (harray : c ≠ '[')
    (hobject : c ≠ '\x7b')
    (h : ∀ rest, Follows rest → Yields (readScalar (c :: cs ++ rest)) value rest) :
    ReadsValue (c :: cs) value := by
  intro fuel rest hfuel hrest
  obtain ⟨fuel, rfl⟩ : ∃ n, fuel = n + 1 :=
    Nat.exists_eq_add_one_of_ne_zero (by simp at hfuel; omega)
  have hscalar := h rest hrest
  rw [List.cons_append] at hscalar ⊢
  rw [readValue]
  · exact hscalar
  · exact fun _ h ↦ harray (List.cons.inj h).1
  · exact fun _ h ↦ hobject (List.cons.inj h).1

/-- Nothing but space between brackets is an array without items. -/
theorem readsValue_emptyArray (hspace : IsSpace space) :
    ReadsValue ('[' :: (space ++ [']'])) (some (.arr [])) := by
  intro fuel rest hfuel hrest
  obtain ⟨fuel, rfl⟩ : ∃ n, fuel = n + 1 :=
    Nat.exists_eq_add_one_of_ne_zero (by simp at hfuel; omega)
  have hskip : skipSpace (space ++ ([']'] ++ rest)) = ']' :: rest := by
    rw [skipSpace_append hspace, List.singleton_append, skipSpace_cons (by decide)]
  rw [List.cons_append, List.append_assoc, readValue, hskip]
  rfl

/-- An array holds the items that are read between its brackets. -/
theorem readsValue_array (hspace : IsSpace space) (hstarts : Starts text)
    {items : Option (List Json)} (h : ReadsItems text items) :
    ReadsValue ('[' :: (space ++ (text ++ [']']))) (items.map .arr) := by
  intro fuel rest hfuel hrest
  simp only [List.length_cons, List.length_append] at hfuel
  obtain ⟨fuel, rfl⟩ : ∃ n, fuel = n + 1 := Nat.exists_eq_add_one_of_ne_zero (by omega)
  have hskip := hstarts.skipSpace hspace (']' :: rest)
  have hitems := h fuel [] rest (by omega)
  simp only [List.cons_append, List.append_assoc, List.nil_append, readValue, hskip]
  obtain ⟨c, cs, rfl, -, -, hne, -⟩ := hstarts
  split
  · rename_i heq
    exact absurd (List.cons.inj heq).1 hne
  · exact hitems

/-- The last item has nothing but space behind it. -/
theorem readsItems_last {value : Option Json} (h : ReadsValue text value) (hspace : IsSpace space) :
    ReadsItems (text ++ space) (value.map fun value ↦ [value]) := by
  intro fuel out rest hfuel
  rw [List.length_append] at hfuel
  obtain ⟨fuel, rfl⟩ : ∃ n, fuel = n + 1 := Nat.exists_eq_add_one_of_ne_zero (by omega)
  have hvalue := h fuel (space ++ ']' :: rest) (by omega)
    (follows_space_append hspace (.inr (.inl rfl)) rest)
  rw [List.append_assoc, readItems]
  cases value with
  | none =>
    obtain ⟨place, hplace⟩ := hvalue
    exact ⟨place, by rw [hplace]⟩
  | some value =>
    rw [show readValue fuel (text ++ (space ++ ']' :: rest)) = _ from hvalue]
    simp only [skipSpace_append hspace, skipSpace_cons (show isSpace ']' = false from rfl)]
    simp [Yields]

/-- Behind an item and a comma the other items are read. -/
theorem readsItems_more {value : Option Json} {items : Option (List Json)}
    (hvalue : ReadsValue text value) (hspace : IsSpace space) (hspace' : IsSpace space')
    (hstarts : Starts text') (hitems : ReadsItems text' items) :
    ReadsItems (text ++ (space ++ ',' :: (space' ++ text')))
      (value.bind fun value ↦ items.map (value :: ·)) := by
  intro fuel out rest hfuel
  simp only [List.length_append, List.length_cons] at hfuel
  obtain ⟨fuel, rfl⟩ : ∃ n, fuel = n + 1 := Nat.exists_eq_add_one_of_ne_zero (by omega)
  have hvalue := hvalue fuel (space ++ ',' :: (space' ++ (text' ++ ']' :: rest))) (by omega)
    (follows_space_append hspace (.inl rfl) _)
  simp only [List.append_assoc, List.cons_append]
  rw [readItems]
  cases value with
  | none =>
    obtain ⟨place, hplace⟩ := hvalue
    exact ⟨place, by rw [hplace]⟩
  | some value =>
    rw [show readValue fuel (text ++ (space ++ ',' :: (space' ++ (text' ++ ']' :: rest)))) = _ from
      hvalue]
    simp only [skipSpace_append hspace, skipSpace_cons (show isSpace ',' = false from rfl),
      hstarts.skipSpace hspace']
    have hitems := hitems fuel (value :: out) rest (by omega)
    cases items with
    | none => exact hitems
    | some items => simpa [Yields] using hitems

end Reading

section Members

variable {body before after text space : List Char} {name : String}

/-- The name that a string means. -/
def ReadsName (body : List Char) (name : String) : Prop :=
  ∀ start fuel rest, body.length < fuel →
    readString start fuel [] (body ++ '"' :: rest) = .ok (name, rest)

/-- Behind its name the value of a member is read, and the member is set. -/
theorem readMembers_name (hname : ReadsName body name) (hbefore : IsSpace before)
    (hafter : IsSpace after) (hstarts : Starts text) (fuel : Nat) (out : List (String × Json))
    (rest : List Char) :
    readMembers (fuel + 1) out
        ('"' :: (body ++ '"' :: (before ++ ':' :: after)) ++ (text ++ rest)) =
      match readValue fuel (text ++ rest) with
      | .error e => .error e
      | .ok (value, rest) =>
        match skipSpace rest with
        | '\x7d' :: after => .ok (.obj (setMember name value out), after)
        | ',' :: after => readMembers fuel (setMember name value out) (skipSpace after)
        | other => .error (.commaExpected, other) := by
  have hread := hname ('"' :: (body ++ '"' :: (before ++ ':' :: (after ++ (text ++ rest)))))
    ((body ++ '"' :: (before ++ ':' :: (after ++ (text ++ rest)))).length + 1)
    (before ++ ':' :: (after ++ (text ++ rest)))
    (by simp only [List.length_append, List.length_cons]; omega)
  have hcolon : skipSpace (before ++ ':' :: (after ++ (text ++ rest))) =
      ':' :: (after ++ (text ++ rest)) := by
    rw [skipSpace_append hbefore, skipSpace_cons (show isSpace ':' = false from rfl)]
  have hvalue : readValue fuel (text ++ rest) =
      readValue fuel (skipSpace (after ++ (text ++ rest))) := by
    rw [hstarts.skipSpace hafter]
  simp only [List.cons_append, List.append_assoc]
  rw [readMembers, hread, hvalue]
  dsimp only
  exact hcolon.symm ▸ rfl

/-- The last member has nothing but space behind its value. -/
theorem readsMembers_last (hname : ReadsName body name) (hbefore : IsSpace before)
    (hafter : IsSpace after) (hstarts : Starts text) {value : Option Json}
    (h : ReadsValue text value) (hspace : IsSpace space) :
    ReadsMembers ('"' :: (body ++ '"' :: (before ++ ':' :: after)) ++ (text ++ space))
      (value.map (setMember name)) := by
  intro fuel out rest hfuel
  simp only [List.length_append] at hfuel
  obtain ⟨fuel, rfl⟩ : ∃ n, fuel = n + 1 := Nat.exists_eq_add_one_of_ne_zero (by omega)
  have hvalue := h fuel (space ++ '\x7d' :: rest) (by omega)
    (follows_space_append hspace (.inr (.inr rfl)) rest)
  rw [List.append_assoc, List.append_assoc, readMembers_name hname hbefore hafter hstarts]
  cases value with
  | none =>
    obtain ⟨place, hplace⟩ := hvalue
    exact ⟨place, by rw [hplace]⟩
  | some value =>
    rw [show readValue fuel (text ++ (space ++ '\x7d' :: rest)) = _ from hvalue]
    simp only [skipSpace_append hspace, skipSpace_cons (show isSpace '\x7d' = false from rfl)]
    rfl

/-- Behind a member and a comma the other members are read. They are set after it, so the last one
of a name counts. -/
theorem readsMembers_more (hname : ReadsName body name) (hbefore : IsSpace before)
    (hafter : IsSpace after) (hstarts : Starts text) {value : Option Json}
    (hvalue : ReadsValue text value) (hspace : IsSpace space) {space' text' : List Char}
    (hspace' : IsSpace space') (hstarts' : Starts text')
    {change : Option (List (String × Json) → List (String × Json))}
    (h : ReadsMembers text' change) :
    ReadsMembers ('"' :: (body ++ '"' :: (before ++ ':' :: after)) ++
        (text ++ (space ++ ',' :: (space' ++ text'))))
      (value.bind fun value ↦ change.map fun change ↦ change ∘ setMember name value) := by
  intro fuel out rest hfuel
  simp only [List.length_append, List.length_cons] at hfuel
  obtain ⟨fuel, rfl⟩ : ∃ n, fuel = n + 1 := Nat.exists_eq_add_one_of_ne_zero (by omega)
  have hvalue := hvalue fuel (space ++ ',' :: (space' ++ (text' ++ '\x7d' :: rest))) (by omega)
    (follows_space_append hspace (.inl rfl) _)
  rw [List.append_assoc, List.append_assoc, readMembers_name hname hbefore hafter hstarts]
  simp only [List.append_assoc, List.cons_append]
  cases value with
  | none =>
    obtain ⟨place, hplace⟩ := hvalue
    exact ⟨place, by rw [hplace]⟩
  | some value =>
    rw [show readValue fuel
        (text ++ (space ++ ',' :: (space' ++ (text' ++ '\x7d' :: rest)))) = _ from
      hvalue]
    simp only [skipSpace_append hspace, skipSpace_cons (show isSpace ',' = false from rfl),
      hstarts'.skipSpace hspace']
    have hchange := h fuel (setMember name value out) rest (by omega)
    cases change with
    | none => exact hchange
    | some change => exact hchange

theorem readsValue_emptyObject (hspace : IsSpace space) :
    ReadsValue ('\x7b' :: (space ++ ['\x7d'])) (some (.obj [])) := by
  intro fuel rest hfuel hrest
  obtain ⟨fuel, rfl⟩ : ∃ n, fuel = n + 1 :=
    Nat.exists_eq_add_one_of_ne_zero (by simp at hfuel; omega)
  have hskip : skipSpace (space ++ (['\x7d'] ++ rest)) = '\x7d' :: rest := by
    rw [skipSpace_append hspace, List.singleton_append, skipSpace_cons (by decide)]
  rw [List.cons_append, List.append_assoc, readValue, hskip]
  rfl

/-- An object holds the members that are read between its braces. -/
theorem readsValue_object (hspace : IsSpace space) (hstarts : Starts text)
    {change : Option (List (String × Json) → List (String × Json))} (h : ReadsMembers text change) :
    ReadsValue ('\x7b' :: (space ++ (text ++ ['\x7d'])))
      (change.map fun change ↦ .obj (change [])) := by
  intro fuel rest hfuel hrest
  simp only [List.length_cons, List.length_append] at hfuel
  obtain ⟨fuel, rfl⟩ : ∃ n, fuel = n + 1 := Nat.exists_eq_add_one_of_ne_zero (by omega)
  have hskip := hstarts.skipSpace hspace ('\x7d' :: rest)
  have hmembers := h fuel [] rest (by omega)
  simp only [List.cons_append, List.append_assoc, List.nil_append, readValue, hskip]
  obtain ⟨c, cs, rfl, -, -, -, hne⟩ := hstarts
  split
  · rename_i heq
    exact absurd (List.cons.inj heq).1 hne
  · exact hmembers

end Members

/-! ### Line ends -/

/-- The reader makes the same of two texts of a part. -/
def ReadAlike : Part → List Char → List Char → Prop
  | .value, text, text' => ∃ value, ReadsValue text value ∧ ReadsValue text' value
  | .entries .array, text, text' => ∃ items, ReadsItems text items ∧ ReadsItems text' items
  | .entries .object, text, text' => ∃ change, ReadsMembers text change ∧ ReadsMembers text' change

/-- Space with other line ends is still space. -/
theorem IsSpace.readLines {space : List Char} (h : IsSpace space) :
    IsSpace (Text.readLines space) := by
  intro c hc
  rcases Text.eq_or_mem_of_mem_readLines hc with rfl | hc
  · rfl
  · exact h c hc

/-- No value begins with a line feed, so a carriage return in front of one is a line end by itself.
-/
theorem Starts.head?_ne {text : List Char} (h : Starts text) (rest : List Char) :
    (text ++ rest).head? ≠ some '\n' := by
  obtain ⟨c, cs, rfl, -, hc, -, -⟩ := h
  rintro ⟨⟩
  cases hc

/-- With a line feed for each line end a part is still a part with the same strings, and it is read
alike. -/
structure Relined (part : Part) (text text' : List Char) (strings : List (List Char)) : Prop where
  spelled : Spelled part text' strings
  alike : ReadAlike part text text'
  lines : ∀ rest, part = .value ∨ rest.head? ≠ some '\n' →
    Text.readLines (text ++ rest) = text' ++ Text.readLines rest

/-- A scalar has no line ends, and it is left as it is. -/
theorem relined_scalar {text : List Char} {strings : List (List Char)}
    (h : Spelled .value text strings) (hmem : '\r' ∉ text) {value : Option Json}
    (hread : ReadsValue text value) : Relined .value text text strings where
  spelled := h
  alike := ⟨value, hread, hread⟩
  lines rest _ := Text.readLines_append_of_not_mem hmem rest

/-- Words have no line ends. -/
theorem relined_word {text : List Char} (h : text ∈ words) : Relined .value text text [] := by
  obtain ⟨value, hvalue⟩ := readScalar_word h
  have hread : ReadsValue text (some value) := by
    have hscalar (rest : List Char) (_ : Follows rest) :
        Yields (readScalar (text ++ rest)) (some value) rest := hvalue rest
    simp only [words, List.mem_cons, List.not_mem_nil, or_false] at h
    rcases h with rfl | rfl | rfl <;>
      exact readsValue_of_readScalar (by decide) (by decide) hscalar
  exact relined_scalar (.word h) (fun hmem ↦ (bare_of_mem_words h _ hmem).2.2.2 rfl) hread

/-- Numbers have no line ends. -/
theorem relined_number {text : List Char} (h : IsNumber text) : Relined .value text text [] := by
  obtain ⟨value, hvalue⟩ := readScalar_number h
  have hread : ReadsValue text value := by
    cases h with
    | positive h =>
      obtain ⟨d, cs, rfl, hd⟩ := h.head
      exact readsValue_of_readScalar (ne_of_isDigit hd rfl) (ne_of_isDigit hd rfl) hvalue
    | negative h => exact readsValue_of_readScalar (by decide) (by decide) hvalue
  exact relined_scalar (.number h) (fun hmem ↦ (h.bare _ hmem).2.2.2 rfl) hread

/-- A string cannot hold a line end, so it is the same with all line ends replaced. -/
theorem relined_string {body : List Char} (h : IsBody body) :
    Relined .value ('"' :: (body ++ ['"'])) ('"' :: (body ++ ['"'])) [body] := by
  obtain ⟨s, hs⟩ := readScalar_string h
  have hread : ReadsValue ('"' :: (body ++ ['"'])) (some (.str s)) := by
    refine readsValue_of_readScalar (by decide) (by decide) fun rest _ ↦ ?_
    rw [List.cons_append, List.append_assoc]
    exact hs rest
  exact relined_scalar (.string h) (by simp [h.not_mem]) hread

/-- Line ends between brackets are replaced by themselves: the brackets are no part of a line end.
-/
theorem readLines_brackets {opener closer : Char} (hopener : opener ≠ '\r')
    (hcloser : closer ≠ '\r')
    {inner inner' : List Char} (rest : List Char)
    (h : Text.readLines (inner ++ closer :: rest) = inner' ++ Text.readLines (closer :: rest)) :
    Text.readLines (opener :: (inner ++ [closer]) ++ rest) =
      opener :: (inner' ++ [closer]) ++ Text.readLines rest := by
  rw [List.cons_append, Text.readLines_cons hopener, List.append_assoc, List.singleton_append, h,
    Text.readLines_cons hcloser]
  simp

/-- An array or object without entries is still one when its line ends are replaced. -/
theorem relined_empty {space : List Char} (holder : Holder) (h : IsSpace space) :
    ∃ text', Relined .value (holder.opener :: (space ++ [holder.closer])) text' [] := by
  refine ⟨_, .empty holder h.readLines, ?_, fun rest _ ↦ ?_⟩
  · cases holder with
    | array => exact ⟨_, readsValue_emptyArray h, readsValue_emptyArray h.readLines⟩
    | object => exact ⟨_, readsValue_emptyObject h, readsValue_emptyObject h.readLines⟩
  · cases holder <;> exact readLines_brackets (by decide) (by decide) rest
      (Text.readLines_append (by simp [Holder.closer]) space)

/-- An array or object with entries is read alike if its entries are. -/
theorem Relined.filled {holder : Holder} {space text text' : List Char} {strings : List (List Char)}
    (hspace : IsSpace space) (hstarts : Starts text)
    (h : Relined (.entries holder) text text' strings) :
    ∃ text',
      Relined .value (holder.opener :: (space ++ (text ++ [holder.closer]))) text' strings := by
  refine ⟨_, .filled holder hspace.readLines h.spelled, ?_, fun rest _ ↦ ?_⟩
  · have hstarts' := h.spelled.starts
    cases holder with
    | array =>
      obtain ⟨items, hitems, hitems'⟩ := h.alike
      exact ⟨_, readsValue_array hspace hstarts hitems,
        readsValue_array hspace.readLines hstarts' hitems'⟩
    | object =>
      obtain ⟨change, hchange, hchange'⟩ := h.alike
      exact ⟨_, readsValue_object hspace hstarts hchange,
        readsValue_object hspace.readLines hstarts' hchange'⟩
  · have hinner : Text.readLines (space ++ text ++ holder.closer :: rest) =
        Text.readLines space ++ text' ++ Text.readLines (holder.closer :: rest) := by
      rw [List.append_assoc, Text.readLines_append (hstarts.head?_ne _), h.lines, List.append_assoc]
      exact .inr (by cases holder <;> simp [Holder.closer])
    rw [← List.append_assoc, ← List.append_assoc]
    cases holder <;> exact readLines_brackets (by decide) (by decide) rest hinner

/-- Line ends around the colon of a member are replaced by themselves. -/
theorem readLines_name {body : List Char} (h : IsBody body) (before after : List Char)
    {rest : List Char} (hrest : rest.head? ≠ some '\n') :
    Text.readLines ('"' :: (body ++ '"' :: (before ++ ':' :: after)) ++ rest) =
      '"' :: (body ++ '"' :: (Text.readLines before ++ ':' :: Text.readLines after)) ++
        Text.readLines rest := by
  simp only [List.cons_append, List.append_assoc]
  rw [Text.readLines_cons (by decide), Text.readLines_append_of_not_mem h.not_mem,
    Text.readLines_cons (by decide), Text.readLines_append (by simp),
    Text.readLines_cons (by decide), Text.readLines_append hrest]

/-- The last entry of an array or object is read alike if its value is. -/
theorem Relined.last {holder : Holder} {label text text' space : List Char}
    {names strings : List (List Char)} (hlabel : Label holder label names)
    (h : Relined .value text text' strings) (hstarts : Starts text) (hspace : IsSpace space) :
    ∃ text', Relined (.entries holder) (label ++ (text ++ space)) text' (names ++ strings) := by
  obtain ⟨value, hvalue, hvalue'⟩ := h.alike
  have hlines (rest : List Char) (hrest : rest.head? ≠ some '\n') :
      Text.readLines (text ++ space ++ rest) =
        text' ++ Text.readLines space ++ Text.readLines rest := by
    rw [List.append_assoc, h.lines _ (.inl rfl), Text.readLines_append hrest, List.append_assoc]
  cases hlabel with
  | item =>
    have hitems := readsItems_last hvalue hspace
    have hitems' := readsItems_last hvalue' hspace.readLines
    exact ⟨_, .last .item h.spelled hspace.readLines, ⟨_, hitems, hitems'⟩,
      fun rest hrest ↦ hlines rest (hrest.resolve_left nofun)⟩
  | name hbody hbefore hafter =>
    obtain ⟨name, hname⟩ := readString_append hbody []
    refine ⟨_, .last (.name hbody hbefore.readLines hafter.readLines) h.spelled hspace.readLines,
      ⟨_, readsMembers_last hname hbefore hafter hstarts hvalue hspace,
        readsMembers_last hname hbefore.readLines hafter.readLines h.spelled.starts hvalue'
          hspace.readLines⟩, fun rest hrest ↦ ?_⟩
    have hhead : (text ++ space ++ rest).head? ≠ some '\n' := by
      rw [List.append_assoc]
      exact hstarts.head?_ne _
    rw [List.append_assoc, readLines_name hbody _ _ hhead, hlines rest (hrest.resolve_left nofun),
      ← List.append_assoc]

/-- An entry with others behind it is read alike if its value and the others are. -/
theorem Relined.more {holder : Holder} {label text text' before after others others' : List Char}
    {names strings strings' : List (List Char)} (hlabel : Label holder label names)
    (h : Relined .value text text' strings) (hstarts : Starts text) (hbefore : IsSpace before)
    (hafter : IsSpace after) (hothers : Relined (.entries holder) others others' strings')
    (hstarts' : Starts others) :
    ∃ text', Relined (.entries holder)
      (label ++ (text ++ (before ++ ',' :: (after ++ others)))) text'
      (names ++ (strings ++ strings')) := by
  obtain ⟨value, hvalue, hvalue'⟩ := h.alike
  -- lines end in the same places, whatever the label is
  have hlines (rest : List Char) (hrest : rest.head? ≠ some '\n') :
      Text.readLines (text ++ (before ++ ',' :: (after ++ others)) ++ rest) =
        text' ++ (Text.readLines before ++ ',' :: (Text.readLines after ++ others')) ++
          Text.readLines rest := by
    simp only [List.append_assoc, List.cons_append]
    rw [h.lines _ (.inl rfl), Text.readLines_append (by simp), Text.readLines_cons (by decide),
      Text.readLines_append (hstarts'.head?_ne _), hothers.lines _ (.inr hrest)]
  cases hlabel with
  | item =>
    obtain ⟨items, hitems, hitems'⟩ := hothers.alike
    have hmore := readsItems_more hvalue hbefore hafter hstarts' hitems
    have hmore' := readsItems_more hvalue' hbefore.readLines hafter.readLines hothers.spelled.starts
      hitems'
    exact ⟨_, .more .item h.spelled hbefore.readLines hafter.readLines hothers.spelled,
      ⟨_, hmore, hmore'⟩, fun rest hrest ↦ hlines rest (hrest.resolve_left nofun)⟩
  | name hbody hbefore' hafter' =>
    obtain ⟨name, hname⟩ := readString_append hbody []
    obtain ⟨change, hchange, hchange'⟩ := hothers.alike
    refine ⟨_, .more (.name hbody hbefore'.readLines hafter'.readLines) h.spelled hbefore.readLines
      hafter.readLines hothers.spelled,
      ⟨_, readsMembers_more hname hbefore' hafter' hstarts hvalue hbefore hafter hstarts' hchange,
        readsMembers_more hname hbefore'.readLines hafter'.readLines h.spelled.starts hvalue'
          hbefore.readLines hafter.readLines hothers.spelled.starts hchange'⟩, fun rest hrest ↦ ?_⟩
    have hhead : (text ++ (before ++ ',' :: (after ++ others)) ++ rest).head? ≠ some '\n' := by
      rw [List.append_assoc]
      exact hstarts.head?_ne _
    rw [List.append_assoc, readLines_name hbody _ _ hhead, hlines rest (hrest.resolve_left nofun),
      ← List.append_assoc]

/-- Every part that is spelled by the grammar is read alike with its line ends replaced. The
induction is on how the part is spelled. -/
theorem Spelled.relined {part : Part} {text : List Char} {strings : List (List Char)}
    (h : Spelled part text strings) : ∃ text', Relined part text text' strings := by
  induction h with
  | word h => exact ⟨_, relined_word h⟩
  | number h => exact ⟨_, relined_number h⟩
  | string h => exact ⟨_, relined_string h⟩
  | empty holder hspace => exact relined_empty holder hspace
  | filled holder hspace h ih =>
    obtain ⟨text', htext'⟩ := ih
    exact htext'.filled hspace h.starts
  | last hlabel h hspace ih =>
    obtain ⟨text', htext'⟩ := ih
    exact htext'.last hlabel h.starts hspace
  | more hlabel h hbefore hafter hothers ih ihothers =>
    obtain ⟨text', htext'⟩ := ih
    obtain ⟨others', hothers'⟩ := ihothers
    exact htext'.more hlabel h.starts hbefore hafter hothers' hothers.starts

/-! ### Documents -/

/-- What reading a document yields: a value, or, if none is given, that a whole number is too
long. -/
def Settles (result : Except Fault Json) : Option Json → Prop
  | some value => result = .ok value
  | none => ∃ fault, result = .error fault ∧ fault.problem = .hugeInteger

/-- A document consists of a value with space around it. -/
theorem parse_of_readsValue {before text after : List Char} {value : Option Json}
    (hbefore : IsSpace before) (hstarts : Starts text) (h : ReadsValue text value)
    (hafter : IsSpace after) : Settles (parse (before ++ (text ++ after))) value := by
  have hhead : ∀ c ∈ (before ++ (text ++ after)).head?, c.toNat ≠ 0xFEFF := by
    cases before with
    | nil =>
      obtain ⟨c, cs, rfl, hc, -⟩ := hstarts
      rintro _ ⟨⟩
      omega
    | cons b before =>
      rintro _ ⟨⟩ hmark
      have hb := hbefore b List.mem_cons_self
      simp only [isSpace, Bool.or_eq_true, beq_iff_eq] at hb
      rcases hb with ((rfl | rfl) | rfl) | rfl <;> cases hmark
  have hfollows : Follows after := fun c hc ↦ .inl (hafter c (List.mem_of_mem_head? hc))
  have hvalue := h (2 * (before ++ (text ++ after)).length + 2) after
    (by simp only [List.length_append]; omega) hfollows
  have hend : skipSpace after = [] := by
    rw [← List.append_nil after, skipSpace_append hafter]
    rfl
  -- the mark of an encoding is looked for first, and `hhead` says that there is none
  obtain ⟨place, hplace, hparse⟩ : ∃ place,
      (∀ problem rest, (place problem rest).problem = problem) ∧
      parse (before ++ (text ++ after)) = parse.body (before ++ (text ++ after)) place := by
    refine ⟨fun problem rest ↦ ⟨problem, (before ++ (text ++ after)).length - rest.length⟩,
      fun _ _ ↦ rfl, ?_⟩
    unfold parse
    simp only
    split
    · rename_i c cs hcons
      rw [if_neg (by simpa using hhead c (by simp [hcons]))]
    · rfl
  rw [hparse, parse.body, hstarts.skipSpace hbefore]
  cases value with
  | none =>
    obtain ⟨rest, hrest⟩ := hvalue
    exact ⟨_, by rw [hrest], hplace _ _⟩
  | some value =>
    rw [show readValue _ (text ++ after) = _ from hvalue]
    simp only [hend]
    rfl

/-- What is read of members is an object. -/
theorem readMembers_obj {fuel : Nat} {out : List (String × Json)} {cs rest : List Char}
    {value : Json} (h : readMembers fuel out cs = .ok (value, rest)) :
    ∃ members, value = .obj members := by
  induction fuel generalizing out cs with
  | zero => cases h
  | succ fuel ih =>
    unfold readMembers at h
    split at h
    · split at h
      · cases h
      · split at h
        · split at h
          · cases h
          · simp only at h
            split at h
            · exact ⟨_, (Prod.mk.inj (Except.ok.inj h)).1.symm⟩
            · exact ih h
            · cases h
        · cases h
    · cases h

/-- The value of a text that begins with an opening brace is an object. -/
theorem obj_of_parse {cs : List Char} {value : Json} (hroot : (skipSpace cs).head? = some '\x7b')
    (h : parse cs = .ok value) : ∃ members, value = .obj members := by
  obtain ⟨rest, hrest⟩ : ∃ rest, skipSpace cs = '\x7b' :: rest := by
    rcases hskip : skipSpace cs with - | ⟨c, rest⟩
    · rw [hskip] at hroot
      cases hroot
    · rw [hskip] at hroot
      exact ⟨rest, by rw [Option.some.inj hroot]⟩
  have hbody (place : Problem → List Char → Fault) (h : parse.body cs place = .ok value) :
      ∃ members, value = .obj members := by
    rw [parse.body, hrest, readValue] at h
    split at h
    · cases h
    · rename_i found left hfound
      obtain rfl : found = value := by
        split at h
        · exact Except.ok.inj h
        · cases h
      split at hfound
      · exact ⟨_, (Prod.mk.inj (Except.ok.inj hfound)).1.symm⟩
      · exact readMembers_obj hfound
  unfold parse at h
  simp only at h
  split at h
  · split at h
    · cases h
    · exact hbody _ h
  · exact hbody _ h

/-- Space counts for nothing, and so do line ends, in what a text begins with. -/
theorem head?_skipSpace_readLines (cs : List Char) :
    (skipSpace (Text.readLines cs)).head? = (skipSpace cs).head? := by
  fun_induction Text.readLines cs with
  | case1 => rfl
  | case2 cs ih => exact ih
  | case3 cs _ ih => exact ih
  | case4 c cs _ _ ih =>
    by_cases hc : isSpace c = true
    · simpa [skipSpace, hc] using ih
    · rw [Bool.not_eq_true] at hc
      rw [skipSpace_cons hc, skipSpace_cons hc]
      rfl

/-- A document is read as a value unless a whole number is too long, and its line ends do not
matter. -/
theorem parse_document {text : List Char} {strings : List (List Char)} (h : Document text strings) :
    Document (Text.readLines text) strings ∧
      ∃ value, Settles (parse text) value ∧ Settles (parse (Text.readLines text)) value := by
  obtain ⟨hbefore, htext, hafter⟩ := h
  obtain ⟨text', hspelled, ⟨value, hvalue, hvalue'⟩, hlines⟩ := htext.relined
  rw [Text.readLines_append (htext.starts.head?_ne _), hlines _ (.inl rfl)]
  exact ⟨.mk hbefore.readLines hspelled hafter.readLines, value,
    parse_of_readsValue hbefore htext.starts hvalue hafter,
    parse_of_readsValue hbefore.readLines hspelled.starts hvalue' hafter.readLines⟩

end RepoSurvey.Json
