import RepoSurvey.Json.Reader
import RepoSurvey.Proofs.Text.Pieces

/-!
# The grammar of JSON

The grammar of RFC 8259 over the characters of a text. `Spelled` has one constructor for each way in
which a part of a document can be written; beside the text it keeps what stands between the quotes
of each string, in order.

Line ends are space, and no string holds one as it stands: with a line feed for each line end a
document is still a document, with the same strings (`Spelled.readLines`).
-/

namespace RepoSurvey.Json

/-! ### The grammar -/

/-- Only space between tokens. -/
def IsSpace (cs : List Char) : Prop := ∀ c ∈ cs, isSpace c = true

/-- Digits, and at least one. -/
def IsDigits (cs : List Char) : Prop := cs ≠ [] ∧ ∀ c ∈ cs, isDigit c = true

/-- The whole part of a number: no digit stands behind a zero in front. -/
inductive IsWhole : List Char → Prop
  | zero : IsWhole ['0']
  | digits {cs : List Char} : IsDigits cs → cs.head? ≠ some '0' → IsWhole cs

/-- The fraction of a number, if it has one. -/
inductive IsFraction : List Char → Prop
  | absent : IsFraction []
  | present {places : List Char} : IsDigits places → IsFraction ('.' :: places)

/-- The exponent of a number, if it has one. -/
inductive IsExponent : List Char → Prop
  | absent : IsExponent []
  | present {mark : Char} {sign digits : List Char} : mark = 'e' ∨ mark = 'E' →
      sign = [] ∨ sign = ['-'] ∨ sign = ['+'] → IsDigits digits →
      IsExponent (mark :: (sign ++ digits))

/-- A number behind its sign. -/
inductive IsUnsigned : List Char → Prop
  | mk {whole fraction exponent : List Char} : IsWhole whole → IsFraction fraction →
      IsExponent exponent → IsUnsigned (whole ++ (fraction ++ exponent))

/-- A number. -/
inductive IsNumber : List Char → Prop
  | positive {cs : List Char} : IsUnsigned cs → IsNumber cs
  | negative {cs : List Char} : IsUnsigned cs → IsNumber ('-' :: cs)

/-- The words that the standard allows. -/
def words : List (List Char) := ["null".toList, "true".toList, "false".toList]

/-- What may stand between the quotes of a string. -/
inductive IsBody : List Char → Prop
  | nil : IsBody []
  | plain {c : Char} {cs : List Char} : c ≠ '"' → c ≠ '\\' → 0x1F < c.toNat → IsBody cs →
      IsBody (c :: cs)
  | escape {e : Char} {cs : List Char} : (escaped? e).isSome → IsBody cs → IsBody ('\\' :: e :: cs)
  | unit {digits cs : List Char} : digits.length = 4 → (∀ c ∈ digits, (Text.hexDigit? c).isSome) →
      IsBody cs → IsBody ('\\' :: 'u' :: (digits ++ cs))

/-- The two kinds of values that hold others. -/
inductive Holder where
  | array
  | object
deriving DecidableEq, Repr

/-- The bracket in front of what is held. -/
def Holder.opener : Holder → Char
  | .array => '['
  | .object => '\x7b'

/-- The bracket behind what is held. -/
def Holder.closer : Holder → Char
  | .array => ']'
  | .object => '\x7d'

/-- What stands in front of a value that is held: nothing in an array, the name in an object. -/
inductive Label : Holder → List Char → List (List Char) → Prop
  | item : Label .array [] []
  | name {body before after : List Char} : IsBody body → IsSpace before → IsSpace after →
      Label .object ('"' :: (body ++ '"' :: (before ++ ':' :: after))) [body]

/-- The parts of a document that are built from one another. -/
inductive Part where
  | value
  /-- What stands between two brackets, apart from the space in front. -/
  | entries (holder : Holder)
deriving DecidableEq, Repr

/-- A text is a part of a JSON document, with these texts between the quotes of its strings. -/
inductive Spelled : Part → List Char → List (List Char) → Prop
  | word {text : List Char} : text ∈ words → Spelled .value text []
  | number {text : List Char} : IsNumber text → Spelled .value text []
  | string {body : List Char} : IsBody body → Spelled .value ('"' :: (body ++ ['"'])) [body]
  | empty {space : List Char} (holder : Holder) : IsSpace space →
      Spelled .value (holder.opener :: (space ++ [holder.closer])) []
  | filled {space text : List Char} {strings : List (List Char)} (holder : Holder) : IsSpace space →
      Spelled (.entries holder) text strings →
      Spelled .value (holder.opener :: (space ++ (text ++ [holder.closer]))) strings
  | last {holder : Holder} {label text space : List Char} {names strings : List (List Char)} :
      Label holder label names → Spelled .value text strings → IsSpace space →
      Spelled (.entries holder) (label ++ (text ++ space)) (names ++ strings)
  | more {holder : Holder} {label text before after rest : List Char}
      {names strings others : List (List Char)} :
      Label holder label names → Spelled .value text strings → IsSpace before → IsSpace after →
      Spelled (.entries holder) rest others →
      Spelled (.entries holder) (label ++ (text ++ (before ++ ',' :: (after ++ rest))))
        (names ++ (strings ++ others))

/-- A text is a JSON document, with these texts between the quotes of its strings. -/
inductive Document : List Char → List (List Char) → Prop
  | mk {before text after : List Char} {strings : List (List Char)} : IsSpace before →
      Spelled .value text strings → IsSpace after → Document (before ++ (text ++ after)) strings

/-! ### Characters -/

/-- No character that means something to a scanner of comments, strings, commas or line ends. -/
def Bare (text : List Char) : Prop := ∀ c ∈ text, c ≠ '"' ∧ c ≠ '/' ∧ c ≠ ',' ∧ c ≠ '\r'

theorem Bare.append {as bs : List Char} (has : Bare as) (hbs : Bare bs) : Bare (as ++ bs) :=
  List.forall_mem_append.2 ⟨has, hbs⟩

theorem Bare.cons {c : Char} {cs : List Char} (hc : c ≠ '"' ∧ c ≠ '/' ∧ c ≠ ',' ∧ c ≠ '\r')
    (hcs : Bare cs) : Bare (c :: cs) :=
  List.forall_mem_cons.2 ⟨hc, hcs⟩

theorem bare_nil : Bare [] := List.forall_mem_nil _

theorem ne_of_isDigit {c d : Char} (hd : isDigit d = true) (hc : isDigit c = false) : d ≠ c := by
  rintro rfl
  cases hd.symm.trans hc

theorem IsDigits.bare {digits : List Char} (h : IsDigits digits) : Bare digits := fun c hc ↦
  ⟨ne_of_isDigit (h.2 c hc) rfl, ne_of_isDigit (h.2 c hc) rfl, ne_of_isDigit (h.2 c hc) rfl,
    ne_of_isDigit (h.2 c hc) rfl⟩

/-- A number is bare: it has digits, a point, and perhaps signs and the mark of an exponent. -/
theorem IsUnsigned.bare {text : List Char} (h : IsUnsigned text) : Bare text := by
  obtain ⟨hwhole, hfraction, hexponent⟩ := h
  refine .append ?_ (.append ?_ ?_)
  · cases hwhole with
    | zero => exact .cons (by decide) bare_nil
    | digits hdigits => exact hdigits.bare
  · cases hfraction with
    | absent => exact bare_nil
    | present hdigits => exact .cons (by decide) hdigits.bare
  · cases hexponent with
    | absent => exact bare_nil
    | present hmark hsign hdigits =>
      refine .cons (by rcases hmark with rfl | rfl <;> decide) (.append ?_ hdigits.bare)
      rcases hsign with rfl | rfl | rfl
      · exact bare_nil
      · exact .cons (by decide) bare_nil
      · exact .cons (by decide) bare_nil

/-- So is a number with a sign. -/
theorem IsNumber.bare {text : List Char} (h : IsNumber text) : Bare text := by
  cases h with
  | positive h => exact h.bare
  | negative h => exact .cons (by decide) h.bare

theorem bare_of_mem_words {text : List Char} (h : text ∈ words) : Bare text := by
  have hall : ∀ text ∈ words,
      text.all (fun c ↦ c ≠ '"' ∧ c ≠ '/' ∧ c ≠ ',' ∧ c ≠ '\r') = true := by decide
  exact fun c hc ↦ of_decide_eq_true (List.all_eq_true.1 (hall text h) c hc)

/-- No string holds a carriage return as it is. -/
theorem IsBody.not_mem {body : List Char} (h : IsBody body) : '\r' ∉ body := by
  induction h with
  | nil => exact List.not_mem_nil
  | @plain c _ _ _ hcontrol _ ih =>
    have hc : '\r' ≠ c := by rintro rfl; exact absurd hcontrol (by decide)
    simp [hc, ih]
  | @escape e _ he _ ih =>
    have hc : '\r' ≠ e := by rintro rfl; cases he
    simp [hc, ih]
  | @unit digits _ _ hdigits _ ih =>
    have hc : '\r' ∉ digits := fun hmem ↦ absurd (hdigits _ hmem) (by decide)
    simp [hc, ih]

/-! ### First characters -/

/-- A text begins with an ASCII character that is neither blank nor a closing bracket. -/
def Starts (text : List Char) : Prop :=
  ∃ c cs, text = c :: cs ∧ c.toNat < 128 ∧ Text.isBlank c = false ∧ c ≠ ']' ∧ c ≠ '\x7d'

theorem Starts.append {text : List Char} (h : Starts text) (rest : List Char) :
    Starts (text ++ rest) := by
  obtain ⟨c, cs, rfl, hc⟩ := h
  exact ⟨c, cs ++ rest, rfl, hc⟩

/-- What is no blank is no space between tokens. -/
theorem isSpace_eq_false {c : Char} (h : Text.isBlank c = false) : isSpace c = false := by
  rw [Bool.eq_false_iff]
  intro hspace
  simp only [isSpace, Bool.or_eq_true, beq_iff_eq] at hspace
  rcases hspace with ((rfl | rfl) | rfl) | rfl <;> exact absurd h (by decide)

theorem starts_of_isDigit {d : Char} (h : isDigit d = true) (cs : List Char) :
    Starts (d :: cs) := by
  simp only [isDigit, Text.char_le_iff, Bool.and_eq_true, decide_eq_true_eq] at h
  have h0 : '0'.toNat = 48 := rfl
  have h9 : '9'.toNat = 57 := rfl
  have hspace : d ≠ ' ' := by rintro rfl; exact absurd h (by decide)
  refine ⟨d, cs, rfl, by omega, ?_, ?_, ?_⟩
  · have hctrl : ¬(d.toNat ≤ 13) ∧ ¬(d.toNat ≤ 31) := by omega
    simp [Text.isBlank, hspace, hctrl]
    omega
  · rintro rfl
    exact absurd h (by decide)
  · rintro rfl
    exact absurd h (by decide)

/-- Behind its sign a number begins with a digit. -/
theorem IsUnsigned.head {text : List Char} (h : IsUnsigned text) :
    ∃ d cs, text = d :: cs ∧ isDigit d = true := by
  obtain @⟨whole, part, exponent, hwhole, -, -⟩ := h
  cases hwhole with
  | zero => exact ⟨'0', _, rfl, rfl⟩
  | digits hdigits =>
    obtain ⟨d, whole, rfl⟩ := List.exists_cons_of_ne_nil hdigits.1
    exact ⟨d, _, rfl, hdigits.2 d List.mem_cons_self⟩

/-- A number begins with a digit or a sign. -/
theorem IsNumber.starts {text : List Char} (h : IsNumber text) : Starts text := by
  cases h with
  | positive h =>
    obtain ⟨d, cs, rfl, hd⟩ := h.head
    exact starts_of_isDigit hd cs
  | negative => exact ⟨_, _, rfl, by decide⟩

/-- Every part begins with a character of a token. -/
theorem Spelled.starts {part : Part} {text : List Char} {strings : List (List Char)}
    (h : Spelled part text strings) : Starts text := by
  induction h with
  | word h =>
    simp only [words, List.mem_cons, List.not_mem_nil, or_false] at h
    rcases h with rfl | rfl | rfl <;> exact ⟨_, _, rfl, by decide⟩
  | number h => exact h.starts
  | string => exact ⟨_, _, rfl, by decide⟩
  | empty holder => cases holder <;> exact ⟨_, _, rfl, by decide⟩
  | filled holder => cases holder <;> exact ⟨_, _, rfl, by decide⟩
  | last hlabel _ _ ih =>
    cases hlabel with
    | item => exact ih.append _
    | name => exact ⟨_, _, rfl, by decide⟩
  | more hlabel _ _ _ _ ih =>
    cases hlabel with
    | item => exact ih.append _
    | name => exact ⟨_, _, rfl, by decide⟩

end RepoSurvey.Json
