import RepoSurvey.Proofs.Text.Pieces
import RepoSurvey.Text.Pattern

/-!
# How patterns fit

A pattern may fit at a place in several ways, and which way is taken depends on what is demanded
behind it. Three judgments say what can be known without a search.

* `Takes`: if what is demanded is met behind a given stretch, the pattern takes this stretch. So a
  repetition takes the longest run, since more is tried before less.
* `Misses`: the pattern does not fit, whatever is demanded.
* `Shuns`: the pattern fits nowhere in front of a character of a given class. If it follows a
  repetition of this class, only the longest run counts (`Misses.many_append`), and a word in front
  of it is read only where it is a run of word characters (`Headed.misses`).

From what its pieces take follows what a pattern with one group `Reads`: where its match ends and
what it captures.

A pattern that begins with the beginning of a line and blanks is `Anchored`: it fits where the first
characters of a line that are not blank are those that its body reads. So the matches in a text can
be told piece by piece, each being some blanks and what stands behind them. Where the body misses a
piece, the search goes on behind it (`Anchored.captures_pass`), and where a line begins and the body
reads the piece, it is a match (`Anchored.captures_take`).
-/

namespace RepoSurvey.Text

/-- A stretch of text that holds blanks only. -/
def IsGap (cs : List Char) : Prop := ∀ c ∈ cs, isBlank c = true

instance : DecidablePred IsGap := fun cs ↦ List.decidableBAll (fun c ↦ isBlank c = true) cs

theorem isGap_nil : IsGap [] := List.forall_mem_nil _

theorem IsGap.not_mem {gap : List Char} (h : IsGap gap) {c : Char} (hc : isBlank c = false) :
    c ∉ gap := by
  intro hmem
  rw [h c hmem] at hc
  exact Bool.false_ne_true hc.symm

/-- Blanks and word characters exclude each other, so a run of the ones ends where the others begin.
-/
theorem isWord_eq_false_of_isBlank {c : Char} (h : isBlank c = true) : isWord c = false := by
  have hnarrow : ∀ n < 128, isBlank (Char.ofNat n) = true → isWord (Char.ofNat n) = false := by
    decide +kernel
  have hspaces : ∀ n < 11, inRanges wordRanges (0x2000 + n) = false := by decide +kernel
  have hothers : ∀ n ∈ [0x85, 0xA0, 0x1680, 0x2028, 0x2029, 0x202F, 0x205F, 0x3000],
      inRanges wordRanges n = false := by decide +kernel
  by_cases hc : c.toNat < 128
  · have hsame := hnarrow c.toNat hc
    rw [Char.ofNat_toNat] at hsame
    exact hsame h
  · rw [isBlank, if_neg hc] at h
    rw [isWord, if_neg hc]
    simp only [isWideBlank, Bool.or_eq_true, Bool.and_eq_true, beq_iff_eq, decide_eq_true_eq] at h
    by_cases hspace : 0x2000 ≤ c.toNat ∧ c.toNat ≤ 0x200A
    · obtain ⟨n, hn⟩ := Nat.exists_eq_add_of_le hspace.1
      rw [hn]
      exact hspaces n (by omega)
    · refine hothers c.toNat ?_
      simp only [List.mem_cons, List.not_mem_nil, or_false]
      omega

namespace Place

/-- The place behind a stretch of the text. -/
def past (p : Place) (s rest : List Char) : Place :=
  { p with before := s.getLast?.or p.before, rest }

@[simp] theorem rest_past (p : Place) (s rest : List Char) : (p.past s rest).rest = rest := rfl

@[simp] theorem yield_past (p : Place) (s rest : List Char) : (p.past s rest).yield = p.yield := rfl

theorem past_nil (p : Place) : p.past [] p.rest = p := rfl

/-- To go past one stretch and then past another one is to go past both. -/
theorem past_past (p : Place) (s t middle rest : List Char) :
    (p.past s middle).past t rest = p.past (s ++ t) rest := by
  rw [past, past, past, List.getLast?_append, Option.or_assoc]

/-- A line begins at the beginning of the text and behind a line feed. -/
theorem atLineStart_eq (p : Place) : p.atLineStart = p.before.all (· == '\n') := by
  rw [atLineStart]
  cases p.before <;> rfl

/-- Between a place and the place past a stretch stands this stretch. -/
theorem upTo_past {p : Place} {s rest : List Char} (h : p.rest = s ++ rest) :
    p.upTo (p.past s rest) = s := by
  rw [upTo, rest_past, h, List.length_append, Nat.add_sub_cancel_right, List.take_left]

end Place

namespace Pattern

variable {pattern tail piece : Pattern} {accepts other : Char → Bool}
  {word s t run text rest : List Char}

theorem fit_append (a b : Pattern) (p : Place) (demand : Place → Option Place) :
    (a ++ b).fit p demand = a.fit p fun q ↦ b.fit q demand := rfl

/-! ### What is taken -/

/-- The pattern takes a stretch that another one follows, if what is demanded is met behind it.
What has been captured stays. -/
def Takes (pattern : Pattern) (s t : List Char) : Prop :=
  ∀ (p : Place) (demand : Place → Option Place) (found : Place), p.rest = s ++ t →
    demand (p.past s t) = some found → pattern.fit p demand = some found

/-- Patterns in a row take stretches in a row. What the second demands stands behind the first
stretch. -/
theorem Takes.append (h : Takes pattern s (t ++ rest)) (htail : Takes tail t rest) :
    Takes (pattern ++ tail) (s ++ t) rest := by
  intro p demand found hp hfound
  rw [List.append_assoc] at hp
  refine h p _ found hp (htail (p.past s (t ++ rest)) demand found rfl ?_)
  rwa [Place.past_past]

/-- A literal fits in one way at most: there is nothing to search. -/
theorem fit_literal {p : Place} {demand : Place → Option Place} (h : p.rest = word ++ rest) :
    (literal word).fit p demand = demand (p.past word rest) := by
  show fitLiteral word p demand = _
  induction word generalizing p with
  | nil =>
    rw [List.nil_append] at h
    rw [fitLiteral, ← h, Place.past_nil]
  | cons c word ih =>
    rw [List.cons_append] at h
    have hnext : (p.next c (word ++ rest)).rest = word ++ rest := rfl
    have hone : p.next c (word ++ rest) = p.past [c] (word ++ rest) := rfl
    rw [fitLiteral, h]
    show (if c = c then fitLiteral word (p.next c (word ++ rest)) demand else none) = _
    rw [if_pos rfl, ih hnext, hone, Place.past_past, List.singleton_append]

theorem takes_literal (word rest : List Char) : Takes (literal word) word rest :=
  fun _ _ _ hp hfound ↦ (fit_literal hp).trans hfound

/-- A repetition tries the longest run first, so what follows is met behind the longest run if it
can be met there at all. -/
theorem fitMost_eq_some {p found : Place} {demand : Place → Option Place}
    (hrun : ∀ c ∈ run, accepts c = true) (hrest : ∀ c ∈ rest.head?, accepts c = false)
    (before : Option Char)
    (h : demand { p with before := run.getLast?.or before, rest } = some found) :
    fitMost accepts p demand (run ++ rest) before = some found := by
  induction run generalizing before with
  | nil =>
    cases rest with
    | nil => exact h
    | cons c rest =>
      rw [List.nil_append, fitMost, if_neg (by simp [hrest c rfl])]
      exact h
  | cons c run ih =>
    obtain ⟨hc, hrun⟩ := List.forall_mem_cons.1 hrun
    have hlast : demand { p with before := run.getLast?.or (some c), rest } = some found := by
      rwa [getLast?_cons_or] at h
    rw [List.cons_append, fitMost, if_pos hc, ih hrun (some c) hlast]
    rfl

/-- A repetition takes the longest run. -/
theorem takes_many (hrun : ∀ c ∈ run, accepts c = true)
    (hrest : ∀ c ∈ rest.head?, accepts c = false) : Takes (many accepts) run rest := by
  intro p demand found hp hfound
  show fitMost accepts p demand p.rest p.before = some found
  rw [hp]
  exact fitMost_eq_some hrun hrest p.before hfound

/-- A single character fits in one way at most. -/
theorem fit_one {p : Place} {demand : Place → Option Place} {c : Char} (hp : p.rest = c :: rest)
    (hc : accepts c = true) : (one accepts).fit p demand = demand (p.past [c] rest) := by
  obtain ⟨before, text, capture⟩ := p
  obtain rfl : text = c :: rest := hp
  exact if_pos hc

/-- A repetition of one or more takes the longest run, if there is a first character. -/
theorem takes_many1 (hne : run ≠ []) (hrun : ∀ c ∈ run, accepts c = true)
    (hrest : ∀ c ∈ rest.head?, accepts c = false) : Takes (many1 accepts) run rest := by
  obtain ⟨c, run, rfl⟩ := List.exists_cons_of_ne_nil hne
  obtain ⟨hc, hrun⟩ := List.forall_mem_cons.1 hrun
  have hone : Takes (one accepts) [c] (run ++ rest) := fun _ _ _ hp hfound ↦
    (fit_one hp hc).trans hfound
  exact hone.append (takes_many hrun hrest)

/-- An optional piece is taken if it can be, since this is tried first. -/
theorem Takes.optional (h : Takes piece s t) : Takes (optional piece) s t := by
  intro p demand found hp hfound
  show (piece.fit p demand <|> demand p) = some found
  rw [h p demand found hp hfound]
  rfl

/-- A word is taken with the edge behind it. -/
theorem takes_word_edge (hword : word.getLast?.any isWord = true)
    (hrest : rest.head?.any isWord = false) : Takes (literal word ++ wordEdge) word rest := by
  intro p demand found hp hfound
  have hlast : (word.getLast?.or p.before).any isWord = true := by
    cases hw : word.getLast? with
    | none => simp [hw] at hword
    | some c => simpa [hw] using hword
  have hedge : (p.past word rest).atWordEdge = true := by
    show ((word.getLast?.or p.before).any isWord != rest.head?.any isWord) = true
    rw [hlast, hrest]
    rfl
  rw [fit_append, fit_literal hp]
  exact (if_pos hedge).trans hfound

/-! ### What is missed and what is shunned -/

/-- The pattern does not fit at the beginning of a text. -/
def Misses (pattern : Pattern) (text : List Char) : Prop :=
  ∀ (p : Place) (demand : Place → Option Place), p.rest = text → pattern.fit p demand = none

/-- The pattern does not fit in front of any character of a class. -/
def Shuns (accepts : Char → Bool) (pattern : Pattern) : Prop :=
  ∀ text : List Char, (∃ c ∈ text.head?, accepts c = true) → Misses pattern text

theorem Misses.append (h : Misses pattern text) (tail : Pattern) : Misses (pattern ++ tail) text :=
  fun p _ hp ↦ h p _ hp

theorem Shuns.append (h : Shuns accepts pattern) (tail : Pattern) :
    Shuns accepts (pattern ++ tail) := fun text htext ↦ (h text htext).append tail

/-- A literal misses a text that does not begin with it. -/
theorem misses_literal (h : ¬word <+: text) : Misses (literal word) text := by
  intro p demand hp
  show fitLiteral word p demand = none
  induction word generalizing p text with
  | nil => exact absurd List.nil_prefix h
  | cons w word ih =>
    rw [fitLiteral, hp]
    split
    · rename_i c rest
      split
      · rename_i hwc
        refine ih (fun hprefix ↦ h ?_) (p.next c rest) rfl
        rw [hwc, List.cons_prefix_cons]
        exact ⟨rfl, hprefix⟩
      · rfl
    · rfl

theorem misses_one (h : ∀ c ∈ text.head?, accepts c = false) : Misses (one accepts) text := by
  rintro ⟨before, rest, capture⟩ demand rfl
  cases rest with
  | nil => rfl
  | cons c rest => exact if_neg (by simp [h c rfl])

theorem misses_many1 (h : ∀ c ∈ text.head?, accepts c = false) : Misses (many1 accepts) text :=
  (misses_one h).append _

/-- Behind a literal that fits, the rest may still miss. -/
theorem Misses.literal_append (h : Misses tail text) (word : List Char) :
    Misses (literal word ++ tail) (word ++ text) := by
  intro p demand hp
  rw [fit_append, fit_literal hp]
  exact h (p.past word text) demand rfl

/-- Without its piece, a pattern goes on with what follows. -/
theorem Misses.optional_append (h : Misses tail text) (hpiece : Misses piece text) :
    Misses (optional piece ++ tail) text := by
  intro p demand hp
  show (piece.fit p (fun q ↦ tail.fit q demand) <|> tail.fit p demand) = none
  rw [hpiece p _ hp, h p demand hp]
  rfl

/-- An optional piece that misses takes nothing. -/
theorem Misses.takes_optional (h : Misses piece t) : Takes (optional piece) [] t := by
  intro p demand found hp hfound
  show (piece.fit p demand <|> demand p) = some found
  rw [List.nil_append] at hp
  rw [← hp, Place.past_nil] at hfound
  rw [h p demand hp, hfound]
  rfl

/-- A literal shuns all characters but those that its first one is among. -/
theorem shuns_literal {c : Char} (hc : accepts c = false) (word : List Char) :
    Shuns accepts (literal (c :: word)) := by
  rintro text ⟨d, hd, haccepts⟩
  refine misses_literal ?_
  rintro ⟨rest, rfl⟩
  obtain rfl : c = d := by simpa using hd
  rw [hc] at haccepts
  exact Bool.false_ne_true haccepts

/-- A repetition shuns all classes that have no character in common with its own. -/
theorem shuns_many1 (h : ∀ c, accepts c = true → other c = false) :
    Shuns accepts (many1 other) := by
  rintro text ⟨c, hc, haccepts⟩
  refine misses_many1 fun d hd ↦ ?_
  rw [Option.mem_unique hd hc]
  exact h c haccepts

/-- Where what follows a repetition shuns its characters, only the longest run counts. -/
theorem fitMost_of_shuns (htail : Shuns accepts tail) (hrun : ∀ c ∈ run, accepts c = true)
    (hrest : ∀ c ∈ rest.head?, accepts c = false) (p : Place) (demand : Place → Option Place)
    (before : Option Char) :
    fitMost accepts p (fun q ↦ tail.fit q demand) (run ++ rest) before =
      tail.fit { p with before := run.getLast?.or before, rest } demand := by
  induction run generalizing before with
  | nil =>
    cases rest with
    | nil => rfl
    | cons c rest =>
      rw [List.nil_append, fitMost, if_neg (by simp [hrest c rfl])]
      rfl
  | cons c run ih =>
    obtain ⟨hc, hrun⟩ := List.forall_mem_cons.1 hrun
    have hstop : tail.fit { p with before, rest := c :: (run ++ rest) } demand = none :=
      htail _ ⟨c, rfl, hc⟩ _ demand rfl
    rw [List.cons_append, fitMost, if_pos hc, hstop, ih hrun, getLast?_cons_or]
    simp

/-- So a repetition of which the tail shuns its characters fits in one way at most: with the longest
run. -/
theorem fit_many_append (htail : Shuns accepts tail) {p : Place} (hp : p.rest = run ++ rest)
    (hrun : ∀ c ∈ run, accepts c = true) (hrest : ∀ c ∈ rest.head?, accepts c = false)
    (demand : Place → Option Place) :
    (many accepts ++ tail).fit p demand = tail.fit (p.past run rest) demand := by
  show fitMost accepts p (fun q ↦ tail.fit q demand) p.rest p.before = _
  rw [hp]
  exact fitMost_of_shuns htail hrun hrest p demand p.before

/-- If the tail shuns the repeated characters and misses behind the longest run, nothing is left to
try. -/
theorem Misses.many_append (h : Misses tail text) (htail : Shuns accepts tail)
    (hrun : ∀ c ∈ run, accepts c = true) (htext : ∀ c ∈ text.head?, accepts c = false) :
    Misses (many accepts ++ tail) (run ++ text) := by
  intro p demand hp
  rw [fit_many_append htail hp hrun htext]
  exact h (p.past run text) demand rfl

/-- The same for a repetition of one or more. The run may be empty, since then the repetition misses
by itself. -/
theorem Misses.many1_append (h : Misses tail text) (htail : Shuns accepts tail)
    (hrun : ∀ c ∈ run, accepts c = true) (htext : ∀ c ∈ text.head?, accepts c = false) :
    Misses (many1 accepts ++ tail) (run ++ text) := by
  rcases run with - | ⟨c, run⟩
  · exact (misses_many1 htext).append tail
  · obtain ⟨hc, hrun⟩ := List.forall_mem_cons.1 hrun
    intro p demand hp
    show (one accepts).fit p (fun q ↦ (many accepts ++ tail).fit q demand) = none
    rw [fit_one hp hc]
    exact h.many_append htail hrun htext _ demand rfl

/-- A repetition may be empty, so both it and its tail have to shun a class. -/
theorem Shuns.many_append (htail : Shuns accepts tail)
    (h : ∀ c, accepts c = true → other c = false) : Shuns accepts (many other ++ tail) := by
  rintro text ⟨c, hc, haccepts⟩ p demand hp
  obtain ⟨rest, rfl⟩ : ∃ rest, text = c :: rest := by
    obtain ⟨text, rfl⟩ := List.head?_eq_some_iff.1 hc
    exact ⟨text, rfl⟩
  show fitMost other p (fun q ↦ tail.fit q demand) p.rest p.before = none
  rw [hp, fitMost, if_neg (by simp [h c haccepts])]
  exact htail _ ⟨c, rfl, haccepts⟩ _ demand rfl

/-- A piece may be left out, so both it and what follows have to shun a class. -/
theorem Shuns.optional_append (htail : Shuns accepts tail) (hpiece : Shuns accepts piece) :
    Shuns accepts (optional piece ++ tail) :=
  fun text htext ↦ (htail text htext).optional_append (hpiece text htext)

/-- A word is read only where it is a run of word characters, if what follows shuns these. -/
theorem misses_word (hword : ∀ c ∈ word, isWord c = true) (htail : Shuns isWord tail)
    (h : text.takeWhile isWord ≠ word) : Misses (literal word ++ tail) text := by
  by_cases hprefix : word <+: text
  · obtain ⟨rest, rfl⟩ := hprefix
    refine (htail rest ?_).literal_append word
    -- the run goes on behind the word
    by_contra hnone
    refine h (takeWhile_dropWhile_append hword fun c hc ↦ ?_).1
    by_contra hcword
    exact hnone ⟨c, hc, by simpa using hcword⟩
  · exact (misses_literal hprefix).append tail

/-! ### Repetitions of pieces -/

/-- A repetition takes a stretch, whatever number of pieces it may still take. -/
def TakesMany (piece : Pattern) (s t : List Char) : Prop :=
  ∀ (fuel : Nat) (p : Place) (demand : Place → Option Place) (found : Place),
    p.rest = s ++ t → p.rest.length ≤ fuel → demand (p.past s t) = some found →
    fitRepeated (fun q demand ↦ piece.fit q demand) fuel p demand = some found

/-- A repetition of pieces takes a stretch if it does so with any number of pieces left. -/
theorem TakesMany.takes (h : TakesMany piece s t) : Takes (repeated piece) s t :=
  fun p demand found hp hfound ↦ h p.rest.length p demand found hp le_rfl hfound

/-- Where no piece fits, the repetition has ended. -/
theorem Misses.takesMany (h : Misses piece t) : TakesMany piece [] t := by
  intro fuel p demand found hp hfuel hfound
  rw [List.nil_append] at hp
  rw [← hp, Place.past_nil] at hfound
  cases fuel with
  | zero => exact hfound
  | succ fuel =>
    rw [fitRepeated, h p _ hp, hfound]
    rfl

/-- One more piece in front is taken, if it is not empty. An empty one would end the repetition. -/
theorem TakesMany.cons (h : TakesMany piece t rest) (hpiece : Takes piece s (t ++ rest))
    (hne : s ≠ []) : TakesMany piece (s ++ t) rest := by
  intro fuel p demand found hp hfuel hfound
  rw [List.append_assoc] at hp
  have hshorter : (t ++ rest).length < p.rest.length := by
    have hs : 0 < s.length := List.length_pos_iff.2 hne
    simp only [hp, List.length_append]
    omega
  obtain ⟨fuel, rfl⟩ : ∃ n, fuel = n + 1 :=
    Nat.exists_eq_succ_of_ne_zero (Nat.ne_of_gt (lt_of_lt_of_le (Nat.zero_lt_of_lt hshorter) hfuel))
  have hnext : fitRepeated (fun q demand ↦ piece.fit q demand) fuel (p.past s (t ++ rest)) demand =
      some found :=
    h fuel _ demand found rfl (Nat.le_of_lt_succ (lt_of_lt_of_le hshorter hfuel))
      (by rwa [Place.past_past])
  rw [fitRepeated, hpiece p _ found hp]
  · rfl
  · exact (if_pos hshorter).trans hnext

/-! ### What is read -/

/-- The pattern takes a stretch that another one follows, and captures a text. -/
def Reads (pattern : Pattern) (s t capture : List Char) : Prop :=
  ∀ (p : Place) (demand : Place → Option Place) (found : Place), p.rest = s ++ t →
    demand { p.past s t with yield := some capture } = some found →
    pattern.fit p demand = some found

/-- A group captures the stretch that its pattern takes. -/
theorem Takes.group (h : Takes piece s t) : Reads (group piece) s t s := by
  intro p demand found hp hfound
  refine h p _ found hp ?_
  rwa [Place.upTo_past hp]

theorem Misses.group (h : Misses piece text) : Misses (group piece) text :=
  fun p _ hp ↦ h p _ hp

theorem Shuns.group (h : Shuns accepts piece) : Shuns accepts (group piece) :=
  fun text htext ↦ (h text htext).group

/-- What stands in front of the group is taken, and adds nothing to what is captured. -/
theorem Takes.reads_append {capture : List Char} (h : Takes pattern s (t ++ rest))
    (htail : Reads tail t rest capture) : Reads (pattern ++ tail) (s ++ t) rest capture := by
  intro p demand found hp hfound
  rw [List.append_assoc] at hp
  refine h p _ found hp (htail (p.past s (t ++ rest)) demand found rfl ?_)
  rwa [Place.past_past]

/-- What stands behind the group is taken, and leaves what is captured as it is. -/
theorem Reads.append {capture : List Char} (h : Reads pattern s (t ++ rest) capture)
    (htail : Takes tail t rest) : Reads (pattern ++ tail) (s ++ t) rest capture := by
  intro p demand found hp hfound
  rw [List.append_assoc] at hp
  let q : Place := { p.past s (t ++ rest) with yield := some capture }
  have hq : q.past t rest = { p.past (s ++ t) rest with yield := some capture } :=
    congrArg (fun r : Place ↦ { r with yield := some capture }) (p.past_past s t (t ++ rest) rest)
  refine h p _ found hp (htail q demand found rfl ?_)
  rwa [hq]

/-! ### Matches that begin with a line -/

/-- The matches of a pattern are those of its body where a line begins, behind blanks. -/
structure Anchored (pattern body : Pattern) : Prop where
  fit_eq : ∀ p : Place, pattern.fit p some =
    if p.atLineStart then (blanks ++ body).fit p some else none
  shuns : Shuns isBlank body

/-- Where a pattern does not fit, the search goes on one character later. -/
theorem capturesFrom_of_eq_none {before : Option Char} {c : Char}
    (h : pattern.fit { before, rest := c :: rest } some = none) :
    capturesFrom pattern 0 before (c :: rest) = capturesFrom pattern 0 (some c) rest := by
  rw [capturesFrom, h]

/-- The characters of a match are left out. -/
theorem capturesFrom_length (pattern : Pattern) (before : Option Char) (s rest : List Char) :
    capturesFrom pattern s.length before (s ++ rest) =
      capturesFrom pattern 0 (s.getLast?.or before) rest := by
  induction s generalizing before with
  | nil => rfl
  | cons c s ih =>
    rw [List.length_cons, List.cons_append, capturesFrom, ih, getLast?_cons_or]

/-- Where a pattern fits, its capture is found, and the search goes on behind the match. -/
theorem capturesFrom_of_eq_some {before : Option Char} {r : Place} {capture : List Char}
    (hne : s ≠ []) (h : pattern.fit { before, rest := s ++ rest } some = some r)
    (hr : r.rest = rest) (hyield : r.yield = some capture) :
    capturesFrom pattern 0 before (s ++ rest) =
      capture :: capturesFrom pattern 0 (s.getLast?.or before) rest := by
  obtain ⟨c, s, rfl⟩ := List.exists_cons_of_ne_nil hne
  rw [List.cons_append] at h ⊢
  have hskip : (s ++ rest).length - rest.length = s.length := by simp
  rw [capturesFrom, h]
  simp only [hr, hyield, Option.getD_some, hskip]
  rw [capturesFrom_length, getLast?_cons_or]

namespace Anchored

variable {body : Pattern} (h : Anchored pattern body) {gap piece : List Char}
include h

/-- In blanks the pattern fits only where a line begins, and there its body is to fit behind the
blanks: the body shuns blanks, so they are all skipped. -/
theorem fit_gap (hgap : IsGap gap) {p : Place} (hp : p.rest = gap ++ text)
    (htext : ∀ c ∈ text.head?, isBlank c = false) :
    pattern.fit p some = if p.atLineStart then body.fit (p.past gap text) some else none := by
  rw [h.fit_eq, blanks, fit_many_append h.shuns hp hgap htext]

/-- Nothing is found inside of a line. -/
theorem captures_inside {before : Option Char} (hbefore : ∃ c, before = some c ∧ c ≠ '\n')
    (hs : '\n' ∉ s) :
    capturesFrom pattern 0 before (s ++ rest) =
      capturesFrom pattern 0 (s.getLast?.or before) rest := by
  induction s generalizing before with
  | nil => rfl
  | cons c s ih =>
    rw [List.mem_cons, not_or] at hs
    obtain ⟨b, rfl, hb⟩ := hbefore
    have hnone : pattern.fit { before := some b, rest := c :: (s ++ rest) } some = none := by
      rw [h.fit_eq]
      exact if_neg (by simpa [Place.atLineStart] using hb)
    rw [List.cons_append, capturesFrom_of_eq_none hnone, ih ⟨c, rfl, Ne.symm hs.1⟩ hs.2,
      getLast?_cons_or]

/-- Nothing is found in blanks in front of what the body misses. -/
theorem captures_gap (before : Option Char) (hgap : IsGap gap)
    (htext : ∀ c ∈ text.head?, isBlank c = false) (hmiss : Misses body text) :
    capturesFrom pattern 0 before (gap ++ text) =
      capturesFrom pattern 0 (gap.getLast?.or before) text := by
  induction gap generalizing before with
  | nil => rfl
  | cons c gap ih =>
    obtain ⟨hc, hgap'⟩ := List.forall_mem_cons.1 hgap
    have hnone : pattern.fit { before, rest := c :: (gap ++ text) } some = none := by
      rw [h.fit_gap hgap rfl htext, hmiss _ some rfl, ite_self]
    rw [List.cons_append, capturesFrom_of_eq_none hnone, ih (some c) hgap', getLast?_cons_or]

/-- A piece that the body misses is passed, with the blanks in front of it. -/
theorem captures_pass (before : Option Char) (hgap : IsGap gap) (hne : piece ≠ [])
    (hpiece : ∀ c ∈ piece.head?, isBlank c = false) (hline : '\n' ∉ piece)
    (hmiss : Misses body (piece ++ rest)) :
    capturesFrom pattern 0 before (gap ++ (piece ++ rest)) =
      capturesFrom pattern 0 piece.getLast? rest := by
  obtain ⟨c, piece, rfl⟩ := List.exists_cons_of_ne_nil hne
  rw [List.cons_append] at hmiss ⊢
  have htext : ∀ d ∈ (c :: (piece ++ rest)).head?, isBlank d = false := hpiece
  rw [h.captures_gap before hgap htext hmiss]
  rw [List.mem_cons, not_or] at hline
  generalize gap.getLast?.or before = b
  have hnone : pattern.fit { before := b, rest := c :: (piece ++ rest) } some = none := by
    rw [h.fit_gap isGap_nil rfl htext, hmiss _ some rfl, ite_self]
  rw [capturesFrom_of_eq_none hnone, h.captures_inside ⟨c, rfl, Ne.symm hline.1⟩ hline.2,
    ← getLast?_cons_or c piece none, Option.or_none]

/-- Where a line begins, a piece behind blanks that the body reads is found, and the search goes on
behind it. -/
theorem captures_start {before : Option Char} {capture : List Char} (hgap : IsGap gap)
    (hstart : before.all (· == '\n') = true) (hne : piece ≠ [])
    (htext : ∀ c ∈ (piece ++ rest).head?, isBlank c = false)
    (hread : Reads body piece rest capture) :
    capturesFrom pattern 0 before (gap ++ (piece ++ rest)) =
      capture :: capturesFrom pattern 0 piece.getLast? rest := by
  let p : Place := { before, rest := gap ++ piece ++ rest }
  have hp : p.rest = gap ++ (piece ++ rest) := List.append_assoc _ _ _
  let q : Place := { (p.past gap (piece ++ rest)).past piece rest with yield := some capture }
  have hfits : pattern.fit p some = some q := by
    rw [h.fit_gap hgap hp htext, Place.atLineStart_eq, if_pos hstart]
    exact hread _ some q rfl rfl
  have hlast : (gap ++ piece).getLast?.or before = piece.getLast? := by
    rw [List.getLast?_append, Option.or_assoc, Option.or_of_isSome (by simpa using hne)]
  rw [← List.append_assoc, capturesFrom_of_eq_some (by simp [hne]) hfits rfl rfl, hlast]

/-- A piece that the body reads is a match, if a line begins in front of it or in the blanks
there. -/
theorem captures_take {before : Option Char} {capture : List Char} (hgap : IsGap gap)
    (hbegins : before.all (· == '\n') = true ∨ '\n' ∈ gap) (hne : piece ≠ [])
    (hpiece : ∀ c ∈ piece.head?, isBlank c = false)
    (hread : Reads body piece rest capture) :
    capturesFrom pattern 0 before (gap ++ (piece ++ rest)) =
      capture :: capturesFrom pattern 0 piece.getLast? rest := by
  have htext : ∀ c ∈ (piece ++ rest).head?, isBlank c = false := by
    rw [List.head?_append, Option.or_of_isSome (by simpa using hne)]
    exact hpiece
  induction gap generalizing before with
  | nil =>
    have hstart := hbegins.resolve_right List.not_mem_nil
    exact h.captures_start hgap hstart hne htext hread
  | cons c gap ih =>
    by_cases hstart : before.all (· == '\n') = true
    · exact h.captures_start hgap hstart hne htext hread
    · -- the line that the match begins with begins further on
      obtain ⟨hc, hgap'⟩ := List.forall_mem_cons.1 hgap
      have hnone : pattern.fit { before, rest := c :: (gap ++ (piece ++ rest)) } some = none := by
        rw [h.fit_gap hgap rfl htext, Place.atLineStart_eq, if_neg hstart]
      have hnext : (some c).all (· == '\n') = true ∨ '\n' ∈ gap := by
        rcases List.mem_cons.1 (hbegins.resolve_left hstart) with hnewline | hnewline
        · exact Or.inl (by simp [← hnewline])
        · exact Or.inr hnewline
      rw [List.cons_append, capturesFrom_of_eq_none hnone]
      exact ih hgap' hnext

/-- If a piece is a match, nothing else is found on its line. -/
theorem captures_line {before : Option Char} {capture left : List Char} (hgap : IsGap gap)
    (hbegins : before.all (· == '\n') = true ∨ '\n' ∈ gap) (hne : piece ≠ [])
    (hpiece : ∀ c ∈ piece.head?, isBlank c = false) (hline : '\n' ∉ piece ++ left)
    (hread : Reads body piece (left ++ rest) capture) :
    ∃ last, capturesFrom pattern 0 before (gap ++ (piece ++ (left ++ rest))) =
      capture :: capturesFrom pattern 0 last rest := by
  rw [List.mem_append, not_or] at hline
  have hlast : ∃ c, piece.getLast? = some c ∧ c ≠ '\n' :=
    ⟨piece.getLast hne, List.getLast?_eq_some_getLast hne,
      ne_of_mem_of_not_mem (List.getLast_mem hne) hline.1⟩
  exact ⟨_, (h.captures_take hgap hbegins hne hpiece hread).trans
    (congrArg _ (h.captures_inside hlast hline.2))⟩

end Anchored

/-- A pattern for lines that begin with a given word. -/
structure Headed (word : List Char) (pattern : Pattern) where
  tail : Pattern
  anchored : Anchored pattern (literal word ++ tail)
  isRun : ∀ c ∈ word, isWord c = true
  shuns : Shuns isWord tail

/-- A pattern that is headed by a word misses all texts that do not begin with this word, also those
that begin with a longer one. -/
theorem Headed.misses (r : Headed word pattern) (h : text.takeWhile isWord ≠ word) :
    Misses (literal word ++ r.tail) text :=
  misses_word r.isRun r.shuns h

/-- Nothing is found in blanks at the end. -/
theorem Headed.captures_back (r : Headed word pattern) (hne : word ≠ []) (before : Option Char)
    {back : List Char} (hback : IsGap back) : capturesFrom pattern 0 before back = [] := by
  have hempty : Misses (literal word ++ r.tail) [] := r.misses hne.symm
  have hend := r.anchored.captures_gap before hback (by simp) hempty
  rw [List.append_nil] at hend
  exact hend

end Pattern

end RepoSurvey.Text
