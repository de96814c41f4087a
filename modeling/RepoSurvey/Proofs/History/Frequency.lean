import RepoSurvey.Proofs.Decimal.Doubles
import RepoSurvey.Proofs.History.FileQuestions
import RepoSurvey.Proofs.Time.Instants

/-!
# How often a file changes

The commits of a file are counted for each day of a span, in three steps of which each rounds
(`exists_stands_perDay`). So a double comes out that is as good as the quotient (`IsRate`), and what
it measures can be told from it: spans with the same rate are the same up to rounding
(`IsRate.le_mul`).

The span is that between the first and the last date as commits are listed (`IsListed.spanOf_eq`).
Commits are not listed by these dates, so it may be shorter than the span between the oldest and the
newest of them, and may even be none.
-/

namespace RepoSurvey.History

open RepoSurvey.Decimal RepoSurvey.Time

/-! ### Commits for each day of a span -/

/-- The days of a time in microseconds. -/
def daysOf (span : ℤ) : ℚ := span / microsPerDay

theorem daysOf_pos {span : ℤ} (h : 0 < span) : 0 < daysOf span :=
  div_pos (by exact_mod_cast h) (by norm_num)

/-- No time at all is not divided by. -/
theorem perDay_zero (n : ℕ) : perDay n 0 = 0 := by
  have hdays : ¬ (0 : Float) < (ratio? 0 microsPerSecond).getD 0 / 86400 := by decide +kernel
  rw [perDay]
  exact if_neg hdays

/-- The days of a span, as a double. -/
theorem exists_stands_days {span : ℕ} (hspan : 0 < span) (hspan' : span ≤ 2 ^ 60) :
    ∃ v, Stands ((ratio? span microsPerSecond).getD 0 / 86400) v ∧ Near 4 v (daysOf span) := by
  have hone : (1 : ℚ) ≤ span := by exact_mod_cast hspan
  have hsmall : (span : ℚ) ≤ 2 ^ 60 := by exact_mod_cast hspan'
  have hseconds : InRange ((span : ℚ) / microsPerSecond) := by
    refine .of_bounds (-20) 60 ?_ ?_ (by decide) (by decide) <;> norm_num <;> linarith
  have hday : ((86400 : ℕ) : ℚ) ≤ 2 ^ (1000 : ℤ) :=
    (by norm_num : ((86400 : ℕ) : ℚ) ≤ 2 ^ (17 : ℤ)).trans
      (zpow_le_zpow_right₀ one_le_two (by decide))
  obtain ⟨x, a, hratio, hx, hnear⟩ := exists_stands_ratio? hspan (by decide) hseconds
  obtain ⟨d, hd, hnear'⟩ := exists_stands_toFloat (n := 86400) (by decide) hday
  have hquotient : Near (1 + 2) (a / d) (daysOf span) := by
    have hdays : daysOf span = (span : ℚ) / microsPerSecond / (86400 : ℕ) := by
      rw [daysOf]
      norm_num
      ring
    rw [hdays]
    exact hnear.div hnear' hx.pos (by positivity) hd.pos (by norm_num)
  have hrange : InRange (a / d) := by
    refine hquotient.inRange (by decide) (div_pos hx.pos hd.pos).le (-40) 60 ?_ ?_ (by decide)
      (by decide) <;> rw [daysOf] <;> norm_num <;> linarith
  obtain ⟨v, hv, hnear''⟩ := hx.div hd hrange
  have hboth : Near (1 + (1 + 2)) v (daysOf span) := hnear''.trans hquotient
  rw [hratio]
  exact ⟨v, hv, hboth⟩

/-- Each of the steps in which commits are divided by days rounds, and so the result is near to the
quotient. -/
theorem exists_stands_perDay {n span : ℕ} (hn : 0 < n) (hn' : (n : ℚ) ≤ 2 ^ (960 : ℤ))
    (hspan : 0 < span) (hspan' : span ≤ 2 ^ 60) :
    ∃ v, Stands (perDay n span) v ∧ Near 7 v (n / daysOf span) := by
  have hone : (1 : ℚ) ≤ n := by exact_mod_cast hn
  have hspanOne : (1 : ℚ) ≤ span := by exact_mod_cast hspan
  have hspanSmall : (span : ℚ) ≤ 2 ^ 60 := by exact_mod_cast hspan'
  obtain ⟨d, hd, hnear⟩ := exists_stands_days hspan hspan'
  obtain ⟨c, hc, hnear'⟩ :=
    exists_stands_toFloat hn (hn'.trans (zpow_le_zpow_right₀ one_le_two (by decide)))
  have hdays : 2 ^ (-40 : ℤ) ≤ daysOf span ∧ daysOf span ≤ 2 ^ (30 : ℤ) := by
    rw [daysOf]
    constructor <;> norm_num <;> linarith
  have hdaysPos : 0 < daysOf span := lt_of_lt_of_le (by norm_num) hdays.1
  -- both sides of the division have been rounded already
  have hquotient : Near (2 + 4) (c / d) (n / daysOf span) :=
    hnear'.div hnear hc.pos (by linarith) hd.pos hdaysPos
  have hrange : InRange (c / d) := by
    refine hquotient.inRange (by decide) (div_pos hc.pos hd.pos).le (-30) 1000 ?_ ?_ (by decide)
      (by decide)
    · rw [le_div_iff₀ hdaysPos]
      calc (2 : ℚ) ^ (-30 : ℤ) * daysOf span
          ≤ 2 ^ (-30 : ℤ) * 2 ^ (30 : ℤ) := mul_le_mul_of_nonneg_left hdays.2 (by norm_num)
        _ = 1 := by norm_num
        _ ≤ n := hone
    · rw [div_le_iff₀ hdaysPos]
      calc (n : ℚ) ≤ 2 ^ (960 : ℤ) := hn'
        _ = 2 ^ (1000 : ℤ) * 2 ^ (-40 : ℤ) := by
          rw [← zpow_add₀ two_ne_zero]
          rfl
        _ ≤ 2 ^ (1000 : ℤ) * daysOf span :=
          mul_le_mul_of_nonneg_left hdays.1 (zpow_pos two_pos _).le
  -- the quotient is in range, so to round it once more costs one step
  obtain ⟨v, hv, hnear''⟩ := hc.div hd hrange
  have hboth : Near (1 + (2 + 4)) v (n / daysOf span) := hnear''.trans hquotient
  have hpos : (0 : Float) < (ratio? span microsPerSecond).getD 0 / 86400 := hd.zero_lt
  have hperDay : perDay n span = n.toFloat / ((ratio? span microsPerSecond).getD 0 / 86400) := by
    rw [perDay]
    exact if_pos hpos
  rw [hperDay]
  exact ⟨v, hv, hboth⟩

/-! ### Rates -/

/-- A double says, up to rounding, how many of `n` commits there are for each day of a span. Where
no time lies in between it is nothing. -/
def IsRate (n : ℕ) (span : ℤ) (x : Float) : Prop :=
  if 0 < span then
    0 < x ∧ ∃ v, valueOf? x = some v ∧ |v - n / daysOf span| ≤ n / daysOf span * 2 ^ (-49 : ℤ)
  else x = 0

/-- The quotient that is computed is a rate, as long as neither number is too large for a double. -/
theorem isRate_perDay {n span : ℕ} (hn : 0 < n) (hn' : n ≤ 2 ^ 960) (hspan : span ≤ 2 ^ 60) :
    IsRate n span (perDay n span) := by
  have hmany : (n : ℚ) ≤ 2 ^ (960 : ℤ) := by
    rw [zpow_ofNat]
    exact_mod_cast hn'
  rcases Nat.eq_zero_or_pos span with rfl | hpos
  · exact perDay_zero n
  · obtain ⟨v, hv, hnear⟩ := exists_stands_perDay hn hmany hpos hspan
    have hspanPos : (0 : ℤ) < span := by exact_mod_cast hpos
    have hquotient : 0 ≤ n / daysOf span := div_nonneg n.cast_nonneg (daysOf_pos hspanPos).le
    rw [IsRate, if_pos hspanPos]
    exact ⟨hv.zero_lt, v, hv.valueOf?_eq, hnear.abs_sub_le hv.pos.le hquotient⟩

/-- A rate over a span is not nothing. -/
theorem IsRate.ne_zero {n : ℕ} {span : ℤ} {x : Float} (h : IsRate n span x) (hspan : 0 < span) :
    x ≠ 0 := by
  rintro rfl
  rw [IsRate, if_pos hspan] at h
  exact absurd h.1 (by decide)

/-- Spans with the same rate are the same up to rounding. -/
theorem IsRate.le_mul {n : ℕ} {listed whole : ℤ} {x : Float} (hn : 0 < n)
    (h : IsRate n listed x) (h' : IsRate n whole x) :
    whole ≤ 0 ∨ 0 < listed ∧ (whole : ℚ) ≤ listed * (1 + 2 ^ (-47 : ℤ)) := by
  rcases le_or_gt whole 0 with hnone | hwhole
  · exact Or.inl hnone
  · have hlisted : 0 < listed := by
      by_contra hnone
      rw [IsRate, if_neg hnone] at h
      exact h'.ne_zero hwhole h
    rw [IsRate, if_pos hlisted] at h
    rw [IsRate, if_pos hwhole] at h'
    obtain ⟨-, v, hv, hnear⟩ := h
    obtain ⟨-, v', hv', hnear'⟩ := h'
    -- one double is near to both quotients, so these are near to each other
    obtain rfl := Option.some.inj (hv.symm.trans hv')
    refine Or.inr ⟨hlisted, ?_⟩
    have hlisted' : (0 : ℚ) < listed := by exact_mod_cast hlisted
    have hwhole' : (0 : ℚ) < whole := by exact_mod_cast hwhole
    have hcommits : (0 : ℚ) < n * microsPerDay := mul_pos (by exact_mod_cast hn) (by norm_num)
    have hquotient : ∀ span : ℤ, n / daysOf span = n * microsPerDay / span := by
      intro span
      rw [daysOf, div_div_eq_mul_div]
    rw [hquotient, abs_le] at hnear hnear'
    have hends : (n * microsPerDay / listed : ℚ) * (1 - 2 ^ (-49 : ℤ)) ≤
        n * microsPerDay / whole * (1 + 2 ^ (-49 : ℤ)) := by linarith
    rw [div_mul_eq_mul_div, div_mul_eq_mul_div, div_le_div_iff₀ hlisted' hwhole',
      mul_assoc (n * microsPerDay : ℚ), mul_assoc (n * microsPerDay : ℚ)] at hends
    have hspans := le_of_mul_le_mul_left hends hcommits
    norm_num at hspans ⊢
    linarith

/-! ### The span of a list of commits -/

/-- Two commits or more, not too many for a double, with dates that can be read: they mean these
instants, of which the first and the last are these. -/
structure IsListed (cs : List Commit) (ts : List ℤ) (first last : ℤ) : Prop where
  dates : cs.map (fun c ↦ (Moment.parse? c.date).map Moment.instant) = ts.map some
  first : ts.head? = some first
  last : ts.getLast? = some last
  two : 2 ≤ cs.length
  many : cs.length ≤ 2 ^ 960

variable {cs : List Commit} {ts : List ℤ} {first last : ℤ}

/-- An instant that has been read from a commit is that of its date. -/
theorem exists_date_of_map {c? : Option Commit} {t : ℤ}
    (h : c?.map (fun c ↦ (Moment.parse? c.date).map Moment.instant) = some (some t)) :
    ∃ c m, c? = some c ∧ Moment.parse? c.date = some m ∧ m.instant = t := by
  obtain ⟨c, hc, hdate⟩ := Option.map_eq_some_iff.1 h
  obtain ⟨m, hm, hinstant⟩ := Option.map_eq_some_iff.1 hdate
  exact ⟨c, m, hc, hm, hinstant⟩

/-- The dates of the first and the last listed commit make the span, whatever the dates of the
others are. It is one that the calendar has room for. -/
theorem IsListed.spanOf_eq (h : IsListed cs ts first last) :
    spanOf cs = some (first - last) ∧ first - last ≤ 2 ^ 60 := by
  have hfirst := congrArg List.head? h.dates
  have hlast := congrArg List.getLast? h.dates
  rw [List.head?_map, List.head?_map, h.first] at hfirst
  rw [List.getLast?_map, List.getLast?_map, h.last] at hlast
  obtain ⟨c, m, hc, hm, rfl⟩ := exists_date_of_map hfirst
  obtain ⟨c', m', hc', hm', rfl⟩ := exists_date_of_map hlast
  constructor
  · rw [spanOf, hc, hc']
    simp only [Option.bind_eq_bind, Option.bind_some, hm, hm']
    rfl
  · have hbounds := Moment.instant_bounds hm
    have hbounds' := Moment.instant_bounds hm'
    norm_num at hbounds
    omega

/-- The frequency of listed commits is their rate over the span from the last to the first. -/
theorem IsListed.isRate_frequencyOf (h : IsListed cs ts first last) :
    IsRate cs.length (first - last) (frequencyOf cs) := by
  have htwo := h.two
  obtain ⟨hspan, hsmall⟩ := h.spanOf_eq
  rw [frequencyOf, if_neg (by omega), hspan]
  rcases hcase : first - last with span | past
  · rw [hcase] at hsmall
    exact isRate_perDay (by omega) h.many (Int.ofNat_le.1 hsmall)
  · -- the first listed commit is dated before the last
    rfl

/-- Two commits count for nothing where the later one is listed last. -/
example : frequencyOf [⟨"", "", "2024-01-01", ""⟩, ⟨"", "", "2024-01-03", ""⟩] = 0 := by
  rfl

/-- **Frequency measures the listed span.** Let questions be asked one after the other, where every
command may succeed, or fail as expected. Whoever asks how often a file changes is told the number
of the commits that would have been told instead, for each day between the dates of the first and
the last of these as they are listed, if the first is the later one, and nothing if it is not. This
is their number for each day between the oldest and the newest date if these are listed last and
first. It is another one as soon as the span of all dates is longer than the listed span by more
than rounding accounts for. The same holds of what is told where threads take turns. -/
theorem frequency_measures_listed_span (repo : String) (now : Int) {script : Script}
    (hscript : script.IsExpected) (earlier : List Query) (path : String) :
    let start := fresh repo now
    let t := start.afterAsking script earlier
    let Measures (cs : List Commit) (a : Answer) : Prop :=
      ∃ x, a = .frequency x ∧ (cs.length < 2 → x = 0) ∧
        ∀ ts first last, IsListed cs ts first last →
          IsRate cs.length (first - last) x ∧
          ∀ oldest newest, IsLeast {t | t ∈ ts} oldest → IsGreatest {t | t ∈ ts} newest →
            (last = oldest → first = newest → IsRate cs.length (newest - oldest) x) ∧
            (IsRate cs.length (newest - oldest) x → newest = oldest ∨ last < first ∧
              ((newest - oldest : ℤ) : ℚ) ≤ (first - last : ℤ) * (1 + 2 ^ (-47 : ℤ)))
    (∃ cs a, (t.ask script (.history path)).2 = .ok (.commits cs) ∧
      (t.ask script (.frequency path)).2 = .ok a ∧ Measures cs a) ∧
    ∀ (b : Outcomes) (events : List Event), (∀ e ∈ events, e.IsExpected) →
      start.world.Obeys b events → ∀ a, start.world.Gets events (.frequency path) a →
        ∃ cs, b.MayYield (Path.absolute repo) now (.history path) (.ok (.commits cs)) ∧
          Measures cs a := by
  intro start t Measures
  have hmeasures : ∀ cs, Measures cs (World.answerOf (.frequency path) cs) := by
    intro cs
    refine ⟨frequencyOf cs, rfl, fun hfew ↦ if_pos hfew, fun ts first last hlisted ↦ ?_⟩
    have hrate := hlisted.isRate_frequencyOf
    refine ⟨hrate, fun oldest newest holdest hnewest ↦ ⟨?_, fun hwhole ↦ ?_⟩⟩
    · rintro rfl rfl
      exact hrate
    · have horder : oldest ≤ newest := holdest.2 hnewest.1
      have hsome : 0 < cs.length := Nat.lt_of_lt_of_le two_pos hlisted.two
      rcases hrate.le_mul hsome hwhole with hnone | ⟨hpos, hspans⟩
      · exact Or.inl (by omega)
      · exact Or.inr ⟨by omega, hspans⟩
  exact answers_from_commits repo now hscript earlier rfl hmeasures

/-- Three commits of a file, of which the last listed is ten days older than the second. -/
def rebasedLog : String :=
  "abcdef2\tAda\t2024-01-02T01:00:00+02:00\tMend\na.js\n\n" ++
    "abcdef1\tBen\t2024-01-10T23:00:00Z\tGrow\na.js\n\n" ++
    "abcdef0\tAda\t2023-12-31T18:00:00-05:00\tBegin\na.js"

/-- The day between the first and the last listed date is measured, and not the ten days that lie
between the oldest and the newest. -/
theorem frequency_measures_listed_span_of_rebased :
    let script := topScript rebasedLog
    let t := (fresh "/srv/app" 63900000000000000).afterAsking script [.history "b.js"]
    script.IsExpected ∧ ∃ cs x,
      (t.ask script (.history "a.js")).2 = .ok (.commits cs) ∧
      (t.ask script (.frequency "a.js")).2 = .ok (.frequency x) ∧
      IsRate 3 microsPerDay x ∧ ¬ IsRate 3 (10 * microsPerDay) x := by
  intro script t
  have hexpected : script.IsExpected := isExpected_topScript rebasedLog
  obtain ⟨⟨cs, a, hhistory, hfrequency, x, rfl, -, hmeasures⟩, -⟩ :=
    frequency_measures_listed_span "/srv/app" 63900000000000000 hexpected [.history "b.js"] "a.js"
  let day : ℤ := microsPerDay
  let oldest : ℤ := 738885 * day + 23 * 3600 * microsPerSecond
  have hdates : (toldCommits (t.ask script (.history "a.js")).2).map
      (fun c ↦ (Moment.parse? c.date).map Moment.instant) =
        [oldest + day, oldest + 10 * day, oldest].map some := by
    decide +kernel
  -- The instance is fixed now, so that nothing unfolds it.
  have ht : (fresh "/srv/app" 63900000000000000).afterAsking script [.history "b.js"] = t :=
    rfl
  rw [ht] at hhistory hfrequency
  clear_value t
  rw [hhistory] at hdates
  have hlength : cs.length = 3 := by
    have hlists := congrArg List.length hdates
    rwa [List.length_map, List.length_map] at hlists
  have hmany : cs.length ≤ 2 ^ 960 := by
    rw [hlength]
    exact (show 3 ≤ 2 ^ 2 by decide).trans (pow_le_pow_right₀ one_le_two (by decide))
  obtain ⟨hrate, hwhole⟩ := hmeasures _ (oldest + day) oldest ⟨hdates, rfl, rfl, by omega, hmany⟩
  have hleast : IsLeast {t | t ∈ [oldest + day, oldest + 10 * day, oldest]} oldest := by
    simp [IsLeast, lowerBounds, day]
  have hgreatest :
      IsGreatest {t | t ∈ [oldest + day, oldest + 10 * day, oldest]} (oldest + 10 * day) := by
    simp [IsGreatest, upperBounds, day]
  have hlonger := (hwhole oldest (oldest + 10 * day) hleast hgreatest).2
  rw [hlength, add_sub_cancel_left] at hrate hlonger
  rw [add_sub_cancel_left] at hlonger
  refine ⟨hexpected, cs, x, hhistory, hfrequency, hrate, fun hten ↦ ?_⟩
  rcases hlonger hten with hsame | ⟨-, hspans⟩
  · norm_num [day] at hsame
  · norm_num [day] at hspans

end RepoSurvey.History
