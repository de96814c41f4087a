import RepoSurvey.Proofs.History.WholeLog

/-!
# Recent changes are the dated part of the index

A question about recent changes walks the commits and gathers them under their files. Where each
hash heads one commit only, the commits of a file are those whose hash it stands under
(`LogIndex.Dual.commitsOf_eq_filter`), so what is gathered under a file is the recent part of its
commits (`IsRecentPart`, `isRecentPart_recentOf`).

The later the instant, the shorter that part (`IsRecentPart.sublist`). An instant that lies a whole
number of days back can be had if it is a date (`cutoff_whole`), and more days lead further back
(`le_of_atMost`).
-/

namespace RepoSurvey.History

open RepoSurvey.Assoc RepoSurvey.Time

/-! ### The commits of a file -/

namespace LogIndex.Dual

variable {x : LogIndex}

/-- Where no hash heads two commits, the commits of a file are those whose hash it stands under. -/
theorem commitsOf_eq_filter (hx : x.Dual) (hnodup : (x.commits.map Commit.hash).Nodup)
    (file : String) :
    x.commitsOf file = x.commits.filter fun c ↦ file ∈ x.filesOf c.hash := by
  have hsub := hx.sublist_commits file
  have hmem : ∀ c ∈ x.commits, c ∈ x.commitsOf file ↔ file ∈ x.filesOf c.hash := by
    intro c hc
    rw [← hx.mem_hashes_commitsOf]
    refine ⟨List.mem_map_of_mem, fun hhash ↦ ?_⟩
    obtain ⟨c', hc', heq⟩ := List.mem_map.1 hhash
    rwa [← List.inj_on_of_nodup_map hnodup (hsub.subset hc') hc heq]
  have hcommits : x.commits.Nodup := hnodup.of_map
  have hperm : (x.commitsOf file).Perm (x.commits.filter fun c ↦ file ∈ x.filesOf c.hash) := by
    refine (List.perm_ext_iff_of_nodup (hcommits.sublist hsub) (hcommits.filter _)).2 fun c ↦ ?_
    rw [List.mem_filter, decide_eq_true_eq]
    exact ⟨fun hc ↦ ⟨hsub.subset hc, (hmem c (hsub.subset hc)).1 hc⟩,
      fun hc ↦ (hmem c hc.1).2 hc.2⟩
  have hkept := hsub.filter fun c ↦ decide (file ∈ x.filesOf c.hash)
  rw [List.filter_eq_self.2 fun c hc ↦ decide_eq_true ((hmem c (hsub.subset hc)).1 hc)] at hkept
  exact hkept.eq_of_length hperm.length_eq

end LogIndex.Dual

/-! ### What is gathered -/

/-- Under a file stand those commits that touch it. -/
theorem valuesOf_files {x : LogIndex} (hx : x.Dual) (file : String) (commits : List Commit) :
    valuesOf file (commits.flatMap fun c ↦ (x.filesOf c.hash).map (·, c)) =
      commits.filter fun c ↦ file ∈ x.filesOf c.hash := by
  induction commits with
  | nil => rfl
  | cons c commits ih =>
    have honce : valuesOf file ((x.filesOf c.hash).map (·, c)) =
        if file ∈ x.filesOf c.hash then [c] else [] := by
      rw [valuesOf, List.filter_map, List.map_map]
      show ((x.filesOf c.hash).filter (· == file)).map (fun _ ↦ c) = _
      rw [List.filter_beq, (hx.nodup_filesOf c.hash).count]
      split <;> rfl
    rw [List.flatMap_cons, valuesOf_append, ih, honce, List.filter_cons]
    split <;> simp [*]

/-- The answer gathers pairs of a file and a commit. -/
theorem recentOf_eq_gather (x : LogIndex) (since : Int) :
    recentOf x since = gather ((x.commits.filter (isRecent since)).flatMap fun c ↦
      (x.filesOf c.hash).map (·, c)) := by
  rw [gather, List.foldl_flatMap]
  simp only [List.foldl_map]
  rfl

/-- A commit is not older than an instant: if its date can be read, the moment that it stands for
is not before the instant. Nothing is asked of a commit whose date cannot be read. -/
def IsNotOlder (since : Int) (c : Commit) : Prop :=
  ∀ m ∈ Moment.parse? c.date, since ≤ m.instant

instance (since : Int) : DecidablePred (IsNotOlder since) := fun c ↦
  inferInstanceAs (Decidable (∀ m ∈ Moment.parse? c.date, since ≤ m.instant))

/-- The test that is run on a commit is that it is not older. -/
theorem isRecent_eq (since : Int) (c : Commit) :
    isRecent since c = decide (IsNotOlder since c) := by
  rw [Bool.eq_iff_iff, decide_eq_true_eq, isRecent, IsNotOlder]
  cases Moment.parse? c.date <;> simp

/-- What is not older than a later instant is not older than an earlier one. -/
theorem IsNotOlder.of_le {since since' : Int} {c : Commit} (h : IsNotOlder since c)
    (hle : since' ≤ since) : IsNotOlder since' c :=
  fun m hm ↦ Int.le_trans hle (h m hm)

/-- Each file that has commits which are not older stands once, with these commits. -/
structure IsRecentPart (x : LogIndex) (since : Int) (files : List (String × List Commit)) :
    Prop where
  nodup : (keys files).Nodup
  lookup_iff : ∀ file cs, files.lookup file = some cs ↔
    cs = (x.commitsOf file).filter (IsNotOlder since) ∧ cs ≠ []

/-- What is gathered is the recent part of an index. -/
theorem isRecentPart_recentOf {x : LogIndex} (hx : x.Dual)
    (hnodup : (x.commits.map Commit.hash).Nodup) (since : Int) :
    IsRecentPart x since (recentOf x since) := by
  have hdated : isRecent since = fun c ↦ decide (IsNotOlder since c) :=
    funext (isRecent_eq since)
  rw [recentOf_eq_gather, hdated]
  refine ⟨nodup_keys_gather _, fun file cs ↦ ?_⟩
  rw [lookup_gather_eq_some_iff, valuesOf_files hx, hx.commitsOf_eq_filter hnodup,
    List.filter_filter, List.filter_filter]
  simp only [Bool.and_comm]

/-- The further back, the more of the commits of a file are recent. -/
theorem IsRecentPart.sublist {x : LogIndex} {since since' : Int}
    {files files' : List (String × List Commit)} (h : IsRecentPart x since files)
    (h' : IsRecentPart x since' files') (hle : since' ≤ since) {file : String} {cs : List Commit}
    (hcs : files.lookup file = some cs) :
    ∃ cs', files'.lookup file = some cs' ∧ cs.Sublist cs' := by
  obtain ⟨rfl, hne⟩ := (h.lookup_iff file cs).1 hcs
  have hsub : ((x.commitsOf file).filter (IsNotOlder since)).Sublist
      ((x.commitsOf file).filter (IsNotOlder since')) :=
    List.monotone_filter_right _ fun c hc ↦
      decide_eq_true ((of_decide_eq_true hc : IsNotOlder since c).of_le hle)
  refine ⟨_, (h'.lookup_iff file _).2 ⟨rfl, fun hnil ↦ hne ?_⟩, hsub⟩
  rw [hnil] at hsub
  exact List.sublist_nil.1 hsub

/-! ### How far back -/

/-- An instant is a date of the calendar. -/
def IsDate (instant : Int) : Prop :=
  1 ≤ instant / microsPerDay ∧ instant / microsPerDay ≤ 3652059

instance : DecidablePred IsDate := fun instant ↦
  inferInstanceAs (Decidable (1 ≤ instant / microsPerDay ∧ instant / microsPerDay ≤ 3652059))

/-- One number of days is at most another, as spans of time. -/
def Days.AtMost (d₁ d₂ : Days) : Prop :=
  ∃ m₁ m₂, d₁.micros = .ok m₁ ∧ d₂.micros = .ok m₂ ∧ m₁ ≤ m₂

/-- Whole numbers of days are compared as numbers. -/
theorem Days.atMost_whole_iff {n₁ n₂ : Int} : (Days.whole n₁).AtMost (.whole n₂) ↔ n₁ ≤ n₂ := by
  constructor
  · rintro ⟨m₁, m₂, h₁, h₂, hle⟩
    obtain rfl := Except.ok.inj h₁
    obtain rfl := Except.ok.inj h₂
    simp only [microsPerDay, microsPerSecond] at hle
    omega
  · intro hle
    refine ⟨_, _, rfl, rfl, ?_⟩
    simp only [microsPerDay, microsPerSecond]
    omega

/-- A cutoff lies back by the span of the days. -/
theorem exists_micros_of_cutoff {now since : Int} {days : Days}
    (h : cutoff now days = .ok since) : ∃ m, days.micros = .ok m ∧ since = now - m := by
  rcases hm : days.micros with fault | m
  · simp [cutoff, hm, bind, Except.bind] at h
  · refine ⟨m, rfl, ?_⟩
    simp only [cutoff, hm, bind, Except.bind] at h
    split at h
    · cases h
    split at h
    · cases h
    split at h
    · cases h
    exact (Except.ok.inj h).symm

/-- More days lead further back. -/
theorem le_of_atMost {now since₁ since₂ : Int} {d₁ d₂ : Days} (h : d₁.AtMost d₂)
    (h₁ : cutoff now d₁ = .ok since₁) (h₂ : cutoff now d₂ = .ok since₂) : since₂ ≤ since₁ := by
  obtain ⟨m₁, m₂, hm₁, hm₂, hle⟩ := h
  obtain ⟨m₁', hm₁', rfl⟩ := exists_micros_of_cutoff h₁
  obtain ⟨m₂', hm₂', rfl⟩ := exists_micros_of_cutoff h₂
  obtain rfl := Except.ok.inj (hm₁.symm.trans hm₁')
  obtain rfl := Except.ok.inj (hm₂.symm.trans hm₂')
  omega

/-- A whole number of days leads back to where there is a date. -/
theorem cutoff_whole {now n : Int} (hnow : IsDate now) (hthen : IsDate (now - n * microsPerDay)) :
    cutoff now (.whole n) = .ok (now - n * microsPerDay) := by
  rw [IsDate] at hnow hthen
  simp only [microsPerDay, microsPerSecond] at hnow hthen
  have hwhole : n * (microsPerDay : Int) / microsPerDay = n := by
    simp only [microsPerDay, microsPerSecond]
    omega
  simp only [cutoff, Days.micros, bind, Except.bind, hwhole]
  rw [if_neg (by omega)]
  simp only [pure, Except.pure, microsPerDay, microsPerSecond]
  rw [if_neg (by omega), if_neg (by omega)]

/-! ### In the course of a run -/

/-- **Recent changes are the dated part of the index.** Let the directory be found and the whole log
be read, with threads taking turns in any way; let `x` be the index of the log, in which no hash
heads two commits. Whoever asks for the changes of the last days, where these lead back to a date,
is given each file that has commits which are not older, with those of its commits, in order; and is
given an answer once nobody can go on. A whole number of days leads back wherever there is a date.
With more days a file has at least the commits that it has with fewer. -/
theorem recent_changes_exact (repo : String) (now : Int) {output log : String}
    {events : List Event} (hevents : ∀ e ∈ events, e.IsExpected)
    (hobeys : (fresh repo now).world.Obeys (readsWhole output log) events)
    (hnodup : ((parseLog (belowOf output) log).commits.map Commit.hash).Nodup) :
    let start := (fresh repo now).world
    let x := parseLog (belowOf output) log
    (∀ days since, cutoff now days = .ok since →
      (∀ a, start.Gets events (.recent days) a →
        ∃ files, a = .recent files ∧ IsRecentPart x since files) ∧
      (∀ before later, events = before ++ .ask [.recent days] :: later →
        (∀ j, (start.run events).canGoOn j = false) →
        ∃ a, (start.run events).result? (start.askerAfter before) = some (.ok (.all [a])))) ∧
    (∀ n, IsDate now → IsDate (now - n * microsPerDay) →
      cutoff now (.whole n) = .ok (now - n * microsPerDay)) ∧
    (∀ n₁ n₂, n₁ ≤ n₂ → (Days.whole n₁).AtMost (.whole n₂)) ∧
    ∀ d₁ d₂, d₁.AtMost d₂ → (∃ since, cutoff now d₁ = .ok since) →
      (∃ since, cutoff now d₂ = .ok since) →
      ∀ files₁ files₂, start.Gets events (.recent d₁) (.recent files₁) →
        start.Gets events (.recent d₂) (.recent files₂) →
        ∀ file cs, files₁.lookup file = some cs →
          ∃ cs', files₂.lookup file = some cs' ∧ cs.Sublist cs' := by
  intro start x
  have hexact : ∀ days since a, cutoff now days = .ok since →
      start.Gets events (.recent days) a →
      ∃ files, a = .recent files ∧ IsRecentPart x since files := by
    intro days since a hsince ha
    have heq := eq_recent_of_mayYield hsince (ha.mayYield hevents hobeys)
    obtain rfl := Except.ok.inj heq
    exact ⟨_, rfl, isRecentPart_recentOf (dual_parseLog _ _) hnodup since⟩
  refine ⟨fun days since hsince ↦ ⟨fun a ↦ hexact days since a hsince, ?_⟩,
    fun n ↦ cutoff_whole, fun n₁ n₂ ↦ Days.atMost_whole_iff.2, ?_⟩
  · intro before later hsplit hstill
    obtain ⟨r, hr, hmay⟩ := World.exists_mayEnd hsplit hevents hobeys hstill
    -- the days have a cutoff, so the question cannot fail
    obtain ⟨a, rfl⟩ := hmay.exists_answer fun e he ↦ by cases eq_recent_of_mayYield hsince he
    exact ⟨a, hr⟩
  · rintro d₁ d₂ hle ⟨since₁, h₁⟩ ⟨since₂, h₂⟩ files₁ files₂ hgets₁ hgets₂ file cs hcs
    obtain ⟨_, heq₁, hpart₁⟩ := hexact _ _ _ h₁ hgets₁
    obtain ⟨_, heq₂, hpart₂⟩ := hexact _ _ _ h₂ hgets₂
    obtain rfl := Answer.recent.inj heq₁
    obtain rfl := Answer.recent.inj heq₂
    exact hpart₁.sublist hpart₂ (le_of_atMost hle h₁ h₂) hcs

/-- A commit that is three days old by the clock of the run, and one that does not say when it was
made. -/
def datedLog : String :=
  "abcdef1\tAda\t2025-11-25\tMend\na.js\n\nabcdef0\tBen\t-\tBegin\na.js\nb.js"

/-- The directory is the top of its work tree, and the whole log is read. -/
def datedOutputs : Command → Outcome
  | .showPrefix => .ok "\n"
  | .fullLog => .ok datedLog
  | .fileLog _ | .listFiles => .ok ""

/-- Two clients ask, one for what has changed in a day and one for what has changed in a week. The
build is thread 2 and the check thread 3. -/
def datedEvents : List Event :=
  [.ask [.recent (.whole 1)], .ask [.recent (.whole 7)], .goOn 0 (.ok ""), .goOn 1 (.ok ""),
    .goOn 2 (.ok ""), .goOn 3 (.ok ""), .goOn 3 (datedOutputs .showPrefix), .goOn 2 (.ok ""),
    .goOn 2 (datedOutputs .fullLog), .goOn 0 (.ok ""), .goOn 1 (.ok "")]

/-- One of the commits is three days old and the other has no date: in a day only the second is
recent, in a week both are. -/
theorem recent_changes_exact_of_dated :
    let now : Int := 63900000000000000
    let start := (fresh "/srv/app" now).world
    let x := parseLog (belowOf "\n") datedLog
    (∀ e ∈ datedEvents, e.IsExpected) ∧ start.Obeys (readsWhole "\n" datedLog) datedEvents ∧
      (x.commits.map Commit.hash).Nodup ∧ IsDate now ∧ IsDate (now - 7 * microsPerDay) ∧
      ∃ files files', (start.run datedEvents).result? 0 = some (.ok (.all [.recent files])) ∧
        (start.run datedEvents).result? 1 = some (.ok (.all [.recent files'])) ∧
        IsRecentPart x (now - 1 * microsPerDay) files ∧
        IsRecentPart x (now - 7 * microsPerDay) files' ∧
        ∀ file cs, files.lookup file = some cs →
          ∃ cs', files'.lookup file = some cs' ∧ cs.Sublist cs' := by
  intro now start x
  have hevents : ∀ e ∈ datedEvents, e.IsExpected := by
    simp [datedEvents, Event.IsExpected, Outcome.IsExpected, datedOutputs]
  have hfixed : start.Obeys (always datedOutputs) datedEvents := by decide +kernel
  have hobeys : start.Obeys (readsWhole "\n" datedLog) datedEvents := hfixed.readsWhole rfl rfl
  have hnodup : (x.commits.map Commit.hash).Nodup := by decide +kernel
  have hthreads : (start.run datedEvents).threads.length = 4 ∧
      ∀ j : Fin 4, (start.run datedEvents).canGoOn j = false := by decide +kernel
  have hstill := World.canGoOn_eq_false_of_fin hthreads
  obtain ⟨hexact, hwhole, hmost, hsublist⟩ :=
    recent_changes_exact "/srv/app" now hevents hobeys hnodup
  have hnow : IsDate now := by decide +kernel
  have hweek : IsDate (now - 7 * microsPerDay) := by decide +kernel
  have hday : cutoff now (.whole 1) = .ok (now - 1 * microsPerDay) :=
    hwhole 1 hnow (by decide +kernel)
  have hsince := hwhole 7 hnow hweek
  obtain ⟨hgets, hends⟩ := hexact _ _ hday
  obtain ⟨hgets', hends'⟩ := hexact _ _ hsince
  obtain ⟨a, hresult⟩ := hends [] _ rfl hstill
  obtain ⟨a', hresult'⟩ := hends' [.ask [.recent (.whole 1)]] _ rfl hstill
  have hasks : start.Gets datedEvents (.recent (.whole 1)) a :=
    ⟨[], _, _, _, rfl, hresult, List.mem_singleton.2 rfl⟩
  have hasks' : start.Gets datedEvents (.recent (.whole 7)) a' :=
    ⟨[.ask [.recent (.whole 1)]], _, _, _, rfl, hresult', List.mem_singleton.2 rfl⟩
  obtain ⟨files, rfl, hpart⟩ := hgets a hasks
  obtain ⟨files', rfl, hpart'⟩ := hgets' a' hasks'
  exact ⟨hevents, hobeys, hnodup, hnow, hweek, files, files', hresult, hresult', hpart, hpart',
    hsublist _ _ (hmost 1 7 (by decide)) ⟨_, hday⟩ ⟨_, hsince⟩ files files' hasks hasks'⟩

end RepoSurvey.History
