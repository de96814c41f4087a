import RepoSurvey.Proofs.History.FileLogs

/-!
# Questions where the whole log can be read

`World.Gets` says that somebody who asks a question in the course of a run is given an answer. Such
an answer is one that the question may have (`World.Gets.mayYield`), and whoever asks is given one
once nobody can go on (`World.exists_mayEnd`).

Where the directory is found and the whole log is read (`readsWhole`) there is only one index that
may be read, and what may be told of a file are the commits that this index has for it. So a
question about files that change together has one answer only, and so has a question about recent
changes.
-/

namespace RepoSurvey.History

namespace World

variable {b : Outcomes} {repo : String} {now : Int} {events : List Event}

/-- Somebody who asks `q` in the course of a run is given the answer `a`. -/
def Gets (w : World) (events : List Event) (q : Query) (a : Answer) : Prop :=
  ∃ before qs later as, events = before ++ .ask qs :: later ∧
    (w.run events).result? (w.askerAfter before) = some (.ok (.all as)) ∧ (q, a) ∈ qs.zip as

/-- What somebody is given is an answer that the question may have. -/
theorem Gets.mayYield (hevents : ∀ e ∈ events, e.IsExpected)
    (hobeys : (fresh repo now).world.Obeys b events) {q : Query} {a : Answer}
    (h : (fresh repo now).world.Gets events q a) :
    b.MayYield (Path.absolute repo) now q (.ok a) := by
  obtain ⟨before, qs, later, as, rfl, hresult, hmem⟩ := h
  obtain ⟨t, ht, hasked⟩ := exists_hasAsked_of_ask hevents hobeys
  obtain ⟨as', heq, has⟩ := hasked.mayEnd ht hresult
  obtain rfl := Answer.all.inj heq
  exact List.forall₂_zip has hmem

/-- Once nobody can go on, whoever has asked has ended as he may. -/
theorem exists_mayEnd {before later : List Event} {qs : List Query}
    (hsplit : events = before ++ .ask qs :: later) (hevents : ∀ e ∈ events, e.IsExpected)
    (hobeys : (fresh repo now).world.Obeys b events)
    (hstill : ∀ j, ((fresh repo now).world.run events).canGoOn j = false) :
    ∃ r, ((fresh repo now).world.run events).result? ((fresh repo now).world.askerAfter before) =
      some r ∧ MayEnd b (Path.absolute repo) now qs r := by
  subst hsplit
  obtain ⟨t, ht, hasked⟩ := exists_hasAsked_of_ask hevents hobeys
  have hsome := ((coherent_fresh repo now).run hevents).isSome_result? hstill ht ⟨_, _, hasked⟩
  obtain ⟨r, hr⟩ := Option.isSome_iff_exists.1 hsome
  exact ⟨r, hr, hasked.mayEnd ht hr⟩

/-- Whether nobody can go on is seen by looking at all threads. -/
theorem canGoOn_eq_false_of_fin {w : World} {n : Nat}
    (h : w.threads.length = n ∧ ∀ j : Fin n, w.canGoOn j = false) (j : Nat) :
    w.canGoOn j = false := by
  by_cases hj : j < n
  · exact h.2 ⟨j, hj⟩
  · rw [canGoOn, List.getElem?_eq_none (by omega)]

/-- A client that has asked one question, which cannot fail, ends with an answer to it. -/
theorem MayEnd.exists_answer {q : Query} {r : Except Fault Answer}
    (hq : ∀ e, ¬b.MayYield repo now q (.error e)) (h : MayEnd b repo now [q] r) :
    ∃ a, r = .ok (.all [a]) := by
  cases r with
  | ok a =>
    obtain ⟨as, rfl, has⟩ := h
    obtain ⟨a, as, -, hnil, rfl⟩ := List.forall₂_cons_left_iff.1 has
    rw [List.forall₂_nil_left_iff.1 hnil]
    exact ⟨a, rfl⟩
  | error e =>
    obtain ⟨asked, q', rest, hsplit, he, -⟩ := h
    rcases asked with - | ⟨q'', asked⟩
    · obtain ⟨rfl, -⟩ := List.cons.inj hsplit
      exact absurd he (hq e)
    · simp at hsplit

end World

/-! ### The index that is read -/

section ReadsWhole

variable {output log : String}

/-- A run whose commands have fixed outcomes reads the whole log if one of these is the log. -/
theorem World.Obeys.readsWhole {fixed : Command → Outcome} {w : World} {events : List Event}
    (h : w.Obeys (always fixed) events) (hbelow : fixed .showPrefix = .ok output)
    (hlog : fixed .fullLog = .ok log) : w.Obeys (readsWhole output log) events := by
  refine h.of_always ?_
  rintro (_ | _ | key | _)
  · exact hbelow
  · exact hlog
  · exact trivial
  · exact trivial

theorem not_mayFail_showPrefix : ¬(readsWhole output log).MayFail .showPrefix := by
  rintro ⟨fault, hfault⟩
  cases hfault

theorem not_mayFail_fullLog : ¬(readsWhole output log).MayFail .fullLog := by
  rintro ⟨fault, hfault⟩
  cases hfault

/-- There is one index that may be read. -/
theorem eq_parseLog_of_readsWhole {x : LogIndex} (hx : (readsWhole output log).MayIndex x) :
    x = parseLog (belowOf output) log := by
  obtain ⟨below, log', ⟨output', houtput, rfl⟩, hlog, rfl⟩ := hx
  obtain rfl := Except.ok.inj houtput
  obtain rfl := Except.ok.inj hlog
  rfl

/-- So of a file only the commits may be told that this index has for it. -/
theorem eq_commitsOf_of_readsWhole {key : String} {cs : List Commit}
    (hcs : (readsWhole output log).MayTell key cs) :
    cs = (parseLog (belowOf output) log).commitsOf key := by
  rcases hcs with ⟨x, hx, rfl⟩ | ⟨-, hfail, -⟩
  · rw [eq_parseLog_of_readsWhole hx]
  · exact absurd hfail not_mayFail_fullLog

/-! ### The answers that there are -/

variable {repo : String} {now : Int} {r : Except Fault Answer}

/-- The files that change together with a file are counted in this index. -/
theorem eq_related_of_mayYield {path : String} {threshold : Float} (hkey : keyOf repo path ≠ "")
    (h : (readsWhole output log).MayYield repo now (.together path threshold) r) :
    let x := parseLog (belowOf output) log
    r = .ok (.related
      (relatedOf x (keyOf repo path) (x.commitsOf (keyOf repo (keyOf repo path))) threshold)) := by
  intro x
  cases h with
  | outside hfail => exact absurd hfail not_mayFail_showPrefix
  | noKey hpath hnone =>
    obtain rfl := Option.some.inj hpath
    exact absurd hnone hkey
  | file hpath | fileLost hpath => cases hpath
  | together _ hx hcs => rw [eq_parseLog_of_readsWhole hx, eq_commitsOf_of_readsWhole hcs]
  | noIndex _ _ _ hfail => exact absurd hfail not_mayFail_fullLog

/-- Recent changes are gathered from this index. -/
theorem eq_recent_of_mayYield {days : Days} {since : Int} (hsince : cutoff now days = .ok since)
    (h : (readsWhole output log).MayYield repo now (.recent days) r) :
    r = .ok (.recent (recentOf (parseLog (belowOf output) log) since)) := by
  cases h with
  | outside hfail => exact absurd hfail not_mayFail_showPrefix
  | noKey hpath | file hpath | fileLost hpath => cases hpath
  | recent hx hsince' =>
    rw [eq_parseLog_of_readsWhole hx, Except.ok.inj (hsince'.symm.trans hsince)]
  | noDate hx hsince' => cases hsince'.symm.trans hsince
  | noIndex _ _ _ hfail => exact absurd hfail not_mayFail_fullLog

end ReadsWhole

end RepoSurvey.History
