import RepoSurvey.Proofs.History.Queue

/-!
# Asking together in any order

Clients that are asked together begin one after the other. How they go on from there is left open
here: any thread that can go on may do so, somebody else may ask as well, and every command may end
with any outcome that it may have. `World.MayTell` says what the clients may be told in the course
of some such run, which is all answers once all of them have ended, or the fault of one.

A history that can be asked stays one (`World.InUse.of_runsTo`), so that clients may be asked batch
after batch. Where no question can fail, everybody is told answers that the questions may have
(`World.MayTell.exists_answers`); that is all that can be said of clients of which the order is not
known, and where a question may have one answer only it is enough. Nobody is left without an answer:
when no thread can go on, the clients have been told something (`World.InUse.exists_mayTell`).
-/

namespace RepoSurvey.History

/-- Of two related lists, all that stands in the second is related to something in the first. -/
theorem exists_mem_of_forall₂ {α β : Type} {R : α → β → Prop} {as : List α} {bs : List β}
    (h : List.Forall₂ R as bs) {b : β} (hb : b ∈ bs) : ∃ a ∈ as, R a b := by
  induction h with
  | nil => exact absurd hb List.not_mem_nil
  | @cons a b' as bs hhead _ ih =>
    rcases List.mem_cons.1 hb with rfl | hb
    · exact ⟨a, List.mem_cons_self, hhead⟩
    · obtain ⟨a', ha', hR⟩ := ih hb
      exact ⟨a', List.mem_cons_of_mem a ha', hR⟩

/-- Lists that are related through a third one. -/
theorem forall₂_trans {α β γ : Type} {R : α → β → Prop} {S : β → γ → Prop} {T : α → γ → Prop}
    {as : List α} {bs : List β} {cs : List γ} (hR : List.Forall₂ R as bs)
    (hS : List.Forall₂ S bs cs) (h : ∀ a b c, R a b → S b c → T a c) : List.Forall₂ T as cs := by
  induction hR generalizing cs with
  | nil =>
    cases hS
    exact .nil
  | cons hhead _ ih =>
    cases hS with
    | cons hhead' htail => exact .cons (h _ _ _ hhead hhead') (ih htail)

namespace World

variable {b : Outcomes} {repo : String} {now : Int} {w w' : World} {clients : List (List Query)}

/-! ### Later in a run -/

namespace RunsTo

theorem repo_now (h : w.RunsTo b w') (hw : w.Coherent) : w'.repo = w.repo ∧ w'.now = w.now := by
  obtain ⟨events, hevents, -, rfl⟩ := h
  exact run_repo_now hw hevents

/-- A thread that has ended stays as it has ended. -/
theorem result?_eq (h : w.RunsTo b w') (hw : w.Coherent) {i : Nat} {r : Except Fault Answer}
    (hr : w.result? i = some r) : w'.result? i = some r := by
  obtain ⟨events, hevents, -, rfl⟩ := h
  refine (hw.run_induction (P := fun w ↦ w.result? i = some r) ?_ hr hevents).2
  rintro w e hc he hr
  cases e with
  | ask todo => exact (result?_ask w todo).trans hr
  | goOn j outcome =>
    obtain ⟨job, hjob⟩ := result?_eq_some_iff.1 hr
    exact result?_eq_some_iff.2 ⟨job, getElem?_resume_of_done hc he hjob⟩

end RunsTo

/-- A client whose questions cannot fail ends with an answer to each of them. -/
theorem HasAsked.exists_all {i : Nat} {qs : List Query} {u : Thread} {r : Except Fault Answer}
    (h : HasAsked b repo now qs u) (hu : w.threads[i]? = some u)
    (hfault : ∀ q ∈ qs, ∀ e, ¬b.MayYield repo now q (.error e)) (hr : w.result? i = some r) :
    ∃ as, r = .ok (.all as) ∧
      List.Forall₂ (fun q a ↦ b.MayYield repo now q (.ok a)) qs as := by
  have hend := h.mayEnd hu hr
  cases r with
  | ok a =>
    obtain ⟨as, rfl, has⟩ := hend
    exact ⟨as, rfl, has⟩
  | error e =>
    obtain ⟨asked, q, rest, rfl, he, -⟩ := hend
    exact absurd he (hfault q (by simp) e)

/-! ### A history that can be asked -/

/-- The history of a repository at an instant is in order, and what it knows is founded. -/
structure InUse (b : Outcomes) (repo : String) (now : Int) (w : World) : Prop where
  coherent : w.Coherent
  founded : w.Founded b
  repo : w.repo = repo
  now : w.now = now

theorem inUse_fresh (b : Outcomes) (repo : String) (now : Int) :
    (fresh repo now).world.InUse b (Path.absolute repo) now :=
  ⟨coherent_fresh repo now, founded_fresh b repo now, rfl, rfl⟩

theorem InUse.note (h : w.InUse b repo now) (level : Level) (message : String) :
    (w.note level message).InUse b repo now :=
  ⟨h.coherent.move (.note level message), h.founded.note level message, h.repo, h.now⟩

/-- A history that can be asked can be asked after any run. -/
theorem InUse.of_runsTo (h : w.InUse b repo now) (hruns : w.RunsTo b w') :
    w'.InUse b repo now := by
  obtain ⟨hrepo, hnow⟩ := hruns.repo_now h.coherent
  exact ⟨hruns.coherent h.coherent, hruns.founded h.coherent h.founded, hrepo.trans h.repo,
    hnow.trans h.now⟩

/-! ### Clients that begin -/

/-- The world in which clients have begun, each with the questions that it asks one after the
other. -/
def beginAll (w : World) (clients : List (List Query)) : World := w.run (clients.map .ask)

/-- The threads of clients that begin. -/
def newcomers (w : World) (clients : List (List Query)) : List Nat :=
  List.range' w.threads.length clients.length

/-- The first client begins as the next thread, and the others behind it. -/
theorem newcomers_cons (w : World) (todo : List Query) (clients : List (List Query)) :
    w.newcomers (todo :: clients) =
      w.threads.length :: (w.after (.ask todo)).newcomers clients := by
  have hlen : (w.after (.ask todo)).threads.length = w.threads.length + 1 := List.length_append
  rw [newcomers, newcomers, hlen, List.length_cons, List.range'_succ]

/-- Clients that begin one after the other begin in a run. -/
theorem runsTo_beginAll (w : World) (clients : List (List Query)) :
    w.RunsTo b (w.beginAll clients) := by
  induction clients generalizing w with
  | nil => exact .refl w
  | cons todo clients ih =>
    have hask : w.RunsTo b (w.after (.ask todo)) := .after trivial trivial
    exact hask.trans (ih (w.after (.ask todo)))

/-- Whoever was there before is not touched. -/
theorem getElem?_beginAll {i : Nat} {u : Thread} (hu : w.threads[i]? = some u)
    (clients : List (List Query)) : (w.beginAll clients).threads[i]? = some u := by
  induction clients generalizing w with
  | nil => exact hu
  | cons todo clients ih => exact ih ((Move.ask todo).getElem? hu)

/-- Each client that has begun stands at its start, with all its questions ahead. -/
theorem forall₂_beginAll (w : World) (clients : List (List Query)) :
    List.Forall₂ (fun qs i ↦ (w.beginAll clients).threads[i]? = some ⟨.client qs [], .start⟩)
      clients (w.newcomers clients) := by
  induction clients generalizing w with
  | nil => exact .nil
  | cons todo clients ih =>
    rw [newcomers_cons]
    exact .cons (getElem?_beginAll (getElem?_ask w todo) clients) (ih (w.after (.ask todo)))

/-- Whoever has begun is a client ever after, with answers that its questions may have. -/
theorem InUse.hasAsked (h : w.InUse b repo now) (hruns : (w.beginAll clients).RunsTo b w') :
    List.Forall₂ (fun qs i ↦ ∃ u, w'.threads[i]? = some u ∧ HasAsked b repo now qs u) clients
      (w.newcomers clients) := by
  obtain ⟨hcoherent, hfounded, hrepo, hnow⟩ := h.of_runsTo (runsTo_beginAll w clients)
  refine (forall₂_beginAll w clients).imp fun qs i hi ↦ ?_
  rw [← hrepo, ← hnow]
  exact hruns.exists_hasAsked hcoherent hfounded hi ⟨[], rfl, .nil, trivial⟩

/-! ### What clients may be told -/

/-- What clients who ask together may be told in the course of some run: all answers when all of
them have ended, or the fault of one that has failed. -/
inductive MayTell (b : Outcomes) (w : World) (clients : List (List Query)) (w' : World) :
    Except Fault (List (List Answer)) → Prop
  | answers {answers : List (List Answer)} (hruns : (w.beginAll clients).RunsTo b w')
      (hended : List.Forall₂ (fun i as ↦ w'.result? i = some (.ok (.all as)))
        (w.newcomers clients) answers) : MayTell b w clients w' (.ok answers)
  | fault {i : Nat} {e : Fault} (hruns : (w.beginAll clients).RunsTo b w')
      (hmem : i ∈ w.newcomers clients) (hfailed : w'.result? i = some (.error e)) :
      MayTell b w clients w' (.error e)

/-- What clients may be told, they are told at the end of a run. -/
theorem MayTell.runsTo {r : Except Fault (List (List Answer))} (h : w.MayTell b clients w' r) :
    w.RunsTo b w' := by
  cases h with
  | answers hruns _ => exact (runsTo_beginAll w clients).trans hruns
  | fault hruns _ _ => exact (runsTo_beginAll w clients).trans hruns

/-- Clients whose questions cannot fail are told answers that these may have. -/
theorem MayTell.exists_answers {r : Except Fault (List (List Answer))}
    (htell : w.MayTell b clients w' r) (h : w.InUse b repo now)
    (hfault : ∀ qs ∈ clients, ∀ q ∈ qs, ∀ e, ¬b.MayYield repo now q (.error e)) :
    ∃ answers, r = .ok answers ∧
      List.Forall₂ (List.Forall₂ fun q a ↦ b.MayYield repo now q (.ok a)) clients answers := by
  cases htell with
  | @answers answers hruns hended =>
    have hclients := (List.forall₂_and_left clients _).2 ⟨fun qs hqs ↦ hqs, h.hasAsked hruns⟩
    refine ⟨answers, rfl, forall₂_trans hclients hended ?_⟩
    rintro qs i as ⟨hqs, u, hu, hclient⟩ hi
    obtain ⟨_, heq, has⟩ := hclient.exists_all hu (hfault qs hqs) hi
    obtain rfl := Answer.all.inj (Except.ok.inj heq)
    exact has
  | fault hruns hmem hfailed =>
    obtain ⟨qs, hqs, u, hu, hclient⟩ := exists_mem_of_forall₂ (h.hasAsked hruns) hmem
    obtain ⟨as, has, -⟩ := hclient.exists_all hu (hfault qs hqs) hfailed
    cases has

/-- If no thread can go on any more, those who ask together have been told something. -/
theorem InUse.exists_mayTell (h : w.InUse b repo now) (hruns : (w.beginAll clients).RunsTo b w')
    (hstill : ∀ j, w'.canGoOn j = false) : ∃ r, w.MayTell b clients w' r := by
  have hcoherent := ((h.of_runsTo (runsTo_beginAll w clients)).of_runsTo hruns).coherent
  have hended : ∀ i ∈ w.newcomers clients,
      (∃ as, w'.result? i = some (.ok (.all as))) ∨ ∃ e, w'.result? i = some (.error e) := by
    intro i hi
    obtain ⟨qs, -, u, hu, hclient⟩ := exists_mem_of_forall₂ (h.hasAsked hruns) hi
    obtain ⟨r, hr⟩ := Option.isSome_iff_exists.1
      (hcoherent.isSome_result? hstill hu ⟨_, _, hclient⟩)
    have hend := hclient.mayEnd hu hr
    rcases r with e | a
    · exact Or.inr ⟨e, hr⟩
    · obtain ⟨as, rfl, -⟩ := hend
      exact Or.inl ⟨as, hr⟩
  by_cases hfailed : ∃ i ∈ w.newcomers clients, ∃ e, w'.result? i = some (.error e)
  · obtain ⟨i, hi, e, he⟩ := hfailed
    exact ⟨_, .fault hruns hi he⟩
  · have hall : ∀ i ∈ w.newcomers clients, ∃ as, w'.result? i = some (.ok (.all as)) :=
      fun i hi ↦ (hended i hi).resolve_right fun he ↦ hfailed ⟨i, hi, he⟩
    choose! answers hanswers using hall
    have htold : List.Forall₂ (fun i as ↦ w'.result? i = some (.ok (.all as)))
        (w.newcomers clients) ((w.newcomers clients).map answers) := by
      rw [List.forall₂_map_right_iff, List.forall₂_same]
      exact hanswers
    exact ⟨_, .answers hruns htold⟩

end World

end RepoSurvey.History
