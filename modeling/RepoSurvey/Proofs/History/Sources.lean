import Mathlib.Data.List.Forall2
import RepoSurvey.Proofs.History.Effort
import RepoSurvey.Proofs.History.LogIndex

/-!
# What answers are drawn from

What a history knows has come out of its commands. `Outcomes` says which outcomes a command may
have. From that follows what a history may know: where its directory lies (`MayKnow`), which index
it may have read (`MayIndex`), which commits of a file it may remember (`MayTell`), and so which
answers it may give (`MayYield`) and where a thread may stand (`MayStand`).

`World.Founded` says that all that a world knows, and where its threads stand, is of that kind. What
is remembered of files is kept apart: all the rest stays founded whatever is remembered
(`Known.moves`), so that for an operation it only remains to be seen what it remembers and yields.
As with turns, there is one statement for each operation, from `founded_afterIndex` to
`founded_clientFrom`, and none of them looks into another operation. Together they show that a
thread which goes on leaves a founded world (`founded_resume`).
-/

namespace RepoSurvey.History

open RepoSurvey.Text

/-- The outcomes that commands may have. -/
abbrev Outcomes := Command → Outcome → Prop

/-- Where a directory lies, by the output of the check's command. -/
def belowOf (output : String) : String :=
  String.ofList (replaceChar '\\' '/' (trim output.toList))

/-- The path of a question about a file. -/
def Query.path? : Query → Option String
  | .history path | .ownership path | .frequency path | .together path _ => some path
  | .check | .recent _ | .tracked => none

/-- Whether a question asks for the check itself, and not for the index. -/
def Query.NeedsCheck : Query → Prop
  | .together _ _ | .recent _ => False
  | .check | .history _ | .ownership _ | .frequency _ | .tracked => True

/-- Whether a question comes to need the index; one about a file does so only if it has a key. -/
def Query.NeedsIndex (repo : String) (q : Query) : Prop :=
  (∃ path, q.path? = some path ∧ keyOf repo path ≠ "") ∨ ∃ days, q = .recent days

namespace Outcomes

variable (b : Outcomes)

/-! ### What may be known -/

/-- Whether a command may fail. -/
def MayFail (c : Command) : Prop := ∃ fault, b c (.error fault)

/-- Where the directory may lie. -/
def MayKnow (below : String) : Prop := ∃ output, b .showPrefix (.ok output) ∧ below = belowOf output

/-- Whether there may be a repository. -/
def MayHaveRepository : Prop := ∃ below, b.MayKnow below

/-- The indices that may be read. -/
def MayIndex (x : LogIndex) : Prop :=
  ∃ below log, b.MayKnow below ∧ b .fullLog (.ok log) ∧ x = parseLog below log

/-- The commits of a file that may be remembered: those of an index, or those of the file's own log
where the whole log could not be read. -/
def MayTell (key : String) (cs : List Commit) : Prop :=
  (∃ x, b.MayIndex x ∧ cs = x.commitsOf key) ∨
    (b.MayHaveRepository ∧ b.MayFail .fullLog ∧
      ∃ log, b (.fileLog key) (.ok log) ∧ cs = (parseLog "" log).commits)

/-- The answers that a question may have, and the faults by which it may fail. -/
inductive MayYield (repo : String) (now : Int) : Query → Except Fault Answer → Prop
  /-- There is no repository, which only the check tells. -/
  | refused (hfail : b.MayFail .showPrefix) :
    MayYield repo now .check (.error (.notARepository repo))
  | outside {q : Query} (hfail : b.MayFail .showPrefix) (hq : q ≠ .check) :
    MayYield repo now q (.ok (World.default q))
  /-- The path does not lie in the directory. -/
  | noKey {q : Query} {path : String} (hpath : q.path? = some path)
    (hkey : keyOf repo path = "") : MayYield repo now q (.ok (World.default q))
  | check (hbelow : b.MayHaveRepository) : MayYield repo now .check (.ok .nothing)
  | file {q : Query} {path : String} {cs : List Commit}
    (hpath : World.historyPath? q = some path) (hkey : keyOf repo path ≠ "")
    (hcs : b.MayTell (keyOf repo path) cs) : MayYield repo now q (.ok (World.answerOf q cs))
  /-- Neither the whole log nor that of the file can be read. -/
  | fileLost {q : Query} {path : String} (hpath : World.historyPath? q = some path)
    (hkey : keyOf repo path ≠ "") (hbelow : b.MayHaveRepository) (hfail : b.MayFail .fullLog)
    (hlost : b.MayFail (.fileLog (keyOf repo path))) :
    MayYield repo now q (.ok (World.answerOf q []))
  | together {path : String} {threshold : Float} {x : LogIndex} {cs : List Commit}
    (hkey : keyOf repo path ≠ "") (hx : b.MayIndex x)
    (hcs : b.MayTell (keyOf repo (keyOf repo path)) cs) :
    MayYield repo now (.together path threshold)
      (.ok (.related (relatedOf x (keyOf repo path) cs threshold)))
  | recent {days : Days} {x : LogIndex} {since : Int} (hx : b.MayIndex x)
    (hsince : cutoff now days = .ok since) :
    MayYield repo now (.recent days) (.ok (.recent (recentOf x since)))
  /-- The index has been read, and there is no such date. -/
  | noDate {days : Days} {x : LogIndex} {fault : SpanFault} (hx : b.MayIndex x)
    (hsince : cutoff now days = .error fault) :
    MayYield repo now (.recent days) (.error (.span fault))
  /-- A question about more than one file needs the whole log. -/
  | noIndex {q : Query} (hq : q.NeedsIndex repo) (hpath : World.historyPath? q = none)
    (hbelow : b.MayHaveRepository) (hfail : b.MayFail .fullLog) :
    MayYield repo now q (.ok (World.default q))
  | tracked {output : String} (hbelow : b.MayHaveRepository) (houtput : b .listFiles (.ok output)) :
    MayYield repo now .tracked (.ok (.tracked (trackedOf output)))
  | untracked (hbelow : b.MayHaveRepository) (hfail : b.MayFail .listFiles) :
    MayYield repo now .tracked (.ok (World.default .tracked))

/-- The points at which a question may wait. -/
def MayWait (repo : String) (q : Query) : Point → Prop
  | .onCheck _ => q.NeedsCheck
  | .onIndex _ => q.NeedsIndex repo
  | .command (.fileLog key) =>
    b.MayHaveRepository ∧ b.MayFail .fullLog ∧ key ≠ "" ∧
      ∃ path, World.historyPath? q = some path ∧ key = keyOf repo path
  | .command .listFiles => b.MayHaveRepository ∧ q = .tracked
  | .start | .command _ | .done _ => False

/-- Where a thread may stand. -/
def MayStand (repo : String) : Thread → Prop
  | ⟨.client _ _, .start⟩ | ⟨.client _ _, .done _⟩ => True
  | ⟨.client todo _, p⟩ => ∃ q rest, todo = q :: rest ∧ b.MayWait repo q p
  | ⟨.indexBuild, .done (.ok a)⟩ => ∃ x, a = .index x ∧ b.MayIndex x
  | ⟨.indexBuild, .done (.error e)⟩ =>
    e = .notARepository repo ∨ (b.MayHaveRepository ∧ b.MayFail .fullLog)
  | ⟨.indexBuild, _⟩ | ⟨.repoCheck, _⟩ => True

theorem mayStand_start (repo : String) (job : Job) : b.MayStand repo ⟨job, .start⟩ := by
  cases job <;> exact trivial

/-- A client may stand where its first question may wait. -/
theorem mayStand_of_mayWait {repo : String} {q : Query} {p : Point} (h : b.MayWait repo q p)
    (rest : List Query) (got : List Answer) : b.MayStand repo ⟨.client (q :: rest) got, p⟩ := by
  cases p with
  | start | done => exact h.elim
  | onCheck | onIndex | command => exact ⟨q, rest, rfl, h⟩

end Outcomes

namespace World

variable {b : Outcomes} {w w' : World} {q : Query}

/-! ### What is known is founded -/

/-- What a world knows, apart from what is remembered of files, and where its threads stand. -/
structure Known (b : Outcomes) (w : World) : Prop where
  below : ∀ below, w.below = some below → b.MayKnow below
  refused : w.refused = true → b.MayFail .showPrefix
  index : ∀ x, w.index = some x → b.MayIndex x
  threads : ∀ t ∈ w.threads, b.MayStand w.repo t

/-- All that a world knows may be known. -/
structure Founded (b : Outcomes) (w : World) : Prop extends Known b w where
  told : ∀ key cs, w.told.lookup key = some cs → b.MayTell key cs

/-- Where a directory is known to lie in a repository, there may be one. -/
theorem Known.mayHaveRepository (h : w.Known b) (hbelow : w.below.isSome) :
    b.MayHaveRepository := by
  obtain ⟨below, hbelow⟩ := Option.isSome_iff_exists.1 hbelow
  exact ⟨below, h.below below hbelow⟩

/-- What is known stays known by a move: each slot is emptied, or filled with what may be known. -/
theorem Known.move (h : w.Known b) (hm : Move w w') : w'.Known b where
  below := hm.below_eq ▸ h.below
  refused := hm.refused_eq ▸ h.refused
  index x hx := by
    cases hm with
    | ask | rest | note | tell | beginCheck | leaveCheck | beginBuild | forgetBuild =>
      exact h.index x hx
    | keepIndex hdone =>
      obtain rfl := Option.some.inj hx
      obtain ⟨x', heq, hx'⟩ := h.threads _ (List.mem_of_getElem? hdone)
      obtain rfl := Answer.index.inj heq
      exact hx'
  threads t ht := by
    rw [hm.grows.repo]
    obtain heq | ⟨job, heq⟩ := hm.threads
    · exact h.threads t (heq ▸ ht)
    · rcases List.mem_append.1 (heq ▸ ht) with ht | ht
      · exact h.threads t ht
      · rw [List.mem_singleton.1 ht]
        exact b.mayStand_start w.repo job

/-- What is known stays known by any number of moves. -/
theorem Known.moves (h : w.Known b) (hm : Moves w w') : w'.Known b := by
  induction hm with
  | refl => exact h
  | tail _ hm ih => exact ih.move hm

/-- A world in which nothing new is remembered of files stays founded by its moves. -/
theorem Founded.moves (h : w.Founded b) (hm : Moves w w') (htold : w'.told = w.told) :
    w'.Founded b where
  toKnown := h.toKnown.moves hm
  told := htold ▸ h.told

/-- Remembering commits that may be told leaves a world founded. -/
theorem Founded.tell (h : w.Founded b) {key : String} {cs : List Commit}
    (hcs : b.MayTell key cs) : (w.tell key cs).Founded b where
  toKnown := h.toKnown.move (.tell _)
  told key' cs' hlookup := by
    rw [World.tell, Assoc.set, Assoc.lookup_modify] at hlookup
    split at hlookup
    · rename_i hkey
      obtain rfl := eq_of_beq hkey
      obtain rfl := Option.some.inj hlookup
      exact hcs
    · exact h.told key' cs' hlookup

theorem Founded.note (h : w.Founded b) (level : Level) (message : String) :
    (w.note level message).Founded b :=
  h.moves (.single (.note level message)) rfl

/-! ### Waiting for the check and for the index -/

/-- Hearing of the check does not change what is remembered of files. -/
theorem leaveCheck_told (w : World) (t : Nat) (r : Except Fault Answer) :
    (w.leaveCheck t r).1.told = w.told := by
  by_cases hslot : w.check = some t
  · cases r <;> rw [leaveCheck, if_pos hslot]
  · cases r <;> rw [leaveCheck, if_neg hslot]

/-- Hearing of the index does not change what is remembered of files. -/
theorem leaveIndex_told (w : World) (t : Nat) (r : Except Fault Answer) :
    (w.leaveIndex t r).1.told = w.told := by
  rcases r with e | a
  · rw [leaveIndex]
    split
    · dsimp only
      split <;> rfl
    · rfl
  · cases a <;> rfl

/-- Waiting changes nothing that is remembered, if what is done with a result does not. -/
theorem await_told {α : Type} {leave : World → Nat → Except Fault Answer → World × Awaited α}
    (hleave : ∀ w t r, (leave w t r).1.told = w.told) (w : World) (t : Nat) :
    (match w.result? t with
      | some result => leave w t result
      | none => (w, .wait t)).1.told = w.told := by
  split
  · exact hleave w t _
  · rfl

/-- Asking for the check does not change what is remembered of files. -/
theorem enterCheck_told (w : World) : w.enterCheck.1.told = w.told := by
  rw [enterCheck]
  split
  · rfl
  split
  · rfl
  rcases w.check with - | t
  · exact await_told leaveCheck_told _ _
  · exact await_told leaveCheck_told w t

/-- Asking for the index does not change what is remembered of files. -/
theorem enterIndex_told (w : World) : w.enterIndex.1.told = w.told := by
  rw [enterIndex]
  split
  · rfl
  rcases w.build with - | t
  · exact await_told leaveIndex_told _ _
  · exact await_told leaveIndex_told w t

/-! ### Questions -/

/-- What a question may come to. -/
def Comes (b : Outcomes) (repo : String) (now : Int) (q : Query) : Progress → Prop
  | .answered a => b.MayYield repo now q (.ok a)
  | .failed e => b.MayYield repo now q (.error e)
  | .waits p => b.MayWait repo q p

/-- A founded world has been left by a question that has come to what it may. -/
def FoundedGo (b : Outcomes) (w : World) (q : Query) (go : World × Progress) : Prop :=
  go.1.Founded b ∧ Comes b w.repo w.now q go.2

/-- What a question comes to does not depend on what has happened meanwhile. -/
theorem FoundedGo.of_grows {go : World × Progress} (h : FoundedGo b w' q go) (hw : w.Grows w') :
    FoundedGo b w q go := by
  rwa [FoundedGo, hw.repo, hw.now] at h

/-- A question about a file is answered from an index that may have been read. -/
theorem founded_fileFromIndex (h : w.Founded b) {path : String} {x : LogIndex}
    (hpath : historyPath? q = some path) (hkey : keyOf w.repo path ≠ "") (hx : b.MayIndex x) :
    FoundedGo b w q (w.fileFromIndex q path x) := by
  have hcs : b.MayTell (keyOf w.repo path) (x.commitsOf (keyOf w.repo path)) := Or.inl ⟨x, hx, rfl⟩
  exact ⟨h.tell hcs, .file hpath hkey hcs⟩

/-- Where the whole log cannot be read, a question about a file is answered with what is remembered,
or goes on to the log of that file. -/
theorem founded_fileWithoutIndex (h : w.Founded b) {path : String} {e : Fault}
    (hpath : historyPath? q = some path) (hkey : keyOf w.repo path ≠ "")
    (hbelow : b.MayHaveRepository) (hfail : b.MayFail .fullLog) (he : e.isExpected = true) :
    FoundedGo b w q (w.fileWithoutIndex path e) := by
  simp only [fileWithoutIndex, he, if_true]
  exact ⟨h.note _ _, hbelow, hfail, hkey, path, hpath, rfl⟩

/-- No file of a log is without a name. -/
theorem commitsOf_empty {x : LogIndex} (hx : x.Dual) : x.commitsOf "" = [] := by
  refine List.eq_nil_iff_forall_not_mem.2 fun c hc ↦ ?_
  have hcount := hx.countP_commitsOf "" c.hash
  rw [if_neg (hx.ne_empty_of_mem c.hash), List.countP_eq_zero] at hcount
  exact hcount c hc (by simp)

/-- What is remembered of a key in an index, and what is told of it, are commits that this index may
give. -/
theorem founded_commitsFor (h : w.Founded b) (key : String) {x : LogIndex} (hx : b.MayIndex x) :
    (w.commitsFor key x).1.Founded b ∧ b.MayTell key (w.commitsFor key x).2 := by
  have hcs : b.MayTell key (x.commitsOf key) := Or.inl ⟨x, hx, rfl⟩
  rw [commitsFor]
  by_cases hkey : key = ""
  · subst hkey
    rw [if_pos rfl]
    obtain ⟨below, log, -, -, rfl⟩ := id hx
    exact ⟨h, commitsOf_empty (dual_parseLog below log) ▸ hcs⟩
  · rw [if_neg hkey]
    rcases htold : w.told.lookup key with - | cs
    · exact ⟨h.tell hcs, hcs⟩
    · exact ⟨h, h.told key cs htold⟩

/-- A question that takes its answer from the history of a file is about this file. -/
theorem path?_of_historyPath? {path : String} (h : historyPath? q = some path) :
    q.path? = some path := by
  cases q <;> simp_all [historyPath?, Query.path?]

/-- A file that is asked about with the index has a key. -/
theorem ne_empty_of_needsIndex {repo path : String} (hq : q.NeedsIndex repo)
    (hpath : q.path? = some path) : keyOf repo path ≠ "" := by
  rcases hq with ⟨path', hpath', hkey⟩ | ⟨days, rfl⟩
  · obtain rfl := Option.some.inj (hpath'.symm.trans hpath)
    exact hkey
  · simp [Query.path?] at hpath

/-- A question goes on where a build has failed. -/
theorem founded_afterIndex_failed (h : w.Founded b) (hc : w.Coherent) {t : Nat} {e : Fault}
    (hdone : w.BuildsAt t (.done (.error e))) (hq : q.NeedsIndex w.repo)
    (hbelow : historyPath? q ≠ none → w.below.isSome) :
    FoundedGo b w q (w.afterIndex q (.failed e)) := by
  have hstand := h.threads _ (List.mem_of_getElem? hdone)
  rcases hc.isExpected_or_isNoRepository hdone with ⟨hrefused, he⟩ | ⟨hknown, he⟩
  · -- nobody knows of a repository, so this is no question about one file
    have hpath : historyPath? q = none := by
      by_contra hpath
      simp [hc.not_refused (hbelow hpath)] at hrefused
    have hne : q ≠ .check := by
      rintro rfl
      simp [Query.NeedsIndex, Query.path?] at hq
    simp only [afterIndex, hpath, he, Bool.or_true, if_true]
    exact ⟨h, .outside (h.refused hrefused) hne⟩
  · have hfail : b.MayFail .fullLog := by
      rcases hstand with rfl | ⟨-, hfail⟩
      · simp [Fault.isExpected] at he
      · exact hfail
    have hrepository := h.mayHaveRepository hknown
    rcases hpath : historyPath? q with - | path
    · simp only [afterIndex, hpath, he, Bool.true_or, if_true]
      exact ⟨h, .noIndex hq hpath hrepository hfail⟩
    · have hkey := ne_empty_of_needsIndex hq (path?_of_historyPath? hpath)
      simp only [afterIndex, hpath]
      exact founded_fileWithoutIndex h hpath hkey hrepository hfail he

/-- A question that has been waiting for the index goes on when it knows of it. Either it has an
index that may have been read, or the whole log may fail. -/
theorem founded_afterIndex (h : w.Founded b) (hc : w.Coherent) {x : Awaited LogIndex}
    (hx : w.IndexFits x) (hq : q.NeedsIndex w.repo)
    (hbelow : historyPath? q ≠ none → w.below.isSome) : FoundedGo b w q (w.afterIndex q x) := by
  cases x with
  | wait t => exact ⟨h, hq⟩
  | failed e =>
    obtain ⟨t, hdone⟩ := hx
    exact founded_afterIndex_failed h hc hdone hq hbelow
  | ready x =>
    have hx : b.MayIndex x := h.index x hx
    cases q with
    | together path threshold =>
      obtain ⟨hgo, hcs⟩ := founded_commitsFor h (keyOf w.repo (keyOf w.repo path)) hx
      rcases hfor : w.commitsFor (keyOf w.repo (keyOf w.repo path)) x with ⟨w', cs⟩
      rw [hfor] at hgo hcs
      simp only [afterIndex, hfor]
      exact ⟨hgo, .together (ne_empty_of_needsIndex hq rfl) hx hcs⟩
    | recent days =>
      rcases hsince : cutoff w.now days with fault | since
      · simp only [afterIndex, hsince]
        exact ⟨h, .noDate hx hsince⟩
      · simp only [afterIndex, hsince]
        exact ⟨h, .recent hx hsince⟩
    | check | tracked => simp [Query.NeedsIndex, Query.path?] at hq
    | history path | ownership path | frequency path =>
      simp only [afterIndex, historyPath?]
      exact founded_fileFromIndex h rfl (ne_empty_of_needsIndex hq rfl) hx

/-- The same for a question that comes to ask for the index, since it waits or knows at once. -/
theorem founded_enterIndex_afterIndex (h : w.Founded b) (hc : w.Coherent)
    (hq : q.NeedsIndex w.repo) (hbelow : historyPath? q ≠ none → w.below.isSome) :
    FoundedGo b w q (w.enterIndex.1.afterIndex q w.enterIndex.2) := by
  obtain ⟨hmoves, hfits⟩ := enterIndex_fits hc
  have hgrows := hmoves.grows
  have hgo := founded_afterIndex (h.moves hmoves (enterIndex_told w)) (hmoves.coherent hc) hfits
    (hgrows.repo.symm ▸ hq) fun hpath ↦ hgrows.below (hbelow hpath)
  exact hgo.of_grows hgrows

/-- A question that has been waiting for the check goes on when it knows of it: it has failed, lists
files, or comes to need the index. -/
theorem founded_afterCheck (h : w.Founded b) (hc : w.Coherent) {c : Awaited Unit}
    (hfits : w.CheckFits c) (hq : q.NeedsCheck) : FoundedGo b w q (w.afterCheck q c) := by
  cases c with
  | wait t => exact ⟨h, hq⟩
  | failed e =>
    obtain ⟨hrefused, rfl⟩ := hfits
    have hfail := h.refused hrefused
    cases q with
    | check => exact ⟨h, .refused hfail⟩
    | history | ownership | frequency | together | recent | tracked =>
      exact ⟨h, .outside hfail (by simp)⟩
  | ready =>
    have hbelow : w.below.isSome := hfits
    have hrepository := h.mayHaveRepository hbelow
    cases q with
    | check => exact ⟨h, .check hrepository⟩
    | together | recent => exact hq.elim
    | tracked => exact ⟨h, hrepository, rfl⟩
    | history path | ownership path | frequency path =>
      simp only [afterCheck, historyPath?]
      by_cases hkey : keyOf w.repo path = ""
      · rw [if_pos hkey]
        exact ⟨h, .noKey rfl hkey⟩
      · rw [if_neg hkey]
        rcases htold : w.told.lookup (keyOf w.repo path) with - | cs
        · exact founded_enterIndex_afterIndex h hc (Or.inl ⟨path, rfl, hkey⟩) fun _ ↦ hbelow
        · exact ⟨h, .file rfl hkey (h.told _ cs htold)⟩

/-- The same for a question that comes to ask for the check. -/
theorem founded_enterCheck_afterCheck (h : w.Founded b) (hc : w.Coherent) (hq : q.NeedsCheck) :
    FoundedGo b w q (w.enterCheck.1.afterCheck q w.enterCheck.2) := by
  obtain ⟨hmoves, hfits⟩ := enterCheck_fits hc
  have hgo := founded_afterCheck (h.moves hmoves (enterCheck_told w)) (hmoves.coherent hc) hfits hq
  exact hgo.of_grows hmoves.grows

/-- So a question that begins comes to what it may: it is answered by itself, or asks for the check
or for the index. -/
theorem founded_beginQuery (h : w.Founded b) (hc : w.Coherent) (q : Query) :
    FoundedGo b w q (w.beginQuery q) := by
  cases q with
  | together path threshold =>
    simp only [beginQuery]
    by_cases hkey : keyOf w.repo path = ""
    · rw [if_pos hkey]
      exact ⟨h, .noKey rfl hkey⟩
    · rw [if_neg hkey]
      have hneeds : Query.NeedsIndex w.repo (.together path threshold) := Or.inl ⟨path, rfl, hkey⟩
      exact founded_enterIndex_afterIndex h hc hneeds fun hpath ↦ absurd rfl hpath
  | recent days =>
    simp only [beginQuery]
    exact founded_enterIndex_afterIndex h hc (Or.inr ⟨days, rfl⟩) fun hpath ↦ absurd rfl hpath
  | check | history | ownership | frequency | tracked =>
    exact founded_enterCheck_afterCheck h hc trivial

/-- A question goes on with the outcome of the command that it has been waiting for: the list of
tracked files or the log of its file. -/
theorem founded_afterCommand (h : w.Founded b) {c : Command} {outcome : Outcome}
    (hwait : b.MayWait w.repo q (.command c)) (houtcome : outcome.IsExpected)
    (hb : b c outcome) : FoundedGo b w q (w.afterCommand q c outcome) := by
  cases c with
  | showPrefix | fullLog => exact hwait.elim
  | fileLog key =>
    obtain ⟨hbelow, hfail, hkey, path, hpath, rfl⟩ := hwait
    cases outcome with
    | ok log =>
      have hcs : b.MayTell (keyOf w.repo path) (parseLog "" log).commits :=
        Or.inr ⟨hbelow, hfail, log, hb, rfl⟩
      exact ⟨h.tell hcs, .file hpath hkey hcs⟩
    | error fault =>
      simp only [afterCommand, houtcome fault rfl, if_true]
      exact ⟨h.note _ _, .fileLost hpath hkey hbelow hfail ⟨fault, hb⟩⟩
  | listFiles =>
    obtain ⟨hbelow, rfl⟩ := hwait
    cases outcome with
    | ok output => exact ⟨h, .tracked hbelow hb⟩
    | error fault =>
      simp only [afterCommand, houtcome fault rfl, if_true]
      exact ⟨h, .untracked hbelow ⟨fault, hb⟩⟩

/-! ### Clients -/

/-- The answers that a client has got, latest first, are among those that its questions may have. -/
def Answered (b : Outcomes) (repo : String) (now : Int) (asked : List Query)
    (got : List Answer) : Prop :=
  List.Forall₂ (fun q a ↦ b.MayYield repo now q (.ok a)) asked got.reverse

/-- A client that has ended has no question left, or has failed at the next one by a fault that this
question may have. -/
def EndsIn (b : Outcomes) (repo : String) (now : Int) (todo : List Query) (got : List Answer) :
    Point → Prop
  | .done (.ok a) => todo = [] ∧ a = .all got.reverse
  | .done (.error e) => ∃ q rest, todo = q :: rest ∧ b.MayYield repo now q (.error e)
  | .start | .onCheck _ | .onIndex _ | .command _ => True

/-- The thread is a client that was asked `qs`, and has answers that they may have. -/
def HasAsked (b : Outcomes) (repo : String) (now : Int) (qs : List Query) : Thread → Prop
  | ⟨.client todo got, p⟩ =>
    ∃ asked, qs = asked ++ todo ∧ Answered b repo now asked got ∧ EndsIn b repo now todo got p
  | ⟨.repoCheck, _⟩ | ⟨.indexBuild, _⟩ => False

/-- One more answer that its question may have. -/
theorem Answered.concat {repo : String} {now : Int} {asked : List Query} {got : List Answer}
    {a : Answer} (h : Answered b repo now asked got) (ha : b.MayYield repo now q (.ok a)) :
    Answered b repo now (asked ++ [q]) (a :: got) := by
  rw [Answered, List.reverse_cons]
  exact List.rel_append h (.cons ha .nil)

/-- A client that waits has not ended. -/
theorem endsIn_of_mayWait {repo : String} {now : Int} {p : Point} (h : b.MayWait repo q p)
    (todo : List Query) (got : List Answer) : EndsIn b repo now todo got p := by
  cases p with
  | start | onCheck | onIndex | command => exact trivial
  | done => exact h.elim

/-- A client has left a founded world and stands where it may, with answers that its questions may
have. -/
def FoundedClient (b : Outcomes) (w : World) (todo : List Query) (got : List Answer)
    (go : World × Thread) : Prop :=
  go.1.Founded b ∧ b.MayStand w.repo go.2 ∧
    ∀ asked, Answered b w.repo w.now asked got → HasAsked b w.repo w.now (asked ++ todo) go.2

/-- A client whose next question has been answered goes on with the questions behind it. -/
theorem FoundedClient.answered {todo : List Query} {got : List Answer} {a : Answer}
    {go : World × Thread} (h : FoundedClient b w' todo (a :: got) go) (hgrows : w.Grows w')
    (ha : b.MayYield w.repo w.now q (.ok a)) : FoundedClient b w (q :: todo) got go := by
  obtain ⟨hfounded, hstand, hasked⟩ := h
  rw [hgrows.repo] at hstand hasked
  rw [hgrows.now] at hasked
  refine ⟨hfounded, hstand, fun asked hanswered ↦ ?_⟩
  simpa using hasked (asked ++ [q]) (hanswered.concat ha)

/-- A client of which a question has failed ends with its fault. -/
theorem foundedClient_failed (h : w'.Founded b) {e : Fault}
    (he : b.MayYield w.repo w.now q (.error e)) (todo : List Query) (got : List Answer) :
    FoundedClient b w (q :: todo) got (w', ⟨.client (q :: todo) got, .done (.error e)⟩) :=
  ⟨h, trivial, fun asked hanswered ↦ ⟨asked, rfl, hanswered, q, todo, rfl, he⟩⟩

/-- A client of which a question waits is left to wait. -/
theorem foundedClient_waits (h : w'.Founded b) {p : Point} (hp : b.MayWait w.repo q p)
    (todo : List Query) (got : List Answer) :
    FoundedClient b w (q :: todo) got (w', ⟨.client (q :: todo) got, p⟩) :=
  ⟨h, b.mayStand_of_mayWait hp todo got,
    fun asked hanswered ↦ ⟨asked, rfl, hanswered, endsIn_of_mayWait hp _ got⟩⟩

/-- A client that begins its questions goes through those that are answered at once, and stops at
the first that waits or fails. -/
theorem founded_clientFrom (h : w.Founded b) (hc : w.Coherent) (todo : List Query)
    (got : List Answer) : FoundedClient b w todo got (w.clientFrom todo got) := by
  induction todo generalizing w got with
  | nil =>
    refine ⟨h, trivial, fun asked hanswered ↦ ⟨asked, rfl, hanswered, rfl, rfl⟩⟩
  | cons q todo ih =>
    obtain ⟨hmoves, -⟩ := beginQuery_fits hc q
    obtain ⟨hfounded, hcomes⟩ := founded_beginQuery h hc q
    rw [clientFrom]
    rcases hq : w.beginQuery q with ⟨w', a | e | p⟩ <;> rw [hq] at hmoves hfounded hcomes
    · exact (ih hfounded (hmoves.coherent hc) (a :: got)).answered hmoves.grows hcomes
    · exact foundedClient_failed hfounded hcomes todo got
    · exact foundedClient_waits hfounded hcomes todo got

/-- A client goes on with what its question has come to. -/
theorem founded_clientAfter (hc : w.Coherent) {go : World × Progress} (hmoves : Moves w go.1)
    (hgo : FoundedGo b w q go) (todo : List Query) (got : List Answer) :
    FoundedClient b w (q :: todo) got (clientAfter q todo got go) := by
  obtain ⟨hfounded, hcomes⟩ := hgo
  rcases go with ⟨w', a | e | p⟩
  · have hfrom := founded_clientFrom hfounded (hmoves.coherent hc) todo (a :: got)
    exact hfrom.answered hmoves.grows hcomes
  · exact foundedClient_failed hfounded hcomes todo got
  · exact foundedClient_waits hfounded hcomes todo got

theorem Founded.call (h : w.Founded b) (c : Command) : (w.call c).Founded b :=
  ⟨⟨h.below, h.refused, h.index, h.threads⟩, h.told⟩

/-- A thread has left a founded world and stands where it may. -/
def FoundedThread (b : Outcomes) (w : World) (go : World × Thread) : Prop :=
  go.1.Founded b ∧ go.1.repo = w.repo ∧ b.MayStand w.repo go.2

theorem foundedThread_stay (h : w.Founded b) {t : Thread} (ht : t ∈ w.threads) :
    FoundedThread b w (w, t) :=
  ⟨h, rfl, h.threads t ht⟩

section Client

variable (h : w.Founded b) (hc : w.Coherent) {s : Nat} {r : Except Fault Answer}
include h hc

/-- A client goes on when the check has ended that it waited for. -/
theorem foundedClient_onCheck (hq : q.NeedsCheck) (hs : ∃ p, w.ChecksAt s p)
    (hr : w.result? s = some r) (rest : List Query) (got : List Answer) :
    FoundedClient b w (q :: rest) got
      (clientAfter q rest got ((w.leaveCheck s r).1.afterCheck q (w.leaveCheck s r).2)) := by
  obtain ⟨hmoves, hfits⟩ := leaveCheck_fits hc (checksAt_done_of_result? hs hr)
  have hc' := hmoves.coherent hc
  obtain ⟨hmoves', -⟩ := afterCheck_fits (q := q) hc' hfits
  have hgo := founded_afterCheck (h.moves hmoves (leaveCheck_told w s r)) hc' hfits hq
  exact founded_clientAfter hc (hmoves.trans hmoves') (hgo.of_grows hmoves.grows) rest got

/-- A client goes on when the build has ended that it waited for. -/
theorem foundedClient_onIndex (hq : q.NeedsIndex w.repo) (hs : ∃ p, w.BuildsAt s p)
    (hr : w.result? s = some r) (hbelow : historyPath? q ≠ none → w.below.isSome)
    (rest : List Query) (got : List Answer) :
    FoundedClient b w (q :: rest) got
      (clientAfter q rest got ((w.leaveIndex s r).1.afterIndex q (w.leaveIndex s r).2)) := by
  obtain ⟨hmoves, hfits⟩ := leaveIndex_fits hc (buildsAt_done_of_result? hs hr)
  have hc' := hmoves.coherent hc
  have hgrows := hmoves.grows
  have hknown (hpath : historyPath? q ≠ none) := hgrows.below (hbelow hpath)
  obtain ⟨hmoves', -⟩ := afterIndex_fits hc' hfits hknown
  have hgo := founded_afterIndex (h.moves hmoves (leaveIndex_told w s r)) hc' hfits
    (hgrows.repo.symm ▸ hq) hknown
  exact founded_clientAfter hc (hmoves.trans hmoves') (hgo.of_grows hgrows) rest got

/-- A client goes on with the outcome of its command. -/
theorem foundedClient_command {c : Command} {outcome : Outcome} (houtcome : outcome.IsExpected)
    (hwait : b.MayWait w.repo q (.command c)) (hbelow : w.below.isSome) (hb : b c outcome)
    (rest : List Query) (got : List Answer) :
    FoundedClient b w (q :: rest) got
      (clientAfter q rest got ((w.call c).afterCommand q c outcome)) := by
  have hne : c ≠ .showPrefix := by
    rintro rfl
    exact hwait
  obtain ⟨hmoves, -⟩ := afterCommand_fits (w.call c) q houtcome
  have hgo := founded_afterCommand (h.call c) hwait houtcome hb
  exact founded_clientAfter (w := w.call c) (hc.call hbelow hne) hmoves hgo rest got

variable {outcome : Outcome} (houtcome : outcome.IsExpected) {i : Nat} {todo : List Query}
  {got : List Answer} {p : Point} (hthread : w.threads[i]? = some ⟨.client todo got, p⟩)
  (hb : ∀ c, w.nextCommand? i = some c → b c outcome)
include houtcome hthread hb

/-- Whatever a client has been waiting for, it goes on to what it may. -/
theorem foundedClient_advance (hready : w.isReady p = true) :
    FoundedClient b w todo got (w.advance ⟨.client todo got, p⟩ outcome) := by
  have hstand := h.threads _ (List.mem_of_getElem? hthread)
  have hpoint := hc.clients hthread
  cases p with
  | start => exact founded_clientFrom h hc todo got
  | onCheck s =>
    obtain ⟨q, rest, rfl, hq⟩ := hstand
    obtain ⟨_, _, -, hs⟩ := hpoint
    obtain ⟨r, hr⟩ := Option.isSome_iff_exists.1 hready
    simp only [advance, hr]
    exact foundedClient_onCheck h hc hq hs hr rest got
  | onIndex s =>
    obtain ⟨q, rest, rfl, hq⟩ := hstand
    obtain ⟨q', rest', heq, hs, hbelow⟩ := hpoint
    obtain ⟨rfl, rfl⟩ := List.cons.inj heq
    obtain ⟨r, hr⟩ := Option.isSome_iff_exists.1 hready
    simp only [advance, hr]
    exact foundedClient_onIndex h hc hq hs hr hbelow rest got
  | command c =>
    obtain ⟨q, rest, rfl, hwait⟩ := hstand
    obtain ⟨_, _, -, hbelow, -⟩ := hpoint
    have hrun := hb c (nextCommand?_eq_some_iff.2 ⟨_, hthread⟩)
    exact foundedClient_command h hc houtcome hwait hbelow hrun rest got
  | done r => simp [isReady] at hready

/-- A client that goes on leaves a founded world, and has answers that its questions may have. -/
theorem founded_advance_client :
    let go := w.advance ⟨.client todo got, p⟩ outcome
    FoundedThread b w go ∧
      ∀ qs, HasAsked b w.repo w.now qs ⟨.client todo got, p⟩ → HasAsked b w.repo w.now qs go.2 := by
  by_cases hready : w.isReady p = true
  · obtain ⟨hmoves, -⟩ := clientGoes_advance hc houtcome hthread
    obtain ⟨hfounded, hstand, hasked⟩ := foundedClient_advance h hc houtcome hthread hb hready
    refine ⟨⟨hfounded, hmoves.grows.repo, hstand⟩, ?_⟩
    rintro qs ⟨asked, rfl, hanswered, -⟩
    exact hasked asked hanswered
  · rw [advance_of_not_isReady (by simpa using hready)]
    exact ⟨foundedThread_stay h (List.mem_of_getElem? hthread), fun _ ↦ id⟩

end Client

/-! ### The history's own threads -/

/-- The check ends with what its command has told, and this may be known. -/
theorem founded_endCheck (h : w.Founded b) {outcome : Outcome} (houtcome : outcome.IsExpected)
    (hb : b .showPrefix outcome) :
    FoundedThread b w ((w.endCheck outcome).1, ⟨.repoCheck, .done (w.endCheck outcome).2⟩) := by
  cases outcome with
  | ok output =>
    refine ⟨⟨⟨fun below hbelow ↦ ?_, h.refused, h.index, h.threads⟩, h.told⟩, rfl, trivial⟩
    exact ⟨output, hb, (Option.some.inj hbelow).symm⟩
  | error fault =>
    simp only [endCheck, houtcome fault rfl, if_true]
    have hrefused : ({ w with refused := true } : World).Founded b :=
      ⟨⟨h.below, fun _ ↦ ⟨fault, hb⟩, h.index, h.threads⟩, h.told⟩
    exact ⟨hrefused.note _ _, rfl, trivial⟩

/-- What is remembered of a file has been remembered before, or stands in the index. -/
theorem lookup_tellAll (files : List (String × List Commit)) {key : String} {cs : List Commit}
    (h : (w.tellAll files).told.lookup key = some cs) :
    w.told.lookup key = some cs ∨ (key, cs) ∈ files := by
  induction files generalizing w with
  | nil => exact Or.inl h
  | cons file files ih =>
    rcases ih h with htold | hmem
    · rw [Assoc.lookup_modify] at htold
      split at htold
      · rename_i hkey
        obtain rfl := eq_of_beq hkey
        rcases hold : w.told.lookup file.1 with - | old <;> rw [hold] at htold
        · obtain rfl := Option.some.inj htold
          exact Or.inr List.mem_cons_self
        · exact Or.inl htold
      · exact Or.inl htold
    · exact Or.inr (List.mem_cons_of_mem file hmem)

/-- All commits of an index that may have been read may be told. -/
theorem founded_tellAll (h : w.Founded b) {x : LogIndex} (hx : b.MayIndex x) :
    (w.tellAll x.fileCommits).Founded b := by
  have hknown : (w.tellAll x.fileCommits).Known b := by
    obtain ⟨told, htold⟩ := exists_tellAll_eq w x.fileCommits
    rw [htold]
    exact h.toKnown.move (.tell told)
  refine ⟨hknown, fun key cs hlookup ↦ ?_⟩
  rcases lookup_tellAll _ hlookup with htold | hmem
  · exact h.told key cs htold
  · obtain ⟨below, log, -, -, rfl⟩ := id hx
    have hlookup := (Assoc.lookup_eq_some_iff_mem (dual_parseLog below log).nodup_files).2 hmem
    exact Or.inl ⟨_, hx, by rw [LogIndex.commitsOf, hlookup, Option.getD_some]⟩

/-- The build ends with an index that may have been read, or with a fault that the whole log may
have. -/
theorem founded_endBuild (h : w.Founded b) {outcome : Outcome} (hbelow : w.below.isSome)
    (hb : b .fullLog outcome) :
    FoundedThread b w ((w.endBuild outcome).1, ⟨.indexBuild, .done (w.endBuild outcome).2⟩) := by
  have hrepo := (endBuild_moves w outcome).1.grows.repo
  have hrepository := h.mayHaveRepository hbelow
  cases outcome with
  | ok log =>
    obtain ⟨below, heq⟩ := Option.isSome_iff_exists.1 hbelow
    have hx : b.MayIndex (parseLog (w.below.getD "") log) := by
      rw [heq]
      exact ⟨below, log, h.below below heq, hb, rfl⟩
    exact ⟨(founded_tellAll h hx).note _ _, hrepo, _, rfl, hx⟩
  | error fault => exact ⟨h, rfl, Or.inr ⟨hrepository, fault, hb⟩⟩

/-- A build goes on that knows of the check. -/
theorem founded_buildAfterCheck (h : w'.Founded b) (hmoves : Moves w w') {c : Awaited Unit}
    (hc : w'.CheckFits c) :
    FoundedThread b w ((w'.buildAfterCheck c).1, ⟨.indexBuild, (w'.buildAfterCheck c).2⟩) := by
  have hrepo := hmoves.grows.repo
  cases c with
  | ready | wait => exact ⟨h, hrepo, trivial⟩
  | failed e => exact ⟨h, hrepo, Or.inl (hrepo ▸ hc.2)⟩

/-- A check that goes on leaves a founded world. -/
theorem founded_advance_check (h : w.Founded b) (hc : w.Coherent) {outcome : Outcome}
    (houtcome : outcome.IsExpected) {i : Nat} {p : Point} (hthread : w.ChecksAt i p)
    (hb : ∀ c, w.nextCommand? i = some c → b c outcome) :
    FoundedThread b w (w.advance ⟨.repoCheck, p⟩ outcome) := by
  have hpoint := hc.checks hthread
  cases p with
  | start | done => exact ⟨h, rfl, trivial⟩
  | onCheck s | onIndex s => exact hpoint.elim
  | command c =>
    obtain ⟨rfl, -⟩ := hpoint
    have hrun := hb _ (nextCommand?_eq_some_iff.2 ⟨_, hthread⟩)
    exact founded_endCheck (h.call .showPrefix) houtcome hrun

/-- A build that goes on leaves a founded world. -/
theorem founded_advance_build (h : w.Founded b) (hc : w.Coherent) {outcome : Outcome}
    {i : Nat} {p : Point} (hthread : w.BuildsAt i p)
    (hb : ∀ c, w.nextCommand? i = some c → b c outcome) :
    FoundedThread b w (w.advance ⟨.indexBuild, p⟩ outcome) := by
  have hpoint := hc.builds hthread
  by_cases hready : w.isReady p = true
  · cases p with
    | start =>
      obtain ⟨hmoves, hfits⟩ := enterCheck_fits hc
      exact founded_buildAfterCheck (h.moves hmoves (enterCheck_told w)) hmoves hfits
    | onCheck s =>
      obtain ⟨r, hr⟩ := Option.isSome_iff_exists.1 hready
      obtain ⟨hmoves, hfits⟩ := leaveCheck_fits hc (checksAt_done_of_result? hpoint.2 hr)
      simp only [advance, hr]
      exact founded_buildAfterCheck (h.moves hmoves (leaveCheck_told w s r)) hmoves hfits
    | onIndex s => exact hpoint.elim
    | command c =>
      obtain ⟨rfl, -, hbelow⟩ := hpoint
      have hrun := hb _ (nextCommand?_eq_some_iff.2 ⟨_, hthread⟩)
      exact founded_endBuild (h.call .fullLog) hbelow hrun
    | done r => simp [isReady] at hready
  · rw [advance_of_not_isReady (by simpa using hready)]
    exact foundedThread_stay h (List.mem_of_getElem? hthread)

/-! ### Going on -/

/-- A thread is put where it may stand. -/
theorem FoundedThread.setThread {go : World × Thread} (h : FoundedThread b w go) (i : Nat) :
    (go.1.setThread i go.2).Founded b := by
  obtain ⟨h, hrepo, hstand⟩ := h
  refine ⟨⟨h.below, h.refused, h.index, fun t ht ↦ ?_⟩, h.told⟩
  rcases List.mem_or_eq_of_mem_set ht with ht | rfl
  · exact h.threads t ht
  · exact hrepo ▸ hstand

/-- A thread that goes on leaves a founded world. -/
theorem founded_resume (h : w.Founded b) (hc : w.Coherent) {outcome : Outcome}
    (houtcome : outcome.IsExpected) {i : Nat}
    (hb : ∀ c, w.nextCommand? i = some c → b c outcome) : (w.resume i outcome).Founded b := by
  have h' := h.moves (.single .rest) rfl
  have hc' := hc.move .rest
  rcases hthread : w.threads[i]? with - | ⟨job, p⟩
  · rwa [resume, hthread]
  · rw [resume_eq_setThread hthread]
    cases job with
    | client todo got =>
      exact (founded_advance_client h' hc' houtcome hthread hb).1.setThread i
    | repoCheck => exact (founded_advance_check h' hc' houtcome hthread hb).setThread i
    | indexBuild => exact (founded_advance_build h' hc' hthread hb).setThread i

/-- A client that was asked some questions goes on with them, whoever takes the turn. -/
theorem hasAsked_resume (h : w.Founded b) (hc : w.Coherent) {outcome : Outcome}
    (houtcome : outcome.IsExpected) {i : Nat}
    (hb : ∀ c, w.nextCommand? i = some c → b c outcome) {j : Nat} {t : Thread}
    (ht : w.threads[j]? = some t) {qs : List Query} (hqs : HasAsked b w.repo w.now qs t) :
    ∃ t', (w.resume i outcome).threads[j]? = some t' ∧ HasAsked b w.repo w.now qs t' := by
  by_cases hj : j = i
  · subst hj
    rcases t with ⟨⟨todo, got⟩ | _ | _, p⟩
    · have hc' := hc.move .rest
      obtain ⟨hmoves, -⟩ := clientGoes_advance hc' houtcome ht
      have hstays := hmoves.getElem? (w := { w with begun := [] }.called j) ht
      obtain ⟨-, hasked⟩ := founded_advance_client (h.moves (.single .rest) rfl) hc' houtcome ht hb
      rw [resume_eq_setThread ht]
      refine ⟨_, (getElem?_setThread hstays j).trans (if_pos rfl), hasked qs hqs⟩
    · exact hqs.elim
    · exact hqs.elim
  · exact ⟨t, (turn_resume hc houtcome i).getElem?_of_ne hj ht, hqs⟩

end World

end RepoSurvey.History
