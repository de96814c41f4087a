import RepoSurvey.Decimal.Basic
import RepoSurvey.History.Log
import RepoSurvey.Path
import RepoSurvey.Time.Moment

/-!
# Questions to a history

What can be asked of the history of a repository, and the answers as functions of an index or of the
commits of one file. Nothing here runs a command.
-/

namespace RepoSurvey.History

open RepoSurvey.Text RepoSurvey.Time

/-- A number of days: whole, or with a fraction. -/
inductive Days where
  | whole (n : Int)
  | part (x : Float)

/-- A question to the history of a repository. -/
inductive Query where
  /-- Whether there is a history at all. -/
  | check
  /-- The commits of a file. -/
  | history (path : String)
  /-- Who has changed a file. -/
  | ownership (path : String)
  /-- How often a file changes. -/
  | frequency (path : String)
  /-- Which files change together with a file. -/
  | together (path : String) (threshold : Float)
  /-- Which files have changed in the last days. -/
  | recent (days : Days)
  /-- Which files are tracked. -/
  | tracked

/-! ### Paths -/

/-- The key of a path in the history of the repository at `repo`: the path below it, or nothing if
it does not lie below it. -/
def keyOf (repo path : String) : String :=
  let text := strip path
  if text = "" then ""
  else
    let relative := Path.relative repo (Path.append repo text) repo
    if relative = "." ∨ relative = ".." ∨ startsWith relative "../" then "" else relative

/-! ### Ownership -/

/-- An author and the number of commits that are theirs. -/
structure Contributor where
  author : String
  commits : Nat
deriving DecidableEq, Repr

/-- Who has changed a file. -/
structure Ownership where
  primary : String := "Unknown"
  contributors : List Contributor := []
  totalCommits : Nat := 0
deriving DecidableEq, Repr, Inhabited

namespace Ownership

/-- The written form. -/
def toJson (o : Ownership) : Json :=
  .obj [("primary", .str o.primary),
    ("contributors", .arr (o.contributors.map fun c ↦
      .obj [("author", .str c.author), ("commits", .int c.commits)])),
    ("totalCommits", .int o.totalCommits)]

end Ownership

/-- The authors of commits with their numbers of commits, first seen first. -/
def authorCounts (commits : List Commit) : List (String × Nat) :=
  commits.foldl (fun counts c ↦ Assoc.modify c.author (fun n ↦ n.getD 0 + 1) counts) []

/-- The authors of commits, those with more commits first. -/
def rankedAuthors (commits : List Commit) : List Contributor :=
  ((authorCounts commits).mergeSort fun a b ↦ b.2 ≤ a.2).map fun (author, n) ↦ ⟨author, n⟩

/-- Who has made the commits of a file. -/
def ownershipOf (commits : List Commit) : Ownership :=
  match rankedAuthors commits with
  | [] => {}
  | first :: others => ⟨first.author, first :: others, commits.length⟩

/-! ### Frequency -/

/-- The time in microseconds from the last listed commit to the first, if both have dates. -/
def spanOf (commits : List Commit) : Option Int := do
  let newest ← Moment.parse? (← commits.head?).date
  let oldest ← Moment.parse? (← commits.getLast?).date
  return newest.instant - oldest.instant

/-- The number of commits for each day of a span. -/
def perDay (commits span : Nat) : Float :=
  let seconds := (Decimal.ratio? span microsPerSecond).getD 0
  let days := seconds / 86400
  if 0 < days then commits.toFloat / days else 0

/-- The number of commits for each day between the first and the last listed commit; nothing if
there are fewer than two, or no time lies between. -/
def frequencyOf (commits : List Commit) : Float :=
  if commits.length < 2 then 0
  else match spanOf commits with
    | some (.ofNat span) => perDay commits.length span
    | _ => 0

/-! ### Files that change together -/

/-- A file that changes together with another: in how many of its `total` commits. -/
structure CoChange where
  file : String
  count : Nat
  correlation : Float

namespace CoChange

/-- The written form. -/
def toJson (c : CoChange) : Json :=
  .obj [("file", .str c.file), ("count", .int c.count), ("correlation", .float c.correlation)]

end CoChange

/-- The hashes of commits, each once. -/
def hashesOf (commits : List Commit) : List String :=
  Assoc.distinct (commits.map Commit.hash)

/-- The files other than `key` that hashes touch, with the number of hashes, first seen first. -/
def companionCounts (x : LogIndex) (key : String) (hashes : List String) : List (String × Nat) :=
  ((hashes.flatMap x.filesOf).filter fun f ↦ f != key).foldl
    (fun counts f ↦ Assoc.modify f (fun n ↦ n.getD 0 + 1) counts) []

/-- A share of a number of commits. -/
def share (count total : Nat) : Float := (Decimal.ratio? count total).getD 0

/-- The files that change together with `key`, given its commits: those whose share of its hashes
reaches the threshold, larger shares first. -/
def relatedOf (x : LogIndex) (key : String) (commits : List Commit) (threshold : Float) :
    List CoChange :=
  let hashes := hashesOf commits
  let total := hashes.length
  let counted := (companionCounts x key hashes).filter fun c ↦ threshold ≤ share c.2 total
  (counted.map fun (file, count) ↦ (⟨file, count, share count total⟩ : CoChange)).mergeSort
    fun a b ↦ b.correlation ≤ a.correlation

/-! ### Recent changes -/

/-- Why there is no such date. -/
inductive SpanFault where
  /-- The number of days is beyond all bounds. -/
  | hugeNumber
  /-- The number of days is too large for a span of time. -/
  | magnitude (days : Int)
  /-- The calendar does not reach that far. -/
  | outOfRange
  /-- The number of days is not a number. -/
  | notANumber
  /-- The number of days is infinite. -/
  | infinite
deriving DecidableEq, Repr

/-- The wording of a fault. -/
def SpanFault.message : SpanFault → String
  | .hugeNumber => "Python int too large to convert to C int"
  | .magnitude days => s!"days={days}; must have magnitude <= 999999999"
  | .outOfRange => "date value out of range"
  | .notANumber => "cannot convert float NaN to integer"
  | .infinite => "cannot convert float infinity to integer"

/-- A float without its fraction, as a whole number. -/
def truncate (x : Float) : Int :=
  let n := Int.ofNat (x.abs.floor.toUInt64.toNat)
  if x < 0 then -n else n

/-- A float to the nearest whole number; a tie goes to the one that makes `base` even. -/
def roundOnto (base : Int) (x : Float) : Int :=
  let whole := x.round
  if (whole - x).abs == 0.5 then
    let odd : Float := if base % 2 == 0 then 0 else 1
    base + truncate (2.0 * ((x + odd) * 0.5).round - odd)
  else base + truncate whole

/-- A number of days in microseconds. -/
def Days.micros : Days → Except SpanFault Int
  | .whole n => .ok (n * microsPerDay)
  | .part x =>
    if x.isNaN then .error .notANumber
    else if x.isInf then .error .infinite
    else if 1.0e15 < x.abs then .error .hugeNumber
    else
      let days := truncate x
      let rest := microsPerDay.toFloat * (x - Float.ofInt days)
      let whole := truncate rest
      .ok (roundOnto (days * microsPerDay + whole) (rest - Float.ofInt whole))

/-- The instant that lies a number of days before another. -/
def cutoff (now : Int) (days : Days) : Except SpanFault Int := do
  let span ← days.micros
  let whole := span / microsPerDay
  if whole < -2147483648 ∨ 2147483647 < whole then throw .hugeNumber
  if 999999999 < whole.natAbs then throw (.magnitude whole)
  let since := now - span
  if since / microsPerDay < 1 ∨ 3652059 < since / microsPerDay then throw .outOfRange
  return since

/-- Whether a commit is not older than an instant; a commit without a date is not. -/
def isRecent (since : Int) (c : Commit) : Bool :=
  match Moment.parse? c.date with
  | some m => since ≤ m.instant
  | none => true

/-- The files that have changed since an instant, with the commits. -/
def recentOf (x : LogIndex) (since : Int) : List (String × List Commit) :=
  (x.commits.filter (isRecent since)).foldl
    (fun files c ↦ (x.filesOf c.hash).foldl
      (fun files f ↦ Assoc.modify f (fun commits ↦ commits.getD [] ++ [c]) files) files) []

/-! ### Tracked files -/

/-- The lines of a text that are not blank, without the blanks at their ends. -/
def trackedOf (output : String) : List String :=
  ((splitLines output).map strip).filter fun line ↦ line != ""

end RepoSurvey.History
