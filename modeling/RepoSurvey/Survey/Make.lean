import RepoSurvey.History.Schedule
import RepoSurvey.Survey.Batches
import RepoSurvey.Survey.Groundwork
import RepoSurvey.Survey.Result

/-!
# Making a survey

A survey does its groundwork on the files and then asks the history about every analysed file, one
batch of files at a time. What is found is put together with the sums over all files.

How many files are in a batch decides only how many questions are open at once.
-/

namespace RepoSurvey

open RepoSurvey.History

/-- What a survey looks at. -/
structure Site where
  files : FileTree
  /-- What git commands yield. -/
  git : Script
  now : Time.Moment

/-! ### Asking the history -/

namespace EnrichedFile

/-- The questions about a file. -/
def questions (o : Options) (path : String) : List Query :=
  [.ownership path, .frequency path] ++
    if o.includeRelated then [.together path o.threshold] else []

/-- A file with one more answer. -/
def learn (relatedLimit : Int) (f : EnrichedFile) : Answer → EnrichedFile
  | .ownership o => { f with ownership := o }
  | .frequency x => { f with frequency := x }
  | .related cs => { f with related := within relatedLimit cs }
  | _ => f

/-- An analysed file with its place in the import graph and the answers about it. -/
def ofAnswers (g : Groundwork) (a : FileAnalysis) (answers : List Answer) : EnrichedFile :=
  answers.foldl (learn g.options.relatedLimit)
    { analysis := a, node := (g.graph.lookup a.path).getD {} }

end EnrichedFile

namespace Survey

/-- Asks the history about the files of one batch, beside each other. -/
def enrichBatch (git : Script) (g : Groundwork) (t : Turns) (start : Nat)
    (batch : List FileAnalysis) : Turns × Except Fault (List EnrichedFile) :=
  let note := Note.batch (start + 1) (start + batch.length) g.analyses.length
  let t := { t with world := t.world.note note.level note.message }
  let (t, answers) := t.askTogether git
    (batch.map fun a ↦ EnrichedFile.questions g.options a.path)
  (t, answers.map (List.zipWith (EnrichedFile.ofAnswers g) batch))

/-- Asks the history about all files, batch after batch. -/
def enrich (git : Script) (now : Int) (g : Groundwork) :
    Turns × Except Fault (List EnrichedFile) :=
  Batches.inBatches (enrichBatch git g) g.options.concurrency (fresh g.root now) g.analyses

/-! ### The result -/

/-- What is found, put together. -/
def ofFiles (g : Groundwork) (files : List EnrichedFile) (time : String) : Survey where
  repository := g.root
  totalFiles := files.length
  files
  graph := g.graph
  deadCode := g.deadCode
  languages := LanguageTotals.ofFiles files
  contributors := ContributorTotals.ofFiles ContributorTotals.usualLimit files
  time

/-- Makes a survey of the repository at an absolute path; tells what is noted on the way. -/
def make (site : Site) (path : String) (options : Options) :
    List Record × Except SurveyFault Survey :=
  match Groundwork.make site.files path options with
  | (notes, .error fault) => (notes.map Note.record, .error fault)
  | (notes, .ok g) =>
    let (t, files) := enrich site.git site.now.instant g
    (notes.map Note.record ++ t.world.notes.reverse,
      match files with
      | .error fault => .error (.history fault)
      | .ok files => .ok (ofFiles g files site.now.stamp))

end Survey

end RepoSurvey
