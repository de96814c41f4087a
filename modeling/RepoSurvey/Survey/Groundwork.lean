import RepoSurvey.Files.RealPath
import RepoSurvey.History.World
import RepoSurvey.Imports.DeadCode
import RepoSurvey.Survey.Failure
import RepoSurvey.Survey.Note

/-!
# Groundwork

What a survey finds out from the files alone, before it asks the history: the effective options, the
analysed files in the order of the scan, who imports whom, and what may be dead.

A configuration file that is simply wrong is noted and not used. What cannot be gone on without ends
the survey: there is no directory at the path, a scalar of the configuration has no value, a path is
too long to be looked up, or the alias settings are refused.
-/

namespace RepoSurvey

/-- Why there is no survey. -/
inductive SurveyFault where
  /-- The path has no real path. -/
  | realPath (fault : FileTree.RealPathFault)
  /-- A path is too long to be looked up. -/
  | tooLong (fault : FileTree.LongPath)
  | missing (root : String)
  | notADirectory (root : String)
  | config (fault : ConfigFault)
  | aliases (fault : Imports.AliasFault)
  | history (fault : History.Fault)
deriving DecidableEq, Repr

namespace SurveyFault

/-- The wording of a fault. -/
def message : SurveyFault → String
  | .realPath fault => fault.message
  | .tooLong fault => fault.message
  | .missing root => "Repository path does not exist: " ++ root
  | .notADirectory root => "Repository path is not a directory: " ++ root
  | .config fault => fault.message
  | .aliases fault => fault.message
  | .history fault => fault.message

/-- What a fault of a history means to those who have asked. -/
def historyKind : History.Fault → FailureKind
  | .notARepository _ | .command _ (.exit _ _) | .command _ (.stray .runtime _) => .refused
  | .command _ (.system .fileNotFound _) => .missing
  | .command _ (.system .notADirectory _) => .notADirectory
  | _ => .unforeseen

/-- What a fault means to those who have asked. -/
def kind : SurveyFault → FailureKind
  | .realPath (.circle _) | .config (.realPath (.circle _)) => .refused
  | .missing _ => .missing
  | .notADirectory _ => .notADirectory
  | .config fault => if fault.isExpected then .refused else .unforeseen
  | .realPath _ | .tooLong _ | .aliases _ => .unforeseen
  | .history fault => historyKind fault

end SurveyFault

instance : Failure SurveyFault := ⟨SurveyFault.kind, SurveyFault.message⟩

/-- What a survey finds out from the files alone. -/
structure Groundwork where
  /-- The real path of the repository. -/
  root : String
  options : Options
  analyses : List FileAnalysis
  graph : ImportGraph
  deadCode : List DeadCodeEntry

namespace Groundwork

/-- The real path of the directory that a path leads to. -/
def findRoot (files : FileTree) (path : String) : Except SurveyFault String :=
  match files.realPath path with
  | .error fault => .error (.realPath fault)
  | .ok root =>
    match files.checkExists root with
    | .error fault => .error (.tooLong fault)
    | .ok false => .error (.missing root)
    | .ok true => if files.isDir root then .ok root else .error (.notADirectory root)

/-- The configuration of a repository; one that is simply wrong is noted and says nothing. -/
def config (files : FileTree) (root : String) : Except SurveyFault (Config × List Note) :=
  match Config.load files root with
  | .ok config => .ok (config, [])
  | .error fault =>
    if fault.isExpected then .ok ({ root }, [.configIgnored fault]) else .error (.config fault)

/-- What is met in a scan: something to note, or a file with what comes of looking at it. -/
def look (files : FileTree) (root : String) : Scan.Event → List Note × Option FileAnalysis
  | .innerLink path => ([.innerLink (Scan.pathText path)], none)
  | .revisited path => ([.revisited (Scan.pathText path)], none)
  | .file path =>
    let path := Scan.pathBelow root path
    let inspection := Code.inspect files path
    (Note.ofInspection path inspection, inspection.analysis?)

/-- All that is met on the course of a scan of a repository, in order. -/
def looks (files : FileTree) (root : String) (course : Scan.Course) :
    List (List Note × Option FileAnalysis) :=
  course.events.map (look files root)

/-- The analyses of the files of a repository, in the order of the scan. -/
def analysesOf (looks : List (List Note × Option FileAnalysis)) : List FileAnalysis :=
  looks.filterMap Prod.snd

/-- What is known of analysed files once alias settings are loaded. -/
def ofAnalyses (root : String) (options : Options) (analyses : List FileAnalysis)
    (resolver : Imports.Resolver) : Groundwork :=
  let graph := Imports.graph resolver analyses
  { root, options, analyses, graph
    deadCode :=
      DeadCode.entries root graph (some root) options.includeTests options.entryPoints analyses }

/-- Does the groundwork for the repository at an absolute path, with options that its configuration
may still change; tells what is noted on the way. -/
def make (files : FileTree) (path : String) (asked : Options) :
    List Note × Except SurveyFault Groundwork :=
  match findRoot files path with
  | .error fault => ([], .error fault)
  | .ok root =>
    match config files root with
    | .error fault => ([], .error fault)
    | .ok (config, configNotes) =>
      let options := config.apply asked
      let course := Scan.course files root options.ignore
      let looks := looks files root course
      let analyses := analysesOf looks
      let notes := configNotes ++ [.begun root] ++ looks.flatMap Prod.fst
      match course.fault with
      | some fault => (notes, .error (.tooLong fault))
      | none =>
        let notes := notes ++ [.analyzed analyses.length]
        match Imports.loadAliases files root with
        | .error fault => (notes, .error (.aliases fault))
        | .ok load =>
          let resolver := load.config.resolver files
          let g := ofAnalyses root options analyses resolver
          (notes ++ Note.ofAliases load ++ [.ofGraph g.graph resolver analyses], .ok g)

end Groundwork

end RepoSurvey
