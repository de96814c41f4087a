import RepoSurvey.Main
import RepoSurvey.Proofs.Code.AssignedNames
import RepoSurvey.Proofs.Code.Complexity
import RepoSurvey.Proofs.Code.GoImports
import RepoSurvey.Proofs.Code.ImportSources
import RepoSurvey.Proofs.Code.PythonImports
import RepoSurvey.Proofs.Code.Traversal
import RepoSurvey.Proofs.Config.Load
import RepoSurvey.Proofs.Config.Options
import RepoSurvey.Proofs.Files.LiteralPatterns
import RepoSurvey.Proofs.Files.Reordering
import RepoSurvey.Proofs.History.CoChange
import RepoSurvey.Proofs.History.Frequency
import RepoSurvey.Proofs.History.Lasting
import RepoSurvey.Proofs.History.OwnKey
import RepoSurvey.Proofs.History.Recent
import RepoSurvey.Proofs.Imports.AliasChain
import RepoSurvey.Proofs.Imports.AliasFaults
import RepoSurvey.Proofs.Imports.AliasRules
import RepoSurvey.Proofs.Imports.Cleanup
import RepoSurvey.Proofs.Imports.DeadCode
import RepoSurvey.Proofs.Imports.RelativeModules
import RepoSurvey.Proofs.Imports.Segments
import RepoSurvey.Proofs.Imports.Siblings
import RepoSurvey.Proofs.Imports.Spelling
import RepoSurvey.Proofs.Imports.Uncommented
import RepoSurvey.Proofs.Insight.Grouping
import RepoSurvey.Proofs.Insight.Relocation
import RepoSurvey.Proofs.Insight.Risk
import RepoSurvey.Proofs.Survey.Concurrency
import RepoSurvey.Proofs.Survey.Consistency
import RepoSurvey.Proofs.Survey.Workers
import RepoSurvey.Service.Order
import RepoSurvey.Service.Reply
