import RepoSurvey.Text.Quoted

/-!
# Flags of the command line

The flags that the commands know, and what may be wrong with the words of a command line.
-/

namespace RepoSurvey.CommandLine

open RepoSurvey.Text

/-- A flag. -/
inductive Flag where
  | help
  | verbose
  | output
  | ignore
  | includeTests
  | skipRelated
  | format
  | threshold
deriving DecidableEq, Repr

namespace Flag

/-- The names of a flag. -/
def names : Flag → List String
  | .help => ["-h", "--help"]
  | .verbose => ["-v", "--verbose"]
  | .output => ["-o", "--output"]
  | .ignore => ["--ignore"]
  | .includeTests => ["--include-tests"]
  | .skipRelated => ["--skip-cochange"]
  | .format => ["--format"]
  | .threshold => ["--threshold"]

/-- Whether a value belongs to a flag. -/
def takesValue : Flag → Bool
  | .output | .ignore | .format | .threshold => true
  | _ => false

/-- How a flag is called in a message. -/
def label (f : Flag) : String := "/".intercalate f.names

end Flag

/-- What is wrong with the words of a command line. -/
inductive WordFault where
  /-- A name is cut so short that several flags may be meant. -/
  | ambiguous (word : String) (names : List String)
  /-- A flag has no value. -/
  | noValue (flag : Flag)
  /-- A flag has a value that it does not take. -/
  | unwantedValue (flag : Flag) (value : String)
  /-- A word is none of those that may stand there. -/
  | badChoice (label word : String) (choices : List String)
  /-- The value of a flag is no whole number. -/
  | badNumber (flag : Flag) (value : String)
  | noCommand
  /-- Words have no meaning. -/
  | unknown (words : List String)
deriving DecidableEq, Repr

namespace WordFault

/-- The wording of what is wrong with an argument. -/
def about (label problem : String) : String := "argument " ++ label ++ ": " ++ problem

/-- The wording of a fault. -/
def message : WordFault → String
  | .ambiguous word names =>
    "ambiguous option: " ++ word ++ " could match " ++ ", ".intercalate names
  | .noValue flag => about flag.label "expected one argument"
  | .unwantedValue flag value => about flag.label ("ignored explicit argument " ++ quoted value)
  | .badChoice label word choices =>
    about label ("invalid choice: " ++ quoted word ++ " (choose from " ++
      ", ".intercalate (choices.map quoted) ++ ")")
  | .badNumber flag value => about flag.label ("invalid int value: " ++ quoted value)
  | .noCommand => "the following arguments are required: command"
  | .unknown words => "unrecognized arguments: " ++ " ".intercalate words

end WordFault

end RepoSurvey.CommandLine
