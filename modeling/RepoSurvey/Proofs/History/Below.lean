import RepoSurvey.Proofs.History.LogText

/-!
# A log as seen below a directory

A log is read for the files below one directory, and their paths are taken without it.
`LogIndex.below` says what becomes of an index in the eyes of somebody who sees only these files: it
has the same commits, of each commit the files below the directory, and for each of these the same
commits. Reading a log for a directory comes to the same as reading it for all files and looking at
the index in this way (`parseLog_eq_below`), whatever the text is.

Both are read line by line, and a line can be read before or after looking
(`Reading.Sound.readLine_below`). A header adds the same commit on both sides. A file is added on
both sides, or on the one that counts all files only, if it does not lie below the directory
(`LogIndex.addFile_below`, `LogIndex.below_addFile_outside`). A file counts once for each hash,
which comes to the same on both sides, since a path is the directory and what stands behind it
(`below?_eq_some_iff`).

`parseLog_restricts` says of each part of the index what that means.
-/

namespace RepoSurvey.History

open RepoSurvey.Assoc RepoSurvey.Text

/-! ### Paths below a directory -/

/-- The path of a file without the directory in front of it, if it lies below it. -/
def below? (front file : String) : Option String :=
  ((dropFront? front.toList file.toList).map String.ofList).filter (· != "")

/-- A file lies below a directory if its path continues that of the directory. -/
theorem below?_eq_some_iff {front file path : String} :
    below? front file = some path ↔ path ≠ "" ∧ file = front ++ path := by
  have hfile : file = front ++ path ↔ file.toList = front.toList ++ path.toList := by
    rw [← String.toList_inj, String.toList_append]
  rw [below?, Option.filter_eq_some_iff, Option.map_eq_some_iff, hfile]
  constructor
  · rintro ⟨⟨rest, hrest, rfl⟩, hne⟩
    rw [String.toList_ofList]
    exact ⟨by simpa using hne, dropFront?_eq_some_iff.1 hrest⟩
  · rintro ⟨hne, hchars⟩
    exact ⟨⟨path.toList, dropFront?_eq_some_iff.2 hchars, String.ofList_toList⟩, by simpa using hne⟩

theorem below?_append {front path : String} (hne : path ≠ "") :
    below? front (front ++ path) = some path :=
  below?_eq_some_iff.2 ⟨hne, rfl⟩

/-- Whether a file lies below a directory, as it is computed. -/
theorem below?_eq_ite (front file : String) :
    below? front file =
      if startsWith file front && front.length < file.length then
        some (dropChars front.length file)
      else none := by
  split
  · rename_i hbelow
    obtain ⟨hstarts, hlong⟩ := Bool.and_eq_true_iff.1 hbelow
    obtain ⟨path, rfl⟩ := startsWith_iff.1 hstarts
    have hne : path ≠ "" := by
      rintro rfl
      simp at hlong
    rw [below?_append hne, dropChars_append]
  · rename_i hnot
    refine Option.eq_none_iff_forall_ne_some.2 fun path hpath ↦ hnot ?_
    obtain ⟨hne, rfl⟩ := below?_eq_some_iff.1 hpath
    have hlong : front.length < (front ++ path).length := by
      have : path.length ≠ 0 := by simpa using hne
      rw [String.length_append]
      omega
    rw [startsWith_iff.2 ⟨path, rfl⟩, decide_eq_true hlong, Bool.and_self]

/-- The files below a directory, without its path. -/
theorem filterMap_below? (front : String) (files : List String) :
    files.filterMap (below? front) =
      (files.filter fun f ↦ startsWith f front && front.length < f.length).map
        (dropChars front.length) := by
  induction files with
  | nil => rfl
  | cons f files ih =>
    rw [List.filterMap_cons, below?_eq_ite, List.filter_cons, ih]
    by_cases hf : (startsWith f front && front.length < f.length) = true
    · rw [if_pos hf, if_pos hf, List.map_cons]
    · rw [if_neg hf, if_neg hf]

/-- Only one file has a given path below a directory. -/
theorem eq_of_below? {front file file' path : String} (h : below? front file = some path)
    (h' : below? front file' = some path) : file' = file := by
  rw [(below?_eq_some_iff.1 h).2, (below?_eq_some_iff.1 h').2]

/-- A path is seen below a directory if it is there with the directory in front of it. -/
theorem mem_filterMap_below? {front path : String} {files : List String} (hne : path ≠ "") :
    path ∈ files.filterMap (below? front) ↔ front ++ path ∈ files := by
  simp only [List.mem_filterMap, below?_eq_some_iff]
  constructor
  · rintro ⟨file, hfile, -, rfl⟩
    exact hfile
  · exact fun h ↦ ⟨_, h, hne, rfl⟩

/-- The file of a line is that of the line without a directory, if this lies below the directory. -/
theorem fileOf_eq (front : String) (line : List Char) :
    fileOf front.toList line =
      ((below? front (String.ofList (fileOf [] line))).getD "").toList := by
  rw [fileOf_nil, fileOf, below?, String.toList_ofList]
  rcases dropFront? front.toList (replaceChar '\\' '/' (trim line)) with - | rest
  · rfl
  · by_cases hrest : String.ofList rest = ""
    · have hnil : rest = [] := by simpa using congrArg String.toList hrest
      subst hnil
      rfl
    · have hkept : (some (String.ofList rest)).filter (· != "") = some (String.ofList rest) := by
        rw [Option.filter_some, if_pos (by simpa using hrest)]
      simp only [Option.map_some, hkept, Option.getD_some, String.toList_ofList]

/-! ### An index as seen below a directory -/

namespace LogIndex

variable {front path file : String} {x : LogIndex} {c : Commit}

/-- What an index is for somebody who sees only the files below a directory, without its path. -/
def below (front : String) (x : LogIndex) : LogIndex where
  commits := x.commits
  commitFiles := mapValues (List.filterMap (below? front)) x.commitFiles
  fileCommits := renameKeys (below? front) x.fileCommits

@[simp] theorem commits_below (front : String) (x : LogIndex) :
    (x.below front).commits = x.commits := rfl

/-- Of a hash those files are seen that lie below the directory. -/
theorem filesOf_below (front : String) (x : LogIndex) (h : String) :
    (x.below front).filesOf h = (x.filesOf h).filterMap (below? front) := by
  rw [filesOf, filesOf, below, lookup_mapValues]
  cases x.commitFiles.lookup h <;> rfl

/-- What is seen of a path is what is there for it with the directory in front. -/
theorem lookup_fileCommits_below (front : String) (x : LogIndex) (hne : path ≠ "") :
    (x.below front).fileCommits.lookup path = x.fileCommits.lookup (front ++ path) :=
  lookup_renameKeys (below?_append hne) (fun _ h ↦ eq_of_below? (below?_append hne) h) _

theorem commitsOf_below (front : String) (x : LogIndex) (hne : path ≠ "") :
    (x.below front).commitsOf path = x.commitsOf (front ++ path) := by
  rw [commitsOf, commitsOf, lookup_fileCommits_below front x hne]

/-- A commit is seen whether any file of it is or not. -/
theorem addCommit_below (front : String) (x : LogIndex) (c : Commit) :
    (x.below front).addCommit c = (x.addCommit c).below front := by
  have hfiles := modify_mapValues (g := List.filterMap (below? front))
    (f := fun files ↦ files.getD []) (h := fun files ↦ files.getD [])
    (fun old ↦ by cases old <;> rfl) c.hash x.commitFiles
  simp only [addCommit, below, hfiles]

/-- A file below the directory is noted on both sides, or on neither. -/
theorem mem_filesOf_below (x : LogIndex) (hfile : below? front file = some path) (h : String) :
    path ∈ (x.below front).filesOf h ↔ file ∈ x.filesOf h := by
  obtain ⟨hne, rfl⟩ := below?_eq_some_iff.1 hfile
  rw [filesOf_below, mem_filterMap_below? hne]

/-- Noting a file under a hash, and leaving out the files that do not lie below the directory. -/
theorem modify_commitFiles_below (front file : String) (x : LogIndex) (c : Commit) :
    modify c.hash (fun files ↦ files.getD [] ++ (below? front file).toList)
        (x.below front).commitFiles =
      mapValues (List.filterMap (below? front))
        (modify c.hash (fun files ↦ files.getD [] ++ [file]) x.commitFiles) := by
  refine modify_mapValues (fun old ↦ ?_) c.hash x.commitFiles
  cases old <;> cases h : below? front file <;> simp [h]

/-- A file below the directory is added on both sides, or has been noted on both. -/
theorem addFile_below (x : LogIndex) (c : Commit) (hfile : below? front file = some path) :
    (x.below front).addFile c path = (x.addFile c file).below front := by
  by_cases hmem : file ∈ x.filesOf c.hash
  · rw [addFile_of_mem hmem, addFile_of_mem ((mem_filesOf_below x hfile _).2 hmem)]
  have hnew : path ∉ (x.below front).filesOf c.hash := fun hnoted ↦
    hmem ((mem_filesOf_below x hfile _).1 hnoted)
  have hfiles := modify_commitFiles_below front file x c
  have hcommits := modify_renameKeys hfile (fun _ h ↦ eq_of_below? hfile h)
    (fun commits ↦ commits.getD [] ++ [c]) x.fileCommits
  rw [hfile] at hfiles
  rw [addFile, addFile, if_neg hmem, if_neg hnew]
  show LogIndex.mk _ _ _ = LogIndex.mk _ _ _
  rw [← hfiles, ← hcommits]
  rfl

/-- A file that does not lie below the directory is seen only without it. -/
theorem below_addFile_outside {x : LogIndex} (hhash : c.hash ∈ keys x.commitFiles)
    (hfile : below? front file = none) : (x.addFile c file).below front = x.below front := by
  by_cases hmem : file ∈ x.filesOf c.hash
  · rw [addFile_of_mem hmem]
  have hfiles := modify_commitFiles_below front file x c
  have hself : modify c.hash (fun files ↦ files.getD [] ++ (none : Option String).toList)
      (x.below front).commitFiles = (x.below front).commitFiles :=
    modify_eq_self (fun v ↦ List.append_nil v) (by rwa [below, keys_mapValues])
  rw [hfile, hself] at hfiles
  rw [addFile, if_neg hmem]
  show LogIndex.mk _ _ _ = LogIndex.mk _ _ _
  rw [← hfiles, renameKeys_modify_of_eq_none hfile]
  rfl

end LogIndex

/-! ### Reading -/

/-- What has been read, for somebody who sees only the files below a directory. -/
def Reading.below (front : String) (r : Reading) : Reading :=
  { r with index := r.index.below front }

namespace Reading

variable {r : Reading}

/-- A line can be read for a directory, or for all files before looking below the directory. -/
theorem Sound.readLine_below (h : r.Sound) (front : String) (line : List Char) :
    History.readLine front.toList (r.below front) line =
      (History.readLine [] r line).below front := by
  rcases hheader : header? line with - | c
  · rcases hcurrent : r.current with - | c
    · have hbelow : (r.below front).current = none := hcurrent
      rw [readLine_stray hheader hcurrent, readLine_stray hheader hbelow]
    have hbelow : (r.below front).current = some c := hcurrent
    have hhash : c.hash ∈ keys r.index.commitFiles :=
      (h.dual.mem_hashes _).2 ⟨c, List.mem_of_getLast? (h.current c hcurrent), rfl⟩
    have hfile := fileOf_eq front line
    rcases hplain : fileOf [] line with - | ⟨a, file⟩
    · -- an empty name lies below no directory
      have hnone : below? front (String.ofList []) = none := by
        rw [below?_eq_ite, if_neg (by simp)]
      rw [hplain, hnone] at hfile
      rw [readLine_of_fileOf_eq_nil hheader hplain, readLine_of_fileOf_eq_nil hheader hfile]
    rw [readLine_file hheader hcurrent hplain (List.cons_ne_nil a file)]
    -- whether a file lies below the directory is seen from its path alone
    rcases hpath : below? front (String.ofList (a :: file)) with - | path
    · rw [hplain, hpath] at hfile
      rw [readLine_of_fileOf_eq_nil hheader hfile]
      show Reading.mk _ _ = Reading.mk _ _
      rw [LogIndex.below_addFile_outside hhash hpath]
    · rw [hplain, hpath, Option.getD_some] at hfile
      have hne : path.toList ≠ [] := by simpa using (below?_eq_some_iff.1 hpath).1
      rw [readLine_file hheader hbelow hfile hne, String.ofList_toList]
      show Reading.mk _ _ = Reading.mk _ _
      rw [← LogIndex.addFile_below _ c hpath]
      rfl
  · rw [readLine_header hheader, readLine_header hheader]
    show Reading.mk _ _ = Reading.mk _ _
    rw [← LogIndex.addCommit_below]
    rfl

/-- So can all lines, one after the other. -/
theorem Sound.foldl_readLine_below (h : r.Sound) (front : String) (lines : List (List Char)) :
    lines.foldl (History.readLine front.toList) (r.below front) =
      (lines.foldl (History.readLine []) r).below front := by
  induction lines generalizing r with
  | nil => rfl
  | cons line lines ih =>
    rw [List.foldl_cons, List.foldl_cons, h.readLine_below]
    exact ih (h.readLine [] line)

end Reading

/-- Reading a log for a directory is reading it for all files and looking below the directory. -/
theorem parseLog_eq_below (front log : String) :
    parseLog front log = (parseLog "" log).below front :=
  congrArg Reading.index (Reading.Sound.empty.foldl_readLine_below front _)

/-- **Reading below a directory.** Whatever the text of a log: reading it for a directory gives the
commits that reading it for all files gives; under each hash the files that begin with the directory
and go on behind it, in order and without it; and for each path the commits of the file that it
names with the directory in front, the paths in the order of these files. -/
theorem parseLog_restricts (front log : String) :
    let x := parseLog "" log
    let y := parseLog front log
    let isBelow (file : String) := startsWith file front && front.length < file.length
    y.commits = x.commits ∧
    (keys y.commitFiles = keys x.commitFiles ∧
      ∀ h, y.filesOf h = ((x.filesOf h).filter isBelow).map (dropChars front.length)) ∧
    (keys y.fileCommits = ((keys x.fileCommits).filter isBelow).map (dropChars front.length) ∧
      ∀ path, path ≠ "" →
        y.fileCommits.lookup path = x.fileCommits.lookup (front ++ path)) := by
  intro x y isBelow
  have hbelow : y = x.below front := parseLog_eq_below front log
  rw [hbelow]
  refine ⟨rfl, ⟨keys_mapValues _ _, fun h ↦ ?_⟩, ?_, fun path hpath ↦ ?_⟩
  · rw [LogIndex.filesOf_below, filterMap_below?]
  · rw [LogIndex.below, keys_renameKeys, filterMap_below?]
  · exact LogIndex.lookup_fileCommits_below front x hpath

/-- A log that was written from entries is read for the files below a directory. -/
theorem parseLog_logText_eq_below (front : String) {entries : List LogEntry}
    (hwell : ∀ e ∈ entries, e.WellFormed)
    (hnodup : (entries.map fun e ↦ e.commit.hash).Nodup) :
    parseLog front (logText entries) = (LogEntry.index entries).below front := by
  have hnone : (([] ++ entries).map fun e : LogEntry ↦ e.commit.hash).Nodup := hnodup
  have hread := foldl_readLine_entries hwell hnone none
  rw [parseLog_eq_below, parseLog_eq_foldl_readLine "" hwell, String.toList_empty]
  exact congrArg (LogIndex.below front) hread

end RepoSurvey.History
