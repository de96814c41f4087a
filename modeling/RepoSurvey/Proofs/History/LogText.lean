import RepoSurvey.Proofs.History.LogIndex
import RepoSurvey.Proofs.Text.Pieces

/-!
# Writing a log and reading it again

`logText` writes entries as a log: for each commit its header line, then a line for each file, then
blank lines. `LogEntry.index` is the index of the entries, without any text. The two agree:
`parseLog` reads the index of the entries off their text (`parseLog_logText`).

Headers and files share one stream of lines. What keeps them apart is that the name of a file has
not the shape of a header (`LogEntry.IsFileName`), and that no two entries have one hash. The proof
goes entry by entry (`foldl_readLine_lines`) and within one file by file
(`foldl_readLine_files`); what has been read is always the index of the entries so far, of which the
last may lack files (`addCommit_index`, `addFile_index`).
-/

namespace RepoSurvey.History

open RepoSurvey.Assoc RepoSurvey.Text

/-! ### Entries and their text -/

/-- A commit in a log, the files it touches, and the blank lines behind them. -/
structure LogEntry where
  commit : Commit
  files : List String := []
  blanks : List String := []

/-- The header line of a commit. -/
def Commit.line (c : Commit) : List Char :=
  join ['\t'] [c.hash.toList, c.author.toList, c.date.toList, c.message.toList]

/-- A line has at least four fields between tabs, of which the first is a hash. -/
def IsHeaderShaped (line : List Char) : Prop :=
  4 ≤ (split '\t' line).length ∧ ∃ hash ∈ (split '\t' line).head?, isHash hash = true

namespace LogEntry

/-- The lines of an entry. -/
def lines (e : LogEntry) : List (List Char) :=
  e.commit.line :: (e.files.map String.toList ++ e.blanks.map String.toList)

/-- A name of a file that can stand on a line of its own. -/
structure IsFileName (file : String) : Prop where
  ne_empty : file ≠ ""
  newline : '\n' ∉ file.toList
  backslash : '\\' ∉ file.toList
  trimmed : IsTrimmed file.toList
  not_header : ¬IsHeaderShaped file.toList

/-- The parts of an entry do not hold what separates them. -/
structure WellFormed (e : LogEntry) : Prop where
  hash : isHash e.commit.hash.toList = true
  author : '\t' ∉ e.commit.author.toList ∧ '\n' ∉ e.commit.author.toList
  date : '\t' ∉ e.commit.date.toList ∧ '\n' ∉ e.commit.date.toList
  message : '\n' ∉ e.commit.message.toList
  files_nodup : e.files.Nodup
  files : ∀ file ∈ e.files, IsFileName file
  blanks : ∀ blank ∈ e.blanks, ∀ c ∈ blank.toList, isBlank c = true ∧ c ≠ '\n'

/-- The commits that touch a file, in order. -/
def commitsOf (entries : List LogEntry) (file : String) : List Commit :=
  (entries.filter fun e ↦ file ∈ e.files).map LogEntry.commit

/-- The index of entries: each hash with its files, and each file with its commits. -/
def index (entries : List LogEntry) : LogIndex where
  commits := entries.map LogEntry.commit
  commitFiles := entries.map fun e ↦ (e.commit.hash, e.files)
  fileCommits := (distinct (entries.flatMap LogEntry.files)).map fun file ↦
    (file, commitsOf entries file)

end LogEntry

/-- The text of a log. -/
def logText (entries : List LogEntry) : String :=
  String.ofList (join ['\n'] (entries.flatMap LogEntry.lines))

/-! ### Lines -/

/-- A hash holds no blanks, so nothing is taken off it. -/
theorem blank_not_mem_of_isHash {cs : List Char} (h : isHash cs = true) {c : Char}
    (hc : isBlank c = true) : c ∉ cs := by
  intro hmem
  simp only [isHash, Bool.and_eq_true, List.all_eq_true] at h
  rw [isBlank_eq_false_of_hexDigit? (h.2 c hmem)] at hc
  exact absurd hc Bool.false_ne_true

/-- The header line of a commit is read as this commit. -/
theorem header?_line {c : Commit} (hhash : isHash c.hash.toList = true)
    (hauthor : '\t' ∉ c.author.toList) (hdate : '\t' ∉ c.date.toList) :
    header? c.line = some c := by
  have htab : '\t' ∉ c.hash.toList := blank_not_mem_of_isHash hhash (by decide)
  have hsplit : split '\t' c.line =
      c.hash.toList :: c.author.toList :: c.date.toList :: split '\t' c.message.toList := by
    simp only [Commit.line, join, List.append_assoc, List.singleton_append]
    rw [split_append_cons htab, split_append_cons hauthor, split_append_cons hdate]
  have hne := split_ne_nil '\t' c.message.toList
  obtain ⟨subject, more, hmessage⟩ := List.exists_cons_of_ne_nil hne
  have hjoin := join_split '\t' c.message.toList
  rw [hmessage] at hsplit hjoin
  rw [header?, hsplit]
  simp only [hhash, if_true, hjoin, String.ofList_toList]

/-- A line of another shape is no header. -/
theorem header?_eq_none {line : List Char} (h : ¬IsHeaderShaped line) : header? line = none := by
  rw [header?]
  split
  · rename_i hash author date subject more hsplit
    refine if_neg fun hhash ↦ h ?_
    rw [IsHeaderShaped, hsplit]
    exact ⟨by simp, hash, rfl, hhash⟩
  · rfl

/-- A line of blanks is no header: it has no hash in it. -/
theorem not_isHeaderShaped_of_blank {line : List Char} (h : ∀ c ∈ line, isBlank c = true) :
    ¬IsHeaderShaped line := by
  rintro ⟨-, hash, hhead, hhash⟩
  have hne : hash ≠ [] := by
    rintro rfl
    simp [isHash] at hhash
  obtain ⟨c, cs, rfl⟩ := List.exists_cons_of_ne_nil hne
  have hmem : c ∈ line := mem_of_mem_split (List.mem_of_head? hhead) List.mem_cons_self
  exact blank_not_mem_of_isHash hhash (h c hmem) List.mem_cons_self

/-- Seen from the top of the repository, a file has the name that stands on its line. -/
theorem fileOf_nil (line : List Char) : fileOf [] line = replaceChar '\\' '/' (trim line) := by
  rw [fileOf, dropFront?, Option.getD_some]

/-- Blank lines say nothing. -/
theorem readLine_blank {line : List Char} (h : ∀ c ∈ line, isBlank c = true) (r : Reading) :
    readLine [] r line = r := by
  refine readLine_of_fileOf_eq_nil (header?_eq_none (not_isHeaderShaped_of_blank h)) ?_
  rw [fileOf_nil, trim_of_forall_isBlank h]
  rfl

/-- The line of a file adds it to the commit that is being read. -/
theorem readLine_fileName {file : String} (h : LogEntry.IsFileName file) {r : Reading} {c : Commit}
    (hcurrent : r.current = some c) :
    readLine [] r file.toList = { r with index := r.index.addFile c file } := by
  have hfile : fileOf [] file.toList = file.toList := by
    rw [fileOf_nil, trim_of_isTrimmed h.trimmed, replaceChar_of_not_mem _ h.backslash]
  have hne : file.toList ≠ [] := by simpa using h.ne_empty
  rw [readLine_file (header?_eq_none h.not_header) hcurrent hfile hne, String.ofList_toList]

/-! ### The index grows with the entries -/

namespace LogEntry

variable {read : List LogEntry} {c : Commit} {files : List String} {file : String}

/-- The hashes of an index are those of its entries, in order. -/
theorem keys_commitFiles_index (entries : List LogEntry) :
    keys (index entries).commitFiles = entries.map fun e ↦ e.commit.hash := by
  simp [keys, index]

/-- One more entry brings one more hash with its files. -/
theorem commitFiles_index_concat (e : LogEntry) :
    (index (read ++ [e])).commitFiles =
      (index read).commitFiles ++ [(e.commit.hash, e.files)] := by
  simp [index]

/-- A new commit is one more entry without files. -/
theorem addCommit_index (hnew : c.hash ∉ read.map fun e ↦ e.commit.hash) (blanks : List String) :
    (index read).addCommit c = index (read ++ [⟨c, [], blanks⟩]) := by
  have hkeys : c.hash ∉ keys (index read).commitFiles := by rwa [keys_commitFiles_index]
  rw [LogIndex.addCommit, modify_of_not_mem_keys hkeys]
  simp [index, commitsOf]

/-- One more file for the last commit adds this commit to those of the file. -/
theorem commitsOf_concat_file (blanks : List String) (hfile : file ∉ files) (other : String) :
    commitsOf (read ++ [⟨c, files ++ [file], blanks⟩]) other =
      if other == file then commitsOf (read ++ [⟨c, files, blanks⟩]) other ++ [c]
      else commitsOf (read ++ [⟨c, files, blanks⟩]) other := by
  simp only [commitsOf, List.filter_append, List.map_append]
  by_cases h : other = file
  · subst h
    simp [hfile]
  · simp only [List.filter_cons, List.filter_nil, List.mem_append, List.mem_singleton, h, or_false,
      beq_iff_eq, if_false]
    split <;> rfl

theorem commitsOf_eq_nil {entries : List LogEntry} (h : file ∉ entries.flatMap LogEntry.files) :
    commitsOf entries file = [] := by
  rw [commitsOf, List.map_eq_nil_iff, List.filter_eq_nil_iff]
  intro e he hfile
  exact h (List.mem_flatMap.2 ⟨e, he, of_decide_eq_true hfile⟩)

/-- One more file for the last commit: a file that was mentioned before gets one more commit, and a
new file comes last. -/
theorem modify_fileCommits_index (blanks : List String) (hfile : file ∉ files) :
    Assoc.modify file (fun commits ↦ commits.getD [] ++ [c])
        (index (read ++ [⟨c, files, blanks⟩])).fileCommits =
      (index (read ++ [⟨c, files ++ [file], blanks⟩])).fileCommits := by
  set before := read ++ [(⟨c, files, blanks⟩ : LogEntry)] with hbefore
  have hmentioned : (read ++ [(⟨c, files ++ [file], blanks⟩ : LogEntry)]).flatMap LogEntry.files =
      before.flatMap LogEntry.files ++ [file] := by
    simp [hbefore]
  simp only [index, hmentioned, distinct_concat]
  by_cases hmem : file ∈ before.flatMap LogEntry.files
  · -- the file keeps its place, and of the listed commits only its own grow
    rw [if_pos hmem, modify_map_of_mem (nodup_distinct _) (mem_distinct.2 hmem)]
    refine List.map_congr_left fun other _ ↦ ?_
    rw [commitsOf_concat_file blanks hfile, Option.getD_some]
  · have hkeys : file ∉ keys ((distinct (before.flatMap LogEntry.files)).map fun f ↦
        (f, commitsOf before f)) := by
      simpa [keys, Function.comp_def] using hmem
    -- the files before it keep their commits, and its only commit is the last one
    rw [if_neg hmem, modify_of_not_mem_keys hkeys, List.map_append, List.map_singleton]
    congr 1
    · refine List.map_congr_left fun other hother ↦ ?_
      have hne : ¬(other == file) = true := by
        rw [beq_iff_eq]
        rintro rfl
        exact hmem (mem_distinct.1 hother)
      rw [commitsOf_concat_file blanks hfile, if_neg hne]
    · rw [commitsOf_concat_file blanks hfile, if_pos (beq_self_eq_true file),
        commitsOf_eq_nil hmem]
      rfl

/-- One more file is one more file of the last entry. -/
theorem addFile_index (hnew : c.hash ∉ read.map fun e ↦ e.commit.hash) (blanks : List String)
    (hfile : file ∉ files) :
    (index (read ++ [⟨c, files, blanks⟩])).addFile c file =
      index (read ++ [⟨c, files ++ [file], blanks⟩]) := by
  have hkeys : c.hash ∉ keys (index read).commitFiles := by rwa [keys_commitFiles_index]
  have hfilesOf : (index (read ++ [⟨c, files, blanks⟩])).filesOf c.hash = files := by
    rw [LogIndex.filesOf, commitFiles_index_concat, List.lookup_append,
      lookup_eq_none_iff_not_mem_keys.2 hkeys]
    simp
  rw [LogIndex.addFile, if_neg (by rwa [hfilesOf]), modify_fileCommits_index blanks hfile,
    commitFiles_index_concat, modify_append_of_not_mem_keys hkeys]
  simp [index, Assoc.modify]

end LogEntry

/-! ### Reading what was written -/

open LogEntry

/-- The files behind a header are added to its commit, one after the other. -/
theorem foldl_readLine_files {read : List LogEntry} {c : Commit} {blanks : List String}
    (hnew : c.hash ∉ read.map fun e ↦ e.commit.hash) {files more : List String}
    (hnodup : (files ++ more).Nodup) (hmore : ∀ file ∈ more, IsFileName file) :
    (more.map String.toList).foldl (readLine [])
        { index := index (read ++ [⟨c, files, blanks⟩]), current := some c } =
      { index := index (read ++ [⟨c, files ++ more, blanks⟩]), current := some c } := by
  induction more generalizing files with
  | nil => rw [List.append_nil, List.map_nil, List.foldl_nil]
  | cons file more ih =>
    obtain ⟨hname, hmore⟩ := List.forall_mem_cons.1 hmore
    have hfile : file ∉ files := fun hmem ↦
      (List.nodup_append.1 hnodup).2.2 file hmem file List.mem_cons_self rfl
    -- the file moves from those to come to those that have been read
    have hassoc : files ++ file :: more = files ++ [file] ++ more := by simp
    rw [hassoc] at hnodup ⊢
    rw [List.map_cons, List.foldl_cons, readLine_fileName hname rfl, addFile_index hnew _ hfile]
    exact ih hnodup hmore

/-- However many blank lines there are, they say nothing. -/
theorem foldl_readLine_blanks {blanks : List String}
    (h : ∀ blank ∈ blanks, ∀ c ∈ blank.toList, isBlank c = true) (r : Reading) :
    (blanks.map String.toList).foldl (readLine []) r = r := by
  induction blanks with
  | nil => rfl
  | cons blank blanks ih =>
    obtain ⟨hblank, hblanks⟩ := List.forall_mem_cons.1 h
    rw [List.map_cons, List.foldl_cons, readLine_blank hblank]
    exact ih hblanks

/-- To read the lines of an entry is to add this entry to the index. -/
theorem foldl_readLine_lines {read : List LogEntry} {e : LogEntry} (he : e.WellFormed)
    (hnew : e.commit.hash ∉ read.map fun e ↦ e.commit.hash) (current : Option Commit) :
    e.lines.foldl (readLine []) { index := index read, current } =
      { index := index (read ++ [e]), current := some e.commit } := by
  have hblanks : ∀ blank ∈ e.blanks, ∀ c ∈ blank.toList, isBlank c = true :=
    fun blank hblank c hc ↦ (he.blanks blank hblank c hc).1
  rw [LogEntry.lines, List.foldl_cons, readLine_header (header?_line he.hash he.author.1 he.date.1),
    List.foldl_append, foldl_readLine_blanks hblanks, addCommit_index hnew e.blanks]
  exact foldl_readLine_files hnew he.files_nodup he.files

/-- To read the lines of entries is to add them, one after the other. -/
theorem foldl_readLine_entries {read entries : List LogEntry}
    (he : ∀ e ∈ entries, e.WellFormed)
    (hnodup : ((read ++ entries).map fun e ↦ e.commit.hash).Nodup) (current : Option Commit) :
    ((entries.flatMap LogEntry.lines).foldl (readLine []) { index := index read, current }).index =
      index (read ++ entries) := by
  induction entries generalizing read current with
  | nil => rw [List.append_nil, List.flatMap_nil, List.foldl_nil]
  | cons e entries ih =>
    obtain ⟨hwell, he⟩ := List.forall_mem_cons.1 he
    have hnew : e.commit.hash ∉ read.map fun e ↦ e.commit.hash := fun hmem ↦ by
      rw [List.map_append] at hnodup
      exact (List.nodup_append.1 hnodup).2.2 _ hmem _ (by simp) rfl
    have hassoc : read ++ e :: entries = read ++ [e] ++ entries := by simp
    rw [hassoc] at hnodup ⊢
    rw [List.flatMap_cons, List.foldl_append, foldl_readLine_lines hwell hnew]
    exact ih he hnodup _

theorem newline_not_mem_line {c : Commit} (hhash : isHash c.hash.toList = true)
    (hauthor : '\n' ∉ c.author.toList) (hdate : '\n' ∉ c.date.toList)
    (hmessage : '\n' ∉ c.message.toList) : '\n' ∉ c.line := by
  have hnewline : '\n' ∉ c.hash.toList := blank_not_mem_of_isHash hhash (by decide)
  simp [Commit.line, join, hnewline, hauthor, hdate, hmessage]

/-- The lines of an entry are lines, so the text of a log is cut between them again. -/
theorem newline_not_mem_lines {e : LogEntry} (he : e.WellFormed) :
    ∀ line ∈ e.lines, '\n' ∉ line := by
  intro line hline
  rw [LogEntry.lines, List.mem_cons, List.mem_append, List.mem_map, List.mem_map] at hline
  rcases hline with rfl | ⟨file, hfile, rfl⟩ | ⟨blank, hblank, rfl⟩
  · exact newline_not_mem_line he.hash he.author.2 he.date.2 he.message
  · exact (he.files file hfile).newline
  · exact fun hc ↦ (he.blanks blank hblank _ hc).2 rfl

/-- The text of entries is read line by line, whatever directory it is read for. -/
theorem parseLog_eq_foldl_readLine (front : String) {entries : List LogEntry}
    (hwell : ∀ e ∈ entries, e.WellFormed) :
    parseLog front (logText entries) =
      ((entries.flatMap LogEntry.lines).foldl (readLine front.toList) {}).index := by
  have hlines : ∀ line ∈ entries.flatMap LogEntry.lines, '\n' ∉ line := fun line hline ↦ by
    obtain ⟨e, he, hline⟩ := List.mem_flatMap.1 hline
    exact newline_not_mem_lines (hwell e he) line hline
  rw [parseLog, logText, String.toList_ofList]
  by_cases hnil : entries.flatMap LogEntry.lines = []
  · -- no line is written like one empty line
    rw [hnil]
    rfl
  · rw [split_join hnil hlines]

/-- **Round trip of a log.** Where no two entries have one hash, reading the text of entries gives
the commits in order, the files of each hash, and for each file that is mentioned, and for no other,
the commits that touch it, in the order of the log. -/
theorem parseLog_logText (entries : List LogEntry) (hwell : ∀ e ∈ entries, e.WellFormed)
    (hnodup : (entries.map fun e ↦ e.commit.hash).Nodup) :
    parseLog "" (logText entries) = LogEntry.index entries := by
  have hnone : (([] ++ entries).map fun e : LogEntry ↦ e.commit.hash).Nodup := hnodup
  have hread := foldl_readLine_entries hwell hnone none
  rw [parseLog_eq_foldl_readLine "" hwell, String.toList_empty]
  exact hread

/-- Two commits, of which the second has nothing but a hash and a file; the subject of the first has
a tab, and of the two blank lines between them one holds a space. -/
theorem parseLog_logText_of_two_commits :
    let entries : List LogEntry :=
      [{ commit := ⟨"abcdef0", "Ada", "2024", "fix:\tthings"⟩
         files := ["x.js", "a b.js"]
         blanks := ["", " "] },
        { commit := ⟨"ABCDEF1", "", "", ""⟩, files := ["x.js"] }]
    (∀ e ∈ entries, e.WellFormed) ∧ (entries.map fun e ↦ e.commit.hash).Nodup ∧
      parseLog "" "abcdef0\tAda\t2024\tfix:\tthings\nx.js\na b.js\n\n \nABCDEF1\t\t\t\nx.js" =
        LogEntry.index entries := by
  intro entries
  have hx : LogEntry.IsFileName "x.js" :=
    ⟨by decide, by decide, by decide, by decide, fun h ↦ absurd h.1 (by decide)⟩
  have hab : LogEntry.IsFileName "a b.js" :=
    ⟨by decide, by decide, by decide, by decide, fun h ↦ absurd h.1 (by decide)⟩
  have hblanks : ∀ blank ∈ ["", " "], ∀ c ∈ blank.toList, isBlank c = true ∧ c ≠ '\n' := by
    simp only [List.forall_mem_cons, String.toList_empty, List.not_mem_nil, false_implies,
      implies_true, and_true, true_and]
    intro c hc
    obtain rfl : c = ' ' := by simpa using hc
    decide
  have hwell : ∀ e ∈ entries, e.WellFormed := by
    intro e he
    simp only [entries, List.mem_cons, List.not_mem_nil, or_false] at he
    rcases he with rfl | rfl
    · exact ⟨by decide, by decide, by decide, by decide, by decide, by simp [hx, hab], hblanks⟩
    · exact ⟨by decide, by decide, by decide, by decide, by decide, by simp [hx], by decide⟩
  have hnodup : (entries.map fun e ↦ e.commit.hash).Nodup := by decide
  exact ⟨hwell, hnodup, parseLog_logText entries hwell hnodup⟩

end RepoSurvey.History
