import RepoSurvey.History.Log
import RepoSurvey.Proofs.Assoc

/-!
# The two maps of a log index are inverse to each other

A `LogIndex` holds the files of each hash and the commits of each file. `LogIndex.Dual` says that
the two say the same: a file stands under a hash exactly if one of its commits, and only one, has
that hash.

A commit is added only to the files named behind its header, and only while it is the last commit
(`Reading.Sound`); a file is noted once for each hash. So the commits of a file are taken from the
list of all commits from left to right, which is what keeps them a sublist
(`LogIndex.Dual.addFile`) even where a hash heads several blocks.
-/

namespace RepoSurvey.History

open RepoSurvey.Assoc

namespace LogIndex

/-! ### What each addition changes -/

/-- Setting the files of one hash leaves those of all others. -/
theorem filesOf_modify (files : List (String × List String)) (h key : String)
    (f : Option (List String) → List String) :
    ((modify key f files).lookup h).getD [] =
      if h = key then f (files.lookup key) else (files.lookup h).getD [] := by
  rw [lookup_modify]
  by_cases hh : h = key <;> simp [hh]

/-- A commit comes without files, so no hash has other files than before. -/
@[simp] theorem filesOf_addCommit (x : LogIndex) (c : Commit) (h : String) :
    (x.addCommit c).filesOf h = x.filesOf h := by
  rw [filesOf, addCommit, filesOf_modify]
  split
  · rename_i hh
    rw [hh]
    rfl
  · rfl

@[simp] theorem commitsOf_addCommit (x : LogIndex) (c : Commit) (p : String) :
    (x.addCommit c).commitsOf p = x.commitsOf p := rfl

@[simp] theorem commits_addFile (x : LogIndex) (c : Commit) (file : String) :
    (x.addFile c file).commits = x.commits := by
  rw [addFile]
  split <;> rfl

theorem addFile_of_mem {x : LogIndex} {c : Commit} {file : String} (h : file ∈ x.filesOf c.hash) :
    x.addFile c file = x := if_pos h

/-- A new file goes behind the others of its hash, and no other hash has it from this. -/
theorem filesOf_addFile {x : LogIndex} {c : Commit} {file : String} (h : String)
    (hnew : file ∉ x.filesOf c.hash) :
    (x.addFile c file).filesOf h =
      if h = c.hash then x.filesOf c.hash ++ [file] else x.filesOf h := by
  rw [addFile, if_neg hnew]
  exact filesOf_modify _ _ _ _

/-- A commit goes behind the others of a new file of it, and no other file has it from this. -/
theorem commitsOf_addFile {x : LogIndex} {c : Commit} {file : String} (p : String)
    (hnew : file ∉ x.filesOf c.hash) :
    (x.addFile c file).commitsOf p =
      if p = file then x.commitsOf file ++ [c] else x.commitsOf p := by
  rw [addFile, if_neg hnew, commitsOf, lookup_modify]
  by_cases hp : p = file <;> simp [hp, commitsOf]

/-! ### The invariant -/

/-- Both maps say which files the commits touch. -/
structure Dual (x : LogIndex) : Prop where
  nodup_hashes : (keys x.commitFiles).Nodup
  mem_hashes : ∀ h, h ∈ keys x.commitFiles ↔ ∃ c ∈ x.commits, c.hash = h
  nodup_filesOf : ∀ h, (x.filesOf h).Nodup
  ne_empty_of_mem : ∀ h, "" ∉ x.filesOf h
  nodup_files : (keys x.fileCommits).Nodup
  countP_commitsOf : ∀ p h,
    (x.commitsOf p).countP (fun c ↦ c.hash = h) = if p ∈ x.filesOf h then 1 else 0
  commits_ne_nil : ∀ p, x.fileCommits.lookup p ≠ some []
  sublist_commits : ∀ p, (x.commitsOf p).Sublist x.commits

/-- Two empty maps say the same. -/
theorem dual_empty : Dual {} where
  nodup_hashes := List.nodup_nil
  mem_hashes h := by simp
  nodup_filesOf h := List.nodup_nil
  ne_empty_of_mem h := by simp [filesOf]
  nodup_files := List.nodup_nil
  countP_commitsOf p h := by simp [commitsOf, filesOf]
  commits_ne_nil p := by simp
  sublist_commits p := List.nil_sublist _

namespace Dual

variable {x : LogIndex} {c : Commit}

/-- A commit without files touches none, in both maps. -/
theorem addCommit (h : x.Dual) (c : Commit) : (x.addCommit c).Dual where
  nodup_hashes := nodup_keys_modify h.nodup_hashes
  mem_hashes k := by
    rw [LogIndex.addCommit, mem_keys_modify, h.mem_hashes]
    constructor
    · rintro (rfl | ⟨c', hc', rfl⟩)
      · exact ⟨c, by simp, rfl⟩
      · exact ⟨c', by simp [hc'], rfl⟩
    · rintro ⟨c', hc', rfl⟩
      rcases List.mem_append.1 hc' with hc' | hc'
      · exact Or.inr ⟨c', hc', rfl⟩
      · exact Or.inl (by rw [List.mem_singleton.1 hc'])
  nodup_filesOf k := by
    rw [filesOf_addCommit]
    exact h.nodup_filesOf k
  ne_empty_of_mem k := by
    rw [filesOf_addCommit]
    exact h.ne_empty_of_mem k
  nodup_files := h.nodup_files
  countP_commitsOf p k := by
    rw [filesOf_addCommit, commitsOf_addCommit]
    exact h.countP_commitsOf p k
  commits_ne_nil := h.commits_ne_nil
  sublist_commits p := (h.sublist_commits p).trans (List.sublist_append_left _ _)

/-- A file that is not noted for the hash of the last commit is noted for no commit at the end of
the list, so there is room for that commit behind the others of the file. -/
theorem concat_sublist (h : x.Dual) {file : String} (hlast : x.commits.getLast? = some c)
    (hnew : file ∉ x.filesOf c.hash) : (x.commitsOf file ++ [c]).Sublist x.commits := by
  obtain ⟨front, hfront⟩ := List.getLast?_eq_some_iff.1 hlast
  have hcount : (x.commitsOf file).countP (fun d ↦ d.hash = c.hash) = 0 := by
    rw [h.countP_commitsOf, if_neg hnew]
  have hnot : c ∉ x.commitsOf file := fun hc ↦ by
    simpa using List.countP_eq_zero.1 hcount c hc
  have hsub := h.sublist_commits file
  rw [hfront] at hsub ⊢
  refine List.Sublist.append ?_ (List.Sublist.refl [c])
  obtain ⟨l₁, l₂, heq, hl₁, hl₂⟩ := List.sublist_append_iff.1 hsub
  -- nothing of the file's commits can stand where the last commit stands
  rcases List.sublist_singleton.1 hl₂ with rfl | rfl
  · rw [heq, List.append_nil]
    exact hl₁
  · exact absurd (heq ▸ List.mem_append_right l₁ (List.mem_singleton.2 rfl)) hnot

/-- A file of the last commit is noted in both maps, or in neither if it is noted already. -/
theorem addFile (h : x.Dual) {file : String} (hlast : x.commits.getLast? = some c)
    (hfile : file ≠ "") : (x.addFile c file).Dual := by
  by_cases hmem : file ∈ x.filesOf c.hash
  · rw [addFile_of_mem hmem]
    exact h
  have hhash : c.hash ∈ keys x.commitFiles :=
    (h.mem_hashes _).2 ⟨c, List.mem_of_getLast? hlast, rfl⟩
  have hkeys : keys (x.addFile c file).commitFiles = keys x.commitFiles := by
    rw [LogIndex.addFile, if_neg hmem, keys_modify, if_pos hhash]
  refine ⟨?_, ?_, fun k ↦ ?_, fun k ↦ ?_, ?_, fun p k ↦ ?_, fun p ↦ ?_, fun p ↦ ?_⟩
  · rw [hkeys]
    exact h.nodup_hashes
  · rw [hkeys, commits_addFile]
    exact h.mem_hashes
  · rw [filesOf_addFile k hmem]
    split
    · simpa using (h.nodup_filesOf c.hash).concat hmem
    · exact h.nodup_filesOf k
  · rw [filesOf_addFile k hmem]
    split
    · simpa using ⟨h.ne_empty_of_mem _, hfile⟩
    · exact h.ne_empty_of_mem k
  · rw [LogIndex.addFile, if_neg hmem]
    exact nodup_keys_modify h.nodup_files
  · -- only the count of this file under this hash changes, and it was zero
    have hcount := h.countP_commitsOf p k
    rw [commitsOf_addFile p hmem, filesOf_addFile k hmem]
    by_cases hp : p = file <;> by_cases hk : k = c.hash
    · subst hp hk
      rw [if_neg hmem] at hcount
      simp [hcount]
    · subst hp
      have hk' : c.hash ≠ k := Ne.symm hk
      simp [hcount, hk, hk']
    · subst hk
      simp [hcount, hp]
    · simp [hcount, hp, hk]
  · rw [LogIndex.addFile, if_neg hmem, lookup_modify]
    split
    · simp
    · exact h.commits_ne_nil p
  · rw [commitsOf_addFile p hmem, commits_addFile]
    split
    · exact h.concat_sublist hlast hmem
    · exact h.sublist_commits p

/-! ### What both maps say of a file -/

/-- A hash stands under a file exactly if the file stands under the hash. -/
theorem mem_hashes_commitsOf (h : x.Dual) {file hash : String} :
    hash ∈ (x.commitsOf file).map Commit.hash ↔ file ∈ x.filesOf hash := by
  have hcount := h.countP_commitsOf file hash
  constructor
  · intro hmem
    obtain ⟨c, hc, rfl⟩ := List.mem_map.1 hmem
    by_contra hnot
    rw [if_neg hnot, List.countP_eq_zero] at hcount
    exact hcount c hc (decide_eq_true rfl)
  · intro hmem
    rw [if_pos hmem] at hcount
    obtain ⟨c, hc, hhash⟩ := List.countP_pos_iff.1 (hcount ▸ Nat.one_pos)
    exact List.mem_map.2 ⟨c, hc, of_decide_eq_true hhash⟩

/-- No two commits of a file have one hash. -/
theorem nodup_hashes_commitsOf (h : x.Dual) (file : String) :
    ((x.commitsOf file).map Commit.hash).Nodup := by
  refine List.nodup_iff_count_le_one.2 fun hash ↦ ?_
  have hcount := h.countP_commitsOf file hash
  rw [List.count, List.countP_map]
  show (x.commitsOf file).countP (fun c ↦ c.hash == hash) ≤ 1
  simp only [beq_eq_decide, hcount]
  split <;> omega

end Dual

end LogIndex

/-! ### Reading a log -/

section ReadLine

variable {front line : List Char} {r : Reading} {c : Commit}

/-- A header begins a new commit. -/
theorem readLine_header (h : header? line = some c) :
    readLine front r line = { index := r.index.addCommit c, current := some c } := by
  have hne : line.isEmpty = false := by
    rcases line with - | ⟨a, line⟩
    · simp [header?, Text.split] at h
    · rfl
  rw [readLine, hne, h]
  rfl

/-- Before the first header a line says nothing. -/
theorem readLine_stray (h : header? line = none) (hcurrent : r.current = none) :
    readLine front r line = r := by
  rw [readLine, h, hcurrent]
  split <;> rfl

/-- A line that names no file below `front` says nothing. -/
theorem readLine_of_fileOf_eq_nil (h : header? line = none) (hfile : fileOf front line = []) :
    readLine front r line = r := by
  rcases hcurrent : r.current with - | c
  · exact readLine_stray h hcurrent
  · rw [readLine, h, hcurrent]
    split
    · rfl
    · simp only [hfile]

/-- The line of a file adds it to the commit of the last header. -/
theorem readLine_file {file : List Char} (h : header? line = none) (hcurrent : r.current = some c)
    (hfile : fileOf front line = file) (hne : file ≠ []) :
    readLine front r line = { r with index := r.index.addFile c (String.ofList file) } := by
  have hline : line.isEmpty = false := by
    rcases line with - | ⟨a, line⟩
    · refine absurd (hfile.symm.trans ?_) hne
      rcases front with - | ⟨f, front⟩ <;> rfl
    · rfl
  rw [readLine, hline, h, hcurrent]
  subst hfile
  simp only [Bool.false_eq_true, if_false]

end ReadLine

/-- The index is dual, and files are added to its last commit. -/
structure Reading.Sound (r : Reading) : Prop where
  dual : r.index.Dual
  current : ∀ c, r.current = some c → r.index.commits.getLast? = some c

namespace Reading.Sound

theorem empty : Reading.Sound {} where
  dual := LogIndex.dual_empty
  current c h := by simp at h

variable {r : Reading}

/-- Reading a line keeps both maps dual, whatever the line says. -/
theorem readLine (h : r.Sound) (front line : List Char) :
    (History.readLine front r line).Sound := by
  rcases hheader : header? line with - | c
  · rcases hcurrent : r.current with - | c
    · rw [readLine_stray hheader hcurrent]
      exact h
    · rcases hfile : fileOf front line with - | ⟨a, file⟩
      · rw [readLine_of_fileOf_eq_nil hheader hfile]
        exact h
      · rw [readLine_file hheader hcurrent hfile (List.cons_ne_nil a file)]
        refine ⟨h.dual.addFile (h.current c hcurrent) ?_, fun c' hc' ↦ ?_⟩
        · intro hempty
          simpa using congrArg String.toList hempty
        · rw [LogIndex.commits_addFile]
          exact h.current c' hc'
  · -- the commit of a header becomes the last one
    rw [readLine_header hheader]
    refine ⟨h.dual.addCommit c, fun c' hc' ↦ ?_⟩
    obtain rfl := Option.some.inj hc'
    simp [LogIndex.addCommit]

/-- So does reading any number of lines. -/
theorem foldl_readLine (h : r.Sound) (front : List Char) (lines : List (List Char)) :
    (lines.foldl (History.readLine front) r).Sound := by
  induction lines generalizing r with
  | nil => exact h
  | cons line lines ih => exact ih (h.readLine front line)

end Reading.Sound

theorem dual_parseLog (front log : String) : (parseLog front log).Dual :=
  (Reading.Sound.empty.foldl_readLine _ _).dual

/-- **Duality of the maps.** Whatever the text of a log, and whatever directory is asked for: the
index has files for exactly the hashes of its commits, no file twice under one hash and none without
a name; a file stands under a hash exactly if one and only one of its commits has that hash; and a
file has commits, in the order of the log, if it is mentioned at all. -/
theorem parseLog_files_iff_commits (front log : String) :
    let x := parseLog front log
    ((keys x.commitFiles).Nodup ∧ ∀ h, h ∈ keys x.commitFiles ↔ ∃ c ∈ x.commits, c.hash = h) ∧
    (∀ h files, (h, files) ∈ x.commitFiles → files.Nodup ∧ "" ∉ files) ∧
    (∀ p h, p ∈ x.filesOf h ↔ (x.commitsOf p).countP (fun c ↦ c.hash = h) = 1) ∧
    (keys x.fileCommits).Nodup ∧
    (∀ p cs, (p, cs) ∈ x.fileCommits → cs ≠ [] ∧ cs.Sublist x.commits) := by
  intro x
  have hx : x.Dual := dual_parseLog front log
  refine ⟨⟨hx.nodup_hashes, hx.mem_hashes⟩, fun h files hmem ↦ ?_, fun p h ↦ ?_, hx.nodup_files,
    fun p cs hmem ↦ ?_⟩
  · have hfiles : x.filesOf h = files := by
      rw [LogIndex.filesOf, (lookup_eq_some_iff_mem hx.nodup_hashes).2 hmem, Option.getD_some]
    exact hfiles ▸ ⟨hx.nodup_filesOf h, hx.ne_empty_of_mem h⟩
  · rw [hx.countP_commitsOf]
    split <;> simp_all
  · have hlookup : x.fileCommits.lookup p = some cs :=
      (lookup_eq_some_iff_mem hx.nodup_files).2 hmem
    have hcommits : x.commitsOf p = cs := by
      rw [LogIndex.commitsOf, hlookup, Option.getD_some]
    refine ⟨?_, hcommits ▸ hx.sublist_commits p⟩
    rintro rfl
    exact hx.commits_ne_nil p hlookup

end RepoSurvey.History
