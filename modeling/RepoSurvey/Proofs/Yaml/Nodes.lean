import RepoSurvey.Proofs.Yaml.Outcome
import RepoSurvey.Proofs.Yaml.Resolved
import RepoSurvey.Yaml.Document

/-!
# Scalars without a value

A tour through a document only comes to nodes that stand in it (`Document.Within`): the items of
lists, the keys and values of mappings, and with merge keys the pairs of other mappings. So where
the tour ends with a scalar fault, a node of the document has a text of which its tag makes no value
(`Document.yields_check`).
-/

namespace RepoSurvey.Yaml.Document

/-- A node stands somewhere in a document. -/
inductive Within (d : Document) : Node → Prop
  | root : Within d d.root
  /-- What an anchor names. -/
  | node {n : Node} : Within d n → Within d (d.node n)
  | item {tag : Tag} {items : List Node} {n : Node} :
      Within d (.list tag items) → n ∈ items → Within d n
  | key {tag : Tag} {pairs : List (Node × Node)} {p : Node × Node} :
      Within d (.map tag pairs) → p ∈ pairs → Within d p.1
  | value {tag : Tag} {pairs : List (Node × Node)} {p : Node × Node} :
      Within d (.map tag pairs) → p ∈ pairs → Within d p.2

/-- A node stands for a text: a scalar for its own, a mapping for that of its key `=`. -/
inductive Means (d : Document) : Node → String → Prop
  | scalar {n : Node} {tag : Tag} {text : String} : d.node n = .scalar tag text → Means d n text
  | value {n : Node} {tag : Tag} {pairs : List (Node × Node)} {p : Node × Node}
      {text : String} :
      d.node n = .map tag pairs → (pairs.find? fun p ↦ d.tagOf p.1 == .value) = some p →
      Means d p.2 text → Means d n text

/-- A node has no value. -/
inductive Valueless (d : Document) (n : Node) : ScalarFault → Prop
  /-- It has another tag than its text looks like, and the text is no value of that type. -/
  | tagged {text : String} {fault : ScalarFault} :
      Means d n text → d.tagOf n ≠ Tag.ofText text →
      scalarOf (d.tagOf n) text = .error (.scalar fault) → Valueless d n fault
  /-- It is what its text looks like, and the text is one of the exceptions. -/
  | untagged {text : String} {fault : ScalarFault} :
      Means d n text → d.tagOf n = Tag.ofText text → Unresolved text fault → Valueless d n fault
  /-- A mapping stands for a date. -/
  | mapping : d.tagOf n = .moment → d.isMapping n → Valueless d n (.moment .mapping)

variable {d : Document}

/-- A text that is found for a node is one that it stands for. -/
theorem means_of_text? {fuel : Nat} {n : Node} {text : String} (h : d.text? fuel n = some text) :
    Means d n text := by
  induction fuel generalizing n with
  | zero => cases h
  | succ fuel ih =>
    unfold text? at h
    split at h
    · obtain rfl := Option.some.inj h
      exact .scalar ‹_›
    · split at h
      · exact .value ‹_› ‹_› (ih h)
      · cases h
    · cases h

/-! ### Pairs -/

theorem within_list {n : Node} {tag : Tag} {items : List Node} (h : d.Within n)
    (hn : d.node n = .list tag items) : ∀ m ∈ items, d.Within m :=
  fun _ hm ↦ .item (hn ▸ h.node) hm

theorem within_map {n : Node} {tag : Tag} {own : List (Node × Node)} (h : d.Within n)
    (hn : d.node n = .map tag own) : ∀ p ∈ own, d.Within p.1 ∧ d.Within p.2 :=
  fun _ hp ↦ ⟨.key (hn ▸ h.node) hp, .value (hn ▸ h.node) hp⟩

/-- What is merged into a mapping stands in the document. -/
theorem within_merged {value : Node} {sources : List Node} (h : d.Within value)
    (hmerged : d.merged value = .ok sources) : ∀ n ∈ sources, d.Within n := by
  unfold merged at hmerged
  split at hmerged
  · cases hmerged
    simpa using h
  · split at hmerged
    · cases hmerged
      exact fun n hn ↦ within_list h ‹_› n (List.mem_reverse.1 hn)
    · cases hmerged
  · cases hmerged
  · cases hmerged

/-- Merging only brings pairs together that stand in the document. -/
theorem within_pairsWithin {fuel : Nat} {around : List String} {n : Node}
    {pairs : List (Node × Node)} (h : d.Within n)
    (hpairs : d.pairsWithin fuel around n = .ok pairs) :
    ∀ p ∈ pairs, d.Within p.1 ∧ d.Within p.2 := by
  induction fuel generalizing around n pairs with
  | zero =>
    cases hpairs
    exact fun p hp ↦ absurd hp List.not_mem_nil
  | succ fuel ih =>
    unfold pairsWithin at hpairs
    split at hpairs
    · rename_i tag own hown
      have hown := within_map h hown
      split at hpairs
      rename_i merges rest hsplit
      rw [List.partition_eq_filter_filter] at hsplit
      obtain ⟨rfl, rfl⟩ := Prod.mk.inj hsplit
      split at hpairs
      split at hpairs
      · cases hpairs
        exact fun p hp ↦ hown p (List.mem_filter.1 hp).1
      -- a merged pair stands in a mapping that is the value of a pair, one step of fuel below
      · obtain ⟨sources, hsources, hpairs⟩ := exists_of_bind_eq_ok hpairs
        obtain ⟨front, hfront, hpairs⟩ := exists_of_bind_eq_ok hpairs
        cases hpairs
        refine List.forall_mem_append.2
          ⟨fun p hp ↦ ?_, fun p hp ↦ hown p (List.mem_filter.1 hp).1⟩
        obtain ⟨some, hsome, hp⟩ := List.mem_flatten.1 hp
        obtain ⟨source, hsource, hsome'⟩ := exists_of_mem_mapM hfront some hsome
        obtain ⟨merges, hmerges, hsource⟩ := List.mem_flatten.1 hsource
        obtain ⟨q, hq, hmerged⟩ := exists_of_mem_mapM hsources merges hmerges
        have hvalue : d.Within q.2 := (hown q (List.mem_filter.1 hq).1).2
        exact ih (within_merged hvalue hmerged source hsource) hsome' p hp
    · cases hpairs

/-- All pairs of a mapping, merged ones too, stand in the document. -/
theorem within_pairs {n : Node} {pairs : List (Node × Node)} (h : d.Within n)
    (hpairs : d.pairs n = .ok pairs) : ∀ p ∈ pairs, d.Within p.1 ∧ d.Within p.2 :=
  within_pairsWithin h hpairs

/-! ### The tour -/

/-- Some node of the document has no value. -/
def Faulty (d : Document) (fault : ScalarFault) : Prop := ∃ n, d.Within n ∧ d.Valueless n fault

/-- A tour still has nodes of the document to open. -/
def Stays (d : Document) (t : Tour) : Prop := ∀ n ∈ t.next, d.Within n

/-- Looking at a node finds a fault of this node at most. A collection is opened later. -/
theorem yields_visitOwn {t : Tour} {n : Node} (ht : d.Stays t) (hn : d.Within n) :
    Yields d.Faulty d.Stays (d.visitOwn t n) := by
  unfold visitOwn
  dsimp only
  split
  · exact List.forall_mem_cons.2 ⟨hn, ht⟩
  split
  · exact yields_malformed _
  · exact yields_malformed _
  · exact yields_malformed _
  -- any other tag stands for a scalar
  split
  · exact yields_malformed _
  rename_i text htext
  refine .ite (fun hmapping ↦ ⟨n, hn, .mapping hmapping.1 hmapping.2⟩) fun _ ↦ ?_
  rcases hvalue : scalarOf (d.tagOf n) text with (problem | fault) | value
  · exact yields_malformed _
  · have hmeans := means_of_text? htext
    by_cases htag : d.tagOf n = Tag.ofText text
    · exact ⟨n, hn, .untagged hmeans htag (.of_scalarOf (htag ▸ hvalue))⟩
    · exact ⟨n, hn, .tagged hmeans htag hvalue⟩
  · exact ht

/-- So does looking at a node that may have an anchor, which is looked at once. -/
theorem yields_visit {t : Tour} {n : Node} (ht : d.Stays t) (hn : d.Within n) :
    Yields d.Faulty d.Stays (d.visit t n) := by
  unfold visit
  split
  · split
    · exact ht
    · exact yields_visitOwn ht hn.node
  · exact yields_visitOwn ht hn

/-- Of a pair the key and the value are looked at. -/
theorem yields_visitPair {t : Tour} {p : Node × Node} (ht : d.Stays t)
    (hp : d.Within p.1 ∧ d.Within p.2) : Yields d.Faulty d.Stays (d.visitPair t p) := by
  unfold visitPair
  extract_lets key finish
  have hfinish (t : Tour) (ht : d.Stays t) : Yields d.Faulty d.Stays (finish t) :=
    Yields.guard fun _ ↦ yields_visit ht hp.2
  split
  · exact hfinish t ht
  · exact Yields.bind (yields_visit ht hp.1) hfinish

/-- Of the only pair of an item the key and the value are looked at. -/
theorem yields_visitSingle {t : Tour} {n : Node} (ht : d.Stays t) (hn : d.Within n) :
    Yields d.Faulty d.Stays (d.visitSingle t n) := by
  unfold visitSingle
  split
  · rename_i hpair
    obtain ⟨hkey, hvalue⟩ := within_map hn hpair _ List.mem_cons_self
    exact Yields.bind (yields_visit ht hkey) fun t ht ↦ yields_visit ht hvalue
  · exact yields_malformed _

/-- A mapping is opened by looking at its pairs. -/
theorem yields_openPairs {t : Tour} {n : Node} (ht : d.Stays t) (hn : d.Within n) :
    Yields d.Faulty d.Stays (match d.pairs n with
      | .ok pairs => pairs.foldlM d.visitPair t
      | .error problem => .error (.malformed problem)) := by
  split
  · exact Yields.foldlM ht fun t ht p hp ↦ yields_visitPair ht (within_pairs hn ‹_› p hp)
  · exact yields_malformed _

/-- A collection is opened by looking at what it holds, which stands in the document. -/
theorem yields_openNode {t : Tour} {n : Node} (ht : d.Stays t) (hn : d.Within n) :
    Yields d.Faulty d.Stays (d.openNode t n) := by
  unfold openNode
  split
  · rename_i hitems
    exact Yields.foldlM ht fun t ht m hm ↦ yields_visit ht (within_list hn hitems m hm)
  · exact yields_malformed _
  · exact yields_openPairs ht hn.node
  · exact yields_openPairs ht hn.node
  · exact Yields.foldlM ht fun t ht m hm ↦
      yields_visitSingle ht (within_list hn ‹d.node n = .list _ _› m hm)
  · exact yields_malformed _

/-- Level by level, a tour comes to nodes of the document only. -/
theorem yields_tour {fuel : Nat} {seen : List String} {level : List Node}
    (hlevel : ∀ n ∈ level, d.Within n) :
    Yields d.Faulty (fun _ ↦ True) (d.tour fuel seen level) := by
  induction fuel generalizing seen level with
  | zero => trivial
  | succ fuel ih =>
    unfold tour
    split
    · trivial
    · have hempty : d.Stays { seen } := fun n hn ↦ absurd hn List.not_mem_nil
      refine Yields.bind (Yields.foldlM hempty fun t ht n hn ↦ yields_openNode ht (hlevel n hn))
        fun t ht ↦ ih fun n hn ↦ ?_
      exact ht n (List.mem_reverse.1 hn)

/-- **A scalar fault of a document is that of one of its nodes.** -/
theorem yields_check (d : Document) : Yields d.Faulty (fun _ ↦ True) d.check := by
  have hempty : d.Stays {} := fun n hn ↦ absurd hn List.not_mem_nil
  exact Yields.bind (yields_visit hempty .root) fun t ht ↦
    yields_tour fun n hn ↦ ht n (List.mem_reverse.1 hn)

end RepoSurvey.Yaml.Document
