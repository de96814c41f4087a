import RepoSurvey.Proofs.Extraction

/-!
# The order in which a tree is visited

A `Walk` keeps the nodes that wait to be visited on a stack. In a round it takes the last of them,
visits it, and puts its children in its place, the last child first. What a visit does is left open.

What is still to be visited are the nodes that wait and all that stands below them. A round leaves
one node less of them (`Walk.size_of_round`), and it does not change what the walk comes to, which
is that all trees that wait are traversed, the last one first (`Walk.outcome_of_round`). So a walk
ends after as many rounds as there are nodes to be visited (`Walk.rounds_sizes_waiting`), with what
the recursive traversal finds (`Walk.rounds_root`).

Nodes that look the same are told apart by their `Place`. The order of places (`Place.Before`) does
not depend on any walk, and the traversal has each place of a tree once and in this order
(`inDocumentOrder_visits`). The names of an extraction therefore stand in the order in which the
document first has them (`walk_visits_in_document_order`).
-/

namespace RepoSurvey.Code

open Node RepoSurvey.Assoc

variable {σ : Type}

/-! ### Traversals by recursion -/

namespace Node

theorem preorder_eq (n : Node) : n.preorder = n :: preorders n.children := by
  cases n
  rfl

/-- Trees are listed one after the other. -/
theorem preorders_append (xs ys : List Node) :
    preorders (xs ++ ys) = preorders xs ++ preorders ys := by
  induction xs with
  | nil => rfl
  | cons x xs ih => rw [List.cons_append, preorders, preorders, ih, List.append_assoc]

theorem preorders_singleton (n : Node) : preorders [n] = n.preorder := by
  rw [preorders, preorders, List.append_nil]

theorem sizes_singleton (n : Node) : sizes [n] = n.size := by
  rw [sizes, sizes, Nat.add_zero]

theorem sizes_reverse (ns : List Node) : sizes ns.reverse = sizes ns := by
  induction ns with
  | nil => rfl
  | cons n ns ih =>
    rw [List.reverse_cons, sizes_append, ih]
    simp only [sizes]
    omega

/-- The stack gives the nodes up in the order of the recursion. -/
theorem stackOrder_eq_preorders (stack : List Node) : stackOrder stack = preorders stack := by
  induction stack using stackOrder.induct with
  | case1 => rw [stackOrder, preorders]
  | case2 n stack ih =>
    rw [stackOrder, ih, preorders_append, preorders, preorder_eq, List.cons_append]

theorem stackOrder_singleton (n : Node) : stackOrder [n] = n.preorder := by
  rw [stackOrder_eq_preorders, preorders_singleton]

mutual

/-- Visits a node and then traverses its children from left to right. -/
def traverse (visit : σ → Node → σ) (s : σ) : Node → σ
  | .mk kind named start stop field children =>
    traverseAll visit (visit s (.mk kind named start stop field children)) children

/-- Traverses trees one after the other. -/
def traverseAll (visit : σ → Node → σ) (s : σ) : List Node → σ
  | [] => s
  | n :: ns => traverseAll visit (traverse visit s n) ns

end

mutual

/-- To traverse a tree is to visit its nodes in the order of the recursion. -/
theorem traverse_eq_foldl (visit : σ → Node → σ) (s : σ) :
    (n : Node) → traverse visit s n = n.preorder.foldl visit s
  | .mk .. => by rw [traverse, preorder, List.foldl_cons, traverseAll_eq_foldl]

/-- The same for several trees. -/
theorem traverseAll_eq_foldl (visit : σ → Node → σ) (s : σ) :
    (ns : List Node) → traverseAll visit s ns = (preorders ns).foldl visit s
  | [] => rfl
  | n :: ns => by
    rw [traverseAll, preorders, List.foldl_append, traverse_eq_foldl visit s n,
      traverseAll_eq_foldl _ _ ns]

end

end Node

/-! ### Walks with a stack -/

/-- A walk under way: the nodes that wait to be visited, of which the last is the next, and what the
visits so far have found. -/
structure Walk (σ : Type) where
  waiting : List Node
  found : σ

namespace Walk

variable {visit : σ → Node → σ} {w w' : Walk σ}

/-- A round: the last node that waits is visited, and its children wait in its place, the last child
first. -/
def round (visit : σ → Node → σ) (w : Walk σ) : Option (Walk σ) :=
  w.waiting.getLast?.map fun n ↦
    { waiting := w.waiting.dropLast ++ n.children.reverse, found := visit w.found n }

/-- The walk after a number of rounds, if it has so many. -/
def rounds (visit : σ → Node → σ) : (number : Nat) → Walk σ → Option (Walk σ)
  | 0, w => some w
  | number + 1, w => (w.round visit).bind (rounds visit number)

/-- What a walk comes to: the trees that wait are traversed, the last one first. -/
def outcome (visit : σ → Node → σ) (w : Walk σ) : σ :=
  (preorders w.waiting.reverse).foldl visit w.found

/-- A round of a walk of which the last node that waits is known. -/
theorem round_concat (stack : List Node) (n : Node) (s : σ) :
    round visit ⟨stack ++ [n], s⟩ = some ⟨stack ++ n.children.reverse, visit s n⟩ := by
  rw [round, List.getLast?_concat, List.dropLast_concat]
  rfl

/-- A walk has a round as long as nodes wait. -/
theorem exists_round (h : w.waiting ≠ []) : ∃ w', w.round visit = some w' := by
  obtain ⟨waiting, s⟩ := w
  obtain ⟨stack, n, rfl⟩ := (List.eq_nil_or_concat' waiting).resolve_left h
  exact ⟨_, round_concat stack n s⟩

/-- What a round takes off the stack and what it puts there. -/
theorem round_eq_some_iff : w.round visit = some w' ↔ ∃ stack n, w.waiting = stack ++ [n] ∧
    w' = ⟨stack ++ n.children.reverse, visit w.found n⟩ := by
  obtain ⟨waiting, s⟩ := w
  constructor
  · intro h
    rcases List.eq_nil_or_concat' waiting with rfl | ⟨stack, n, rfl⟩
    · cases h
    · rw [round_concat] at h
      exact ⟨stack, n, rfl, (Option.some.inj h).symm⟩
  · rintro ⟨stack, n, rfl, rfl⟩
    exact round_concat stack n s

/-- A round leaves one node less to be visited. -/
theorem size_of_round (h : w.round visit = some w') : sizes w.waiting = sizes w'.waiting + 1 := by
  obtain ⟨stack, n, hwaiting, rfl⟩ := round_eq_some_iff.1 h
  simp only [hwaiting, sizes_append, sizes_reverse, sizes, size_eq n]
  omega

/-- A round does not change what the walk comes to. -/
theorem outcome_of_round (h : w.round visit = some w') : w'.outcome visit = w.outcome visit := by
  obtain ⟨stack, n, hwaiting, rfl⟩ := round_eq_some_iff.1 h
  rw [outcome, outcome, hwaiting, List.reverse_append, List.reverse_append, List.reverse_reverse,
    List.reverse_singleton, List.singleton_append, preorders_append, preorders, preorder_eq,
    List.cons_append, List.foldl_cons]

/-- A walk ends after as many rounds as there are nodes to be visited. -/
theorem rounds_sizes_waiting (w : Walk σ) :
    w.rounds visit (sizes w.waiting) = some ⟨[], w.outcome visit⟩ := by
  -- the number of nodes to be visited counts down with the rounds
  induction hsize : sizes w.waiting generalizing w with
  | zero =>
    obtain ⟨waiting, s⟩ := w
    cases waiting with
    | nil => rfl
    | cons n ns =>
      rw [sizes, size_eq] at hsize
      omega
  | succ number ih =>
    have hwaiting : w.waiting ≠ [] := by
      intro h
      rw [h] at hsize
      cases hsize
    obtain ⟨w', hround⟩ : ∃ w', w.round visit = some w' := exists_round hwaiting
    rw [rounds, hround, Option.bind_some, ← outcome_of_round hround]
    refine ih w' ?_
    have := size_of_round hround
    omega

/-- A walk from the root ends with what the recursive traversal finds. -/
theorem rounds_root (visit : σ → Node → σ) (s : σ) (root : Node) :
    rounds visit root.size ⟨[root], s⟩ = some ⟨[], traverse visit s root⟩ := by
  rw [traverse_eq_foldl, ← sizes_singleton, ← preorders_singleton]
  exact rounds_sizes_waiting ⟨[root], s⟩

end Walk

/-! ### Places -/

/-- The way from the root of a tree to a node: the number of the child at each step. -/
abbrev Place := List Nat

/-- Document order: a node comes before all that stands below it, and what stands at or below a
child comes before what stands at or below a later one. -/
def Place.Before (p q : Place) : Prop := List.Lex (· < ·) p q

/-- No place comes before itself. -/
theorem Place.ne_of_before {p q : Place} (h : p.Before q) : p ≠ q := by
  induction h with
  | nil => exact (List.cons_ne_nil _ _).symm
  | rel h =>
    intro heq
    exact Nat.ne_of_lt h (List.cons.inj heq).1
  | cons _ ih =>
    intro heq
    exact ih (List.cons.inj heq).2

namespace Node

/-- The node at a place. -/
def at? : Node → Place → Option Node
  | n, [] => some n
  | n, i :: p => n.children[i]?.bind fun c ↦ c.at? p

end Node

/-- The nodes of a tree with their places, in document order. -/
structure InDocumentOrder (root : Node) (visits : List (Place × Node)) : Prop where
  ordered : visits.Pairwise fun v w ↦ v.1.Before w.1
  mem_iff : ∀ p n, (p, n) ∈ visits ↔ root.at? p = some n

/-- No place comes twice. -/
theorem InDocumentOrder.nodup_places {root : Node} {visits : List (Place × Node)}
    (h : InDocumentOrder root visits) : (visits.map Prod.fst).Nodup :=
  List.pairwise_map.2 (h.ordered.imp Place.ne_of_before)

namespace Node

mutual

/-- A node, then its descendants from left to right, each with its place. -/
def visits : Node → List (Place × Node)
  | .mk kind named start stop field children =>
    ([], .mk kind named start stop field children) :: visitsFrom 0 children

/-- The nodes of several trees with their places, if the trees are the children from some number
on. -/
def visitsFrom (first : Nat) : List Node → List (Place × Node)
  | [] => []
  | n :: ns => (visits n).map (Prod.map (first :: ·) id) ++ visitsFrom (first + 1) ns

end

mutual

/-- Without their places, the visits are the nodes in the order of the recursion. -/
theorem map_snd_visits : (n : Node) → n.visits.map Prod.snd = n.preorder
  | .mk .. => by rw [visits, preorder, List.map_cons, map_snd_visitsFrom]

/-- The same for several trees. -/
theorem map_snd_visitsFrom (first : Nat) :
    (ns : List Node) → (visitsFrom first ns).map Prod.snd = preorders ns
  | [] => rfl
  | n :: ns => by
    have hplaces : Prod.snd ∘ Prod.map (first :: ·) id = (Prod.snd : Place × Node → Node) := rfl
    rw [visitsFrom, preorders, List.map_append, List.map_map, hplaces, map_snd_visits n,
      map_snd_visitsFrom (first + 1) ns]

end

mutual

theorem length_preorder : (n : Node) → n.preorder.length = n.size
  | .mk .. => by rw [preorder, size, List.length_cons, length_preorders, Nat.add_comm]

theorem length_preorders : (ns : List Node) → (preorders ns).length = sizes ns
  | [] => rfl
  | n :: ns => by
    rw [preorders, sizes, List.length_append, length_preorder n, length_preorders ns]

end

theorem length_visits (n : Node) : n.visits.length = n.size := by
  rw [← length_preorder, ← map_snd_visits, List.length_map]

mutual

/-- The visits are those to the nodes at all places. -/
theorem mem_visits_iff : (n : Node) → {p : Place} → {m : Node} →
    ((p, m) ∈ n.visits ↔ n.at? p = some m)
  | .mk kind named start stop field children, p, m => by
    rw [visits, List.mem_cons, mem_visitsFrom_iff 0 children]
    cases p with
    | nil => simp [at?, eq_comm]
    | cons i p => simp [at?, Node.children]

/-- The visits to several trees are those to the nodes at all places below them. -/
theorem mem_visitsFrom_iff (first : Nat) : (ns : List Node) → {p : Place} → {m : Node} →
    ((p, m) ∈ visitsFrom first ns ↔
      ∃ i q, p = (first + i) :: q ∧ (ns[i]?.bind fun c ↦ c.at? q) = some m)
  | [], p, m => by simp [visitsFrom]
  | n :: ns, p, m => by
    have hfirst : (p, m) ∈ n.visits.map (Prod.map (first :: ·) id) ↔
        ∃ q, p = first :: q ∧ n.at? q = some m := by
      simp [← mem_visits_iff n, and_comm, eq_comm]
    rw [visitsFrom, List.mem_append, hfirst, mem_visitsFrom_iff (first + 1) ns]
    -- the first tree has the number `first`, and the others are counted from the next one on
    refine Iff.trans ?_ Nat.or_exists_add_one
    refine or_congr Iff.rfl (exists_congr fun i ↦ exists_congr fun q ↦ ?_)
    rw [Nat.add_assoc, Nat.add_comm 1 i]
    rfl

end

mutual

/-- The visits are in document order. -/
theorem pairwise_visits : (n : Node) → n.visits.Pairwise fun v w ↦ v.1.Before w.1
  | .mk kind named start stop field children => by
    rw [visits, List.pairwise_cons]
    refine ⟨?_, pairwise_visitsFrom 0 children⟩
    rintro ⟨p, m⟩ hv
    obtain ⟨i, q, rfl, -⟩ := (mem_visitsFrom_iff 0 children).1 hv
    exact .nil

/-- Several trees are visited in document order, each below its own number. -/
theorem pairwise_visitsFrom (first : Nat) :
    (ns : List Node) → (visitsFrom first ns).Pairwise fun v w ↦ v.1.Before w.1
  | [] => .nil
  | n :: ns => by
    rw [visitsFrom, List.pairwise_append, List.pairwise_map]
    refine ⟨(pairwise_visits n).imp .cons, pairwise_visitsFrom (first + 1) ns, ?_⟩
    rintro v hv ⟨p, m⟩ hw
    obtain ⟨⟨q, c⟩, -, rfl⟩ := List.mem_map.1 hv
    obtain ⟨i, r, rfl, -⟩ := (mem_visitsFrom_iff (first + 1) ns).1 hw
    exact .rel (by omega)

end

theorem inDocumentOrder_visits (root : Node) : InDocumentOrder root root.visits :=
  ⟨pairwise_visits root, fun _ _ ↦ mem_visits_iff root⟩

example :
    (Node.mk "a" true 0 3 none
      [.mk "b" true 0 2 none [.mk "c" true 0 1 none []], .mk "d" true 2 3 none []]).visits.map
        (fun v ↦ (v.1, v.2.kind)) =
      [([], "a"), ([0], "b"), ([0, 0], "c"), ([1], "d")] :=
  rfl

end Node

/-! ### What is found first -/

variable {source : List UInt8} {root : Node} {b : Bucket} {name : String} {p q : Place}
  {vs : List (Place × Node)}

/-- A visit adds what the node contributes by itself. -/
def collect (source : List UInt8) (c : Collector) (n : Node) : Collector :=
  c.addAll (n.findings source)

/-- To collect at each visit is to add up what all nodes contribute. -/
theorem foldl_collect (source : List UInt8) (ns : List Node) (c : Collector) :
    ns.foldl (collect source) c = c.addAll (ns.flatMap (findings source)) :=
  List.foldl_flatMap.symm

/-- What is extracted is made of the contributions of all nodes, in the order of the recursion. -/
theorem extract_eq_ofFindings (source : List UInt8) (root : Node) :
    extract source root = Extraction.ofFindings (root.preorder.flatMap (findings source)) := by
  rw [extract, stackOrder_singleton]

/-- What is extracted is what the traversal finds. -/
theorem extract_eq_traverse (source : List UInt8) (root : Node) :
    extract source root = (traverse (collect source) ⟨{}, []⟩ root).names := by
  rw [traverse_eq_foldl, foldl_collect, extract_eq_ofFindings]
  rfl

/-- A bucket holds the names that the nodes have for it, each where it first occurs. -/
theorem isFirstOccurrences_get_extract (source : List UInt8) (root : Node) (b : Bucket) :
    IsFirstOccurrences
      ((Extraction.namesFor b (root.preorder.flatMap (findings source))).filter (· ≠ ""))
      ((extract source root).get b) := by
  rw [extract_eq_ofFindings, Extraction.get_ofFindings]
  exact isFirstOccurrences_distinct _

/-- The node at a place has a name for a bucket. -/
def FoundAt (source : List UInt8) (root : Node) (b : Bucket) (name : String) (p : Place) : Prop :=
  ∃ n, root.at? p = some n ∧ (b, some name) ∈ n.findings source

/-- No node at an earlier place has the name for the bucket. -/
structure FirstFoundAt (source : List UInt8) (root : Node) (b : Bucket) (name : String)
    (p : Place) : Prop where
  found : FoundAt source root b name p
  first : ∀ q, FoundAt source root b name q → p = q ∨ p.Before q

/-- The names stand in the order of the places where they are first found. -/
def InOrderOfFirstPlaces (source : List UInt8) (root : Node) (b : Bucket)
    (names : List String) : Prop :=
  names.Pairwise fun x y ↦ ∃ p q, FirstFoundAt source root b x p ∧
    FirstFoundAt source root b y q ∧ (p = q ∨ p.Before q)

/-- The names that visits find for a bucket, each with the place where it is found. -/
def foundBy (source : List UInt8) (b : Bucket) (vs : List (Place × Node)) :
    List (Place × String) :=
  vs.flatMap fun v ↦
    ((Extraction.namesFor b (v.2.findings source)).filter (· ≠ "")).map fun name ↦ (v.1, name)

/-- The names that visits find are those that the nodes have for the bucket, apart from empty ones.
-/
theorem map_snd_foundBy (source : List UInt8) (b : Bucket) (vs : List (Place × Node)) :
    (foundBy source b vs).map Prod.snd =
      (Extraction.namesFor b ((vs.map Prod.snd).flatMap (findings source))).filter (· ≠ "") := by
  simp only [foundBy, Extraction.namesFor, List.map_flatMap, List.map_map, List.flatMap_map,
    List.filterMap_flatMap, List.filter_flatMap, Function.comp_def, List.map_id']

/-- In an ordered list, what stands at an earlier index comes first in the order. -/
theorem pairwise_getElem? {α : Type} {r : α → α → Prop} {l : List α} (hl : l.Pairwise r)
    {i j : Nat} (hij : i < j) {x y : α} (hx : l[i]? = some x) (hy : l[j]? = some y) : r x y := by
  obtain ⟨hi, rfl⟩ := List.getElem?_eq_some_iff.1 hx
  obtain ⟨hj, rfl⟩ := List.getElem?_eq_some_iff.1 hy
  exact List.pairwise_iff_getElem.1 hl i j hi hj hij

/-- In a list that is ordered by place, a name has its first place where it first occurs. -/
theorem exists_first_pair {l : List (Place × String)}
    (hl : l.Pairwise fun v w ↦ v.1 = w.1 ∨ v.1.Before w.1) (hname : name ∈ l.map Prod.snd) :
    ∃ p, l[(l.map Prod.snd).idxOf name]? = some (p, name) ∧
      ∀ q, (q, name) ∈ l → p = q ∨ p.Before q := by
  have hat := List.getElem?_idxOf hname
  rw [List.getElem?_map, Option.map_eq_some_iff] at hat
  obtain ⟨⟨p, name'⟩, hp, hname'⟩ := hat
  obtain rfl : name' = name := hname'
  refine ⟨p, hp, fun q hq ↦ ?_⟩
  obtain ⟨j, hj⟩ := List.mem_iff_getElem?.1 hq
  rcases Nat.lt_trichotomy ((l.map Prod.snd).idxOf name') j with hlt | rfl | hgt
  · exact pairwise_getElem? hl hlt hp hj
  · rw [hp] at hj
    cases hj
    exact Or.inl rfl
  · -- no name in front of its first occurrence is the same
    have hother := List.not_of_lt_findIdx hgt
    obtain ⟨hlt, hj⟩ := List.getElem?_eq_some_iff.1 hj
    simp [hj] at hother

namespace InDocumentOrder

variable (h : InDocumentOrder root vs)
include h

/-- A name is found by a visit to a node that has it. -/
theorem mem_foundBy_iff :
    (p, name) ∈ foundBy source b vs ↔ name ≠ "" ∧ FoundAt source root b name p := by
  rw [foundBy, List.mem_flatMap]
  constructor
  · rintro ⟨⟨p', n⟩, hv, hname⟩
    obtain ⟨name', hname, heq⟩ := List.mem_map.1 hname
    cases heq
    obtain ⟨hfound, hne⟩ := List.mem_filter.1 hname
    exact ⟨of_decide_eq_true hne, n, (h.mem_iff _ n).1 hv, Extraction.mem_namesFor.1 hfound⟩
  · rintro ⟨hne, n, hat, hfound⟩
    refine ⟨(p, n), (h.mem_iff p n).2 hat, List.mem_map_of_mem ?_⟩
    exact List.mem_filter.2 ⟨Extraction.mem_namesFor.2 hfound, decide_eq_true hne⟩

/-- Names are found in the order of their places, several perhaps at one place. -/
theorem pairwise_foundBy :
    (foundBy source b vs).Pairwise fun v w ↦ v.1 = w.1 ∨ v.1.Before w.1 := by
  rw [foundBy, List.pairwise_flatMap]
  refine ⟨fun v _ ↦ ?_, h.ordered.imp fun hvw x hx y hy ↦ ?_⟩
  · rw [List.pairwise_map]
    exact List.pairwise_of_forall fun _ _ ↦ Or.inl rfl
  · obtain ⟨_, -, rfl⟩ := List.mem_map.1 hx
    obtain ⟨_, -, rfl⟩ := List.mem_map.1 hy
    exact Or.inr hvw

/-- A name that is found has a first place, and it stands there where it first occurs. -/
theorem exists_firstFoundAt (hname : name ∈ (foundBy source b vs).map Prod.snd) :
    ∃ p, (foundBy source b vs)[((foundBy source b vs).map Prod.snd).idxOf name]? = some (p, name) ∧
      FirstFoundAt source root b name p := by
  obtain ⟨p, hp, hfirst⟩ := exists_first_pair h.pairwise_foundBy hname
  obtain ⟨hne, hfound⟩ := h.mem_foundBy_iff.1 (List.mem_of_getElem? hp)
  exact ⟨p, hp, hfound, fun q hq ↦ hfirst q (h.mem_foundBy_iff.2 ⟨hne, hq⟩)⟩

/-- Where visits go in document order, names in the order in which they first occur are in the
order of their first places. -/
theorem inOrderOfFirstPlaces {names : List String}
    (hnames : IsFirstOccurrences ((foundBy source b vs).map Prod.snd) names) :
    InOrderOfFirstPlaces source root b names := by
  refine hnames.2.imp_of_mem fun {x y} hx hy hlt ↦ ?_
  obtain ⟨p, hp, hx⟩ := h.exists_firstFoundAt ((hnames.1 x).1 hx)
  obtain ⟨q, hq, hy⟩ := h.exists_firstFoundAt ((hnames.1 y).1 hy)
  exact ⟨p, q, hx, hy, pairwise_getElem? h.pairwise_foundBy hlt hp hq⟩

end InDocumentOrder

/-- **A walk visits a tree in document order.** Whatever a visit does, a walk from the root has one
round for each node and then ends: it has visited the nodes in document order, each of them once,
and found what the recursive traversal finds. So both find what is extracted, and the names in a
bucket stand in the order in which the document first has them. -/
theorem walk_visits_in_document_order (source : List UInt8) (root : Node) :
    ∃ vs, InDocumentOrder root vs ∧ (vs.map Prod.fst).Nodup ∧ vs.length = root.size ∧
      stackOrder [root] = vs.map Prod.snd ∧
      (∀ (σ : Type) (visit : σ → Node → σ) (s : σ),
        Walk.rounds visit root.size ⟨[root], s⟩ = some ⟨[], traverse visit s root⟩ ∧
        traverse visit s root = (vs.map Prod.snd).foldl visit s) ∧
      (Walk.rounds (collect source) root.size ⟨[root], ⟨{}, []⟩⟩).map (·.found.names) =
        some (extract source root) ∧
      extract source root = (traverse (collect source) ⟨{}, []⟩ root).names ∧
      ∀ b,
        IsFirstOccurrences
          ((Extraction.namesFor b ((vs.map Prod.snd).flatMap (findings source))).filter (· ≠ ""))
          ((extract source root).get b) ∧
        InOrderOfFirstPlaces source root b ((extract source root).get b) := by
  have hvisits := inDocumentOrder_visits root
  refine ⟨root.visits, hvisits, hvisits.nodup_places, length_visits root, ?_,
    fun σ visit s ↦ ⟨Walk.rounds_root visit s root, ?_⟩, ?_, extract_eq_traverse source root,
    fun b ↦ ?_⟩
  · rw [stackOrder_singleton, map_snd_visits]
  · rw [traverse_eq_foldl, map_snd_visits]
  · rw [Walk.rounds_root, extract_eq_traverse]
    rfl
  · have hfirst := isFirstOccurrences_get_extract source root b
    rw [← map_snd_visits, ← map_snd_foundBy] at hfirst
    exact ⟨map_snd_foundBy source b root.visits ▸ hfirst, hvisits.inOrderOfFirstPlaces hfirst⟩

end RepoSurvey.Code
