import Mathlib.Data.List.Forall2
import Mathlib.Data.Option.Defs
import RepoSurvey.Code.Findings

/-!
# Comments in a syntax tree

A comment is a named leaf without a field that may stand anywhere among the children of a node.
`Weaves ns ns'` says that the trees `ns'` are the trees `ns` with comments put in, at any depth.

Children that are found by their field, by their kind or as a token are found again when comments
are put in (`Weaves.filter`). A child that is found by its place is found again unless a comment
stands there (`Weaves.head?`). The extraction finds four children by their place (`readByPlace`);
where none of them is a comment, comments add nothing and take nothing away (`extract_weaves`).
-/

namespace RepoSurvey.Code

open Node

/-- A comment over some bytes of the source. -/
def comment (start stop : Nat) : Node := .mk "comment" true start stop none []

/-- Trees, and the same trees with comments put in at any places. -/
inductive Weaves : List Node → List Node → Prop
  | nil : Weaves [] []
  | comment {ns ns' : List Node} (start stop : Nat) : Weaves ns ns' →
      Weaves ns (comment start stop :: ns')
  | node {kind : String} {named : Bool} {start stop : Nat} {field : Option String}
      {cs cs' ns ns' : List Node} : Weaves cs cs' → Weaves ns ns' →
      Weaves (.mk kind named start stop field cs :: ns) (.mk kind named start stop field cs' :: ns')

/-- A tree, and the same tree with comments put in below its root. -/
inductive Woven : Node → Node → Prop
  | mk {kind : String} {named : Bool} {start stop : Nat} {field : Option String}
      {cs cs' : List Node} : Weaves cs cs' →
      Woven (.mk kind named start stop field cs) (.mk kind named start stop field cs')

variable {source : List UInt8} {n n' : Node} {ns ns' ms ms' : List Node}

/-! ### Weaving -/

/-- Comments put into two lists of trees are comments put into the list of all of them. -/
theorem Weaves.append (h : Weaves ns ns') (h' : Weaves ms ms') :
    Weaves (ns ++ ms) (ns' ++ ms') := by
  induction h with
  | nil => exact h'
  | comment start stop _ ih => exact .comment start stop ih
  | node hcs _ _ ih => exact .node hcs ih

/-- Comments can be put in from behind as well: the stack of a walk holds children in reverse. -/
theorem Weaves.reverse (h : Weaves ns ns') : Weaves ns.reverse ns'.reverse := by
  induction h with
  | nil => exact .nil
  | comment start stop _ ih =>
    rw [List.reverse_cons, ← List.append_nil (List.reverse _)]
    exact ih.append (.comment start stop .nil)
  | node hcs _ _ ih =>
    rw [List.reverse_cons, List.reverse_cons]
    exact ih.append (.node hcs .nil)

namespace Woven

theorem kind_eq (h : Woven n n') : n'.kind = n.kind := by cases h; rfl

theorem named_eq (h : Woven n n') : n'.named = n.named := by cases h; rfl

theorem field_eq (h : Woven n n') : n'.field = n.field := by cases h; rfl

theorem text_eq (h : Woven n n') : n'.text source = n.text source := by cases h; rfl

theorem children (h : Woven n n') : Weaves n.children n'.children := by
  obtain ⟨h⟩ := h
  exact h

end Woven

/-! ### Children found by what they are -/

section Optional

variable {α : Type} {o o' : Option Node}

theorem isSome_eq_of_rel (h : Option.Rel Woven o o') : o'.isSome = o.isSome := by
  rcases h with - | - <;> rfl

/-- What is read of a child that is found again is the same, if comments below it do not matter. -/
theorem bind_eq_of_rel (h : Option.Rel Woven o o') {f : Node → Option α}
    (hf : ∀ {n n'}, Woven n n' → f n' = f n) : o'.bind f = o.bind f := by
  rcases h with h | -
  · exact hf h
  · rfl

theorem map_eq_of_rel (h : Option.Rel Woven o o') {f : Node → α}
    (hf : ∀ {n n'}, Woven n n' → f n' = f n) : o'.map f = o.map f := by
  rcases h with h | -
  · exact congrArg some (hf h)
  · rfl

/-- The first of two children that is there is found again, if both are. -/
theorem or_rel {m m' : Option Node} (h : Option.Rel Woven o o') (h' : Option.Rel Woven m m') :
    Option.Rel Woven (o.or m) (o'.or m') := by
  rcases h with h | -
  · exact .some h
  · exact h'

theorem map_eq_of_forall₂ (h : List.Forall₂ Woven ns ns') {f : Node → α}
    (hf : ∀ {n n'}, Woven n n' → f n' = f n) : ns'.map f = ns.map f := by
  induction h with
  | nil => rfl
  | cons h _ ih => rw [List.map_cons, List.map_cons, hf h, ih]

end Optional

/-- What does not hold of comments picks the same children. -/
theorem Weaves.filter (h : Weaves ns ns') {p : Node → Bool}
    (hp : ∀ {n n'}, Woven n n' → p n' = p n) (hcomment : ∀ a b, p (Code.comment a b) = false) :
    List.Forall₂ Woven (ns.filter p) (ns'.filter p) := by
  induction h with
  | nil => exact .nil
  | comment start stop _ ih => rwa [List.filter_cons_of_neg (by simp [hcomment])]
  | @node kind named start stop field cs cs' ns ns' hcs _ _ ih =>
    have hwoven :
        Woven (.mk kind named start stop field cs) (.mk kind named start stop field cs') :=
      .mk hcs
    rw [List.filter_cons, List.filter_cons, hp hwoven]
    split
    · exact .cons hwoven ih
    · exact ih

/-- The first of some children is found again, if all of them are. -/
theorem forall₂_head? (h : List.Forall₂ Woven ns ns') : Option.Rel Woven ns.head? ns'.head? := by
  cases h with
  | nil => exact .none
  | cons h _ => exact .some h

/-- What is nothing for comments collects the same of the children. -/
theorem Weaves.filterMap (h : Weaves ns ns') {α : Type} {f : Node → Option α}
    (hf : ∀ {n n'}, Woven n n' → f n' = f n) (hcomment : ∀ a b, f (Code.comment a b) = none) :
    ns'.filterMap f = ns.filterMap f := by
  induction h with
  | nil => rfl
  | comment start stop _ ih => rwa [List.filterMap_cons_none (hcomment start stop)]
  | @node kind named start stop field cs cs' ns ns' hcs _ _ ih =>
    have hwoven :
        Woven (.mk kind named start stop field cs) (.mk kind named start stop field cs') :=
      .mk hcs
    rw [List.filterMap_cons, List.filterMap_cons, hf hwoven, ih]

/-- A child that is searched by what does not hold of comments is found again. So a search by field,
by kind or by token is safe; only a search by place is not. -/
theorem Weaves.find? (h : Weaves ns ns') {p : Node → Bool}
    (hp : ∀ {n n'}, Woven n n' → p n' = p n) (hcomment : ∀ a b, p (Code.comment a b) = false) :
    Option.Rel Woven (ns.find? p) (ns'.find? p) := by
  rw [← List.head?_filter, ← List.head?_filter]
  exact forall₂_head? (h.filter hp hcomment)

namespace Woven

/-- A comment has no field, so a child in a field is found again. -/
theorem child? (h : Woven n n') (name : String) :
    Option.Rel Woven (n.child? name) (n'.child? name) :=
  h.children.find? (fun h ↦ by rw [h.field_eq]) fun _ _ ↦ rfl

/-- The named children of a kind other than comments are found again, in the same order. -/
theorem namedOfKind (h : Woven n n') (kind : String) (hkind : kind ≠ "comment") :
    List.Forall₂ Woven (n.namedChildren.filter (·.kind == kind))
      (n'.namedChildren.filter (·.kind == kind)) := by
  rw [namedChildren, namedChildren, List.filter_filter, List.filter_filter]
  refine h.children.filter (fun h ↦ by rw [h.kind_eq, h.named_eq]) fun _ _ ↦ ?_
  simp [Code.comment, Node.kind, hkind.symm]

/-- Tokens are unnamed, and a comment is named. -/
theorem hasToken_eq (h : Woven n n') (token : String) : n'.hasToken token = n.hasToken token := by
  have hfind := h.children.find? (p := fun c ↦ !c.named && c.kind == token)
    (fun h ↦ by rw [h.kind_eq, h.named_eq]) fun _ _ ↦ rfl
  rw [hasToken, hasToken, ← List.isSome_find?, ← List.isSome_find?, isSome_eq_of_rel hfind]

end Woven

/-! ### Names -/

namespace Woven

variable (h : Woven n n')

include h

theorem stringValue?_eq : n'.stringValue? source = n.stringValue? source := by
  rw [stringValue?, stringValue?, h.kind_eq, h.text_eq]

theorem nameText?_eq : n'.nameText? source = n.nameText? source := by
  rw [nameText?, nameText?, h.kind_eq, h.text_eq, h.stringValue?_eq]

theorem declaredName?_eq : n'.declaredName? source = n.declaredName? source :=
  map_eq_of_rel (h.child? "name") fun h ↦ h.text_eq

/-- The source of an import or an export stands in a field. -/
theorem sourceFinding_eq : n'.sourceFinding source = n.sourceFinding source := by
  rw [sourceFinding, sourceFinding,
    bind_eq_of_rel (h.child? "source") fun h ↦ h.stringValue?_eq]

theorem literalKey?_eq : n'.literalKey? source = n.literalKey? source := by
  rw [literalKey?, literalKey?, h.kind_eq, h.text_eq, h.stringValue?_eq]

/-- A variable that a function is assigned to has its name and the function in fields. -/
theorem functionVariable?_eq : n'.functionVariable? source = n.functionVariable? source := by
  let found (name value : Node) : Option String :=
    if name.kind == "identifier" && value.kind ∈ functionValues then some (name.text source)
    else none
  calc n'.functionVariable? source
    _ = (n'.child? "name").bind fun name ↦ (n'.child? "value").bind (found name) := rfl
    _ = (n'.child? "name").bind fun name ↦ (n.child? "value").bind (found name) := by
      refine congrArg _ (funext fun name ↦ bind_eq_of_rel (h.child? "value") fun hvalue ↦ ?_)
      simp only [found, hvalue.kind_eq]
    _ = (n.child? "name").bind fun name ↦ (n.child? "value").bind (found name) := by
      refine bind_eq_of_rel (h.child? "name") fun hname ↦ ?_
      simp only [found, hname.kind_eq, hname.text_eq]

end Woven

/-! ### Chains -/

/-- A child is smaller than its parent, so a recursion on children may count down the size. -/
theorem size_lt_of_mem {n c : Node} (h : c ∈ n.children) : c.size < n.size := by
  have hsizes (ns : List Node) (h : c ∈ ns) : c.size ≤ sizes ns := by
    induction ns with
    | nil => cases h
    | cons n ns ih =>
      rw [sizes]
      rcases List.mem_cons.1 h with rfl | h
      · exact Nat.le_add_right _ _
      · exact Nat.le_add_left_of_le (ih h)
  rw [size_eq n]
  exact Nat.lt_one_add_iff.2 (hsizes _ h)

theorem size_pos (n : Node) : 0 < n.size := by
  rw [size_eq]
  omega

/-- Fuel for all nodes is enough for what goes on with children alone. -/
theorem eq_of_size_le {α : Type} {f : Nat → Node → α}
    (hf : ∀ n fuel fuel', (∀ c ∈ n.children, f fuel c = f fuel' c) →
      f (fuel + 1) n = f (fuel' + 1) n)
    {fuel fuel' : Nat} {n : Node} (h : n.size ≤ fuel) (h' : n.size ≤ fuel') :
    f fuel n = f fuel' n := by
  induction fuel generalizing fuel' n with
  | zero => exact absurd (size_pos n) (by omega)
  | succ fuel ih =>
    have hpos := size_pos n
    obtain ⟨fuel', rfl⟩ : ∃ m, fuel' = m + 1 := Nat.exists_eq_add_one_of_ne_zero (by omega)
    refine hf n fuel fuel' fun c hc ↦ ?_
    have hlt := size_lt_of_mem hc
    exact ih (by omega) (by omega)

/-- The key by which a chain goes on. -/
def memberKey? (source : List UInt8) (n : Node) : Option String :=
  if n.kind == "member_expression" then (n.child? "property").map (·.text source)
  else (n.child? "index").bind (·.literalKey? source)

/-- One step of a chain: the base is the name of an identifier, or the chain of the object, and a
key goes on behind it. -/
theorem memberPathWith_succ (fuel : Nat) (n : Node) : memberPathWith source (fuel + 1) n =
    if n.kind != "member_expression" && n.kind != "subscript_expression" then none
    else (n.child? "object").bind fun target ↦
      (nonempty? (if target.kind == "identifier" then some (target.text source)
        else memberPathWith source fuel target)).bind fun base ↦
        (nonempty? (memberKey? source n)).bind fun key ↦ some (base ++ "." ++ key) := by
  rw [memberPathWith]
  split <;> rfl

/-- More fuel than there are nodes does not change a path. -/
theorem memberPathWith_eq {fuel fuel' : Nat} {n : Node} (h : n.size ≤ fuel) (h' : n.size ≤ fuel') :
    memberPathWith source fuel n = memberPathWith source fuel' n := by
  refine eq_of_size_le (fun n fuel fuel' ih ↦ ?_) h h'
  rw [memberPathWith_succ, memberPathWith_succ]
  rcases htarget : n.child? "object" with - | target
  · rfl
  · simp only [Option.bind_some, ih target (List.mem_of_find?_eq_some htarget)]

namespace Woven

theorem memberKey?_eq (h : Woven n n') : memberKey? source n' = memberKey? source n := by
  rw [memberKey?, memberKey?, h.kind_eq, map_eq_of_rel (h.child? "property") fun h ↦ h.text_eq,
    bind_eq_of_rel (h.child? "index") fun h ↦ h.literalKey?_eq]

theorem memberPathWith_eq (fuel : Nat) (h : Woven n n') :
    memberPathWith source fuel n' = memberPathWith source fuel n := by
  induction fuel generalizing n n' with
  | zero => rfl
  | succ fuel ih =>
    rw [memberPathWith_succ, memberPathWith_succ, h.kind_eq, h.memberKey?_eq,
      bind_eq_of_rel (h.child? "object") fun htarget ↦ ?_]
    rw [htarget.kind_eq, htarget.text_eq, ih htarget]

/-- A chain of keys is spelled the same, wherever comments stand in it: objects and keys have
fields. The fuel, which is the size of the tree, has grown, but more fuel than there are nodes does
not matter. -/
theorem memberPath?_eq (h : Woven n n') : n'.memberPath? source = n.memberPath? source := by
  have hle : n.size ≤ n.size + n'.size := by omega
  have hle' : n'.size ≤ n.size + n'.size := by omega
  rw [memberPath?, memberPath?, Code.memberPathWith_eq (Nat.le_refl _) hle', h.memberPathWith_eq,
    Code.memberPathWith_eq hle (Nat.le_refl _)]

end Woven

/-! ### Children found by their place -/

/-- A child is found again, or a comment is found for it. -/
def Nearly (o o' : Option Node) : Prop :=
  Option.Rel Woven o o' ∨ ∃ m ∈ o', m.kind = "comment"

/-- The first named child is found again, or a comment stands in front of it. -/
theorem Weaves.head? (h : Weaves ns ns') :
    Nearly (ns.filter Node.named).head? (ns'.filter Node.named).head? := by
  induction h with
  | nil => exact .inl .none
  | comment start stop _ _ => exact .inr ⟨_, rfl, rfl⟩
  | @node kind named start stop field cs cs' ns ns' hcs _ _ ih =>
    cases named with
    | true => exact .inl (.some (.mk hcs))
    | false => exact ih

/-- The last named child is found again, or a comment stands behind it. -/
theorem Weaves.getLast? (h : Weaves ns ns') :
    Nearly (ns.filter Node.named).getLast? (ns'.filter Node.named).getLast? := by
  rw [← List.head?_reverse, ← List.head?_reverse, ← List.filter_reverse, ← List.filter_reverse]
  exact h.reverse.head?

/-- One pair of parentheses is taken off, if there is one. -/
theorem unwrapWith_succ (fuel : Nat) (n : Node) : unwrapWith (fuel + 1) n =
    if n.kind == "parenthesized_expression" then n.namedChildren.head?.elim n (unwrapWith fuel)
    else n := by
  rw [unwrapWith]
  split
  · rename_i inner others hkind hchildren
    rw [hkind, hchildren]
    rfl
  · rename_i hne
    split
    · rename_i hkind
      rcases hchildren : n.namedChildren with - | ⟨inner, others⟩
      · rfl
      · exact absurd hchildren (hne inner others hkind)
    · rfl

/-- Nothing is taken off what does not stand in parentheses. -/
theorem unwrapWith_of_kind_ne {n : Node} (h : n.kind ≠ "parenthesized_expression") (fuel : Nat) :
    unwrapWith fuel n = n := by
  cases fuel with
  | zero => rfl
  | succ fuel => rw [unwrapWith_succ, if_neg (by simpa using h)]

/-- More fuel than there are nodes does not take off more parentheses. -/
theorem unwrapWith_eq {fuel fuel' : Nat} {n : Node} (h : n.size ≤ fuel) (h' : n.size ≤ fuel') :
    unwrapWith fuel n = unwrapWith fuel' n := by
  refine eq_of_size_le (fun n fuel fuel' ih ↦ ?_) h h'
  rw [unwrapWith_succ, unwrapWith_succ]
  rcases hinner : n.namedChildren.head? with - | inner
  · rfl
  · have hmem : inner ∈ n.children := List.mem_of_mem_filter (List.mem_of_mem_head? hinner)
    simp only [Option.elim_some, ih inner hmem]

/-- The parentheses around a tree and around the same tree with comments are taken off side by side,
until a comment is met for what stands in them. -/
theorem Woven.unwrapWith (fuel : Nat) (h : Woven n n') :
    Woven (unwrapWith fuel n) (unwrapWith fuel n') ∨ (unwrapWith fuel n').kind = "comment" := by
  induction fuel generalizing n n' with
  | zero => exact .inl h
  | succ fuel ih =>
    rw [unwrapWith_succ, unwrapWith_succ, h.kind_eq]
    split
    · rcases h.children.head? with hrel | ⟨m, hm, hkind⟩
      · rw [namedChildren, namedChildren]
        revert hrel
        generalize (n.children.filter Node.named).head? = o,
          (n'.children.filter Node.named).head? = o'
        rintro (hinner | -)
        · exact ih hinner
        · exact .inl h
      · rw [namedChildren, namedChildren, Option.mem_def.1 hm, Option.elim_some,
          unwrapWith_of_kind_ne (by rw [hkind]; decide)]
        exact .inr hkind
    · exact .inl h

/-- What stands in parentheses is found again, or a comment in front of it is taken for it. -/
theorem Woven.unwrap (h : Woven n n') :
    Woven n.unwrap n'.unwrap ∨ n'.unwrap.kind = "comment" := by
  have hle : n.size ≤ n.size + n'.size := by omega
  have hle' : n'.size ≤ n.size + n'.size := by omega
  rw [Node.unwrap, Node.unwrap, unwrapWith_eq (Nat.le_refl _) hle,
    unwrapWith_eq (Nat.le_refl _) hle']
  exact h.unwrapWith _

namespace Nearly

variable {o o' : Option Node}

/-- Looking for a child by its place, in a node that is found again, is the only step that may go
wrong. -/
theorem bind (h : Option.Rel Woven o o') {f : Node → Option Node}
    (hf : ∀ {n n'}, Woven n n' → Nearly (f n) (f n')) : Nearly (o.bind f) (o'.bind f) := by
  rcases h with h | -
  · exact hf h
  · exact .inl .none

/-- Taking off parentheses makes no difference to whether a comment is found. -/
theorem unwrap (h : Nearly o o') : Nearly (o.map Node.unwrap) (o'.map Node.unwrap) := by
  rcases h with (h | -) | ⟨m, hm, hkind⟩
  · rcases h.unwrap with h | h
    · exact .inl (.some h)
    · exact .inr ⟨_, rfl, h⟩
  · exact .inl .none
  · refine .inr ⟨m, ?_, hkind⟩
    rw [Option.mem_def.1 hm, Option.map_some, Node.unwrap,
      unwrapWith_of_kind_ne (by rw [hkind]; decide)]
    rfl

/-- If what is found is no comment, it is what was looked for. -/
theorem rel (h : Nearly o o') (hcomment : ∀ m ∈ o', m.kind ≠ "comment") :
    Option.Rel Woven o o' := by
  rcases h with h | ⟨m, hm, hkind⟩
  · exact h
  · exact absurd hkind (hcomment m hm)

/-- What gives the same for the same tree with comments in it, and the same for all comments, gives
the same if the kinds are the same. -/
theorem eq_of_kind {α : Type} (h : Nearly o o') (hkind : o'.map kind = o.map kind)
    {f : Option Node → α} (hwoven : ∀ {n n'}, Woven n n' → f (some n') = f (some n))
    (hcomment : ∀ {n n'}, n.kind = "comment" → n'.kind = "comment" → f (some n') = f (some n)) :
    f o' = f o := by
  rcases h with (h | -) | ⟨m, hm, hm'⟩
  · exact hwoven h
  · rfl
  · obtain rfl := Option.mem_def.1 hm
    rcases o with - | n
    · cases hkind
    · exact hcomment ((Option.some.inj hkind).symm.trans hm') hm'

end Nearly

/-! ### Contributions of a node -/

/-- A call whose first argument names what is imported. -/
def importsByCall (source : List UInt8) (n : Node) : Bool :=
  (n.child? "function").any fun callee ↦
    callee.kind == "import" || (callee.kind == "identifier" && callee.text source == "require")

/-- What a node's contribution depends on and is found by its place among its siblings: the value
behind `export =`, the name of a namespace export, the argument of an import by a call, and the
value assigned to `module.exports`; parentheses around a value are taken off. -/
def readByPlace? (source : List UInt8) (n : Node) : Option Node :=
  if n.kind == "export_statement" then
    if n.hasToken "=" then n.namedChildren.getLast?.map Node.unwrap
    else (n.namedChildren.find? (·.kind == "namespace_export")).bind (·.namedChildren.getLast?)
  else if n.kind == "call_expression" then
    if importsByCall source n then (n.child? "arguments").bind (·.namedChildren.head?) else none
  else if n.kind == "assignment_expression" then
    if (n.child? "left").bind (·.memberPath? source) == some "module.exports" then
      (n.child? "right").map Node.unwrap
    else none
  else none

/-- An export statement reads the value behind `export =`, or the name of its namespace export. -/
theorem readByPlace?_of_export (h : n.kind = "export_statement") : readByPlace? source n =
    if n.hasToken "=" then n.namedChildren.getLast?.map Node.unwrap
    else (n.namedChildren.find? (·.kind == "namespace_export")).bind
      (·.namedChildren.getLast?) := by
  unfold readByPlace?
  rw [h]
  rfl

/-- A call that imports reads its first argument. -/
theorem readByPlace?_of_call (h : n.kind = "call_expression") : readByPlace? source n =
    if importsByCall source n then (n.child? "arguments").bind (·.namedChildren.head?)
    else none := by
  unfold readByPlace?
  rw [h]
  rfl

/-- An assignment to `module.exports` reads the value that is assigned. -/
theorem readByPlace?_of_assignment (h : n.kind = "assignment_expression") :
    readByPlace? source n =
      if (n.child? "left").bind (·.memberPath? source) == some "module.exports" then
        (n.child? "right").map Node.unwrap
      else none := by
  unfold readByPlace?
  rw [h]
  rfl

/-- A namespace export is found by its kind, so it is found again. -/
theorem Woven.namespaceExport (h : Woven n n') :
    Option.Rel Woven (n.namedChildren.find? (·.kind == "namespace_export"))
      (n'.namedChildren.find? (·.kind == "namespace_export")) := by
  rw [← List.head?_filter, ← List.head?_filter]
  exact forall₂_head? (h.namedOfKind _ (by decide))

/-- Whether a call imports is told by the function that it calls, which stands in a field. -/
theorem Woven.importsByCall_eq (h : Woven n n') :
    importsByCall source n' = importsByCall source n := by
  rw [importsByCall, importsByCall]
  have hcallee := h.child? "function"
  revert hcallee
  generalize n.child? "function" = o, n'.child? "function" = o'
  rintro (hcallee | -)
  · simp only [Option.any_some, hcallee.kind_eq, hcallee.text_eq]
  · rfl

/-- What a node reads by place is found again, or a comment is found for it. -/
theorem Woven.readByPlace? (h : Woven n n') :
    Nearly (readByPlace? source n) (readByPlace? source n') := by
  unfold Code.readByPlace?
  rw [h.kind_eq, h.hasToken_eq, h.importsByCall_eq,
    bind_eq_of_rel (h.child? "left") fun h ↦ h.memberPath?_eq]
  split
  · split
    · exact h.children.getLast?.unwrap
    · exact .bind h.namespaceExport fun h ↦ h.children.getLast?
  · split
    · split
      · exact .bind (h.child? "arguments") fun h ↦ h.children.head?
      · exact .inl .none
    · split
      · split
        · exact Nearly.unwrap (.inl (h.child? "right"))
        · exact .inl .none
      · exact .inl .none

/-- The names under which an unwrapped value is exported as a whole. -/
def valueNames (source : List UInt8) (n : Node) : List String :=
  if n.kind == "identifier" then [n.text source]
  else if n.kind ∈ functionValues ++ functionDeclarations || n.kind == "class" ||
      n.kind ∈ classDeclarations then
    [(nonempty? (n.declaredName? source)).getD "default"]
  else if n.kind == "object" then
    match n.namedChildren.filterMap fun p ↦ nonempty? (p.propertyName? source) with
    | [] => ["default"]
    | names => names
  else ["default"]

/-- The names that a value is exported under are those of what stands in its parentheses. -/
theorem exportedNames_eq (source : List UInt8) (value : Option Node) :
    exportedNames source value = (value.map Node.unwrap).elim [] (valueNames source) := by
  rcases value with - | value
  · rfl
  · rfl

/-- A comment that is taken for a value is exported as the default. -/
theorem valueNames_of_comment (h : n.kind = "comment") : valueNames source n = ["default"] := by
  unfold valueNames
  rw [h]
  rfl

theorem stringValue?_of_comment (h : n.kind = "comment") : n.stringValue? source = none := by
  unfold stringValue?
  rw [h]
  rfl

theorem nameText?_of_comment (h : n.kind = "comment") : n.nameText? source = none := by
  unfold nameText?
  rw [stringValue?_of_comment h, h]
  rfl

namespace Woven

theorem propertyName?_eq (h : Woven n n') : n'.propertyName? source = n.propertyName? source := by
  rw [propertyName?, propertyName?, h.kind_eq, h.text_eq,
    bind_eq_of_rel (h.child? "key") fun h ↦ h.nameText?_eq,
    bind_eq_of_rel (h.child? "name") fun h ↦ h.nameText?_eq]

theorem valueNames_eq (h : Woven n n') : valueNames source n' = valueNames source n := by
  have hproperties : (n'.namedChildren.filterMap fun p ↦ nonempty? (p.propertyName? source)) =
      n.namedChildren.filterMap fun p ↦ nonempty? (p.propertyName? source) := by
    rw [namedChildren, namedChildren, List.filterMap_filter, List.filterMap_filter]
    exact h.children.filterMap (fun h ↦ by rw [h.named_eq, h.propertyName?_eq]) fun _ _ ↦ rfl
  rw [valueNames, valueNames, h.kind_eq, h.text_eq, h.declaredName?_eq, hproperties]

/-- What a declaration contributes is found by fields and kinds. -/
theorem declarationFindings_eq (h : Woven n n') :
    n'.declarationFindings source = n.declarationFindings source := by
  have hdeclarators := h.namedOfKind "variable_declarator" (by decide)
  have hnames := map_eq_of_forall₂ hdeclarators
    (f := fun d ↦ (d.child? "name").bind (·.nameText? source))
    fun h ↦ bind_eq_of_rel (h.child? "name") fun h ↦ h.nameText?_eq
  have hvariables := map_eq_of_forall₂ hdeclarators
    (f := fun d ↦ (Bucket.functions, d.functionVariable? source)) fun h ↦ by
      rw [h.functionVariable?_eq]
  simp only [declarationFindings, h.kind_eq, h.declaredName?_eq, hnames, hvariables]

/-- The names in an export clause are those of its specifiers, which are found by their kind. -/
theorem clauseNames_eq (h : Woven n n') : n'.clauseNames source = n.clauseNames source := by
  rw [clauseNames, clauseNames, List.flatMap_def, List.flatMap_def]
  refine congrArg _ (map_eq_of_forall₂ (h.namedOfKind _ (by decide)) fun hclause ↦ ?_)
  refine map_eq_of_forall₂ (hclause.namedOfKind _ (by decide)) fun hspecifier ↦ ?_
  rw [bind_eq_of_rel (or_rel (hspecifier.child? "alias") (hspecifier.child? "name")) fun h ↦
    h.nameText?_eq]

end Woven

/-- A value that is found by its place is exported under the same names if its kind is the same: a
comment is told apart from every value by its kind. -/
theorem exportedNames_of_kind {value value' : Option Node} (h : Nearly value value')
    (hkind : (value'.map Node.unwrap).map kind = (value.map Node.unwrap).map kind) :
    exportedNames source value' = exportedNames source value := by
  rw [exportedNames_eq, exportedNames_eq]
  refine h.unwrap.eq_of_kind hkind (f := fun o ↦ o.elim [] (valueNames source))
    (fun h ↦ h.valueNames_eq) fun hn hn' ↦ ?_
  rw [Option.elim_some, Option.elim_some, valueNames_of_comment hn, valueNames_of_comment hn']

/-- A star export contributes the same if its name is found to be of the same kind. -/
theorem starFindings_of_kind (h : Woven n n')
    (hkind : ((n'.namedChildren.find? (·.kind == "namespace_export")).bind
        (·.namedChildren.getLast?)).map kind =
      ((n.namedChildren.find? (·.kind == "namespace_export")).bind
        (·.namedChildren.getLast?)).map kind) :
    n'.starFindings source = n.starFindings source := by
  rw [starFindings, starFindings, h.hasToken_eq]
  have hrel := h.namespaceExport
  revert hrel hkind
  generalize n.namedChildren.find? (·.kind == "namespace_export") = o,
    n'.namedChildren.find? (·.kind == "namespace_export") = o'
  rintro hkind (hexport | -)
  · rename_i e e'
    have hgiven : e'.namedChildren.getLast?.bind (·.nameText? source) =
        e.namedChildren.getLast?.bind (·.nameText? source) := by
      refine hexport.children.getLast?.eq_of_kind hkind (f := fun o ↦ o.bind (·.nameText? source))
        (fun h ↦ h.nameText?_eq) fun hn hn' ↦ ?_
      exact (nameText?_of_comment hn').trans (nameText?_of_comment hn).symm
    simp only [hgiven]
  · rfl

/-- An export statement contributes the same if what it reads by place is of the same kind. -/
theorem exportFindings_of_kind (h : Woven n n') (hexport : n.kind = "export_statement")
    (hkind : (readByPlace? source n').map kind = (readByPlace? source n).map kind) :
    n'.exportFindings source = n.exportFindings source := by
  rw [readByPlace?_of_export hexport, readByPlace?_of_export (h.kind_eq.trans hexport),
    h.hasToken_eq] at hkind
  rw [exportFindings, exportFindings]
  simp only [h.hasToken_eq, h.sourceFinding_eq]
  rcases hassign : n.hasToken "=" with - | -
  · simp only [hassign, Bool.false_eq_true, if_false] at hkind ⊢
    have hdeclaration := h.child? "declaration"
    have htarget := or_rel hdeclaration (h.child? "value")
    rw [starFindings_of_kind h hkind, h.clauseNames_eq]
    revert hdeclaration htarget
    generalize (n.child? "declaration").or (n.child? "value") = target,
      (n'.child? "declaration").or (n'.child? "value") = target'
    generalize n.child? "declaration" = declaration, n'.child? "declaration" = declaration'
    rintro (hdeclaration | -) (htarget | -)
    · simp only [hdeclaration.declarationFindings_eq, htarget.declarationFindings_eq]
    · simp only [hdeclaration.declarationFindings_eq]
    · simp only [htarget.declarationFindings_eq]
    · rfl
  · simp only [hassign, if_true] at hkind ⊢
    exact congrArg (fun names ↦ _ ++ asExports names)
      (exportedNames_of_kind h.children.getLast? hkind)

/-- A call contributes the same if what it reads by place is of the same kind. -/
theorem callFindings_of_kind (h : Woven n n') (hcall : n.kind = "call_expression")
    (hkind : (readByPlace? source n').map kind = (readByPlace? source n).map kind) :
    n'.callFindings source = n.callFindings source := by
  have hfindings (n : Node) : n.callFindings source =
      if importsByCall source n then
        [(.imports, ((n.child? "arguments").bind (·.namedChildren.head?)).bind
          (·.stringValue? source))]
      else [] := by
    rw [callFindings, importsByCall]
    rcases n.child? "function" with - | callee <;> rfl
  rw [readByPlace?_of_call hcall, readByPlace?_of_call (h.kind_eq.trans hcall),
    h.importsByCall_eq] at hkind
  rw [hfindings, hfindings, h.importsByCall_eq]
  split
  · rename_i himports
    simp only [himports, if_true] at hkind
    have hfirst : Nearly ((n.child? "arguments").bind (·.namedChildren.head?))
        ((n'.child? "arguments").bind (·.namedChildren.head?)) :=
      .bind (h.child? "arguments") fun h ↦ h.children.head?
    rw [hfirst.eq_of_kind hkind (f := fun o ↦ o.bind (·.stringValue? source))
      (fun h ↦ h.stringValue?_eq) fun hn hn' ↦
        (stringValue?_of_comment hn').trans (stringValue?_of_comment hn).symm]
  · rfl

/-- An assignment contributes the same if what it reads by place is of the same kind. -/
theorem assignmentFindings_of_kind (h : Woven n n') (hassignment : n.kind = "assignment_expression")
    (hkind : (readByPlace? source n').map kind = (readByPlace? source n).map kind) :
    n'.assignmentFindings source = n.assignmentFindings source := by
  have hpath : (n'.child? "left").bind (·.memberPath? source) =
      (n.child? "left").bind (·.memberPath? source) :=
    bind_eq_of_rel (h.child? "left") fun h ↦ h.memberPath?_eq
  rw [assignmentFindings, assignmentFindings, hpath]
  rcases hleft : (n.child? "left").bind (·.memberPath? source) with - | path
  · rfl
  · simp only
    split
    · rename_i hmodule
      rw [exportedNames_of_kind (.inl (h.child? "right"))]
      rw [readByPlace?_of_assignment hassignment,
        readByPlace?_of_assignment (h.kind_eq.trans hassignment), hpath, hleft,
        Option.some_beq_some, if_pos hmodule, if_pos hmodule] at hkind
      exact hkind
    · rfl

/-- A node contributes the same with comments below it if it finds the same kind of node where it
looks for one by its place. -/
theorem findings_of_kind (h : Woven n n')
    (hkind : (readByPlace? source n').map kind = (readByPlace? source n).map kind) :
    n'.findings source = n.findings source := by
  unfold findings
  rw [h.kind_eq]
  refine ite_congr rfl (fun _ ↦ by rw [h.hasToken_eq, h.sourceFinding_eq]) fun _ ↦ ?_
  refine ite_congr rfl (fun _ ↦ by rw [h.sourceFinding_eq]) fun _ ↦ ?_
  refine ite_congr rfl (fun hexport ↦ ?_) fun _ ↦ ?_
  · exact exportFindings_of_kind h (beq_iff_eq.1 hexport) hkind
  refine ite_congr rfl (fun hcall ↦ ?_) fun _ ↦ ?_
  · exact callFindings_of_kind h (beq_iff_eq.1 hcall) hkind
  refine ite_congr rfl (fun hassignment ↦ ?_) fun _ ↦ ?_
  · exact assignmentFindings_of_kind h (beq_iff_eq.1 hassignment) hkind
  rw [h.declaredName?_eq, h.functionVariable?_eq]

/-! ### The extraction -/

/-- The nodes of some trees apart from comments, in the order in which they are visited. -/
def constructs (ns : List Node) : List Node := (stackOrder ns).filter (·.kind != "comment")

/-- The kinds of the nodes that are found by their place, for each node of a tree. -/
def placesRead (source : List UInt8) (root : Node) : List (Option String) :=
  (constructs [root]).map fun n ↦ (readByPlace? source n).map kind

/-- Apart from the comments the same nodes are visited, in the same order. -/
theorem Weaves.constructs (h : Weaves ns ns') :
    List.Forall₂ Woven (constructs ns) (constructs ns') := by
  unfold Code.constructs
  induction ns' using stackOrder.induct generalizing ns with
  | case1 =>
    cases h
    rw [stackOrder]
    exact .nil
  | case2 n' ns' ih =>
    rw [stackOrder]
    cases h with
    | comment start stop h => exact ih h
    | @node kind named start stop field cs cs' ns ns' hcs h =>
      have hwoven :
        Woven (.mk kind named start stop field cs) (.mk kind named start stop field cs') :=
        .mk hcs
      rw [stackOrder, List.filter_cons, List.filter_cons, hwoven.kind_eq]
      split
      · exact .cons hwoven (ih (hcs.append h))
      · exact ih (hcs.append h)

/-- Comments themselves contribute nothing. -/
theorem findings_of_comment (h : n.kind = "comment") : n.findings source = [] := by
  unfold findings
  rw [h]
  rfl

/-- So all that is found is contributed by the nodes that are no comments. -/
theorem flatMap_findings (source : List UInt8) (ns : List Node) :
    (stackOrder ns).flatMap (Node.findings source) =
      (constructs ns).flatMap (Node.findings source) := by
  rw [constructs]
  induction stackOrder ns with
  | nil => rfl
  | cons n ns ih =>
    rw [List.flatMap_cons, List.filter_cons, ih]
    split
    · rw [List.flatMap_cons]
    · rename_i hkind
      rw [findings_of_comment (by simpa using hkind), List.nil_append]

/-- Nodes that correspond contribute the same, if each reads nodes of the same kinds by place. -/
theorem flatMap_findings_of_places {ns ns' : List Node} (h : List.Forall₂ Woven ns ns')
    (hplaces : ns'.map (fun n ↦ (readByPlace? source n).map kind) =
      ns.map fun n ↦ (readByPlace? source n).map kind) :
    ns'.flatMap (Node.findings source) = ns.flatMap (Node.findings source) := by
  induction h with
  | nil => rfl
  | cons h _ ih =>
    obtain ⟨hkind, hplaces⟩ := List.cons.inj hplaces
    rw [List.flatMap_cons, List.flatMap_cons, findings_of_kind h hkind, ih hplaces]

/-- Where no comment is read by place, nodes of the same kinds are. -/
theorem placesRead_of_no_comment (h : List.Forall₂ Woven ns ns')
    (hcomment : ∀ n ∈ ns', ∀ m ∈ readByPlace? source n, m.kind ≠ "comment") :
    ns'.map (fun n ↦ (readByPlace? source n).map kind) =
      ns.map fun n ↦ (readByPlace? source n).map kind := by
  induction h with
  | nil => rfl
  | cons h _ ih =>
    obtain ⟨hhead, htail⟩ := List.forall_mem_cons.1 hcomment
    rw [List.map_cons, List.map_cons, ih htail,
      map_eq_of_rel (h.readByPlace?.rel hhead) fun h ↦ h.kind_eq]

/-- Putting comments into a tree does not change what is extracted, provided that each node finds
the same kind of node where it looks for one by its place; and so it does where it finds no
comment. -/
theorem extract_weaves (source : List UInt8) {root root' : Node} (h : Weaves [root] [root']) :
    (placesRead source root' = placesRead source root →
      extract source root' = extract source root) ∧
    ((∀ n ∈ constructs [root'], ∀ m ∈ readByPlace? source n, m.kind ≠ "comment") →
      placesRead source root' = placesRead source root) := by
  refine ⟨fun hplaces ↦ ?_, placesRead_of_no_comment h.constructs⟩
  rw [extract, extract, flatMap_findings, flatMap_findings,
    flatMap_findings_of_places h.constructs hplaces]

/-- A call that imports, with two comments. -/
def importSource : List UInt8 := "/* a */  require(\"./b\"/* c */)".toUTF8.toList

/-- The tree of `importSource`, with these nodes in front of the call and behind its argument. -/
def importTree (front behind : List Node) : Node :=
  .mk "program" true 0 30 none (front ++ [.mk "call_expression" true 9 30 none
    [.mk "identifier" true 9 16 (some "function") [],
      .mk "arguments" true 16 30 (some "arguments") (.mk "string" true 17 22 none [] :: behind)]])

/-- A comment in front of the call and one behind its argument do not hide what is imported. -/
theorem extract_weaves_importTree :
    extract importSource (importTree [comment 0 7] [comment 22 29]) =
      extract importSource (importTree [] []) := by
  have hweaves : Weaves [importTree [] []] [importTree [comment 0 7] [comment 22 29]] :=
    .node (.comment 0 7 (.node (.node .nil (.node (.node .nil (.comment 22 29 .nil)) .nil)) .nil))
      .nil
  obtain ⟨hsame, hplaces⟩ := extract_weaves importSource hweaves
  refine hsame (hplaces ?_)
  simp only [constructs, importTree, stackOrder, Node.children, comment, List.cons_append,
    List.nil_append]
  decide +kernel

end RepoSurvey.Code
