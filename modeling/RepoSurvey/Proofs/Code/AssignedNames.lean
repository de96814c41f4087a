import Mathlib.Data.List.TakeWhile
import RepoSurvey.Proofs.Code.Comments

/-!
# Names given to exports by assignments

The left side of an assignment may be a chain of members and string subscripts that starts at an
identifier (`Accesses`). The chain is read as its keys with points between them, and as nothing if
one of the keys is empty (`accessPath?_eq`). What is assigned to a property of `exports` or of
`module.exports` is found again in that text: it is what stands behind the root up to the next
point.

So the first property is exported under its own name exactly if no property of the chain is empty
and its name holds no point (`assigned_property_exported_iff`). Otherwise nothing is exported, or
the part of its name in front of the first point.
-/

namespace RepoSurvey.Code

open Node

variable {source : List UInt8} {n target left : Node} {keys root props : List String}
  {key first : String}

/-! ### Chains of accesses -/

/-- A chain of members and string subscripts that starts at an identifier, and its keys: the
identifier, then the name of each member and what stands between the quotes of each subscript. -/
inductive Accesses (source : List UInt8) : Node → List String → Prop
  | identifier {n : Node} {key : String} : n.kind = "identifier" → n.text source = key →
      Accesses source n [key]
  | member {n target property : Node} {keys : List String} {key : String} :
      n.kind = "member_expression" → n.child? "object" = some target →
      Accesses source target keys → n.child? "property" = some property →
      property.text source = key → Accesses source n (keys ++ [key])
  | subscript {n target index : Node} {keys : List String} {key : String} {opening closing : Char} :
      n.kind = "subscript_expression" → n.child? "object" = some target →
      Accesses source target keys → n.child? "index" = some index → index.kind = "string" →
      (index.text source).toList = opening :: (key.toList ++ [closing]) →
      Accesses source n (keys ++ [key])

/-- The kinds of nodes by which a chain goes on. -/
def accessKinds : List String := ["member_expression", "subscript_expression"]

theorem Accesses.keys_ne_nil (h : Accesses source n keys) : keys ≠ [] := by
  cases h <;> simp

/-- A chain with an access is no identifier. -/
theorem Accesses.kind_ne (h : Accesses source n keys) (hlength : 1 < keys.length) :
    n.kind ≠ "identifier" := by
  cases h with
  | identifier => exact absurd hlength (Nat.lt_irrefl 1)
  | member hkind => simp [hkind]
  | subscript hkind => simp [hkind]

/-! ### Paths -/

theorem nonempty?_some (s : String) : nonempty? (some s) = if s = "" then none else some s := by
  rw [nonempty?, Option.filter_some]
  by_cases h : s = "" <;> simp [h]

/-- The path of what an access is put behind: an identifier, or further accesses. -/
def accessPath? (source : List UInt8) (n : Node) : Option String :=
  nonempty? (if n.kind == "identifier" then some (n.text source) else n.memberPath? source)

/-- The path of a chain by that of the chain without its last access. -/
theorem memberPath?_eq (n : Node) : n.memberPath? source =
    if n.kind ∈ accessKinds then
      (n.child? "object").bind fun target ↦ (accessPath? source target).bind fun base ↦
        (nonempty? (memberKey? source n)).bind fun key ↦ some (base ++ "." ++ key)
    else none := by
  obtain ⟨fuel, hfuel⟩ := Nat.exists_eq_add_one_of_ne_zero (Nat.ne_of_gt (size_pos n))
  have hguard : (n.kind != "member_expression" && n.kind != "subscript_expression") = true ↔
      n.kind ∉ accessKinds := by
    simp [accessKinds]
  rw [memberPath?, hfuel, memberPathWith_succ, ite_congr (propext hguard) (fun _ ↦ rfl) fun _ ↦ rfl,
    ite_not]
  rcases htarget : n.child? "object" with - | target
  · rfl
  · have hlt : target.size < n.size := size_lt_of_mem (List.mem_of_find?_eq_some htarget)
    have hpath : memberPathWith source fuel target = target.memberPath? source :=
      memberPathWith_eq (by omega) (Nat.le_refl _)
    rw [Option.bind_some, Option.bind_some, hpath]
    rfl

/-- What is never empty need not be tested again. -/
theorem nonempty?_bind {α : Type} {o : Option α} {f : α → Option String}
    (h : ∀ a, nonempty? (f a) = f a) : nonempty? (o.bind f) = o.bind f := by
  rcases o with - | a
  · rfl
  · exact h a

/-- A path of members is not empty. -/
theorem nonempty?_memberPath? (n : Node) :
    nonempty? (n.memberPath? source) = n.memberPath? source := by
  rw [memberPath?_eq]
  split
  · refine nonempty?_bind fun target ↦ nonempty?_bind fun base ↦ nonempty?_bind fun key ↦ ?_
    rw [nonempty?_some, if_neg (by simp)]
  · rfl

theorem accessPath?_of_kind_ne (h : n.kind ≠ "identifier") :
    accessPath? source n = n.memberPath? source := by
  rw [accessPath?, if_neg (by simpa using h), nonempty?_memberPath?]

/-- One more access puts a point and its key behind the path, provided that the key is there. -/
theorem accessPath?_of_key (hkind : n.kind ∈ accessKinds)
    (htarget : n.child? "object" = some target) (hkey : memberKey? source n = some key) :
    accessPath? source n =
      if key = "" then none else (accessPath? source target).map (· ++ "." ++ key) := by
  have hidentifier : n.kind ≠ "identifier" := by
    intro h
    rw [h] at hkind
    exact absurd hkind (by decide)
  rw [accessPath?_of_kind_ne hidentifier, memberPath?_eq, if_pos hkind, htarget, hkey,
    nonempty?_some]
  show ((accessPath? source target).bind fun base ↦ _) = _
  rcases accessPath? source target with - | base
  · simp
  · split <;> rfl

/-- The keys of a chain with points between them, or nothing if one of them is empty. -/
def dotted? (keys : List String) : Option String :=
  if "" ∈ keys then none else some (".".intercalate keys)

theorem dotted?_singleton (key : String) : dotted? [key] = nonempty? (some key) := by
  rw [dotted?, nonempty?_some, String.intercalate_singleton]
  exact ite_congr (propext (List.mem_singleton.trans eq_comm)) (fun _ ↦ rfl) fun _ ↦ rfl

/-- One more key comes behind a point, unless it is empty. -/
theorem dotted?_concat (hkeys : keys ≠ []) (key : String) :
    dotted? (keys ++ [key]) =
      if key = "" then none else (dotted? keys).map (· ++ "." ++ key) := by
  rw [dotted?, dotted?, String.intercalate_append_of_ne_nil hkeys (List.cons_ne_nil _ _),
    String.intercalate_singleton]
  by_cases hempty : key = ""
  · simp [hempty]
  · have hmem : "" ∈ keys ++ [key] ↔ "" ∈ keys := by simp [Ne.symm hempty]
    simp only [hmem, hempty, if_false]
    split <;> rfl

/-- A string has the value that stands between its quotes. -/
theorem stringValue?_eq_some {opening closing : Char} (hkind : n.kind = "string")
    (htext : (n.text source).toList = opening :: (key.toList ++ [closing])) :
    n.stringValue? source = some key := by
  rw [stringValue?, hkind, htext]
  simp

/-- A chain is read as its keys with points between them, and as nothing if a key is empty. -/
theorem accessPath?_eq (h : Accesses source n keys) : accessPath? source n = dotted? keys := by
  have hstep {n target : Node} {keys : List String} {key : String} (hkind : n.kind ∈ accessKinds)
      (htarget : n.child? "object" = some target) (hkey : memberKey? source n = some key)
      (htargets : Accesses source target keys) (ih : accessPath? source target = dotted? keys) :
      accessPath? source n = dotted? (keys ++ [key]) := by
    rw [accessPath?_of_key hkind htarget hkey, ih, dotted?_concat htargets.keys_ne_nil]
  induction h with
  | identifier hkind htext =>
    rw [accessPath?, hkind, beq_self_eq_true, if_pos rfl, htext, dotted?_singleton]
  | member hkind htarget htargets hproperty htext ih =>
    refine hstep (by simp [accessKinds, hkind]) htarget ?_ htargets ih
    rw [memberKey?, hkind, hproperty]
    exact congrArg some htext
  | @subscript n target index keys key opening closing hkind htarget htargets hindex hstring htext
      ih =>
    refine hstep (by simp [accessKinds, hkind]) htarget ?_ htargets ih
    have hvalue : index.literalKey? source = some key := by
      rw [literalKey?, hstring]
      exact stringValue?_eq_some hstring htext
    rw [memberKey?, hkind, hindex]
    exact hvalue

/-! ### What is found again -/

/-- What stands behind the first point does not count. -/
theorem firstSegment_append (cs rest : List Char) :
    firstSegment (cs ++ '.' :: rest) = firstSegment cs := by
  rw [firstSegment, firstSegment]
  congr 1
  induction cs with
  | nil => rfl
  | cons c cs ih =>
    rw [List.cons_append, List.takeWhile_cons, List.takeWhile_cons, ih]

/-- A name is found again exactly if it holds no point. -/
theorem firstSegment_eq_iff (name : String) :
    firstSegment name.toList = name ↔ '.' ∉ name.toList := by
  rw [firstSegment, ← String.toList_inj, String.toList_ofList, List.takeWhile_eq_self_iff]
  constructor
  · intro h hpoint
    simpa using h '.' hpoint
  · intro h c hc
    simpa using fun heq : c = '.' ↦ h (heq ▸ hc)

/-- The first of several keys tells what is found before the first point. -/
theorem firstSegment_intercalate (first : String) (others : List String) :
    firstSegment (".".intercalate (first :: others)).toList = firstSegment first.toList := by
  cases others with
  | nil => rw [String.intercalate_singleton]
  | cons next others =>
    rw [String.intercalate_cons_cons, String.toList_append, String.toList_append, List.append_assoc]
    exact firstSegment_append _ _

/-- What stands behind a front is found there. -/
theorem after?_append (front : String) (rest : List Char) {s : String}
    (h : s.toList = front.toList ++ rest) : after? front s = some rest := by
  rw [after?, h]
  simp

/-- Where a module's exports are kept. -/
def exportRoots : List (List String) := [["exports"], ["module", "exports"]]

/-- What stands behind a root is exported up to its first point. -/
theorem assignmentFindings_eq {rest : String} (hroot : root ∈ exportRoots)
    (hleft : (n.child? "left").bind (·.memberPath? source) =
      some (".".intercalate root ++ "." ++ rest)) :
    n.assignmentFindings source = [(.exports, some (firstSegment rest.toList))] := by
  rw [exportRoots, List.mem_pair] at hroot
  rw [assignmentFindings, hleft]
  rcases hroot with rfl | rfl
  · have hmodule : ("exports" ++ "." ++ rest == "module.exports") = false := by
      rw [beq_eq_false_iff_ne, ne_eq, ← String.toList_inj]
      simp
    rw [String.intercalate_singleton]
    simp only
    rw [hmodule, if_neg Bool.false_ne_true, after?_append "exports." rest.toList (by simp)]
  · have hmodule : ("module.exports" ++ "." ++ rest == "module.exports") = false := by
      rw [beq_eq_false_iff_ne, ne_eq, ← String.toList_inj]
      simp
    have hexports : after? "exports." ("module.exports" ++ "." ++ rest) = none := by
      rw [after?, String.toList_append, String.toList_append]
      rfl
    rw [show ".".intercalate ["module", "exports"] = "module.exports" by decide]
    simp only
    rw [hmodule, if_neg Bool.false_ne_true, hexports,
      after?_append "module.exports." rest.toList (by simp)]

/-! ### Assignments -/

/-- What an assignment to a property of a module's exports contributes. -/
theorem findings_of_assigned {others : List String} (hkind : n.kind = "assignment_expression")
    (hleft : n.child? "left" = some left) (hroot : root ∈ exportRoots)
    (h : Accesses source left (root ++ first :: others)) :
    n.findings source =
      if "" ∈ first :: others then [] else [(.exports, some (firstSegment first.toList))] := by
  have hne : root ≠ [] ∧ "" ∉ root :=
    (by decide : ∀ root ∈ exportRoots, root ≠ [] ∧ "" ∉ root) root hroot
  have hidentifier : left.kind ≠ "identifier" := by
    refine h.kind_ne ?_
    have hpos : 0 < root.length := List.length_pos_of_ne_nil hne.1
    rw [List.length_append, List.length_cons]
    omega
  have hpath : (n.child? "left").bind (·.memberPath? source) =
      dotted? (root ++ first :: others) := by
    rw [hleft, Option.bind_some, ← accessPath?_of_kind_ne hidentifier, accessPath?_eq h]
  have hempty : "" ∈ root ++ first :: others ↔ "" ∈ first :: others := by
    rw [List.mem_append, or_iff_right hne.2]
  have hfindings : n.findings source = n.assignmentFindings source := by
    rw [Node.findings, hkind]
    rfl
  rw [hfindings]
  split
  · rename_i hmem
    rw [dotted?, if_pos (hempty.2 hmem)] at hpath
    rw [assignmentFindings, hpath]
  · rename_i hmem
    rw [dotted?, if_neg (mt hempty.1 hmem), String.intercalate_append_of_ne_nil hne.1
      (List.cons_ne_nil _ _)] at hpath
    rw [assignmentFindings_eq hroot hpath, firstSegment_intercalate]

/-- For an assignment to a property of `exports` or of `module.exports`, whose first property that
is not empty is `first`: exactly `first` is exported if and only if no property of the chain is
empty and `first` holds no point. If a property is empty, nothing is exported; and if none is, what
is exported is the part of `first` in front of its first point. -/
theorem assigned_property_exported_iff (hkind : n.kind = "assignment_expression")
    (hleft : n.child? "left" = some left) (hroot : root ∈ exportRoots)
    (h : Accesses source left (root ++ props)) (hfirst : props.find? (· != "") = some first) :
    (n.findings source = [(.exports, some first)] ↔ "" ∉ props ∧ '.' ∉ first.toList) ∧
    ("" ∈ props → n.findings source = []) ∧
    ("" ∉ props → n.findings source = [(.exports, some (firstSegment first.toList))]) := by
  rcases props with - | ⟨other, others⟩
  · exact absurd hfirst (by simp)
  rw [findings_of_assigned hkind hleft hroot h]
  by_cases hempty : "" ∈ other :: others
  · simp [hempty]
  · have hne : other ≠ "" := fun h ↦ hempty (h ▸ List.mem_cons_self)
    have hother : other = first := by
      rw [List.find?_cons_of_pos (by simpa using hne)] at hfirst
      exact Option.some.inj hfirst
    subst hother
    simp only [hempty, if_false, not_false_eq_true, true_and, false_imp_iff, true_imp_iff, and_true,
      List.cons.injEq, Prod.mk.injEq, Option.some.injEq, firstSegment_eq_iff]

/-- An assignment to a member of a string subscript. -/
def assignmentSource : List UInt8 := "exports[\"a-b\"].c = 1".toUTF8.toList

/-- The identifier in `assignmentSource`. -/
def rootTree : Node := .mk "identifier" true 0 7 (some "object") []

/-- The subscript in `assignmentSource`. -/
def subscriptTree : Node :=
  .mk "subscript_expression" true 0 14 (some "object")
    [rootTree, .mk "string" true 8 13 (some "index") []]

/-- The left side of `assignmentSource`. -/
def memberTree : Node :=
  .mk "member_expression" true 0 16 (some "left")
    [subscriptTree, .mk "property_identifier" true 15 16 (some "property") []]

/-- The tree of `assignmentSource`. -/
def assignmentTree : Node :=
  .mk "assignment_expression" true 0 20 none
    [memberTree, .mk "number" true 19 20 (some "right") []]

/-- The text between the quotes is exported, and not what is accessed behind it. -/
theorem assigned_property_exported_subscript :
    assignmentTree.findings assignmentSource = [(.exports, some "a-b")] := by
  have hroot : Accesses assignmentSource rootTree ["exports"] :=
    .identifier rfl (by decide +kernel)
  have hsubscript : Accesses assignmentSource subscriptTree ["exports", "a-b"] :=
    @Accesses.subscript _ _ _ _ _ _ '"' '"' rfl rfl hroot rfl rfl (by decide +kernel)
  have hmember : Accesses assignmentSource memberTree (["exports"] ++ ["a-b", "c"]) :=
    .member rfl rfl hsubscript rfl (by decide +kernel)
  exact (assigned_property_exported_iff rfl rfl (by decide) hmember rfl).1.2 (by decide)

end RepoSurvey.Code
