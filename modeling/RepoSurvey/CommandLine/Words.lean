import RepoSurvey.CommandLine.Flag

/-!
# Words of a command line

A word is a flag, perhaps with a value attached, or an operand. A long name may be cut short as long
as it is clear which flag is meant; flags of one letter may stand in one word. Words behind `--` are
operands whatever they look like, and so are negative numbers and words with spaces.

`mark` tells the role of each word from the word alone. `readMarked` then goes through the words in
order and yields what they say up to the first fault, so that whatever stands in front of a fault
has its effect.
-/

namespace RepoSurvey.CommandLine

open RepoSurvey.Text

/-! ### Roles -/

/-- A value in the word of its flag. -/
structure Attached where
  /-- Whether an equals sign stands in front of it. -/
  marked : Bool
  value : List Char
deriving DecidableEq, Repr

/-- What a word is. -/
inductive Role where
  | operand
  /-- The first `--`. -/
  | divider
  | flag (flag : Flag) (short : Bool) (attached : Option Attached)
  /-- It looks like a flag that nobody knows. -/
  | unknown
deriving DecidableEq, Repr

/-- A word with its role. -/
structure Marked where
  word : String
  role : Role
deriving DecidableEq, Repr

/-- The names of flags, in order. -/
def namesOf (flags : List Flag) : List (String × Flag) :=
  flags.flatMap fun f ↦ f.names.map fun name ↦ (name, f)

/-- Whether a name is that of a flag of one letter. -/
def isShort (name : List Char) : Bool := name.drop 1 |>.head? |>.any (· != '-')

/-- Whether a word is written like a negative number. -/
def isNegativeNumber (cs : List Char) : Bool :=
  let cs := if cs.getLast? == some '\n' then cs.dropLast else cs
  let isDigit := fun c ↦ (digit? c).isSome
  match cs with
  | '-' :: cs =>
    match cs.dropWhile isDigit with
    | [] => !cs.isEmpty
    | '.' :: fraction => !fraction.isEmpty && fraction.all isDigit
    | _ => false
  | _ => false

/-- A word up to its first equals sign, and the value behind it. -/
def cutValue (cs : List Char) : List Char × Option Attached :=
  match cs.dropWhile (· != '=') with
  | [] => (cs, none)
  | _ :: value => (cs.takeWhile (· != '='), some ⟨true, value⟩)

/-- The flags that a word may mean that is not the name of one. -/
def guesses (flags : List Flag) (cs : List Char) : List (String × Role) :=
  if isShort cs then
    (namesOf flags).filterMap fun (name, f) ↦
      if name.toList = cs.take 2 then some (name, .flag f true (some ⟨false, cs.drop 2⟩)) else none
  else
    let (front, attached) := cutValue cs
    (namesOf flags).filterMap fun (name, f) ↦
      if front.isPrefixOf name.toList then some (name, .flag f false attached) else none

/-- The role of a word in front of any `--`. -/
def roleOf (flags : List Flag) (word : String) : Except WordFault Role :=
  let cs := word.toList
  if cs.head? ≠ some '-' then .ok .operand
  else match (namesOf flags).lookup word with
    | some f => .ok (.flag f (isShort cs) none)
    | none =>
      if cs.length = 1 then .ok .operand
      else
        let (front, attached) := cutValue cs
        match attached, (namesOf flags).lookup (String.ofList front) with
        | some _, some f => .ok (.flag f (isShort front) attached)
        | _, _ =>
          match guesses flags cs with
          | [] => .ok (if isNegativeNumber cs || cs.contains ' ' then .operand else .unknown)
          | [(_, role)] => .ok role
          | several => .error (.ambiguous word (several.map Prod.fst))

/-- The roles of words. -/
def mark (flags : List Flag) : List String → Except WordFault (List Marked)
  | [] => .ok []
  | word :: rest =>
    if word = "--" then .ok (⟨word, .divider⟩ :: rest.map fun word ↦ ⟨word, .operand⟩)
    else do
      let role ← roleOf flags word
      let rest ← mark flags rest
      return ⟨word, role⟩ :: rest

/-! ### Words of flags -/

/-- Something that words say. -/
inductive Event where
  | flag (flag : Flag) (value : Option String)
  | operands (words : List String)
deriving DecidableEq, Repr

/-- What a word of flags says: the flags that are complete, the one whose value is the next word,
and what nobody knows. -/
structure Cluster where
  events : List Event := []
  awaits : Option Flag := none
  unknown : List String := []
deriving DecidableEq, Repr

namespace Cluster

/-- A flag with nothing attached. -/
def bare (f : Flag) : Cluster :=
  if f.takesValue then { awaits := some f } else { events := [.flag f none] }

/-- A flag without a value in front of a cluster. -/
def cons (f : Flag) (c : Cluster) : Cluster := { c with events := .flag f none :: c.events }

/-- Reads a flag with something attached: its value, or more flags of one letter. -/
def read (flags : List Flag) (f : Flag) (short marked : Bool) (attached : List Char) :
    Except WordFault Cluster :=
  if f.takesValue then .ok { events := [.flag f (some (String.ofList attached))] }
  else match attached with
    | [] => .error (.unwantedValue f "")
    | c :: cs =>
      if !short || marked || c == '-' then .error (.unwantedValue f (String.ofList attached))
      else match (namesOf flags).lookup (String.ofList ['-', c]), cs with
        | none, _ =>
          .ok { events := [.flag f none], unknown := [String.ofList ('-' :: attached)] }
        | some g, [] => .ok (cons f (bare g))
        | some g, '=' :: cs => (read flags g true true cs).map (cons f)
        | some g, c :: cs => (read flags g true false (c :: cs)).map (cons f)
termination_by attached.length

/-- Reads the word of a flag. -/
def ofFlag (flags : List Flag) (f : Flag) (short : Bool) :
    Option Attached → Except WordFault Cluster
  | none => .ok (bare f)
  | some a => read flags f short a.marked a.value

end Cluster

/-! ### All words -/

/-- What words say: in order, what was understood, what nobody knows, and the fault that ended the
reading. -/
structure Reading where
  events : List Event := []
  unknown : List String := []
  fault : Option WordFault := none
deriving DecidableEq, Repr

namespace Reading

/-- Puts events and unknown words in front of a reading. -/
def after (events : List Event) (unknown : List String) (r : Reading) : Reading :=
  { r with events := events ++ r.events, unknown := unknown ++ r.unknown }

end Reading

/-- How operands are taken. -/
inductive Operands where
  /-- The first operand takes all words behind it. -/
  | command
  /-- One operand, which may be missing. -/
  | path
deriving DecidableEq, Repr

/-- The operands that a word and those behind it yield, and the words that are left. -/
def takeOperands : Operands → Marked → List Marked → Option (List String × List Marked)
  | .command, m, ms =>
    if m.role = .divider ∧ ms = [] then none else some ((m :: ms).map Marked.word, [])
  | .path, ⟨_, .divider⟩, ⟨word, .operand⟩ :: ms => some ([word], ms)
  | .path, ⟨_, .divider⟩, ms => some ([], ms)
  | .path, ⟨word, _⟩, ⟨_, .divider⟩ :: ms => some ([word], ms)
  | .path, ⟨word, _⟩, ms => some ([word], ms)

/-- Operands are taken from the front, so no more marked words are left than there were. -/
theorem length_takeOperands {o : Operands} {m : Marked} {ms rest : List Marked}
    {words : List String} (h : takeOperands o m ms = some (words, rest)) :
    rest.length ≤ ms.length := by
  unfold takeOperands at h
  split at h <;> try split at h
  all_goals simp at h
  all_goals obtain ⟨-, rfl⟩ := h
  all_goals simp

/-- Reads marked words; `pending` says whether operands are still to be taken. -/
def readMarked (flags : List Flag) (operands : Operands) :
    (pending : Bool) → List Marked → Reading
  | _, [] => {}
  | pending, ⟨word, .unknown⟩ :: ms =>
    (readMarked flags operands pending ms).after [] [word]
  | pending, ⟨_, .flag f short attached⟩ :: ms =>
    match Cluster.ofFlag flags f short attached with
    | .error fault => { fault := some fault }
    | .ok c =>
      match c.awaits with
      | none => (readMarked flags operands pending ms).after c.events c.unknown
      | some g =>
        match ms with
        | ⟨value, .operand⟩ :: ms =>
          (readMarked flags operands pending ms).after
            (c.events ++ [.flag g (some value)]) c.unknown
        | _ => { fault := some (.noValue g) }
  | false, m :: ms => (readMarked flags operands false ms).after [] [m.word]
  | true, m :: ms =>
    match h : takeOperands operands m ms with
    | none => (readMarked flags operands true ms).after [] [m.word]
    | some (words, rest) =>
      have := length_takeOperands h
      (readMarked flags operands false rest).after [.operands words] []
termination_by _ ms => ms.length

/-- Reads words. -/
def readWords (flags : List Flag) (operands : Operands) (words : List String) : Reading :=
  match mark flags words with
  | .error fault => { fault := some fault }
  | .ok ms => readMarked flags operands true ms

end RepoSurvey.CommandLine
