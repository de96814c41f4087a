import RepoSurvey.Decimal.Text
import RepoSurvey.Text.Quoted

/-!
# Faults of YAML texts

A text can be malformed: it is then no YAML document, or one with a construct that is not read. Or
it is well formed and a scalar of it has a type whose values do not include what is written, such as
a date in a month that no year has; each such cause has a wording of its own.
-/

namespace RepoSurvey.Yaml

/-- What keeps a text from being a YAML document that is read. -/
inductive Problem where
  /-- A character that no document has. -/
  | unprintable
  /-- A character at which nothing begins. -/
  | strayCharacter
  /-- A closing bracket without an opening one. -/
  | strayBracket
  /-- Something that must be a key has no colon. -/
  | colonExpected
  | itemNotAllowed
  | keyNotAllowed
  | valueNotAllowed
  | badDirective
  | badName
  | badTag
  | badBlockHeader
  | badEscape
  | unterminatedScalar
  | markInScalar
  /-- Something else stands where a node must. -/
  | nodeExpected
  | blockEndExpected
  | separatorExpected
  | documentExpected
  | severalDocuments
  | unknownHandle
  | repeatedHandle
  | repeatedDirective
  | unknownVersion
  | unknownAlias
  | repeatedAnchor
  /-- No value is made for such a tag. -/
  | unknownTag
  | scalarExpected
  | listExpected
  | mappingExpected
  /-- A collection stands as a key. -/
  | collectionAsKey
  | badBinary
deriving DecidableEq, Repr

/-- What is wrong with a date or a time of day. -/
inductive MomentFault where
  | year (n : Nat)
  | month
  | day
  | hour
  | minute
  | second
  /-- The offset, in seconds, is a day or more. -/
  | offset (seconds : Int)
  /-- It is not written like a date. -/
  | malformed
  /-- A mapping stands for it. -/
  | mapping
deriving DecidableEq, Repr

/-- Why a scalar has no value of its type. -/
inductive ScalarFault where
  /-- An escape names a code point that does not exist. -/
  | codePoint (n : Nat)
  | whole (base : Nat) (text : String)
  | longWhole (digits : Nat)
  | fraction (text : String)
  /-- A number in base sixty has more places than doubles have. -/
  | manyPlaces
  /-- A number without any character. -/
  | emptyNumber
  | truth (text : String)
  | moment (fault : MomentFault)
deriving DecidableEq, Repr

/-- What is wrong with a text. -/
inductive Fault where
  | malformed (problem : Problem)
  | scalar (fault : ScalarFault)
deriving DecidableEq, Repr

/-- The wording of a problem. -/
def Problem.message : Problem → String
  | .unprintable => "special characters are not allowed"
  | .strayCharacter => "found a character that cannot start any token"
  | .strayBracket => "found a bracket that nothing opens"
  | .colonExpected => "could not find expected ':'"
  | .itemNotAllowed => "sequence entries are not allowed here"
  | .keyNotAllowed => "mapping keys are not allowed here"
  | .valueNotAllowed => "mapping values are not allowed here"
  | .badDirective => "found a malformed directive"
  | .badName => "expected alphabetic or numeric characters"
  | .badTag => "found a malformed tag"
  | .badBlockHeader => "expected chomping or indentation indicators"
  | .badEscape => "found unknown escape character"
  | .unterminatedScalar => "found unexpected end of stream"
  | .markInScalar => "found unexpected document separator"
  | .nodeExpected => "expected the node content"
  | .blockEndExpected => "expected the end of the block"
  | .separatorExpected => "expected a comma or a closing bracket"
  | .documentExpected => "expected the start of a document"
  | .severalDocuments => "expected a single document in the stream"
  | .unknownHandle => "found undefined tag handle"
  | .repeatedHandle => "duplicate tag handle"
  | .repeatedDirective => "found duplicate directive"
  | .unknownVersion => "found incompatible document"
  | .unknownAlias => "found undefined alias"
  | .repeatedAnchor => "found duplicate anchor"
  | .unknownTag => "could not determine a constructor for the tag"
  | .scalarExpected => "expected a scalar node"
  | .listExpected => "expected a sequence node"
  | .mappingExpected => "expected a mapping node"
  | .collectionAsKey => "found unhashable key"
  | .badBinary => "failed to decode binary data"

/-- A length of time in days and seconds of a day, as far as they are not zero. -/
def spanText (seconds : Int) : String :=
  let days := seconds / 86400
  let rest := seconds % 86400
  let parts := (if days = 0 then [] else [s!"days={days}"]) ++
    (if rest = 0 then [] else [s!"seconds={rest}"])
  "datetime.timedelta(" ++ (if parts.isEmpty then "0" else ", ".intercalate parts) ++ ")"

/-- The wording of a fault of a date or a time of day. -/
def MomentFault.message : MomentFault → String
  | .year n => s!"year {n} is out of range"
  | .month => "month must be in 1..12"
  | .day => "day is out of range for month"
  | .hour => "hour must be in 0..23"
  | .minute => "minute must be in 0..59"
  | .second => "second must be in 0..59"
  | .offset seconds =>
    "offset must be a timedelta strictly between -timedelta(hours=24) and " ++
      "timedelta(hours=24), not " ++ spanText seconds ++ "."
  | .malformed => "'NoneType' object has no attribute 'groupdict'"
  | .mapping => "expected string or bytes-like object, got 'list'"

/-- The greatest code point that can be asked for at all. -/
def greatestCode : Nat := 0x7FFFFFFF

/-- The wording of a fault of a scalar. -/
def ScalarFault.message : ScalarFault → String
  | .codePoint n =>
    if greatestCode < n then "Python int too large to convert to C int"
    else "chr() arg not in range(0x110000)"
  | .whole base text =>
    s!"invalid literal for int() with base {base}: " ++
      String.ofList ((Text.quotedChars text.toList).take 200)
  | .longWhole digits =>
    s!"Exceeds the limit ({Decimal.longestInt} digits) for integer string conversion: " ++
      s!"value has {digits} digits; use sys.set_int_max_str_digits() to increase the limit"
  | .fraction text => "could not convert string to float: " ++ Text.quoted text
  | .manyPlaces => "int too large to convert to float"
  | .emptyNumber => "string index out of range"
  | .truth text => Text.quoted text
  | .moment fault => fault.message

/-- The wording of a fault. -/
def Fault.message : Fault → String
  | .malformed problem => problem.message
  | .scalar fault => fault.message

end RepoSurvey.Yaml
