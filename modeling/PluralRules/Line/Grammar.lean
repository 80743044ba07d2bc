import PluralRules.Line.Basic
import PluralRules.Phrase.Grammar

/-!
# The grammar of lines

A line is made of brackets with entries, a case with its condition, and lists of samples, in this
order:

    [Culture=en, Category=cardinal] one: i = 1 and v = 0 @integer 1

Each part may be missing, but samples need a case, and a line without a case needs brackets. A line
that cannot be read is reported at the first character that no part could take.
-/

namespace PluralRules

namespace Grammar

open Reader

/-- The value of an entry: all up to the next comma or bracket, less the blanks at its end. -/
def entryValue (s : List Char) : Excerpt × List Char :=
  let run := s.takeWhile fun c => c != ',' && c != ']'
  let text := Text.trimEnd run
  (⟨text, s.drop text.length⟩, s.drop run.length)

/-- A key, an equals sign and a value. -/
def entry : Reader Entry := fun s => do
  let ((key, ()), s) ← pair (runOf isNameChar) (char '=') s
  let (value, s) := entryValue (Text.skipBlanks s)
  some (⟨key, value⟩, s)

def brackets : Reader (List Entry) :=
  map (fun (first, more) => first :: more) (between '[' ']' (commaSeparated entry))

def isCaseChar (c : Char) : Bool := isNameChar c || c == '-'

def caseName : Reader Excerpt := excerptOf fun s => do
  let (_, s) ← satisfying Char.isAlpha s
  some ((), s.dropWhile isCaseChar)

/-- A condition with the stretch that it stands in. -/
def writtenCondition : Reader WrittenCondition := fun s => do
  let (phrase, rest) ← conditionReader s
  some (⟨.before s rest, phrase⟩, rest)

/-- The name of a case, a colon that may be missing, and the conditions. -/
def caseSegment : Reader CaseSegment := fun s => do
  let (name, s) ← caseName s
  let (_, s) := optional (skipping (char ':')) s
  let (conditions, s) := many (skipping writtenCondition) s
  some (⟨name, conditions⟩, s)

def isSampleChar (c : Char) : Bool := c != ',' && c != '@' && !Text.isBlank c

def sampleValues : Reader (List Excerpt) :=
  map (fun (first, more) => first :: more) (commaSeparated (runOf isSampleChar))

/-- The name of a list of samples after its mark, and the samples. -/
def sampleSegment : Reader SampleSegment := fun s => do
  let ((), s) ← char '@' s
  let (name, s) ← runOf isNameChar s
  let (values, s) := optional (skipping sampleValues) s
  some (⟨name, values.getD []⟩, s)

end Grammar

namespace Line

open Reader

/-- The longest line at the front of a text, and what remains of the text. -/
def parts (s : List Char) : Line × List Char :=
  let (info, s) := optional Grammar.brackets (Text.skipBlanks s)
  let (case, s) := optional Grammar.caseSegment (Text.skipBlanks s)
  let (samples, s) := many (skipping Grammar.sampleSegment) s
  (⟨info, case, samples⟩, Text.skipBlanks s)

/-- Whether the parts belong together. -/
def isComplete (line : Line) : Bool :=
  line.case.isSome || (line.info.isSome && line.samples.isEmpty)

/-- Read a whole line. If that fails, the error is the text that could not be read. -/
def read (s : List Char) : Except (List Char) Line :=
  let (line, rest) := parts s
  if line.isComplete && rest.isEmpty then .ok line else .error rest

end Line

end PluralRules
