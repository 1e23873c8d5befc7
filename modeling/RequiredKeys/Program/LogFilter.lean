import RequiredKeys.Program.Settings
import RequiredKeys.Text.Alphanumeric
import RequiredKeys.Text.Space

/-!
# Which log records are shown

Records are shown if they matter enough.  How much is enough is said by the
settings, or by the text of an environment variable, which goes before them.

The text is a list of directives between commas; an empty one says nothing.  A
directive is a level, or a target, or both as in `TARGET=LEVEL`, where a target
alone asks for everything.  A level without a target is for every program, and a
target is for the programs whose address it begins.  Of the directives for one
program those with the longest target count, and of these the last.  A directive
may also ask, in brackets, for the records inside a span of work; the programs
here open no spans, so it shows nothing of them.

If a directive is malformed the whole text is, and the settings decide.
-/

namespace RequiredKeys

/-- Which records are shown. -/
inductive LogFilter
  | off
  | atLeast (level : LogLevel)
  deriving DecidableEq, Repr, Inhabited

/-- One item of the text that asks for records. -/
inductive LogDirective
  /-- The records of the programs whose address begins with the target. -/
  | records (target : List Char) (filter : LogFilter)
  /-- Records inside spans. -/
  | spans
  deriving DecidableEq, Repr, Inhabited

namespace LogLevel

/-- Levels in the order of their weight. -/
def weight : LogLevel → Nat
  | trace => 0
  | debug => 1
  | info => 2
  | warn => 3
  | error => 4

end LogLevel

namespace LogFilter

def shows (filter : LogFilter) (level : LogLevel) : Bool :=
  match filter with
  | off => false
  | atLeast least => least.weight ≤ level.weight

/-- Every record is shown. -/
def everything : LogFilter := atLeast .trace

/-- The filters by their words. -/
def words : List (String × LogFilter) :=
  ("off", off) :: LogLevel.all.map (fun level => (level.name, atLeast level))

/-- The filters by their numbers, from zero on. -/
def scale : List LogFilter :=
  [off, atLeast .error, atLeast .warn, atLeast .info, atLeast .debug, atLeast .trace]

/-- A filter by its number, which may have a plus sign and zeros in front. -/
def ofNumber? (text : List Char) : Option LogFilter :=
  let digits := match text with
    | '+' :: rest => rest
    | _ => text
  if digits ≠ [] ∧ digits.all Char.isDigit then
    scale[digits.foldl (fun number c => 10 * number + (c.toNat - '0'.toNat)) 0]?
  else none

/-- A filter by its word, in any letter case, or by its number. -/
def ofName? (text : List Char) : Option LogFilter :=
  match ofNumber? text with
  | some filter => some filter
  | none => words.lookup (String.ofList (text.map Char.toLower))

end LogFilter

namespace LogDirective

/-- A target and a level that is left out if it is empty. -/
def targeted? (target level : List Char) : Option LogDirective :=
  if level = [] then some (records target .everything)
  else (LogFilter.ofName? level).map (records target)

/-- A directive of one word: a level, or else a target. -/
def ofWord (word : List Char) : LogDirective :=
  match LogFilter.ofName? word with
  | some filter => records [] filter
  | none => records word .everything

/-- What follows the brackets of a directive that is read behind its opening one.
They hold the name of a span, then possibly a field in braces. -/
def afterBrackets? (text : List Char) : Option (List Char) :=
  match text.dropWhile (fun c => c != ']' && c != '\x7b') with
  | ']' :: rest => some rest
  | '\x7b' :: inner =>
    match inner.span (· != '\x7d') with
    | (_ :: _, '\x7d' :: ']' :: rest) => some rest
    | _ => none
  | _ => none

/-- A directive with brackets, read behind the opening one. -/
def ofBrackets? (text : List Char) : Option LogDirective :=
  match afterBrackets? text with
  | some ('=' :: level) => (targeted? [] level).map (fun _ => spans)
  | some rest => if rest.all Space.contains then some spans else none
  | none => none

/-- Whether a directive may begin with a character. -/
def mayBegin (c : Char) : Bool :=
  ['[', '-', ':', '_'].contains c || Alphanumeric.contains c

/-- A directive by its text.  White space around it does not keep it from being well
formed, but belongs to the word: no level is named by it, and no target is. -/
def ofText? (text : List Char) : Option LogDirective :=
  if !(Space.trim text).head?.any mayBegin then none
  else
    match text.span (fun c => c != '=' && c != '[') with
    | (word, []) => some (ofWord word)
    | (target, mark :: rest) =>
      if text.head?.any Space.contains then none
      else if mark = '=' then targeted? target rest
      else ofBrackets? rest

end LogDirective

namespace LogFilter

/-- The address of this program. -/
def address : List Char := "streamschema::".toList

/-- Takes a directive into account, given the length of the target that has counted so
far and its filter. -/
def consider (found : Nat × LogFilter) (directive : LogDirective) : Nat × LogFilter :=
  match directive with
  | .records target filter =>
    if target.isPrefixOf address && found.1 ≤ target.length then (target.length, filter)
    else found
  | .spans => found

/-- What a list of directives shows of this program. -/
def ofDirectives (directives : List LogDirective) : LogFilter :=
  (directives.foldl consider (0, off)).2

/-- The filter that an environment variable asks for, if its text is well-formed.  One
that says nothing asks for errors. -/
def ofVariable? (text : String) : Option LogFilter :=
  let items := (text.toList.splitOn ',').filter (!·.isEmpty)
  if items = [] then some (atLeast .error)
  else (items.mapM LogDirective.ofText?).map ofDirectives

/-- The variable, if it is set and understood, goes before the settings. -/
def choose (requested : Option String) (settings : Settings) : LogFilter :=
  (requested.bind ofVariable?).getD (atLeast settings.level)

end LogFilter
end RequiredKeys
