import RequiredKeys.Files.Path

/-!
# Command lines

A command line names a command and its options:

* `compile --schema FILE`
* `check --schema FILE [--top-level] [--read-all] [DOCUMENT]`

`--config FILE` may stand before the command or behind it; of two, the one
behind the command holds.  `--version` stands before a command, `--help`
anywhere.

Arguments are read from left to right, and the first that cannot stand where it
stands decides.  An option takes its value from behind an equals sign or from
the next argument, which must then not look like an option; no value is empty.
Nothing is given twice at one place, and names are not abbreviated.  Behind two
dashes everything is a document, whatever it looks like.
-/

namespace RequiredKeys

/-- What a command line asks for. -/
inductive Command
  | compile (schema : Path)
  | check (schema : Path) (topLevel readAll : Bool) (document : Path)
  deriving DecidableEq, Repr, Inhabited

/-- A command with the settings file it names. -/
structure Invocation where
  settings : Option Path
  command : Command
  deriving DecidableEq, Repr, Inhabited

/-- Why no command is run. -/
inductive Refrain
  | version
  | help
  | misuse
  deriving DecidableEq, Repr, Inhabited

namespace Arguments

/-- The shape of one argument. -/
inductive Word
  /-- Two dashes alone. -/
  | escape
  /-- Two dashes, a name, and the text behind an equals sign. -/
  | long (name : String) (value : Option String)
  /-- One dash and letters. -/
  | short (letters : List Char)
  | plain (text : String)
  deriving DecidableEq, Repr, Inhabited

/-- The shape of an argument.  A dash alone is plain. -/
def Word.ofString (argument : String) : Word :=
  match argument.toList with
  | ['-', '-'] => .escape
  | '-' :: '-' :: rest =>
    match rest.dropWhile (· != '=') with
    | [] => .long (String.ofList rest) none
    | _ :: value =>
      .long (String.ofList (rest.takeWhile (· != '='))) (some (String.ofList value))
  | ['-'] => .plain argument
  | '-' :: letters => .short letters
  | _ => .plain argument

/-- What may stand at one place of a command line. -/
structure Grammar where
  /-- Options with a value. -/
  options : List String := []
  /-- Options without one. -/
  flags : List String := []
  /-- How many other arguments may come. -/
  plain : Nat := 0
  /-- Whether the version may be asked for. -/
  version : Bool := false

/-- What was found at one place of a command line. -/
structure Found where
  options : List (String × String) := []
  flags : List String := []
  plain : List String := []
  deriving DecidableEq, Repr, Inhabited

namespace Found

def value? (found : Found) (name : String) : Option String :=
  found.options.lookup name

def has (found : Found) (flag : String) : Bool :=
  found.flags.contains flag

def addOption (grammar : Grammar) (found : Found) (name value : String) : Except Refrain Found :=
  if value.isEmpty || !grammar.options.contains name || (found.value? name).isSome then
    .error .misuse
  else .ok { found with options := found.options ++ [(name, value)] }

def addFlag (grammar : Grammar) (found : Found) (name : String) : Except Refrain Found :=
  if !grammar.flags.contains name || found.has name then .error .misuse
  else .ok { found with flags := found.flags ++ [name] }

def addPlain (grammar : Grammar) (found : Found) (text : String) : Except Refrain Found :=
  if text.isEmpty || grammar.plain ≤ found.plain.length then .error .misuse
  else .ok { found with plain := found.plain ++ [text] }

end Found

/-- What a cluster of letters asks for; only its first letter can count. -/
def ofLetters (grammar : Grammar) : List Char → Refrain
  | 'h' :: _ => .help
  | 'V' :: _ => if grammar.version then .version else .misuse
  | _ => .misuse

/-- What a name without a value asks for, if it is no flag. -/
def ofBareName? (grammar : Grammar) (name : String) : Option Refrain :=
  if name = "help" then some .help
  else if name = "version" ∧ grammar.version then some .version
  else none

/-- Reads the options in front of a command; gives the command and what follows. -/
def leading (grammar : Grammar) (found : Found) :
    List String → Except Refrain (Found × String × List String)
  | [] => .error .misuse
  | argument :: rest =>
    match Word.ofString argument with
    | .escape => .error .misuse
    | .plain text => .ok (found, text, rest)
    | .short letters => .error (ofLetters grammar letters)
    | .long name (some value) => do leading grammar (← found.addOption grammar name value) rest
    | .long name none =>
      match ofBareName? grammar name with
      | some refrain => .error refrain
      | none =>
        match rest with
        | [] => .error .misuse
        | next :: rest =>
          match Word.ofString next with
          | .plain value => do leading grammar (← found.addOption grammar name value) rest
          | _ => .error .misuse

/-- Takes arguments that cannot be options. -/
def trailing (grammar : Grammar) (found : Found) (arguments : List String) :
    Except Refrain Found :=
  arguments.foldlM (Found.addPlain grammar) found

/-- Reads the arguments of a command. -/
def collect (grammar : Grammar) (found : Found) : List String → Except Refrain Found
  | [] => .ok found
  | argument :: rest =>
    match Word.ofString argument with
    | .escape => trailing grammar found rest
    | .plain text => do collect grammar (← found.addPlain grammar text) rest
    | .short letters => .error (ofLetters grammar letters)
    | .long name (some value) => do collect grammar (← found.addOption grammar name value) rest
    | .long name none =>
      match ofBareName? grammar name with
      | some refrain => .error refrain
      | none =>
        if grammar.options.contains name then
          match rest with
          | [] => .error .misuse
          | next :: rest =>
            match Word.ofString next with
            | .plain value => do collect grammar (← found.addOption grammar name value) rest
            | _ => .error .misuse
        else do collect grammar (← found.addFlag grammar name) rest

/-- What may stand in front of a command. -/
def leadingGrammar : Grammar where
  options := ["config"]
  version := true

def compileGrammar : Grammar where
  options := ["schema", "config"]

def checkGrammar : Grammar where
  options := ["schema", "config"]
  flags := ["top-level", "read-all"]
  plain := 1

/-- The document that stands for standard input. -/
def standardInput : String := "-"

/-- Whether a document is standard input. -/
def isStandardInput (document : Path) : Bool :=
  document.isName (FileName.ofString standardInput)

def schemaOf (found : Found) : Except Refrain Path :=
  match found.value? "schema" with
  | some schema => .ok (Path.ofString schema)
  | none => .error .misuse

/-- The settings file named behind the command, or else the one in front of it. -/
def settingsOf (before behind : Found) : Option Path :=
  ((behind.value? "config").or (before.value? "config")).map Path.ofString

def parseCompile (before : Found) (arguments : List String) : Except Refrain Invocation := do
  let found ← collect compileGrammar {} arguments
  return ⟨settingsOf before found, .compile (← schemaOf found)⟩

def parseCheck (before : Found) (arguments : List String) : Except Refrain Invocation := do
  let found ← collect checkGrammar {} arguments
  let document := found.plain.head?.getD standardInput
  return ⟨settingsOf before found,
    .check (← schemaOf found) (found.has "top-level") (found.has "read-all")
      (Path.ofString document)⟩

/-- What is asked for by the word `help` with names of commands behind it. -/
def helpTopic : List String → Refrain
  | [] => .help
  | [name] => if ["compile", "check", "help"].contains name then .help else .misuse
  | _ => .misuse

/-- Reads a command line. -/
def parse (arguments : List String) : Except Refrain Invocation := do
  let (before, command, rest) ← leading leadingGrammar {} arguments
  match command with
  | "compile" => parseCompile before rest
  | "check" => parseCheck before rest
  | "help" => .error (helpTopic rest)
  | _ => .error .misuse

end Arguments
end RequiredKeys
