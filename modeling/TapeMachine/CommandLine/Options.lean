import TapeMachine.Level
import TapeMachine.Text.Numeral

/-!
# Options of the command line

Arguments are sorted into options and values, and then read from left to right. A double dash
makes everything behind it a value. The program and its arguments are the first values that
stand together. Values apart from them and unknown options are left over, which is a mistake
unless an earlier one, or a request for help, comes first. All words are texts: none has a lone
surrogate in it.
-/
namespace TapeMachine.CommandLine

/-- An option that takes a text. -/
inductive Setting where
  | file
  | level
  deriving DecidableEq

/-- An option that is on when it is given. -/
inductive Switch where
  | dump
  | stats
  | verbose
  deriving DecidableEq

inductive Flag where
  | help
  | setting (s : Setting)
  | switch (s : Switch)
  deriving DecidableEq

namespace Flag

def all : List Flag :=
  [help, setting .file, setting .level, switch .dump, switch .stats, switch .verbose]

def longName : Flag → String
  | help => "--help"
  | setting .file => "--file"
  | setting .level => "--level"
  | switch .dump => "--dump"
  | switch .stats => "--stats"
  | switch .verbose => "--verbose"

/-- The names a flag goes by in a message. -/
def names : Flag → String
  | help => "-h/--help"
  | flag => flag.longName

/-- The flag with exactly this name. -/
def named? (name : List Char) : Option Flag :=
  if name = ['-', 'h'] then some help else all.find? fun flag => flag.longName.toList = name

end Flag

/-- The text that comes with an option in one argument. -/
inductive Attached where
  | nothing
  /-- Text behind an equals sign. -/
  | equal (text : List Char)
  /-- Text right behind the name of a short option. -/
  | joined (text : List Char)

/-- An argument as it is sorted. -/
inductive Sorted where
  | value (text : String)
  | separator
  | option (flag : Flag) (attached : Attached)
  | unknown (text : String)

/-- A text split at its first equals sign. -/
def splitEquals (cs : List Char) : List Char × Attached :=
  match cs.dropWhile (· != '=') with
  | _ :: rest => (cs.takeWhile (· != '='), .equal rest)
  | [] => (cs, .nothing)

/-- Whether a text is digits, or a point among digits with one at least behind it, with a line feed
at the end allowed. Digits of all scripts count. -/
def isUnsignedNumber (cs : List Char) : Bool :=
  let isDigit c := (Text.digit? c).isSome
  let isEnd rest := rest = [] || rest = ['\n']
  match cs.dropWhile isDigit with
  | '.' :: part => (part.head?.any isDigit) && isEnd (part.dropWhile isDigit)
  | rest => (cs.head?.any isDigit) && isEnd rest

/-- The flags an argument may be an abbreviation of, and the text attached to it. -/
def candidates : List Char → List Flag × Attached
  | '-' :: '-' :: cs =>
    let (name, attached) := splitEquals ('-' :: '-' :: cs)
    (Flag.all.filter fun flag => name.isPrefixOf flag.longName.toList, attached)
  | '-' :: 'h' :: cs => ([.help], .joined cs)
  | _ => ([], .nothing)

/-- Sorts an argument that starts with a dash but is no option by name or abbreviation. -/
def sortOther (argument : String) : Sorted :=
  if isUnsignedNumber (argument.toList.drop 1) || argument.toList.contains ' ' then .value argument
  else .unknown argument

/-- Sorts an argument that starts with a dash, or says which options it could be. -/
def sortDashed (argument : String) : Except String Sorted :=
  let cs := argument.toList
  let (name, attached) := splitEquals cs
  match Flag.named? cs, Flag.named? name with
  | some flag, _ => .ok (.option flag .nothing)
  | none, some flag => .ok (.option flag attached)
  | none, none =>
    match candidates cs with
    | ([], _) => .ok (sortOther argument)
    | ([flag], attached) => .ok (.option flag attached)
    | (flags, _) => .error ("ambiguous option: " ++ argument ++ " could match " ++
        ", ".intercalate (flags.map Flag.longName))

/-- Sorts one argument in front of the separator. -/
def sortOne (argument : String) : Except String Sorted :=
  match argument.toList with
  | '-' :: _ :: _ => sortDashed argument
  | _ => .ok (.value argument)

def sort : List String → Except String (List Sorted)
  | [] => .ok []
  | argument :: rest =>
    if argument = "--" then .ok (.separator :: rest.map .value)
    else do
      let one ← sortOne argument
      return one :: (← sort rest)

/-- What the options ask for. -/
structure Options where
  /-- The file with the program. -/
  file : Option String
  level : Int
  dump : Bool
  stats : Bool
  verbose : Bool
  /-- The program, unless it is in a file, and its arguments. -/
  items : List String

def Options.standard : Options :=
  ⟨none, Level.standard.toNat, false, false, false, []⟩

/-- What a command line comes to. -/
inductive Verdict where
  | options (o : Options)
  | help
  | mistake (text : String)

/-- Where the values stand that are taken for the program and its arguments. -/
inductive Place where
  | before
  | among
  | behind
  deriving DecidableEq

/-- A command line as far as it has been read. -/
structure Reader where
  options : Options
  place : Place
  /-- Arguments left over, the last one first. -/
  extras : List String

namespace Reader

def start : Reader := ⟨.standard, .before, []⟩

/-- Takes a value for the program or an argument of it, or leaves it over. -/
def value (r : Reader) (text : String) : Reader :=
  if r.place = .behind then { r with extras := text :: r.extras }
  else { r with place := .among, options.items := r.options.items ++ [text] }

/-- The separator is dropped among the values taken, and left over behind them. -/
def separator (r : Reader) : Reader :=
  if r.place = .behind then { r with extras := "--" :: r.extras } else { r with place := .among }

/-- An option ends the values that stand together. -/
def endValues (r : Reader) : Reader :=
  if r.place = .among then { r with place := .behind } else r

def unknown (r : Reader) (text : String) : Reader :=
  { r.endValues with extras := text :: r.extras }

/-- Gives a setting its text. -/
def store (r : Reader) (setting : Setting) (text : String) : Except Verdict Reader :=
  let r := r.endValues
  match setting with
  | .file => .ok { r with options.file := some text }
  | .level =>
    match Text.readNumeral text with
    | .ok n => .ok { r with options.level := n }
    | .error _ => .error (.mistake ("argument --level: invalid int value: " ++ Text.quoted text))

def turnOn (r : Reader) (switch : Switch) : Reader :=
  let r := r.endValues
  match switch with
  | .dump => { r with options.dump := true }
  | .stats => { r with options.stats := true }
  | .verbose => { r with options.verbose := true }

def ignored (flag : Flag) (text : List Char) : Verdict :=
  .mistake ("argument " ++ flag.names ++ ": ignored explicit argument " ++
    Text.quoted (String.ofList text))

/-- What comes of text joined to the short name of help: it is read as further short names, the
first unknown one ending it, and must be neither an option nor assigned. -/
def joinedToHelp : List Char → Verdict
  | [] => .help
  | 'h' :: '=' :: text => ignored .help text
  | 'h' :: text => joinedToHelp text
  | '-' :: text => ignored .help ('-' :: text)
  | _ => .help

/-- Reads the arguments from left to right. -/
def read : Reader → List Sorted → Except Verdict Reader
  | r, [] => .ok r
  | r, .value text :: rest => read (r.value text) rest
  | r, .separator :: rest => read r.separator rest
  | r, .unknown text :: rest => read (r.unknown text) rest
  | r, .option flag attached :: rest =>
    match flag, attached with
    | .setting s, .nothing =>
      match rest with
      | .value text :: rest => do read (← r.store s text) rest
      | _ => .error (.mistake ("argument " ++ flag.names ++ ": expected one argument"))
    | .setting s, .equal text => do read (← r.store s (String.ofList text)) rest
    | .setting s, .joined text => do read (← r.store s (String.ofList text)) rest
    | .switch s, .nothing => read (r.turnOn s) rest
    | .help, .nothing => .error .help
    | _, .equal text => .error (ignored flag text)
    | _, .joined text => .error (joinedToHelp text)

/-- The verdict once all arguments are read. -/
def verdict (r : Reader) : Verdict :=
  if r.extras.isEmpty then .options r.options
  else .mistake ("unrecognized arguments: " ++ " ".intercalate r.extras.reverse)

end Reader

/-- What a command line comes to. -/
def parse (arguments : List String) : Verdict :=
  match sort arguments with
  | .error text => .mistake text
  | .ok sorted =>
    match Reader.start.read sorted with
    | .error verdict => verdict
    | .ok r => r.verdict

end TapeMachine.CommandLine
