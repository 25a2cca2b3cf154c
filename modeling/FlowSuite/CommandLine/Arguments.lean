import FlowSuite.Document.Workflow

/-!
# Arguments

A command is named by the first argument that is no option. An option begins with two hyphens and its name, or with one
hyphen and a letter; letters may stand together. A value follows as the next argument, or after an equals sign, or
right behind a letter. Behind two hyphens alone every argument is an operand. No option comes twice.
-/

namespace FlowSuite

/-- What is to be done. -/
inductive Command where
  | generate (input output : String) (apiKeyEnv serverUrl : Option String)
  | expr (text : String) (isPretty : Bool)
  | condition (text : String) (kind : CriterionKind) (isPretty : Bool)
deriving DecidableEq, Repr

/-- Why arguments name no command. -/
inductive UsageStop where
  /-- They ask how to name one. -/
  | help
  | misuse
deriving DecidableEq, Repr

/-- An option of a command. -/
structure Switch where
  name : String
  letter : Option Char
  takesValue : Bool
deriving DecidableEq, Repr

/-- An option that is given, with its value if it takes one. -/
abbrev Given := Switch × String

namespace Switch

/-- Says more about what is done; goes with every command. -/
def verbose : Switch := ⟨"verbose", some 'v', false⟩

def pretty : Switch := ⟨"pretty", some 'p', false⟩

def criterionType : Switch := ⟨"type", some 't', true⟩

def apiKeyEnv : Switch := ⟨"api-key-env", none, true⟩

def serverUrl : Switch := ⟨"server-url", none, true⟩

/-- Asks for help, whatever the command. -/
def help : Switch := ⟨"help", some 'h', false⟩

/-- An option among those that a command takes. -/
def find (takes : Switch → Bool) (switches : List Switch) : Except UsageStop Switch :=
  if takes help then .error .help
  else
    match switches.find? takes with
    | some s => .ok s
    | none => .error .misuse

/-- The option behind two hyphens; where its value is still to come, the option is pending. -/
def readName (switches : List Switch) (text : List Char) : Except UsageStop (List Given × Option Switch) := do
  let name := String.ofList (text.takeWhile (· ≠ '='))
  let s ← find (fun s => s.name = name) switches
  match s.takesValue, text.dropWhile (· ≠ '=') with
  | false, [] => return ([(s, "")], none)
  | false, _ => .error .misuse
  | true, [] => return ([], some s)
  | true, _ :: value => return ([(s, String.ofList value)], none)

/-- The options behind one hyphen. -/
def readLetters (switches : List Switch) : List Char → Except UsageStop (List Given × Option Switch)
  | [] => .ok ([], none)
  | c :: cs => do
    let s ← find (fun s => s.letter = some c) switches
    if s.takesValue then
      match cs with
      | [] => return ([], some s)
      | '=' :: value => return ([(s, String.ofList value)], none)
      | value => return ([(s, String.ofList value)], none)
    else
      let (given, pending) ← readLetters switches cs
      return ((s, "") :: given, pending)

end Switch

namespace Arguments

/-- Has the form of an option. -/
def isOptionLike (arg : String) : Bool :=
  match arg.toList with
  | '-' :: _ :: _ => true
  | _ => false

/-- The options of an argument that has the form of one. -/
def readOptions (switches : List Switch) (arg : String) : Except UsageStop (List Given × Option Switch) :=
  match arg.toList with
  | '-' :: '-' :: text => Switch.readName switches text
  | text => Switch.readLetters switches (text.drop 1)

/-- The options and the operands in arguments, the first of which may be the value of an option before. -/
def readAll (switches : List Switch) : (pending : Option Switch) → List String →
    Except UsageStop (List Given × List String)
  | none, [] => .ok ([], [])
  | some _, [] => .error .misuse
  | some s, arg :: args =>
    if isOptionLike arg then .error .misuse
    else do
      let (given, operands) ← readAll switches none args
      return ((s, arg) :: given, operands)
  | none, arg :: args =>
    if arg = "--" then .ok ([], args)
    else if isOptionLike arg then do
      let (given, pending) ← readOptions switches arg
      let (more, operands) ← readAll switches pending args
      return (given ++ more, operands)
    else do
      let (given, operands) ← readAll switches none args
      return (given, arg :: operands)

/-- The name of the command, the options before it, and the arguments behind it. -/
def readName : List String → Except UsageStop (List Given × String × List String)
  | [] => .error .misuse
  | arg :: args =>
    if arg = "--" then .error .misuse
    else if isOptionLike arg then do
      let (given, _) ← readOptions [.verbose] arg
      let (more, name, args) ← readName args
      return (given ++ more, name, args)
    else .ok ([], arg, args)

/-- No option comes twice. -/
def checkOnce (given : List Given) : Except UsageStop Unit :=
  if (given.map Prod.fst).Nodup then .ok () else .error .misuse

/-- The value of an option that is given. -/
def givenValue? (s : Switch) (given : List Given) : Option String := (given.find? (·.1 = s)).map Prod.snd

/-- An option is given. -/
def isGiven (s : Switch) (given : List Given) : Bool := (givenValue? s given).isSome

/-- The kind of criterion that an option names, simple where none does. -/
def givenKind (given : List Given) : Except UsageStop CriterionKind :=
  match givenValue? .criterionType given with
  | none => .ok .simple
  | some name =>
    match CriterionKind.all.find? (·.name = name) with
    | some kind => .ok kind
    | none => .error .misuse

end Arguments

namespace Command

open Arguments

/-- The options and operands of a command. -/
def readRest (switches : List Switch) (args : List String) : Except UsageStop (List Given × List String) := do
  let (given, operands) ← readAll (switches ++ [.verbose]) none args
  checkOnce given
  return (given, operands)

/-- The command that arguments name. -/
def ofArguments (args : List String) : Except UsageStop Command := do
  let (given, name, args) ← readName args
  checkOnce given
  match name with
  | "generate" =>
    match ← readRest [.apiKeyEnv, .serverUrl] args with
    | (given, [input, output]) =>
      if input.isEmpty ∨ output.isEmpty then .error .misuse
      else return .generate input output (givenValue? .apiKeyEnv given) (givenValue? .serverUrl given)
    | _ => .error .misuse
  | "expr" =>
    match ← readRest [.pretty] args with
    | (given, [text]) => return .expr text (isGiven .pretty given)
    | _ => .error .misuse
  | "condition" =>
    match ← readRest [.criterionType, .pretty] args with
    | (given, [text]) => return .condition text (← givenKind given) (isGiven .pretty given)
    | _ => .error .misuse
  | "help" => .error .help
  | _ => .error .misuse

end Command

end FlowSuite
