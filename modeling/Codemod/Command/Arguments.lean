import Codemod.Config
/-!
# Command line arguments

Arguments are options, which begin with two strokes, the name of a command,
and what the command is about. Options that all commands know may stand before
the command too; there the command's own override them. An option stands once
in either place, its value after an equals sign or in the next argument, and
two strokes alone end the options. The word `help` in place of a command takes
all arguments after it for the name of a command.
-/

namespace Codemod.Command

/-- The commands of the program. -/
inductive Subcommand where
  | compile
  | list
  | scan
  | migrate
  deriving DecidableEq, Inhabited

/-- The options that stand for themselves or take a value. -/
inductive Opt where
  /-- Where rules are stored. -/
  | rules
  /-- How often a file is read at most. -/
  | attempts
  /-- Compiled rules may apply to code with comments. -/
  | allowComments
  /-- The text that spans point into. -/
  | source
  /-- Where classes to know of are listed. -/
  | classes
  /-- Show the text with all fixes applied. -/
  | apply
  /-- Look for conversions that change nothing too. -/
  | identity
  deriving DecidableEq, Inhabited

/-- The tree that a command works on, and how. -/
structure TreeInput where
  tree : String
  /-- The text that its spans point into; by default its print. -/
  source : Option String
  /-- Classes to know of. -/
  classes : Option String
  /-- The text is shown with all fixes applied, instead of the findings. -/
  apply : Bool
  deriving DecidableEq, Inhabited

/-- What is asked for. -/
inductive Request where
  | compile (units : List String)
  | list
  | scan (input : TreeInput) (identity : Bool)
  | migrate (input : TreeInput)
  deriving DecidableEq, Inhabited

/-- A request, and the settings that go with it. -/
structure Invocation where
  config : Config
  request : Request
  deriving DecidableEq, Inhabited

/-- Why arguments ask for no command. -/
inductive Refusal where
  | version
  | help
  /-- They are not understood. -/
  | mistake
  deriving DecidableEq, Inhabited

/-! ## Names -/

/-- The command of a name. -/
def subcommand? : String → Option Subcommand
  | "compile" => some .compile
  | "list" => some .list
  | "scan" => some .scan
  | "migrate" => some .migrate
  | _ => none

/-- Help on what arguments name: the program, one of its commands, or help
itself. -/
def helpOn : List String → Refusal
  | [] => .help
  | [topic] => if topic = "help" || (subcommand? topic).isSome then .help else .mistake
  | _ => .mistake

namespace Opt

/-- The option of a name. -/
def ofName? : String → Option Opt
  | "rules" => some .rules
  | "attempts" => some .attempts
  | "allow-comments" => some .allowComments
  | "source" => some .source
  | "classes" => some .classes
  | "apply" => some .apply
  | "identity" => some .identity
  | _ => none

/-- The option is followed by a value. -/
def takesValue : Opt → Bool
  | .rules | .attempts | .source | .classes => true
  | .allowComments | .apply | .identity => false

/-- The option may stand among those of a command, or before it. -/
def isKnownTo (o : Opt) (command : Option Subcommand) : Bool :=
  match o, command with
  | .rules, _ | .attempts, _ | .allowComments, _ => true
  | .source, some .scan | .source, some .migrate => true
  | .classes, some .scan | .classes, some .migrate => true
  | .apply, some .scan | .apply, some .migrate => true
  | .identity, some .scan => true
  | _, _ => false

end Opt

/-- A number of sixty-four bits without sign, which may have a plus. -/
def number? (text : String) : Option Nat :=
  let digits := match text.toList with
    | '+' :: digits => digits
    | digits => digits
  if digits.isEmpty || !digits.all (fun c => '0' ≤ c && c ≤ '9') then none
  else
    let n := digits.foldl (fun n c => 10 * n + (c.toNat - '0'.toNat)) 0
    if n < twoPow 64 then some n else none

/-! ## Reading arguments -/

/-- Options with their values; one that takes none has the empty text. -/
abbrev Options := List (Opt × String)

/-- The arguments so far. -/
structure Arguments where
  command : Option Subcommand
  /-- The options before the command. -/
  outer : Options
  /-- The options of the command, or of none as long as there is none. -/
  inner : Options
  /-- What is no option, in order. -/
  operands : List String
  /-- The option whose value comes next. -/
  awaiting : Option Opt
  /-- No more options follow. -/
  optionsEnded : Bool

namespace Arguments

/-- No argument has been taken yet. -/
def none : Arguments := ⟨.none, [], [], [], .none, false⟩

variable (a : Arguments)

/-- Takes an option with its value. -/
def give (o : Opt) (value : String) : Except Refusal Arguments :=
  if (a.inner.lookup o).isSome || (o == .attempts && (number? value).isNone) then .error .mistake
  else .ok { a with inner := a.inner ++ [(o, value)], awaiting := .none }

/-- Takes what is no option: the name of a command, or what the command is
about. -/
def operand (arg : String) : Except Refusal Arguments :=
  match a.command with
  | .none =>
    if a.optionsEnded then .error .mistake
    else
      match subcommand? arg with
      | some c => .ok { a with command := some c, outer := a.inner, inner := [] }
      | .none => .error .mistake
  | some .compile => .ok { a with operands := a.operands ++ [arg] }
  | some .list => .error .mistake
  | some .scan | some .migrate =>
    if a.operands.isEmpty then .ok { a with operands := [arg] } else .error .mistake

/-- Takes an option by its name, with the value after the equals sign. -/
def long (name : String) (value : Option String) : Except Refusal Arguments :=
  match Opt.ofName? name, value with
  | some o, value =>
    if !o.isKnownTo a.command then .error .mistake
    else
      match o.takesValue, value with
      | true, some value => a.give o value
      | true, .none => .ok { a with awaiting := some o }
      | false, some _ => .error .mistake
      | false, .none => a.give o ""
  | .none, some _ => .error .mistake
  | .none, .none =>
    if name = "help" then .error .help
    else if name = "version" && a.command.isNone then .error .version
    else .error .mistake

/-- What options of one letter ask for. -/
def short (letter : Char) : Refusal :=
  if letter = 'h' then .help
  else if letter = 'V' && a.command.isNone then .version
  else .mistake

/-- Takes one argument. -/
def step (arg : String) : Except Refusal Arguments :=
  if a.optionsEnded then a.operand arg
  else
    match a.awaiting, arg.toList with
    | .none, ['-', '-'] => .ok { a with optionsEnded := true }
    | .none, '-' :: '-' :: cs =>
      let name := String.ofList (cs.takeWhile (· != '='))
      match cs.dropWhile (· != '=') with
      | [] => a.long name .none
      | _ :: value => a.long name (some (String.ofList value))
    | .none, '-' :: letter :: _ => .error (a.short letter)
    | .none, _ => a.operand arg
    | some _, '-' :: _ :: _ => .error .mistake
    | some o, _ => a.give o arg

/-- The argument asks for help, and the rest says what about. -/
def asksForHelp (arg : String) : Bool :=
  arg == "help" && a.command.isNone && a.awaiting.isNone && !a.optionsEnded

/-- Takes all arguments. -/
def takeAll (a : Arguments) : List String → Except Refusal Arguments
  | [] => .ok a
  | arg :: rest =>
    if a.asksForHelp arg then .error (helpOn rest)
    else do takeAll (← a.step arg) rest

/-- What the command is told by its options. -/
def treeInput (tree : String) : TreeInput where
  tree := tree
  source := a.inner.lookup .source
  classes := a.inner.lookup .classes
  apply := (a.inner.lookup .apply).isSome

/-- What all arguments ask for. -/
def request : Except Refusal Request :=
  match a.command, a.operands with
  | some .compile, unit :: units => .ok (.compile (unit :: units))
  | some .list, [] => .ok .list
  | some .scan, [tree] => .ok (.scan (a.treeInput tree) (a.inner.lookup .identity).isSome)
  | some .migrate, [tree] => .ok (.migrate (a.treeInput tree))
  | _, _ => .error .mistake

/-- An option that all commands know; the command's own counts. -/
def shared (o : Opt) : Option String := (a.inner.lookup o).or (a.outer.lookup o)

/-- The settings that the options ask for. -/
def config : Config :=
  { Config.standard with
    ruleDirectory := (a.shared .rules).getD Config.standard.ruleDirectory
    maxReadAttempts :=
      ((a.shared .attempts).bind number?).getD Config.standard.maxReadAttempts
    rejectComments := (a.shared .allowComments).isNone }

end Arguments

/-- What arguments ask for. -/
def parse (args : List String) : Except Refusal Invocation := do
  let a ← Arguments.none.takeAll args
  if a.awaiting.isSome then .error .mistake
  else return ⟨a.config, ← a.request⟩

end Codemod.Command
