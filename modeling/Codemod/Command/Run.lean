import Codemod.Command.Arguments
import Codemod.Edit.Script
import Codemod.Identity
import Codemod.Interchange.Finding
import Codemod.Json.Read
import Codemod.Json.Write
import Codemod.Store.Loader
import Codemod.Store.Persist
/-!
# Commands

The commands of the program, over any way to access files: rules are compiled
from their declarations and stored, stored rules are listed, and a tree is
searched by them or its call sites are migrated. A command prints only once
everything it does has succeeded.
-/

namespace Codemod.Command

/-- Why a command fails. -/
inductive CommandError where
  /-- A text cannot be read. -/
  | reading (path : String)
  | parsingTree (path : String)
  | parsing (path : String)
  | unit (e : UnitError)
  | store (e : StoreError)
  | render (e : RenderError)
  | compose (e : ComposeError)
  deriving DecidableEq, Inhabited

namespace CommandError

/-- What is reported. -/
def message : CommandError → String
  | .reading path => "reading " ++ path
  | .parsingTree path => "parsing tree " ++ path
  | .parsing path => "parsing " ++ path
  | .unit e => e.message
  | .store e => e.message
  | .render e => e.message
  | .compose e => e.message

end CommandError

/-- What a run of the program comes to. -/
structure Outcome where
  code : Nat
  /-- What is printed. -/
  output : String
  /-- What is reported as an error. -/
  error : Option String
  deriving DecidableEq, Inhabited

/-! ## Input -/

/-- The tree, the text its spans point into, and the classes around it. -/
structure Subject where
  tree : Node
  source : String
  oracle : TypeOracle

/-- How deep what is read from files in JSON may nest. -/
def maxNesting : Nat := 127

/-- JSON as it is read from files. -/
def json? (text : String) : Option Json := Json.readWithin? (some maxNesting) text

variable {m : Type → Type} [Monad m] (access : FileAccess m)

/-- The text of a file. -/
def readText (path : String) : ExceptT CommandError m String := do
  let found ← access.readFile path
  match found with
  | .ok bytes =>
    match Text.ofUtf8? bytes with
    | some text => return text
    | none => throw (.reading path)
  | .error _ => throw (.reading path)

/-- The tree that a file holds. -/
def readTree (path : String) : ExceptT CommandError m Node := do
  let text ← readText access path
  match (json? text).bind (Interchange.node? .file) with
  | some tree => return tree
  | none => throw (.parsingTree path)

/-- The classes that a file lists, above those that are known anyway. -/
def readClasses (path : String) : ExceptT CommandError m Hierarchy := do
  let text ← readText access path
  match (json? text).bind (Interchange.list? (Interchange.classEntry? .file)) with
  | some classes => return Interchange.declareAll .javaLang classes
  | none => throw (.parsing path)

/-- What a command works on, as its options say. -/
def readSubject (input : TreeInput) : ExceptT CommandError m Subject := do
  let tree ← readTree access input.tree
  let (tree, source) ← match input.source with
    | some path => do pure (tree, ← readText access path)
    | none => pure (tree.laidOut, tree.print)
  let hierarchy ← match input.classes with
    | some path => readClasses access path
    | none => pure Hierarchy.javaLang
  return ⟨tree, source, hierarchy.oracle⟩

/-- The rules that are stored. -/
def storedRules (config : Config) : ExceptT CommandError m RuleSet := do
  let store : RuleStore m :=
    ⟨.ofDirectory access config.ruleDirectory config.suffixes.all, config.maxReadAttempts⟩
  let loaded ← store.load
  match loaded with
  | .ok rules => return rules
  | .error e => throw (.store e)

/-! ## Output -/

/-- Each text on a line of its own. -/
def lines (ls : List String) : String := String.join (ls.map (· ++ "\n"))

/-- A failure of one part as a failure of the command. -/
def orThrow {ε α : Type} (wrap : ε → CommandError) : Except ε α → ExceptT CommandError m α
  | .ok a => return a
  | .error e => throw (wrap e)

/-- Findings as they are shown: in JSON, or as the text they make and the
imports it needs. -/
def report (input : TreeInput) (source : String) (found : List Finding) :
    Except CommandError String :=
  if input.apply then
    match EditScript.compose found source with
    | .ok script =>
      .ok (lines (script.imports.toList.map fun name => "import " ++ name ++ ";") ++
        script.apply source)
    | .error e => .error (.compose e)
  else .ok (Json.pretty 0 (Interchange.list (Interchange.finding .float) found) ++ "\n")

/-- One line for each rule and each migration pair. -/
def overview (rules : RuleSet) : List String :=
  (rules.rules.map fun r =>
    (if r.isFlagOnly then "flag" else "rule") ++ "\t" ++ r.name ++ "\t" ++
      toString r.before.length ++ " before, " ++ toString r.after.length ++ " after") ++
  (rules.migrations.map fun p =>
    "migration\t" ++ p.name ++ "\t" ++ p.typeFrom.describe ++ " -> " ++ p.typeTo.describe)

/-! ## Commands -/

/-- Adds the rules that the trees at paths declare. -/
def compileAll (config : Config) : RuleSet → List String → ExceptT CommandError m RuleSet
  | rules, [] => return rules
  | rules, path :: rest => do
    let tree ← readTree access path
    let rules ← orThrow .unit (rules.addUnit config.rejectComments tree)
    compileAll config rules rest

/-- Compiles trees, stores all their rules and names them. -/
def compile (config : Config) (units : List String) : ExceptT CommandError m String := do
  let rules ← compileAll access config .empty units
  let persist : m (Except StoreError Nat) :=
    rules.persist access config.ruleDirectory config.suffixes
  let _ ← orThrow .store (← persist)
  return lines rules.names

/-- Lists the stored rules. -/
def list (config : Config) : ExceptT CommandError m String := do
  return lines (overview (← storedRules access config))

/-- Searches a tree by the stored rules. -/
def scan (config : Config) (input : TreeInput) (identity : Bool) :
    ExceptT CommandError m String := do
  let rules ← storedRules access config
  let subject ← readSubject access input
  let found ← orThrow .render
    (Scan.findings ⟨rules.rules, subject.oracle, subject.source, .annotated⟩ subject.tree)
  let unchanged := if identity then
      IdentityCheck.findings ⟨ConversionMethod.standard, subject.oracle, subject.source⟩
        subject.tree
    else []
  orThrow id (report input subject.source (found ++ unchanged))

/-- Migrates the call sites of a tree by the stored pairs. -/
def migrate (config : Config) (input : TreeInput) : ExceptT CommandError m String := do
  let rules ← storedRules access config
  let subject ← readSubject access input
  let found ← orThrow .render
    (CallSiteMigration.findings
      ⟨rules.migrations, subject.oracle, subject.source, config.stubbing⟩ subject.tree)
  orThrow id (report input subject.source found)

/-- Does what is asked for and answers what to print. -/
def perform (i : Invocation) : ExceptT CommandError m String :=
  match i.request with
  | .compile units => compile access i.config units
  | .list => list access i.config
  | .scan input identity => scan access i.config input identity
  | .migrate input => migrate access i.config input

/-- How the program is called. -/
def usage : String :=
  "Usage: refit [--rules DIR] [--attempts N] [--allow-comments] COMMAND\n" ++
  "Commands: compile UNIT..., list,\n" ++
  "  scan TREE [--source FILE] [--classes FILE] [--apply] [--identity],\n" ++
  "  migrate TREE [--source FILE] [--classes FILE] [--apply]\n"

/-- Runs the program on its arguments. -/
def run (args : List String) : m Outcome := do
  match parse args with
  | .error .version => return ⟨0, "refit " ++ version ++ "\n", none⟩
  | .error .help => return ⟨0, usage, none⟩
  | .error .mistake => return ⟨2, "", some usage⟩
  | .ok invocation =>
    match ← (perform access invocation).run with
    | .ok output => return ⟨0, output, none⟩
    | .error e => return ⟨1, "", some ("Error: " ++ e.message ++ "\n")⟩

end Codemod.Command
