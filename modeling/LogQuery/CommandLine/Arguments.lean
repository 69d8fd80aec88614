import LogQuery.Text.Start
import LogQuery.Compilation

/-!
# Command-line arguments

The arguments name a subcommand, its query and its options. A long option is written `--name`, with
its value after `=` or in the next argument; short options can be run together, and a value may
follow in the same argument. `--` ends the options. An option or flag may be given once per level,
names are not abbreviated, and a value that starts with `-` has to be joined to its option.
-/

namespace LogQuery.CommandLine

/-- What an option is given along with. -/
inductive Argument where
  | none
  | text
  /-- The name of a file, which is not empty. -/
  | file
  deriving DecidableEq

/-- An option that a level knows. -/
structure OptionSpec where
  name : String
  short : Option Char
  argument : Argument

/-- The options of the program itself. -/
def programOptions : List OptionSpec :=
  [⟨"pretty", some 'p', .none⟩, ⟨"help", some 'h', .none⟩, ⟨"version", some 'V', .none⟩]

/-- The options of every subcommand. -/
def commonOptions : List OptionSpec := [⟨"pretty", some 'p', .none⟩, ⟨"help", some 'h', .none⟩]

/-- The options of the subcommand that translates. -/
def translateOptions : List OptionSpec :=
  commonOptions ++
    [⟨"schema", some 's', .file⟩, ⟨"schema-version", none, .text⟩, ⟨"parameterized", none, .none⟩,
      ⟨"order-field", none, .text⟩]

/-- Why the arguments are not carried out. -/
inductive Stop where
  | help
  | version
  | usage
  deriving DecidableEq

/-- What a level has been given so far. -/
structure Given where
  /-- Options with their values; that of a flag is empty. -/
  options : List (String × String)
  /-- An option whose value is the next argument. -/
  pending : Option OptionSpec
  /-- The argument that is no option. -/
  operand : Option String
  /-- Are the options over? -/
  closed : Bool

namespace Given

def none : Given := ⟨[], .none, .none, false⟩

/-- Was the option or flag given? -/
def has (g : Given) (name : String) : Bool := (g.options.lookup name).isSome

/-- The value of an option. -/
def value? (g : Given) (name : String) : Option String := g.options.lookup name

/-- Takes an option with its value. Asking for help or the version ends everything else. -/
def add (g : Given) (spec : OptionSpec) (value : String) : Except Stop Given :=
  if spec.name = "help" then .error .help
  else if spec.name = "version" then .error .version
  else if g.has spec.name ∨ spec.argument = .file ∧ value = "" then .error .usage
  else .ok { g with options := g.options ++ [(spec.name, value)] }

/-- Waits for the value of an option. -/
def await (g : Given) (spec : OptionSpec) : Except Stop Given :=
  if g.has spec.name then .error .usage else .ok { g with pending := some spec }

/-- Takes an argument that is no option; there is one at most. -/
def addOperand (g : Given) (arg : String) : Except Stop Given :=
  if g.operand.isSome then .error .usage else .ok { g with operand := some arg }

/-- Takes a long option, without its dashes. -/
def long (specs : List OptionSpec) (g : Given) (cs : List Char) : Except Stop Given :=
  let name := cs.takeWhile (· != '=')
  match specs.find? (·.name = String.ofList name) with
  | .none => .error .usage
  | some spec =>
    match spec.argument, cs.dropWhile (· != '=') with
    | .none, [] => g.add spec ""
    | .none, _ => .error .usage
    | _, _ :: value => g.add spec (String.ofList value)
    | _, [] => g.await spec

/-- Takes a run of short options, without its dash. -/
def shorts (specs : List OptionSpec) (g : Given) : List Char → Except Stop Given
  | [] => .ok g
  | c :: rest =>
    match specs.find? (·.short = some c) with
    | .none => .error .usage
    | some spec =>
      if spec.argument = .none then
        match g.add spec "" with
        | .ok g => shorts specs g rest
        | .error stop => .error stop
      else
        match rest with
        | [] => g.await spec
        | '=' :: value => g.add spec (String.ofList value)
        | value => g.add spec (String.ofList value)

/-- Takes an argument of a level without subcommands. -/
def take (specs : List OptionSpec) (g : Given) (arg : String) : Except Stop Given :=
  if g.closed then g.addOperand arg
  else
    match arg.toList, g.pending with
    | ['-', '-'], .none => .ok { g with closed := true }
    | '-' :: '-' :: cs, .none => g.long specs cs
    | '-' :: c :: cs, .none => g.shorts specs (c :: cs)
    | '-' :: _ :: _, some _ => .error .usage
    | _, some spec => { g with pending := .none }.add spec arg
    | _, .none => g.addOperand arg

/-- Takes all arguments of a level without subcommands. -/
def takeAll (specs : List OptionSpec) (g : Given) : List String → Except Stop Given
  | [] => if g.pending.isSome then .error .usage else .ok g
  | arg :: rest =>
    match g.take specs arg with
    | .ok g => takeAll specs g rest
    | .error stop => .error stop

end Given

/-- What the program is asked to do. -/
inductive Command where
  | tokenize (query : String)
  | check (query : String)
  | translate (query : String) (schema : Option String) (options : Options)
  deriving DecidableEq

/-- A command and how its output is written. Without a command the program introduces itself. -/
structure Invocation where
  pretty : Bool
  command : Option Command
  deriving DecidableEq

/-- The variable that names the schema file if no option does. -/
def schemaVariable : String := "LOGCHEFQL_SCHEMA"

/-- The schema file: that of the option, else `fallback`, which is not empty either. -/
def schemaFile (fallback : Option String) (g : Given) : Except Stop (Option String) :=
  match g.value? "schema" <|> fallback with
  | some "" => .error .usage
  | file => .ok file

/-- The command that a subcommand and its arguments stand for. -/
def command (lookup : String → Option String) (name : String) (g : Given) :
    Except Stop Command :=
  match g.operand with
  | some query =>
    if name = "tokenize" then .ok (.tokenize query)
    else if name = "check" then .ok (.check query)
    else
      match schemaFile (lookup schemaVariable) g with
      | .error stop => .error stop
      | .ok schema =>
        .ok (.translate query schema
          ⟨g.value? "schema-version", g.has "parameterized",
            some ((g.value? "order-field").getD defaultOrderField)⟩)
  | none => .error .usage

/-- The options of a subcommand. -/
def subcommand? (name : String) : Option (List OptionSpec) :=
  if name = "tokenize" ∨ name = "check" then some commonOptions
  else if name = "translate" then some translateOptions
  else none

/-- Answers a request for help, in general or on one subcommand, which has to exist. -/
def helpOn (topic : List String) : Stop :=
  match topic with
  | [] => .help
  | [name] => if name = "help" ∨ (subcommand? name).isSome then .help else .usage
  | _ => .usage

/-- Takes the arguments of the program itself, up to the subcommand. -/
def parseFrom (lookup : String → Option String) (g : Given) :
    List String → Except Stop Invocation
  | [] => .ok ⟨g.has "pretty", none⟩
  | arg :: rest =>
    match g.take programOptions arg with
    | .error stop => .error stop
    | .ok g =>
      match g.operand with
      | none => parseFrom lookup g rest
      | some name =>
        if g.closed then .error .usage
        else if name = "help" then .error (helpOn rest)
        else
          match subcommand? name with
          | none => .error .usage
          | some specs =>
            match Given.none.takeAll specs rest with
            | .error stop => .error stop
            | .ok sub =>
              match command lookup name sub with
              | .error stop => .error stop
              | .ok command => .ok ⟨g.has "pretty" || sub.has "pretty", some command⟩

/-- Reads the arguments of the program; `lookup` gives environment variables. -/
def parse (lookup : String → Option String) (args : List String) : Except Stop Invocation :=
  parseFrom lookup .none args

end LogQuery.CommandLine
