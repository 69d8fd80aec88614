import LogQuery.CommandLine.Arguments
import LogQuery.CommandLine.Environment
import LogQuery.Json.Results
import LogQuery.Json.SchemaText

/-!
# The command-line program

What the program prints and how it ends, as a function of its arguments, the environment and the
files that it may read.
-/

namespace LogQuery.CommandLine

/-- How a run of the program ends. -/
structure Result where
  exitCode : Nat
  output : String
  /-- What went wrong, in words. -/
  error : Option String
  deriving DecidableEq

namespace Result

def success (output : String) : Result := ⟨0, output, none⟩

def failure (output message : String) : Result := ⟨1, output, some message⟩

end Result

/-- What the program prints without a command. -/
def banner : String := "LogChefQL CLI v0.1.0\nUse --help for usage information\n"

def versionText : String := "lcql 0.1.0\n"

def helpText : String :=
  "Usage: lcql [OPTIONS] [COMMAND]\n\n" ++
  "Commands:\n" ++
  "  tokenize <QUERY>   Print the token stream of a query\n" ++
  "  check <QUERY>      Report diagnostics for a query; exits non-zero on errors\n" ++
  "  translate <QUERY>  Translate a query to a SQL condition and SELECT list\n\n" ++
  "Options:\n" ++
  "  -p, --pretty                   Pretty-print JSON output\n" ++
  "  -h, --help                     Print help\n" ++
  "  -V, --version                  Print version\n\n" ++
  "Options of translate:\n" ++
  "  -s, --schema <SCHEMA>          JSON file with the table columns\n" ++
  "      --schema-version <VERSION> Schema version tag used to scope cached results\n" ++
  "      --parameterized            Emit ? placeholders and a separate parameter list\n" ++
  "      --order-field <FIELD>      Column placed first in the SELECT list\n"

/-- A JSON value on lines of its own. -/
def print (pretty : Bool) (j : Json) : String := (if pretty then j.pretty else j.compact) ++ "\n"

/-- The tokens of a query and its lexical faults, with all names in order. -/
def tokenizeReport (query : String) : Json :=
  let t := LogQuery.tokenize query
  Json.sorted <| .object [("tokens", .ofList Token.toJson t.tokens),
    ("diagnostics", .ofList Diagnostic.toJson t.diagnostics)]

/-- Prints the faults of a query; blocking ones make the program fail. -/
def check (pretty : Bool) (query : String) : Result :=
  let diagnostics := validate query
  let valid := !diagnostics.any Diagnostic.isError
  let output := print pretty <| .object [("valid", .bool valid),
    ("diagnostics", .ofList Diagnostic.toJson diagnostics)]
  if valid then .success output
  else .failure output ("query has " ++ Nat.repr diagnostics.length ++ " error(s)")

/-- The schema in a file, or what is wrong with the file. -/
def loadSchema (readFile : String → Option String) (file : String) : Except String Schema :=
  match readFile file with
  | none => .error ("Failed to read schema file " ++ file)
  | some text =>
    match Schema.ofText text with
    | .error _ => .error ("Invalid schema file " ++ file)
    | .ok schema => .ok schema

/-- The schema in the file, if one is given. -/
def schemaOf (readFile : String → Option String) : Option String → Except String (Option Schema)
  | none => .ok none
  | some file => (loadSchema readFile file).map some

/-- Prints what a query is compiled to; the cache is empty, so nothing is taken from it. -/
def translate (lookup readFile : String → Option String) (pretty : Bool) (query : String)
    (file : Option String) (options : Options) : Result :=
  match Settings.load lookup with
  | .error _ => .failure "" "Failed to load cache configuration"
  | .ok settings =>
    match schemaOf readFile file with
    | .error message => .failure "" message
    | .ok schema =>
      let (c, _) := compileText schema options query 0 0 settings.newCache
      .success (print pretty c.toJson)

/-- Carries out a command. -/
def execute (lookup readFile : String → Option String) (i : Invocation) : Result :=
  match i.command with
  | none => .success banner
  | some (.tokenize query) => .success (print i.pretty (tokenizeReport query))
  | some (.check query) => check i.pretty query
  | some (.translate query file options) => translate lookup readFile i.pretty query file options

/-- The file of variables in the working directory. -/
def variablesFile : String := ".env"

/-- Runs the program. Variables that are not set are taken from the file of variables. -/
def run (env : Environment) (readFile : String → Option String) (args : List String) : Result :=
  let env := match readFile variablesFile with
    | none => env
    | some text => env.load text
  let lookup := fun name => env.lookup name
  match parse lookup args with
  | .error .help => .success helpText
  | .error .version => .success versionText
  | .error .usage => ⟨2, "", some "invalid arguments; use --help for usage information"⟩
  | .ok invocation => execute lookup readFile invocation

end LogQuery.CommandLine
