import LogQuery.CommandLine.Program

/-!
# The executable

Gathers what `CommandLine.run` needs of the outside world, and shows its result.
-/

namespace LogQuery

/-- The text of a file, if it can be read. -/
def readText (file : String) : IO (Option String) := do
  try
    return some (← IO.FS.readFile file)
  catch _ =>
    return none

/-- The words of a text that could be names of variables. -/
def words (text : String) : List String :=
  (text.toList.splitBy fun a b =>
    Environment.isNameChar a == Environment.isNameChar b).map String.ofList

/-- The files that a run may read. -/
def gatherFiles (env : Environment) (args : List String) (declared : Option String) :
    IO (List (String × String)) := do
  let loaded := match declared with
    | none => env
    | some text => env.load text
  let own := declared.toList.map (CommandLine.variablesFile, ·)
  match CommandLine.parse (fun name => loaded.lookup name) args with
  | .ok ⟨_, some (.translate _ (some file) _)⟩ =>
    return own ++ (← readText file).toList.map (file, ·)
  | _ => return own

/-- The values of those variables that a run may ask for. -/
def gatherVariables (declared : Option String) : IO Environment := do
  let names := [CommandLine.schemaVariable, Settings.capacityVariable, Settings.ttlVariable] ++
    words (declared.getD "")
  let values ← names.mapM fun name => return (← IO.getEnv name).toList.map (name, ·)
  return values.flatten

end LogQuery

open LogQuery in
def main (args : List String) : IO UInt32 := do
  let declared ← readText CommandLine.variablesFile
  let env ← gatherVariables declared
  let files ← gatherFiles env args declared
  let result := CommandLine.run env (fun file => files.lookup file) args
  IO.print result.output
  match result.error with
  | none => pure ()
  | some message => IO.eprintln ("Error: " ++ message)
  return UInt32.ofNat result.exitCode
