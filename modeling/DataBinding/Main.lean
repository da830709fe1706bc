import DataBinding.CommandLine

/-!
# Entry point

Reads the arguments and the two files, performs one run, and prints what it produced. Every decision
is taken by the run itself.
-/

namespace DataBinding.CommandLine

def usage : String :=
  "usage: DEFINITION DATA [--alias PRODUCER=KIND]... [--assign IDENTITY=JSON] " ++
    "[--bundle IDENTITY] [--validate]"

/-- Options and positional arguments, in whatever order they are given. -/
def parseArguments (options : Options) (files : List String) : List String → Option Options
  | [] =>
    match files with
    | [definitionPath, dataPath] => some { options with definitionPath, dataPath }
    | _ => none
  | "--validate" :: rest => parseArguments { options with validate := true } files rest
  | "--alias" :: value :: rest =>
    parseArguments { options with aliases := options.aliases ++ [value] } files rest
  | "--assign" :: value :: rest => parseArguments { options with assign := some value } files rest
  | "--bundle" :: value :: rest => parseArguments { options with bundle := some value } files rest
  | argument :: rest =>
    match Text.splitFirst? '=' argument with
    | some ("--alias", value) =>
      parseArguments { options with aliases := options.aliases ++ [value] } files rest
    | some ("--assign", value) => parseArguments { options with assign := some value } files rest
    | some ("--bundle", value) => parseArguments { options with bundle := some value } files rest
    | _ =>
      if argument.startsWith "-" then none
      else parseArguments options (files ++ [argument]) rest

def readText (path : String) : IO (Except String String) := do
  try
    return .ok (← IO.FS.readFile path)
  catch cause =>
    return .error (toString cause)

def printLine (elapsed : Nat) (line : Line) : IO Unit :=
  IO.println (if line.isTimed then line.text ++ " " ++ toString elapsed ++ "ms" else line.text)

end DataBinding.CommandLine

open DataBinding.CommandLine in
def main (arguments : List String) : IO UInt32 := do
  match parseArguments { definitionPath := "", dataPath := "" } [] arguments with
  | none =>
    IO.eprintln usage
    return 2
  | some options =>
    let start ← IO.monoMsNow
    let outcome := run options (← readText options.definitionPath) (← readText options.dataPath)
    let elapsed := (← IO.monoMsNow) - start
    for line in outcome.lines do printLine elapsed line
    match outcome.failure with
    | none => return 0
    | some message =>
      IO.eprintln ("\nError: " ++ message)
      return 1
