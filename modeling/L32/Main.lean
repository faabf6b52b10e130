import L32.CommandLine.Execute

set_option autoImplicit false

/-! # The program

The command line tool: it takes the steps of the invocation one after the other. -/

namespace L32

/-- The answer of an action, or what the system says when it fails. -/
def attempt {α : Type} (action : IO α) : IO (Except String α) := do
  try
    return .ok (← action)
  catch error =>
    return .error error.toString

/-- The rest of the standard input, after the text read so far. -/
partial def readStdin (stream : IO.FS.Stream) (text : String) : IO String := do
  let line ← stream.getLine
  if line.isEmpty then return text else readStdin stream (text ++ line)

def Script.perform (wording : Wording) : Script Unit → IO UInt32
  | done () => return 0
  | fail fault => do
    IO.eprintln ("Error: " ++ fault.message wording)
    return fault.exitCode.toUInt32
  | stdin next => do
    let answer ← attempt do readStdin (← IO.getStdin) ""
    (next answer).perform wording
  | read path next => do
    let answer ← attempt (IO.FS.readFile path)
    (next answer).perform wording
  | print text next => do
    IO.print text
    next.perform wording
  | write path text next => do
    let answer ← attempt (IO.FS.writeFile path text)
    (next answer).perform wording

end L32

open L32 in
def main (args : List String) : IO UInt32 :=
  (invocation plainWording args).perform plainWording
