import Calculator.Console.Dialogue

open Calculator Console

partial def readLine (input : IO.FS.Stream) (line : ByteArray) : IO ByteArray := do
  let bytes ← input.read 1
  if bytes.isEmpty then return line
  let line := line ++ bytes
  if bytes.toList = [10] then return line
  readLine input line

partial def converse (prompt : String) (repeats : Bool) (input output : IO.FS.Stream) : IO UInt32 := do
  output.putStr prompt
  output.flush
  let line ← readLine input .empty
  if line.isEmpty then return 0
  let (text, code) := turn repeats line.toList
  output.putStr text
  match code with
  | some code => return code.toUInt32
  | none => converse prompt repeats input output

def main (arguments : List String) : IO UInt32 := do
  let output ← IO.getStdout
  match Invocation.ofArguments .unset arguments with
  | .calculate ⟨none, prompt, repeats⟩ =>
      converse (prompt.getD defaultPrompt) repeats (← IO.getStdin) output
  | i => do
      let exit := i.run []
      output.putStr exit.stdout
      return exit.code.toUInt32
