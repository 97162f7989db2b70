import Calculator.Console.Options
import Calculator.Evaluation

namespace Calculator.Console

structure Exit where
  stdout : String
  code : Nat
deriving DecidableEq, Repr

def versionText : String := "prioricalc 0.1.0\n"

def defaultPrompt : String := "Enter an expression: "

def helpText : String := "\n".intercalate
  ["A small arithmetic expression evaluator with operator precedence and nested parentheses.",
    "",
    "Usage: prioricalc [OPTIONS] [EXPRESSION]",
    "",
    "Arguments:",
    "  [EXPRESSION]  Evaluates this expression instead of reading one from standard input",
    "",
    "Options:",
    "  -p, --prompt <PROMPT>  Text shown before reading an expression [default: \"Enter an expression: \"]",
    "  -r, --repeat           Keeps reading expressions until the end of input instead of stopping after the first one",
    "  -h, --help             Print help",
    "  -V, --version          Print version",
    ""]

def answer (expression : String) : String := evaluate (Text.trim expression) ++ "\n"

/-- Cuts input after each line feed. What follows the last one is a line too, unless it is empty. -/
def splitLines : List UInt8 → List (List UInt8)
  | [] => []
  | b :: bs =>
      if b = 10 then [b] :: splitLines bs
      else
        match splitLines bs with
        | [] => [[b]]
        | line :: lines => (b :: line) :: lines

def decode? (line : List UInt8) : Option String := String.fromUTF8? ⟨line.toArray⟩

/-- What is printed for a line, and the code if the program ends with it. A line that is no text ends it
with an error. A program that repeats passes over blank lines; one that does not answers the first. -/
def turn (repeats : Bool) (line : List UInt8) : String × Option Nat :=
  match decode? line with
  | none => ("", some 1)
  | some text =>
      if repeats then (if (Text.trim text).isEmpty then "" else answer text, none)
      else (answer text, some 0)

/-- The prompt comes before each line is asked for, and so before the end of the input is seen. -/
def dialogue (prompt : String) (repeats : Bool) : List (List UInt8) → Exit
  | [] => ⟨prompt, 0⟩
  | line :: lines =>
      match turn repeats line with
      | (text, some code) => ⟨prompt ++ text, code⟩
      | (text, none) =>
          let rest := dialogue prompt repeats lines
          { rest with stdout := prompt ++ text ++ rest.stdout }

def Invocation.run (i : Invocation) (input : List UInt8) : Exit :=
  match i with
  | .help => ⟨helpText, 0⟩
  | .version => ⟨versionText, 0⟩
  | .refused => ⟨"", 2⟩
  | .calculate o =>
      match o.expression with
      | some expression => ⟨answer expression, 0⟩
      | none => dialogue (o.prompt.getD defaultPrompt) o.repeats (splitLines input)

end Calculator.Console
