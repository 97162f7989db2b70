namespace Calculator.Console

structure Options where
  expression : Option String
  prompt : Option String
  repeats : Bool
deriving DecidableEq, Repr

/-- What the arguments ask for. They are taken from left to right, and the first request for help or for the version or
the first mistake settles the matter. -/
inductive Invocation
  | calculate (o : Options)
  | help
  | version
  | refused
deriving DecidableEq, Repr

inductive Argument
  | separator
  | plain (text : String)
  | long (name : String) (value : Option String)
  | short (letters : List Char)
deriving DecidableEq, Repr

/-- A single dash is plain, and so is the empty argument. -/
def Argument.ofString (text : String) : Argument :=
  match text.toList with
  | ['-', '-'] => separator
  | '-' :: '-' :: cs =>
      let value :=
        match cs.dropWhile (· != '=') with
        | [] => none
        | _ :: v => some (String.ofList v)
      long (String.ofList (cs.takeWhile (· != '='))) value
  | '-' :: c :: cs => short (c :: cs)
  | _ => plain text

inductive Effect
  | updated (o : Options)
  | awaitsPrompt (o : Options)
  | ended (i : Invocation)
deriving DecidableEq, Repr

namespace Options

def unset : Options := ⟨none, none, false⟩

def setPrompt (text : String) (o : Options) : Effect :=
  if o.prompt.isSome then .ended .refused else .updated { o with prompt := some text }

def setRepeats (o : Options) : Effect :=
  if o.repeats then .ended .refused else .updated { o with repeats := true }

def setExpression (text : String) (o : Options) : Effect :=
  if o.expression.isSome then .ended .refused else .updated { o with expression := some text }

def long (name : String) (value : Option String) (o : Options) : Effect :=
  match name, value with
  | "prompt", some text => o.setPrompt text
  | "prompt", none => .awaitsPrompt o
  | "repeat", none => o.setRepeats
  | "help", none => .ended .help
  | "version", none => .ended .version
  | _, _ => .ended .refused

/-- Letters may stand together. After that of the prompt the rest is its text, less an equals sign. -/
def short (o : Options) : List Char → Effect
  | [] => .updated o
  | ['p'] => .awaitsPrompt o
  | 'p' :: '=' :: cs => o.setPrompt (String.ofList cs)
  | 'p' :: cs => o.setPrompt (String.ofList cs)
  | 'r' :: cs =>
      match o.setRepeats with
      | .updated o => short o cs
      | effect => effect
  | 'h' :: _ => .ended .help
  | 'V' :: _ => .ended .version
  | _ => .ended .refused

end Options

namespace Invocation

def ofPlain (o : Options) : List String → Invocation
  | [] => calculate o
  | text :: rest =>
      match o.setExpression text with
      | .updated o => ofPlain o rest
      | _ => refused

def ofArguments (o : Options) : List String → Invocation
  | [] => calculate o
  | text :: rest =>
      let effect : Effect :=
        match Argument.ofString text with
        | .separator => .ended (ofPlain o rest)
        | .plain text => o.setExpression text
        | .long name value => o.long name value
        | .short letters => o.short letters
      match effect with
      | .updated o => ofArguments o rest
      | .ended i => i
      | .awaitsPrompt o =>
          match rest with
          | [] => refused
          | text :: rest =>
              match Argument.ofString text with
              | .plain text =>
                  match o.setPrompt text with
                  | .updated o => ofArguments o rest
                  | _ => refused
              | _ => refused

end Invocation

end Calculator.Console
