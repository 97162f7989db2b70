import Calculator.Group

namespace Calculator

structure Evaluation where
  source : String
  stage : Stage
  tokens : List Token
deriving DecidableEq, Repr

/-- What a run did, and the evaluation it leaves, which an error does not undo. -/
structure Run where
  evaluation : Evaluation
  events : List Event
  outcome : Except EvalError Float

namespace Evaluation

def new (source : String) : Evaluation := ⟨source, .start, []⟩

def movedTo (next : Stage) (e : Evaluation) : Event := .moved e.stage next e.tokens.length

def finish (e : Evaluation) : Run :=
  let r := reduce e.tokens
  match r.outcome with
  | .error error => ⟨e, r.events, .error error⟩
  | .ok v => ⟨{ e with stage := .reduced }, r.events ++ [e.movedTo .reduced], .ok v⟩

def settle (e : Evaluation) : Run :=
  let r := resolve e.tokens
  let e := { e with tokens := r.tokens }
  match r.failure with
  | some error => ⟨e, r.events, .error error⟩
  | none =>
      if e.tokens.any Token.isParenthesis then ⟨e, r.events, .error .unbalancedParentheses⟩
      else
        let rest := finish { e with stage := .flat }
        { rest with events := r.events ++ e.movedTo .flat :: rest.events }

/-- A source that cannot be scanned leaves the evaluation as it was. -/
def run (e : Evaluation) : Run :=
  let scan := Scan.ofString e.source
  let read := scan.lexemes.map Event.token
  match scan.outcome with
  | .error error => ⟨e, read, .error error⟩
  | .ok tokens =>
      let e := { e with tokens := tokens }
      let tokenized := { e with stage := .tokenized }
      let rest := settle { e with stage := .resolvingParentheses }
      { rest with
        events := read ++ e.movedTo .tokenized :: tokenized.movedTo .resolvingParentheses :: rest.events }

def runs (e : Evaluation) : Nat → List Run
  | 0 => []
  | count + 1 =>
      let r := e.run
      r :: runs r.evaluation count

end Evaluation

/-- Evaluates a source and logs a failure last. -/
def evaluateTraced (source : String) : Traced Float :=
  let r := (Evaluation.new source).run
  match r.outcome with
  | .ok v => ⟨r.events, .ok v⟩
  | .error error => ⟨r.events ++ [.failed source error], .error error⟩

def evaluate? (source : String) : Except EvalError Float := (evaluateTraced source).outcome

def evaluate (source : String) : String :=
  match evaluate? source with
  | .ok v => "Result: " ++ Layout.result.format v
  | .error error => error.userMessage

end Calculator
