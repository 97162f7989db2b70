namespace Calculator

inductive Stage
  | start
  | tokenized
  | resolvingParentheses
  | flat
  | reduced
deriving DecidableEq, Repr

namespace Stage

def rank : Stage → Nat
  | start => 0
  | tokenized => 1
  | resolvingParentheses => 2
  | flat => 3
  | reduced => 4

instance : Ord Stage := ⟨fun s t => compare s.rank t.rank⟩

def display : Stage → String
  | start => "Start"
  | tokenized => "Tokenized"
  | resolvingParentheses => "ResolvingParens"
  | flat => "Flat"
  | reduced => "Reduced"

end Stage

end Calculator
