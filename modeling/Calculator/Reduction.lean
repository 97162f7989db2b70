import Calculator.Pass

namespace Calculator

/-- The one value that a sequence without groups comes to. All its literals are read before anything else
is looked at, and its first term has to be a number even if no operator asks for it. -/
def reduce (tokens : List Token) : Traced Float := do
  let terms ← Term.ofTokens tokens
  let _ ← Term.first terms
  let terms ← Precedence.levels.foldlM (fun terms level => (Pass.start terms).run level) terms
  Term.first terms

end Calculator
