import Calculator.Text.Blank
import Calculator.Token

namespace Calculator

structure Lexeme where
  token : Token
  start : Nat
  stop : Nat
deriving DecidableEq, Repr

/-- The result of a scan: what was read, and the character that ended it early with its position. -/
structure Scan where
  lexemes : List Lexeme
  stray : Option (Char × Nat)
deriving DecidableEq, Repr

namespace Scan

def isNumeric (c : Char) : Bool := c.isDigit || c == '.'

def symbol? : Char → Option Token
  | '(' => some .opening
  | ')' => some .closing
  | c => (Operator.ofSymbol? c).map .operator

def utf8Length (cs : List Char) : Nat := cs.foldr (fun c n => c.utf8Size + n) 0

def cons (x : Lexeme) (s : Scan) : Scan := { s with lexemes := x :: s.lexemes }

/-- Scans a text that starts at byte `position`. Digits and points that stand together are one literal, whatever number
they make. -/
def ofListAt (position : Nat) : List Char → Scan
  | [] => ⟨[], none⟩
  | c :: cs =>
      if isNumeric c then
        let run := c :: cs.takeWhile isNumeric
        let stop := position + utf8Length run
        (ofListAt stop (cs.dropWhile isNumeric)).cons ⟨.literal (String.ofList run), position, stop⟩
      else
        let next := position + c.utf8Size
        match symbol? c with
        | some t => (ofListAt next cs).cons ⟨t, position, next⟩
        | none => if Text.isBlank c then ofListAt next cs else ⟨[], some (c, position)⟩
termination_by cs => cs.length
decreasing_by
  · exact Nat.lt_succ_of_le (List.dropWhile_suffix _).length_le
  · exact Nat.lt_succ_self _
  · exact Nat.lt_succ_self _

theorem ofListAt_nil (position : Nat) : ofListAt position [] = ⟨[], none⟩ := by rw [ofListAt]

theorem ofListAt_numeric (position : Nat) {c : Char} (h : isNumeric c) (cs : List Char) :
    ofListAt position (c :: cs) =
      let run := c :: cs.takeWhile isNumeric
      let stop := position + utf8Length run
      (ofListAt stop (cs.dropWhile isNumeric)).cons ⟨.literal (String.ofList run), position, stop⟩ := by
  rw [ofListAt, if_pos h]

theorem ofListAt_symbol (position : Nat) {c : Char} {t : Token} (hn : isNumeric c = false)
    (h : symbol? c = some t) (cs : List Char) :
    ofListAt position (c :: cs) =
      (ofListAt (position + c.utf8Size) cs).cons ⟨t, position, position + c.utf8Size⟩ := by
  rw [ofListAt, if_neg (by simp [hn]), h]

theorem ofListAt_blank (position : Nat) {c : Char} (hn : isNumeric c = false) (hs : symbol? c = none)
    (h : Text.isBlank c) (cs : List Char) :
    ofListAt position (c :: cs) = ofListAt (position + c.utf8Size) cs := by
  rw [ofListAt, if_neg (by simp [hn]), hs]
  exact if_pos h

theorem ofListAt_stray (position : Nat) {c : Char} (hn : isNumeric c = false) (hs : symbol? c = none)
    (h : Text.isBlank c = false) (cs : List Char) :
    ofListAt position (c :: cs) = ⟨[], some (c, position)⟩ := by
  rw [ofListAt, if_neg (by simp [hn]), hs]
  exact if_neg (by simp [h])

def ofString (text : String) : Scan := ofListAt 0 text.toList

def tokens (s : Scan) : List Token := s.lexemes.map Lexeme.token

def outcome (s : Scan) : Except EvalError (List Token) :=
  match s.stray with
  | some (character, position) => .error (.invalidCharacter character position)
  | none => .ok s.tokens

end Scan

def tokenize (text : String) : Except EvalError (List Token) := (Scan.ofString text).outcome

end Calculator
