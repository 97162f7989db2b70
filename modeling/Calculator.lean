import Calculator.Main
import Calculator.Proofs.Zero
import Calculator.Proofs.Pass
import Calculator.Proofs.Outcome
import Calculator.Proofs.Chain
import Calculator.Proofs.Unmatched
import Calculator.Proofs.Nesting
import Calculator.Proofs.Frames
import Calculator.Proofs.Grammar
import Calculator.Proofs.Covering
import Calculator.Proofs.Scanning
import Calculator.Proofs.Literals
import Calculator.Proofs.Rendering
import Calculator.Proofs.Sequence
import Calculator.Proofs.Splice
import Calculator.Proofs.Checked
import Calculator.Proofs.Spans
import Calculator.Proofs.Seams
import Calculator.Proofs.Dialogue
import Calculator.Proofs.Bits
import Calculator.Proofs.Rounding
import Calculator.Proofs.Shortest
import Calculator.Proofs.Written
import Calculator.Proofs.Faithful
import Calculator.Proofs.Balance
import Calculator.Proofs.Enclosing
import Calculator.Proofs.Blanks
import Calculator.Proofs.Confluence
import Calculator.Proofs.Collapse
import Calculator.Proofs.Runs
import Calculator.Proofs.Printed
import Calculator.Proofs.Matching
import Calculator.Proofs.Rounds
import Calculator.Proofs.Positions
import Calculator.Proofs.Account
import Calculator.Proofs.Alternating
import Calculator.Proofs.Diagnosis
import Calculator.Proofs.Levels
import Calculator.Proofs.Nearest
import Calculator.Proofs.Readable
import Calculator.Proofs.Displayed
import Calculator.Proofs.Innermost
import Calculator.Proofs.Underway
import Calculator.Proofs.Digits
