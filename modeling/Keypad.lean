import Keypad.Main
import Keypad.Proofs.Grammar
import Keypad.Proofs.Reading
import Keypad.Proofs.Derivation
import Keypad.Proofs.Evaluation
import Keypad.Proofs.Fraction
import Keypad.Proofs.Nearest
import Keypad.Proofs.Shortest
import Keypad.Proofs.Bits
import Keypad.Proofs.Rounding
import Keypad.Proofs.ReadBack
import Keypad.Proofs.ResultDigits
import Keypad.Proofs.BitRounding
import Keypad.Proofs.Sums
import Keypad.Proofs.Respelling
import Keypad.Proofs.Phases
import Keypad.Proofs.Session
import Keypad.Proofs.Lexing
import Keypad.Proofs.NumberTokens
import Keypad.Proofs.Recommit
import Keypad.Proofs.Preview
import Keypad.Proofs.Commits
import Keypad.Proofs.Conversation
import Keypad.Proofs.Parentheses
import Keypad.Proofs.Memory
import Keypad.Proofs.Keystrokes
import Keypad.Proofs.Vocabulary
import Keypad.Proofs.Openings
import Keypad.Proofs.Frame
import Keypad.Proofs.Accumulation
import Keypad.Proofs.Cutting
import Keypad.Proofs.KeyLines
import Keypad.Proofs.Idempotence
import Keypad.Proofs.AngleUnits
import Keypad.Proofs.Numerals
import Keypad.Proofs.Recall
import Keypad.Proofs.Viability
import Keypad.Proofs.ZeroDenominators
import Keypad.Proofs.Closings
import Keypad.Proofs.Comparisons
import Keypad.Proofs.Guards
import Keypad.Proofs.Powers
import Keypad.Proofs.Faults
import Keypad.Proofs.NotANumber
import Keypad.Proofs.SignToggle
import Keypad.Proofs.Scanning
import Keypad.Proofs.Partition
import Keypad.Proofs.KeyRuns
import Keypad.Proofs.Resolution
import Keypad.Proofs.Descent
import Keypad.Proofs.TwoReaders
