import Reckoner.Main
import Reckoner.Proofs.Variables
import Reckoner.Proofs.Rounds
import Reckoner.Proofs.Expr.Numbering
import Reckoner.Proofs.Yard.Step
import Reckoner.Proofs.Infix.Derivation
import Reckoner.Proofs.Infix.Reading
import Reckoner.Proofs.Yard.Conservation
import Reckoner.Proofs.Yard.Group
import Reckoner.Proofs.Formula.Inputs
import Reckoner.Proofs.Formula.Composition
import Reckoner.Proofs.Decimal.Notation
import Reckoner.Proofs.Letter.Lowering
import Reckoner.Proofs.Token.Lexemes
import Reckoner.Proofs.Token.Spelling
import Reckoner.Proofs.Token.Operands
import Reckoner.Proofs.Expr.Rereading
import Reckoner.Proofs.Decimal.Rational
import Reckoner.Proofs.Decimal.Rounding
import Reckoner.Proofs.Formula.Exactness
import Reckoner.Proofs.Formula.Arity
import Reckoner.Proofs.Formula.Machine
import Reckoner.Proofs.Token.Arrangement
import Reckoner.Proofs.Yard.Operators
import Reckoner.Proofs.Yard.Failure
import Reckoner.Proofs.Infix.Sentence
import Reckoner.Proofs.Infix.Recognition
import Reckoner.Proofs.Formula.Resolution
import Reckoner.Proofs.Expr.Occurrence
import Reckoner.Proofs.Token.Parentheses
import Reckoner.Proofs.Yard.Diagnosis
import Reckoner.Proofs.Token.Faults
import Reckoner.Proofs.Token.Respelling
import Reckoner.Proofs.Binary64.Rounding
import Reckoner.Proofs.Binary64.OfDecimal
import Reckoner.Proofs.Binary64.Power
import Reckoner.Proofs.Binary64.Nearest
import Reckoner.Proofs.Decimal.ReadingBack
import Reckoner.Proofs.Formula.Recasing
import Reckoner.Proofs.Binary64.Conversion
import Reckoner.Proofs.Binary64.Shortest
import Reckoner.Proofs.Binary64.Precision
import Reckoner.Proofs.Yard.Rounds
import Reckoner.Proofs.Yard.Order
