import Reckoner.Formula.Evaluation

/-!
# The command line

One expression is computed for the values that are given with it. On demand its tokens and its tree
are printed before its value. What has been printed stays printed when a later stage fails; the
failure is reported on the error output.
-/

namespace Reckoner.CommandLine

/-- What is asked for. -/
structure Request where
  /-- the text of the expression -/
  expression : String
  /-- the values of the variables, in the order of their first use -/
  values : List String := []
  /-- how the expression is computed -/
  options : Options := {}
  /-- whether to print the tokens -/
  showTokens : Bool := false
  /-- whether to print the tree -/
  showTree : Bool := false

/-- What comes of it. -/
structure Report where
  /-- the text for the standard output -/
  output : String
  /-- the text for the error output -/
  complaint : String
  /-- the exit code -/
  code : Nat
  deriving DecidableEq, Repr

/-! ## Answering a request -/

/-- A computation that prints lines and may stop with a message. -/
abbrev Printing := ExceptT String (StateM (List String))

/-- Prints lines. -/
def printLines (lines : List String) : Printing Unit := modify (· ++ lines)

/-- Reads the values of the variables. -/
def readValues (values : List String) : Except String (List Decimal) :=
  values.mapM fun value =>
    match Decimal.ofInput? value with
    | some decimal => .ok decimal
    | none => .error s!"Invalid value '{value}'."

/-- Prints what is asked for on the way to the value of the expression, and the value. -/
def answer (request : Request) : Printing Unit := do
  let inputs ← readValues request.values
  let tokens ← (Token.scan request.expression).mapError ParseError.message
  if request.showTokens then printLines (tokens.map Token.describe)
  let root ← (Expr.ofTokens tokens).mapError ParseError.message
  if request.showTree then printLines [root.toText]
  let formula : Formula := ⟨root, request.options⟩
  let value ← (formula.evaluate inputs).mapError EvalError.message
  printLines [value.toText]

/-- Lines as one text. -/
def unlines (lines : List String) : String := String.join (lines.map (· ++ "\n"))

/-- The report on a request. -/
def report (request : Request) : Report :=
  match ((answer request).run.run []).run with
  | (.ok (), lines) => ⟨unlines lines, "", 0⟩
  | (.error message, lines) => ⟨unlines lines, unlines [message], 1⟩

/-! ## Arguments -/

/-- How the program is called. -/
def usage : String :=
  "Usage: reckoner [-s N | --scale N] [-t | --tokens] [--tree] [--] EXPRESSION [VALUES]...\n"

/-- What the next argument may be. -/
inductive Expected where
  /-- an option, or an operand: the expression or a value -/
  | anything
  /-- the division scale, which the option before it announces -/
  | scale
  /-- an operand, even if it looks like an option -/
  | operand
  deriving DecidableEq, Repr

/-- What has been read of the arguments. -/
structure Arguments where
  /-- the expression, which is the first operand -/
  expression : Option String := none
  /-- the operands behind the expression -/
  values : List String := []
  /-- the division scale, if it is given -/
  scale : Option Int := none
  /-- whether to print the tokens -/
  showTokens : Bool := false
  /-- whether to print the tree -/
  showTree : Bool := false
  /-- what comes next -/
  expected : Expected := .anything
  deriving DecidableEq, Repr

namespace Arguments

/-- The characters write a number without a sign: digits, then possibly a point with digits behind it, and
an exponent of digits behind an `e`. -/
def isNumber (cs : List Char) : Bool :=
  let behindWhole := cs.dropWhile Char.isDigit
  let behindPoint := match behindWhole with
    | '.' :: fraction => fraction.dropWhile Char.isDigit
    | other => other
  cs.head?.any Char.isDigit && match behindPoint with
    | [] => true
    | mark :: exponent => mark = 'e' && exponent ≠ [] && exponent.all Char.isDigit

/-- The argument begins as an option does. A negative number is an option too as long as there is no
expression, and a value from then on. A single dash is no option. -/
def isOption (given : Arguments) (argument : String) : Bool :=
  match argument.toList with
  | '-' :: rest => rest ≠ [] && !(given.expression.isSome && isNumber rest)
  | _ => false

/-- Takes up an operand. -/
def addOperand (given : Arguments) (argument : String) : Arguments :=
  match given.expression with
  | none => { given with expression := some argument }
  | some _ => { given with values := given.values ++ [argument] }

/-- Takes up the division scale, which can be given once and has to be in range. -/
def setScale? (given : Arguments) (scale : List Char) : Option Arguments :=
  match given.scale, Decimal.wholeNumber? scale with
  | none, some scale =>
    if Decimal.ScaleInRange scale then
      some { given with scale := some scale, expected := .anything }
    else none
  | _, _ => none

/-- Takes up that the tokens are to be printed, which can be asked for once. -/
def askForTokens? (given : Arguments) : Option Arguments :=
  if given.showTokens then none else some { given with showTokens := true }

/-- Takes up that the tree is to be printed, which can be asked for once. -/
def askForTree? (given : Arguments) : Option Arguments :=
  if given.showTree then none else some { given with showTree := true }

/-- Reads the letters of options behind a single dash. Behind the letter of the scale stands the scale,
with or without an equals sign before it, or else it is the next argument. -/
def readLetters? (given : Arguments) : List Char → Option Arguments
  | [] => some given
  | ['s'] => some { given with expected := .scale }
  | 's' :: '=' :: scale => given.setScale? scale
  | 's' :: scale => given.setScale? scale
  | 't' :: rest => do (← given.askForTokens?).readLetters? rest
  | _ => none

/-- Reads an option. -/
def readOption? (given : Arguments) (option : String) : Option Arguments :=
  match option with
  | "--" => some { given with expected := .operand }
  | "--tokens" => given.askForTokens?
  | "--tree" => given.askForTree?
  | "--scale" => some { given with expected := .scale }
  | _ =>
    match option.dropPrefix? "--scale=" with
    | some scale => given.setScale? scale.toString.toList
    | none => given.readLetters? (option.toList.drop 1)

/-- Reads the next argument. -/
def read? (given : Arguments) (argument : String) : Option Arguments :=
  match given.expected with
  | .anything =>
    if given.isOption argument then given.readOption? argument
    else some (given.addOperand argument)
  | .scale => if given.isOption argument then none else given.setScale? argument.toList
  | .operand => some (given.addOperand argument)

/-- The request that the arguments make. It has an expression, and no scale is announced and missing. -/
def request? (given : Arguments) : Option Request :=
  match given.expected with
  | .scale => none
  | _ => given.expression.map fun expression =>
    { expression
      values := given.values
      options := given.scale.elim {} ({ divisionScale := · })
      showTokens := given.showTokens
      showTree := given.showTree }

end Arguments

/-- The request that the arguments of the program make. -/
def Request.ofArguments? (arguments : List String) : Option Request :=
  (arguments.foldlM Arguments.read? {}).bind Arguments.request?

/-- The report on the arguments of the program. -/
def reportOn (arguments : List String) : Report :=
  match Request.ofArguments? arguments with
  | some request => report request
  | none => ⟨"", usage, 2⟩

end Reckoner.CommandLine
