/-!
# Faults

Why an evaluation fails, as causes. Objects that a message mentions are kept as their printed text
at the moment of the failure, because later changes to them must not change the message.
`Fault.message` is the one place where wording is chosen. Evaluation and type faults also say which
form was being evaluated; `Fault.withForm` adds it, and `lacksForm_withForm` says that it is added
once.
-/

namespace SmallLisp

/-- Why text is not a sequence of data. Positions count bytes of the text in UTF-8. -/
inductive ReadFault where
  | unexpectedEnd
  | missingClose (position : Nat)
  | tooDeep (limit : Nat)
  | unquoteOutside (position : Nat)
  | integerRange (position : Nat)
  | openComment
  | malformed (near : String)
deriving DecidableEq, Repr

/-- Why an evaluation stops although every operand has the right type. -/
inductive EvaluationFault where
  | depthLimit (limit : Nat)
  | dottedForm (form : String)
  | dottedArguments (arguments : String)
  | notAssignable (place : String)
  | dottedPlace (place : String)
  | shortPlace (operator : String)
  | breakOutsideLoop
  | returnOutsideCall
  | throwOutsideTry
  | spliceOutsideList (form : String)
  | spliceOfNonList (got : String)
  | negativeSize (n : Int)
  | illegalPair (collection : String) (got : String)
  | indexOutOfBounds (n : Int)
  | divisionByZero (operator : String)
  | overflow (operator : String)
  | uncaughtThrow (text : String)
  | escaped (signal : String)
  | host (text : String)
deriving DecidableEq, Repr

/-- Which operand has the wrong type. -/
inductive TypeFault where
  | notFunction (got : String)
  | parameterList (operator : String) (got : String)
  | parameterSymbol (operator : String) (got : String)
  | variableSymbol (got : String)
  | namespaceName (got : String)
  | properList (got : String)
  | thrownText
  | listOperand (operator : String) (got : String)
  | integerIndex (got : String)
  | collection (typeName : String)
  | immutableString
  | hashKey (typeName : String)
  | integerSize (got : String)
  | mapCollection (got : String)
  | mapFunction
  | numberOperand (operator : String) (got : String)
  | host (text : String)
deriving DecidableEq, Repr

/-- Which name has no binding. -/
inductive UnboundFault where
  | read (name : String)
  | assign (name : String)
deriving DecidableEq, Repr

/-- What was tried with a reserved symbol. -/
inductive ReservedFault where
  | bind (name : String)
  | assign (name : String)
deriving DecidableEq, Repr

/-- Why a namespace operation is refused. -/
inductive NamespaceFault where
  | taken (name : String)
  | undefined (name : String)
  | locked (name : String)
  | lockedIntern (name : String) (container : String)
  | notExported (name : String) (container : String)
  | notInterned (name : String) (container : String)
  | illegalClause (clause : String)
  | clauseNames (clause : String)
  | importSource (name : String)
  | importSymbol (container : String) (name : String)
  | unknownClause (keyword : String)
deriving DecidableEq, Repr

/-- A failure. Evaluation and type faults carry the form they were raised in, once it is known. -/
inductive Fault where
  | parse (cause : ReadFault)
  | evaluation (cause : EvaluationFault) (form : Option String)
  | type (cause : TypeFault) (form : Option String)
  | unbound (cause : UnboundFault)
  | reserved (cause : ReservedFault)
  | namespaces (cause : NamespaceFault)
  | arity (expected : Nat) (got : Nat) (form : Option String)
deriving DecidableEq, Repr

/-- The wording of a reading fault. -/
def ReadFault.message : ReadFault → String
  | .unexpectedEnd => "Unexpected end of input"
  | .missingClose p => "Expected character at position " ++ toString p
  | .tooDeep n => "Expression too deeply nested (max depth: " ++ toString n ++ ")"
  | .unquoteOutside p => "unquote outside of a backquote at position " ++ toString p
  | .integerRange p => "integer literal out of range at position " ++ toString p
  | .openComment => "unterminated block comment"
  | .malformed near => "Invalid syntax near '" ++ near ++ "'"

def EvaluationFault.message : EvaluationFault → String
  | .depthLimit n => "Evaluation depth limit exceeded (max: " ++ toString n ++ ")"
  | .dottedForm form => "can't evaluate a dotted list: " ++ form
  | .dottedArguments arguments => "can't apply to a dotted list: " ++ arguments
  | .notAssignable place => "can't assign to " ++ place
  | .dottedPlace place => "assign can't evaluate a dotted list: " ++ place
  | .shortPlace operator => "not enough arguments to function " ++ operator
  | .breakOutsideLoop => "break can only be used inside a loop"
  | .returnOutsideCall => "return can only be used inside a macro or lambda body"
  | .throwOutsideTry => "throw can only be used inside a try block"
  | .spliceOutsideList form => "can't splice outside of a list: " ++ form
  | .spliceOfNonList got => "splice expected a list, got " ++ got
  | .negativeSize n => "MAKE-ARRAY expected a non-negative size, got " ++ toString n
  | .illegalPair collection got =>
    "illegal key value pair for " ++ collection ++ ": " ++ got
  | .indexOutOfBounds n => "index " ++ toString n ++ " out of bounds"
  | .divisionByZero operator => "division by zero in " ++ operator
  | .overflow operator => "integer overflow in " ++ operator
  | .uncaughtThrow text => "uncaught throw: " ++ text
  | .escaped signal => signal ++ " escaped its frame"
  | .host text => text

def TypeFault.message : TypeFault → String
  | .notFunction got => got ++ " is not a function"
  | .parameterList operator got => operator ++ " expected a parameter list, got " ++ got
  | .parameterSymbol operator got => operator ++ " parameters must be symbols, got " ++ got
  | .variableSymbol got => "VAR expected a symbol as first argument, got " ++ got
  | .namespaceName got => "namespace expected a string or symbol, got " ++ got
  | .properList got => "expected a proper list, got " ++ got
  | .thrownText => "throw expected a string as first argument"
  | .listOperand operator got => operator ++ " expected a list, got " ++ got
  | .integerIndex got => "index must be an integer, got " ++ got
  | .collection typeName => "expected a collection, got " ++ typeName
  | .immutableString => "strings are immutable"
  | .hashKey typeName => "hashtable key must be comparable, got " ++ typeName
  | .integerSize got => "MAKE-ARRAY expected an integer size, got " ++ got
  | .mapCollection got => "MAP expected a collection, got " ++ got
  | .mapFunction => "MAP expected a function as second argument"
  | .numberOperand operator got => operator ++ " expected a number, got " ++ got
  | .host text => text

def UnboundFault.message : UnboundFault → String
  | .read name => name
  | .assign name => "can't assign to " ++ name ++ " before binding it"

def ReservedFault.message : ReservedFault → String
  | .bind name => "can't bind to reserved symbol " ++ name
  | .assign name => "can't assign to reserved symbol " ++ name

def NamespaceFault.message : NamespaceFault → String
  | .taken name => "namespace " ++ name ++ " already exists"
  | .undefined name => "undefined namespace " ++ name
  | .locked name => "namespace " ++ name ++ " is locked"
  | .lockedIntern name container =>
    "can't intern " ++ name ++ " in locked namespace " ++ container
  | .notExported name container => name ++ " is not exported from " ++ container
  | .notInterned name container => name ++ " is not interned in " ++ container
  | .illegalClause clause => "illegal namespace clause " ++ clause
  | .clauseNames clause => "namespace clause must contain only names: " ++ clause
  | .importSource name => "import-from undefined namespace " ++ name
  | .importSymbol container name =>
    "import-from namespace " ++ container ++ " unknown symbol " ++ name
  | .unknownClause keyword => "unknown namespace clause " ++ keyword

namespace Fault

/-- What stands between a message and the form it was raised in. -/
def contextMark : String := "\n  Context: "

/-- The suffix that names a form. -/
def formText : Option String → String
  | none => ""
  | some form => contextMark ++ "while evaluating: " ++ form

/-- The whole wording of a fault. -/
def message : Fault → String
  | .parse cause => "ParseError: " ++ cause.message
  | .evaluation cause form => "EvaluationError: " ++ cause.message ++ formText form
  | .type cause form => "Type error: " ++ cause.message ++ formText form
  | .unbound cause => "Unbound symbol: " ++ cause.message
  | .reserved cause => "Reserved symbol: " ++ cause.message
  | .namespaces cause => "Namespace error: " ++ cause.message
  | .arity expected got none =>
    "ArityError: function expected at least " ++ toString expected ++ " arguments but got " ++
      toString got
  | .arity expected got (some form) =>
    "ArityError: expression " ++ form ++ ": expected at least " ++ toString expected ++
      " arguments, got " ++ toString got

/-- Whether `pattern` occurs in `text`. -/
def occurs (pattern : List Char) : List Char → Bool
  | [] => pattern.isEmpty
  | c :: rest => pattern.isPrefixOf (c :: rest) || occurs pattern rest

/-- Whether a text already mentions a form, through a name that contains the mark. -/
def mentionsForm (text : String) : Bool := occurs contextMark.toList text.toList

/-- Whether the form of a fault is still to be named. Faults of the kinds without a form never
are. -/
def lacksForm : Fault → Bool
  | .evaluation cause none => !mentionsForm cause.message
  | .type cause none => !mentionsForm cause.message
  | _ => false

/-- Name the form in which a fault was raised. -/
def withForm (form : String) : Fault → Fault
  | .evaluation cause _ => .evaluation cause (some form)
  | .type cause _ => .type cause (some form)
  | fault => fault

/-- A form is named once. -/
theorem lacksForm_withForm (form : String) (fault : Fault) :
    (fault.withForm form).lacksForm = false := by
  cases fault <;> rfl

end Fault

end SmallLisp
