/-!
# Primitive operations

The operations that every interpreter starts with, in the order in which they are installed. Each
has a name, a kind that says what happens to its arguments, and a least number of arguments.
`find?_name` says that the registry finds every operation under its own name.
-/

namespace SmallLisp

/-- How an operation takes its arguments. -/
inductive PrimitiveKind where
  /-- The arguments are evaluated first. -/
  | function
  /-- The arguments are forms; the operation evaluates what it needs. -/
  | specialForm
  /-- A function that can also be assigned through. -/
  | place
deriving DecidableEq, Repr

/-- An operation of the standard library. -/
inductive Primitive where
  | quote | backquote | unquote | splice
  | makeLambda | makeMacro | bindVariable | assign | scope | gensym
  | choose | sequence | sequenceDo | conjunction | disjunction
  | loop | guarded | breakLoop | returnValue | throwText
  | defineNamespace | inNamespace | useNamespace
  | list | car | cdr | cons | evaluate
  | not | eql | equal | typeOf
  | element | array | makeArray | dictionary | hashTable | length | map
  | add | subtract | multiply | divide | remainder
  | less | lessEqual | greater | greaterEqual | max | min
deriving DecidableEq, Repr

namespace Primitive

/-- Every operation, in order of installation. -/
def all : List Primitive := [
  .quote, .backquote, .unquote, .splice,
  .makeLambda, .makeMacro, .bindVariable, .assign, .scope, .gensym,
  .choose, .sequence, .sequenceDo, .conjunction, .disjunction,
  .loop, .guarded, .breakLoop, .returnValue, .throwText,
  .defineNamespace, .inNamespace, .useNamespace,
  .list, .car, .cdr, .cons, .evaluate,
  .not, .eql, .equal, .typeOf,
  .element, .array, .makeArray, .dictionary, .hashTable, .length, .map,
  .add, .subtract, .multiply, .divide, .remainder,
  .less, .lessEqual, .greater, .greaterEqual, .max, .min]

/-- The name of an operation, in upper case as symbols are. -/
def name : Primitive → String
  | .quote => "QUOTE"
  | .backquote => "BACKQUOTE"
  | .unquote => "UNQUOTE"
  | .splice => "SPLICE"
  | .makeLambda => "LAMBDA"
  | .makeMacro => "MACRO"
  | .bindVariable => "VAR"
  | .assign => "="
  | .scope => "SCOPE"
  | .gensym => "GENSYM"
  | .choose => "IF"
  | .sequence => "PROGN"
  | .sequenceDo => "DO"
  | .conjunction => "AND"
  | .disjunction => "OR"
  | .loop => "WHILE"
  | .guarded => "TRY"
  | .breakLoop => "BREAK"
  | .returnValue => "RETURN"
  | .throwText => "THROW"
  | .defineNamespace => "NAMESPACE"
  | .inNamespace => "IN-NAMESPACE"
  | .useNamespace => "USE-NAMESPACE"
  | .list => "LIST"
  | .car => "CAR"
  | .cdr => "CDR"
  | .cons => "CONS"
  | .evaluate => "EVAL"
  | .not => "NOT"
  | .eql => "EQL"
  | .equal => "EQUAL"
  | .typeOf => "TYPE-OF"
  | .element => "ELT"
  | .array => "ARRAY"
  | .makeArray => "MAKE-ARRAY"
  | .dictionary => "DICTIONARY"
  | .hashTable => "HASHTABLE"
  | .length => "LENGTH"
  | .map => "MAP"
  | .add => "+"
  | .subtract => "-"
  | .multiply => "*"
  | .divide => "/"
  | .remainder => "%"
  | .less => "<"
  | .lessEqual => "<="
  | .greater => ">"
  | .greaterEqual => ">="
  | .max => "MAX"
  | .min => "MIN"

/-- How an operation takes its arguments. -/
def kind : Primitive → PrimitiveKind
  | .quote | .backquote | .makeLambda | .makeMacro | .bindVariable | .assign | .scope | .gensym
  | .choose | .sequence | .sequenceDo | .conjunction | .disjunction | .loop | .guarded | .breakLoop
  | .defineNamespace | .inNamespace | .useNamespace => .specialForm
  | .element => .place
  | _ => .function

def minArgs : Primitive → Nat
  | .quote | .backquote | .unquote | .splice | .makeLambda | .makeMacro | .bindVariable => 1
  | .assign => 2
  | .scope | .gensym => 0
  | .choose => 2
  | .sequence | .sequenceDo | .conjunction | .disjunction => 0
  | .loop => 1
  | .guarded => 2
  | .breakLoop | .returnValue => 0
  | .throwText | .defineNamespace | .inNamespace | .useNamespace => 1
  | .list => 0
  | .car | .cdr => 1
  | .cons => 2
  | .evaluate | .not => 1
  | .eql | .equal => 2
  | .typeOf => 1
  | .element => 2
  | .array => 0
  | .makeArray => 1
  | .dictionary | .hashTable => 0
  | .length => 1
  | .map => 2
  | .add | .multiply => 0
  | .subtract | .divide => 1
  | .remainder | .less | .lessEqual | .greater | .greaterEqual => 2
  | .max | .min => 1

/-- Whether the arguments are evaluated before the operation sees them. -/
def evaluatesArguments (p : Primitive) : Bool := p.kind != .specialForm

def find? (name : String) : Option Primitive := all.find? fun p => p.name == name

/-- The registry is complete, and no two operations share a name. -/
theorem find?_name (p : Primitive) : find? p.name = some p := by
  cases p <;> decide +kernel

end Primitive

end SmallLisp
