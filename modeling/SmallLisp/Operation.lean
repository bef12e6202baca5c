import SmallLisp.Arithmetic
import SmallLisp.Collection
import SmallLisp.Naming
import SmallLisp.Request

/-!
# Operations on values

The operations that receive their arguments evaluated. Like the special forms they take their
argument list as it stands, read an absent argument as the empty list and ignore further ones.
-/

namespace SmallLisp.Operation

/-- An answer or a fault that the state decides, without changing it. -/
@[inline]
def query (f : Interp → Except Fault Value) : EvalM Value := fun s =>
  match f s with
  | .ok v => .ok v s
  | .error fault => .error (.fault fault) s

def identity (arguments : Value) : EvalM Value := EvalM.read fun s => s.first arguments

/-- One half of the list that is the first argument; both halves of the empty list are the empty
list. -/
def half (operator : String) (part : Interp → CellId → Value) (arguments : Value) : EvalM Value :=
  query fun s =>
    match s.first arguments with
    | .nil => .ok .nil
    | .cons id => .ok (part s id)
    | other => .error (.type (.listOperand operator (s.print other)) none)

def cons (arguments : Value) : EvalM Value := do
  let a ← EvalM.read fun s => s.first arguments
  let b ← EvalM.read fun s => s.second arguments
  EvalM.cons a b

/-- The value of the form that is the first argument. -/
def evaluate (ev : Evaluators) (context arguments : Value) : EvalM Value := do
  let form ← EvalM.read fun s => s.first arguments
  (ev context).form form

def not (arguments : Value) : EvalM Value :=
  EvalM.read fun s => .ofBool (s.first arguments).isNil

/-- Whether two arguments are the same object. -/
def eql (arguments : Value) : EvalM Value :=
  EvalM.read fun s => .ofBool (s.first arguments = s.second arguments)

def equal (arguments : Value) : EvalM Value :=
  EvalM.read fun s => .ofBool (s.equal (s.first arguments) (s.second arguments))

/-- The type of the first argument, as a keyword. -/
def typeOf (arguments : Value) : EvalM Value := do
  let v ← EvalM.read fun s => s.first arguments
  let id ← EvalM.namespaceStep fun s => s.internKeyword v.typeName
  pure (.symbol id)

/-- Leave the innermost frame with the first argument as its value. -/
def returnValue (arguments : Value) : EvalM Value := do
  let depth ← EvalM.read fun s => s.depths.get .call
  if depth = 0 then EvalM.failEvaluation .returnOutsideCall
  else
    let v ← EvalM.read fun s => s.first arguments
    EvalM.exit (.returning v depth)

/-- Leave the innermost protected form with the first argument as its text. -/
def throwText (arguments : Value) : EvalM Value := do
  let depth ← EvalM.read fun s => s.depths.get .guarded
  if depth = 0 then EvalM.failEvaluation .throwOutsideTry
  else
    match ← EvalM.read fun s => s.first arguments with
    | .string text => EvalM.exit (.throwing text depth)
    | _ => EvalM.failType .thrownText

def element (arguments : Value) : EvalM Value :=
  query fun s => s.access (s.first arguments) (s.second arguments)

def array (arguments : Value) : EvalM Value :=
  EvalM.step fun s =>
    let items := (s.elementsOf arguments).toArray
    s.allocArray items

/-- The size that the first argument asks for. -/
def sizeOf (s : Interp) (arguments : Value) : Except Fault Nat :=
  match s.first arguments with
  | .number (.int n) =>
    if n.toInt < 0 then .error (.evaluation (.negativeSize n.toInt) none) else .ok n.toInt.toNat
  | other => .error (.type (.integerSize (s.print other)) none)

/-- An array of a size, with the second argument in every place. -/
def makeArray (arguments : Value) : EvalM Value := fun s =>
  match sizeOf s arguments with
  | .error fault => .error (.fault fault) s
  | .ok size =>
    let items := Array.replicate size (s.second arguments)
    match s.allocArray items with
    | (v, s) => .ok v s

/-- A key and a value, from a proper list of two elements. -/
def pairOf (collection : String) (s : Interp) (v : Value) : Except Fault (Value × Value) :=
  match s.properElements? v with
  | some [key, value] => .ok (key, value)
  | _ => .error (.evaluation (.illegalPair collection (s.print v)) none)

/-- Assign pairs in order to the entries of a dictionary. -/
def fillEntries (s : Interp) (entries : List (Value × Value)) :
    List Value → Except Fault (List (Value × Value))
  | [] => .ok entries
  | v :: rest =>
    match pairOf "dictionary" s v with
    | .error fault => .error fault
    | .ok (key, value) => fillEntries s (s.assignEntry entries key value) rest

/-- A dictionary of the pairs that are the arguments. -/
def dictionary (arguments : Value) : EvalM Value := fun s =>
  match fillEntries s [] (s.elementsOf arguments) with
  | .error fault => .error (.fault fault) s
  | .ok entries =>
    match s.allocDictionary entries with
    | (v, s) => .ok v s

/-- Assign pairs in order to a hash table. -/
def fillHashed (s : Interp) (table : Table Value Value) :
    List Value → Except Fault (Table Value Value)
  | [] => .ok table
  | v :: rest =>
    match pairOf "hashtable" s v with
    | .error fault => .error fault
    | .ok (key, value) =>
      match Interp.assignHashed table key value with
      | .error fault => .error fault
      | .ok table => fillHashed s table rest

/-- A hash table of the pairs that are the arguments. -/
def hashTable (arguments : Value) : EvalM Value := fun s =>
  match fillHashed s .empty (s.elementsOf arguments) with
  | .error fault => .error (.fault fault) s
  | .ok table =>
    match s.allocHashTable table with
    | (v, s) => .ok v s

def length (arguments : Value) : EvalM Value :=
  query fun s => (s.length (s.first arguments)).map .ofNat

/-- Apply a function to each element with its key, collecting the values under the keys. -/
def mapEntries (ev : Evaluators) (context : Value) (f : FunctionId)
    (done : List (Value × Value)) : List (Value × Value) → EvalM (List (Value × Value))
  | [] => pure done.reverse
  | (item, key) :: rest => do
    let arguments ← EvalM.list [item, key]
    let v ← ev context (.apply f arguments)
    mapEntries ev context f ((key, v) :: done) rest

/-- Collect values under their keys in a collection like `target`: an array for an array, a table
for a table, a list for the others. -/
def collectLike (target : Value) (pairs : List (Value × Value)) : EvalM Value :=
  match target with
  | .array _ => EvalM.step fun s => s.allocArray (pairs.map (·.2)).toArray
  | .dictionary _ => EvalM.step fun s =>
    let entries := pairs.foldl (fun acc e => s.assignEntry acc e.1 e.2) []
    s.allocDictionary entries
  | .hashTable _ => EvalM.step fun s =>
    s.allocHashTable (pairs.foldl (fun acc e => acc.insert e.1 e.2) .empty)
  | _ => EvalM.list (pairs.map (·.2))

/-- Map a function over the entries that a collection has at the start. -/
def map (ev : Evaluators) (context arguments : Value) : EvalM Value := do
  let target ← EvalM.read fun s => s.first arguments
  match ← EvalM.read fun s => s.entries target with
  | .error _ =>
    let text ← EvalM.read fun s => s.print target
    EvalM.failType (.mapCollection text)
  | .ok entries =>
    match ← EvalM.read fun s => s.second arguments with
    | .function f =>
      let pairs ← mapEntries ev context f [] entries
      collectLike target pairs
    | _ => EvalM.failType .mapFunction

def numberOf (operator : String) (s : Interp) : Value → Except Fault Number
  | .number n => .ok n
  | other => .error (.type (.numberOperand operator (s.print other)) none)

def arithmetic (op : Arithmetic) (arguments : Value) : EvalM Value :=
  query fun s => (op.fold (numberOf op.operator s) (s.elementsOf arguments)).map .number

/-- Whether each argument satisfies a comparison with the one after it. -/
def comparison (op : Comparison) (arguments : Value) : EvalM Value :=
  query fun s =>
    match numberOf op.operator s (s.first arguments) with
    | .error fault => .error fault
    | .ok n =>
      (op.chainFrom (numberOf op.operator s) n (s.elementsOf (s.rest arguments))).map .ofBool

/-- The greatest or least argument; the first one of several that are equal. -/
def extremum (op : Extremum) (arguments : Value) : EvalM Value :=
  query fun s =>
    match numberOf op.operator s (s.first arguments) with
    | .error fault => .error fault
    | .ok n =>
      (op.foldFrom (numberOf op.operator s) n (s.elementsOf (s.rest arguments))).map .number

end SmallLisp.Operation
