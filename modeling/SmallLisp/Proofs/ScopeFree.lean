import SmallLisp.Machine
import SmallLisp.Proofs.Change

/-!
# Reads that look at no scope and at no limit

`under` puts the scopes and the limit of another state around the objects of a state. All that an
evaluation reads off a state, apart from the look-up of symbols, what a closure captures and whether
one more form may be evaluated, is the same for both.
-/

namespace SmallLisp

def Interp.withScopes (s : Interp) (bindings : Array Scope) : Interp :=
  { s with scopes := bindings }

def Interp.withLimit (s : Interp) (limit : Nat) : Interp := { s with limit := limit }

/-- The state with the scopes and the limit of another one. -/
def Interp.under (s outer : Interp) : Interp :=
  { s with scopes := outer.scopes, limit := outer.limit }

theorem Interp.withScopes_eq_under (s : Interp) (bindings : Array Scope) :
    s.withScopes bindings = s.under (s.withScopes bindings) := rfl

namespace ScopeFree

variable (s o : Interp)

@[simp]
theorem car (id : CellId) : (s.under o).car id = s.car id := rfl

@[simp]
theorem cdr (id : CellId) : (s.under o).cdr id = s.cdr id := rfl

@[simp]
theorem symbol (x : SymbolId) : (s.under o).symbol x = s.symbol x := rfl

@[simp]
theorem callable (id : FunctionId) : (s.under o).callable id = s.callable id := rfl

@[simp]
theorem namespaceAt (id : NamespaceId) : (s.under o).namespaceAt id = s.namespaceAt id := rfl

/-! ## Lists -/

@[simp]
theorem walk? (n : Nat) (seen : List CellId) (v : Value) :
    (s.under o).walk? n seen v = s.walk? n seen v := by
  induction n generalizing seen v with
  | zero => cases v <;> rfl
  | succ n ih =>
    cases v with
    | cons id => exact ih _ _
    | _ => rfl

@[simp]
theorem spine (v : Value) : (s.under o).spine v = s.spine v :=
  congrArg (Option.getD · ([], v)) (walk? s o _ _ v)

@[simp]
theorem cellsOf (v : Value) : (s.under o).cellsOf v = s.cellsOf v := by
  simp [Interp.cellsOf]

@[simp]
theorem isProper (v : Value) : (s.under o).isProper v = s.isProper v := by
  simp [Interp.isProper, Interp.tailOf]

@[simp]
theorem lengthOf (v : Value) : (s.under o).lengthOf v = s.lengthOf v := by
  simp [Interp.lengthOf]

@[simp]
theorem elementsOf (v : Value) : (s.under o).elementsOf v = s.elementsOf v := by
  simp [Interp.elementsOf, show (s.under o).car = s.car from rfl]

@[simp]
theorem cellAt? (n : Nat) (v : Value) : (s.under o).cellAt? n v = s.cellAt? n v := by
  induction n generalizing v with
  | zero => cases v <;> rfl
  | succ n ih =>
    cases v with
    | cons id => exact ih _
    | _ => rfl

@[simp]
theorem elementAt? (v : Value) (i : Nat) :
    (s.under o).elementAt? v i = s.elementAt? v i := by
  simp [Interp.elementAt?, show (s.under o).car = s.car from rfl]

@[simp]
theorem first (v : Value) : (s.under o).first v = s.first v := by
  cases v <;> rfl

@[simp]
theorem second (v : Value) : (s.under o).second v = s.second v := by
  simp [Interp.second]

@[simp]
theorem third? (v : Value) : (s.under o).third? v = s.third? v := by
  simp [Interp.third?]

@[simp]
theorem rest (v : Value) : (s.under o).rest v = s.rest v := by
  cases v <;> rfl

@[simp]
theorem properElements? (v : Value) : (s.under o).properElements? v = s.properElements? v := by
  simp [Interp.properElements?]

/-! ## Texts -/

@[simp]
theorem printSymbol (x : SymbolId) : (s.under o).printSymbol x = s.printSymbol x := rfl

@[simp]
theorem renderAtom (v : Value) : (s.under o).renderAtom v = s.renderAtom v := by
  cases v <;> rfl

@[simp]
theorem render (n : Nat) (v : Value) : (s.under o).render n v = s.render n v := by
  induction n generalizing v with
  | zero => exact renderAtom s o v
  | succ n ih =>
    have hrender : (s.under o).render n = s.render n := funext ih
    cases v with
    | cons id =>
      unfold Interp.render
      rw [hrender, spine]
      rfl
    | array id =>
      unfold Interp.render
      rw [hrender]
      rfl
    | dictionary id =>
      unfold Interp.render
      rw [hrender]
      rfl
    | hashTable id =>
      unfold Interp.render
      rw [hrender]
      rfl
    | _ => exact renderAtom s o _

@[simp]
theorem print (v : Value) : (s.under o).print v = s.print v := by
  simp [Interp.print]

@[simp]
theorem rendersArray (target : ArrayId) (n : Nat) (v : Value) :
    (s.under o).rendersArray target n v = s.rendersArray target n v := by
  induction n generalizing v with
  | zero => rfl
  | succ n ih =>
    have hrenders : (s.under o).rendersArray target n = s.rendersArray target n := funext ih
    cases v with
    | cons id =>
      unfold Interp.rendersArray
      rw [hrenders, spine]
      rfl
    | array | dictionary | hashTable =>
      unfold Interp.rendersArray
      rw [hrenders]
      rfl
    | _ => rfl

/-! ## Collections -/

theorem compareParts (test : Value → Value → Option Bool) (v w : Value) :
    (s.under o).compareParts test v w = s.compareParts test v w := by
  -- two containers of one kind are compared by their parts, all else is not
  cases v <;> cases w <;> rfl

theorem compareWithin? (borrowed : Option DictionaryId) (n : Nat) :
    (s.under o).compareWithin? borrowed n = s.compareWithin? borrowed n := by
  induction n with
  | zero => rfl
  | succ n ih =>
    funext v w
    unfold Interp.compareWithin?
    rw [compareParts, ih]

@[simp]
theorem equal (v w : Value) : (s.under o).equal v w = s.equal v w :=
  congrArg (fun test => (test v w).getD false) (compareWithin? s o none _)

@[simp]
theorem indexBelow (key : Value) (length : Nat) :
    (s.under o).indexBelow key length = s.indexBelow key length := by
  unfold Interp.indexBelow
  simp only [print]

@[simp]
theorem lookUp {α : Type} (key : Value) (length : Nat) (find : Nat → Option α) :
    (s.under o).lookUp key length find = s.lookUp key length find := by
  unfold Interp.lookUp
  rw [indexBelow]

@[simp]
theorem access (target key : Value) : (s.under o).access target key = s.access target key := by
  have hequal : (s.under o).equal = s.equal := funext fun v => funext (equal s o v)
  have helement : (s.under o).elementAt? target = s.elementAt? target :=
    funext (elementAt? s o target)
  unfold Interp.access
  simp only [hequal, lengthOf, helement, indexBelow, lookUp]
  rfl

@[simp]
theorem place (target key : Value) : (s.under o).place target key = s.place target key := by
  unfold Interp.place
  simp only [lengthOf, cellAt?, indexBelow, lookUp]
  rfl

@[simp]
theorem looksBack (target key : Value) :
    (s.under o).looksBack target key = s.looksBack target key := by
  unfold Interp.looksBack
  cases target with
  | array id => exact rendersArray s o id _ key
  | dictionary id =>
    show (!Interp.searchable _ _ _ _) = (!Interp.searchable _ _ _ _)
    unfold Interp.searchable
    rw [compareWithin?]
    rfl
  | _ => rfl

@[simp]
theorem length (target : Value) : (s.under o).length target = s.length target := by
  unfold Interp.length
  simp only [lengthOf]
  rfl

@[simp]
theorem entries (target : Value) : (s.under o).entries target = s.entries target := by
  unfold Interp.entries
  simp only [elementsOf]
  rfl

@[simp]
theorem assignEntry (es : List (Value × Value)) (key v : Value) :
    (s.under o).assignEntry es key v = s.assignEntry es key v := by
  have hequal : (s.under o).equal = s.equal := funext fun v => funext (equal s o v)
  unfold Interp.assignEntry
  rw [hequal]

@[simp]
theorem store (v : Value) (place : Place) :
    (s.under o).store v place = (s.store v place).under o := by
  cases place with
  | entry id key =>
    unfold Interp.store
    simp only [assignEntry]
    rfl
  | _ => rfl

/-! ## Operations -/

@[simp]
theorem fit (id : FunctionId) (arguments : Value) :
    Evaluator.fit (s.under o) id arguments = Evaluator.fit s id arguments := by
  simp [Evaluator.fit]

@[simp]
theorem operand? (tag : SymbolId) (v : Value) :
    Template.operand? (s.under o) tag v = Template.operand? s tag v := by
  cases v <;> rfl

@[simp]
theorem sizeOf (arguments : Value) :
    Operation.sizeOf (s.under o) arguments = Operation.sizeOf s arguments := by
  simp [Operation.sizeOf]

theorem pairOf (collection : String) :
    Operation.pairOf collection (s.under o) = Operation.pairOf collection s := by
  funext v
  simp [Operation.pairOf]

@[simp]
theorem fillEntries (es : List (Value × Value)) (vs : List Value) :
    Operation.fillEntries (s.under o) es vs = Operation.fillEntries s es vs := by
  induction vs generalizing es with
  | nil => rfl
  | cons v rest ih => simp [Operation.fillEntries, pairOf, ih]

@[simp]
theorem fillHashed (table : Table Value Value) (vs : List Value) :
    Operation.fillHashed (s.under o) table vs = Operation.fillHashed s table vs := by
  induction vs generalizing table with
  | nil => rfl
  | cons v rest ih => simp [Operation.fillHashed, pairOf, ih]

@[simp]
theorem numberOf (operator : String) :
    Operation.numberOf operator (s.under o) = Operation.numberOf operator s := by
  funext v
  cases v <;> simp [Operation.numberOf]

@[simp]
theorem parameters (operator : String) (vs : List Value) :
    SpecialForm.parameters operator (s.under o) vs = SpecialForm.parameters operator s vs := by
  induction vs with
  | nil => rfl
  | cons v rest ih =>
    cases v <;> simp [SpecialForm.parameters, ih, reservedBinding]

@[simp]
theorem parameterList (operator : String) (arguments : Value) :
    SpecialForm.parameterList operator (s.under o) arguments =
      SpecialForm.parameterList operator s arguments := by
  simp [SpecialForm.parameterList]

/-! ## Names -/

@[simp]
theorem nameOf (v : Value) :
    NamespaceForm.nameOf (s.under o) v = NamespaceForm.nameOf s v := by
  cases v <;> simp [NamespaceForm.nameOf]

@[simp]
theorem namesOf (vs : List Value) :
    NamespaceForm.namesOf (s.under o) vs = NamespaceForm.namesOf s vs := by
  induction vs with
  | nil => rfl
  | cons v rest ih => simp [NamespaceForm.namesOf, ih]

@[simp]
theorem useAll (d : NamespaceForm.Draft) (names : List String) :
    NamespaceForm.Draft.useAll (s.under o) d names = NamespaceForm.Draft.useAll s d names := by
  induction names generalizing d with
  | nil => rfl
  | cons name rest ih =>
    unfold NamespaceForm.Draft.useAll
    simp only [ih]
    rfl

@[simp]
theorem clause (d : NamespaceForm.Draft) (names : List String) :
    NamespaceForm.Draft.clause (s.under o) d names = NamespaceForm.Draft.clause s d names := by
  unfold NamespaceForm.Draft.clause
  simp only [useAll]
  rfl

@[simp]
theorem clauses (d : NamespaceForm.Draft) (vs : List Value) :
    NamespaceForm.Draft.clauses (s.under o) d vs = NamespaceForm.Draft.clauses s d vs := by
  induction vs generalizing d with
  | nil => rfl
  | cons v rest ih => cases v <;> simp [NamespaceForm.Draft.clauses, ih]

/-- An answer of an operation with other surroundings of the state after it. -/
def rebound {α : Type} (r : α × Interp) : α × Interp := (r.1, r.2.under o)

theorem addNamespace (ns : Namespace) :
    (s.under o).addNamespace ns = (s.addNamespace ns).map (rebound o) := by
  have hfind : (s.under o).findNamespace? ns.name = s.findNamespace? ns.name := rfl
  unfold Interp.addNamespace
  rw [hfind]
  cases s.findNamespace? ns.name <;> rfl

theorem create (arguments : Value) :
    NamespaceForm.create (s.under o) arguments =
      (NamespaceForm.create s arguments).map (rebound o) := by
  unfold NamespaceForm.create
  simp only [nameOf, first, rest, elementsOf, clauses]
  cases NamespaceForm.nameOf s (s.first arguments) with
  | error fault => rfl
  | ok name =>
    have hsymbols : (s.under o).symbols = s.symbols := rfl
    dsimp only
    rw [hsymbols]
    cases NamespaceForm.Draft.clauses s ⟨.fresh name true, s.symbols⟩
        (s.elementsOf (s.rest arguments)) with
    | error fault => rfl
    | ok d =>
      have hadd : Interp.addNamespace { s.under o with symbols := d.symbols } d.names = _ :=
        addNamespace { s with symbols := d.symbols } o d.names
      dsimp only
      rw [hadd]
      cases Interp.addNamespace { s with symbols := d.symbols } d.names <;> rfl

theorem changeNamespace (name : String) :
    (s.under o).changeNamespace name = (s.changeNamespace name).map (rebound o) := by
  have hnamed : (s.under o).namespaceNamed name = s.namespaceNamed name := rfl
  unfold Interp.changeNamespace
  rw [hnamed]
  cases s.namespaceNamed name with
  | error cause => rfl
  | ok id =>
    dsimp only
    rw [namespaceAt]
    split <;> rfl

theorem useNamed (name : String) :
    (s.under o).useNamed name = (s.useNamed name).map (rebound o) := by
  have hnamed : (s.under o).namespaceNamed name = s.namespaceNamed name := rfl
  unfold Interp.useNamed
  rw [hnamed]
  cases s.namespaceNamed name with
  | error cause => rfl
  | ok id =>
    change Except.ok (id, if id = s.current then _ else _) =
      Except.ok (id, (if id = s.current then _ else _ : Interp).under o)
    split <;> rfl

theorem internIn (id : NamespaceId) (name : String) :
    (s.under o).internIn id name = (s.internIn id name).map (rebound o) := by
  unfold Interp.internIn
  show ((s.namespaceAt id).intern s.symbols name).map _ = _
  cases (s.namespaceAt id).intern s.symbols name <;> rfl

/-- The symbol of a keyword is the same; its binding goes into a scope. -/
theorem internKeyword (name : String) :
    ((s.under o).internKeyword name).map Prod.fst = (s.internKeyword name).map Prod.fst := by
  unfold Interp.internKeyword
  rw [namespaceAt, internIn]
  cases (s.namespaceAt .keywords).find? name with
  | some x => rfl
  | none => cases s.internIn .keywords name <;> rfl

theorem resultOf_rebound {ε α : Type} (s o : Interp) (r : Except ε (α × Interp)) :
    (s.under o).resultOf (r.map (rebound o)) = (s.resultOf r).under o := by
  cases r <;> rfl

end ScopeFree

/-- What names stand for has nothing to do with scopes and limits. -/
theorem Change.Naming.apply_under {c : Change} (hc : c.Naming) (s o : Interp) :
    c.apply (s.under o) = (c.apply s).under o := by
  cases c with
  | intern id name =>
    exact (congrArg _ (ScopeFree.internIn s o id name)).trans (ScopeFree.resultOf_rebound s o _)
  | create arguments =>
    exact (congrArg _ (ScopeFree.create s o arguments)).trans (ScopeFree.resultOf_rebound s o _)
  | select name =>
    exact (congrArg _ (ScopeFree.changeNamespace s o name)).trans
      (ScopeFree.resultOf_rebound s o _)
  | use name =>
    exact (congrArg _ (ScopeFree.useNamed s o name)).trans (ScopeFree.resultOf_rebound s o _)
  | _ => exact hc.elim

end SmallLisp
