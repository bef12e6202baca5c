import SmallLisp.Flow

/-!
# Lists

Lists are chains of cells. `spine` follows a chain once and gives the addresses of its cells with
the value after the last of them; the length, the elements and the look-ups are read off it or walk
the same way. `EvalM.forEach` visits the elements of a list with work between them, which may change
what the cells hold: each cell is read when its turn comes, both halves before its element is
visited.

A list that is made at once is allocated from its last cell to the first, so that each new cell
points to an older one. Where elements are worked out one after the other, `ListBuilding` says how
they become a list. A `ListBuilder` collects them, and its cells are allocated in the end. A
`LinkedBuilder` allocates a cell for each element at once and links it behind the last one, whose
second half it changes in place; what runs between two elements then runs beside a list that is not
finished. Evaluation is by collecting. Linking leaves the same states but for the addresses of
cells, as `SmallLisp.Proofs.MirroredSessions` shows.
-/

namespace SmallLisp

namespace Interp

/-- Follow at most `n` cells to the end of a list, collecting their addresses in reverse. -/
def walk? (s : Interp) : Nat → List CellId → Value → Option (List CellId × Value)
  | n + 1, seen, .cons id => s.walk? n (id :: seen) (s.cdr id)
  | 0, _, .cons _ => none
  | _, seen, v => some (seen.reverse, v)

/-- The cells of a list in order, and what follows the last one. A list goes through no cell twice,
and an address without a cell ends it, so one cell more than there are is enough. A chain that has
no end is no list and is read as an atom. -/
def spine (s : Interp) (v : Value) : List CellId × Value :=
  (s.walk? (s.cells.size + 1) [] v).getD ([], v)

def cellsOf (s : Interp) (v : Value) : List CellId := (s.spine v).1

/-- What follows the last cell of a list: the value itself for an atom. -/
def tailOf (s : Interp) (v : Value) : Value := (s.spine v).2

/-- Whether a list ends in the empty list. An atom is no proper list. -/
def isProper (s : Interp) (v : Value) : Bool := (s.tailOf v).isNil

def lengthOf (s : Interp) (v : Value) : Nat := (s.cellsOf v).length

/-- The elements of a list, without what follows the last cell. -/
def elementsOf (s : Interp) (v : Value) : List Value := (s.cellsOf v).map s.car

def car? (s : Interp) : Value → Option Value
  | .cons id => some (s.car id)
  | _ => none

def cdr? (s : Interp) : Value → Option Value
  | .cons id => some (s.cdr id)
  | _ => none

def cellAt? (s : Interp) : Nat → Value → Option CellId
  | 0, .cons id => some id
  | n + 1, .cons id => s.cellAt? n (s.cdr id)
  | _, _ => none

def elementAt? (s : Interp) (v : Value) (i : Nat) : Option Value := (s.cellAt? i v).map s.car

/-- The first argument, the empty list when there is none. -/
def first (s : Interp) (arguments : Value) : Value := (s.car? arguments).getD .nil

/-- The second argument, the empty list when there is none. -/
def second (s : Interp) (arguments : Value) : Value := (s.elementAt? arguments 1).getD .nil

/-- The third argument, if there is one. -/
def third? (s : Interp) (arguments : Value) : Option Value := s.elementAt? arguments 2

/-- The arguments after the first one. -/
def rest (s : Interp) (arguments : Value) : Value := (s.cdr? arguments).getD .nil

def properElements? (s : Interp) (v : Value) : Option (List Value) :=
  if s.isProper v then some (s.elementsOf v) else none

/-- Put elements in front of a tail, the first of them being the one nearest to the tail. -/
def consReversed (s : Interp) : List Value → Value → Value × Interp
  | [], tail => (tail, s)
  | v :: vs, tail =>
    match s.allocCell v tail with
    | (head, s) => s.consReversed vs head

/-- A fresh list of elements with a tail. -/
def consAll (s : Interp) (items : List Value) (tail : Value) : Value × Interp :=
  s.consReversed items.reverse tail

def listOf (s : Interp) (items : List Value) : Value × Interp := s.consAll items .nil

end Interp

/-- The elements of a list under construction, last one first. -/
structure ListBuilder where
  reversed : List Value
deriving Repr, Inhabited

namespace ListBuilder

def empty : ListBuilder := ⟨[]⟩

def push (b : ListBuilder) (v : Value) : ListBuilder := ⟨v :: b.reversed⟩

/-- Add every element of a list at the end; its cells are copied, and its tail is left out. -/
def append (b : ListBuilder) (s : Interp) (v : Value) : ListBuilder :=
  ⟨(s.elementsOf v).reverseAux b.reversed⟩

def toList (b : ListBuilder) : List Value := b.reversed.reverse

/-- Allocate the list, ending in `tail`. Without elements it is the tail itself. -/
def finish (b : ListBuilder) (s : Interp) (tail : Value) : Value × Interp :=
  s.consReversed b.reversed tail

@[simp]
theorem toList_empty : empty.toList = [] := rfl

@[simp]
theorem toList_push (b : ListBuilder) (v : Value) : (b.push v).toList = b.toList ++ [v] := by
  simp [toList, push]

@[simp]
theorem toList_append (b : ListBuilder) (s : Interp) (v : Value) :
    (b.append s v).toList = b.toList ++ s.elementsOf v := by
  simp [toList, append, List.reverseAux_eq]

/-- What is allocated depends on the elements in order only. -/
theorem finish_eq_consAll (b : ListBuilder) (s : Interp) (tail : Value) :
    b.finish s tail = s.consAll b.toList tail := by
  simp [finish, Interp.consAll, toList]

end ListBuilder

namespace EvalM

def cons (car cdr : Value) : EvalM Value := step fun s => s.allocCell car cdr

def list (items : List Value) : EvalM Value := step fun s => s.listOf items

/-- The list that a builder has collected. -/
def build (b : ListBuilder) (tail : Value) : EvalM Value := step fun s => b.finish s tail

/-- Visit the elements of a list of at most `n` cells one after the other, handing on a value, until
a visit is the last one. -/
def walk {α : Type} (visit : Value → α → EvalM (ForInStep α)) : Nat → Value → α → EvalM α
  | n + 1, .cons id, a => do
    let item ← read fun s => s.car id
    let rest ← read fun s => s.cdr id
    match ← visit item a with
    | .yield a => walk visit n rest a
    | .done a => pure a
  | 0, .cons _, _ => throw .spent
  | _, _, a => pure a

/-- Visit the elements of a list. It has no more cells in the end than it has at the start. -/
def forEach {α : Type} (list : Value) (a : α) (visit : Value → α → EvalM (ForInStep α)) :
    EvalM α := do
  let n ← read fun s => s.lengthOf list
  walk visit n list a

end EvalM

/-- How elements that are worked out one after the other become a list. -/
class ListBuilding where
  Builder : Type
  start : Builder
  push : Builder → Value → EvalM Builder
  /-- Add the elements of a list at the end. -/
  append : Builder → Value → EvalM Builder
  /-- End the list with a tail. Without elements it is the tail itself. -/
  finish : Builder → Value → EvalM Value

/-- Collect the elements. -/
instance ListBuilding.collecting : ListBuilding where
  Builder := ListBuilder
  start := .empty
  push builder v := pure (builder.push v)
  append builder list := EvalM.read fun s => builder.append s list
  finish := EvalM.build

namespace ListBuilding

@[simp]
theorem start_collecting : collecting.start = ListBuilder.empty := rfl

@[simp]
theorem append_collecting (b : ListBuilder) (v : Value) :
    collecting.append b v = EvalM.read fun s => b.append s v := rfl

end ListBuilding

/-- The first and the last cell of a list under construction, once it has cells. -/
structure LinkedBuilder where
  head : Option CellId
  last : Option CellId

namespace LinkedBuilder

def empty : LinkedBuilder := ⟨none, none⟩

/-- Allocate a cell and link it behind the last one. -/
def push (b : LinkedBuilder) (v : Value) (s : Interp) : LinkedBuilder × Interp :=
  let cell : CellId := ⟨s.cells.size⟩
  let t := (s.allocCell v .nil).2
  match b.last with
  | some last => (⟨b.head, some cell⟩, t.setCdr last (.cons cell))
  | none => (⟨some cell, some cell⟩, t)

/-- Link the tail behind the last cell. Without cells the list is the tail. -/
def finish (b : LinkedBuilder) (s : Interp) (tail : Value) : Value × Interp :=
  match b.head, b.last with
  | some head, some last => (.cons head, s.setCdr last tail)
  | _, _ => (tail, s)

end LinkedBuilder

/-- Link cells in place. A list that is appended is walked while its elements are linked. -/
@[reducible]
def ListBuilding.linking : ListBuilding where
  Builder := LinkedBuilder
  start := .empty
  push builder v := EvalM.step (builder.push v)
  append builder list := EvalM.forEach list builder fun item builder => do
    let builder ← EvalM.step (LinkedBuilder.push builder item)
    pure (.yield builder)
  finish builder tail := EvalM.step fun s => builder.finish s tail

end SmallLisp
