/-!
# TOML documents

The tree a document describes and the rules by which its lines build it up: a key is given once, a
table is opened once, dotted keys reach only into tables that dotted keys made, and an inline table
is complete where it ends.
-/
set_option autoImplicit false

namespace RobotControl.Toml

inductive Shape where
  | opened
  | implied
  | dotted
  | closed
  deriving DecidableEq, Repr

/-- A value of a document.  Numbers with a fraction and points in time keep their text. -/
inductive Tree where
  | text (s : String)
  | whole (n : Int)
  | real (literal : String)
  | flag (b : Bool)
  | moment (literal : String)
  | array (items : List Tree)
  | table (shape : Shape) (entries : List (String × Tree))
  /-- Tables opened one after another under one name by double brackets. -/
  | tables (items : List (List (String × Tree)))

abbrev Entries := List (String × Tree)

def Entries.get? (es : Entries) (key : String) : Option Tree := List.lookup key es

def Entries.put (key : String) (v : Tree) : Entries → Entries
  | [] => [(key, v)]
  | (k, w) :: rest => if k = key then (k, v) :: rest else (k, w) :: Entries.put key v rest

/-- Changes the table that `path` leads to.  Missing tables on the way are made: `dotted` ones for
a dotted key, implied ones for a header.  A dotted key does not reach into an opened table. -/
def alter (dotted : Bool) (change : Shape → Entries → Option (Shape × Entries)) :
    List String → Shape → Entries → Option (Shape × Entries)
  | [], shape, es => change shape es
  | key :: rest, shape, es =>
      match es.get? key with
      | none => do
          let fresh := if dotted then Shape.dotted else .implied
          let (s, sub) ← alter dotted change rest fresh []
          return (shape, es ++ [(key, .table s sub)])
      | some (.table .closed _) => none
      | some (.table s sub) =>
          if dotted && s = .opened then none
          else do
            let (s', sub') ← alter dotted change rest s sub
            return (shape, es.put key (.table s' sub'))
      | some (.tables items) =>
          match items.getLast? with
          | none => none
          | some lastItem => do
              let (_, sub) ← alter dotted change rest .opened lastItem
              return (shape, es.put key (.tables (items.dropLast ++ [sub])))
      | some _ => none

/-- Gives `key` its value in a table; `direct` says that no dot stands before it. -/
def give (direct : Bool) (key : String) (v : Tree) (shape : Shape) (es : Entries) :
    Option (Shape × Entries) :=
  if (shape = .dotted) = direct then none
  else if (es.get? key).isSome then none
  else some (shape, es ++ [(key, v)])

def splitPath (path : List String) : Option (List String × String) :=
  path.getLast?.map fun key => (path.dropLast, key)

def assign (path : List String) (v : Tree) (shape : Shape) (es : Entries) :
    Option (Shape × Entries) := do
  let (front, key) ← splitPath path
  alter true (give front.isEmpty key v) front shape es

inductive Statement where
  | pair (path : List String) (v : Tree)
  | header (path : List String)
  | arrayHeader (path : List String)

def openTable (key : String) (shape : Shape) (es : Entries) : Option (Shape × Entries) :=
  match es.get? key with
  | none => some (shape, es ++ [(key, .table .opened [])])
  | some (.table .implied sub) => some (shape, es.put key (.table .opened sub))
  | some _ => none

def openNext (key : String) (shape : Shape) (es : Entries) : Option (Shape × Entries) :=
  match es.get? key with
  | none => some (shape, es ++ [(key, .tables [[]])])
  | some (.tables items) => some (shape, es.put key (.tables (items ++ [[]])))
  | some _ => none

structure Draft where
  entries : Entries := []
  current : List String := []

def Draft.add (d : Draft) : Statement → Option Draft
  | .pair path v => do
      let (_, es) ← alter false (assign path v) d.current .opened d.entries
      return { d with entries := es }
  | .header path => do
      let (front, key) ← splitPath path
      let (_, es) ← alter false (openTable key) front .opened d.entries
      return ⟨es, path⟩
  | .arrayHeader path => do
      let (front, key) ← splitPath path
      let (_, es) ← alter false (openNext key) front .opened d.entries
      return ⟨es, path⟩

def build (statements : List Statement) : Option Entries :=
  (statements.foldlM Draft.add {}).map (·.entries)

end RobotControl.Toml
