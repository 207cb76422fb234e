import RobotControl.Toml.Scalar

/-!
# Reading TOML

A text is read into statements, one a line, and the statements build the document.
-/
set_option autoImplicit false

namespace RobotControl.Toml

mutual

/-- Any value; `depth` bounds the nesting of arrays and inline tables. -/
def value : Nat → Reader Tree
  | depth + 1, '[' :: rest =>
      (arrayItems depth (rest.length + 1) rest).map fun r => (.array r.1, r.2)
  | depth + 1, '\x7b' :: rest =>
      match skipSpaces rest with
      | '\x7d' :: left => some (.table .closed [], left)
      | start =>
          (inlinePairs depth (rest.length + 1) .opened [] start).map fun r =>
            (.table .closed r.1, r.2)
  | _, cs => scalar cs
  termination_by depth => (depth, 0)

def arrayItems (depth : Nat) : Nat → Reader (List Tree)
  | 0, _ => none
  | fuel + 1, cs =>
      match skipBlankLines (cs.length + 1) cs with
      | ']' :: rest => some ([], rest)
      | start => do
          let (item, after) ← value depth start
          match skipBlankLines (after.length + 1) after with
          | ',' :: rest => do
              let (items, left) ← arrayItems depth fuel rest
              return (item :: items, left)
          | ']' :: rest => return ([item], rest)
          | _ => none
  termination_by fuel => (depth, fuel + 1)

def inlinePairs (depth : Nat) : Nat → Shape → Entries → Reader Entries
  | 0, _, _, _ => none
  | fuel + 1, shape, es, cs => do
      let (path, afterKey) ← key cs
      let afterEquals ← expect '=' (skipSpaces afterKey)
      let (v, afterValue) ← value depth (skipSpaces afterEquals)
      let (_, es') ← assign path v shape es
      match skipSpaces afterValue with
      | ',' :: rest => inlinePairs depth fuel shape es' (skipSpaces rest)
      | '\x7d' :: rest => return (es', rest)
      | _ => none
  termination_by fuel => (depth, fuel + 1)

end

/-- What may follow a statement on its line; gives the next line. -/
def lineEnd (cs : Rest) : Option Rest :=
  match skipComment (skipSpaces cs) with
  | [] => some []
  | left => newline left

def statement : Reader Statement := fun cs =>
  match cs with
  | '[' :: '[' :: rest => do
      let (path, after) ← key (skipSpaces rest)
      let after ← expect ']' (skipSpaces after)
      let after ← expect ']' after
      return (.arrayHeader path, after)
  | '[' :: rest => do
      let (path, after) ← key (skipSpaces rest)
      let after ← expect ']' (skipSpaces after)
      return (.header path, after)
  | cs => do
      let (path, after) ← key cs
      let after ← expect '=' (skipSpaces after)
      let (v, after) ← value maxDepth (skipSpaces after)
      return (.pair path v, after)

def statements : Nat → Rest → Option (List Statement)
  | 0, _ => none
  | fuel + 1, cs =>
      match skipBlankLines (cs.length + 1) cs with
      | [] => some []
      | start => do
          let (s, after) ← statement start
          let left ← lineEnd after
          let others ← statements fuel left
          return s :: others

/-- A mark of the byte order in front of the text does not count. -/
def skipMark : Rest → Rest
  | c :: rest => if c.toNat = 0xfeff then rest else c :: rest
  | [] => []

def parse (s : String) : Option Entries :=
  let cs := skipMark s.toList
  (statements (cs.length + 1) cs).bind build

end RobotControl.Toml
