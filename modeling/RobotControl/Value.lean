/-!
# Self-describing values

What a call answers and how a record is written down: truth values, whole numbers, texts, lists
and records with named fields.  `Value.render` is the compact text with the fields of a record in
the order of their names.
-/
set_option autoImplicit false

namespace RobotControl

/-- A self-describing value.  `decimal m p` is the number `m / 10^p`, and `flag` a truth value. -/
inductive Value where
  | null
  | flag (b : Bool)
  | whole (n : Int)
  | decimal (mantissa : Int) (places : Nat)
  | text (s : String)
  | list (items : List Value)
  | fields (items : List (String × Value))
  deriving Inhabited

namespace Value

def ok : Value := .text "ok"

def count (n : Nat) : Value := .whole n

def ofOption {α : Type} (f : α → Value) : Option α → Value
  | none => .null
  | some a => f a

def hexDigit (n : Nat) : Char :=
  let d := n % 16
  if d < 10 then Char.ofNat (48 + d) else Char.ofNat (87 + d)

def hexDigits : Nat → Nat → List Char
  | 0, _ => []
  | width + 1, n => hexDigits width (n / 16) ++ [hexDigit n]

def escaped (c : Char) : List Char :=
  match c with
  | '"' => ['\\', '"']
  | '\\' => ['\\', '\\']
  | '\n' => ['\\', 'n']
  | '\r' => ['\\', 'r']
  | '\t' => ['\\', 't']
  | '\x08' => ['\\', 'b']
  | '\x0c' => ['\\', 'f']
  | c => if c.toNat < 32 then ['\\', 'u'] ++ hexDigits 4 c.toNat else [c]

def quoted (s : String) : String :=
  "\"" ++ String.ofList (s.toList.flatMap escaped) ++ "\""

/-- Places a named field among fields ordered by name; of two equal names the later one stays. -/
def insertField (k : String) (v : String) : List (String × String) → List (String × String)
  | [] => [(k, v)]
  | (j, w) :: rest =>
      if k < j then (k, v) :: (j, w) :: rest
      else if k = j then (k, v) :: rest
      else (j, w) :: insertField k v rest

def decimalText (m : Int) (p : Nat) : String :=
  let digits := toString m.natAbs
  let padded := String.ofList (List.replicate (p + 1 - digits.length) '0') ++ digits
  let whole := String.ofList (padded.toList.take (padded.length - p))
  let rest := String.ofList (padded.toList.drop (padded.length - p))
  (if m < 0 then "-" else "") ++ whole ++ (if p = 0 then "" else "." ++ rest)

mutual

def render : Value → String
  | .null => "null"
  | .flag b => if b then "true" else "false"
  | .whole n => toString n
  | .decimal m p => decimalText m p
  | .text s => quoted s
  | .list items => "[" ++ ",".intercalate (renderAll items) ++ "]"
  | .fields items =>
      let members := (renderFields items).map fun e => quoted e.1 ++ ":" ++ e.2
      "\x7b" ++ ",".intercalate members ++ "\x7d"

def renderAll : List Value → List String
  | [] => []
  | v :: rest => render v :: renderAll rest

def renderFields : List (String × Value) → List (String × String)
  | [] => []
  | (k, v) :: rest =>
      let others := renderFields rest
      if others.any (·.1 = k) then others else insertField k (render v) others

end

/-- The field of that name, the last one where a name stands twice. -/
def field? (name : String) : Value → Option Value
  | .fields items => (items.reverse.find? (·.1 = name)).map (·.2)
  | _ => none

def text? : Value → Option String
  | .text s => some s
  | _ => none

end Value

end RobotControl
