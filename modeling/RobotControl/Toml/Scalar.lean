import RobotControl.Number.Double
import RobotControl.Toml.Document

/-!
# TOML scalars

Readers for keys, strings, numbers, truth values and points in time.  Every reader takes the
characters that are left and gives its value with what follows it, or nothing.
-/
set_option autoImplicit false

namespace RobotControl.Toml

abbrev Rest := List Char

abbrev Reader (α : Type) := Rest → Option (α × Rest)

def isSpace (c : Char) : Bool := c = ' ' || c = '\t'

def skipSpaces (cs : Rest) : Rest := cs.dropWhile isSpace

def newline : Rest → Option Rest
  | '\n' :: rest => some rest
  | '\x0d' :: '\n' :: rest => some rest
  | _ => none

def isInLine (c : Char) : Bool := c = '\t' || (32 ≤ c.toNat && c.toNat ≠ 127)

def skipComment : Rest → Rest
  | '#' :: rest => rest.dropWhile isInLine
  | cs => cs

def skipBlankLines : Nat → Rest → Rest
  | 0, cs => cs
  | fuel + 1, cs =>
      let after := skipComment (skipSpaces cs)
      match newline after with
      | some rest => skipBlankLines fuel rest
      | none => after

def isBareKeyChar (c : Char) : Bool := c.isAlphanum || c = '_' || c = '-'

def hexValue (c : Char) : Option Nat :=
  if c.isDigit then some (c.toNat - 48)
  else if 'a' ≤ c ∧ c ≤ 'f' then some (c.toNat - 87)
  else if 'A' ≤ c ∧ c ≤ 'F' then some (c.toNat - 55)
  else none

def hexChar : Nat → Nat → Reader Char
  | 0, n, cs => if n.isValidChar then some (Char.ofNat n, cs) else none
  | count + 1, n, c :: rest => (hexValue c).bind fun d => hexChar count (16 * n + d) rest
  | _ + 1, _, [] => none

def escape : Reader Char
  | 'b' :: rest => some ('\x08', rest)
  | 't' :: rest => some ('\t', rest)
  | 'n' :: rest => some ('\n', rest)
  | 'f' :: rest => some ('\x0c', rest)
  | 'r' :: rest => some ('\x0d', rest)
  | '"' :: rest => some ('"', rest)
  | '\\' :: rest => some ('\\', rest)
  | 'u' :: rest => hexChar 4 0 rest
  | 'U' :: rest => hexChar 8 0 rest
  | _ => none

def push (s : Option (List Char × Rest)) (c : Char) : Option (List Char × Rest) :=
  s.map fun r => (c :: r.1, r.2)

def basicBody : Nat → Reader (List Char)
  | 0, _ => none
  | _ + 1, '"' :: rest => some ([], rest)
  | fuel + 1, '\\' :: rest => (escape rest).bind fun r => push (basicBody fuel r.2) r.1
  | fuel + 1, c :: rest => if isInLine c then push (basicBody fuel rest) c else none
  | _ + 1, [] => none

def literalBody : Reader (List Char)
  | '\'' :: rest => some ([], rest)
  | c :: rest => if isInLine c then push (literalBody rest) c else none
  | [] => none

def countQuotes (quote : Char) : Nat → Rest → Nat
  | 0, _ => 0
  | _ + 1, [] => 0
  | limit + 1, c :: rest => if c = quote then countQuotes quote limit rest + 1 else 0

def skipFolded : Rest → Rest
  | '\x0d' :: '\n' :: rest => skipFolded rest
  | c :: rest => if c = ' ' || c = '\t' || c = '\n' then skipFolded rest else c :: rest
  | [] => []

/-- The inside of a string of several lines up to its three closing quotes; up to two further
quotes in front of them belong to the text. -/
def longBody (quote : Char) (escapes : Bool) : Nat → Reader (List Char)
  | 0, _ => none
  | fuel + 1, cs =>
      let quotes := countQuotes quote 5 cs
      if 3 ≤ quotes then some (List.replicate (quotes - 3) quote, cs.drop quotes)
      else
        match cs with
        | '\n' :: rest => push (longBody quote escapes fuel rest) '\n'
        | '\x0d' :: '\n' :: rest => push (longBody quote escapes fuel rest) '\n'
        | '\\' :: rest =>
            if !escapes then push (longBody quote escapes fuel rest) '\\'
            else if (newline (skipSpaces rest)).isSome then
              longBody quote escapes fuel (skipFolded rest)
            else (escape rest).bind fun r => push (longBody quote escapes fuel r.2) r.1
        | c :: rest => if isInLine c then push (longBody quote escapes fuel rest) c else none
        | [] => none

def skipFirstNewline (cs : Rest) : Rest := (newline cs).getD cs

def string : Reader String
  | '"' :: '"' :: '"' :: rest =>
      (longBody '"' true (rest.length + 1) (skipFirstNewline rest)).map
        fun r => (String.ofList r.1, r.2)
  | '"' :: rest => (basicBody (rest.length + 1) rest).map fun r => (String.ofList r.1, r.2)
  | '\'' :: '\'' :: '\'' :: rest =>
      (longBody '\'' false (rest.length + 1) (skipFirstNewline rest)).map
        fun r => (String.ofList r.1, r.2)
  | '\'' :: rest => (literalBody rest).map fun r => (String.ofList r.1, r.2)
  | _ => none

def keyPart : Reader String
  | '"' :: rest => (basicBody (rest.length + 1) rest).map fun r => (String.ofList r.1, r.2)
  | '\'' :: rest => (literalBody rest).map fun r => (String.ofList r.1, r.2)
  | cs =>
      let name := cs.takeWhile isBareKeyChar
      if name.isEmpty then none else some (String.ofList name, cs.dropWhile isBareKeyChar)

/-- Values may be nested, and keys may have parts, up to this number. -/
def maxDepth : Nat := 79

def keyParts : Nat → Reader (List String)
  | 0, _ => none
  | count + 1, cs => do
      let (part, after) ← keyPart cs
      match skipSpaces after with
      | '.' :: rest => do
          let (others, left) ← keyParts count (skipSpaces rest)
          return (part :: others, left)
      | _ => return ([part], after)

def key : Reader (List String) := keyParts maxDepth

/-- Digits, with single underscores between them. -/
def digitRun (isDigit : Char → Bool) : Rest → List Char × Rest
  | [] => ([], [])
  | c :: '_' :: d :: rest =>
      if isDigit c then
        if isDigit d then
          let r := digitRun isDigit (d :: rest)
          (c :: r.1, r.2)
        else ([c], '_' :: d :: rest)
      else ([], c :: '_' :: d :: rest)
  | c :: rest =>
      if isDigit c then
        let r := digitRun isDigit rest
        (c :: r.1, r.2)
      else ([], c :: rest)

def ofDigits (base : Nat) (ds : List Char) : Nat :=
  ds.foldl (fun n c => base * n + (hexValue c).getD 0) 0

def basedInteger (base : Nat) (isDigit : Char → Bool) (cs : Rest) : Option (Int × Rest) :=
  match digitRun isDigit cs with
  | ([], _) => none
  | (ds, rest) => some (ofDigits base ds, rest)

def takeSign : Rest → Bool × Rest
  | '-' :: rest => (true, rest)
  | '+' :: rest => (false, rest)
  | cs => (false, cs)

def decimalDigits : Rest → Option (List Char × Rest)
  | '0' :: rest => some (['0'], rest)
  | cs =>
      match digitRun Char.isDigit cs with
      | ([], _) => none
      | r => some r

def integerLimit : Nat := UInt64.size / 2

def inRange (n : Int) : Bool := -(integerLimit : Int) ≤ n && n < integerLimit

def integer : Reader Int := fun cs =>
  let read : Option (Int × Rest) :=
    match cs with
    | '0' :: 'x' :: rest => basedInteger 16 (fun c => (hexValue c).isSome) rest
    | '0' :: 'o' :: rest => basedInteger 8 (fun c => '0' ≤ c && c ≤ '7') rest
    | '0' :: 'b' :: rest => basedInteger 2 (fun c => c = '0' || c = '1') rest
    | cs =>
        let (negative, rest) := takeSign cs
        (decimalDigits rest).map fun r =>
          (if negative then -(ofDigits 10 r.1 : Int) else ofDigits 10 r.1, r.2)
  read.bind fun r => if inRange r.1 then some r else none

def fraction : Rest → Option (List Char × Rest)
  | '.' :: rest =>
      match digitRun Char.isDigit rest with
      | ([], _) => none
      | r => some r
  | _ => none

def exponent : Rest → Option ((Bool × List Char) × Rest)
  | c :: rest =>
      if c = 'e' || c = 'E' then
        let (negative, digits) := takeSign rest
        match digitRun Char.isDigit digits with
        | ([], _) => none
        | r => some ((negative, r.1), r.2)
      else none
  | [] => none

def realLimit : Nat := Number.twoPow 1024 - Number.twoPow 970

def farPlaces : Nat := 400

/-- Whether a number with those digits, so many of them after the point, and that exponent is too
large for a double.  An exponent counts only as far as it can make a difference. -/
def overflows (digits : List Char) (places : Nat) (exp : Option (Bool × List Char)) : Bool :=
  let m := ofDigits 10 digits
  match exp with
  | none => realLimit ≤ m / Number.tenPow places
  | some (true, es) =>
      realLimit ≤ m / Number.tenPow (places + min (ofDigits 10 es) digits.length)
  | some (false, es) =>
      realLimit ≤
        m * Number.tenPow (min (ofDigits 10 es) (places + farPlaces)) / Number.tenPow places

def consumed (cs rest : Rest) : String := String.ofList (cs.take (cs.length - rest.length))

/-- A number with a fraction or an exponent, or one of the words for special values.  A negative
number may be too large, a positive one may not. -/
def real : Reader String := fun cs =>
  let (negative, body) := takeSign cs
  match body with
  | 'i' :: 'n' :: 'f' :: rest => some (consumed cs rest, rest)
  | 'n' :: 'a' :: 'n' :: rest => some (consumed cs rest, rest)
  | _ => do
      let (whole, afterWhole) ← decimalDigits body
      let (frac, exp, rest) ←
        match fraction afterWhole with
        | some (frac, afterFrac) =>
            match exponent afterFrac with
            | some (e, rest) => some (frac, some e, rest)
            | none => some (frac, none, afterFrac)
        | none => (exponent afterWhole).map fun r => ([], some r.1, r.2)
      if !negative && overflows (whole ++ frac) frac.length exp then none
      else some (consumed cs rest, rest)

def digits (count : Nat) (cs : Rest) : Option (Nat × Rest) :=
  let ds := cs.take count
  if ds.length = count && ds.all Char.isDigit then some (ofDigits 10 ds, cs.drop count) else none

def expect (c : Char) : Rest → Option Rest
  | d :: rest => if d = c then some rest else none
  | [] => none

def daysIn (year month : Nat) : Nat :=
  let leap := year % 4 = 0 && (year % 100 ≠ 0 || year % 400 = 0)
  if month = 2 then (if leap then 29 else 28)
  else if [4, 6, 9, 11].contains month then 30
  else 31

def date (cs : Rest) : Option Rest := do
  let (year, cs) ← digits 4 cs
  let cs ← expect '-' cs
  let (month, cs) ← digits 2 cs
  let cs ← expect '-' cs
  let (day, cs) ← digits 2 cs
  if 1 ≤ month && month ≤ 12 && 1 ≤ day && day ≤ daysIn year month then some cs else none

def time (cs : Rest) : Option Rest := do
  let (hour, cs) ← digits 2 cs
  let cs ← expect ':' cs
  let (minute, cs) ← digits 2 cs
  let cs ← expect ':' cs
  let (second, cs) ← digits 2 cs
  if hour ≤ 23 && minute ≤ 59 && second ≤ 60 then
    match cs with
    | '.' :: rest =>
        let ds := rest.takeWhile Char.isDigit
        if ds.isEmpty then some cs else some (rest.dropWhile Char.isDigit)
    | _ => some cs
  else none

def zone (cs : Rest) : Option Rest :=
  match cs with
  | 'Z' :: rest => some rest
  | 'z' :: rest => some rest
  | c :: rest =>
      if c = '+' || c = '-' then do
        let (hour, rest) ← digits 2 rest
        let rest ← expect ':' rest
        let (minute, rest) ← digits 2 rest
        if hour ≤ 23 && minute ≤ 59 then some rest else none
      else none
  | [] => none

def moment : Reader String := fun cs =>
  match date cs with
  | some afterDate =>
      match afterDate with
      | c :: rest =>
          if c = 'T' || c = 't' || c = ' ' then
            match time rest with
            | some afterTime =>
                let left := (zone afterTime).getD afterTime
                some (consumed cs left, left)
            | none => some (consumed cs afterDate, afterDate)
          else some (consumed cs afterDate, afterDate)
      | [] => some (consumed cs afterDate, afterDate)
  | none => (time cs).map fun rest => (consumed cs rest, rest)

def word (w : List Char) (cs : Rest) : Option Rest :=
  if cs.take w.length = w then some (cs.drop w.length) else none

def flag : Reader Bool := fun cs =>
  match word ['t', 'r', 'u', 'e'] cs with
  | some rest => some (true, rest)
  | none => (word ['f', 'a', 'l', 's', 'e'] cs).map fun rest => (false, rest)

/-- Any scalar.  Where several kinds could begin alike, a point in time is tried before a number
with a fraction, and that before an integer. -/
def scalar : Reader Tree := fun cs =>
  match cs with
  | '"' :: _ => (string cs).map fun r => (.text r.1, r.2)
  | '\'' :: _ => (string cs).map fun r => (.text r.1, r.2)
  | 't' :: _ => (flag cs).map fun r => (.flag r.1, r.2)
  | 'f' :: _ => (flag cs).map fun r => (.flag r.1, r.2)
  | _ =>
      match moment cs with
      | some (s, rest) => some (.moment s, rest)
      | none =>
          match real cs with
          | some (s, rest) => some (.real s, rest)
          | none => (integer cs).map fun r => (.whole r.1, r.2)

end RobotControl.Toml
