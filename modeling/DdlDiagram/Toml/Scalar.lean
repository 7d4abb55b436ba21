import DdlDiagram.Toml.Value

/-!
# TOML scalars

Numbers, truth values, dates, times and strings. Digits may be separated by single underscores in
numbers. A date has to be one of the calendar, and only a time behind a date may have an offset from
universal time. A string in single quotes is taken as it stands, one in double quotes has escapes;
tripled quotes allow several lines, whose ends are kept as they are written. Control characters
other than the tab have to be escaped.
-/

namespace DdlDiagram
namespace Toml

def digit? (base : Nat) (c : Char) : Option Nat :=
  let value :=
    if c.isDigit then c.toNat - '0'.toNat
    else if 'a' ≤ c ∧ c ≤ 'f' then c.toNat - 'a'.toNat + 10
    else if 'A' ≤ c ∧ c ≤ 'F' then c.toNat - 'A'.toNat + 10
    else base
  if value < base then some value else none

/-- The number that digits write behind the digits of `value`. An underscore has to stand
between two digits; `behindDigit` tells whether one stands before the text. -/
def digitsFrom? (base value : Nat) (behindDigit : Bool) : Text → Option Nat
  | [] => if behindDigit then some value else none
  | c :: rest =>
    if c = '_' then
      if behindDigit then digitsFrom? base value false rest else none
    else (digit? base c).bind fun d => digitsFrom? base (value * base + d) true rest

def digits? (base : Nat) (t : Text) : Option Nat := digitsFrom? base 0 false t

/-- The number that decimal digits without a leading zero write. -/
def decimalDigits? (t : Text) : Option Nat :=
  if t.head? = some '0' && t.length ≠ 1 then none else digits? 10 t

/-- Whether a number starts with a minus sign, and the number without its sign. -/
def splitSign : Text → Bool × Text
  | '-' :: rest => (true, rest)
  | '+' :: rest => (false, rest)
  | t => (false, t)

/-- The integer that a text writes. Only a decimal one may have a sign. -/
def integer? : Text → Option Int
  | '0' :: 'x' :: rest => (digits? 16 rest).map Int.ofNat
  | '0' :: 'o' :: rest => (digits? 8 rest).map Int.ofNat
  | '0' :: 'b' :: rest => (digits? 2 rest).map Int.ofNat
  | t =>
    let (negative, rest) := splitSign t
    (decimalDigits? rest).map fun n => if negative then -(n : Int) else n

def exponent? (t : Text) : Option Int :=
  let (negative, rest) := splitSign t
  (digits? 10 rest).map fun n => if negative then -(n : Int) else n

/-- A floating-point number: whole digits, then a fraction or an exponent or both. -/
def floating? (t : Text) : Option Floating :=
  let t := (splitSign t).2
  if t = "inf".toList || t = "nan".toList then some .named
  else
    let mantissa := t.takeWhile fun c => c != 'e' && c != 'E'
    let whole := mantissa.takeWhile (· != '.')
    let fraction? : Option (Nat × Nat) :=
      match mantissa.dropWhile (· != '.') with
      | [] => some (0, 0)
      | _ :: digits => (digits? 10 digits).map fun n => (n, (digits.filter (· != '_')).length)
    let power? :=
      match t.drop mantissa.length with
      | [] => if whole.length = mantissa.length then none else some 0
      | _ :: digits => exponent? digits
    match decimalDigits? whole, fraction?, power? with
    | some n, some (fraction, places), some power =>
      some (.decimal (n * Nat.pow 10 places + fraction) (power - places))
    | _, _, _ => none

/-- A text without the character it starts with, if that is the given one. -/
def behind? (mark : Char) : Text → Option Text
  | [] => none
  | c :: rest => if c = mark then some rest else none

/-- The number up to a bound that the first `width` characters write, and the rest. -/
def field? (width bound : Nat) (t : Text) : Option (Nat × Text) := do
  let digits := t.take width
  if digits.length = width && digits.all Char.isDigit then
    let n ← digits? 10 digits
    if n ≤ bound then some (n, t.drop width) else none
  else none

def daysOf (year month : Nat) : Nat :=
  if month = 2 then
    if year % 4 = 0 ∧ (year % 100 ≠ 0 ∨ year % 400 = 0) then 29 else 28
  else if [4, 6, 9, 11].contains month then 30
  else 31

def behindDate? (t : Text) : Option Text := do
  let (year, t) ← field? 4 9999 t
  let (month, t) ← field? 2 12 (← behind? '-' t)
  let (day, t) ← field? 2 (daysOf year month) (← behind? '-' t)
  if month = 0 ∨ day = 0 then none else some t

/-- The rest behind an hour and a minute. -/
def behindMinute? (t : Text) : Option Text := do
  let (_, t) ← field? 2 23 t
  let (_, t) ← field? 2 59 (← behind? ':' t)
  some t

/-- The rest behind a time. Its seconds may be missing or have a fraction, and there are leap
seconds. -/
def behindTime? (t : Text) : Option Text := do
  match ← behindMinute? t with
  | ':' :: t =>
    let (_, t) ← field? 2 60 t
    match t with
    | '.' :: t => if t.head?.any Char.isDigit then some (t.dropWhile Char.isDigit) else none
    | t => some t
  | t => some t

def behindOffset? : Text → Option Text
  | [] => some []
  | c :: t =>
    if c = 'Z' ∨ c = 'z' then some t
    else if c = '+' ∨ c = '-' then behindMinute? t
    else none

def isMoment (t : Text) : Bool :=
  match behindDate? t with
  | some [] => true
  | some (c :: t) => ['T', 't', ' '].contains c && (behindTime? t >>= behindOffset?) == some []
  | none => behindTime? t == some []

def baseMarks : List Text := ["0x".toList, "0o".toList, "0b".toList]

def scalar? (t : Text) : Option Value :=
  if t = "true".toList then some (.boolean true)
  else if t = "false".toList then some (.boolean false)
  else if baseMarks.contains t then some .baseMark
  else ((integer? t).map .integer).or <| ((floating? t).map .floating).or <|
    if isMoment t then some (.moment t) else none

def isPrintable (c : Char) : Bool := c == '\t' || (' ' ≤ c && c != '\x7F')

def isSpace (c : Char) : Bool := c == ' ' || c == '\t'

/-- Whether a line ends here: at a line feed, or at a carriage return that a line feed follows. -/
def atLineEnd : Text → Bool
  | '\n' :: _ => true
  | '\r' :: '\n' :: _ => true
  | _ => false

def charOfHex? (digits : Text) : Option Char := do
  let n ← digits.foldlM (fun value c => (digit? 16 c).map (value * 16 + ·)) 0
  if h : n.isValidChar then some (Char.ofNatAux n h) else none

def escaped? (c : Char) : Option Char :=
  if c = 'b' then some '\x08'
  else if c = 't' then some '\t'
  else if c = 'n' then some '\n'
  else if c = 'f' then some '\x0C'
  else if c = 'r' then some '\r'
  else if c = 'e' then some '\x1B'
  else if c = '"' then some '"'
  else if c = '\\' then some '\\'
  else none

/-- The rest behind the closing quotes that a text starts with, if it does. Before tripled
quotes up to two more belong to the string. -/
def closing? (quote : Char) (tripled : Bool) (t : Text) : Option (Text × Text) :=
  let run := t.takeWhile (· == quote)
  if tripled then
    if run.length < 3 then none
    else
      let extra := min (run.length - 3) 2
      some (List.replicate extra quote, t.drop (extra + 3))
  else if run.isEmpty then none
  else some ([], t.drop 1)

/-- The text of a string that is taken as it stands, and the rest behind its closing quotes. -/
def literalBody? (tripled : Bool) : Text → Option (Text × Text)
  | [] => none
  | c :: rest =>
    match closing? '\'' tripled (c :: rest) with
    | some closed => some closed
    | none =>
      if isPrintable c || (tripled && atLineEnd (c :: rest)) then
        (literalBody? tripled rest).map (·.map (c :: ·) id)
      else none

/-- The text of a string with escapes, and the rest behind its closing quotes. A backslash at
the end of a line drops white space up to the next other character; `skipping` tells that one
did. -/
def basicBody? (tripled skipping : Bool) : Text → Option (Text × Text)
  | [] => none
  | '\\' :: 'x' :: a :: b :: rest => do
    let c ← charOfHex? [a, b]
    (basicBody? tripled false rest).map (·.map (c :: ·) id)
  | '\\' :: 'u' :: a :: b :: c :: d :: rest => do
    let c ← charOfHex? [a, b, c, d]
    (basicBody? tripled false rest).map (·.map (c :: ·) id)
  | '\\' :: 'U' :: a :: b :: c :: d :: e :: f :: g :: h :: rest => do
    let c ← charOfHex? [a, b, c, d, e, f, g, h]
    (basicBody? tripled false rest).map (·.map (c :: ·) id)
  | '\\' :: c :: rest =>
    match escaped? c with
    | some c => (basicBody? tripled false rest).map (·.map (c :: ·) id)
    | none =>
      if tripled && atLineEnd ((c :: rest).dropWhile isSpace) then
        basicBody? tripled true rest
      else none
  | c :: rest =>
    match closing? '"' tripled (c :: rest) with
    | some closed => some closed
    | none =>
      if skipping && (isSpace c || atLineEnd (c :: rest)) then basicBody? tripled true rest
      else if isPrintable c || (tripled && atLineEnd (c :: rest)) then
        (basicBody? tripled false rest).map (·.map (c :: ·) id)
      else none

def dropLineEnd : Text → Text
  | '\n' :: rest => rest
  | '\r' :: '\n' :: rest => rest
  | t => t

/-- A string on one line, as it may also stand for a key. -/
def lineString? : Text → Option (Text × Text)
  | '"' :: rest => basicBody? false false rest
  | '\'' :: rest => literalBody? false rest
  | _ => none

def string? : Text → Option (Text × Text)
  | '"' :: '"' :: '"' :: rest => basicBody? true false (dropLineEnd rest)
  | '\'' :: '\'' :: '\'' :: rest => literalBody? true (dropLineEnd rest)
  | t => lineString? t

end Toml
end DdlDiagram
