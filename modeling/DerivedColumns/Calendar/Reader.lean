import DerivedColumns.Calendar.Moment
import DerivedColumns.Number.Reader
import DerivedColumns.Text.Blank

set_option autoImplicit false

/-!
A form is a list of items read one after the other; the text must end with the last. Numbers may
have white space before them and fewer digits than usual, and a year may have a sign and then any
number of digits. Text with an offset from universal time is read by the stricter form of RFC 3339.
-/

namespace DerivedColumns.Calendar

open DerivedColumns.Number (ofDigits spanDigits)
open DerivedColumns.Text (trimStart)

inductive Part where
  | year
  | month
  | day
  | hour
  | minute
  | second
deriving DecidableEq

def Part.width : Part → Nat
  | .year => 4
  | _ => 2

inductive Item where
  /-- A number with white space before it and as many digits as there are, up to its width. -/
  | loose (p : Part)
  /-- A number of exactly its width. -/
  | exact (p : Part)
  | mark (choices : List Char)
  | gap
  /-- A point and digits of a second, or nothing. -/
  | fraction

structure Parts where
  year : Int
  month : Nat
  day : Nat
  hour : Nat
  minute : Nat
  second : Nat
  nano : Nat

def Parts.none : Parts := ⟨0, 0, 0, 0, 0, 0, 0⟩

def Parts.set (ps : Parts) (p : Part) (n : Int) : Parts :=
  match p with
  | .year => { ps with year := n }
  | .month => { ps with month := n.toNat }
  | .day => { ps with day := n.toNat }
  | .hour => { ps with hour := n.toNat }
  | .minute => { ps with minute := n.toNat }
  | .second => { ps with second := n.toNat }

def Parts.date? (ps : Parts) : Option Date := Date.ofParts? ps.year ps.month ps.day

def Parts.moment? (ps : Parts) : Option Moment := do
  let date ← ps.date?
  let time ← Time.ofParts? ps.hour ps.minute ps.second ps.nano
  some ⟨date, time⟩

def digitsUpTo? (width : Nat) (s : List Char) : Option (Nat × List Char) :=
  let ds := (s.take width).takeWhile Char.isDigit
  if ds.isEmpty then none else some (ofDigits ds, s.drop ds.length)

def anyDigits? (s : List Char) : Option (Nat × List Char) :=
  match spanDigits s with
  | ([], _) => none
  | (ds, rest) => some (ofDigits ds, rest)

def looseNumber? (p : Part) (s : List Char) : Option (Int × List Char) :=
  match p, trimStart s with
  | .year, '-' :: s => (anyDigits? s).map fun (n, rest) => (-(n : Int), rest)
  | .year, '+' :: s => (anyDigits? s).map fun (n, rest) => ((n : Int), rest)
  | p, s => (digitsUpTo? p.width s).map fun (n, rest) => ((n : Int), rest)

/-- The digits of a second as nanoseconds; those after the ninth are dropped. -/
def nanos (ds : List Char) : Nat := ofDigits (ds.take 9) * Nat.pow 10 (9 - ds.length)

def Item.read? (ps : Parts) (s : List Char) : Item → Option (Parts × List Char)
  | .loose p => (looseNumber? p s).map fun (n, rest) => (ps.set p n, rest)
  | .exact p =>
    let ds := (s.take p.width).takeWhile Char.isDigit
    if ds.length = p.width then some (ps.set p (ofDigits ds), s.drop p.width) else none
  | .mark choices =>
    match s with
    | c :: rest => if choices.contains c then some (ps, rest) else none
    | [] => none
  | .gap => some (ps, trimStart s)
  | .fraction =>
    match s with
    | '.' :: s =>
      match spanDigits s with
      | ([], _) => none
      | (ds, rest) => some ({ ps with nano := nanos ds }, rest)
    | s => some (ps, s)

def readItems? (ps : Parts) (s : List Char) : List Item → Option (Parts × List Char)
  | [] => some (ps, s)
  | item :: items => do
    let (ps, s) ← item.read? ps s
    readItems? ps s items

def readAll? (items : List Item) (s : List Char) : Option Parts :=
  match readItems? .none s items with
  | some (ps, []) => some ps
  | _ => none

def dateItems : List Item := [.loose .year, .mark ['-'], .loose .month, .mark ['-'], .loose .day]

def hourAndMinute : List Item := [.loose .hour, .mark [':'], .loose .minute]

def clockItems : List Item := hourAndMinute ++ [.mark [':'], .loose .second, .fraction]

def momentForms : List (List Item) :=
  [dateItems ++ .mark ['T'] :: clockItems,
   dateItems ++ .gap :: clockItems,
   dateItems ++ .mark ['T'] :: hourAndMinute,
   dateItems ++ .gap :: hourAndMinute]

def dateForms : List (List Item) :=
  [dateItems,
   [.loose .year, .mark ['/'], .loose .month, .mark ['/'], .loose .day],
   [.loose .month, .mark ['/'], .loose .day, .mark ['/'], .loose .year]]

/-- The form that the full text of a moment has; white space may stand between its items. -/
def isoForm : List Item :=
  [.loose .year, .gap, .mark ['-'], .loose .month, .gap, .mark ['-'], .loose .day, .gap, .mark ['T'],
   .loose .hour, .gap, .mark [':'], .loose .minute, .gap, .mark [':'], .loose .second, .fraction, .gap]

def offsetForm : List Item :=
  [.exact .year, .mark ['-'], .exact .month, .mark ['-'], .exact .day, .mark ['T', 't', ' '],
   .exact .hour, .mark [':'], .exact .minute, .mark [':'], .exact .second, .fraction]

def twoDigits? : List Char → Option (Nat × List Char)
  | a :: b :: rest => if a.isDigit && b.isDigit then some (ofDigits [a, b], rest) else none
  | _ => none

def clockOffset? (s : List Char) : Option (Nat × List Char) := do
  let (hours, s) ← twoDigits? s
  match s with
  | ':' :: s =>
    let (minutes, rest) ← twoDigits? s
    if hours < 24 ∧ minutes < 60 then some (hours * 60 + minutes, rest) else none
  | _ => none

def offset? : List Char → Option (Int × List Char)
  | [] => none
  | c :: s =>
    if c = 'Z' ∨ c = 'z' then some (0, s)
    else if c = '+' then (clockOffset? s).map fun (n, rest) => ((n : Int), rest)
    else if c = '-' ∨ c = '\u2212' then (clockOffset? s).map fun (n, rest) => (-(n : Int), rest)
    else none

def readOffsetMoment? (s : List Char) : Option Moment := do
  let (ps, s) ← readItems? .none s offsetForm
  let m ← ps.moment?
  match ← offset? s with
  | (minutes, []) => m.behind? minutes
  | _ => none

def readIso? (s : List Char) : Option Moment := (readAll? isoForm s).bind Parts.moment?

/-- A moment in any of the accepted forms. A date alone is its midnight. -/
def readMoment? (s : List Char) : Option Moment :=
  (readOffsetMoment? s).or <|
    (momentForms.findSome? fun form => (readAll? form s).bind Parts.moment?).or <|
      (dateForms.findSome? fun form => (readAll? form s).bind Parts.date?).map Moment.atMidnight

end DerivedColumns.Calendar
