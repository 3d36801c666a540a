import DerivedColumns.Formula.Outcome
import DerivedColumns.Formula.Printer
import DerivedColumns.Number.Reader

set_option autoImplicit false

/-!
White space is space, tab and the two line ends. A comment runs from two slashes to the end of its
line; a carriage return alone does not end a line, and makes the comment none.
-/

namespace DerivedColumns.Formula

def isSpace (c : Char) : Bool := c = ' ' || c = '\t' || c = '\r' || c = '\n'

def lineEnd? (s : List Char) : Option (List Char) :=
  match s.dropWhile fun c => c ≠ '\r' && c ≠ '\n' with
  | '\r' :: '\n' :: rest => some ('\r' :: '\n' :: rest)
  | '\r' :: _ => none
  | rest => some rest

theorem lineEnd?_length {s rest : List Char} (h : lineEnd? s = some rest) :
    rest.length ≤ s.length := by
  have hd := (List.dropWhile_sublist (l := s) fun c => c ≠ '\r' && c ≠ '\n').length_le
  unfold lineEnd? at h
  split at h
  · rename_i he; rw [he] at hd; cases h; exact hd
  · cases h
  · cases h; exact hd

def skipLayout : List Char → List Char
  | [] => []
  | c :: s =>
    if isSpace c then skipLayout s
    else
      match c, s with
      | '/', '/' :: more =>
        match _end : lineEnd? more with
        | some rest => skipLayout rest
        | none => c :: s
      | _, _ => c :: s
termination_by s => s.length
decreasing_by
  · simp
  · have := lineEnd?_length ‹_›
    simp only [List.length_cons]; omega

def skip : Reader Unit := fun s => .ok () (skipLayout s)

def isWordStart (c : Char) : Bool := c.isAlpha || c = '_' || c = '$'

def isWordPart (c : Char) : Bool := c.isAlphanum || c = '_' || c = '$'

def isWord : List Char → Bool
  | [] => false
  | c :: s => isWordStart c && s.all isWordPart

def word : Reader String := fun s =>
  match s with
  | c :: rest =>
    if isWordStart c then
      .ok (String.ofList (c :: rest.takeWhile isWordPart)) (rest.dropWhile isWordPart)
    else .soft ⟨.missing none [], s⟩
  | [] => .soft ⟨.missing none [], s⟩

/-- The numeral at the head of `s`. A point or an exponent mark that no digit follows is not part of
it, and neither is a point at its end. -/
def numeral? (s : List Char) : Option (Number.Numeral × List Char) :=
  match Number.spanDigits s with
  | ([], _) =>
    match s with
    | '.' :: s =>
      match Number.spanDigits s with
      | ([], _) => none
      | (fraction, s) =>
        let (e, rest) := Number.spanExponent s
        some (⟨[], fraction, e⟩, rest)
    | _ => none
  | (whole, s) =>
    let (fraction, s) := match s with
      | '.' :: s' =>
        match Number.spanDigits s' with
        | ([], _) => ([], s)
        | (fraction, rest) => (fraction, rest)
      | s => ([], s)
    let (e, rest) := Number.spanExponent s
    some (⟨whole, fraction, e⟩, rest)

/-- A number constant. One beyond the finite numbers is an error after its last digit. -/
def number : Reader Number := fun s =>
  match numeral? s with
  | none => .soft ⟨.missing none [], s⟩
  | some (n, rest) =>
    let x := n.toNumber
    if x.isFinite then .ok x rest
    else .hard ⟨.missing (some "number literal") [.phrase "finite number"], rest⟩

/-- What a character after a backslash stands for: itself, but for a few letters. -/
def unescape (c : Char) : Char :=
  if c = 'n' then '\n'
  else if c = 't' then '\t'
  else if c = 'r' then '\r'
  else if c = '0' then '\x00'
  else c

def content (quote : Char) : List Char → Outcome (List Char)
  | [] => .soft ⟨.missing none [], []⟩
  | c :: s =>
    if c = quote then .ok [] (c :: s)
    else if c = '\\' then
      match s with
      | [] => .soft ⟨.missing none [], ['\\']⟩
      | e :: s =>
        match content quote s with
        | .ok cs rest => .ok (unescape e :: cs) rest
        | o => o
    else
      match content quote s with
      | .ok cs rest => .ok (c :: cs) rest
      | o => o

def textBetween (quote : Char) : Reader String := do
  Reader.char quote
  Reader.wanting (.phrase "closing quote") <| Reader.within "string literal" <| Reader.cut do
    let cs ← (content quote : Reader (List Char))
    Reader.char quote
    return String.ofList cs

def textConstant : Reader String := Reader.orElse (textBetween '"') (textBetween '\'')

/-- The first of some operators whose symbol stands at the head of the text. Two slashes are no
division but a comment. -/
def operator (ops : List BinaryOp) : Reader BinaryOp := fun s =>
  let found := ops.find? fun op =>
    op.symbol.isPrefixOf s && !(op = .div && ['/', '/'].isPrefixOf s)
  match found with
  | some op => .ok op (s.drop op.symbol.length)
  | none => .soft ⟨.missing none [], s⟩

def sign : Reader UnaryOp := fun s =>
  match s with
  | '-' :: rest => .ok .neg rest
  | '+' :: rest => .ok .plus rest
  | '!' :: '=' :: _ => .soft ⟨.missing none [], s⟩
  | '!' :: rest => .ok .not rest
  | _ => .soft ⟨.missing none [], s⟩

end DerivedColumns.Formula
