import DerivedColumns.Number.Reader

set_option autoImplicit false

/-!
Each function takes the text from where a value may start and returns what it read with the rest of
the text. A fault is either text that is no JSON or a value of a kind that was not asked for; the
first one met decides.

Numbers keep the digits that fit into 64 bits and are then scaled by one power of ten at a time, so a
number with very many digits may miss the nearest floating-point number by a little.
-/

namespace DerivedColumns.Json.Scan

inductive Fault where
  | malformed
  | mismatched
deriving DecidableEq

abbrev Reading (α : Type) := Except Fault (α × List Char)

def isGap (c : Char) : Bool := c = ' ' || c = '\n' || c = '\t' || c = '\r'

def skipGap (s : List Char) : List Char := s.dropWhile isGap

def hexValue? (c : Char) : Option Nat :=
  if '0' ≤ c ∧ c ≤ '9' then some (c.toNat - '0'.toNat)
  else if 'a' ≤ c ∧ c ≤ 'f' then some (c.toNat - 'a'.toNat + 10)
  else if 'A' ≤ c ∧ c ≤ 'F' then some (c.toNat - 'A'.toNat + 10)
  else none

def hex4? : List Char → Option (Nat × List Char)
  | a :: b :: c :: d :: rest => do
    let a ← hexValue? a
    let b ← hexValue? b
    let c ← hexValue? c
    let d ← hexValue? d
    some (((a * 16 + b) * 16 + c) * 16 + d, rest)
  | _ => none

/-- A character written as its code, by two codes if it lies beyond the first 2 ^ 16. -/
def coded? (s : List Char) : Option (Char × List Char) := do
  let (n, s) ← hex4? s
  if 0xDC00 ≤ n ∧ n ≤ 0xDFFF then none
  else if 0xD800 ≤ n ∧ n ≤ 0xDBFF then
    match s with
    | '\\' :: 'u' :: s =>
      let (low, s) ← hex4? s
      if 0xDC00 ≤ low ∧ low ≤ 0xDFFF then
        some (Char.ofNat ((n - 0xD800) * 1024 + (low - 0xDC00) + 0x10000), s)
      else none
    | _ => none
  else some (Char.ofNat n, s)

def escaped? : List Char → Option (Char × List Char)
  | '"' :: s => some ('"', s)
  | '\\' :: s => some ('\\', s)
  | '/' :: s => some ('/', s)
  | 'b' :: s => some ('\x08', s)
  | 'f' :: s => some ('\x0c', s)
  | 'n' :: s => some ('\n', s)
  | 'r' :: s => some ('\r', s)
  | 't' :: s => some ('\t', s)
  | 'u' :: s => coded? s
  | _ => none

def skipEscaped? : List Char → Option (Char × List Char)
  | 'u' :: s => (hex4? s).map fun (_, rest) => (' ', rest)
  | s => escaped? s

def content? (escape : List Char → Option (Char × List Char)) (s : List Char) :
    Option (List Char × List Char) :=
  match s with
  | [] => none
  | '"' :: rest => some ([], rest)
  | '\\' :: rest =>
    match escape rest with
    | some (c, more) =>
      if more.length ≤ rest.length then
        (content? escape more).map fun (cs, rest) => (c :: cs, rest)
      else none
    | none => none
  | c :: rest =>
    if c.toNat < 0x20 then none
    else (content? escape rest).map fun (cs, rest) => (c :: cs, rest)
termination_by s.length
decreasing_by all_goals simp only [List.length_cons]; omega

/-- A number as it was written: whole, or with a fraction or an exponent, or beyond 64 bits. -/
inductive Numeric where
  | natural (n : Nat)
  | negative (n : Nat)
  | real (x : Float)

/-- `digits · 10 ^ exponent` in steps: by up to 10 ^ 308 at a time, each step rounded. -/
def scaled? (digits : Float) (exponent : Int) : Option Float :=
  if exponent.natAbs ≤ 308 then
    let power := Float.ofScientific 1 false exponent.natAbs
    if 0 ≤ exponent then
      let x := digits * power
      if x.isFinite then some x else none
    else some (digits / power)
  else if digits == 0 then some digits
  else if 0 ≤ exponent then none
  else scaled? (digits / 1e308) (exponent + 308)
termination_by (-exponent).toNat
decreasing_by omega

def widest : Nat := Nat.pow 2 64

def takeFitting (n : Nat) (count : Nat) : List Char → Nat × Nat × List Char
  | [] => (n, count, [])
  | c :: ds =>
    let next := 10 * n + (c.toNat - '0'.toNat)
    if next < widest then takeFitting next (count + 1) ds else (n, count, c :: ds)

/-- The exponents that are told apart; a larger one makes the number zero or too large. -/
def exponentLimit : Nat := Nat.pow 2 31

def saturate (n : Int) : Int := max (-(exponentLimit : Int)) (min ((exponentLimit : Int) - 1) n)

def withExponent? (digits : Nat) (exponent : Int) : List Char → Option (Float × List Char)
  | mark :: s =>
    if mark = 'e' ∨ mark = 'E' then
      match Number.exponent? (mark :: s) with
      | none => none
      | some (e, rest) =>
        if exponentLimit ≤ e.natAbs then
          if digits ≠ 0 ∧ 0 < e then none else some (0, rest)
        else (scaled? (Float.ofNat digits) (saturate (exponent + e))).map (·, rest)
    else (scaled? (Float.ofNat digits) exponent).map (·, mark :: s)
  | [] => (scaled? (Float.ofNat digits) exponent).map (·, [])

def magnitude? (s : List Char) : Option (Numeric × List Char) :=
  match Number.spanDigits s with
  | ([], _) => none
  | ('0' :: _ :: _, _) => none
  | (ds, rest) =>
    let (n, _, excess) := takeFitting 0 0 ds
    let real (r : Option (Float × List Char)) : Option (Numeric × List Char) :=
      r.map fun (x, rest) => (.real x, rest)
    match rest with
    | '.' :: s =>
      match Number.spanDigits s with
      | ([], _) => none
      | (fs, rest) =>
        let (n, taken, _) := takeFitting n 0 fs
        real (withExponent? n ((excess.length : Int) - taken) rest)
    | mark :: s =>
      if mark = 'e' ∨ mark = 'E' ∨ ¬excess.isEmpty then
        real (withExponent? n excess.length (mark :: s))
      else some (.natural n, rest)
    | [] => if excess.isEmpty then some (.natural n, []) else real (withExponent? n excess.length [])

/-- A number. A whole number below zero must fit into 64 bits to stay whole; negative zero does not. -/
def number? : List Char → Option (Numeric × List Char)
  | '-' :: s => (magnitude? s).map fun (m, rest) =>
    match m with
    | .natural n => (if n = 0 ∨ Nat.pow 2 63 < n then .real (-(Float.ofNat n)) else .negative n, rest)
    | .negative n => (.natural n, rest)
    | .real x => (.real (-x), rest)
  | s => magnitude? s

def Numeric.toNumber : Numeric → Number
  | .natural n => .ofNat n
  | .negative n => -.ofNat n
  | .real x => .ofFloat x

def word? (word : List Char) (s : List Char) : Option (List Char) :=
  if word.isPrefixOf s then some (s.drop word.length) else none

inductive Scalar where
  | null
  | bool (b : Bool)
  | number (x : Number)
  | string (s : List Char)
deriving DecidableEq

def scalar? : List Char → Option (Scalar × List Char)
  | 'n' :: s => (word? ['u', 'l', 'l'] s).map (.null, ·)
  | 't' :: s => (word? ['r', 'u', 'e'] s).map (.bool true, ·)
  | 'f' :: s => (word? ['a', 'l', 's', 'e'] s).map (.bool false, ·)
  | '"' :: s => (content? escaped? s).map fun (cs, rest) => (.string cs, rest)
  | s => (number? s).map fun (n, rest) => (.number n.toNumber, rest)

def wholeScalar? (s : List Char) : Option Scalar :=
  match scalar? (skipGap s) with
  | some (v, rest) => if (skipGap rest).isEmpty then some v else none
  | none => none

def unexpected (s : List Char) : Fault :=
  match s with
  | '[' :: _ => .mismatched
  | '{' :: _ => .mismatched
  | s => if (scalar? s).isSome then .mismatched else .malformed

def string (s : List Char) : Reading String :=
  match skipGap s with
  | '"' :: s =>
    match content? escaped? s with
    | some (cs, rest) => .ok (String.ofList cs, rest)
    | none => .error .malformed
  | s => .error (unexpected s)

def bool (s : List Char) : Reading Bool :=
  match scalar? (skipGap s) with
  | some (.bool b, rest) => .ok (b, rest)
  | _ => .error (unexpected (skipGap s))

def optional {α : Type} (read : List Char → Reading α) (s : List Char) : Reading (Option α) :=
  match skipGap s with
  | 'n' :: s =>
    match word? ['u', 'l', 'l'] s with
    | some rest => .ok (none, rest)
    | none => .error .malformed
  | s => (read s).map fun (a, rest) => (some a, rest)

def colon (s : List Char) : Except Fault (List Char) :=
  match skipGap s with
  | ':' :: rest => .ok rest
  | _ => .error .malformed

def skipNumber? (s : List Char) : Option (List Char) :=
  let s := match s with
    | '-' :: s => s
    | s => s
  match Number.spanDigits s with
  | ([], _) => none
  | ('0' :: _ :: _, _) => none
  | (_, rest) =>
    let rest := match rest with
      | '.' :: s =>
        match Number.spanDigits s with
        | ([], _) => none
        | (_, rest) => some rest
      | rest => some rest
    match rest with
    | some (mark :: s) =>
      if mark = 'e' ∨ mark = 'E' then (Number.exponent? (mark :: s)).map Prod.snd
      else some (mark :: s)
    | rest => rest

mutual

/-- Passes over one value, checking only that it is JSON. Each step into the text uses up one of
`fuel`. -/
def skipValue? (fuel : Nat) (s : List Char) : Option (List Char) :=
  match fuel with
  | 0 => none
  | fuel + 1 =>
    match skipGap s with
    | 'n' :: s => word? ['u', 'l', 'l'] s
    | 't' :: s => word? ['r', 'u', 'e'] s
    | 'f' :: s => word? ['a', 'l', 's', 'e'] s
    | '"' :: s => (content? skipEscaped? s).map Prod.snd
    | '[' :: s =>
      match skipGap s with
      | ']' :: rest => some rest
      | s => skipItems? fuel s
    | '{' :: s =>
      match skipGap s with
      | '}' :: rest => some rest
      | s => skipMembers? fuel s
    | s => skipNumber? s

def skipItems? (fuel : Nat) (s : List Char) : Option (List Char) :=
  match fuel with
  | 0 => none
  | fuel + 1 =>
    match skipValue? fuel s with
    | none => none
    | some s =>
      match skipGap s with
      | ']' :: rest => some rest
      | ',' :: s => skipItems? fuel s
      | _ => none

def skipMembers? (fuel : Nat) (s : List Char) : Option (List Char) :=
  match fuel with
  | 0 => none
  | fuel + 1 =>
    match skipGap s with
    | '"' :: s =>
      match content? skipEscaped? s with
      | none => none
      | some (_, s) =>
        match skipGap s with
        | ':' :: s =>
          match skipValue? fuel s with
          | none => none
          | some s =>
            match skipGap s with
            | '}' :: rest => some rest
            | ',' :: s => skipMembers? fuel s
            | _ => none
        | _ => none
    | _ => none

end

def skip (s : List Char) : Except Fault (List Char) :=
  match skipValue? (2 * s.length + 2) s with
  | some rest => .ok rest
  | none => .error .malformed

end DerivedColumns.Json.Scan
