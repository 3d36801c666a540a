set_option autoImplicit false

/-!
A reader takes the text ahead and yields a result with the rest, or fails. After a soft failure
another reading of the same text may be tried; a hard failure ends the whole reading. A failure keeps
the text left where it arose, and what was wanted there.
-/

namespace DerivedColumns.Formula

inductive Expected where
  | symbol (c : Char)
  | phrase (s : String)
deriving DecidableEq

inductive Cause where
  | tooDeep
  | missing (label : Option String) (expected : List Expected)
deriving DecidableEq

structure Failure where
  cause : Cause
  rest : List Char
deriving DecidableEq

inductive Outcome (α : Type) where
  | ok (a : α) (rest : List Char)
  | soft (f : Failure)
  | hard (f : Failure)

def Reader (α : Type) : Type := List Char → Outcome α

namespace Reader

variable {α β : Type}

instance : Monad Reader where
  pure a := fun s => .ok a s
  bind p next := fun s =>
    match p s with
    | .ok a rest => next a rest
    | .soft f => .soft f
    | .hard f => .hard f

def tooDeep : Reader α := fun s => .hard ⟨.tooDeep, s⟩

/-- No other reading is tried once `p` has begun. -/
def cut (p : Reader α) : Reader α := fun s =>
  match p s with
  | .soft f => .hard f
  | o => o

def reporting (change : Cause → Cause) (p : Reader α) : Reader α := fun s =>
  match p s with
  | .ok a rest => .ok a rest
  | .soft f => .soft { f with cause := change f.cause }
  | .hard f => .hard { f with cause := change f.cause }

/-- A failure of `p` is one of reading `label`, unless an inner construct has claimed it. -/
def within (label : String) (p : Reader α) : Reader α :=
  p.reporting fun
    | .missing none expected => .missing (some label) expected
    | c => c

def wanting (e : Expected) (p : Reader α) : Reader α :=
  p.reporting fun
    | .missing label expected => .missing label (expected ++ [e])
    | c => c

def orElse (p q : Reader α) : Reader α := fun s =>
  match p s with
  | .soft _ => q s
  | o => o

def optional (p : Reader α) : Reader (Option α) := fun s =>
  match p s with
  | .ok a rest => .ok (some a) rest
  | .soft _ => .ok none s
  | .hard f => .hard f

/-- Reads `p` as often as it succeeds and takes something. -/
def many (p : Reader α) : Reader (List α) := fun s =>
  match p s with
  | .ok a rest =>
    if rest.length < s.length then
      match many p rest with
      | .ok as rest => .ok (a :: as) rest
      | o => o
    else .ok [] s
  | .soft _ => .ok [] s
  | .hard f => .hard f
termination_by s => s.length

def separated (p : Reader α) (separator : Reader Unit) : Reader (List α) := do
  let first ← p
  let rest ← many (do separator; p)
  return first :: rest

def char (c : Char) : Reader Unit := fun s =>
  match s with
  | d :: rest => if d = c then .ok () rest else .soft ⟨.missing none [], s⟩
  | [] => .soft ⟨.missing none [], s⟩

end Reader

end DerivedColumns.Formula
