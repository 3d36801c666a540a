import DerivedColumns.Json.Scan
import DerivedColumns.Keyed

set_option autoImplicit false

/-!
A body is a JSON object whose members are known by name, or an array with their values in order. The
text is read from left to right, and the first fault decides: text that is no JSON, or JSON of another
shape. Unknown members are passed over.
-/

namespace DerivedColumns

namespace Body

open Json.Scan (Fault Reading skipGap unexpected)

inductive Need where
  | required
  /-- May be null, and is null if missing from an object. -/
  | nullable
  | defaulted
deriving DecidableEq

structure Member where
  name : String
  isFlag : Bool
  need : Need

inductive Datum where
  | null
  | text (s : String)
  | flag (b : Bool)
deriving DecidableEq

def datum (m : Member) (s : List Char) : Reading Datum :=
  let value (s : List Char) : Reading Datum :=
    if m.isFlag then (Json.Scan.bool s).map fun (b, rest) => (.flag b, rest)
    else (Json.Scan.string s).map fun (t, rest) => (.text t, rest)
  if m.need = .nullable then
    (Json.Scan.optional value s).map fun (d, rest) => (d.getD .null, rest)
  else value s

/-- The members of an object after its opening brace, as long as the fuel lasts; each member takes up
more than one character of the text. A member that comes twice is a fault. -/
def objectMembers (members : List Member) (fuel : Nat) (found : Keyed Datum) (s : List Char) :
    Except Fault (Keyed Datum × List Char) :=
  match fuel with
  | 0 => .error .malformed
  | fuel + 1 =>
    match skipGap s with
    | '"' :: s => do
      let some (name, s) := Json.Scan.content? Json.Scan.escaped? s | .error .malformed
      let name := String.ofList name
      let (found, s) ← match members.find? fun m => m.name == name with
        | some m =>
          if found.contains name then .error .mismatched
          else do
            let (d, s) ← datum m (← Json.Scan.colon s)
            pure (found.insert name d, s)
        | none => do
          let s ← Json.Scan.skip (← Json.Scan.colon s)
          pure (found, s)
      match skipGap s with
      | '}' :: rest => .ok (found, rest)
      | ',' :: s => objectMembers members fuel found s
      | _ => .error .malformed
    | _ => .error .malformed

def object (members : List Member) (s : List Char) : Reading (Keyed Datum) :=
  match skipGap s with
  | '}' :: rest => .ok (.empty, rest)
  | s => objectMembers members (s.length + 1) .empty s

def nextItem (first : Bool) (s : List Char) : Except Fault (Option (List Char)) :=
  match skipGap s with
  | ']' :: _ => .ok none
  | ',' :: s =>
    if first then .ok (some (',' :: s))
    else
      match skipGap s with
      | ']' :: _ => .error .malformed
      | s => .ok (some s)
  | [] => .error .malformed
  | s => if first then .ok (some s) else .error .malformed

def arrayMembers (first : Bool) (found : Keyed Datum) (s : List Char) :
    List Member → Except Fault (Keyed Datum × List Char)
  | [] =>
    match skipGap s with
    | ']' :: rest => .ok (found, rest)
    | _ => .error .malformed
  | m :: more => do
    match ← nextItem first s with
    | none =>
      if m.need = .defaulted then arrayMembers first found s more else .error .mismatched
    | some s =>
      let (d, s) ← datum m s
      arrayMembers false (found.insert m.name d) s more

def members (known : List Member) (s : List Char) : Reading (Keyed Datum) :=
  match skipGap s with
  | '{' :: s => object known s
  | '[' :: s => arrayMembers true .empty s known
  | s => .error (unexpected s)

def text? (found : Keyed Datum) (name : String) : Option String :=
  match found.get? name with
  | some (.text s) => some s
  | _ => none

def flag? (found : Keyed Datum) (name : String) : Option Bool :=
  match found.get? name with
  | some (.flag b) => some b
  | _ => none

def text (found : Keyed Datum) (name : String) : Except Fault String :=
  match text? found name with
  | some s => .ok s
  | none => .error .mismatched

def read {α : Type} (known : List Member) (build : Keyed Datum → Except Fault α) (body : String) :
    Except Fault α := do
  let (found, rest) ← members known body.toList
  let a ← build found
  if (skipGap rest).isEmpty then return a else .error .malformed

end Body

structure ParseRequest where
  formula : String

namespace ParseRequest

open Body in
def ofBody (body : String) : Except Json.Scan.Fault ParseRequest :=
  read [⟨"formula", false, .required⟩] (fun d => do return ⟨← text d "formula"⟩) body

end ParseRequest

/-- A calculation to be added. Without a name of its own it has that of the column. -/
structure NewCalculation where
  name : Option String
  column : String
  formula : String
  active : Bool

namespace NewCalculation

open Body in
def ofBody (body : String) : Except Json.Scan.Fault NewCalculation :=
  read
    [⟨"name", false, .nullable⟩, ⟨"column", false, .required⟩, ⟨"formula", false, .required⟩,
      ⟨"active", true, .defaulted⟩]
    (fun d => do
      return ⟨text? d "name", ← text d "column", ← text d "formula", (flag? d "active").getD true⟩)
    body

end NewCalculation

structure CalculationUpdate where
  name : Option String
  column : Option String
  formula : Option String
  active : Option Bool

namespace CalculationUpdate

open Body in
def ofBody (body : String) : Except Json.Scan.Fault CalculationUpdate :=
  read
    [⟨"name", false, .nullable⟩, ⟨"column", false, .nullable⟩, ⟨"formula", false, .nullable⟩,
      ⟨"active", true, .nullable⟩]
    (fun d => .ok ⟨text? d "name", text? d "column", text? d "formula", flag? d "active"⟩)
    body

end CalculationUpdate

end DerivedColumns
