import DerivedColumns.FormulaFile
import DerivedColumns.Service.Body
import DerivedColumns.Service.Subscription
import DerivedColumns.Sheet.Edit

set_option autoImplicit false

/-!
A service keeps one sheet, which clients edit and query. Each edit is two steps: it is committed to the
sheet, and then the columns that changed are sent to the subscribers. An edit that fails changes no
column.
-/

namespace DerivedColumns

structure Service where
  sheet : Sheet
  nextId : Nat
  /-- All notifications, in the order in which they were sent. -/
  sent : List Notification

structure CalculationView where
  id : Nat
  name : String
  column : String
  formula : String
  active : Bool
  reads : List String
  cached : Bool
deriving DecidableEq

def CalculationView.of (s : Sheet) (column : String) (c : Calculation) : CalculationView :=
  ⟨c.id, c.name, column, c.formula.text, c.active, c.formula.reads.toList, s.isCached column⟩

/-- A committed edit: its answer, the columns to be named to subscribers, and the service after it. -/
structure Commit (α : Type) where
  answer : Except Failure α
  changed : List String
  service : Service

namespace Service

def ofSheet (sheet : Sheet) : Service := ⟨sheet, 1, []⟩

/-- Sends the names of the columns that changed, each once and in ascending order; nothing if there are
none. -/
def notify (v : Service) (changed : List String) : Service :=
  match (Names.ofList changed).toList with
  | [] => v
  | names => { v with sent := v.sent ++ [names] }

def complete {α : Type} (c : Commit α) : Except Failure α × Service :=
  (c.answer, c.service.notify c.changed)

def failed {α : Type} (v : Service) (f : Failure) : Commit α := ⟨.error f, [], v⟩

def executed (v : Service) (result : Except SheetError Report × Sheet) : Commit Report :=
  let v := { v with sheet := result.2 }
  match result.1 with
  | .ok report => ⟨.ok report, report.affected.toList, v⟩
  | .error e => v.failed (.calculation e)

def commitAdd (v : Service) (request : NewCalculation) : Commit Report :=
  match Formula.parse request.formula with
  | .error e => v.failed (.parsing e)
  | .ok formula =>
    let name := request.name.getD request.column
    let (result, sheet) :=
      v.sheet.add request.column ⟨v.nextId, name, formula, request.active⟩
    let v := { v with sheet, nextId := v.nextId + 1 }
    match result with
    | .error e => v.failed (.calculation e)
    | .ok report => ⟨.ok report, report.affected.toList ++ [request.column], v⟩

def patchOf (update : CalculationUpdate) : Except ParseError Patch :=
  match update.formula with
  | none => .ok ⟨update.name, update.column, none, update.active⟩
  | some text => (Formula.parse text).map fun f => ⟨update.name, update.column, some f, update.active⟩

def commitUpdate (v : Service) (column : String) (update : CalculationUpdate) :
    Commit CalculationView :=
  match patchOf update with
  | .error e => v.failed (.parsing e)
  | .ok patch =>
    let target := update.column.getD column
    let (result, sheet) := v.sheet.update column patch
    let v := { v with sheet }
    match result, sheet.calculations.get? target with
    | .error e, _ => v.failed (.calculation e)
    | .ok _, none => v.failed (.calculation (.unknownCalculation target))
    | .ok _, some c =>
      ⟨.ok (.of sheet target c), column :: target :: (sheet.dependents target).toList, v⟩

def commitRemove (v : Service) (column : String) : Commit CalculationView :=
  let changed := column :: (v.sheet.dependents column).toList
  let (result, sheet) := v.sheet.remove column
  let v := { v with sheet }
  match result with
  | .error e => v.failed (.calculation e)
  | .ok c => ⟨.ok (.of sheet column c), changed, v⟩

def commitExecute (v : Service) : Commit Report := v.executed v.sheet.executeAll

def commitRefresh (v : Service) : Commit Report := v.executed v.sheet.refresh

def commitSource (v : Service) (source : Dataset) : Commit Report :=
  v.executed (v.sheet.setSource source).refresh

def add (v : Service) (request : NewCalculation) : Except Failure Report × Service :=
  complete (v.commitAdd request)

/-- Changes a calculation. What it makes stale stays stale until the next execution. -/
def update (v : Service) (column : String) (changes : CalculationUpdate) :
    Except Failure CalculationView × Service :=
  complete (v.commitUpdate column changes)

def remove (v : Service) (column : String) : Except Failure CalculationView × Service :=
  complete (v.commitRemove column)

def executeAll (v : Service) : Except Failure Report × Service := complete v.commitExecute

def refresh (v : Service) : Except Failure Report × Service := complete v.commitRefresh

def replaceSource (v : Service) (source : Dataset) : Except Failure Report × Service :=
  complete (v.commitSource source)

def load (v : Service) : List FormulaSpec → Except Failure Nat × Service
  | [] => (.ok 0, v)
  | spec :: more =>
    match v.add ⟨none, spec.column, spec.formula, true⟩ with
    | (.error f, v) => (.error f, v)
    | (.ok _, v) =>
      let (result, v) := v.load more
      (result.map (· + 1), v)

def calculation? (v : Service) (column : String) : Option CalculationView :=
  (v.sheet.calculations.get? column).map (.of v.sheet column)

def calculations (v : Service) : List CalculationView :=
  v.sheet.calculations.entries.map fun (column, c) => .of v.sheet column c

/-- A subscription that begins now. It is registered first, and the columns are listed after that. -/
def subscribe (v : Service) : Subscription := ⟨some v.sheet.activeColumns, Channel.bounded.register v.sent⟩

end Service

end DerivedColumns
