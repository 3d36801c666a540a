import DerivedColumns.Service.MediaType
import DerivedColumns.Service.Reply
import DerivedColumns.Service.Route

set_option autoImplicit false

/-!
A request is refused for its path, then for its method, then for the name in its path, then for the
type of its content, then for the content; only then is it carried out.
-/

namespace DerivedColumns

structure Request where
  method : String
  uri : String
  contentType : Option String
  body : String

namespace Service

def withBody {α : Type} (v : Service) (r : Request) (ofBody : String → Except Json.Scan.Fault α)
    (carryOut : α → Reply × Service) : Reply × Service :=
  if (r.contentType.bind MediaType.ofText?).any MediaType.isJson then
    match ofBody r.body with
    | .ok a => carryOut a
    | .error .malformed => (.bare 400, v)
    | .error .mismatched => (.bare 422, v)
  else (.bare 415, v)

def parse (v : Service) (request : ParseRequest) : Reply × Service :=
  (.of parsedJson ((Formula.parse request.formula).mapError .parsing), v)

def respondOn (v : Service) (r : Request) (method : Method) (column : String) : Reply × Service :=
  match method with
  | .patch =>
    v.withBody r CalculationUpdate.ofBody fun changes =>
      let (result, v) := v.update column changes
      (.of CalculationView.toJson result, v)
  | .delete =>
    let (result, v) := v.remove column
    (.of CalculationView.toJson result, v)
  | _ =>
    match v.calculation? column with
    | some c => (.ok c.toJson, v)
    | none => (.failed 404 (SheetError.unknownCalculation column).message, v)

def respondTo (v : Service) (r : Request) (method : Method) : Resource → Reply × Service
  | .parse => v.withBody r ParseRequest.ofBody v.parse
  | .calculations =>
    match method with
    | .post =>
      v.withBody r NewCalculation.ofBody fun request =>
        let (result, v) := v.add request
        (.of Report.toJson result, v)
    | _ =>
      (.ok (.object [("calculations", .array (v.calculations.map CalculationView.toJson))]), v)
  | .calculation encoded =>
    match percentDecode? encoded with
    | none => (.bare 400, v)
    | some column => v.respondOn r method column
  | .execute =>
    let (result, v) := v.executeAll
    (.of Report.toJson result, v)
  | .refresh =>
    let (result, v) := v.refresh
    (.of Report.toJson result, v)
  | .columns => (.ok (inventoryJson v.sheet), v)
  | .virtualColumns => (.ok (.object [("columns", columnsJson v.sheet.virtualColumns)]), v)
  | .subscribe => (.bare 200, v)

def respond (v : Service) (r : Request) : Reply × Service :=
  match Resource.ofPath? (pathOf r.uri) with
  | none => (.bare 404, v)
  | some resource =>
    match (Method.ofName? r.method).filter resource.methods.contains with
    | none => (.bare 405, v)
    | some method =>
      let (reply, v) := v.respondTo r method resource
      (if method = .head then reply.withheld else reply, v)

end Service

end DerivedColumns
