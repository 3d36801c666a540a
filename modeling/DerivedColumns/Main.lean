import DerivedColumns.Service.Http
import DerivedColumns.Table.File

set_option autoImplicit false

namespace DerivedColumns.CommandLine

structure Options where
  file : Option String
  idColumn : Option String
  formulas : Option String

def Options.read (o : Options) : List String → Option Options
  | [] => some o
  | "--id-column" :: name :: more => { o with idColumn := some name }.read more
  | "--formulas" :: file :: more => { o with formulas := some file }.read more
  | file :: more => if o.file.isNone then { o with file := some file }.read more else none

def usage : String := "usage: derived-columns [--id-column NAME] [--formulas FILE] TABLE"

def requestOf (line : String) : Request :=
  let s := Text.trim line.toList
  let method := s.takeWhile (· ≠ ' ')
  let rest := (s.dropWhile (· ≠ ' ')).drop 1
  let uri := rest.takeWhile (· ≠ ' ')
  ⟨String.ofList method, String.ofList uri, some "application/json",
    String.ofList ((rest.dropWhile (· ≠ ' ')).drop 1)⟩

def answerLine (r : Reply) : String :=
  toString r.status ++ ((r.content.text?.map fun text => " " ++ text).getD "")

partial def serve (v : Service) (input output : IO.FS.Stream) : IO Unit := do
  let line ← input.getLine
  if line.isEmpty then return
  let (reply, v) := v.respond (requestOf line)
  output.putStrLn (answerLine reply)
  output.flush
  serve v input output

def withFormulas (v : Service) (file : String) : IO Service := do
  let text ← (some <$> IO.FS.readFile file) <|> pure none
  match FormulaFile.ofFile text with
  | .error e => throw (IO.userError (e.message file))
  | .ok specs =>
    match v.load specs with
    | (.ok _, v) => return v
    | (.error f, _) => throw (IO.userError ("Adding formulas from " ++ file ++ ": " ++ f.message))

def run (o : Options) (file : String) : IO Unit := do
  let content ← IO.FS.readFile file
  match Dataset.ofFile file (.text content) o.idColumn with
  | .error e => throw (IO.userError ("Loading " ++ file ++ ": " ++ e.message))
  | .ok source =>
    let v := Service.ofSheet (Sheet.ofSource source Library.standard)
    let v ← match o.formulas with
      | some formulas => withFormulas v formulas
      | none => pure v
    serve v (← IO.getStdin) (← IO.getStdout)

end DerivedColumns.CommandLine

open DerivedColumns.CommandLine in
def main (args : List String) : IO Unit := do
  match Options.read ⟨none, none, none⟩ args with
  | some o =>
    match o.file with
    | some file => run o file
    | none => throw (IO.userError usage)
  | none => throw (IO.userError usage)
