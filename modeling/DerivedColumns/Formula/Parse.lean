import DerivedColumns.Formula.Grammar

set_option autoImplicit false

namespace DerivedColumns

structure Position where
  offset : Nat
  line : Nat
  column : Nat
deriving DecidableEq

def Position.after (s : List Char) : Position :=
  s.foldl (fun p c =>
    if c = '\n' then ⟨p.offset + c.utf8Size, p.line + 1, 1⟩
    else ⟨p.offset + c.utf8Size, p.line, p.column + 1⟩) ⟨0, 1, 1⟩

inductive ParseFault where
  | empty
  | trailing
  | tooDeep
  | missing (label : Option String) (expected : List Formula.Expected)
deriving DecidableEq

structure ParseError where
  fault : ParseFault
  position : Position
deriving DecidableEq

def Formula.Expected.text : Formula.Expected → String
  | .symbol c => String.ofList ['\x60', c, '\x60']
  | .phrase s => s

def ParseFault.message : ParseFault → String
  | .empty => "empty formula"
  | .trailing => "unexpected trailing input"
  | .tooDeep => "formula nested too deeply"
  | .missing label expected =>
    let wanted := "expected " ++ " or ".intercalate (expected.map Formula.Expected.text)
    match label, expected with
    | some label, [] => "invalid " ++ label
    | some label, _ => "invalid " ++ label ++ ": " ++ wanted
    | none, [] => "unexpected input"
    | none, _ => wanted

def ParseError.message (e : ParseError) : String := e.fault.message

def ParseError.text (e : ParseError) : String :=
  e.message ++ " (line " ++ toString e.position.line ++ ", column " ++ toString e.position.column ++
    ", offset " ++ toString e.position.offset ++ ")"

namespace Formula

def Cause.fault : Cause → ParseFault
  | .tooDeep => .tooDeep
  | .missing label expected => .missing label expected

/-- The error at the place where `rest` is left of the text `s`. -/
def errorAt (s rest : List Char) (fault : ParseFault) : ParseError :=
  ⟨fault, .after (s.take (s.length - rest.length))⟩

def parseChars (s : List Char) : Except ParseError Formula :=
  if (skipLayout s).isEmpty then .error (errorAt s [] .empty)
  else
    match (Grammar.ofLevels maxNesting).choice s with
    | .ok f rest =>
      match skipLayout rest with
      | [] => .ok f
      | rest => .error (errorAt s rest .trailing)
    | .soft failure => .error (errorAt s failure.rest failure.cause.fault)
    | .hard failure => .error (errorAt s failure.rest failure.cause.fault)

def parse (text : String) : Except ParseError Formula := parseChars text.toList

end Formula

end DerivedColumns
