import Conformance.Json.Quoted

set_option autoImplicit false

/-! # Records

A JSON object on one line: fields in their order, without blanks. The values are texts, natural
numbers and truth values.
-/

namespace Conformance

namespace Json

/-- The value of a field. -/
inductive Value where
  | text (s : String)
  | number (n : Nat)
  | bool (b : Bool)
  deriving DecidableEq, Repr

abbrev Record := List (String × Value)

def Value.render : Value → List Char
  | .text s => quote s
  | .number n => (toString n).toList
  | .bool true => "true".toList
  | .bool false => "false".toList

def renderField (field : String × Value) : List Char :=
  quote field.1 ++ ':' :: field.2.render

def renderFields : Record → List Char
  | [] => []
  | [field] => renderField field
  | field :: rest => renderField field ++ ',' :: renderFields rest

/-- The record on one line. -/
def Record.render (record : Record) : String :=
  String.ofList ('\x7b' :: renderFields record ++ ['\x7d'])

end Json

end Conformance
