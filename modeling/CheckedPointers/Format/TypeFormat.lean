import CheckedPointers.CType.Basic
import CheckedPointers.Json.Fields

/-!
Types as documents: an object with one member, named for the kind of type.
-/
namespace CheckedPointers

namespace CType

mutual

def toJson : CType → Json
  | builtin name => .object [("builtin", .text name)]
  | pointer inner => .object [("pointer", inner.toJson)]
  | array elem size =>
    .object [("array", .object [("elem", elem.toJson), ("size", Json.option Json.nat size)])]
  | function ret params variadic hasPrototype =>
    .object [("function", .object [("ret", ret.toJson), ("params", .list (toJsonAll params)),
      ("variadic", .bool variadic), ("has_prototype", .bool hasPrototype)])]
  | record name => .object [("record", .text name)]
  | typedef name underlying =>
    .object [("typedef", .object [("name", .text name), ("underlying", underlying.toJson)])]

def toJsonAll : List CType → List Json
  | [] => []
  | ty :: rest => ty.toJson :: toJsonAll rest

end

end CType

namespace Signature

def toJson (s : Signature) : Json :=
  .object [("ret", s.ret.toJson), ("params", .list (CType.toJsonAll s.params)),
    ("variadic", .bool s.variadic), ("has_prototype", .bool s.hasPrototype)]

def ofFields? (ret param : Json → Option CType) (n : Nat) (fields : List (String × Json)) :
    Option Signature := do
  return ⟨← Json.required (fun _ => ret) "ret" n fields,
    ← Json.optional (Json.asList fun _ => param) "params" [] n fields,
    ← Json.optional Json.asBool "variadic" false n fields,
    ← Json.optional Json.asBool "has_prototype" true n fields⟩

end Signature

namespace CType

/-- Reads a type that opens at most `n` levels. -/
def ofJson? : Reader CType
  | n + 1, .object [(kind, j)] =>
    match kind with
    | "builtin" => (Json.asText n j).map builtin
    | "pointer" => (ofJson? n j).map pointer
    | "array" =>
      match n, j with
      | n + 1, .object fields => do
        let elem ← Json.required (fun _ => ofJson? n) "elem" n fields
        let size ← Json.optional (Json.asOption (Json.asUnsigned 64)) "size" none n fields
        return array elem size
      | _, _ => none
    | "function" =>
      match n, j with
      | n + 2, .object fields =>
        (Signature.ofFields? (ofJson? (n + 1)) (ofJson? n) (n + 1) fields).map Signature.toType
      | _, _ => none
    | "record" => (Json.asText n j).map record
    | "typedef" =>
      match n, j with
      | n + 1, .object fields => do
        let name ← Json.required Json.asText "name" n fields
        let underlying ← Json.required (fun _ => ofJson? n) "underlying" n fields
        return typedef name underlying
      | _, _ => none
    | _ => none
  | _, _ => none

end CType

namespace Signature

def ofJson? : Reader Signature
  | n + 2, .object fields => ofFields? (CType.ofJson? (n + 1)) (CType.ofJson? n) (n + 1) fields
  | _, _ => none

end Signature

end CheckedPointers
