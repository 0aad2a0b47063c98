import ClassDeps.Json.Printer

namespace ClassDeps.Json

inductive Schema where
  /-- One of these strings. -/
  | oneOf (options : List String)
  | text (nonempty : Bool)
  | boolean
  | array (items : Schema) (unique : Bool)
  /-- An object with no fields but these, each of them optional. -/
  | record (properties : List (String × Schema))
  /-- An object whose fields all have one shape. -/
  | map (values : Schema)

inductive SchemaFault where
  | wrongType (value : Json) (expected : String)
  | notOneOf (value : Json) (options : List String)
  | tooShort (value : Json)
  | notUnique (value : Json)
  | unexpected (names : List String)

/-- `a, b or c`. -/
def alternatives : List String → String
  | [] => ""
  | [a] => a
  | [a, b] => a ++ " or " ++ b
  | a :: rest => a ++ ", " ++ alternatives rest

def SchemaFault.message : SchemaFault → String
  | wrongType value expected => value.compact ++ " is not of type " ++ quoted expected
  | notOneOf value options =>
    value.compact ++ " is not one of " ++ alternatives (options.map quoted)
  | tooShort value => value.compact ++ " is shorter than 1 character"
  | notUnique value => value.compact ++ " has non-unique elements"
  | unexpected names =>
    "Additional properties are not allowed (" ++ ", ".intercalate (names.map ("'" ++ · ++ "'")) ++
      (if names.length = 1 then " was" else " were") ++ " unexpected)"

namespace Schema

mutual

/-- All faults of a value. A value of the wrong type has only that one. -/
def check : Schema → Json → List SchemaFault
  | oneOf options, value =>
    match value with
    | .text s => if options.contains s then [] else [.notOneOf value options]
    | _ => [.notOneOf value options]
  | text nonempty, value =>
    match value with
    | .text s => if nonempty && s.isEmpty then [.tooShort value] else []
    | _ => [.wrongType value "string"]
  | boolean, value =>
    match value with
    | .bool _ => []
    | _ => [.wrongType value "boolean"]
  | array items unique, value =>
    match value with
    | .array xs =>
      (if unique && !distinct xs then [.notUnique value] else []) ++ xs.flatMap items.check
    | _ => [.wrongType value "array"]
  | record properties, value =>
    match value with
    | .object fields =>
      let names := (members fields).keys.filter fun k => !properties.any (·.1 = k)
      checkProperties properties (members fields) ++
        if names.isEmpty then [] else [.unexpected names]
    | _ => [.wrongType value "object"]
  | map values, value =>
    match value with
    | .object fields => (members fields).toList.flatMap fun field => values.check field.2
    | _ => [.wrongType value "object"]

/-- The faults of the fields that `properties` describe. -/
def checkProperties : List (String × Schema) → Std.ExtTreeMap String Json → List SchemaFault
  | [], _ => []
  | (name, schema) :: rest, fields =>
    (match fields[name]? with
      | some value => schema.check value
      | none => []) ++ checkProperties rest fields

end

end Schema

end ClassDeps.Json
