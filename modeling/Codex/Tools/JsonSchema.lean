import Codex.Lib.JsonString
import Codex.Lib.JsonTraversal
import Codex.Lib.PercentEncoding
import Codex.Lib.Worklist

/-!
# The JSON schemas of tools

`tools/src/json_schema.rs`: the input schema of a tool is sanitized, loses the definitions it does
not refer to, and is made smaller in up to four passes before it is deserialized. A `JsonSchema` of
the source is here the JSON that it serializes to. `SchemaFormat` is what other packages do with
texts.
-/

namespace Codex.Tools

open Codex.Lib

variable {Number : Type}

abbrev Fields (Number : Type) := List (Text × Json Number)

/-- A definition table, which the source names by its key. -/
inductive DefinitionTable where
  | defs
  | definitions
  deriving DecidableEq

def DefinitionTable.key : DefinitionTable → Text
  | .defs => "$defs".toList
  | .definitions => "definitions".toList

def definitionTables : List DefinitionTable := [.defs, .definitions]

def definitionTableKeys : List Text := definitionTables.map DefinitionTable.key

def compositionSchemaKeys : List Text := ["anyOf".toList, "oneOf".toList, "allOf".toList]

def schemaChildKeys : List Text := ["items".toList, "anyOf".toList, "oneOf".toList, "allOf".toList]

/-- What the crates for URLs, JSON pointers and numbers do. -/
structure SchemaFormat (Number : Type) where
  /-- `urlencoding::decode` -/
  urlDecode : Text → Option Text
  /-- `jsonptr::Pointer::parse`, and the decoded tokens of the pointer -/
  parsePointer : Text → Option (List Text)
  /-- A number in JSON. -/
  numberText : Number → Text

/-! ### Types -/

inductive JsonSchemaPrimitiveType where
  | string
  | number
  | boolean
  | integer
  | object
  | array
  | null
  deriving DecidableEq

def schemaTypeName : JsonSchemaPrimitiveType → Text
  | .string => "string".toList
  | .number => "number".toList
  | .boolean => "boolean".toList
  | .integer => "integer".toList
  | .object => "object".toList
  | .array => "array".toList
  | .null => "null".toList

def schemaTypeFromStr (schemaType : Text) : Option JsonSchemaPrimitiveType :=
  [.string, .number, .boolean, .integer, .object, .array, .null].find? fun candidate =>
    schemaTypeName candidate = schemaType

variable (map : Fields Number) (key : Text)

def containsKey : Bool := (map.lookup key).isSome

def hasCompositionKeyword : Bool :=
  compositionSchemaKeys.any (containsKey map)

def normalizedSchemaTypes : List JsonSchemaPrimitiveType :=
  match map.lookup "type".toList with
  | some (.string schemaType) => (schemaTypeFromStr schemaType).toList
  | some (.array schemaTypes) =>
    schemaTypes.filterMap fun schemaType =>
      match schemaType with
      | .string schemaType => schemaTypeFromStr schemaType
      | _ => none
  | _ => []

/-- The JSON of some types. -/
def schemaTypesValue : List JsonSchemaPrimitiveType → Json Number
  | [schemaType] => .string (schemaTypeName schemaType)
  | schemaTypes => .array (schemaTypes.map fun schemaType => .string (schemaTypeName schemaType))

variable (schemaTypes : List JsonSchemaPrimitiveType)

def writeSchemaTypes : Fields Number :=
  if schemaTypes = [] then without "type".toList map
  else put "type".toList (schemaTypesValue schemaTypes) map

/-! ### Sanitizing -/

def stringSchema : Json Number := .object [("type".toList, .string "string".toList)]

def ensureDefaultChildrenForSchemaTypes : Fields Number :=
  let map :=
    if .object ∈ schemaTypes ∧ !containsKey map "properties".toList then
      put "properties".toList (.object []) map
    else map
  if .array ∈ schemaTypes ∧ !containsKey map "items".toList then
    put "items".toList stringSchema map
  else map

/-- The end of `sanitize_schema_table`, which drops a table that is no object -/
def dropMalformedTable : Fields Number :=
  match map.lookup key with
  | some (.object _) => map
  | some _ => without key map
  | none => map

/-- The types that `sanitize_json_schema` infers; absent where it knows nothing -/
def inferredSchemaTypes : Option (List JsonSchemaPrimitiveType) :=
  if containsKey map "properties".toList || containsKey map "required".toList ||
      containsKey map "additionalProperties".toList then some [.object]
  else if containsKey map "items".toList || containsKey map "prefixItems".toList then some [.array]
  else if containsKey map "enum".toList || containsKey map "format".toList then some [.string]
  else if containsKey map "minimum".toList || containsKey map "maximum".toList ||
      containsKey map "exclusiveMinimum".toList || containsKey map "exclusiveMaximum".toList ||
      containsKey map "multipleOf".toList then some [.number]
  else none

/-- `const` in `sanitize_json_schema` -/
def constToEnum : Fields Number :=
  match map.lookup "const".toList with
  | some constValue => put "enum".toList (.array [constValue]) (without "const".toList map)
  | none => map

/-- The end of `sanitize_json_schema` for an object, from the normalized types on -/
def inferTypes : Fields Number :=
  let schemaTypes := normalizedSchemaTypes map
  if schemaTypes = [] ∧ (containsKey map "$ref".toList ∨ hasCompositionKeyword map) then map
  else
    match if schemaTypes = [] then inferredSchemaTypes map else some schemaTypes with
    | none => []
    | some schemaTypes =>
      ensureDefaultChildrenForSchemaTypes (writeSchemaTypes map schemaTypes) schemaTypes

/-- `sanitize_json_schema` for an object, after its children -/
def sanitizeObject : Fields Number :=
  inferTypes (constToEnum (definitionTableKeys.foldl dropMalformedTable map))

/-- The children that `sanitize_json_schema` goes to. -/
def sanitizeVisit : Visit :=
  if key = "properties".toList ∨ key ∈ definitionTableKeys then .table
  else if key = "items".toList ∨ key = "prefixItems".toList ∨
    key ∈ compositionSchemaKeys then .whole
  else if key = "additionalProperties".toList then .unlessBool
  else .skip

def sanitizeLeaf : Json Number → Json Number
  | .bool _ => stringSchema
  | value => value

def sanitizePass : Pass Number where
  visits := sanitizeVisit
  finish := sanitizeObject
  leaf := sanitizeLeaf

def sanitizeJsonSchema : Json Number → Json Number := sanitizePass.rewrite 0

/-! ### References -/

structure DefinitionPointer where
  table : DefinitionTable
  name : Text
  deriving DecidableEq

variable (format : SchemaFormat Number)

def parseLocalDefinitionRef (schemaRef : Text) : Option DefinitionPointer := do
  let fragment ← stripPrefix ['#'] schemaRef
  let pointer ← format.urlDecode fragment
  let tokens ← format.parsePointer pointer
  match tokens with
  | token :: name :: _ =>
    (definitionTables.find? fun table => table.key = token).map fun table => ⟨table, name⟩
  | _ => none

/-- `collect_ref_from_map`, the local reference of an object -/
def localRef (map : Fields Number) : Option DefinitionPointer :=
  match map.lookup "$ref".toList with
  | some (.string schemaRef) => parseLocalDefinitionRef format schemaRef
  | _ => none

inductive DefinitionTraversal where
  | included
  | skipped
  deriving DecidableEq

/-- `for_each_schema_child`, by the key of a field -/
def schemaChildVisit (definitionTraversal : DefinitionTraversal) (key : Text) : Visit :=
  if key = "properties".toList then .table
  else if key ∈ schemaChildKeys then .whole
  else if key = "additionalProperties".toList then .unlessBool
  else if key ∈ definitionTableKeys ∧ definitionTraversal = .included then .table
  else .skip

def collectRefsOutsideDefinitions : Json Number → List DefinitionPointer :=
  Json.collect (schemaChildVisit .skipped) fun map => (localRef format map).toList

def collectRefs : Json Number → List DefinitionPointer :=
  Json.collect (fun _ => .whole) fun map => (localRef format map).toList

/-- The definitions of a table. -/
def tableOf (map : Fields Number) (table : DefinitionTable) : Fields Number :=
  match map.lookup table.key with
  | some (.object definitions) => definitions
  | _ => []

/-- The fields of an object. -/
def fieldsOf : Json Number → Fields Number
  | .object map => map
  | _ => []

variable (value : Json Number)

def definitionForPointer (pointer : DefinitionPointer) : Option (Json Number) :=
  (tableOf (fieldsOf value) pointer.table).lookup pointer.name

/-- The references in the definition that a pointer leads to. -/
def refsOfDefinition (value : Json Number) (pointer : DefinitionPointer) : List DefinitionPointer :=
  match definitionForPointer value pointer with
  | some definition => collectRefs format definition
  | none => []

/-- The root definitions. -/
def rootDefinitions : List DefinitionPointer :=
  definitionTables.flatMap fun table =>
    (tableOf (fieldsOf value) table).map fun definition => ⟨table, definition.1⟩

/-- The loop of `collect_reachable_definitions`, with a bound on its turns -/
def reachableWithin (value : Json Number) (turns : ℕ) : Option (List DefinitionPointer) :=
  worklist (refsOfDefinition format value) turns
    (collectRefsOutsideDefinitions format value).reverse []

/-- Turns that suffice for `collect_reachable_definitions`. -/
def reachableTurns (value : Json Number) : ℕ :=
  (collectRefsOutsideDefinitions format value).length +
    unseen (refsOfDefinition format value) [] (rootDefinitions value)

def collectReachableDefinitions (value : Json Number) : List DefinitionPointer :=
  (reachableWithin format value (reachableTurns format value)).getD []

def pruneSchemaTable (reachable : List DefinitionPointer) (map : Fields Number)
    (table : DefinitionTable) : Fields Number :=
  match map.lookup table.key with
  | some (.object definitions) =>
    let definitions := definitions.filter fun definition => ⟨table, definition.1⟩ ∈ reachable
    if definitions.isEmpty then without table.key map
    else put table.key (.object definitions) map
  | _ => map

def pruneUnreachableDefinitions (value : Json Number) : Json Number :=
  match value with
  | .object map =>
    .object (definitionTables.foldl
      (pruneSchemaTable (collectReachableDefinitions format value)) map)
  | value => value

def prepareToolInputSchema (inputSchema : Json Number) : Json Number :=
  pruneUnreachableDefinitions format (sanitizeJsonSchema inputSchema)

/-! ### Compaction -/

def stripPass : Pass Number where
  visits := schemaChildVisit .included
  finish := without "description".toList

def stripSchemaDescriptions : Json Number → Json Number := stripPass.rewrite 0

/-- A pass that empties some of the schemas outside definition tables. -/
def cutPass (cut : ℕ → Fields Number → Bool) : Pass Number where
  visits := schemaChildVisit .skipped
  cut := cut

def hasLocalRef (_depth : ℕ) (map : Fields Number) : Bool :=
  (localRef format map).isSome

def rewriteDefinitionRefsToEmptySchemas : Json Number → Json Number :=
  (cutPass (hasLocalRef format)).rewrite 0

/-- An object without its definition tables. -/
def withoutTables : Json Number → Json Number
  | .object map => .object (definitionTableKeys.foldl (fun map key => without key map) map)
  | value => value

def dropSchemaDefinitions (value : Json Number) : Json Number :=
  withoutTables (rewriteDefinitionRefsToEmptySchemas format value)

def maxCompactToolSchemaDepth : ℕ := 3

def isComplexSchemaObject (map : Fields Number) : Bool :=
  schemaChildKeys.any (containsKey map) || containsKey map "properties".toList ||
    containsKey map "additionalProperties".toList || containsKey map "$ref".toList

def isDeepAndComplex (depth : ℕ) (map : Fields Number) : Bool :=
  decide (maxCompactToolSchemaDepth ≤ depth) && isComplexSchemaObject map

def collapseDeepSchemaObjectsFromRoot : Json Number → Json Number :=
  (cutPass isDeepAndComplex).rewrite 0

def isComposition (_depth : ℕ) (map : Fields Number) : Bool := hasCompositionKeyword map

def pruneSchemaCompositions : Json Number → Json Number := (cutPass isComposition).rewrite 0

def largeSchemaCompactionPasses : List (Json Number → Json Number) :=
  [stripSchemaDescriptions, dropSchemaDefinitions format, collapseDeepSchemaObjectsFromRoot,
    pruneSchemaCompositions]

/-! ### Deserializing -/

/-- The fields of `JsonSchema`, by their serialized names. -/
def schemaKeys : List Text :=
  ["$ref".toList, "type".toList, "description".toList, "encrypted".toList, "enum".toList,
    "items".toList, "properties".toList, "required".toList, "additionalProperties".toList,
    "anyOf".toList, "oneOf".toList, "allOf".toList, "$defs".toList, "definitions".toList]

/-- What a value is read as where a schema, a list of schemas or a table of schemas is expected. -/
structure Reading (Number : Type) where
  schema : Option (Json Number) := none
  schemas : Option (List (Json Number)) := none
  table : Option (Fields Number) := none

/-- `serde` for `JsonSchemaPrimitiveType`: a name, or the name with null. -/
def primitiveTypeFromValue : Json Number → Option JsonSchemaPrimitiveType
  | .string name => schemaTypeFromStr name
  | .object [(name, .null)] => schemaTypeFromStr name
  | _ => none

/-- `serde` for `JsonSchemaType`: one type, else several. -/
def schemaTypeFromValue : Option (Json Number) :=
  match primitiveTypeFromValue value with
  | some schemaType => some (.string (schemaTypeName schemaType))
  | none =>
    match value with
    | .array items =>
      (items.mapM primitiveTypeFromValue).map fun schemaTypes =>
        .array (schemaTypes.map fun schemaType => .string (schemaTypeName schemaType))
    | _ => none

def isString : Json Number → Bool
  | .string _ => true
  | _ => false

def isArray : Json Number → Bool
  | .array _ => true
  | _ => false

def isNull : Json Number → Bool
  | .null => true
  | _ => false

/-- `serde` for a field of `JsonSchema` that is not null. -/
def fieldFromValue (key : Text) (value : Json Number) (reading : Reading Number) :
    Option (Json Number) :=
  if key = "$ref".toList ∨ key = "description".toList then
    if isString value then some value else none
  else if key = "type".toList then schemaTypeFromValue value
  else if key = "encrypted".toList then if value.isBool then some value else none
  else if key = "enum".toList then if isArray value then some value else none
  else if key = "items".toList then reading.schema
  else if key = "required".toList then
    match value with
    | .array items => if items.all isString then some value else none
    | _ => none
  else if key = "additionalProperties".toList then
    if value.isBool then some value else reading.schema
  else if key ∈ compositionSchemaKeys then reading.schemas.map .array
  else reading.table.map .object

/-- `serde` for the fields of `JsonSchema` with some keys; null is as good as absent. -/
def schemaFromFields (fields : List (Text × Json Number × Reading Number)) :
    List Text → Option (Fields Number)
  | [] => some []
  | key :: keys =>
    match fields.lookup key with
    | none => schemaFromFields fields keys
    | some (value, reading) =>
      if isNull value then schemaFromFields fields keys
      else do
        let value ← fieldFromValue key value reading
        let read ← schemaFromFields fields keys
        some ((key, value) :: read)

mutual
/-- `serde` for `JsonSchema`, which may also be the list of its fields. -/
def readings : Json Number → Reading Number
  | .object fields =>
    let fields := readingsOfFields fields
    { schema := (schemaFromFields fields schemaKeys).map .object
      table := fields.mapM fun (key, _, reading) => reading.schema.map fun schema => (key, schema) }
  | .array items =>
    let items := readingsOfItems items
    { schema :=
        if items.length = schemaKeys.length then
          (schemaFromFields (schemaKeys.zip items) schemaKeys).map .object
        else none
      schemas := items.mapM fun (_, reading) => reading.schema }
  | _ => {}

def readingsOfFields : Fields Number → List (Text × Json Number × Reading Number)
  | [] => []
  | (key, value) :: fields => (key, value, readings value) :: readingsOfFields fields

def readingsOfItems : List (Json Number) → List (Json Number × Reading Number)
  | [] => []
  | item :: items => (item, readings item) :: readingsOfItems items
end

/-- `serde_json::from_value` for `JsonSchema` -/
def fromValue (value : Json Number) : Option (Json Number) := (readings value).schema

mutual
/-- `serde_json::to_vec`, as a text -/
def jsonText (format : SchemaFormat Number) : Json Number → Text
  | .null => "null".toList
  | .bool true => "true".toList
  | .bool false => "false".toList
  | .number value => format.numberText value
  | .string value => '"' :: escape value ++ ['"']
  | .array items => '[' :: joinItems format items ++ [']']
  | .object fields => '\x7b' :: joinFields format fields ++ ['\x7d']

def joinItems (format : SchemaFormat Number) : List (Json Number) → Text
  | [] => []
  | [item] => jsonText format item
  | item :: items => jsonText format item ++ ',' :: joinItems format items

def joinFields (format : SchemaFormat Number) : Fields Number → Text
  | [] => []
  | [(key, value)] => '"' :: escape key ++ '"' :: ':' :: jsonText format value
  | (key, value) :: fields =>
    '"' :: escape key ++ '"' :: ':' :: jsonText format value ++ ',' :: joinFields format fields
end

variable (format : SchemaFormat Number)

def compactNormalizedSchemaLen (value : Json Number) : ℕ :=
  match fromValue value with
  | some schema => (toBytes (jsonText format schema)).length
  | none => 0

def maxCompactToolSchemaBytes : ℕ := 4000

def compactSchemaFitsBudget (value : Json Number) : Bool :=
  decide (compactNormalizedSchemaLen format value ≤ maxCompactToolSchemaBytes)

/-- The loop of `compact_large_tool_schema` -/
def applyPasses (fits : Json Number → Bool) : List (Json Number → Json Number) → Json Number →
    Json Number
  | [], value => value
  | pass :: passes, value => if fits value then value else applyPasses fits passes (pass value)

def compactLargeToolSchema : Json Number → Json Number :=
  applyPasses (compactSchemaFitsBudget format) (largeSchemaCompactionPasses format)

variable (inputSchema : Json Number)

/-- `deserialize_tool_input_schema`, absent on an error -/
def deserializeToolInputSchema : Option (Json Number) :=
  (fromValue inputSchema).bind fun schema =>
    match (fieldsOf schema).lookup "type".toList with
    | some (.string name) => if name = schemaTypeName .null then none else some schema
    | _ => some schema

/-- `parse_tool_input_schema`, absent on an error -/
def parseToolInputSchema : Option (Json Number) :=
  deserializeToolInputSchema
    (compactLargeToolSchema format (prepareToolInputSchema format inputSchema))

/-! ### A format -/

/-- A token of a JSON pointer. -/
def decodeToken : Text → Option Text
  | [] => some []
  | '~' :: '0' :: token => (decodeToken token).map ('~' :: ·)
  | '~' :: '1' :: token => (decodeToken token).map ('/' :: ·)
  | '~' :: _ => none
  | c :: token => (decodeToken token).map (c :: ·)

def plainFormat : SchemaFormat ℕ where
  urlDecode text := fromUtf8 (percentDecode text)
  parsePointer
    | [] => some []
    | '/' :: pointer => (pointer.splitOn '/').mapM decodeToken
    | _ => none
  numberText n := Nat.toDigits 10 n

end Codex.Tools
