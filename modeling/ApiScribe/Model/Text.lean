import ApiScribe.Json.Quoted
import ApiScribe.Model
import ApiScribe.Options
import ApiScribe.Plan
import ApiScribe.Render.Builder

/-! Models as source files, one a model. Declarations are ambient and know each other by name;
modules mention another model through an import of its file. Enums exist at run time, so they are
modules in either style. -/
namespace ApiScribe

/-- The text of a literal. -/
def Literal.text (l : Literal) : String :=
  match l.kind with
  | .string => Json.quotedRaw l.value
  | .number => l.value

/-- The text of another model's name inside the model `current`. -/
def referenceText (style : ModelStyle) (current name : String) : String :=
  if style = .modules && name ≠ current then "import(\"./" ++ name ++ "\")." ++ name else name

mutual

/-- The text of a type inside the model `current`. -/
def ModelType.text (style : ModelStyle) (current : String) : ModelType → String
  | .string => "string"
  | .number => "number"
  | .boolean => "boolean"
  | .object => "object"
  | .ref name => referenceText style current name
  | .array item => "Array<" ++ item.text style current ++ ">"
  | .union variants => " | ".intercalate (typeTexts style current variants)
  | .literal l => l.text

/-- The texts of types. -/
def typeTexts (style : ModelStyle) (current : String) : List ModelType → List String
  | [] => []
  | t :: ts => t.text style current :: typeTexts style current ts

end

/-- The text of a type whose values may be null. -/
def ModelType.textOrNull (t : ModelType) (style : ModelStyle) (current : String)
    (nullable : Bool) : String :=
  let text := t.text style current
  if nullable then text ++ " | null" else text

namespace Model

/-- The word in front of what a file declares. -/
def keyword : ModelStyle → String
  | .declarations => "declare"
  | .modules => "export"

/-- A comment on a line of its own, if there is something to say. -/
def commentLine (indent : String) (comment : Option String) : List String :=
  let text := commentText comment
  if text = "" then [] else [indent ++ "/** " ++ text ++ " */"]

/-- The name of a property as a key. -/
def propertyKey (name : String) : String := Endpoint.objectKey name

/-- The lines of a property. -/
def propertyLines (style : ModelStyle) (current : String) (p : ModelProperty) : List String :=
  commentLine "  " p.description
    ++ ["  " ++ propertyKey p.name ++ (if p.required then "" else "?") ++ ": "
          ++ p.type.textOrNull style current p.nullable ++ ";"]

/-- The lines of an enum member. -/
def memberLines (e : EnumMember) : List String :=
  commentLine "  " e.comment ++ ["  " ++ e.name ++ " = " ++ e.value.text ++ ","]

/-- The lines of a model. -/
def lines (style : ModelStyle) (m : Model) : List String :=
  commentLine "" m.description ++
    match m.kind with
    | .interface ps =>
      [keyword style ++ " interface " ++ m.name ++ " \x7b"]
        ++ ps.flatMap (propertyLines style m.name) ++ ["\x7d"]
    | .enum es =>
      ["export enum " ++ m.name ++ " \x7b"] ++ es.flatMap memberLines ++ ["\x7d"]
    | .aliased target nullable =>
      [keyword style ++ " type " ++ m.name ++ " = "
        ++ target.textOrNull style m.name nullable ++ ";"]

/-- The name of a model's file. -/
def fileName (style : ModelStyle) (m : Model) : String :=
  if style = .declarations && !m.isEnum then m.name ++ ".d.ts" else m.name ++ ".ts"

/-- The file of a model. -/
def file (style : ModelStyle) (m : Model) : PlannedFile :=
  ⟨fileName style m, Render.fileText (lines style m)⟩

end Model

/-- The files of models: of all of them, or of those with the given names if there are any. -/
def ModelSet.files (s : ModelSet) (style : ModelStyle) (only : List String) : List PlannedFile :=
  (s.models.filter fun m => only.isEmpty || only.contains m.name).map (Model.file style)

end ApiScribe
