import Marmoset.Text.Quoted

/-! # Outlines

An outline describes a tree in one line by the names of its constructors and fields: a record as
`Name { field: …, field: … }`, a constructor with unnamed parts as `Name(…, …)`, a list in brackets
and a text in quotes.  A record that does not show all of its fields ends in `..`. -/

namespace Marmoset

/-- A description of a tree. -/
inductive Outline where
  | word (text : String)
  | text (text : String)
  | list (items : List Outline)
  | parts (name : String) (items : List Outline)
  | record (name : String) (fields : List (String × Outline)) (complete : Bool)

namespace Outline

/-- One thing that may be absent. -/
def option : Option Outline → Outline
  | some item => parts "Some" [item]
  | none => word "None"

mutual

/-- An outline as text. -/
def render : Outline → String
  | word s => s
  | text s => quoted s
  | list items => "[" ++ String.intercalate ", " (texts items) ++ "]"
  | parts name items => name ++ "(" ++ String.intercalate ", " (texts items) ++ ")"
  | record name fields true =>
    name ++ " \x7b " ++ String.intercalate ", " (fieldTexts fields) ++ " \x7d"
  | record name fields false =>
    name ++ " \x7b " ++ String.intercalate ", " (fieldTexts fields ++ [".."]) ++ " \x7d"

/-- Several outlines as texts. -/
def texts : List Outline → List String
  | [] => []
  | item :: items => render item :: texts items

/-- Several fields as texts. -/
def fieldTexts : List (String × Outline) → List String
  | [] => []
  | (name, item) :: fields => (name ++ ": " ++ render item) :: fieldTexts fields

end

end Outline

end Marmoset
