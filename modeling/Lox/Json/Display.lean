import Lox.Json
import Lox.Number.Text
import Lox.Text.Quoted

/-!
How data is named in messages: texts as they are, everything else as a listing
shows it.
-/

namespace Lox.Json

mutual

def listing : Json → String
  | null => "None"
  | bool value => if value then "True" else "False"
  | int value => toString value
  | float value => Number.dataText value
  | string value => value.quoted
  | list items => "[" ++ ", ".intercalate (listings items) ++ "]"
  | object fields => "\x7b" ++ ", ".intercalate (fieldListings fields) ++ "\x7d"

def listings : List Json → List String
  | [] => []
  | item :: items => listing item :: listings items

def fieldListings : List (Text × Json) → List String
  | [] => []
  | (key, value) :: fields => (key.quoted ++ ": " ++ listing value) :: fieldListings fields

end

def display : Json → Text
  | string value => value
  | value => value.listing

end Lox.Json
