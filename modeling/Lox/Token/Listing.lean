import Lox.Tree.Saved

/-!
How tokens and trees appear in listings.  A token is listed by its kind, its quoted
lexeme, its value if there is one, and its line; the parts of a saved token may be any
data.  A tree that turns up as a value reads as programs print it if it is a constant;
anything else is shown by its parts.
-/

namespace Lox

def Literal.listing : Literal → String
  | .nil => "None"
  | .bool value => if value then "True" else "False"
  | .number value => Number.dataText value
  | .text value => Text.quoted value

def Token.listing (token : Token) : String :=
  let value := if token.literal = .nil then "" else token.literal.listing ++ " "
  token.kind.name ++ " " ++ Text.quoted token.lexeme ++ " " ++ value ++ "line " ++
    toString token.line

def SavedToken.listing (token : SavedToken) : String :=
  "Token(type=<TokenType." ++ token.kind.name ++ ": " ++ toString token.kind.ordinal ++
    ">, lexeme=" ++ token.lexeme.listing ++ ", line=" ++ token.line.listing ++ ", literal=" ++
    token.literal.listing ++ ")"

def SavedToken.display (token : SavedToken) : Text :=
  let value :=
    match token.literal with
    | .null => ""
    | literal => literal.listing ++ " "
  token.kind.name ++ " " ++ token.lexeme.listing ++ " " ++ value ++ "line " ++ token.line.display

namespace Tree

def bracketed : List String → String
  | [item] => "(" ++ item ++ ",)"
  | items => "(" ++ ", ".intercalate items ++ ")"

mutual

def dataListing : Json → String
  | .list items => bracketed (dataListings items)
  | .object fields =>
      match SavedToken.ofFields fields with
      | .ok saved => saved.listing
      | .error _ =>
          match fields with
          | (_, .string kind) :: children =>
              kind.toString ++ "(" ++ ", ".intercalate (childListings children) ++ ")"
          | _ => ""
  | value => value.listing

def dataListings : List Json → List String
  | [] => []
  | first :: rest => dataListing first :: dataListings rest

def childListings : List (Text × Json) → List String
  | [] => []
  | (key, value) :: rest => (key.toString ++ "=" ++ dataListing value) :: childListings rest

end

def valueText : Tree → Text
  | nil => "nil"
  | bool value => if value then "true" else "false"
  | number value => Number.text value
  | text value => value
  | token saved => saved.display
  | other => dataListing other.toJson

end Tree

end Lox
