import RubyInfer.Text.Letter

/-!
Constants and the files that they live in by convention: `FooBar` in `foo_bar`, `HTTPServer` in
`http_server`.
-/

namespace RubyInfer

def isConstant (name : String) : Bool := name.toList.head?.any Letter.isUpper

/-- Whether a new word begins at a capital, given the characters on both sides of it. -/
def startsWord (before after : Option Char) : Bool :=
  match before with
  | none => false
  | some b =>
    if Letter.isLower b || Letter.isDigit b then true
    else Letter.isUpper b && after.any Letter.isLower

def snakeChars : (before : Option Char) → List Char → List Char
  | _, [] => []
  | before, c :: cs =>
    let small :=
      if !Letter.isUpper c then [c]
      else if startsWord before cs.head? then '_' :: Letter.toLower c
      else Letter.toLower c
    small ++ snakeChars (some c) cs

def snakeCase (name : String) : String := String.ofList (snakeChars none name.toList)

end RubyInfer
