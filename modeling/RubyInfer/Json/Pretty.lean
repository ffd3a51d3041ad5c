import RubyInfer.Json.Basic

/-!
JSON text over several lines: two blanks per level, and one item or field a line.
-/

namespace RubyInfer.Json

def newLine (level : Nat) : List Char := '\n' :: List.replicate (2 * level) ' '

mutual
def prettyAt (level : Nat) : Json → List Char
  | .array [] => ['[', ']']
  | .array (v :: vs) => '[' :: (prettyItems (level + 1) (v :: vs) ++ newLine level ++ [']'])
  | .object [] => ['\x7b', '\x7d']
  | .object (f :: fs) => '\x7b' :: (prettyFields (level + 1) (f :: fs) ++ newLine level ++ ['\x7d'])
  | v => v.renderOnto []

def prettyItems (level : Nat) : List Json → List Char
  | [] => []
  | [v] => newLine level ++ prettyAt level v
  | v :: w :: more => newLine level ++ prettyAt level v ++ [','] ++ prettyItems level (w :: more)

def prettyFields (level : Nat) : List (String × Json) → List Char
  | [] => []
  | [(k, v)] => newLine level ++ quote k ++ [':', ' '] ++ prettyAt level v
  | (k, v) :: f :: more => newLine level ++ quote k ++ [':', ' '] ++ prettyAt level v ++ [','] ++
      prettyFields level (f :: more)
end

def pretty (v : Json) : String := String.ofList (prettyAt 0 v)

end RubyInfer.Json
