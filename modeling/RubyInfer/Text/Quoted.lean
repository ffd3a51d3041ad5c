import RubyInfer.Text.Hidden

/-!
Text between quotation marks, in a form that shows every character: one that leaves no mark of its
own is given by its number.
-/

namespace RubyInfer.Quoted

def showChar (c : Char) : List Char :=
  if c = '"' ∨ c = '\\' then ['\\', c]
  else if c = '\n' then ['\\', 'n']
  else if c = '\r' then ['\\', 'r']
  else if c = '\t' then ['\\', 't']
  else if c.toNat = 0 then ['\\', '0']
  else if isHidden c then ['\\', 'u', '\x7b'] ++ Nat.toDigits 16 c.toNat ++ ['\x7d']
  else [c]

def quote (text : String) : String := String.ofList ('"' :: text.toList.flatMap showChar ++ ['"'])

end RubyInfer.Quoted
