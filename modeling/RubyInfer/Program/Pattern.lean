import RubyInfer.FileTree
import RubyInfer.Text.Octets

/-!
Patterns of file names and other words: `*`, `?` and classes in brackets. Words are texts of octets.
-/

namespace RubyInfer.Program

structure Glyph where
  char : Char
  quoted : Bool
deriving DecidableEq

namespace Glyph

def ofText (quoted : Bool) (text : String) : List Glyph := text.toList.map (⟨·, quoted⟩)

def text (gs : List Glyph) : String := String.ofList (gs.map Glyph.char)

def is (g : Glyph) (c : Char) : Bool := !g.quoted && g.char = c

def isSpecial (g : Glyph) : Bool := g.is '*' || g.is '?' || g.is '['

end Glyph

def pathOf (word : String) : Path := ⟨(Octets.toText? word).getD "\x00"⟩

namespace Pattern

inductive Member
  | span (low high : Char)
  | kind (name : String)

def isMark (c : Char) : Bool := '!' ≤ c ∧ c ≤ '~' ∧ !c.isAlphanum

def kinds : List (String × (Char → Bool)) :=
  [("alnum", Char.isAlphanum), ("alpha", Char.isAlpha), ("blank", fun c => c = ' ' ∨ c = '\t'),
   ("cntrl", fun c => c.toNat < 32 ∨ c.toNat = 127), ("digit", Char.isDigit),
   ("graph", fun c => '!' ≤ c ∧ c ≤ '~'),
   ("lower", Char.isLower), ("print", fun c => ' ' ≤ c ∧ c ≤ '~'), ("punct", isMark),
   ("space", fun c => c = ' ' ∨ ('\x09' ≤ c ∧ c ≤ '\x0d')), ("upper", Char.isUpper),
   ("xdigit", fun c => c.isDigit ∨ ('a' ≤ c ∧ c ≤ 'f') ∨ ('A' ≤ c ∧ c ≤ 'F'))]

def Member.holds : Member → Char → Bool
  | .span low high, c => low ≤ c && c ≤ high
  | .kind name, c => (kinds.lookup name).any (fun test => test c)

inductive Atom
  | exactly (c : Char)
  | any
  | many
  | oneOf (negated : Bool) (members : List Member)

def Atom.accepts : Atom → Char → Bool
  | .exactly d, c => c = d
  | .any, _ => true
  | .many, _ => true
  | .oneOf negated members, c => members.any (fun m => m.holds c) != negated

def kindAt? (gs : List Glyph) : Option (Member × List Glyph) :=
  kinds.findSome? fun (name, _) =>
    let written := ":" ++ name ++ ":]"
    if gs.take written.length = Glyph.ofText false written then
      some (.kind name, gs.drop written.length) else none

def members : (fuel : Nat) → (first : Bool) → List Glyph → Option (List Member × List Glyph)
  | 0, _, _ => none
  | _ + 1, _, [] => none
  | fuel + 1, first, g :: rest =>
    if g.is ']' ∧ !first then some ([], rest)
    else
      match (if g.is '[' then kindAt? rest else none) with
      | some (m, rest) => (members fuel false rest).map (fun (ms, rest) => (m :: ms, rest))
      | none =>
        -- A backslash that is not quoted itself quotes the next character.
        let (low, rest) := match g.is '\\', rest with
          | true, h :: rest => (h.char, rest)
          | _, rest => (g.char, rest)
        match rest with
        | h :: i :: more =>
          if h.is '-' ∧ !i.is ']' then
            let (high, more) := match i.is '\\', more with
              | true, j :: more => (j.char, more)
              | _, more => (i.char, more)
            (members fuel false more).map (fun (ms, rest) => (.span low high :: ms, rest))
          else (members fuel false rest).map (fun (ms, rest) => (.span low low :: ms, rest))
        | _ => (members fuel false rest).map (fun (ms, rest) => (.span low low :: ms, rest))

def bracket? : List Glyph → Option (Atom × List Glyph)
  | [] => none
  | g :: rest =>
    if g.is '!' then (members (rest.length + 1) true rest).map (fun (ms, rest) => (.oneOf true ms, rest))
    else (members (rest.length + 2) true (g :: rest)).map (fun (ms, rest) => (.oneOf false ms, rest))

def atoms : (fuel : Nat) → List Glyph → List Atom
  | 0, _ => []
  | _ + 1, [] => []
  | fuel + 1, g :: rest =>
    if g.is '*' then .many :: atoms fuel rest
    else if g.is '?' then .any :: atoms fuel rest
    else if g.is '[' then
      match bracket? rest with
      | some (atom, rest) => atom :: atoms fuel rest
      | none => .exactly g.char :: atoms fuel rest
    else if g.is '\\' then
      match rest with
      | h :: rest => .exactly h.char :: atoms fuel rest
      | [] => [.exactly g.char]
    else .exactly g.char :: atoms fuel rest

def ofGlyphs (gs : List Glyph) : List Atom := atoms (gs.length + 1) gs

def fits : List Atom → List Char → Bool
  | [], cs => cs.isEmpty
  | .many :: ps, [] => fits ps []
  | .many :: ps, c :: cs => fits ps (c :: cs) || fits (.many :: ps) cs
  | _ :: _, [] => false
  | p :: ps, c :: cs => p.accepts c && fits ps cs
termination_by ps cs => ps.length + cs.length

def trim (front longest : Bool) (pattern : List Atom) (cs : List Char) : List Char :=
  let sizes := List.range (cs.length + 1)
  let cut (size : Nat) : List Char × List Char :=
    if front then (cs.take size, cs.drop size) else (cs.drop (cs.length - size), cs.take (cs.length - size))
  match (if longest then sizes.reverse else sizes).find? (fun size => fits pattern (cut size).1) with
  | some size => (cut size).2
  | none => cs

def splitSlash : List Glyph → List (List Glyph)
  | [] => [[]]
  | g :: gs =>
    if g.char = '/' then [] :: splitSlash gs
    else
      match splitSlash gs with
      | [] => [[g]]
      | piece :: rest => (g :: piece) :: rest

def namesIn (files : FileTree) (folder : String) (piece : List Glyph) : List String :=
  let hidden (name : String) : Bool := name.startsWith "."
  let names := match files.list? (pathOf (if folder.isEmpty then "." else folder)) with
    | some names => "." :: ".." :: names.map Octets.ofText
    | none => []
  let shown := names.filter (fun name => !hidden name || piece.head?.any (fun g => g.char = '.'))
  shown.filter (fun name => fits (ofGlyphs piece) name.toList)

def pathsFrom (files : FileTree) : (before : String) → List (List Glyph) → List String
  | before, [] => if (files.entry? (pathOf before)).isSome then [before] else []
  | before, piece :: rest =>
    let after (name : String) : String := before ++ name ++ (if rest.isEmpty then "" else "/")
    if piece.any Glyph.isSpecial then
      (namesIn files before piece).flatMap (fun name => pathsFrom files (after name) rest)
    else pathsFrom files (after (Glyph.text piece)) rest

def paths (files : FileTree) (word : List Glyph) : List String :=
  if word.any Glyph.isSpecial then
    match pathsFrom files "" (splitSlash word) with
    | [] => [Glyph.text word]
    | found => found.mergeSort (fun a b => decide (a ≤ b))
  else [Glyph.text word]

end Pattern

end RubyInfer.Program
