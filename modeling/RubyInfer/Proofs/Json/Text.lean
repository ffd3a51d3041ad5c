import RubyInfer.Json.Document
import RubyInfer.Proofs.Json.Height

/-!
# Reading back what was written

The compact text of a JSON value is read back as that value: `Document.readBytes_render`. The reader
works on bytes and the writer on characters, so the text is followed through UTF-8: outside of
strings every character is one byte, and inside of them the bytes of a character beyond ASCII are
all above those that mean something to the reader.

Each reader is stated on a text that goes on after the value. Only a number has to know how: a
digit, a point or an exponent would still belong to it, and after a written value there is always a
comma, a bracket, a brace or the end.
-/

namespace RubyInfer

variable {fields : List (String × Json)} {items : List Json} {v : Json} {b : UInt8}

namespace Document

/-! ## Bytes of characters -/

def utf8 (cs : List Char) : List UInt8 := cs.flatMap String.utf8EncodeChar

theorem utf8_append (cs ds : List Char) : utf8 (cs ++ ds) = utf8 cs ++ utf8 ds := List.flatMap_append

theorem utf8_cons (c : Char) (cs : List Char) :
    utf8 (c :: cs) = String.utf8EncodeChar c ++ utf8 cs := List.flatMap_cons

theorem toUTF8_ofList (cs : List Char) : (String.ofList cs).toUTF8.data.toList = utf8 cs := by
  simp [utf8, String.toUTF8, List.utf8Encode]

theorem fromUTF8_utf8 (s : String) : String.fromUTF8? ⟨(utf8 s.toList).toArray⟩ = some s := by
  have same : (⟨(utf8 s.toList).toArray⟩ : ByteArray) = s.toByteArray := by
    have whole := congrArg String.toByteArray (String.ofList_toList (s := s))
    rw [String.toByteArray_ofList] at whole
    rw [← whole]
    apply ByteArray.ext
    simp [utf8, List.utf8Encode]
  simp [String.fromUTF8?, same, s.isValidUTF8, String.fromUTF8]

theorem encode_ascii {c : Char} (low : c.toNat < 128) : String.utf8EncodeChar c = [ascii c] := by
  have low : c.toNat ≤ 127 := Nat.le_of_lt_succ low
  simp [String.utf8EncodeChar, low, ascii]

theorem toNat_ne_of_ne {c d : Char} (ne : c ≠ d) : c.toNat ≠ d.toNat := fun same => ne (Char.toNat_inj.1 same)

def Plain (b : UInt8) : Prop := b ≠ quoteMark ∧ b ≠ backslash ∧ ¬b < 0x20

theorem plain_ofNat {n : Nat} (bound : n < 256) (range : 0x20 ≤ n) (quote : n ≠ 0x22)
    (slash : n ≠ 0x5c) : Plain (UInt8.ofNat n) := by
  have value : (UInt8.ofNat n).toNat = n := UInt8.toNat_ofNat_of_lt' bound
  refine ⟨?_, ?_, ?_⟩
  · intro same
    exact quote (value.symm.trans (congrArg UInt8.toNat same))
  · intro same
    exact slash (value.symm.trans (congrArg UInt8.toNat same))
  · rw [UInt8.lt_iff_toNat_lt, value]
    exact Nat.not_lt.2 range

theorem plain_of_mem_encode {c : Char} (quote : c ≠ '"') (slash : c ≠ '\\') (high : ¬c.toNat < 0x20) :
    ∀ b ∈ String.utf8EncodeChar c, Plain b := by
  have quote : c.toNat ≠ 0x22 := toNat_ne_of_ne quote
  have slash : c.toNat ≠ 0x5c := toNat_ne_of_ne slash
  unfold String.utf8EncodeChar
  dsimp only
  change ¬c.val.toNat < 0x20 at high
  change c.val.toNat ≠ _ at quote slash
  split
  · simp only [List.mem_singleton, forall_eq]
    exact plain_ofNat (by omega) (by omega) quote slash
  split
  · simp only [List.mem_cons, List.not_mem_nil, or_false, forall_eq_or_imp, forall_eq]
    refine ⟨?_, ?_⟩ <;> exact plain_ofNat (by omega) (by omega) (by omega) (by omega)
  split
  · simp only [List.mem_cons, List.not_mem_nil, or_false, forall_eq_or_imp, forall_eq]
    refine ⟨?_, ?_, ?_⟩ <;> exact plain_ofNat (by omega) (by omega) (by omega) (by omega)
  · simp only [List.mem_cons, List.not_mem_nil, or_false, forall_eq_or_imp, forall_eq]
    refine ⟨?_, ?_, ?_, ?_⟩ <;> exact plain_ofNat (by omega) (by omega) (by omega) (by omega)

/-! ## Strings -/

theorem pieces_unit (a b c d : UInt8) (bs : List UInt8) :
    pieces (backslash :: 0x75 :: a :: b :: c :: d :: bs) = (do
    let n ← hexUnit? a b c d
    let (ps, rest) ← pieces bs
    pure (.unit n :: ps, rest)) := pieces.eq_3 a b c d bs

theorem pieces_simple {b : UInt8} (other : b ≠ 0x75) (bs : List UInt8) : pieces (backslash :: b :: bs) = (do
    let e ← simpleEscape? b
    let (ps, rest) ← pieces bs
    pure (.byte e :: ps, rest)) :=
  pieces.eq_4 b bs fun _ _ _ _ _ same _ => other same

theorem pieces_plain {b : UInt8} (plain : Plain b) (bs : List UInt8) : pieces (b :: bs) = (do
    let (ps, rest) ← pieces bs
    pure (.byte b :: ps, rest)) := by
  obtain ⟨quote, slash, high⟩ := plain
  rw [pieces.eq_5 b bs quote (fun _ _ _ _ _ same _ => slash same) (fun _ _ same _ => slash same),
    if_neg (by simp [slash, high])]

theorem pieces_append {bytes : List UInt8} (plain : ∀ b ∈ bytes, Plain b) {bs rest : List UInt8}
    {ps : List Piece}
    (more : pieces bs = some (ps, rest)) : pieces (bytes ++ bs) = some (bytes.map .byte ++ ps, rest) := by
  induction bytes with
  | nil => exact more
  | cons b bytes ih =>
    have tail := ih fun d mem => plain d (by simp [mem])
    rw [List.cons_append, pieces_plain (plain b (by simp)), tail]
    rfl

theorem assemble_bytes (bytes : List UInt8) (ps : List Piece) :
    assemble? (bytes.map .byte ++ ps) = (assemble? ps).map (bytes ++ ·) := by
  induction bytes with
  | nil => simp
  | cons b bytes ih =>
    rw [List.map_cons, List.cons_append, assemble?, ih, Option.map_map]
    rfl

theorem assemble_unit {n : Nat} (low : n < 0xd800) (ps : List Piece) :
    assemble? (.unit n :: ps) = (assemble? ps).map (String.utf8EncodeChar (Char.ofNat n) ++ ·) := by
  have first : isHighSurrogate n = false := by
    simp only [isHighSurrogate, decide_eq_false_iff_not]
    omega
  have second : isLowSurrogate n = false := by
    simp only [isLowSurrogate, decide_eq_false_iff_not]
    omega
  cases ps with
  | nil => simp [assemble?, first, second]
  | cons p ps =>
    cases p with
    | byte b => simp [assemble?, first, second]
    | unit m => rw [assemble?, first, second, if_neg Bool.false_ne_true, if_neg Bool.false_ne_true]

theorem hexUnit_of_low : ∀ n < 0x20,
    utf8 ['\\', 'u', '0', '0', Json.hexDigit (n / 16), Json.hexDigit (n % 16)] =
      [backslash, 0x75, 0x30, 0x30, ascii (Json.hexDigit (n / 16)), ascii (Json.hexDigit (n % 16))] ∧
    hexUnit? 0x30 0x30 (ascii (Json.hexDigit (n / 16))) (ascii (Json.hexDigit (n % 16))) = some n := by
  decide +kernel

theorem pieces_escape (c : Char) {bs rest : List UInt8} {ps : List Piece}
    (more : pieces bs = some (ps, rest)) :
    ∃ qs, pieces (utf8 (Json.escape c) ++ bs) = some (qs ++ ps, rest) ∧
      assemble? (qs ++ ps) = (assemble? ps).map (String.utf8EncodeChar c ++ ·) := by
  -- The escapes of two characters differ only in their letter.
  have short (letter : Char) (b : UInt8) (text : utf8 ['\\', letter] = [backslash, ascii letter])
      (other : ascii letter ≠ 0x75)
      (known : simpleEscape? (ascii letter) = some b) (code : String.utf8EncodeChar c = [b]) :
      ∃ qs, pieces (utf8 ['\\', letter] ++ bs) = some (qs ++ ps, rest) ∧
        assemble? (qs ++ ps) = (assemble? ps).map (String.utf8EncodeChar c ++ ·) := by
    refine ⟨[.byte b], ?_, ?_⟩
    · rw [text, List.cons_append, List.cons_append, List.nil_append, pieces_simple other, known, more]
      rfl
    · rw [code]
      exact assemble_bytes [b] ps
  unfold Json.escape
  split
  case _ same => exact short '"' 0x22 (by decide) (by decide) (by decide) (by rw [same]; decide)
  split
  case _ same => exact short '\\' 0x5c (by decide) (by decide) (by decide) (by rw [same]; decide)
  split
  case _ same => exact short 'b' 0x08 (by decide) (by decide) (by decide) (by rw [same]; decide)
  split
  case _ same => exact short 'f' 0x0c (by decide) (by decide) (by decide) (by rw [same]; decide)
  split
  case _ same => exact short 'n' 0x0a (by decide) (by decide) (by decide) (by rw [same]; decide)
  split
  case _ same => exact short 'r' 0x0d (by decide) (by decide) (by decide) (by rw [same]; decide)
  split
  case _ same => exact short 't' 0x09 (by decide) (by decide) (by decide) (by rw [same]; decide)
  split
  case _ low =>
    obtain ⟨text, value⟩ := hexUnit_of_low c.toNat low
    refine ⟨[.unit c.toNat], ?_, ?_⟩
    · rw [text]
      simp only [List.cons_append, List.nil_append]
      rw [pieces_unit, value, more]
      rfl
    · have same : Char.ofNat c.toNat = c := Char.ofNat_toNat c
      have := assemble_unit (n := c.toNat) (by omega) ps
      rwa [same] at this
  case _ quote slash _ _ _ _ _ high =>
    refine ⟨(String.utf8EncodeChar c).map .byte, ?_, assemble_bytes _ _⟩
    rw [utf8_cons, utf8]
    simpa using pieces_append (plain_of_mem_encode quote slash high) more

theorem stringBody_escape (cs rest : List Char) :
    ∃ ps, pieces (utf8 (cs.flatMap Json.escape ++ '"' :: rest)) = some (ps, utf8 rest) ∧
      assemble? ps = some (utf8 cs) := by
  induction cs with
  | nil =>
    refine ⟨[], ?_, rfl⟩
    rw [List.flatMap_nil, List.nil_append, utf8_cons]
    exact pieces.eq_2 (utf8 rest)
  | cons c cs ih =>
    obtain ⟨ps, read, whole⟩ := ih
    obtain ⟨qs, read', part⟩ := pieces_escape c read
    refine ⟨qs ++ ps, ?_, ?_⟩
    · rw [List.flatMap_cons, List.append_assoc, utf8_append]
      exact read'
    · rw [part, whole, utf8_cons]
      rfl

theorem stringBody_quote (s : String) (rest : List Char) :
    stringBody (utf8 (s.toList.flatMap Json.escape ++ '"' :: rest)) = some (some s, utf8 rest) := by
  obtain ⟨ps, read, whole⟩ := stringBody_escape s.toList rest
  have text : textOf? ps = some s := by
    simp only [textOf?, whole, Option.bind_eq_bind, Option.bind_some]
    exact fromUTF8_utf8 s
  simp [stringBody, read, text]

/-! ## Numbers -/

def Follow (rest : List Char) : Prop := rest = [] ∨ ∃ c more, rest = c :: more ∧
    (c = ',' ∨ c = ']' ∨ c = '\x7d')

theorem isDigit_ascii {c : Char} (digit : c.isDigit = true) :
    c.toNat < 128 ∧ isDigit (ascii c) = true ∧ digitValue (ascii c) = c.toNat - 48 := by
  have low : 48 ≤ c.toNat ∧ c.toNat ≤ 57 := by simpa [Char.isDigit, UInt32.le_iff_toNat_le] using digit
  have value : (ascii c).toNat = c.toNat := UInt8.toNat_ofNat_of_lt' (show c.toNat < 256 by omega)
  refine ⟨by omega, ?_, by rw [digitValue, value]⟩
  have bounds : (ascii '0').toNat ≤ (ascii c).toNat ∧ (ascii c).toNat ≤ (ascii '9').toNat := by
    rw [value]
    exact low
  simpa [isDigit, UInt8.le_iff_toNat_le] using bounds

theorem digits_utf8 {cs rest : List Char} (all : ∀ c ∈ cs, c.isDigit = true) (follow : Follow rest) :
    digits (utf8 (cs ++ rest)) = (cs.map (fun c => c.toNat - 48), utf8 rest) := by
  induction cs with
  | nil =>
    rcases follow with rfl | ⟨c, more, rfl, rfl | rfl | rfl⟩ <;> rfl
  | cons c cs ih =>
    have tail := ih fun d mem => all d (by simp [mem])
    obtain ⟨low, digit, value⟩ := isDigit_ascii (all c (by simp))
    simp only [digits, Prod.mk.injEq] at tail
    rw [List.cons_append, utf8_cons, encode_ascii low, List.singleton_append, digits,
      List.takeWhile_cons_of_pos digit,
      List.dropWhile_cons_of_pos digit, List.map_cons, List.map_cons, value, tail.1, tail.2]

theorem head_toDigits {n : Nat} (pos : 0 < n) : ∃ c cs, Nat.toDigits 10 n = c :: cs ∧ c.toNat - 48 ≠ 0 := by
  induction n using Nat.strongRecOn with
  | ind n ih =>
    by_cases small : n < 10
    · refine ⟨n.digitChar, [], Nat.toDigits_of_lt_base small, ?_⟩
      have digit : ∀ k < 10, 0 < k → k.digitChar.toNat - 48 ≠ 0 := by decide +kernel
      exact digit n small pos
    · obtain ⟨c, cs, head, nonzero⟩ := ih (n / 10) (by omega) (by omega)
      have split : Nat.toDigits 10 (n / 10) ++ Nat.toDigits 10 (n % 10) =
          Nat.toDigits 10 (10 * (n / 10) + n % 10) :=
        Nat.toDigits_append_toDigits (by decide) (by omega) (by omega)
      rw [Nat.div_add_mod, head] at split
      exact ⟨c, cs ++ Nat.toDigits 10 (n % 10), split.symm, nonzero⟩

theorem toDigits_cons (n : Nat) : ∃ c cs, Nat.toDigits 10 n = c :: cs ∧ c.isDigit = true := by
  have digit {c : Char} (mem : c ∈ Nat.toDigits 10 n) : c.isDigit = true :=
    Nat.isDigit_of_mem_toDigits (by decide) (by decide) mem
  rcases Nat.eq_zero_or_pos n with rfl | pos
  · exact ⟨'0', [], rfl, rfl⟩
  · obtain ⟨c, cs, text, -⟩ := head_toDigits pos
    exact ⟨c, cs, text, digit (by simp [text])⟩

theorem accumulate_eq {acc : Nat} {ds : List Nat}
    (bound : ds.foldl (fun a d => a * 10 + d) acc < Nat.pow 2 64) :
    accumulate acc ds = (ds.foldl (fun a d => a * 10 + d) acc, 0) := by
  have grows (ds : List Nat) (acc : Nat) : acc ≤ ds.foldl (fun a d => a * 10 + d) acc := by
    induction ds generalizing acc with
    | nil => exact Nat.le_refl acc
    | cons d ds ih =>
      have := ih (acc * 10 + d)
      rw [List.foldl_cons]
      omega
  induction ds generalizing acc with
  | nil => rfl
  | cons d ds ih =>
    rw [List.foldl_cons] at bound ⊢
    have first := grows ds (acc * 10 + d)
    rw [accumulate, if_pos (Nat.lt_of_le_of_lt first bound), ih bound]

theorem foldl_toDigits (n : Nat) :
    ((Nat.toDigits 10 n).map (fun c => c.toNat - 48)).foldl (fun a d => a * 10 + d) 0 = n := by
  have whole : Nat.ofDigitChars 10 (Nat.toDigits 10 n) 0 = n :=
    Nat.ofDigitChars_toDigits (by decide) (by decide)
  rw [List.foldl_map]
  simpa [Nat.ofDigitChars, Nat.mul_comm] using whole

theorem wholePart_toDigits (n : Nat) {rest : List Char} (follow : Follow rest) :
    wholePart (utf8 (Nat.toDigits 10 n ++ rest)) =
      some ((Nat.toDigits 10 n).map (fun c => c.toNat - 48), utf8 rest) := by
  have all : ∀ c ∈ Nat.toDigits 10 n, c.isDigit = true :=
    fun c => Nat.isDigit_of_mem_toDigits (by decide) (by decide)
  have found := digits_utf8 all follow
  rcases Nat.eq_zero_or_pos n with rfl | pos
  · simp only [wholePart, someDigits, found]
    rfl
  · obtain ⟨c, cs, text, nonzero⟩ := head_toDigits pos
    rw [text] at found ⊢
    simp only [wholePart, someDigits, found, List.map_cons]
    simp only [Option.bind_eq_bind, Option.bind_some]
    split
    case _ same => exact absurd (List.cons.inj same).1 nonzero
    · rfl

theorem numeral_toDigits (n : Nat) {rest : List Char} (follow : Follow rest) :
    numeral false (utf8 (Nat.toDigits 10 n ++ rest)) =
      some (⟨false, (Nat.toDigits 10 n).map (fun c => c.toNat - 48), none, none⟩, utf8 rest) := by
  have fraction : fractionPart (utf8 rest) = some (none, utf8 rest) := by
    rcases follow with rfl | ⟨c, more, rfl, rfl | rfl | rfl⟩ <;> rfl
  have exponent : exponentPart (utf8 rest) = some (none, utf8 rest) := by
    rcases follow with rfl | ⟨c, more, rfl, rfl | rfl | rfl⟩ <;> rfl
  simp [numeral, wholePart_toDigits n follow, fraction, exponent]

theorem value_toDigits {n : Nat} (bound : n < Nat.pow 2 64) :
    Numeral.value? ⟨false, (Nat.toDigits 10 n).map (fun c => c.toNat - 48), none, none⟩ =
      some (.integer n) := by
  have whole : accumulate 0 ((Nat.toDigits 10 n).map (fun c => c.toNat - 48)) = (_, 0) :=
    accumulate_eq (by rwa [foldl_toDigits])
  rw [foldl_toDigits] at whole
  simp [Numeral.value?, whole]

end Document

/-! ## Values -/

/-- Values whose numbers are all written without a sign, a point or an exponent, and fit in 64
bits. -/
inductive Json.Whole : Json → Prop
  | null : Whole .null
  | bool (b : Bool) : Whole (.bool b)
  | nat {n : Nat} (bound : n < Nat.pow 2 64) : Whole (.nat n)
  | string (s : String) : Whole (.string s)
  | array {items : List Json} (each : ∀ v ∈ items, Whole v) : Whole (.array items)
  | object {fields : List (String × Json)} (each : ∀ f ∈ fields, Whole f.2) : Whole (.object fields)

namespace Document

mutual
def ofJson : Json → Document
  | .null => .null
  | .bool b => .bool b
  | .number n => .number (some n)
  | .string s => .string (some s)
  | .array items => .array (ofItems items)
  | .object fields => .object (ofFields fields)

def ofItems : List Json → List Document
  | [] => []
  | v :: rest => ofJson v :: ofItems rest

def ofFields : List (String × Json) → List (Option String × Document)
  | [] => []
  | (k, v) :: rest => (some k, ofJson v) :: ofFields rest
end

theorem text_nat (n : Nat) : (Number.integer n).text.toList = Nat.toDigits 10 n := by
  have text : (Number.integer n).text = String.ofList (Nat.toDigits 10 n) := rfl
  rw [text, String.toList_ofList]

theorem renderOnto_nat (n : Nat) (rest : List Char) :
    (Json.nat n).renderOnto rest = Nat.toDigits 10 n ++ rest := by
  rw [Json.nat, Json.renderOnto, text_nat]

/-! Every value takes a character of its own, and one for each level below it. -/

theorem length_le_utf8 (cs : List Char) : cs.length ≤ (utf8 cs).length := by
  induction cs with
  | nil => exact Nat.le_refl 0
  | cons c cs ih =>
    have head : 0 < (String.utf8EncodeChar c).length := by
      unfold String.utf8EncodeChar
      dsimp only
      repeat' split
      all_goals exact Nat.succ_pos _
    rw [utf8_cons, List.length_append, List.length_cons]
    omega

theorem length_renderItems
    (each : ∀ v ∈ items, ∀ rest, v.height + 1 + rest.length ≤ (v.renderOnto rest).length)
    (rest : List Char) :
    Json.heightItems items + rest.length ≤ (Json.renderItems items rest).length ∧
      items.length + rest.length ≤ (Json.renderItems items rest).length := by
  induction items with
  | nil => simp [Json.heightItems, Json.renderItems]
  | cons v more ih =>
    obtain ⟨low, count⟩ := ih fun w mem => each w (by simp [mem])
    cases more with
    | nil =>
      have here := each v (by simp) rest
      simp only [Json.heightItems, Json.renderItems, List.length_cons, List.length_nil]
      omega
    | cons w more =>
      have here := each v (by simp) (',' :: Json.renderItems (w :: more) rest)
      simp only [List.length_cons] at here count
      simp only [Json.heightItems, Json.renderItems, List.length_cons] at low ⊢
      omega

theorem length_renderFields
    (each : ∀ f ∈ fields, ∀ rest, f.2.height + 1 + rest.length ≤ (f.2.renderOnto rest).length)
    (rest : List Char) :
    Json.heightFields fields + rest.length ≤ (Json.renderFields fields rest).length ∧
      fields.length + rest.length ≤ (Json.renderFields fields rest).length := by
  induction fields with
  | nil => simp [Json.heightFields, Json.renderFields]
  | cons f more ih =>
    obtain ⟨low, count⟩ := ih fun g mem => each g (by simp [mem])
    cases more with
    | nil =>
      have here := each f (by simp) rest
      simp only [Json.heightFields, Json.renderFields, List.length_append, List.length_cons, List.length_nil]
      omega
    | cons g more =>
      have here := each f (by simp) (',' :: Json.renderFields (g :: more) rest)
      simp only [List.length_cons] at here count
      simp only [Json.heightFields, Json.renderFields, List.length_append, List.length_cons] at low ⊢
      omega

theorem length_renderOnto (whole : v.Whole) (rest : List Char) :
    v.height + 1 + rest.length ≤ (v.renderOnto rest).length := by
  induction whole generalizing rest with
  | null => simp [Json.height, Json.renderOnto]; omega
  | bool b => cases b <;> simp [Json.height, Json.renderOnto] <;> omega
  | @nat n bound =>
    obtain ⟨c, cs, text, -⟩ := toDigits_cons n
    simp only [renderOnto_nat, text, List.cons_append, List.length_cons, List.length_append]
    simp only [Json.nat, Json.height]
    omega
  | string s => simp [Json.height, Json.renderOnto, Json.quote]; omega
  | array each ih =>
    obtain ⟨low, -⟩ := length_renderItems ih (']' :: rest)
    simp only [Json.height, Json.renderOnto, List.length_cons] at low ⊢
    omega
  | object each ih =>
    obtain ⟨low, -⟩ := length_renderFields ih ('\x7d' :: rest)
    simp only [Json.height, Json.renderOnto, List.length_cons] at low ⊢
    omega

/-! A written value starts with a byte that is not blank and closes nothing. -/

def Opens (b : UInt8) : Prop := isBlank b = false ∧ b ≠ closeBracket ∧ b ≠ closeBrace

instance (b : UInt8) : Decidable (Opens b) := inferInstanceAs (Decidable (_ ∧ _ ∧ _))

theorem opens_of_digit (digit : isDigit b = true) : Opens b := by
  refine ⟨?_, ?_, ?_⟩
  · cases blank : isBlank b with
    | false => rfl
    | true =>
      simp only [isBlank, decide_eq_true_eq] at blank
      rcases blank with rfl | rfl | rfl | rfl <;> exact absurd digit (by decide)
  · rintro rfl
    exact absurd digit (by decide)
  · rintro rfl
    exact absurd digit (by decide)

theorem renderOnto_opens (whole : v.Whole) (rest : List Char) :
    ∃ b bs, utf8 (v.renderOnto rest) = b :: bs ∧ Opens b := by
  cases whole with
  | null => exact ⟨_, _, rfl, by decide⟩
  | bool b => cases b <;> exact ⟨_, _, rfl, by decide⟩
  | @nat n bound =>
    obtain ⟨c, cs, text, digit⟩ := toDigits_cons n
    obtain ⟨low, digit, -⟩ := isDigit_ascii digit
    rw [renderOnto_nat, text, List.cons_append, utf8_cons, encode_ascii low]
    exact ⟨_, _, rfl, opens_of_digit digit⟩
  | string s => exact ⟨_, _, rfl, by decide⟩
  | array each => exact ⟨_, _, rfl, by decide⟩
  | object each => exact ⟨_, _, rfl, by decide⟩

theorem skipBlanks_opens (opens : Opens b) (bs : List UInt8) : skipBlanks (b :: bs) = b :: bs :=
  List.dropWhile_cons_of_neg (by simp [opens.1])

def Reads (value : Reader Document) (v : Json) : Prop :=
  ∀ rest, Follow rest → value (utf8 (v.renderOnto rest)) = some (ofJson v, utf8 rest)

theorem itemsWith_render {value : Reader Document} (each : ∀ v ∈ items, Reads value v)
    (nonempty : items ≠ []) {fuel : Nat} (enough : items.length ≤ fuel) (rest : List Char) :
    itemsWith value fuel (utf8 (Json.renderItems items (']' :: rest))) = some (ofItems items, utf8 rest) := by
  induction items generalizing fuel with
  | nil => exact absurd rfl nonempty
  | cons v more ih =>
    obtain ⟨fuel, rfl⟩ : ∃ k, fuel = k + 1 := ⟨fuel - 1, by simp only [List.length_cons] at enough; omega⟩
    have here := each v (by simp)
    cases more with
    | nil =>
      have read := here (']' :: rest) (.inr ⟨']', rest, rfl, by simp⟩)
      simp only [Json.renderItems, itemsWith, read]
      rfl
    | cons w more =>
      have read := here (',' :: Json.renderItems (w :: more) (']' :: rest)) (.inr ⟨',', _, rfl, by simp⟩)
      have tail := ih (fun x mem => each x (by simp [mem])) (by simp) (Nat.le_of_succ_le_succ enough)
      simp only [Json.renderItems, itemsWith, read, Option.bind_eq_bind, Option.bind_some]
      change ((itemsWith value fuel (utf8 (Json.renderItems (w :: more) (']' :: rest)))).bind fun read =>
        some (ofJson v :: read.1, read.2)) = _
      rw [tail]
      rfl

theorem utf8_quote (s : String) (rest : List Char) :
    utf8 (Json.quote s ++ rest) = quoteMark :: utf8 (s.toList.flatMap Json.escape ++ '"' :: rest) := by
  simp only [Json.quote, List.cons_append, List.append_assoc, List.nil_append]
  rfl

def moreFields (value : Reader Document) (fuel : Nat) (first : Option String × Document) :
    Reader (List (Option String × Document)) := fun bs =>
  match skipBlanks bs with
  | closeBrace :: rest => pure ([first], rest)
  | comma :: rest => do
    let (fs, rest) ← fieldsWith value fuel rest
    pure (first :: fs, rest)
  | _ => none

def fieldValue (value : Reader Document) (fuel : Nat) (key : Option String) :
    Reader (List (Option String × Document)) := fun bs =>
  match skipBlanks bs with
  | colon :: bs => do
    let (v, bs) ← value bs
    moreFields value fuel (key, v) bs
  | _ => none

theorem fieldsWith_step {value : Reader Document} (here : Reads value v) (key : String) (fuel : Nat)
    {rest : List Char} (follow : Follow rest) :
    fieldsWith value (fuel + 1) (utf8 (Json.quote key ++ ':' :: v.renderOnto rest)) =
      moreFields value fuel (some key, ofJson v) (utf8 rest) := by
  rw [utf8_quote]
  change
    ((stringBody (utf8 (key.toList.flatMap Json.escape ++ '"' :: ':' :: v.renderOnto rest))).bind
      fun read => fieldValue value fuel read.1 read.2) = _
  rw [stringBody_quote]
  change ((value (utf8 (v.renderOnto rest))).bind fun read =>
    moreFields value fuel (some key, read.1) read.2) = _
  rw [here rest follow]
  rfl

theorem fieldsWith_render {value : Reader Document} (each : ∀ f ∈ fields, Reads value f.2)
    (nonempty : fields ≠ []) {fuel : Nat} (enough : fields.length ≤ fuel) (rest : List Char) :
    fieldsWith value fuel (utf8 (Json.renderFields fields ('\x7d' :: rest))) =
      some (ofFields fields, utf8 rest) := by
  induction fields generalizing fuel with
  | nil => exact absurd rfl nonempty
  | cons f more ih =>
    obtain ⟨fuel, rfl⟩ : ∃ k, fuel = k + 1 := ⟨fuel - 1, by simp only [List.length_cons] at enough; omega⟩
    obtain ⟨key, v⟩ := f
    have here : Reads value v := each (key, v) (by simp)
    cases more with
    | nil =>
      rw [Json.renderFields, fieldsWith_step here key fuel (.inr ⟨'\x7d', rest, rfl, by simp⟩)]
      rfl
    | cons g more =>
      have tail := ih (fun h mem => each h (by simp [mem])) (by simp) (Nat.le_of_succ_le_succ enough)
      rw [Json.renderFields, fieldsWith_step here key fuel (.inr ⟨',', _, rfl, by simp⟩)]
      change ((fieldsWith value fuel (utf8 (Json.renderFields (g :: more) ('\x7d' :: rest)))).bind fun read =>
        some ((some key, ofJson v) :: read.1, read.2)) = _
      rw [tail]
      rfl

theorem ne_of_digit {b c : UInt8} (digit : isDigit b = true) (other : isDigit c = false) : b ≠ c := by
  rintro rfl
  rw [digit] at other
  cases other

theorem wordValue_digit (digit : isDigit b = true) (bs : List UInt8) : wordValue (b :: bs) = none := by
  have letter (c : Char) (other : isDigit (ascii c) = false) : ¬ascii c = b := (ne_of_digit digit other).symm
  have first : expect ("null".toList.map ascii) (b :: bs) = none := if_neg (letter 'n' (by decide))
  have second : expect ("true".toList.map ascii) (b :: bs) = none := if_neg (letter 't' (by decide))
  have third : expect ("false".toList.map ascii) (b :: bs) = none := if_neg (letter 'f' (by decide))
  simp only [wordValue, words, List.findSome?, first, second, third, Option.map_none]

theorem valueWith_digit (value : Reader Document) (digit : isDigit b = true) (bs : List UInt8) :
    valueWith value (b :: bs) = (numeral false (b :: bs)).map fun (n, rest) => (.number n.value?, rest) := by
  have other {c : UInt8} (no : isDigit c = false) : b ≠ c := ne_of_digit digit no
  have number : numberValue (b :: bs) = (numeral false (b :: bs)).map fun (n, rest) =>
    (.number n.value?, rest) := by
    unfold numberValue
    split
    case _ same => exact absurd (List.cons.inj same).1 (other (by decide))
    · rfl
  unfold valueWith
  rw [skipBlanks_opens (opens_of_digit digit)]
  split
  case _ same => exact absurd (List.cons.inj same).1 (other (by decide))
  case _ same => exact absurd (List.cons.inj same).1 (other (by decide))
  case _ same => exact absurd (List.cons.inj same).1 (other (by decide))
  · rw [wordValue_digit digit, number]
    rfl

theorem arrayWith_render {value : Reader Document} (whole : ∀ v ∈ items, v.Whole)
    (each : ∀ v ∈ items, Reads value v) (rest : List Char) :
    arrayWith value (utf8 (Json.renderItems items (']' :: rest))) =
      some (.array (ofItems items), utf8 rest) := by
  cases items with
  | nil => rfl
  | cons v more =>
    have starts : ∃ b bs, utf8 (Json.renderItems (v :: more) (']' :: rest)) = b :: bs ∧ Opens b := by
      cases more <;> exact renderOnto_opens (whole v (by simp)) _
    obtain ⟨b, bs, text, opens⟩ := starts
    have count := (length_renderItems (fun w mem => length_renderOnto (whole w mem)) (']' :: rest)).2
    have bytes := length_le_utf8 (Json.renderItems (v :: more) (']' :: rest))
    have read : itemsWith value ((utf8 (Json.renderItems (v :: more) (']' :: rest))).length + 1) _ = _ :=
      itemsWith_render each (by simp) (by omega) rest
    unfold arrayWith
    split
    case _ closes =>
      rw [text, skipBlanks_opens opens] at closes
      exact absurd (List.cons.inj closes).1 opens.2.1
    · rw [read]
      rfl

theorem objectWith_render {value : Reader Document} (whole : ∀ f ∈ fields, f.2.Whole)
    (each : ∀ f ∈ fields, Reads value f.2) (rest : List Char) :
    objectWith value (utf8 (Json.renderFields fields ('\x7d' :: rest))) =
      some (.object (ofFields fields), utf8 rest) := by
  cases fields with
  | nil => rfl
  | cons f more =>
    have starts : ∃ bs, utf8 (Json.renderFields (f :: more) ('\x7d' :: rest)) = quoteMark :: bs := by
      obtain ⟨key, v⟩ := f
      cases more <;> exact ⟨_, utf8_quote key _⟩
    obtain ⟨bs, text⟩ := starts
    have count := (length_renderFields (fun g mem => length_renderOnto (whole g mem)) ('\x7d' :: rest)).2
    have bytes := length_le_utf8 (Json.renderFields (f :: more) ('\x7d' :: rest))
    have read : fieldsWith value ((utf8 (Json.renderFields (f :: more) ('\x7d' :: rest))).length + 1) _ = _ :=
      fieldsWith_render each (by simp) (by omega) rest
    unfold objectWith
    split
    case _ closes =>
      rw [text] at closes
      exact absurd (List.cons.inj closes).1 (by decide)
    · rw [read]
      rfl

theorem valueWithin_render (whole : v.Whole) {levels : Nat} (enough : v.height ≤ levels) :
    Reads (valueWithin (levels + 1)) v := by
  induction whole generalizing levels with
  | null =>
    intro rest follow
    rfl
  | bool b =>
    intro rest follow
    cases b <;> rfl
  | @nat n bound =>
    intro rest follow
    obtain ⟨c, cs, text, digit⟩ := toDigits_cons n
    obtain ⟨low, digit, -⟩ := isDigit_ascii digit
    have bytes : utf8 (Nat.toDigits 10 n ++ rest) = ascii c :: utf8 (cs ++ rest) := by
      rw [text, List.cons_append, utf8_cons, encode_ascii low]
      rfl
    rw [renderOnto_nat, valueWithin, bytes, valueWith_digit _ digit, ← bytes, numeral_toDigits n follow]
    simp only [Option.map_some, value_toDigits bound]
    rfl
  | string s =>
    intro rest follow
    rw [Json.renderOnto, utf8_quote]
    change (stringBody (utf8 (s.toList.flatMap Json.escape ++ '"' :: rest))).map
      (fun read => (Document.string read.1, read.2)) = _
    rw [stringBody_quote]
    rfl
  | @array items each ih =>
    intro rest follow
    cases levels with
    | zero => cases enough
    | succ levels =>
      have inner : Json.heightItems items ≤ levels := Nat.le_of_succ_le_succ enough
      exact arrayWith_render each
        (fun v mem => ih v mem (Nat.le_trans (Json.height_le_of_mem mem) inner)) rest
  | @object fields each ih =>
    intro rest follow
    cases levels with
    | zero => cases enough
    | succ levels =>
      have inner : Json.heightFields fields ≤ levels := Nat.le_of_succ_le_succ enough
      exact objectWith_render each
        (fun f mem => ih f mem (Nat.le_trans (Json.height_le_of_field mem) inner)) rest

theorem readBytes_render (whole : v.Whole) : readBytes? v.render.toUTF8 = some (ofJson v) := by
  have text : v.render.toUTF8.data.toList = utf8 (v.renderOnto []) := toUTF8_ofList _
  have long := length_renderOnto whole []
  have bytes := length_le_utf8 (v.renderOnto [])
  have read : valueWithin ((utf8 (v.renderOnto [])).length + 1) _ = _ :=
    valueWithin_render whole (by omega) [] (.inl rfl)
  simp only [readBytes?, text, read]
  rfl

end Document

end RubyInfer
