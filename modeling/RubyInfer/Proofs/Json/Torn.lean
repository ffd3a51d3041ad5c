import Mathlib.Data.List.TakeWhile
import RubyInfer.Proofs.Json.Text

/-!
# Torn texts

A reader does not change its mind when a text goes on. A string, an array or an object ends with a
mark of its own, so that what was read stays the same whatever is put behind it; a number ends where
something else begins, so that this much has to be there. `Continues` says it of readers with bounds
that grow with the text. As a consequence no proper prefix of a written object is a text on its own
(`readBytes_torn`), and nothing but blanks may follow it (`readBytes_followed`).
-/

namespace RubyInfer.Document

variable {α β : Type} {bs rest : List UInt8} {read read' : Reader α}

/-- What `read` takes off a text, `read'` takes off every text that goes on with `more`, if
something was left. -/
def Continues (read read' : Reader α) : Prop :=
  ∀ bs a rest more, read bs = some (a, rest) → rest ≠ [] → read' (bs ++ more) = some (a, rest ++ more)

def Closes (read read' : Reader α) : Prop := ∀ bs a rest more, read bs = some (a, rest) →
    read' (bs ++ more) = some (a, rest ++ more)

theorem Closes.continues (closes : Closes read read') : Continues read read' :=
  fun bs a rest more done _ => closes bs a rest more done

theorem Continues.map (continues : Continues read read') (f : α → β) :
    Continues (fun bs => (read bs).map fun (a, rest) => (f a, rest)) fun bs =>
      (read' bs).map fun (a, rest) => (f a, rest) := by
  intro bs b rest more done left
  obtain ⟨⟨a, after⟩, inner, last⟩ := Option.map_eq_some_iff.mp done
  cases last
  exact Option.map_eq_some_iff.mpr ⟨_, continues _ _ _ more inner left, rfl⟩

theorem skipBlanks_append {b : UInt8} (found : skipBlanks bs = b :: rest) (more : List UInt8) :
    skipBlanks (bs ++ more) = b :: (rest ++ more) := by
  rw [skipBlanks] at found
  rw [skipBlanks, List.dropWhile_append, found]
  rfl

/-! ## Strings and words -/

theorem closes_pieces : Closes pieces pieces := by
  intro bs
  fun_induction pieces bs with
  | case1 => simp
  | case2 bs =>
    intro ps rest more done
    cases done
    exact pieces.eq_2 _
  | case3 a b c d bs ih =>
    intro ps rest more done
    obtain ⟨n, unit, done⟩ := Option.bind_eq_some_iff.mp done
    obtain ⟨⟨qs, left⟩, inner, last⟩ := Option.bind_eq_some_iff.mp done
    cases last
    refine (pieces_unit a b c d (bs ++ more)).trans ?_
    rw [unit, ih _ _ more inner]
    rfl
  | case4 b bs other ih =>
    intro ps rest more done
    obtain ⟨e, known, done⟩ := Option.bind_eq_some_iff.mp done
    obtain ⟨⟨qs, left⟩, inner, last⟩ := Option.bind_eq_some_iff.mp done
    cases last
    -- A unit whose digits are cut off is no escape of any kind.
    have short : b ≠ 0x75 := by
      rintro rfl
      simp [simpleEscape?, quoteMark, backslash, ascii] at known
    refine (pieces_simple short (bs ++ more)).trans ?_
    rw [known, ih _ _ more inner]
    rfl
  | case5 b bs => simp
  | case6 b bs quote _ slash plain ih =>
    intro ps rest more done
    obtain ⟨⟨qs, left⟩, inner, last⟩ := Option.bind_eq_some_iff.mp done
    cases last
    rw [not_or] at plain
    refine (pieces_plain ⟨quote, plain⟩ (bs ++ more)).trans ?_
    rw [ih _ _ more inner]
    rfl

theorem closes_stringBody : Closes stringBody stringBody := by
  intro bs s rest more done
  obtain ⟨⟨ps, left⟩, inner, last⟩ := Option.bind_eq_some_iff.mp done
  cases last
  rw [stringBody, closes_pieces _ _ _ more inner]
  rfl

theorem expect_eq_some_iff {ps bs rest : List UInt8} : expect ps bs = some rest ↔ bs = ps ++ rest := by
  induction ps generalizing bs with
  | nil => simp [expect, eq_comm]
  | cons p ps ih =>
    cases bs with
    | nil => simp [expect]
    | cons b bs =>
      by_cases same : p = b
      · simp [expect, same, ih]
      · simp [expect, same, Ne.symm same]

theorem closes_wordValue : Closes wordValue wordValue := by
  intro bs v rest more done
  obtain ⟨⟨spelling, w⟩, known, found⟩ := List.exists_of_findSome?_eq_some done
  obtain ⟨left, spelled, last⟩ := Option.map_eq_some_iff.mp found
  cases last
  rw [expect_eq_some_iff] at spelled
  subst spelled
  simp only [words, List.mem_cons, Prod.mk.injEq, List.not_mem_nil, or_false] at known
  rcases known with ⟨rfl, rfl⟩ | ⟨rfl, rfl⟩ | ⟨rfl, rfl⟩ <;> rfl

/-! ## Numbers -/

theorem someDigits_eq_some_iff {ds : List Nat} :
    someDigits bs = some (ds, rest) ↔ digits bs = (ds, rest) ∧ ds ≠ [] := by
  unfold someDigits
  rcases digits bs with ⟨_ | ⟨d, ds'⟩, left⟩
  · simp +contextual [eq_comm]
  · simp +contextual [eq_comm]

theorem digits_append {bs : List UInt8} (left : (digits bs).2 ≠ []) (more : List UInt8) :
    digits (bs ++ more) = ((digits bs).1, (digits bs).2 ++ more) := by
  have stops : bs.dropWhile isDigit ≠ [] := left
  have split := congrArg List.length (List.takeWhile_append_dropWhile (p := isDigit) (l := bs))
  have positive := List.length_pos_iff.mpr stops
  rw [List.length_append] at split
  have short : (bs.takeWhile isDigit).length ≠ bs.length := by omega
  simp [digits, List.takeWhile_append, List.dropWhile_append, short, stops]

theorem continues_someDigits : Continues someDigits someDigits := by
  intro bs ds rest more done left
  obtain ⟨found, some⟩ := someDigits_eq_some_iff.mp done
  rw [someDigits_eq_some_iff, digits_append (by simpa [found] using left), found]
  exact ⟨rfl, some⟩

theorem continues_fractionPart : Continues fractionPart fractionPart := by
  intro bs f rest more done left
  unfold fractionPart at done
  split at done
  · exact continues_someDigits.map some _ _ _ more done left
  · rename_i other
    cases done
    obtain ⟨b, bs, rfl⟩ := List.exists_cons_of_ne_nil left
    exact fractionPart.eq_2 _ fun _ same => other _ (by cases same; rfl)

theorem continues_exponentDigits (negative : Bool) :
    Continues (exponentDigits negative) (exponentDigits negative) :=
  continues_someDigits.map fun ds => some (negative, ds)

theorem continues_exponentPart : Continues exponentPart exponentPart := by
  intro bs e rest more done left
  cases bs with
  | nil =>
    cases done
    exact absurd rfl left
  | cons b bs =>
    rw [List.cons_append]
    by_cases marked : b = ascii 'e' ∨ b = ascii 'E'
    · simp only [exponentPart, marked, if_true] at done ⊢
      split at done
      · exact continues_exponentDigits _ _ _ _ more done left
      · exact continues_exponentDigits _ _ _ _ more done left
      · rename_i plus minus
        cases bs with
        | nil => cases done
        | cons c bs =>
          have unsigned := continues_exponentDigits _ _ _ _ more done left
          rw [List.cons_append] at unsigned ⊢
          split
          · rename_i same
            cases same
            exact absurd rfl (plus _)
          · rename_i same
            cases same
            exact absurd rfl (minus _)
          · exact unsigned
    · simp only [exponentPart, marked, if_false] at done ⊢
      cases done
      rfl

theorem continues_wholePart : Continues wholePart wholePart := by
  intro bs ds rest more done left
  obtain ⟨⟨found, after⟩, inner, last⟩ := Option.bind_eq_some_iff.mp done
  have same : after = rest := by
    dsimp only at last
    split at last
    · cases last
    · cases last
      rfl
  subst same
  rw [wholePart, continues_someDigits _ _ _ more inner left]
  dsimp only [Option.bind_eq_bind, Option.bind_some] at last ⊢
  split at last
  · cases last
  · cases last
    rfl

theorem continues_numeral (negative : Bool) : Continues (numeral negative) (numeral negative) := by
  intro bs n rest more done left
  obtain ⟨⟨whole, afterWhole⟩, first, done⟩ := Option.bind_eq_some_iff.mp done
  obtain ⟨⟨fraction, afterFraction⟩, second, done⟩ := Option.bind_eq_some_iff.mp done
  obtain ⟨⟨exponent, afterExponent⟩, third, last⟩ := Option.bind_eq_some_iff.mp done
  cases last
  -- Both optional parts leave nothing of an empty text.
  have fractionLeft : afterFraction ≠ [] := by
    rintro rfl
    cases third
    exact left rfl
  have wholeLeft : afterWhole ≠ [] := by
    rintro rfl
    cases second
    exact fractionLeft rfl
  rw [numeral, continues_wholePart _ _ _ more first wholeLeft]
  dsimp only [Option.bind_eq_bind, Option.bind_some]
  rw [continues_fractionPart _ _ _ more second fractionLeft]
  dsimp only [Option.bind_some]
  rw [continues_exponentPart _ _ _ more third left]
  rfl

theorem numeral_opens {negative : Bool} {n : Numeral} (done : numeral negative bs = some (n, rest)) :
    ∃ b tail, bs = b :: tail ∧ isDigit b = true := by
  obtain ⟨⟨whole, afterWhole⟩, first, -⟩ := Option.bind_eq_some_iff.mp done
  obtain ⟨⟨ds, after⟩, inner, -⟩ := Option.bind_eq_some_iff.mp first
  obtain ⟨found, some⟩ := someDigits_eq_some_iff.mp inner
  cases bs with
  | nil =>
    cases found
    exact absurd rfl some
  | cons b tail =>
    refine ⟨b, tail, rfl, ?_⟩
    cases digit : isDigit b with
    | true => rfl
    | false =>
      simp only [digits, List.takeWhile_cons, digit] at found
      cases found
      exact absurd rfl some

theorem numberValue_opens {v : Document} (done : numberValue bs = some (v, rest)) :
    ∃ b tail, bs = b :: tail ∧ (b = minusSign ∨ isDigit b = true) := by
  unfold numberValue at done
  split at done
  · exact ⟨_, _, rfl, .inl rfl⟩
  · obtain ⟨⟨n, after⟩, inner, -⟩ := Option.map_eq_some_iff.mp done
    obtain ⟨b, tail, whole, digit⟩ := numeral_opens inner
    exact ⟨b, tail, whole, .inr digit⟩

theorem continues_numberValue : Continues numberValue numberValue := by
  intro bs v rest more done left
  unfold numberValue at done
  split at done
  · exact (continues_numeral true).map (fun n => number n.value?) _ _ _ more done left
  · rename_i unsigned
    have read := (continues_numeral false).map (fun n => number n.value?) _ _ _ more done left
    obtain ⟨⟨n, after⟩, inner, -⟩ := Option.map_eq_some_iff.mp done
    obtain ⟨b, tail, rfl, digit⟩ := numeral_opens inner
    rw [numberValue]
    · exact read
    · intro other same
      cases same
      exact unsigned _ rfl

/-! ## Arrays and objects -/

section Parts

variable {value value' : Reader Document} {n m : Nat}

theorem ne_nil_of_skipBlanks {bs rest : List UInt8} {b : UInt8}
    (found : skipBlanks bs = b :: rest) : bs ≠ [] := by
  rintro rfl
  cases found

theorem closes_itemsWith (parts : Continues value value') (le : n ≤ m) :
    Closes (itemsWith value n) (itemsWith value' m) := by
  induction n generalizing m with
  | zero =>
    intro bs vs rest more done
    cases done
  | succ n ih =>
    intro bs vs rest more done
    obtain ⟨m, rfl⟩ : ∃ k, m = k + 1 := ⟨m - 1, by omega⟩
    obtain ⟨⟨v, after⟩, first, done⟩ := Option.bind_eq_some_iff.mp done
    dsimp only at done
    split at done
    · rename_i found
      cases done
      rw [itemsWith, parts _ _ _ more first (ne_nil_of_skipBlanks found)]
      dsimp only [Option.bind_eq_bind, Option.bind_some]
      rw [skipBlanks_append found]
      rfl
    · rename_i found
      obtain ⟨⟨ws, last⟩, inner, done⟩ := Option.bind_eq_some_iff.mp done
      cases done
      rw [itemsWith, parts _ _ _ more first (ne_nil_of_skipBlanks found)]
      dsimp only [Option.bind_eq_bind, Option.bind_some]
      rw [skipBlanks_append found]
      exact Option.bind_eq_some_iff.mpr ⟨_, ih (Nat.le_of_succ_le_succ le) _ _ _ more inner, rfl⟩
    · cases done

theorem closes_moreFields (tail : Closes (fieldsWith value n) (fieldsWith value' m))
    (first : Option String × Document) :
    Closes (moreFields value n first) (moreFields value' m first) := by
  intro bs fs rest more done
  unfold moreFields at done
  split at done
  · rename_i found
    cases done
    rw [moreFields, skipBlanks_append found]
    rfl
  · rename_i found
    obtain ⟨⟨gs, last⟩, inner, done⟩ := Option.bind_eq_some_iff.mp done
    cases done
    rw [moreFields, skipBlanks_append found]
    exact Option.bind_eq_some_iff.mpr ⟨_, tail _ _ _ more inner, rfl⟩
  · cases done

theorem closes_fieldValue (parts : Continues value value')
    (tail : Closes (fieldsWith value n) (fieldsWith value' m))
    (key : Option String) : Closes (fieldValue value n key) (fieldValue value' m key) := by
  intro bs fs rest more done
  unfold fieldValue at done
  split at done
  · rename_i found
    obtain ⟨⟨v, after⟩, first, done⟩ := Option.bind_eq_some_iff.mp done
    have left : after ≠ [] := by
      rintro rfl
      cases done
    rw [fieldValue, skipBlanks_append found]
    exact Option.bind_eq_some_iff.mpr
      ⟨_, parts _ _ _ more first left, closes_moreFields tail _ _ _ _ more done⟩
  · cases done

theorem closes_fieldsWith (parts : Continues value value') (le : n ≤ m) :
    Closes (fieldsWith value n) (fieldsWith value' m) := by
  induction n generalizing m with
  | zero =>
    intro bs fs rest more done
    cases done
  | succ n ih =>
    intro bs fs rest more done
    obtain ⟨m, rfl⟩ : ∃ k, m = k + 1 := ⟨m - 1, by omega⟩
    rw [fieldsWith] at done
    split at done
    · rename_i found
      obtain ⟨⟨key, after⟩, named, done⟩ := Option.bind_eq_some_iff.mp done
      rw [fieldsWith, skipBlanks_append found]
      exact Option.bind_eq_some_iff.mpr ⟨_, closes_stringBody _ _ _ more named,
        closes_fieldValue parts (ih (Nat.le_of_succ_le_succ le)) key _ _ _ more done⟩
    · cases done

def Needs (value : Reader Document) : Prop := ∀ bs, skipBlanks bs = [] → value bs = none

theorem closes_arrayWith (parts : Continues value value') (needs : Needs value) :
    Closes (arrayWith value) (arrayWith value') := by
  intro bs v rest more done
  unfold arrayWith at done
  split at done
  · rename_i found
    cases done
    rw [arrayWith, skipBlanks_append found]
    rfl
  · rename_i other
    obtain ⟨⟨vs, last⟩, inner, done⟩ := Option.map_eq_some_iff.mp done
    cases done
    have longer : bs.length + 1 ≤ (bs ++ more).length + 1 := by simp
    have read := closes_itemsWith parts longer _ _ _ more inner
    cases found : skipBlanks bs with
    | nil =>
      obtain ⟨_, first, -⟩ := Option.bind_eq_some_iff.mp inner
      rw [needs bs found] at first
      cases first
    | cons b tail =>
      rw [arrayWith, skipBlanks_append found, read]
      split
      · rename_i same
        cases same
        exact absurd found (other _)
      · rfl

theorem closes_objectWith (parts : Continues value value') :
    Closes (objectWith value) (objectWith value') := by
  intro bs v rest more done
  unfold objectWith at done
  split at done
  · rename_i found
    cases done
    rw [objectWith, skipBlanks_append found]
    rfl
  · rename_i other
    obtain ⟨⟨fs, last⟩, inner, done⟩ := Option.map_eq_some_iff.mp done
    cases done
    have longer : bs.length + 1 ≤ (bs ++ more).length + 1 := by simp
    have read := closes_fieldsWith parts longer _ _ _ more inner
    cases found : skipBlanks bs with
    | nil =>
      rw [fieldsWith, found] at inner
      cases inner
    | cons b tail =>
      rw [objectWith, skipBlanks_append found, read]
      split
      · rename_i same
        cases same
        exact absurd found (other _)
      · rfl

theorem wordValue_minus (bs : List UInt8) : wordValue (minusSign :: bs) = none := rfl

theorem continues_valueWith (parts : Continues value value') (needs : Needs value) :
    Continues (valueWith value) (valueWith value') := by
  intro bs v rest more done left
  unfold valueWith at done
  split at done
  · rename_i found
    rw [valueWith, skipBlanks_append found]
    exact closes_objectWith parts _ _ _ more done
  · rename_i found
    rw [valueWith, skipBlanks_append found]
    exact closes_arrayWith parts needs _ _ _ more done
  · rename_i found
    rw [valueWith, skipBlanks_append found]
    exact closes_stringBody.continues.map string _ _ _ more done left
  · rename_i brace bracket quote
    cases found : skipBlanks bs with
    | nil =>
      rw [found] at done
      cases done
    | cons b tail =>
      rw [found] at done
      have scalar : (wordValue (b :: tail ++ more) <|> numberValue (b :: tail ++ more)) =
          some (v, rest ++ more) := by
        cases word : wordValue (b :: tail) with
        | some read =>
          rw [word] at done
          cases done
          rw [closes_wordValue _ _ _ more word]
          rfl
        | none =>
          rw [word] at done
          have number : numberValue (b :: tail) = some (v, rest) := done
          obtain ⟨c, end', same, opens⟩ := numberValue_opens number
          cases same
          rw [continues_numberValue _ _ _ more number left, List.cons_append]
          rcases opens with rfl | digit
          · rw [wordValue_minus]
            rfl
          · rw [wordValue_digit digit]
            rfl
      rw [valueWith, skipBlanks_append found]
      split
      · rename_i same
        cases same
        exact absurd found (brace _)
      · rename_i same
        cases same
        exact absurd found (bracket _)
      · rename_i same
        cases same
        exact absurd found (quote _)
      · exact scalar

end Parts

theorem needs_valueWithin (levels : Nat) : Needs (valueWithin levels) := by
  intro bs blank
  cases levels with
  | zero => rfl
  | succ levels =>
    rw [valueWithin, valueWith, blank]
    rfl

theorem continues_valueWithin {n m : Nat} (le : n ≤ m) : Continues (valueWithin n) (valueWithin m) := by
  induction n generalizing m with
  | zero =>
    intro bs v rest more done
    cases done
  | succ n ih =>
    obtain ⟨m, rfl⟩ : ∃ k, m = k + 1 := ⟨m - 1, by omega⟩
    exact continues_valueWith (ih (Nat.le_of_succ_le_succ le)) (needs_valueWithin n)

/-! ## Whole texts -/

section Object

variable {fields : List (String × Json)}

theorem exists_brace (whole : (Json.object fields).Whole) :
    ∃ tail, (Json.object fields).render.toUTF8.data.toList = openBrace :: tail ∧
    objectWith (valueWithin (tail.length + 1)) tail = some (ofJson (.object fields), []) := by
  have text : (Json.object fields).render.toUTF8.data.toList = openBrace ::
      utf8 (Json.renderFields fields ['\x7d']) := toUTF8_ofList _
  have long := length_renderOnto whole []
  have bytes := length_le_utf8 (Json.renderFields fields ['\x7d'])
  rw [Json.renderOnto, List.length_cons] at long
  exact ⟨_, text, valueWithin_render whole (by omega) [] (.inl rfl)⟩

theorem readBytes_torn (whole : (Json.object fields).Whole) {n : Nat}
    (short : n < (Json.object fields).render.toUTF8.size) :
    readBytes? ((Json.object fields).render.toUTF8.extract 0 n) = none := by
  obtain ⟨tail, text, all⟩ := exists_brace whole
  have length : (Json.object fields).render.toUTF8.size = tail.length + 1 := by
    rw [← List.length_cons, ← text]
    exact Array.length_toList.symm
  have front : ((Json.object fields).render.toUTF8.extract 0 n).data.toList = (openBrace :: tail).take n := by
    rw [← text, ByteArray.data_extract, Array.toList_extract, List.extract_eq_take_drop]
    simp
  unfold readBytes?
  dsimp only
  rw [front]
  cases n with
  | zero => rfl
  | succ n =>
    rw [List.take_succ_cons]
    cases read : objectWith (valueWithin ((tail.take n).length + 1)) (tail.take n) with
    | none => exact congrArg (Option.bind · _) read
    | some found =>
      have le : (tail.take n).length + 1 ≤ tail.length + 1 := Nat.succ_le_succ (List.length_take_le' n tail)
      have more := closes_objectWith (continues_valueWithin le) _ _ _ (tail.drop n) read
      rw [List.take_append_drop, all] at more
      have none : found.2 ++ tail.drop n = [] := (Prod.mk.inj (Option.some.inj more)).2.symm
      have gone : tail.length ≤ n := List.drop_eq_nil_iff.mp (List.append_eq_nil_iff.mp none).2
      omega

theorem readBytes_followed (whole : (Json.object fields).Whole) (more : ByteArray) :
    readBytes? ((Json.object fields).render.toUTF8 ++ more) =
      if more.data.toList.all isBlank then some (ofJson (.object fields)) else none := by
  obtain ⟨tail, text, all⟩ := exists_brace whole
  have bytes : ((Json.object fields).render.toUTF8 ++ more).data.toList = openBrace ::
      (tail ++ more.data.toList) := by
    rw [ByteArray.data_append, Array.toList_append, text, List.cons_append]
  have le : tail.length + 1 ≤ (tail ++ more.data.toList).length + 1 := by simp
  have read : valueWithin ((openBrace :: (tail ++ more.data.toList)).length + 1)
      (openBrace :: (tail ++ more.data.toList)) = _ :=
    closes_objectWith (continues_valueWithin le) _ _ _ more.data.toList all
  have blank : (skipBlanks more.data.toList).isEmpty = more.data.toList.all isBlank := by
    rw [Bool.eq_iff_iff, List.isEmpty_iff, List.all_eq_true, skipBlanks, List.dropWhile_eq_nil_iff]
  unfold readBytes?
  dsimp only
  rw [bytes, read]
  dsimp only [Option.bind_eq_bind, Option.bind_some, List.nil_append]
  rw [blank]
  rfl

end Object

end RubyInfer.Document
