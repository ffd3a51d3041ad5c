import RubyInfer.Cache.Entry
import RubyInfer.Proofs.Syntax.Codec

/-!
# Entries are read back

An entry is a header with the digest of its tree, and then the tree as JSON text. Its reader takes
the words of the header from their bytes and compares the digest with the one in the tree:
`Entry.decode_eq_ok_iff` says which entries it accepts. All of it agrees for what was written
(`Entry.decode_encode`).
-/

namespace RubyInfer.Cache.Entry

variable {bytes : ByteArray}

/-! ## Words of the header -/

theorem toNat_shift_or {w : UInt64} (small : w.toNat < Nat.pow 2 56) (b : UInt8) :
    (w <<< 8 ||| b.toUInt64).toNat = w.toNat * 256 + b.toNat := by
  have small : w.toNat < 2 ^ 56 := small
  calc (w <<< 8 ||| b.toUInt64).toNat
    _ = w.toNat <<< 8 % 2 ^ 64 ||| b.toNat := by
        rw [UInt64.toNat_or, UInt64.toNat_shiftLeft, UInt8.toNat_toUInt64]
        rfl
    _ = w.toNat <<< 8 ||| b.toNat := by
        rw [Nat.mod_eq_of_lt]
        rw [Nat.shiftLeft_eq]
        omega
    _ = w.toNat * 256 + b.toNat := by rw [← Nat.shiftLeft_add_eq_or_of_lt b.toNat_lt, Nat.shiftLeft_eq]

theorem toNat_shiftRight_eight (w : UInt64) : (w >>> 8).toNat = w.toNat / 256 := by
  rw [UInt64.toNat_shiftRight]
  exact Nat.shiftRight_eq_div_pow w.toNat 8

theorem shift_or_low (w : UInt64) : (w >>> 8) <<< 8 ||| w.toUInt8.toUInt64 = w := by
  have bound : w.toNat < 2 ^ 64 := w.toNat_lt
  have small : (w >>> 8).toNat < Nat.pow 2 56 := by
    rw [toNat_shiftRight_eight]
    change _ < 2 ^ 56
    omega
  rw [← UInt64.toNat_inj, toNat_shift_or small, toNat_shiftRight_eight, UInt64.toNat_toUInt8]
  omega

theorem word_eq {start count : Nat} {w : UInt64} (small : w.toNat < Nat.pow 256 count)
    (held : ∀ i < count, bytes[start + i]? = (littleEndian count w)[i]?) :
    Digest.word bytes start count = w := by
  induction count generalizing start w with
  | zero =>
    have zero : w.toNat = 0 := Nat.lt_one_iff.1 small
    exact UInt64.toNat_inj.1 zero.symm
  | succ count ih =>
    have first : bytes[start]? = some w.toUInt8 := held 0 (Nat.succ_pos count)
    have rest : Digest.word bytes (start + 1) count = w >>> 8 := by
      refine ih ?_ fun i low => ?_
      · rw [toNat_shiftRight_eight]
        exact Nat.div_lt_of_lt_mul (Nat.mul_comm _ _ ▸ small)
      · have := held (i + 1) (Nat.succ_lt_succ low)
        rw [show start + 1 + i = start + (i + 1) by omega, this]
        rfl
    rw [Digest.word, first, rest, Option.getD_some, shift_or_low]

theorem littleEndian_word {start count : Nat} (inside : start + count ≤ bytes.size) (short : count ≤ 8) :
    littleEndian count (Digest.word bytes start count) = (bytes.data.toList.drop start).take count ∧
      (Digest.word bytes start count).toNat < Nat.pow 256 count := by
  induction count generalizing start with
  | zero => simp [littleEndian, Digest.word]
  | succ count ih =>
    obtain ⟨rest, small⟩ := ih (show start + 1 + count ≤ bytes.size by omega) (by omega)
    have low : start < bytes.data.toList.length := by
      rw [Array.length_toList]
      exact Nat.lt_of_lt_of_le (by omega) inside
    have here : bytes[start]? = some bytes.data.toList[start] := by
      rw [getElem?_pos bytes start low]
      rfl
    have narrow : (Digest.word bytes (start + 1) count).toNat < Nat.pow 2 56 :=
      Nat.lt_of_lt_of_le small (Nat.pow_le_pow_right (n := 256) (by decide) (show count ≤ 7 by omega))
    have value := toNat_shift_or narrow bytes.data.toList[start]
    have byte := (bytes.data.toList[start]).toNat_lt
    rw [Digest.word, here, Option.getD_some, List.drop_eq_getElem_cons low, List.take_succ_cons, littleEndian]
    refine ⟨?_, ?_⟩
    · congr 1
      · rw [← UInt8.toNat_inj, UInt64.toNat_toUInt8, value]
        omega
      · rw [← rest]
        congr 1
        rw [← UInt64.toNat_inj, toNat_shiftRight_eight, value]
        omega
    · rw [value]
      change _ < 256 ^ (count + 1)
      change _ < 256 ^ count at small
      rw [Nat.pow_succ]
      omega

/-! ## Header and payload -/

def headerWith (x y : UInt8) (hash : UInt64) : List UInt8 :=
  mark ++ littleEndian 2 (UInt64.ofNat currentVersion) ++ [x, y] ++ littleEndian 8 hash

def framed (x y : UInt8) (hash : UInt64) (payload : ByteArray) : ByteArray :=
  ⟨(headerWith x y hash).toArray⟩ ++ payload

theorem encode_eq_framed (a : Ast) : encode a = framed 0 0 a.hash a.toJson.render.toUTF8 := rfl

section Framed

variable (x y : UInt8) (hash : UInt64) (payload : ByteArray)

theorem size_framed : (framed x y hash payload).size = headerSize + payload.size := ByteArray.size_append

theorem getElem_framed {i : Nat} (low : i < headerSize) :
    (framed x y hash payload)[i]? = (headerWith x y hash)[i]? := by
  have long : i < (framed x y hash payload).size := by
    rw [size_framed]
    omega
  rw [getElem?_pos _ i long, ByteArray.getElem_eq_getElem_data, ← Array.getElem?_eq_getElem, framed,
    ByteArray.data_append,
    Array.getElem?_append_left low, List.getElem?_toArray]

theorem extract_mark : ((framed x y hash payload).extract 0 4).data.toList = mark := by
  rw [ByteArray.data_extract, Array.toList_extract, framed, ByteArray.data_append, Array.toList_append]
  rfl

theorem extract_payload :
    (framed x y hash payload).extract headerSize (framed x y hash payload).size = payload :=
  ByteArray.extract_append_eq_right rfl (size_framed x y hash payload)

theorem framed_append (more : ByteArray) :
    framed x y hash payload ++ more = framed x y hash (payload ++ more) := ByteArray.append_assoc

theorem extract_framed (n : Nat) :
    (framed x y hash payload).extract 0 (headerSize + n) = framed x y hash (payload.extract 0 n) := by
  have front : (framed x y hash payload).extract 0 headerSize = ⟨(headerWith x y hash).toArray⟩ :=
    ByteArray.extract_append_eq_left rfl
  have back : (framed x y hash payload).extract (headerSize + 0) (headerSize + n) = payload.extract 0 n :=
    ByteArray.extract_append_size_add' rfl
  rw [ByteArray.extract_eq_extract_append_extract headerSize (Nat.zero_le _) (Nat.le_add_right _ _), front]
  exact congrArg _ back

theorem word_version : Digest.word (framed x y hash payload) 4 2 = UInt64.ofNat currentVersion := by
  have held : ∀ i < 2, (framed x y hash payload)[4 + i]? =
      (littleEndian 2 (UInt64.ofNat currentVersion))[i]? := by
    intro i low
    rw [getElem_framed x y hash payload (by simp only [headerSize]; omega)]
    match i, low with
    | 0, _ => rfl
    | 1, _ => rfl
  exact word_eq (by decide) held

theorem word_digest : Digest.word (framed x y hash payload) 8 8 = hash := by
  refine word_eq hash.toNat_lt fun i low => ?_
  rw [getElem_framed x y hash payload (by simp only [headerSize]; omega), headerWith,
    List.getElem?_append_right (Nat.le_add_right 8 i)]
  exact congrArg _ (Nat.add_sub_cancel_left 8 i)

theorem decode_framed : decode (framed x y hash payload) =
    match (Document.readBytes? payload).bind Ast.ofDocument? with
    | some a => if a.hash = hash then .ok a else .error .digest
    | none => .error .payload := by
  have long : ¬(framed x y hash payload).size < headerSize := by
    rw [size_framed]
    omega
  have version : (UInt64.ofNat currentVersion).toNat = currentVersion := by decide
  simp only [decode, long, if_false, extract_mark, word_version, version, extract_payload,
    word_digest, ne_eq, not_true_eq_false]
  cases (Document.readBytes? payload).bind Ast.ofDocument? with
  | none => rfl
  | some a => by_cases same : a.hash = hash <;> simp [same] <;> rfl

end Framed

theorem decode_short (short : bytes.size < headerSize) : decode bytes = .error .tooSmall := by
  simp only [decode, short, if_true]
  rfl

theorem exists_eq_framed (long : headerSize ≤ bytes.size) (marked : (bytes.extract 0 4).data.toList = mark)
    (version : (Digest.word bytes 4 2).toNat = currentVersion) :
    ∃ x y, bytes = framed x y (Digest.word bytes 8 8) (bytes.extract headerSize bytes.size) := by
  have length : bytes.data.toList.length = bytes.size := Array.length_toList
  have long : 16 ≤ bytes.size := long
  have first : bytes.data.toList.take 4 = mark := by simpa [ByteArray.data_extract] using marked
  have second : littleEndian 2 (UInt64.ofNat currentVersion) = (bytes.data.toList.drop 4).take 2 := by
    rw [← (littleEndian_word (show 4 + 2 ≤ bytes.size by omega) (by decide)).1, ← version, UInt64.ofNat_toNat]
  have third : (bytes.data.toList.drop 6).take 2 = [bytes.data.toList[6], bytes.data.toList[7]] := by
    rw [List.drop_eq_getElem_cons (by omega), List.drop_eq_getElem_cons (by omega)]
    rfl
  have fourth := (littleEndian_word (show 8 + 8 ≤ bytes.size by omega) (by decide)).1
  have last : (bytes.extract headerSize bytes.size).data.toList = bytes.data.toList.drop 16 := by
    rw [ByteArray.data_extract, Array.toList_extract, List.extract_eq_take_drop, ← length]
    exact List.take_of_length_le (by simp [headerSize])
  refine ⟨bytes.data.toList[6], bytes.data.toList[7], ?_⟩
  apply ByteArray.ext
  apply Array.toList_inj.mp
  rw [framed, ByteArray.data_append, Array.toList_append, headerWith, second, fourth, ← third,
    ← first, last, List.toList_toArray,
    ← List.take_add, ← List.take_add, ← List.take_add, List.take_append_drop]

/-- Bytes that hold a tree: a header of this version, with any spare bytes and the digest of the
tree, and then a text that reads as the tree. -/
def Holds (bytes : ByteArray) (a : Ast) : Prop :=
  ∃ x y payload, bytes = framed x y a.hash payload ∧
    (Document.readBytes? payload).bind Ast.ofDocument? = some a

theorem decode_eq_ok_iff {a : Ast} : decode bytes = .ok a ↔ Holds bytes a := by
  constructor
  · intro decoded
    by_cases short : bytes.size < headerSize
    · rw [decode_short short] at decoded
      cases decoded
    by_cases marked : (bytes.extract 0 4).data.toList = mark
    case neg =>
      simp only [decode, short, if_false, marked, ne_eq, not_false_eq_true, if_true] at decoded
      cases decoded
    by_cases version : (Digest.word bytes 4 2).toNat = currentVersion
    case neg =>
      simp only [decode, short, if_false, marked, ne_eq, not_true_eq_false, version,
        not_false_eq_true, if_true] at decoded
      cases decoded
    obtain ⟨x, y, framed⟩ := exists_eq_framed (Nat.not_lt.mp short) marked version
    rw [framed, decode_framed] at decoded
    split at decoded
    · rename_i b read
      split at decoded
      · rename_i same
        cases decoded
        exact ⟨x, y, _, same ▸ framed, read⟩
      · cases decoded
    · cases decoded
  · rintro ⟨x, y, payload, rfl, read⟩
    simp [decode_framed, read]

theorem payload_toJson {a : Ast} (fits : a.Fits) :
    (Document.readBytes? a.toJson.render.toUTF8).bind Ast.ofDocument? = some a := by
  rw [Document.readBytes_render (Ast.whole_toJson fits), Option.bind_some, Ast.ofDocument_toJson fits]

theorem holds_encode {a : Ast} (fits : a.Fits) : Holds (encode a) a :=
  ⟨0, 0, _, encode_eq_framed a, payload_toJson fits⟩

/-- An entry is read back as the tree that it was made from. -/
theorem decode_encode {a : Ast} (fits : a.Fits) : decode (encode a) = .ok a := by
  rw [encode_eq_framed, decode_framed, payload_toJson fits]
  simp

def oddTree : Ast where
  file := ⟨"a \"b\"\\c\n\x01é𝔸.rb"⟩
  hash := 0xffffffffffffffff
  nodes := #[⟨.name "日\t\x1f" .ivar, ⟨0, 0xffffffffffffffff, 0xffffffff, 1⟩, some 1, []⟩,
    ⟨.function none { positional := [0, 4294967295], rest := some 7 } none true (some "\x7f\r"),
    ⟨1, 0, 0, 0⟩, none, [0, 4294967295]⟩]
  root := 4294967295

theorem decode_encode_oddTree : oddTree.Fits ∧ decode (encode oddTree) = .ok oddTree := by
  have fits : oddTree.Fits := by
    refine ⟨by decide, fun n mem => ?_⟩
    simp only [oddTree, List.mem_cons, List.not_mem_nil, or_false] at mem
    rcases mem with rfl | rfl <;> constructor <;> simp [Kind.parts, Kind.children, Params.children]
  exact ⟨fits, decode_encode fits⟩

end RubyInfer.Cache.Entry
