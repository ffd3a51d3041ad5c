import RubyInfer.Path.Basic

/-!
# The pieces of a path

Pieces have no slashes, a path that goes on after a slash has the pieces of both sides, and its last
piece stands before the blanks at its end.
-/

namespace RubyInfer.Path

theorem splitSlash_ne_nil (text : List Char) : splitSlash text ≠ [] := by
  cases text with
  | nil => simp [splitSlash]
  | cons c text =>
    rw [splitSlash]
    split
    · simp
    · split <;> simp

theorem splitSlash_append (front back : List Char) :
    splitSlash (front ++ '/' :: back) = splitSlash front ++ splitSlash back := by
  induction front with
  | nil => simp [splitSlash]
  | cons c front ih =>
    rw [List.cons_append, splitSlash, splitSlash, ih]
    split
    · rfl
    · cases pieces : splitSlash front with
      | nil => exact absurd pieces (splitSlash_ne_nil front)
      | cons piece rest => rfl

theorem splitSlash_of_notMem {text : List Char} (single : '/' ∉ text) : splitSlash text = [text] := by
  induction text with
  | nil => rfl
  | cons c text ih =>
    obtain ⟨other, single⟩ := not_or.mp (mt List.mem_cons.mpr single)
    rw [splitSlash, if_neg (Ne.symm other), ih single]

theorem notMem_of_mem_splitSlash {text piece : List Char} (mem : piece ∈ splitSlash text) : '/' ∉ piece := by
  induction text generalizing piece with
  | nil =>
    rw [List.mem_singleton.mp mem]
    exact List.not_mem_nil
  | cons c text ih =>
    rw [splitSlash] at mem
    split at mem
    · obtain rfl | mem := List.mem_cons.mp mem
      · exact List.not_mem_nil
      · exact ih mem
    · rename_i other
      split at mem
      · rw [List.mem_singleton.mp mem]
        simpa using Ne.symm other
      · rename_i first rest pieces
        rw [pieces] at ih
        obtain rfl | mem := List.mem_cons.mp mem
        · have := ih List.mem_cons_self
          simp [this, Ne.symm other]
        · exact ih (List.mem_cons_of_mem _ mem)

theorem notMem_of_mem_pieces {p : Path} {piece : String} (mem : piece ∈ p.pieces) : '/' ∉ piece.toList := by
  obtain ⟨text, split, rfl⟩ := List.mem_map.mp mem
  rw [String.toList_ofList]
  exact notMem_of_mem_splitSlash split

theorem notMem_of_fileName {p : Path} {name : String} (named : p.fileName? = some name) :
    '/' ∉ name.toList := by
  have mem : name ∈ p.parts.names := by
    unfold fileName? at named
    split at named
    · cases named
    · cases named
    · exact List.mem_of_getLast? named
  unfold parts at mem
  split at mem
  · exact notMem_of_mem_pieces (List.mem_filter.mp mem).1
  · split at mem
    · rename_i rest pieces
      obtain rfl | mem := List.mem_cons.mp mem
      · decide
      · exact notMem_of_mem_pieces (pieces ▸ List.mem_cons_of_mem _ (List.mem_filter.mp mem).1)
    · exact notMem_of_mem_pieces (List.mem_filter.mp mem).1

theorem dropWhile_blank {pieces rest : List String} {first : String}
    (dropped : pieces.dropWhile (· = "") = first :: rest) :
    first ≠ "" ∧ ∃ blanks, pieces = List.replicate blanks "" ++ first :: rest := by
  induction pieces with
  | nil => cases dropped
  | cons piece pieces ih =>
    by_cases blank : piece = ""
    · rw [List.dropWhile_cons_of_pos (by simpa using blank)] at dropped
      obtain ⟨proper, blanks, split⟩ := ih dropped
      exact ⟨proper, blanks + 1, by rw [List.replicate_succ, List.cons_append, ← split, blank]⟩
    · rw [List.dropWhile_cons_of_neg (by simpa using blank)] at dropped
      cases dropped
      exact ⟨blank, 0, rfl⟩

theorem pieces_of_lastPiece {p : Path} {before : List String} {last : String}
    (found : p.lastPiece? = some (before, last)) :
    last ≠ "" ∧ ∃ blanks, p.pieces = before ++ last :: List.replicate blanks "" := by
  unfold lastPiece? at found
  split at found
  · cases found
  · rename_i last' before' dropped
    cases found
    obtain ⟨proper, blanks, split⟩ := dropWhile_blank dropped
    refine ⟨proper, blanks, ?_⟩
    rw [← List.reverse_reverse p.pieces, split]
    simp

/-! ## Joined paths -/

variable {p : Path} {name : String}

theorem toList_of_endsInSlash (ends : p.endsInSlash = true) : ∃ front, p.text.toList = front ++ ['/'] := by
  have last : p.text.toList.getLast? = some '/' := by simpa [endsInSlash] using ends
  exact List.getLast?_eq_some_iff.mp last

theorem join_relative {q : Path} (relative : q.isAbsolute = false) :
    (p.join q).isAbsolute = p.isAbsolute ∧
      ∃ front, (p.pieces = front ∨ p.pieces = front ++ [""]) ∧ (p.join q).pieces = front ++ q.pieces := by
  unfold join
  rw [relative, if_neg Bool.false_ne_true]
  split
  · rename_i blank
    obtain rfl : p = ⟨""⟩ := by
      cases p
      simpa using blank
    exact ⟨relative.trans rfl, [], .inr rfl, rfl⟩
  · split
    · rename_i ends
      obtain ⟨front, text⟩ := toList_of_endsInSlash ends
      refine ⟨?_, (splitSlash front).map String.ofList, .inr ?_, ?_⟩
      · simp [isAbsolute, text]
      · simp [pieces, text, splitSlash_append, splitSlash]
      · simp [pieces, text, splitSlash_append]
    · rename_i given _
      refine ⟨?_, p.pieces, .inl rfl, ?_⟩
      · have some : p.text.toList ≠ [] := by simpa using given
        obtain ⟨c, cs, text⟩ := List.exists_cons_of_ne_nil some
        simp [isAbsolute, text]
      · simp [pieces, splitSlash_append]

theorem join_name (single : '/' ∉ name.toList) :
    (p.join ⟨name⟩).isAbsolute = p.isAbsolute ∧
      ∃ front, (p.pieces = front ∨ p.pieces = front ++ [""]) ∧ (p.join ⟨name⟩).pieces = front ++ [name] := by
  have relative : (⟨name⟩ : Path).isAbsolute = false := by
    unfold isAbsolute
    cases letters : name.toList with
    | nil => rfl
    | cons c cs =>
      rw [letters] at single
      have other : c ≠ '/' := fun same => single (same ▸ List.mem_cons_self)
      simp [other]
  have alone : (⟨name⟩ : Path).pieces = [name] := by simp [pieces, splitSlash_of_notMem single]
  rw [← alone]
  exact join_relative relative

end RubyInfer.Path
