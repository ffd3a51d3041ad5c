import Mathlib.Data.List.Chain
import RubyInfer.Proofs.Cache.Tiers
import RubyInfer.Proofs.Json.Torn

/-!
# Hits and misses

An entry is taken if it holds a tree, whatever this tree is: that its digest is the one asked for,
and that its indices lead somewhere, is not looked at (`hit_iff_entry_holds`). The entries that the
cache writes serve all requests that they are a hit for, and one from elsewhere may be `astray`.
Bytes that hold no tree are a miss, and their entry is deleted (`Discards`). This is so of an entry
that was cut off anywhere, and of one with anything but blanks behind it (`torn_entry_discarded`).
-/

namespace RubyInfer

/-! ## Walks -/

namespace Ast

variable {a : Ast}

def Down (a : Ast) (id next : NodeId) : Prop := next ∈ (a.kind id).parts ∨ next ∈ a.children id

def Up (a : Ast) (id next : NodeId) : Prop := a.parent? id = some next

theorem Usable.down_lt (usable : a.Usable) {id next : NodeId} (step : a.Down id next) : next < id := by
  rcases step with part | child
  · exact (usable.part_lt part).1
  · unfold children at child
    cases held : a.nodes[id]? with
    | none => simp [held] at child
    | some n => exact (usable.nodes id n held).children next (by simpa [held] using child)

theorem Usable.lt_up (usable : a.Usable) {id next : NodeId} (step : a.Up id next) :
    id < next ∧ next < a.size := by
  obtain ⟨n, held, up⟩ := Option.bind_eq_some_iff.mp step
  exact (usable.nodes id n held).parent next up

theorem Usable.descent (usable : a.Usable) {id : NodeId} {path : List NodeId}
    (walk : List.IsChain a.Down (id :: path))
    (inside : id < a.size) : path.length ≤ id ∧ ∀ next ∈ path, next < a.size := by
  induction path generalizing id with
  | nil => simp
  | cons next path ih =>
    obtain ⟨step, walk⟩ := List.isChain_cons_cons.mp walk
    have lower := usable.down_lt step
    obtain ⟨short, within⟩ := ih walk (Nat.lt_trans lower inside)
    refine ⟨Nat.lt_of_le_of_lt short lower, fun other mem => ?_⟩
    rcases List.mem_cons.mp mem with rfl | mem
    · exact Nat.lt_trans lower inside
    · exact within other mem

theorem Usable.ascent (usable : a.Usable) {id : NodeId} {path : List NodeId}
    (walk : List.IsChain a.Up (id :: path))
    (inside : id < a.size) : id + path.length < a.size ∧ ∀ next ∈ path, next < a.size := by
  induction path generalizing id with
  | nil => simpa using inside
  | cons next path ih =>
    obtain ⟨step, walk⟩ := List.isChain_cons_cons.mp walk
    obtain ⟨higher, within⟩ := usable.lt_up step
    obtain ⟨short, rest⟩ := ih walk within
    refine ⟨?_, fun other mem => ?_⟩
    · rw [List.length_cons]
      exact Nat.lt_of_le_of_lt (Nat.succ_add_eq_add_succ id path.length ▸ Nat.add_le_add_right higher _) short
    · rcases List.mem_cons.mp mem with rfl | mem
      · exact within
      · exact rest other mem

@[mk_iff]
structure Serves (a : Ast) (file : Path) (hash : UInt64) : Prop where
  file_eq : a.file = file
  hash_eq : a.hash = hash
  usable : a.Usable

end Ast

/-! ## Loading -/

namespace Cache

open FileTree

variable {folder file : Path} {hash : UInt64} {files : FileTree} {bytes : ByteArray} {a : Ast}

def Entry.path (folder file : Path) (hash : UInt64) : Path := folder.join ⟨Entry.fileName file hash⟩

def Discards (folder file : Path) (hash : UInt64) (files : FileTree) : Prop :=
  ∃ left, loadEntry folder file hash files = (none, left) ∧
    files.deleteFile (Entry.path folder file hash) = .ok left ∧
    (∀ names, left.look names = if files.place (Entry.path folder file hash) <+: names then
      none else files.look names) ∧
      loadEntry folder file hash left = (none, left)

theorem loadEntry_of_error {e : FileError} (failed : files.read (Entry.path folder file hash) = .error e) :
    loadEntry folder file hash files = (none, files) := by
  unfold loadEntry
  dsimp only
  rw [← Entry.path, failed]

theorem loadEntry_of_decode (held : files.read (Entry.path folder file hash) = .ok bytes)
    {read : Except Entry.Error Ast}
    (decoded : Entry.decode bytes = read) : loadEntry folder file hash files =
      (read.toOption.map fun a => { a with file },
        if read.isOk then files else
          (files.deleteFile (Entry.path folder file hash)).toOption.getD files) := by
  unfold loadEntry
  dsimp only
  rw [← Entry.path, held]
  dsimp only
  rw [decoded]
  cases read <;> rfl

theorem loadEntry_of_holds (held : files.read (Entry.path folder file hash) = .ok bytes)
    (holds : Entry.Holds bytes a) :
    loadEntry folder file hash files = (some { a with file }, files) :=
      loadEntry_of_decode held (Entry.decode_eq_ok_iff.mpr holds)

theorem discards_of_error {e : Entry.Error} (held : files.read (Entry.path folder file hash) = .ok bytes)
    (unreadable : Entry.decode bytes = .error e) : Discards folder file hash files := by
  have deleted := deleteFile_of_read held
  have inner : files.place (Entry.path folder file hash) ≠ [] := by
    rw [Entry.path, Kept.place_entry]
    simp
  generalize left : files.removeAt (files.place (Entry.path folder file hash)) = u at deleted
  have look (names : List String) :
      u.look names = if files.place (Entry.path folder file hash) <+: names then none else
        files.look names := by
    rw [← left, look_removeAt]
    by_cases below : files.place (Entry.path folder file hash) <+: names
    · rw [if_pos ⟨inner, below⟩, if_pos below]
    · rw [if_neg (fun both => below both.2), if_neg below]
  refine ⟨u, ?_, deleted, look, ?_⟩
  · rw [loadEntry_of_decode held unreadable, deleted]
    rfl
  · cases again : u.read (Entry.path folder file hash) with
    | error e => exact loadEntry_of_error again
    | ok content =>
      have there := look_of_read again
      rw [place_congr (u := files) (by rw [← left, removeAt]), look, if_pos (List.prefix_refl _)] at there
      cases there

theorem loadEntry_eq_some_iff {t : Ast} {left : FileTree} :
    loadEntry folder file hash files = (some t, left) ↔
    left = files ∧ ∃ bytes stored, files.read (Entry.path folder file hash) = .ok bytes ∧
      Entry.Holds bytes stored ∧
      t = { stored with file } := by
  constructor
  · intro hit
    cases held : files.read (Entry.path folder file hash) with
    | error e =>
      rw [loadEntry_of_error held] at hit
      cases hit
    | ok bytes =>
      cases decoded : Entry.decode bytes with
      | error e =>
        obtain ⟨u, miss, -⟩ := discards_of_error held decoded
        rw [miss] at hit
        cases hit
      | ok stored =>
        have holds := Entry.decode_eq_ok_iff.mp decoded
        rw [loadEntry_of_holds held holds] at hit
        cases hit
        exact ⟨rfl, bytes, stored, rfl, holds, rfl⟩
  · rintro ⟨rfl, bytes, stored, held, holds, rfl⟩
    exact loadEntry_of_holds held holds

/-! ## Torn entries -/

theorem decode_torn (fits : a.Fits) {n : Nat} (short : n < (Entry.encode a).size) :
    Entry.decode ((Entry.encode a).extract 0 n) =
      .error (if n < Entry.headerSize then .tooSmall else .payload) := by
  by_cases header : n < Entry.headerSize
  · rw [if_pos header]
    refine Entry.decode_short ?_
    rw [ByteArray.size_extract]
    omega
  · obtain ⟨k, rfl⟩ := Nat.exists_eq_add_of_le (Nat.not_lt.mp header)
    rw [Entry.encode_eq_framed, Entry.size_framed] at short
    have torn : Document.readBytes? (a.toJson.render.toUTF8.extract 0 k) = none :=
      Document.readBytes_torn (Ast.whole_toJson fits) (Nat.lt_of_add_lt_add_left short)
    rw [if_neg header, Entry.encode_eq_framed, Entry.extract_framed, Entry.decode_framed, torn]
    rfl

theorem decode_followed (fits : a.Fits) (more : ByteArray) :
    Entry.decode (Entry.encode a ++ more) = if more.data.toList.all Document.isBlank then .ok a else
      .error .payload := by
  have payload : Document.readBytes? (a.toJson.render.toUTF8 ++ more) = _ :=
    Document.readBytes_followed (Ast.whole_toJson fits) more
  rw [Entry.encode_eq_framed, Entry.framed_append, Entry.decode_framed, payload]
  by_cases blank : more.data.toList.all Document.isBlank = true
  · rw [if_pos blank, if_pos blank, Option.bind_some, ← Ast.toJson, Ast.ofDocument_toJson fits]
    simp
  · rw [if_neg blank, if_neg blank]
    rfl

/-- An entry that was cut off anywhere is a miss and is deleted, and so is one that anything but
blanks follow. -/
theorem torn_entry_discarded (fits : a.Fits) :
    (∀ n < (Entry.encode a).size,
      Entry.decode ((Entry.encode a).extract 0 n) =
        .error (if n < Entry.headerSize then .tooSmall else .payload) ∧
        ∀ folder file hash files, files.read (Entry.path folder file hash) =
          .ok ((Entry.encode a).extract 0 n) →
          Discards folder file hash files) ∧
      ∀ more : ByteArray,
        Entry.decode (Entry.encode a ++ more) =
          (if more.data.toList.all Document.isBlank then .ok a else .error .payload) ∧
          (¬more.data.toList.all Document.isBlank → ∀ folder file hash files,
            files.read (Entry.path folder file hash) = .ok (Entry.encode a ++ more) →
              Discards folder file hash files) := by
  refine ⟨fun n short => ?_, fun more => ?_⟩
  · have torn := decode_torn fits short
    exact ⟨torn, fun folder file hash files held => discards_of_error held torn⟩
  · have followed := decode_followed fits more
    refine ⟨followed, fun junk folder file hash files held => ?_⟩
    rw [if_neg junk] at followed
    exact discards_of_error held followed

def quotedTree : Ast where
  file := ⟨"a.rb"⟩
  hash := 0
  nodes := #[⟨.str "\"é\n", ⟨0, 5, 1, 1⟩, none, []⟩]
  root := 0

def shelf (name : String) (bytes : ByteArray) : FileTree where
  root := .folder [("c", .folder [(name, .file bytes)])]

theorem read_shelf (bytes : ByteArray) :
    (shelf "a.rb0000000000000000.ast" bytes).read (Entry.path ⟨"/c"⟩ ⟨"/a.rb"⟩ 0) = .ok bytes := by
  have path : Entry.path ⟨"/c"⟩ ⟨"/a.rb"⟩ 0 = ⟨"/c/a.rb0000000000000000.ast"⟩ := by decide +kernel
  rw [path]
  rfl

theorem torn_entry_discarded_quoted : quotedTree.Fits ∧ 75 < (Entry.encode quotedTree).size ∧
    Entry.decode ((Entry.encode quotedTree).extract 0 3) = .error .tooSmall ∧
      Discards ⟨"/c"⟩ ⟨"/a.rb"⟩ 0
        (shelf "a.rb0000000000000000.ast" ((Entry.encode quotedTree).extract 0 75)) ∧
        Entry.decode (Entry.encode quotedTree ++ ⟨#[0x0a]⟩) = .ok quotedTree ∧
          Discards ⟨"/c"⟩ ⟨"/a.rb"⟩ 0
            (shelf "a.rb0000000000000000.ast" (Entry.encode quotedTree ++ ⟨#[0x0a, 0x7d]⟩)) := by
  have fits : quotedTree.Fits := by
    refine ⟨by decide, fun n mem => ?_⟩
    simp only [quotedTree, List.mem_cons, List.not_mem_nil, or_false] at mem
    subst mem
    constructor <;> simp [Kind.parts, Kind.children]
  have long : 75 < (Entry.encode quotedTree).size := by decide +kernel
  obtain ⟨torn, followed⟩ := torn_entry_discarded fits
  exact ⟨fits, long, (torn 3 (by omega)).1, (torn 75 long).2 _ _ _ _ (read_shelf _), (followed ⟨#[0x0a]⟩).1,
    (followed ⟨#[0x0a, 0x7d]⟩).2 (by decide) _ _ _ _ (read_shelf _)⟩

/-! ## What a hit is -/

/-- A hit is the tree that the entry holds, as one of the source that was asked for. It serves the
request exactly if its digest is the one asked for and it is usable, which nothing checks. What the
cache itself has written under the name of the entry does serve, and is what parsing would give; a
tree that serves can be walked down and up without leaving it or going on forever. All other
contents of the entry are a miss, and the entry is deleted. -/
theorem hit_iff_entry_holds (folder file : Path) (hash : UInt64) (files : FileTree) :
    (∀ t left, loadEntry folder file hash files = (some t, left) ↔
      left = files ∧ ∃ bytes stored, files.read (Entry.path folder file hash) = .ok bytes ∧
        Entry.Holds bytes stored ∧
        t = { stored with file }) ∧
    (∀ t left, loadEntry folder file hash files = (some t, left) →
      t.file = file ∧ (t.Serves file hash ↔ t.hash = hash ∧ t.Usable)) ∧
    (∀ other source dump a, Dumper.read? other source dump = some a → a.size ≤ Nat.pow 2 32 →
      Entry.fileName other (Digest.content source) = Entry.fileName file hash →
        files.read (Entry.path folder file hash) = .ok (Entry.encode a) →
          ∃ t, loadEntry folder file hash files = (some t, files) ∧
            Dumper.read? file source dump = some t ∧ t.Serves file hash) ∧
    (∀ t : Ast, t.Serves file hash → ∀ id < t.size, ∀ path,
      (List.IsChain t.Down (id :: path) → path.length ≤ id ∧ ∀ next ∈ path, next < t.size) ∧
        (List.IsChain t.Up (id :: path) → id + path.length < t.size ∧ ∀ next ∈ path, next < t.size)) ∧
    ∀ bytes, files.read (Entry.path folder file hash) = .ok bytes → (∀ stored, ¬Entry.Holds bytes stored) →
      Discards folder file hash files := by
  refine ⟨fun t left => loadEntry_eq_some_iff, ?_, ?_, ?_, ?_⟩
  · intro t left hit
    obtain ⟨-, bytes, stored, -, -, rfl⟩ := loadEntry_eq_some_iff.mp hit
    simp [Ast.serves_iff]
  · intro other source dump a read small named held
    obtain ⟨wellFormed, -, digest⟩ := Dumper.wellFormed_of_read read
    have usable := wellFormed.usable
    have requested : a.hash = hash := digest.trans (Entry.fileName_injective named).2
    have holds := Entry.holds_encode (usable.fits small)
    refine ⟨{ a with file }, loadEntry_of_holds held holds, ?_, rfl, requested, usable.root, usable.nodes⟩
    rw [Dumper.read_elsewhere file other, read]
    rfl
  · intro t serves id inside path
    exact ⟨fun walk => serves.usable.descent walk inside, fun walk => serves.usable.ascent walk inside⟩
  · intro bytes held none
    cases decoded : Entry.decode bytes with
    | ok stored => exact absurd (Entry.decode_eq_ok_iff.mp decoded) (none stored)
    | error e => exact discards_of_error held decoded

/-- What is stored for the number in `/p/a.rb` is a hit for `/a.rb` with the same content, and an
empty entry is a miss. -/
theorem hit_iff_entry_holds_number : ∃ a t, Dumper.read? ⟨"/p/a.rb"⟩ (numeral "1") (numeral "1") = some a ∧
    loadEntry ⟨"/c"⟩ ⟨"/a.rb"⟩ 0x93aa388fbd7eff0f (shelf "a.rb93aa388fbd7eff0f.ast" (Entry.encode a)) =
        (some t, shelf "a.rb93aa388fbd7eff0f.ast" (Entry.encode a)) ∧
      t.Serves ⟨"/a.rb"⟩ 0x93aa388fbd7eff0f ∧
        (∀ path, List.IsChain t.Down (t.root :: path) → path.length ≤ t.root ∧ ∀ next ∈ path, next < t.size) ∧
          Discards ⟨"/c"⟩ ⟨"/a.rb"⟩ 0 (shelf "a.rb0000000000000000.ast" ⟨#[]⟩) := by
  obtain ⟨a, read⟩ := Option.isSome_iff_exists.mp
    (show (Dumper.read? ⟨"/p/a.rb"⟩ (numeral "1") (numeral "1")).isSome = true by decide +kernel)
  have small : ∀ a ∈ Dumper.read? ⟨"/p/a.rb"⟩ (numeral "1") (numeral "1"),
      a.size ≤ Nat.pow 2 32 := by decide +kernel
  have path : Entry.path ⟨"/c"⟩ ⟨"/a.rb"⟩ 0x93aa388fbd7eff0f = ⟨"/c/a.rb93aa388fbd7eff0f.ast"⟩ := by
    decide +kernel
  have held : (shelf "a.rb93aa388fbd7eff0f.ast" (Entry.encode a)).read
      (Entry.path ⟨"/c"⟩ ⟨"/a.rb"⟩ 0x93aa388fbd7eff0f) =
      .ok (Entry.encode a) := by
    rw [path]
    rfl
  have empty (stored : Ast) : ¬Entry.Holds ⟨#[]⟩ stored := by
    intro holds
    have decoded := Entry.decode_eq_ok_iff.mpr holds
    rw [Entry.decode_short (by decide)] at decoded
    cases decoded
  obtain ⟨-, -, written, walks, -⟩ := hit_iff_entry_holds ⟨"/c"⟩ ⟨"/a.rb"⟩ 0x93aa388fbd7eff0f
    (shelf "a.rb93aa388fbd7eff0f.ast" (Entry.encode a))
  obtain ⟨t, hit, -, serves⟩ := written _ _ _ a read (small a read) (by decide +kernel) held
  have missed := (hit_iff_entry_holds ⟨"/c"⟩ ⟨"/a.rb"⟩ 0 (shelf "a.rb0000000000000000.ast" ⟨#[]⟩)).2.2.2.2
  exact ⟨a, t, read, hit, serves, fun path => (walks t serves t.root serves.usable.root path).1,
    missed _ (read_shelf _) empty⟩

def astray : Ast where
  file := ⟨"b.rb"⟩
  hash := 1
  nodes := #[⟨.starred 0, ⟨0, 1, 1, 1⟩, some 0, [0]⟩]
  root := 7

/-- A request for another digest is answered with such a tree, on which there are walks of every
length. -/
theorem hit_astray :
    loadEntry ⟨"/c"⟩ ⟨"/a.rb"⟩ 0 (shelf "a.rb0000000000000000.ast" (Entry.encode astray)) =
        (some { astray with file := ⟨"/a.rb"⟩ }, shelf "a.rb0000000000000000.ast" (Entry.encode astray)) ∧
      astray.hash ≠ 0 ∧ ¬astray.root < astray.size ∧
        ∀ n, List.IsChain astray.Down (List.replicate n 0) ∧ List.IsChain astray.Up (List.replicate n 0) := by
  have fits : astray.Fits := by
    refine ⟨by decide, fun n mem => ?_⟩
    simp only [astray, List.mem_cons, List.not_mem_nil, or_false] at mem
    subst mem
    constructor <;> simp [Kind.parts, Kind.children]
  have down : astray.Down 0 0 := .inr (by decide)
  have up : astray.Up 0 0 := rfl
  exact ⟨loadEntry_of_holds (read_shelf _) (Entry.holds_encode fits), by decide, by decide,
    fun n => ⟨List.isChain_replicate_of_rel n down, List.isChain_replicate_of_rel n up⟩⟩

end Cache

end RubyInfer
