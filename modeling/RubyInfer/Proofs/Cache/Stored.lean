import RubyInfer.Proofs.Cache.Entry
import RubyInfer.Proofs.Cache.Work
import RubyInfer.Proofs.FileTree.Region

/-!
# Entries on disk

The name of an entry tells the name of its source and the digest of the content
(`Entry.fileName_injective`), and the tree in it is the one that the content dumps, whichever file
of that name it was read from. So where no two contents under one name have the same digest, and
nothing but entries is in the folder, an entry is what parsing would give (`Kept.loadEntry`), and
writing one keeps the folder so (`Kept.storeEntry`).
-/

namespace RubyInfer

/-! ## Names -/

namespace Digest

def digitValue (c : Char) : Nat := if c.isDigit then c.toNat - 48 else c.toNat - 87

def valueOf (digits : List Char) : Nat := digits.foldl (fun n c => 16 * n + digitValue c) 0

theorem toDigits_spec (n : Nat) : valueOf (Nat.toDigits 16 n) = n ∧ '/' ∉ Nat.toDigits 16 n := by
  have digit : ∀ k < 16, digitValue k.digitChar = k ∧ k.digitChar ≠ '/' := by decide +kernel
  induction n using Nat.strongRecOn with
  | ind n ih =>
    by_cases small : n < 16
    · obtain ⟨value, other⟩ := digit n small
      rw [Nat.toDigits_of_lt_base small]
      exact ⟨by simp [valueOf, value], by simp [other.symm]⟩
    · obtain ⟨front, clean⟩ := ih (n / 16) (by omega)
      have low : n % 16 < 16 := Nat.mod_lt _ (by decide)
      obtain ⟨value, other⟩ := digit (n % 16) low
      have split : Nat.toDigits 16 (n / 16) ++ Nat.toDigits 16 (n % 16) =
          Nat.toDigits 16 (16 * (n / 16) + n % 16) :=
        Nat.toDigits_append_toDigits (by decide) (by omega) low
      rw [Nat.div_add_mod, Nat.toDigits_of_lt_base low] at split
      rw [← split]
      refine ⟨?_, by simp [clean, other.symm]⟩
      rw [valueOf, List.foldl_append, ← valueOf, front, List.foldl_cons, List.foldl_nil, value]
      exact Nat.div_add_mod n 16

theorem valueOf_hex (h : UInt64) : valueOf (hex h).toList = h.toNat := by
  have zeros (k : Nat) : valueOf (List.replicate k '0') = 0 := by
    induction k with
    | zero => rfl
    | succ k ih => exact ih
  rw [hex, String.toList_ofList, valueOf, List.foldl_append, ← valueOf, zeros]
  exact (toDigits_spec h.toNat).1

theorem length_hex (h : UInt64) : (hex h).toList.length = 16 := by
  have short : (Nat.toDigits 16 h.toNat).length ≤ 16 :=
    (Nat.length_toDigits_le_iff (by decide) (by decide)).mpr h.toNat_lt
  rw [hex, String.toList_ofList, List.length_append, List.length_replicate]
  omega

theorem slash_notMem_hex (h : UInt64) : '/' ∉ (hex h).toList := by
  simp [hex, (toDigits_spec h.toNat).2]

end Digest

def Path.baseName (p : Path) : String := p.fileName?.getD ""

namespace Cache.Entry

theorem toList_fileName (p : Path) (h : UInt64) :
    (fileName p h).toList = p.baseName.toList ++ (Digest.hex h).toList ++ ['.', 'a', 's', 't'] := by
  rw [fileName, String.toList_append, String.toList_append]
  rfl

theorem fileName_injective {p q : Path} {h k : UInt64} (same : fileName p h = fileName q k) :
    p.baseName = q.baseName ∧ h = k := by
  have letters := congrArg String.toList same
  rw [toList_fileName, toList_fileName] at letters
  have equal : (Digest.hex h).toList.length = (Digest.hex k).toList.length := by
    rw [Digest.length_hex, Digest.length_hex]
  obtain ⟨base, digits⟩ := List.append_inj' (List.append_cancel_right letters) equal
  refine ⟨String.toList_inj.mp base, UInt64.toNat_inj.mp ?_⟩
  rw [← Digest.valueOf_hex, ← Digest.valueOf_hex, digits]

theorem slash_notMem_fileName (p : Path) (h : UInt64) : '/' ∉ (fileName p h).toList := by
  have base : '/' ∉ p.baseName.toList := by
    unfold Path.baseName
    cases named : p.fileName? with
    | none => simp
    | some name => exact Path.notMem_of_fileName named
  simp [toList_fileName, base, Digest.slash_notMem_hex]

theorem fileName_proper (p : Path) (h : UInt64) :
    fileName p h ≠ "" ∧ fileName p h ≠ "." ∧ fileName p h ≠ ".." := by
  have long : 20 ≤ (fileName p h).toList.length := by
    simp only [toList_fileName, List.length_append, Digest.length_hex, List.length_cons, List.length_nil]
    omega
  refine ⟨?_, ?_, ?_⟩ <;> intro same <;> rw [same] at long <;> revert long <;> decide

end Cache.Entry

/-! ## Trees of one content -/

theorem Ast.Usable.fits {a : Ast} (usable : a.Usable) (small : a.size ≤ Nat.pow 2 32) : a.Fits := by
  have low {id : NodeId} (inside : id < a.size) : id < Nat.pow 2 32 := Nat.lt_of_lt_of_le inside small
  refine ⟨low usable.root, fun n mem => ?_⟩
  obtain ⟨id, held⟩ := List.mem_iff_getElem?.mp mem
  rw [Array.getElem?_toList] at held
  have inside : id < a.size := (Array.getElem?_eq_some_iff.mp held).1
  have placed := usable.nodes id n held
  exact ⟨fun part mem => low (Nat.lt_trans (placed.parts part mem) inside), fun owner up =>
    low (placed.parent owner up).2,
    fun child mem => low (Nat.lt_trans (placed.children child mem) inside)⟩

theorem Dumper.read_elsewhere (file other : Path) (source dump : ByteArray) :
    Dumper.read? file source dump = (Dumper.read? other source dump).map fun a => { a with file } := by
  unfold Dumper.read?
  cases Json.readBytes? dump with
  | none => rfl
  | some v =>
    show ((Ast.ofDump file _ v).toOption) = (Ast.ofDump other _ v).toOption.map _
    unfold Ast.ofDump
    cases (Dump.root v).run {} with
    | error e => rfl
    | ok built => rfl

/-! ## The folder of the entries -/

/-- Contents under one name are told apart by their digests, and the nodes of what they dump can be
numbered. -/
structure Legible (contents : List (String × ByteArray)) : Prop where
  injective : ∀ u ∈ contents, ∀ v ∈ contents, u.1 = v.1 → Digest.content u.2 = Digest.content v.2 → u.2 = v.2
  small : ∀ u ∈ contents, ∀ a ∈ Dumper.read? ⟨u.1⟩ u.2 u.2, a.size ≤ Nat.pow 2 32

theorem Legible.fits {contents : List (String × ByteArray)} (legible : Legible contents)
    {file : Path} {source : ByteArray} {a : Ast} (occurs : (file.baseName, source) ∈ contents)
    (read : Dumper.read? file source source = some a) : a.Fits := by
  refine (Dumper.wellFormed_of_read read).1.usable.fits ?_
  have elsewhere := Dumper.read_elsewhere ⟨file.baseName⟩ file source source
  rw [read] at elsewhere
  exact legible.small _ occurs { a with file := ⟨file.baseName⟩ } elsewhere

namespace Cache

open FileTree

/-- A file holds the tree that one of these contents dumps, and has its name from there. -/
def Stored (contents : List (String × ByteArray)) (name : String) (bytes : ByteArray) : Prop :=
  ∃ file source a, (file.baseName, source) ∈ contents ∧ Dumper.read? file source source = some a ∧
    name = Entry.fileName file (Digest.content source) ∧ bytes = Entry.encode a

/-- The files `t` are the files `bare` with a folder of entries in a region of its own. -/
structure Kept (region : List String) (folder : Path) (contents : List (String × ByteArray))
    (t bare : FileTree) : Prop where
  agree : Agree region t bare
  inside : region <+: t.place folder
  paved : t.Paved region folder.withParents
  stored : ∀ name bytes, t.look (t.place folder ++ [name]) = some (.file bytes) → Stored contents name bytes

namespace Kept

variable {region : List String} {folder file : Path} {contents : List (String × ByteArray)}
    {t u bare : FileTree} {source : ByteArray}

theorem place_entry (t : FileTree) (folder file : Path) (hash : UInt64) :
    t.place (folder.join ⟨Entry.fileName file hash⟩) = t.place folder ++ [Entry.fileName file hash] :=
  place_join (Entry.slash_notMem_fileName file hash) (Entry.fileName_proper file hash)

section

variable (kept : Kept region folder contents t bare)
include kept

theorem clears (clears : Clears region t u) : Kept region folder contents u bare := by
  have place : u.place folder = t.place folder := place_congr clears.agree.working folder
  refine ⟨clears.agree.trans kept.agree, place ▸ kept.inside, kept.paved.agree clears.agree,
    fun name bytes there => ?_⟩
  rw [place] at there
  exact kept.stored name bytes (clears.files _ _ there)

theorem outside {bare' : FileTree} (agree : Agree region u bare') (working : u.working = t.working)
    (folders : ∀ names, t.look names = some .folder → u.look names = some .folder)
    (files : ∀ names content, region <+: names → u.look names = some (.file content) →
      t.look names = some (.file content)) :
    Kept region folder contents u bare' := by
  refine ⟨agree, place_congr working folder ▸ kept.inside, fun p mem => ?_, fun name bytes there => ?_⟩
  · rw [place_congr working]
    exact (kept.paved p mem).imp_right (folders _)
  · rw [place_congr working] at there
    exact kept.stored name bytes (files _ _ (kept.inside.trans (List.prefix_append ..)) there)

theorem loadEntry (legible : Legible contents) (occurs : (file.baseName, source) ∈ contents) :
    Cache.loadEntry folder file (Digest.content source) t = (none, t) ∨
      ∃ a, Dumper.read? file source source = some a ∧
      Cache.loadEntry folder file (Digest.content source) t = (some a, t) := by
  unfold Cache.loadEntry
  dsimp only
  cases held : t.read (folder.join ⟨Entry.fileName file (Digest.content source)⟩) with
  | error e => exact .inl rfl
  | ok bytes =>
    have there := look_of_read held
    rw [place_entry] at there
    obtain ⟨other, content, a, among, read, name, rfl⟩ := kept.stored _ _ there
    obtain ⟨base, digest⟩ := Entry.fileName_injective name
    obtain rfl : source = content := legible.injective _ occurs _ among base digest
    have fits := legible.fits among read
    dsimp only
    rw [Entry.decode_eq_ok_iff.mpr (Entry.holds_encode fits)]
    refine .inr ⟨{ a with file }, ?_, rfl⟩
    rw [Dumper.read_elsewhere file other, read]
    rfl

theorem storeEntry {a : Ast} (occurs : (file.baseName, source) ∈ contents)
    (read : Dumper.read? file source source = some a) :
    Kept region folder contents (Cache.storeEntry folder a t) bare := by
  obtain ⟨-, home, hash⟩ := Dumper.wellFormed_of_read read
  have made := kept.clears kept.paved.makeFolders
  unfold Cache.storeEntry
  split
  · rename_i u e ready
    rw [ready] at made
    exact made
  · rename_i u ready
    rw [ready] at made
    rw [home, hash]
    generalize within : folder.join ⟨Entry.fileName file (Digest.content source)⟩ = entry
    have place : u.place entry = u.place folder ++ [Entry.fileName file (Digest.content source)] :=
      within ▸ place_entry ..
    have inside : region <+: u.place entry := place ▸ made.inside.trans (List.prefix_append ..)
    have outside := Agree.of_write (p := entry) inside (Entry.encode a)
    have same := place_congr outside.working folder
    refine ⟨outside.trans made.agree, same ▸ made.inside, made.paved.agree outside,
      fun name bytes there => ?_⟩
    rw [same] at there
    obtain ⟨new, rfl⟩ | old := look_write there
    · obtain rfl : name = _ := List.singleton_inj.mp (List.append_cancel_left (new.trans place))
      exact ⟨file, source, a, occurs, read, rfl, rfl⟩
    · exact made.stored name bytes old

end

end Kept

end Cache

end RubyInfer
