import ApiInventory.Archive.Zip
import ApiInventory.Proofs.Archive.Deflate
import ApiInventory.Proofs.Text.Decimal
import ApiInventory.Proofs.Text.Decoding
import Mathlib

/-!
# Zip archives read back

An archive of members is read as these members (`Zip.read?_eq_of_write?`), as far as the fields of
the format are wide enough for it and the names of directories, and of nothing else but links, end
in a separator (`Zip.Storable`). The reader goes by the directory, so the proof has two parts: the
directory gives an entry for each member (`Zip.entries?_directory`), and each entry leads to the
data of its member (`Zip.mapM_member?`).
-/

namespace ApiInventory.Archive.Zip

/-- A member that an archive can hold under its name. -/
structure Storable (m : Member) : Prop where
  short : m.name.toUTF8.toList.length < 2 ^ 16
  plain : match m.content with
    | .file _ => namesDirectory m.name = false
    | .directory => namesDirectory m.name = true
    | .link _ => True
    | .sameAs _ => False

variable {m : Member} {members : List Member} {position : Nat} {tail : Bytes}

/-! ## Fields of records -/

theorem number_append {a b : Bytes} {start width : Nat} (passed : a.length ≤ start) :
    number (a ++ b) start width = number b (start - a.length) width := by
  rw [number, number, List.drop_append, List.drop_of_length_le passed, List.nil_append]

theorem number_littleEndian {width n : Nat} (fits : n < 256 ^ width) :
    number (littleEndian width n ++ tail) 0 width = n := by
  rw [number, List.drop_zero, List.take_left' (length_littleEndian width n),
    ofLittleEndian_littleEndian fits]

/-- The last field of a record. -/
theorem number_littleEndian_end {width n : Nat} (fits : n < 256 ^ width) :
    number (littleEndian width n) 0 width = n := by
  have field : number (littleEndian width n ++ []) 0 width = n := number_littleEndian fits
  rwa [List.append_nil] at field

theorem checksum_lt (data : Bytes) : checksum data < 256 ^ 4 := UInt32.toNat_lt _

/-- The entry that the directory has for a member. -/
def entryOf (position : Nat) (m : Member) : Entry where
  name := m.name
  flags := 0x800
  method := 8
  sum := checksum (stored m).1
  packedSize := (deflate (stored m).1).length
  position := position
  system := 3
  attributes := (stored m).2 * 0x10000

/-- What stands in the local record of a member before its name. -/
def localFields (m : Member) : Bytes :=
  littleEndian 4 localSignature ++ commonFields m (stored m).1 (deflate (stored m).1)

theorem localRecord_eq (m : Member) :
    localRecord m = localFields m ++ (m.name.toUTF8.toList ++ deflate (stored m).1) := by
  simp only [localRecord, localFields, List.append_assoc]

/-- What stands in the directory before the name of a member. -/
def directoryFields (m : Member) (position : Nat) : Bytes :=
  littleEndian 4 directorySignature ++ ([20, 3] ++
    (commonFields m (stored m).1 (deflate (stored m).1) ++
      (littleEndian 2 0 ++ (littleEndian 2 0 ++ (littleEndian 2 0 ++
        (littleEndian 4 ((stored m).2 * 0x10000) ++ littleEndian 4 position))))))

theorem directoryRecord_eq (m : Member) (position : Nat) :
    directoryRecord m position = directoryFields m position ++ m.name.toUTF8.toList := by
  simp only [directoryRecord, directoryFields, List.append_assoc]

theorem length_commonFields (m : Member) (data packed : Bytes) :
    (commonFields m data packed).length = 26 := by
  simp [commonFields, length_littleEndian]

theorem length_localFields (m : Member) : (localFields m).length = 30 := by
  simp [localFields, length_commonFields, length_littleEndian]

theorem length_directoryFields (m : Member) (position : Nat) :
    (directoryFields m position).length = 46 := by
  simp [directoryFields, length_commonFields, length_littleEndian]

theorem length_deflate_lt (m : Member) :
    (deflate (stored m).1).length < (localRecord m).length := by
  rw [localRecord_eq, List.length_append, List.length_append, length_localFields]
  omega

/-- The mode of a member fits into the upper half of its attributes. -/
theorem mode_lt (m : Member) : (stored m).2 * 0x10000 < 256 ^ 4 := by
  have fits : ∀ mode ∈ [fileMode, linkMode], mode * 0x10000 < 256 ^ 4 := by decide
  unfold stored
  split <;> exact fits _ (by simp)

section Fields

variable (storable : Storable m)
include storable

theorem number_localFields :
    number (localFields m) 0 4 = localSignature ∧
      number (localFields m) 26 2 = m.name.toUTF8.toList.length ∧
      number (localFields m) 28 2 = 0 := by
  have short := storable.short
  have signature : localSignature < 256 ^ 4 := by decide
  have zero : 0 < 256 ^ 2 := by decide
  simp only [localFields, commonFields, List.append_assoc]
  refine ⟨number_littleEndian signature, ?_, ?_⟩
  · simp (disch := simp [length_littleEndian]) only [number_append, length_littleEndian,
      Nat.reduceSub]
    exact number_littleEndian short
  · simp (disch := simp [length_littleEndian]) only [number_append, length_littleEndian,
      Nat.reduceSub]
    exact number_littleEndian_end zero

/-- The fields of an entry, one after the other as the reader asks for them. -/
theorem number_directoryFields (packed : (deflate (stored m).1).length < 2 ^ 32)
    (place : position < 2 ^ 32) :
    let fields := directoryFields m position
    number fields 0 4 = directorySignature ∧ number fields 5 1 = 3 ∧
      number fields 8 2 = 0x800 ∧ number fields 10 2 = 8 ∧
      number fields 16 4 = checksum (stored m).1 ∧
      number fields 20 4 = (deflate (stored m).1).length ∧
      number fields 28 2 = m.name.toUTF8.toList.length ∧
      number fields 30 2 = 0 ∧ number fields 32 2 = 0 ∧
      number fields 38 4 = (stored m).2 * 0x10000 ∧ number fields 42 4 = position := by
  have short := storable.short
  have signature : directorySignature < 256 ^ 4 := by decide
  have small : ∀ n ∈ [0, 8, 0x800], n < 256 ^ 2 := by decide
  simp only [directoryFields, commonFields, List.append_assoc]
  simp (disch := simp [length_littleEndian]) only [number_append, length_littleEndian,
    List.length_cons, List.length_nil, Nat.reduceAdd, Nat.reduceSub]
  refine ⟨number_littleEndian signature, ?_, number_littleEndian (small _ (by simp)),
    number_littleEndian (small _ (by simp)), number_littleEndian (checksum_lt _),
    number_littleEndian packed, number_littleEndian short, number_littleEndian (small _ (by simp)),
    number_littleEndian (small _ (by simp)), number_littleEndian (mode_lt m),
    number_littleEndian_end place⟩
  rfl

end Fields

/-- A text that was written is read back. -/
theorem decodeLossy_toUTF8 (s : String) : Text.decodeLossy ⟨s.toUTF8.toList.toArray⟩ = s := by
  have whole : (⟨s.toUTF8.toList.toArray⟩ : ByteArray) = Text.encode s := by
    rw [← Text.encode, Text.toList_encode]
    rfl
  rw [whole, Text.decodeLossy_encode]

/-! ## The directory -/

/-- The entries of members whose records stand one after the other. -/
def entriesFrom : Nat → List Member → List Entry
  | _, [] => []
  | position, m :: rest =>
    entryOf position m :: entriesFrom (position + (localRecord m).length) rest

theorem map_name_entriesFrom (position : Nat) (members : List Member) :
    (entriesFrom position members).map Entry.name = members.map Member.name := by
  induction members generalizing position with
  | nil => rfl
  | cons m rest ih => rw [entriesFrom, List.map_cons, ih, List.map_cons]; rfl

/-- The directory is read as the entries of the members. -/
theorem entries?_directory (storable : ∀ m ∈ members, Storable m)
    (fits : position + (writeRecords position members).1.length < 2 ^ 32) :
    entries? members.length ((writeRecords position members).2 ++ tail) =
      some (entriesFrom position members) := by
  induction members generalizing position with
  | nil => rfl
  | cons m rest ih =>
      have own := storable m List.mem_cons_self
      simp only [writeRecords, List.length_append] at fits
      have later := @ih (position + (localRecord m).length)
        (fun m member => storable m (List.mem_cons_of_mem _ member)) (by omega)
      have packed := length_deflate_lt m
      obtain ⟨signature, system, flags, method, sum, size, name, extra, comment, attributes,
        place⟩ := @number_directoryFields m position own (by omega) (by omega)
      have fixed : cut? 46 (directoryFields m position ++ (m.name.toUTF8.toList ++
          ((writeRecords (position + (localRecord m).length) rest).2 ++ tail))) =
          some (directoryFields m position, m.name.toUTF8.toList ++
            ((writeRecords (position + (localRecord m).length) rest).2 ++ tail)) :=
        cut?_eq_some_iff.mpr ⟨length_directoryFields m position, rfl⟩
      have named : cut? m.name.toUTF8.toList.length (m.name.toUTF8.toList ++
          ((writeRecords (position + (localRecord m).length) rest).2 ++ tail)) =
          some (m.name.toUTF8.toList,
            (writeRecords (position + (localRecord m).length) rest).2 ++ tail) :=
        cut?_eq_some_iff.mpr ⟨rfl, rfl⟩
      have nothing (bytes : Bytes) : cut? 0 bytes = some ([], bytes) :=
        cut?_eq_some_iff.mpr ⟨rfl, rfl⟩
      simp only [writeRecords, directoryRecord_eq, List.append_assoc, List.length_cons]
      rw [entries?, fixed, Option.bind_some]
      dsimp only
      rw [if_neg (not_not.mpr signature), name, named, Option.bind_some]
      dsimp only
      rw [extra, comment, nothing, Option.bind_some]
      dsimp only
      rw [later, Option.map_some, flags,
        method, sum, size, place, system, attributes, decodeLossy_toUTF8]
      rfl

/-- Of entries with different names all are kept. -/
theorem lastEntries_eq {entries : List Entry} (nodup : (entries.map Entry.name).Nodup) :
    lastEntries entries = entries := by
  have all (kept : List Entry) (different : ((kept ++ entries).map Entry.name).Nodup) :
      entries.foldl (fun kept e =>
        if kept.any fun k => k.name = e.name then kept.map fun k => if k.name = e.name then e else k
        else kept ++ [e]) kept = kept ++ entries := by
    clear nodup
    induction entries generalizing kept with
    | nil => simp
    | cons e rest ih =>
        have new : (kept.any fun k => decide (k.name = e.name)) = false := by
          rw [List.any_eq_false]
          intro k member same
          rw [List.map_append, List.nodup_append] at different
          exact different.2.2 _ (List.mem_map_of_mem member) _
            (List.mem_map_of_mem List.mem_cons_self)
            (of_decide_eq_true same)
        rw [List.foldl_cons, new, if_neg Bool.false_ne_true, ih]
        · simp
        · simpa using different
  exact all [] nodup

/-! ## The data of members -/

theorem data?_localRecord (storable : Storable m) {before : Bytes} :
    data? (before ++ (localRecord m ++ tail)) 0 (entryOf before.length m) =
      some (stored m).1 := by
  obtain ⟨signature, name, extra⟩ := number_localFields storable
  have fixed : cut? 30 (localFields m ++ (m.name.toUTF8.toList ++
      (deflate (stored m).1 ++ tail))) =
      some (localFields m, m.name.toUTF8.toList ++ (deflate (stored m).1 ++ tail)) :=
    cut?_eq_some_iff.mpr ⟨length_localFields m, rfl⟩
  have packed : (deflate (stored m).1 ++ tail).take (deflate (stored m).1).length =
      deflate (stored m).1 := List.take_left
  have inflated : inflate (deflate (stored m).1) = ((stored m).1, some []) := by
    simpa using inflate_deflate (stored m).1 []
  unfold data?
  rw [Nat.zero_add, entryOf, List.drop_left, localRecord_eq]
  simp only [List.append_assoc]
  rw [fixed, Option.bind_some]
  simp [signature, name, extra, packed, inflated]

theorem member?_localRecord (storable : Storable m) {before : Bytes} :
    member? (before ++ (localRecord m ++ tail)) 0 (entryOf before.length m) = some m := by
  rw [member?, data?_localRecord storable, Option.map_some, Option.some.injEq]
  obtain ⟨name, content⟩ := m
  have plain := storable.plain
  cases content with
  | file data => simp_all [entryOf, isLink, stored, fileMode]
  | directory => simp_all [entryOf, isLink, stored, fileMode]
  | link target =>
      have linked : isLink (entryOf before.length ⟨name, .link target⟩) = true := by
        simp [isLink, entryOf, stored, linkMode]
      rw [if_pos linked, stored, decodeLossy_toUTF8, entryOf]
  | sameAs other => exact plain.elim

/-- Each entry leads to its member. -/
theorem mapM_member? {before : Bytes} (storable : ∀ m ∈ members, Storable m) :
    (entriesFrom before.length members).mapM
        (member? (before ++ ((writeRecords before.length members).1 ++ tail)) 0) =
      some members := by
  induction members generalizing before with
  | nil => rfl
  | cons m rest ih =>
      have later := @ih (before ++ localRecord m)
        fun m member => storable m (List.mem_cons_of_mem _ member)
      rw [List.length_append, List.append_assoc] at later
      simp only [writeRecords, entriesFrom, List.mapM_cons, List.append_assoc]
      rw [member?_localRecord (storable m List.mem_cons_self), later]
      rfl

/-! ## Archives -/

/-- The record at the end is found at once. -/
theorem endRecord?_append {body last : Bytes} (length : last.length = 22)
    (signature : number last 0 4 = endSignature) :
    endRecord? (body ++ last) = some (body.length, last) := by
  have size : (body ++ last).length - 22 = body.length := by
    rw [List.length_append, length]
    omega
  have enough : ¬ (body ++ last).length < 22 := by
    rw [List.length_append, length]
    omega
  unfold endRecord?
  dsimp only
  rw [if_neg enough, size, List.range_succ, List.reverse_append, List.reverse_singleton,
    List.singleton_append, List.find?_cons_of_pos (by simp [signature])]
  simp

/-- An archive is read as the members that were written. -/
theorem read?_eq_of_write? {bytes : Bytes} (storable : ∀ m ∈ members, Storable m)
    (few : members.length < 2 ^ 16) (small : bytes.length < 2 ^ 32)
    (written : write? members = some bytes) : read? bytes = some members := by
  unfold write? at written
  split at written
  · rename_i nodup
    obtain rfl := Option.some.inj written
    rcases records : writeRecords 0 members with ⟨data, directory⟩
    simp only [records, List.append_assoc] at small ⊢
    let last : Bytes := littleEndian 4 endSignature ++ (littleEndian 4 0 ++
      (littleEndian 2 members.length ++ (littleEndian 2 members.length ++
        (littleEndian 4 directory.length ++ (littleEndian 4 data.length ++ littleEndian 2 0)))))
    have sizes : data.length < 256 ^ 4 ∧ directory.length < 256 ^ 4 := by
      simp only [List.length_append] at small
      omega
    have count : number last 10 2 = members.length := by
      simp (disch := simp [length_littleEndian]) only [last, number_append, length_littleEndian,
        Nat.reduceSub]
      exact number_littleEndian few
    have directorySize : number last 12 4 = directory.length := by
      simp (disch := simp [length_littleEndian]) only [last, number_append, length_littleEndian,
        Nat.reduceSub]
      exact number_littleEndian sizes.2
    have start : number last 16 4 = data.length := by
      simp (disch := simp [length_littleEndian]) only [last, number_append, length_littleEndian,
        Nat.reduceSub]
      exact number_littleEndian sizes.1
    have found : endRecord? (data ++ (directory ++ last)) =
        some ((data ++ directory).length, last) := by
      rw [← List.append_assoc]
      exact endRecord?_append (by simp [last, length_littleEndian])
        (number_littleEndian (by decide))
    have entries : entries? members.length ((writeRecords 0 members).2 ++ last) = _ :=
      entries?_directory storable (by rw [records]; simpa using sizes.1)
    have contents := @mapM_member? members (directory ++ last) [] storable
    rw [List.length_nil, records] at contents
    rw [records] at entries
    change read? (data ++ (directory ++ last)) = some members
    have inside : ¬ (data ++ directory).length < directory.length + data.length := by
      rw [List.length_append]
      omega
    have shift : (data ++ directory).length - (directory.length + data.length) = 0 := by
      rw [List.length_append]
      omega
    rw [read?, found, Option.bind_some]
    dsimp only
    rw [directorySize, start, count, if_neg inside, shift, Nat.zero_add, List.drop_left, entries,
      Option.bind_some, lastEntries_eq (by rwa [map_name_entriesFrom])]
    exact contents
  · cases written

end ApiInventory.Archive.Zip
