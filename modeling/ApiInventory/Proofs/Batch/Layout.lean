import ApiInventory.Proofs.Batch.Items
import ApiInventory.Proofs.Batch.Records

/-!
# A desk that keeps things apart

A record and a checkpoint are written in one tree, and both are found by paths. A record that is a
new entry of the store does not change what the checkpoint tells (`told_write_of_noLink`), not even
where both have one place.

`Desk.Layout` says that neither is in the way of the other: wherever runs may put files, the store
stays where it is, and the checkpoint leads to one place. Then no record changes what the checkpoint
tells (`Desk.Layout.told_write`), and what is saved is told.

Only symbolic links can spoil this. Every tree without them in which the store is found has such a
layout (`Desk.Layout.exists_of_noLinks`).
-/

namespace ApiInventory.Batch

open Files

/-! ## Records that are new -/

section New

variable {d : Desk} {t : FileTree} {S p : Place} {package token : String} {table : SymbolTable}
variable {accepts : Bool}

/-- A file that holds no position and is put where nothing was does not change what the checkpoint
tells. -/
theorem told_set_missing {content : ByteArray} (missing : t.get? p = none)
    (noPosition : Checkpoint.position? content = none) :
    told d (t.set p (.file content)) = told d t := by
  have ne := FileTree.ne_nil_of_get?_eq_none missing
  have unlocked := FileTree.isLocked_eq_false_of_get?_eq_none missing
  have evolution : t.Evolves (fun _ => True) (t.set p (.file content)) :=
    FileTree.evolves_set_file trivial (by simp [missing])
  by_cases holds : ∃ old, t.read d.directory d.checkpoint = .ok old
  · obtain ⟨old, read⟩ := holds
    obtain ⟨q, located, entry, free⟩ := FileTree.read_eq_ok_iff.mp read
    obtain ⟨nonempty, leads⟩ := FileTree.locate_eq_ok_iff.mp located
    have leads := leads.evolve evolution fun _ _ link => FileTree.get?_set_missing missing _ link
    have read' : (t.set p (.file content)).read d.directory d.checkpoint = .ok old :=
      FileTree.read_eq_ok_iff.mpr ⟨q, FileTree.locate_eq_ok_iff.mpr ⟨nonempty, leads⟩,
        FileTree.get?_set_missing missing _ entry, evolution.unlocked q free⟩
    exact congrArg Prod.fst (Checkpoint.load_congr (read'.trans read.symm))
  · -- what can be read now and could not be read before is the new file
    have before : told d t = 0 := Checkpoint.load_eq_zero fun old read => absurd ⟨old, read⟩ holds
    rw [before]
    refine Checkpoint.load_eq_zero fun old read => ?_
    obtain ⟨q, located, entry, free⟩ := FileTree.read_eq_ok_iff.mp read
    by_cases here : q = p
    · rw [here, FileTree.get?_set _ _ _ _ ne, if_pos rfl] at entry
      cases entry
      exact noPosition
    · obtain ⟨nonempty, leads⟩ := FileTree.locate_eq_ok_iff.mp located
      have leads := leads.before_file ne unlocked fun _ => missing
      rw [FileTree.get?_set_of_ne ne here] at entry
      rw [FileTree.isLocked_set_of_ne ne here] at free
      exact absurd ⟨old, FileTree.read_eq_ok_iff.mpr
        ⟨q, FileTree.locate_eq_ok_iff.mpr ⟨nonempty, leads⟩, entry, free⟩⟩ holds

/-- A record that is new in a store that is there does not change what the checkpoint tells, unless
it takes the place of a link. -/
theorem told_write_of_noLink (found : t.find d.directory d.store.folder = .ok (S, .directory))
    (noLink : ∀ target, t.get? (S ++ [recordName package token]) ≠ some (.link target))
    (unknown : d.store.has t d.directory package token = false)
    (done : (d.store.write t d.directory package token table accepts).result = .ok ()) :
    told d (d.store.write t d.directory package token table accepts).tree = told d t := by
  obtain ⟨unlocked, noDirectory, alike⟩ := RecordStore.write_of_ok found done
  have missing := (RecordStore.missing_or_link found unlocked noDirectory unknown).resolve_right
    fun ⟨target, link⟩ => noLink target link
  rw [← told_set_missing missing (RecordStore.position?_body table)]
  exact congrArg Prod.fst (Checkpoint.load_congr (alike.read _ _))

end New

/-! ## The layout -/

/-- Where runs put files: records in their store, and the checkpoint. -/
def Touched (store checkpoint : Place) (p : Place) : Prop := p.dropLast = store ∨ p = checkpoint

/-- The store and the checkpoint keep their places, whatever runs put there. -/
structure Desk.Layout (d : Desk) (t : FileTree) (S C : Place) : Prop where
  /-- The store is found. -/
  store : t.Always (Touched S C) fun t' =>
    t'.find d.directory d.store.folder = .ok (S, .directory)
  /-- If the checkpoint leads anywhere, it leads to its place, and goes on leading there. -/
  checkpoint : t.Always (Touched S C) fun t' => ∀ p,
    t'.locate d.directory d.checkpoint false = .ok p →
      p = C ∧ t'.Always (Touched S C) fun t'' =>
        t''.locate d.directory d.checkpoint false = .ok C
  /-- A symbolic link in the place of the checkpoint is no entry of the store, and as long as it
  is there, the checkpoint tells the same. -/
  linked : ∀ target, t.get? C = some (.link target) →
    C.dropLast ≠ S ∧ t.Always (Touched S C) fun t' =>
      t'.get? C = some (.link target) → told d t' = told d t

namespace Desk.Layout

variable {d : Desk} {t t' : FileTree} {S C : Place}

theorem later (h : d.Layout t S C) (evolution : t.Evolves (Touched S C) t') : d.Layout t' S C where
  store := h.store.later evolution
  checkpoint := h.checkpoint.later evolution
  linked := by
    intro target link
    obtain ⟨outside, same⟩ := h.linked target (evolution.link_before link)
    refine ⟨outside, fun t'' onward still => ?_⟩
    rw [same t'' (evolution.trans onward) still, same t' evolution link]

theorem find_store (h : d.Layout t S C) :
    t.find d.directory d.store.folder = .ok (S, .directory) :=
  h.store.now

/-- What is put in the place of the checkpoint does not cut the way to it. -/
theorem steady (h : d.Layout t S C) :
    t.Always (Touched S C) fun t' => t'.Steady d.directory d.checkpoint := by
  intro t' evolution goal content located noDirectory
  obtain ⟨rfl, stays⟩ := h.checkpoint t' evolution goal located
  exact stays _ (FileTree.evolves_set_file (.inr rfl) noDirectory)

theorem save_evolves (h : d.Layout t S C) (position : Nat) (accepts : Bool) :
    t.Evolves (Touched S C)
      (Checkpoint.save t d.directory d.checkpoint position accepts).tree := by
  refine FileTree.replaceFile_evolves fun goal located => .inr ?_
  exact (h.checkpoint _ (FileTree.makeDirectories_evolves _ t _ _) goal located).1

theorem told_save (h : d.Layout t S C) {position : Nat} {accepts : Bool}
    (small : position < Text.counterBound)
    (done : (Checkpoint.save t d.directory d.checkpoint position accepts).result = .ok ()) :
    told d (Checkpoint.save t d.directory d.checkpoint position accepts).tree = position := by
  have made := FileTree.makeDirectories_evolves (Touched S C) t d.directory
    (FileTree.parentOf d.checkpoint)
  rw [told, Checkpoint.load_save small done (h.steady _ made)]

section Write

variable {package token : String} {table : SymbolTable} {accepts : Bool}

theorem write_evolves (h : d.Layout t S C) :
    t.Evolves (Touched S C)
      (d.store.write t d.directory package token table accepts).tree := by
  refine FileTree.replaceFile_evolves fun goal located => .inl ?_
  rw [RecordStore.makeDirectories_parentOf h.find_store] at located
  obtain ⟨rfl, _⟩ := RecordStore.locate_path h.find_store (.refl (fun _ => True) t) located
  exact List.dropLast_concat

/-- A checkpoint that is no link is read in its place. -/
theorem read_iff (h : d.Layout t S C) (plain : ∀ target, t.get? C ≠ some (.link target))
    {content : ByteArray} :
    t.read d.directory d.checkpoint = .ok content ↔
      t.locate d.directory d.checkpoint false = .ok C ∧ t.get? C = some (.file content) ∧
        t.isLocked C = false := by
  constructor
  · intro read
    obtain ⟨p, located, entry, unlocked⟩ := FileTree.read_eq_ok_iff.mp read
    obtain ⟨nonempty, leads⟩ := FileTree.locate_eq_ok_iff.mp located
    rcases leads.unfollowed_or_link with leads | ⟨q, target, leads, link⟩
    · have located := FileTree.locate_eq_ok_iff.mpr ⟨nonempty, leads⟩
      obtain ⟨rfl, _⟩ := h.checkpoint.now p located
      exact ⟨located, entry, unlocked⟩
    · have located := FileTree.locate_eq_ok_iff.mpr ⟨nonempty, leads⟩
      obtain ⟨rfl, _⟩ := h.checkpoint.now q located
      exact absurd link (plain target)
  · rintro ⟨located, entry, unlocked⟩
    exact FileTree.read_of_locate located entry unlocked

/-- A record that is new does not go where a checkpoint is that can be read. -/
theorem elsewhere_of_read (h : d.Layout t S C)
    (plain : ∀ target, t.get? C ≠ some (.link target))
    (unknown : d.store.has t d.directory package token = false)
    (done : (d.store.write t d.directory package token table accepts).result = .ok ())
    {content : ByteArray} (read : t.read d.directory d.checkpoint = .ok content) :
    C ≠ S ++ [recordName package token] := by
  intro here
  obtain ⟨unlocked, _⟩ := RecordStore.write_of_ok h.find_store done
  obtain ⟨_, file, _⟩ := (h.read_iff plain).mp read
  rw [here] at file
  rw [RecordStore.has_of_get? h.find_store unlocked file] at unknown
  cases unknown

/-- A checkpoint that is no link is read as before when a record has been put elsewhere. -/
theorem read_write_iff (h : d.Layout t S C)
    (plain : ∀ target, t.get? C ≠ some (.link target))
    (other : C ≠ S ++ [recordName package token])
    (unknown : d.store.has t d.directory package token = false)
    (done : (d.store.write t d.directory package token table accepts).result = .ok ())
    {content : ByteArray} :
    (d.store.write t d.directory package token table accepts).tree.read d.directory d.checkpoint =
        .ok content ↔
      t.read d.directory d.checkpoint = .ok content := by
  obtain ⟨unlocked, noDirectory, alike⟩ := RecordStore.write_of_ok h.find_store done
  have ne := FileTree.ne_nil_of_get?_ne_directory noDirectory
  have free := RecordStore.isLocked_of_not_has h.find_store unlocked noDirectory unknown
  have allowed : Touched S C (S ++ [recordName package token]) := .inl (by simp)
  have evolution : t.Evolves (Touched S C) (t.set (S ++ [recordName package token])
      (.file (RecordStore.body table))) := FileTree.evolves_set_file allowed noDirectory
  have plain' : ∀ target, (t.set (S ++ [recordName package token])
      (.file (RecordStore.body table))).get? C ≠ some (.link target) := by
    intro target
    rw [FileTree.get?_set_of_ne ne other]
    exact plain target
  rw [alike.read, (h.later evolution).read_iff plain', h.read_iff plain,
    FileTree.get?_set_of_ne ne other, FileTree.isLocked_set_of_ne ne other]
  refine and_congr_left fun _ => ⟨fun located => ?_, fun located => ?_⟩
  · obtain ⟨nonempty, leads⟩ := FileTree.locate_eq_ok_iff.mp located
    exact FileTree.locate_eq_ok_iff.mpr
      ⟨nonempty, leads.before_file ne free fun same => absurd same other⟩
  · exact (h.checkpoint.now C located).2 _ evolution

/-- A record elsewhere leaves the checkpoint as it is. -/
theorem told_write_elsewhere (h : d.Layout t S C)
    (plain : ∀ target, t.get? C ≠ some (.link target))
    (other : C ≠ S ++ [recordName package token])
    (unknown : d.store.has t d.directory package token = false)
    (done : (d.store.write t d.directory package token table accepts).result = .ok ()) :
    told d (d.store.write t d.directory package token table accepts).tree = told d t := by
  have reads {content : ByteArray} :
      (d.store.write t d.directory package token table accepts).tree.read d.directory
        d.checkpoint = .ok content ↔ t.read d.directory d.checkpoint = .ok content :=
    h.read_write_iff plain other unknown done
  unfold told
  by_cases holds : ∃ content, t.read d.directory d.checkpoint = .ok content
  · obtain ⟨content, read⟩ := holds
    rw [Checkpoint.load_congr ((reads.mpr read).trans read.symm)]
  · rw [Checkpoint.load_eq_zero fun content read => absurd ⟨content, read⟩ holds,
      Checkpoint.load_eq_zero fun content read => absurd ⟨content, reads.mp read⟩ holds]

/-- A checkpoint that can be read, and is no link, is read as before when a record is new. -/
theorem read_write (h : d.Layout t S C)
    (plain : ∀ target, t.get? C ≠ some (.link target))
    (unknown : d.store.has t d.directory package token = false)
    (done : (d.store.write t d.directory package token table accepts).result = .ok ())
    {content : ByteArray} (read : t.read d.directory d.checkpoint = .ok content) :
    (d.store.write t d.directory package token table accepts).tree.read d.directory d.checkpoint =
      .ok content :=
  (h.read_write_iff plain (h.elsewhere_of_read plain unknown done read) unknown done).mpr read

/-- A record that was not there yet does not move the checkpoint. -/
theorem told_write (h : d.Layout t S C)
    (unknown : d.store.has t d.directory package token = false)
    (done : (d.store.write t d.directory package token table accepts).result = .ok ()) :
    told d (d.store.write t d.directory package token table accepts).tree = told d t := by
  by_cases link : ∃ target, t.get? C = some (.link target)
  · obtain ⟨target, link⟩ := link
    obtain ⟨outside, same⟩ := h.linked target link
    obtain ⟨_, noDirectory, alike⟩ := RecordStore.write_of_ok h.find_store done
    have ne := FileTree.ne_nil_of_get?_ne_directory noDirectory
    refine same _ h.write_evolves ?_
    have other : C ≠ S ++ [recordName package token] := by
      rintro rfl
      exact outside List.dropLast_concat
    rw [alike.get?, FileTree.get?_set_of_ne ne other, link]
  · have plain : ∀ target, t.get? C ≠ some (.link target) := fun target entry =>
      link ⟨target, entry⟩
    by_cases here : C = S ++ [recordName package token]
    · exact told_write_of_noLink h.find_store (here ▸ plain) unknown done
    · exact h.told_write_elsewhere plain here unknown done

end Write

theorem recording_evolves (h : d.Layout t S C) {package token : String} {reply : Reply Outcome}
    (recording : Recording d package token t t' reply) : t.Evolves (Touched S C) t' := by
  cases recording with
  | idle => exact .refl _ t
  | recorded | unwritten => exact h.write_evolves

section Attempt

variable {σ : Type} {w : Progress σ}

theorem attempt_evolves (h : d.Layout w.tree S C) (s : Services σ) (package : String) :
    w.tree.Evolves (Touched S C) (Item.attempt s d package w).1.tree := by
  rw [Item.attempt_tree]
  rcases Item.process_cases s d package w with ⟨same, _⟩ | ⟨version, _, _, _, recording⟩
  · rw [same]
    exact .refl _ w.tree
  · exact h.recording_evolves recording

/-- An item leaves what a new record leaves. -/
theorem attempt_induction (layout : d.Layout w.tree S C) (s : Services σ) (package : String)
    (holds : FileTree → Prop) (now : holds w.tree) (alike : ∀ t, w.tree.Alike t → holds t)
    (write : ∀ token table accepted, d.store.has w.tree d.directory package token = false →
      (d.store.write w.tree d.directory package token table accepted).result = .ok () →
      holds (d.store.write w.tree d.directory package token table accepted).tree) :
    holds (Item.attempt s d package w).1.tree := by
  rw [Item.attempt_tree]
  rcases Item.process_cases s d package w with ⟨same, _⟩ | ⟨version, _, _, unknown, recording⟩
  · rwa [same]
  · generalize Item.process s d package w = result at recording ⊢
    obtain ⟨⟨after, outside, events⟩, reply⟩ := result
    dsimp only at recording ⊢
    cases recording with
    | idle => exact now
    | recorded _ written => exact write _ _ _ unknown written
    | unwritten failed => exact alike _ (RecordStore.write_of_error layout.find_store failed)

/-- An item leaves the checkpoint as it is. -/
theorem told_attempt (layout : d.Layout w.tree S C) (s : Services σ) (package : String) :
    told d (Item.attempt s d package w).1.tree = told d w.tree :=
  layout.attempt_induction s package (fun t => told d t = told d w.tree) rfl
    (fun _ same => congrArg Prod.fst (Checkpoint.load_congr (same.read _ _)))
    fun _ _ _ unknown written => layout.told_write unknown written

end Attempt

/-- Where no links are, the store and the checkpoint keep their places. -/
theorem exists_of_noLinks (noLinks : t.NoLinks)
    (found : t.find d.directory d.store.folder = .ok (S, .directory)) : ∃ C, d.Layout t S C := by
  have stays {may : Place → Prop} {follow : Bool} {path : String} {p : Place} {t₁ t₂ : FileTree}
      (noLinks : t₁.NoLinks) (located : t₁.locate d.directory path follow = .ok p)
      (evolution : t₁.Evolves may t₂) : t₂.locate d.directory path follow = .ok p := by
    obtain ⟨nonempty, leads⟩ := FileTree.locate_eq_ok_iff.mp located
    exact FileTree.locate_eq_ok_iff.mpr
      ⟨nonempty, leads.evolve evolution fun q target link => absurd link (noLinks q target)⟩
  have store {C : Place} : t.Always (Touched S C) fun t' =>
      t'.find d.directory d.store.folder = .ok (S, .directory) :=
    fun t' evolution => evolution.find_directory noLinks found
  by_cases leads : ∃ t₁ C, t.Evolves (fun _ => True) t₁ ∧
      t₁.locate d.directory d.checkpoint false = .ok C
  · obtain ⟨t₁, C, evolution₁, located₁⟩ := leads
    refine ⟨C, store, fun t' evolution p located => ?_, fun target link =>
      absurd link (noLinks C target)⟩
    obtain ⟨_, leads⟩ := FileTree.locate_eq_ok_iff.mp located
    obtain ⟨_, leads₁⟩ := FileTree.locate_eq_ok_iff.mp located₁
    obtain rfl := leads.unique (evolution.noLinks noLinks) (evolution₁.noLinks noLinks) leads₁
    exact ⟨rfl, fun t'' onward => stays (evolution.noLinks noLinks) located onward⟩
  · refine ⟨[], store, fun t' evolution p located => ?_, fun target link =>
      absurd link (noLinks [] target)⟩
    exact absurd ⟨t', p, evolution.mono fun _ _ => trivial, located⟩ leads

end Desk.Layout

end ApiInventory.Batch
