import ApiInventory.Proofs.Batch.Items

/-!
# Services that always do the same

A `Behaviour` fixes what is answered for each package and each version of it. Services that follow
one behaviour may differ in all else: in their state, in the time it is, in the work areas they
leave after a download. Items cannot tell them apart (`Item.process_congr`).
-/

namespace ApiInventory.Batch

open Files (FileTree)

/-- What services do for packages and their versions, whenever they are asked. -/
structure Behaviour where
  resolve : (package : String) → Reply (Option String)
  fetch : (package version : String) → Reply (List String)
  /-- What comes of unpacking the first file that was fetched, and the work area after it. -/
  unpack : (package version : String) → Reply (Except Archive.Failure Unit) × FileTree

/-- Services whose answers are fixed, on a device that takes every file. -/
structure Services.Follows {σ : Type} (s : Services σ) (b : Behaviour) : Prop where
  resolve : ∀ package o, (s.resolve package o).1 = b.resolve package
  fetch : ∀ package version o,
    (s.fetch package version WorkArea.new o).1 = b.fetch package version
  unpack : ∀ package version o files archive,
    (s.fetch package version WorkArea.new o).1 = .answer files →
    leastPath? files = some archive →
    ((s.unpack archive (s.fetch package version WorkArea.new o).2.1
        (s.fetch package version WorkArea.new o).2.2).1,
      (s.unpack archive (s.fetch package version WorkArea.new o).2.1
        (s.fetch package version WorkArea.new o).2.2).2.1) = b.unpack package version
  accepts : ∀ o, (s.accepts o).1 = true

/-- Services of a behaviour. They remember what they fetched last. -/
def Behaviour.services (b : Behaviour) : Services (String × String) where
  now o := (0, o)
  resolve package o := (b.resolve package, o)
  fetch package version area _ := (b.fetch package version, area, package, version)
  unpack _ _ o := ((b.unpack o.1 o.2).1, (b.unpack o.1 o.2).2, o)
  accepts o := (true, o)

theorem Behaviour.services_follows (b : Behaviour) : b.services.Follows b where
  resolve _ _ := rfl
  fetch _ _ _ := rfl
  unpack _ _ _ _ _ _ _ := rfl
  accepts _ := rfl

namespace Item

variable {σ σ' : Type} {s : Services σ} {s' : Services σ'} {b : Behaviour} (d : Desk)
variable (package token : String) {w : Progress σ} {w' : Progress σ'}

theorem record_congr (follows : s.Follows b) (follows' : s'.Follows b) (table : SymbolTable)
    (same : w.tree = w'.tree) :
    (record s d package token table w).1.tree = (record s' d package token table w').1.tree ∧
      (record s d package token table w).2 = (record s' d package token table w').2 := by
  unfold record
  dsimp only
  rw [follows.accepts, follows'.accepts, same]
  split
  · exact ⟨same, rfl⟩
  · split <;> exact ⟨rfl, rfl⟩

theorem unpack_congr (follows : s.Follows b) (follows' : s'.Follows b) {archive archive' : String}
    {area area' : FileTree} (same : w.tree = w'.tree)
    (alike : ((s.unpack archive area w.outside).1, (s.unpack archive area w.outside).2.1) =
      ((s'.unpack archive' area' w'.outside).1, (s'.unpack archive' area' w'.outside).2.1)) :
    (unpack s d package token archive area w).1.tree =
        (unpack s' d package token archive' area' w').1.tree ∧
      (unpack s d package token archive area w).2 =
        (unpack s' d package token archive' area' w').2 := by
  rcases e : s.unpack archive area w.outside with ⟨reply, left, o⟩
  rcases e' : s'.unpack archive' area' w'.outside with ⟨reply', left', o'⟩
  rw [e, e'] at alike
  obtain ⟨rfl, rfl⟩ := Prod.mk.inj alike
  simp only [unpack, Progress.outside_note, e, e']
  match reply with
  | .breakdown message => exact ⟨same, rfl⟩
  | .answer (.error failure) => exact ⟨same, rfl⟩
  | .answer (.ok ()) =>
      dsimp only
      generalize (Source.extractDirectory left [] WorkArea.unpacked).1 = table
      have noted : ({ w.note (.unpacking package archive) with outside := o } : Progress σ).tree =
        ({ w'.note (.unpacking package archive') with outside := o' } : Progress σ').tree := same
      obtain ⟨trees, outcomes⟩ := record_congr d package token follows follows' table noted
      exact ⟨trees, congrArg Reply.answer outcomes⟩

theorem fetch_congr (follows : s.Follows b) (follows' : s'.Follows b) (version : String)
    (same : w.tree = w'.tree) :
    (fetch s d package version token w).1.tree = (fetch s' d package version token w').1.tree ∧
      (fetch s d package version token w).2 = (fetch s' d package version token w').2 := by
  have fetched := follows.fetch package version w.outside
  have fetched' := follows'.fetch package version w'.outside
  have unpacked := follows.unpack package version w.outside
  have unpacked' := follows'.unpack package version w'.outside
  rcases e : s.fetch package version WorkArea.new w.outside with ⟨reply, area, o⟩
  rcases e' : s'.fetch package version WorkArea.new w'.outside with ⟨reply', area', o'⟩
  simp only [e] at fetched unpacked
  simp only [e'] at fetched' unpacked'
  obtain rfl := fetched.trans fetched'.symm
  simp only [fetch, Progress.outside_note, e, e']
  cases reply with
  | breakdown message => exact ⟨same, rfl⟩
  | answer files =>
      cases least : leastPath? files with
      | none => simp [least, same]
      | some archive =>
          simp only [least]
          exact unpack_congr d package token follows follows' same
            ((unpacked files archive rfl least).trans (unpacked' files archive rfl least).symm)

theorem version_congr (follows : s.Follows b) (follows' : s'.Follows b) (v : String)
    (same : w.tree = w'.tree) :
    (version s d package v w).1.tree = (version s' d package v w').1.tree ∧
      (version s d package v w).2 = (version s' d package v w').2 := by
  have noted : (noteUnsortable package v (versionToken v) w).tree =
      (noteUnsortable package v (versionToken v) w').tree := by simpa using same
  unfold version
  dsimp only
  rw [tree_noteUnsortable, tree_noteUnsortable, ← same]
  split
  · exact ⟨noted, rfl⟩
  · split
    · exact fetch_congr d package _ follows follows' v noted
    · exact ⟨noted, rfl⟩

/-- What an item does to the tree depends on the behaviour of its services and on the tree. -/
theorem process_congr (follows : s.Follows b) (follows' : s'.Follows b)
    (same : w.tree = w'.tree) :
    (process s d package w).1.tree = (process s' d package w').1.tree ∧
      (process s d package w).2 = (process s' d package w').2 := by
  have resolved := follows.resolve package w.outside
  have resolved' := follows'.resolve package w'.outside
  rcases e : s.resolve package w.outside with ⟨reply, o⟩
  rcases e' : s'.resolve package w'.outside with ⟨reply', o'⟩
  simp only [e] at resolved
  simp only [e'] at resolved'
  obtain rfl := resolved.trans resolved'.symm
  simp only [process, Progress.outside_note, e, e']
  split
  · have noted : ({ w.note (.resolving package) with outside := o } : Progress σ).tree =
      ({ w'.note (.resolving package) with outside := o' } : Progress σ').tree := same
    rcases reply with (_ | v) | message
    · exact ⟨same, rfl⟩
    · dsimp only
      exact version_congr d package follows follows' v noted
    · exact ⟨same, rfl⟩
  · exact ⟨same, rfl⟩

theorem attempt_congr (follows : s.Follows b) (follows' : s'.Follows b)
    (same : w.tree = w'.tree) :
    (attempt s d package w).1.tree = (attempt s' d package w').1.tree ∧
      (attempt s d package w).2 = (attempt s' d package w').2 := by
  obtain ⟨trees, replies⟩ := process_congr d package follows follows' same
  refine ⟨by rw [attempt_tree, attempt_tree, trees], ?_⟩
  rcases e : process s d package w with ⟨after, reply⟩
  rcases e' : process s' d package w' with ⟨after', reply'⟩
  rw [e, e'] at replies
  obtain rfl : reply = reply' := replies
  simp only [attempt, e, e']
  cases reply <;> rfl

end Item

end ApiInventory.Batch
