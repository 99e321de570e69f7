import ApiInventory.Proofs.Batch.Behaviour
import ApiInventory.Proofs.Batch.Exits

/-!
# What an item sees of the files

Of all the files an item sees little: whether its record is there, whether work areas can be
made, and what would keep a record out of the store. If two trees show it the same and its package
is answered for in the same way, then it ends in the same way (`Exit.transfer`).

`Desk.Agree` relates trees that show the same store, up to places that are of no interest. An item
leaves such a tree behind (`Item.onward`): it puts a record in its own place, if any. So does a run
whose checkpoint is out of the way (`run_onward_all`).
-/

namespace ApiInventory.Batch

open Files (FileTree Place Entry)

/-! ## Services that always do the same for a package -/

/-- Services whose answers about one package are fixed, on a device that takes every file. What
they do about others is open. -/
structure Services.FollowsFor {σ : Type} (s : Services σ) (b : Behaviour) (package : String) :
    Prop where
  resolve : ∀ o, (s.resolve package o).1 = b.resolve package
  download : ∀ version o, (s.download package version o).1 = b.fetch package version
  opening : ∀ version archive o, (∃ files, (s.download package version o).1 = .answer files ∧
      Foremost files archive) →
    ((s.opening package version archive o).1, (s.opening package version archive o).2.1) =
      b.unpack package version
  accepts : ∀ o, (s.accepts o).1 = true

theorem Services.Follows.followsFor {σ : Type} {s : Services σ} {b : Behaviour}
    (h : s.Follows b) (package : String) : s.FollowsFor b package where
  resolve := h.resolve package
  download := fun version o => h.fetch package version _
  opening := by
    rintro version archive o ⟨files, fetched, foremost⟩
    exact h.unpack package version _ files archive fetched (leastPath?_eq_some_iff.mpr foremost)
  accepts := h.accepts

section Transfer

variable {σ σ' : Type} {s : Services σ} {s' : Services σ'} {b : Behaviour} {d : Desk}
variable {S : Place} {package : String} {w : Progress σ} {w' : Progress σ'}
variable {v archive : String} {table : SymbolTable} {account : Account}
variable (follows : s.FollowsFor b package) (follows' : s'.FollowsFor b package)
include follows follows'

theorem Services.FollowsFor.resolve_eq (o : σ) (o' : σ') :
    (s.resolve package o).1 = (s'.resolve package o').1 :=
  (follows.resolve o).trans (follows'.resolve o').symm

theorem Services.FollowsFor.download_eq (version : String) (o : σ) (o' : σ') :
    (s.download package version o).1 = (s'.download package version o').1 :=
  (follows.download version o).trans (follows'.download version o').symm

theorem Seeks.transfer (h : Seeks s d package w v)
    (unknown : d.store.has w'.tree d.directory package (versionToken v) = false)
    (scratch : w'.tree.isDirectory d.directory d.temporary = true) :
    Seeks s' d package w' v :=
  ⟨h.safe, (follows'.resolve_eq follows _ _).trans h.resolved, unknown, scratch⟩

theorem Obtains.transfer (h : Obtains s d package w v archive) (seeks : Seeks s' d package w' v) :
    Obtains s' d package w' v archive := by
  obtain ⟨files, fetched, foremost⟩ := h.obtained
  exact ⟨seeks, files, (follows'.download_eq follows _ _ _).trans fetched, foremost⟩

/-- Both have the same archive unpacked, with the same result. -/
theorem Obtains.opening_eq (h : Obtains s d package w v archive)
    (h' : Obtains s' d package w' v archive) :
    (s'.opening package v archive w'.outside).1 = (s.opening package v archive w.outside).1 ∧
      (s'.opening package v archive w'.outside).2.1 =
        (s.opening package v archive w.outside).2.1 := by
  have same := (follows'.opening _ _ _ h'.obtained).trans (follows.opening _ _ _ h.obtained).symm
  exact Prod.mk.inj same

theorem Opens.transfer (h : Opens s d package w v archive table)
    (seeks : Seeks s' d package w' v) : Opens s' d package w' v archive table := by
  have obtains := h.toObtains.transfer follows follows' seeks
  obtain ⟨reply, area⟩ := h.toObtains.opening_eq follows follows' obtains
  exact ⟨obtains, reply.trans h.opened, by rw [area, h.table_eq]⟩

end Transfer

/-- Trees that show an item of a package the same. -/
structure Desk.ShowsSame (d : Desk) (b : Behaviour) (S : Place) (package : String)
    (t t' : FileTree) : Prop where
  scratch : t'.isDirectory d.directory d.temporary = t.isDirectory d.directory d.temporary
  known : ∀ v, isSafePart package = true → b.resolve package = .answer (some v) →
    d.store.has t' d.directory package (versionToken v) =
      d.store.has t d.directory package (versionToken v)
  obstacle : ∀ v accepts, isSafePart package = true → b.resolve package = .answer (some v) →
    d.store.obstacle? t' S package (versionToken v) accepts =
      d.store.obstacle? t S package (versionToken v) accepts

section Transfer

variable {σ σ' : Type} {s : Services σ} {s' : Services σ'} {b : Behaviour} {d : Desk}
variable {S : Place} {package : String} {w : Progress σ} {w' : Progress σ'}
variable {v archive : String} {table : SymbolTable} {account : Account}

theorem Seeks.transfer_of_same (follows : s.FollowsFor b package)
    (follows' : s'.FollowsFor b package) (same : d.ShowsSame b S package w.tree w'.tree)
    (h : Seeks s d package w v) : Seeks s' d package w' v :=
  h.transfer follows follows'
    ((same.known v h.safe ((follows.resolve _).symm.trans h.resolved)).trans h.unknown)
    (same.scratch.trans h.scratch)

/-- Items that see the same end in the same way. -/
theorem Exit.transfer (follows : s.FollowsFor b package) (follows' : s'.FollowsFor b package)
    (same : d.ShowsSame b S package w.tree w'.tree) (h : Exit s d S package w account) :
    Exit s' d S package w' account := by
  have resolve := follows'.resolve_eq follows w'.outside w.outside
  have accepts : ∀ o o', (s'.accepts o').1 = (s.accepts o).1 := fun o o' =>
    (follows'.accepts o').trans (follows.accepts o).symm
  cases h with
  | unsafeName bad => exact .unsafeName bad
  | resolveBroke safe broke => exact .resolveBroke safe (resolve.trans broke)
  | unresolved safe missing => exact .unresolved safe (resolve.trans missing)
  | known safe resolved known =>
      have answer := (follows.resolve _).symm.trans resolved
      exact .known safe (resolve.trans resolved) ((same.known _ safe answer).trans known)
  | noScratch safe resolved unknown missing =>
      have answer := (follows.resolve _).symm.trans resolved
      exact .noScratch safe (resolve.trans resolved) ((same.known _ safe answer).trans unknown)
        (same.scratch.trans missing)
  | fetchBroke seeks broke =>
      exact .fetchBroke (seeks.transfer_of_same follows follows' same)
        ((follows'.download_eq follows _ _ _).trans broke)
  | notDownloaded seeks nothing =>
      exact .notDownloaded (seeks.transfer_of_same follows follows' same)
        ((follows'.download_eq follows _ _ _).trans nothing)
  | unpackBroke obtains broke =>
      have obtains' := obtains.transfer follows follows'
        (obtains.toSeeks.transfer_of_same follows follows' same)
      exact .unpackBroke obtains' ((obtains.opening_eq follows follows' obtains').1.trans broke)
  | notUnpacked obtains failed =>
      have obtains' := obtains.transfer follows follows'
        (obtains.toSeeks.transfer_of_same follows follows' same)
      exact .notUnpacked obtains' ((obtains.opening_eq follows follows' obtains').1.trans failed)
  | nothingFound opens nothing =>
      exact .nothingFound (opens.transfer follows follows'
        (opens.toSeeks.transfer_of_same follows follows' same)) nothing
  | unwritten opens some obstacle =>
      have answer := (follows.resolve _).symm.trans opens.resolved
      refine .unwritten (opens.transfer follows follows'
        (opens.toSeeks.transfer_of_same follows follows' same)) some ?_
      rw [accepts, same.obstacle _ _ opens.safe answer, obstacle]
  | recorded opens some noObstacle =>
      have answer := (follows.resolve _).symm.trans opens.resolved
      refine .recorded (opens.transfer follows follows'
        (opens.toSeeks.transfer_of_same follows follows' same)) some ?_
      rw [accepts, same.obstacle _ _ opens.safe answer, noObstacle]

end Transfer

/-! ## Trees that show the same store -/

/-- Where the record of a package can lie, at a version of a kind. -/
def IsRecordPlace (S : Place) (versions : String → Prop) (q : Place) : Prop :=
  ∃ package version, isSafePart package = true ∧ versions version ∧
    q = S ++ [recordName package (versionToken version)]

/-- Between one tree and another the store is left where it is, with all that lies at some places,
and so is the directory for work areas. -/
structure Desk.LeavesAlone (d : Desk) (S : Place) (places : Place → Prop) (t t' : FileTree) :
    Prop where
  store : t'.find d.directory d.store.folder = .ok (S, .directory)
  scratch : t'.isDirectory d.directory d.temporary = t.isDirectory d.directory d.temporary
  entry : ∀ q, places q → t'.get? q = t.get? q

theorem Desk.LeavesAlone.mono {d : Desk} {S : Place} {places places' : Place → Prop}
    {t t' : FileTree} (h : d.LeavesAlone S places t t') (fewer : ∀ q, places' q → places q) :
    d.LeavesAlone S places' t t' :=
  ⟨h.store, h.scratch, fun q place => h.entry q (fewer q place)⟩

/-- Trees that show the same store to a desk, as far as some places go. -/
structure Desk.Agree (d : Desk) (S : Place) (places : Place → Prop) (t t' : FileTree) : Prop
    extends d.LeavesAlone S places t t' where
  before : t.find d.directory d.store.folder = .ok (S, .directory)
  lock : t'.isLocked S = t.isLocked S

namespace Desk.Agree

variable {d : Desk} {S : Place} {places places' : Place → Prop} {t t' t'' : FileTree}

protected theorem refl (found : t.find d.directory d.store.folder = .ok (S, .directory))
    (places : Place → Prop) : d.Agree S places t t :=
  ⟨⟨found, rfl, fun _ _ => rfl⟩, found, rfl⟩

protected theorem symm (h : d.Agree S places t t') : d.Agree S places t' t :=
  ⟨⟨h.before, h.scratch.symm, fun q place => (h.entry q place).symm⟩, h.store, h.lock.symm⟩

protected theorem trans (h : d.Agree S places t t') (h' : d.Agree S places t' t'') :
    d.Agree S places t t'' :=
  ⟨⟨h'.store, h'.scratch.trans h.scratch,
    fun q place => (h'.entry q place).trans (h.entry q place)⟩, h.before, h'.lock.trans h.lock⟩

protected theorem mono (h : d.Agree S places t t') (fewer : ∀ q, places' q → places q) :
    d.Agree S places' t t' :=
  ⟨h.toLeavesAlone.mono fewer, h.before, h.lock⟩

section Record

variable {package token : String}

theorem has_eq (h : d.Agree S places t t') (place : places (S ++ [recordName package token]))
    (noLink : ∀ target, t.get? (S ++ [recordName package token]) ≠ some (.link target)) :
    d.store.has t' d.directory package token = d.store.has t d.directory package token := by
  have entry := h.entry _ place
  have noLink' : ∀ target, t'.get? (S ++ [recordName package token]) ≠ some (.link target) := by
    rw [entry]
    exact noLink
  rw [Bool.eq_iff_iff, RecordStore.has_iff h.store noLink', RecordStore.has_iff h.before noLink,
    h.lock, entry]

theorem obstacle?_eq (h : d.Agree S places t t')
    (place : places (S ++ [recordName package token])) (accepts : Bool) :
    d.store.obstacle? t' S package token accepts =
      d.store.obstacle? t S package token accepts := by
  rw [RecordStore.obstacle?, RecordStore.obstacle?, h.lock, h.entry _ place]

end Record

/-- Trees that agree about the record of a package show an item of it the same. -/
theorem showsSame (h : d.Agree S places t t') {b : Behaviour} {package : String}
    (place : ∀ v, isSafePart package = true → b.resolve package = .answer (some v) →
      places (S ++ [recordName package (versionToken v)]))
    (noLinks : ∀ q target, places q → t.get? q ≠ some (.link target)) :
    d.ShowsSame b S package t t' where
  scratch := h.scratch
  known := fun v safe resolved =>
    h.has_eq (place v safe resolved) fun target => noLinks _ target (place v safe resolved)
  obstacle := fun v accepts safe resolved => h.obstacle?_eq (place v safe resolved) accepts

end Desk.Agree

/-- What a checkpoint that is saved leaves alone of a store, it leaves as it is. -/
theorem Desk.LeavesAlone.agree {d : Desk} {S : Place} {places : Place → Prop} {t : FileTree}
    {position : Nat} {accepts : Bool}
    (h : d.LeavesAlone S places t
      (Checkpoint.save t d.directory d.checkpoint position accepts).tree)
    (found : t.find d.directory d.store.folder = .ok (S, .directory)) :
    d.Agree S places t (Checkpoint.save t d.directory d.checkpoint position accepts).tree :=
  ⟨h, found, FileTree.replaceFile_keepsLocks S (FileTree.find_eq_ok_iff.mp found).2⟩

/-- A tree that has come of another one, and shows the same store as far as some places go. -/
structure Desk.Onward (d : Desk) (S : Place) (places : Place → Prop) (t t' : FileTree) : Prop
    extends d.Agree S places t t' where
  evolves : t.Evolves (fun _ => True) t'

namespace Desk.Onward

variable {d : Desk} {S : Place} {places places' : Place → Prop} {t t' t'' : FileTree}

protected theorem refl (found : t.find d.directory d.store.folder = .ok (S, .directory))
    (places : Place → Prop) : d.Onward S places t t :=
  ⟨.refl found places, .refl _ t⟩

protected theorem trans (h : d.Onward S places t t') (h' : d.Onward S places t' t'') :
    d.Onward S places t t'' :=
  ⟨h.toAgree.trans h'.toAgree, h.evolves.trans h'.evolves⟩

protected theorem mono (h : d.Onward S places t t') (fewer : ∀ q, places' q → places q) :
    d.Onward S places' t t' :=
  ⟨h.toAgree.mono fewer, h.evolves⟩

end Desk.Onward

/-! ## What an item leaves behind -/

/-- What becomes of an item that gets a reply. A breakdown is a reason to skip it. -/
def Reply.outcome : Reply Outcome → Outcome
  | .answer outcome => outcome
  | .breakdown message => .skipped (.ofBreakdown message)

theorem Item.attempt_outcome {σ : Type} (s : Services σ) (d : Desk) (package : String)
    (w : Progress σ) : (attempt s d package w).2 = (process s d package w).2.outcome := by
  unfold attempt
  split <;> simp_all [Reply.outcome]

section Turn

variable {σ : Type} {s : Services σ} {d : Desk} {limits : Limits} {packages : List String}
variable {w : Progress σ} {turn : Turn σ}

theorem attempted_tree_of_mem_turns (member : turn ∈ turns s d limits packages w) :
    turn.attempted.tree = (Item.process s d turn.package turn.before).1.tree := by
  rw [eq_takeTurn_of_mem_turns member, takeTurn_attempted_tree, Item.attempt_tree]
  rfl

theorem outcome_of_mem_turns (member : turn ∈ turns s d limits packages w) :
    turn.outcome = (Item.process s d turn.package turn.before).2.outcome := by
  rw [eq_takeTurn_of_mem_turns member, takeTurn_outcome, Item.attempt_outcome]
  rfl

end Turn

/-- Places with the same entry keep it the same if the store gains the same. -/
theorem Gains.get?_eq {S : Place} {t t' after after' : FileTree}
    {gained : Option (String × ByteArray)} {q : Place} (h : Gains S t gained after)
    (h' : Gains S t' gained after') (same : t'.get? q = t.get? q) :
    after'.get? q = after.get? q := by
  cases gained with
  | none =>
      have h : t.Alike after := h
      have h' : t'.Alike after' := h'
      rw [h.get?, h'.get?, same]
  | some gain =>
      have h : (t.set (S ++ [gain.1]) (.file gain.2)).Alike after := h
      have h' : (t'.set (S ++ [gain.1]) (.file gain.2)).Alike after' := h'
      have ne : S ++ [gain.1] ≠ [] := by simp
      rw [h.get?, h'.get?, FileTree.get?_set _ _ _ _ ne, FileTree.get?_set _ _ _ _ ne, same]

section Item

variable {σ : Type} {s : Services σ} {d : Desk} {S : Place} {places : Place → Prop}
variable {package : String} {w : Progress σ} {account : Account}

theorem Exit.of_gained {name : String} {content : ByteArray} (h : Exit s d S package w account)
    (gained : account.gained = some (name, content)) :
    ∃ v archive table, Opens s d package w v archive table ∧
      name = recordName package (versionToken v) ∧
      d.store.obstacle? w.tree S package (versionToken v)
        (s.accepts (s.opening package v archive w.outside).2.2).1 = none := by
  cases h with
  | recorded opens _ noObstacle =>
      obtain ⟨rfl, rfl⟩ := Prod.mk.inj (Option.some.inj gained)
      exact ⟨_, _, _, opens, rfl, noObstacle⟩
  | _ => cases gained

variable (found : w.tree.find d.directory d.store.folder = .ok (S, .directory))
include found

/-- A record is gained where nothing was. -/
theorem Exit.missing_of_gained {name : String} {content : ByteArray}
    (h : Exit s d S package w account) (gained : account.gained = some (name, content))
    (noLink : ∀ target, w.tree.get? (S ++ [name]) ≠ some (.link target)) :
    w.tree.isLocked S = false ∧ w.tree.get? (S ++ [name]) = none := by
  obtain ⟨v, _, _, opens, rfl, noObstacle⟩ := h.of_gained gained
  obtain ⟨_, unlocked, noDirectory⟩ := RecordStore.obstacle?_eq_none_iff.mp noObstacle
  have missing := RecordStore.missing_or_link found unlocked noDirectory opens.unknown
  exact ⟨unlocked, missing.resolve_right fun ⟨target, link⟩ => noLink target link⟩

/-- An item touches nothing but the place of its record. -/
theorem Exit.onward (h : Exit s d S package w account)
    (apart : ∀ name content, account.gained = some (name, content) →
      ¬places (S ++ [name]) ∧ ∀ target, w.tree.get? (S ++ [name]) ≠ some (.link target)) :
    d.Onward S places w.tree (Item.process s d package w).1.tree := by
  refine ⟨?_, Item.process_evolves s d package w⟩
  have gains := (h.ends found).gains
  rcases gained : account.gained with _ | ⟨name, content⟩
  · rw [gained] at gains
    have gains : w.tree.Alike _ := gains
    exact ⟨⟨(gains.find _ _).trans found, gains.isDirectory _ _, fun q _ => gains.get? q⟩, found,
      gains.isLocked S⟩
  · obtain ⟨elsewhere, noLink⟩ := apart name content gained
    obtain ⟨_, missing⟩ := h.missing_of_gained found gained noLink
    have ne := FileTree.ne_nil_of_get?_eq_none missing
    rw [gained] at gains
    have gains : (w.tree.set (S ++ [name]) (.file content)).Alike _ := gains
    refine ⟨⟨?_, ?_, ?_⟩, found, ?_⟩
    · rw [gains.find]
      exact (FileTree.find_set_missing_iff missing).mpr found
    · rw [gains.isDirectory, FileTree.isDirectory_set_missing missing]
    · intro q place
      have other : q ≠ S ++ [name] := by
        rintro rfl
        exact elsewhere place
      rw [gains.get?, FileTree.get?_set_of_ne ne other]
    · rw [gains.isLocked, FileTree.isLocked_set_of_ne ne (by simp)]

/-- After an item has gained a record, its version is known. -/
theorem Exit.has_of_gained {v : String} (h : Exit s d S package w account)
    (gained : account.gained.isSome = true)
    (resolved : (s.resolve package w.outside).1 = .answer (some v))
    (noLink : ∀ target,
      w.tree.get? (S ++ [recordName package (versionToken v)]) ≠ some (.link target)) :
    d.store.has (Item.process s d package w).1.tree d.directory package (versionToken v) =
      true := by
  obtain ⟨⟨name, content⟩, gained⟩ := Option.isSome_iff_exists.mp gained
  obtain ⟨v', _, _, opens, rfl, _⟩ := h.of_gained gained
  obtain rfl : v' = v := Option.some.inj (Reply.answer.inj (opens.resolved.symm.trans resolved))
  obtain ⟨unlocked, missing⟩ := h.missing_of_gained found gained noLink
  have onward : d.Onward S (fun _ => False) w.tree (Item.process s d package w).1.tree := by
    refine h.onward found fun name content gained' => ?_
    rw [gained] at gained'
    obtain ⟨rfl, rfl⟩ := Prod.mk.inj (Option.some.inj gained')
    exact ⟨id, noLink⟩
  have entry : (Item.process s d package w).1.tree.get?
      (S ++ [recordName package (versionToken v')]) = some (.file content) := by
    have gains := (h.ends found).gains
    rw [gained] at gains
    rw [gains.get?, FileTree.get?_set _ _ _ _ (FileTree.ne_nil_of_get?_eq_none missing),
      if_pos rfl]
  exact RecordStore.has_of_get? onward.store (onward.lock.trans unlocked) entry

/-- An item leaves places alone where none of its records can lie. -/
theorem Item.onward (s : Services σ) (package : String)
    (apart : ∀ v, isSafePart package = true →
      (s.resolve package w.outside).1 = .answer (some v) →
      ¬places (S ++ [recordName package (versionToken v)]) ∧
        ∀ target, w.tree.get? (S ++ [recordName package (versionToken v)]) ≠
          some (.link target)) :
    d.Onward S places w.tree (process s d package w).1.tree := by
  obtain ⟨account, exit⟩ := exists_exit s d S package w
  refine exit.onward found fun name content gained => ?_
  obtain ⟨v, _, _, opens, rfl, _⟩ := exit.of_gained gained
  exact apart v opens.safe opens.resolved

end Item

/-! ## Runs that leave the store alone -/

/-- Wherever a run saves its checkpoint, it leaves some places alone, and with them the store and
the directory for work areas. -/
structure RunLeavesAlone {σ : Type} (s : Services σ) (d : Desk) (S : Place)
    (places : Place → Prop) (limits : Limits) (packages : List String) (w : Progress σ) : Prop where
  turn : ∀ turn ∈ turns s d limits packages w,
    d.LeavesAlone S places turn.attempted.tree turn.after.tree
  reset : d.LeavesAlone S places (treeAfter w.tree (turns s d limits packages w))
    (run s d limits packages w).1.tree

section Run

variable {σ : Type} {s : Services σ} {d : Desk} {S : Place} {places places' : Place → Prop}
variable {package : String} {w : Progress σ} {t : FileTree}

theorem RunLeavesAlone.mono {limits : Limits} {packages : List String}
    (h : RunLeavesAlone s d S places limits packages w) (fewer : ∀ q, places' q → places q) :
    RunLeavesAlone s d S places' limits packages w :=
  ⟨fun turn member => (h.turn turn member).mono fewer, h.reset.mono fewer⟩

/-- What goes on with the store up to the end of an item does so up to the end of its turn. -/
theorem RunLeavesAlone.turn_onward {limits : Limits} {packages : List String} {turn : Turn σ}
    (h : RunLeavesAlone s d S places limits packages w)
    (member : turn ∈ turns s d limits packages w)
    (item : d.Onward S places t turn.attempted.tree) : d.Onward S places t turn.after.tree := by
  have alone := h.turn turn member
  rw [eq_takeTurn_of_mem_turns member] at item alone ⊢
  exact ⟨item.toAgree.trans (alone.agree item.store),
    item.evolves.trans (FileTree.replaceFile_evolves fun _ _ => trivial)⟩

theorem run_onward {limits : Limits} {packages : List String}
    (turns : d.Onward S places t (treeAfter w.tree (turns s d limits packages w)))
    (alone : RunLeavesAlone s d S places limits packages w) :
    d.Onward S places t (run s d limits packages w).1.tree := by
  have reset := alone.reset
  rcases run_tree s d limits packages w with tree | ⟨accepted, tree⟩
  · rwa [tree]
  · rw [tree] at reset ⊢
    exact ⟨turns.toAgree.trans (reset.agree turns.store),
      turns.evolves.trans (FileTree.replaceFile_evolves fun _ _ => trivial)⟩

/-- If every turn goes on with the store, then so do turns one after the other: up to each of them,
from each of them on, and altogether. -/
theorem Chain.onward_all {turns : List (Turn σ)} (h : Chain t turns)
    (found : t.find d.directory d.store.folder = .ok (S, .directory))
    (step : ∀ turn ∈ turns, d.Onward S places t turn.before.tree →
      d.Onward S places turn.before.tree turn.after.tree) :
    (∀ turn ∈ turns, d.Onward S places t turn.before.tree ∧
        d.Onward S places turn.after.tree (treeAfter t turns)) ∧
      d.Onward S places t (treeAfter t turns) := by
  induction h with
  | nil => exact ⟨by simp, .refl found places⟩
  | @cons turn rest _ ih =>
      have start := Desk.Onward.refl found places
      have now := step turn List.mem_cons_self start
      obtain ⟨each, all⟩ := ih now.store fun x member onward =>
        step x (List.mem_cons_of_mem _ member) (now.trans onward)
      rw [treeAfter_cons]
      refine ⟨?_, now.trans all⟩
      intro x member
      rcases List.mem_cons.mp member with rfl | member
      · exact ⟨start, all⟩
      · exact ⟨now.trans (each x member).1, (each x member).2⟩

/-- The same for a run, whose items go on with the store. -/
theorem run_onward_all {limits : Limits} {packages : List String}
    (found : w.tree.find d.directory d.store.folder = .ok (S, .directory))
    (alone : RunLeavesAlone s d S places limits packages w)
    (item : ∀ turn ∈ turns s d limits packages w, d.Onward S places w.tree turn.before.tree →
      d.Onward S places turn.before.tree turn.attempted.tree) :
    (∀ turn ∈ turns s d limits packages w, d.Onward S places w.tree turn.before.tree ∧
        d.Onward S places turn.attempted.tree (run s d limits packages w).1.tree) ∧
      d.Onward S places w.tree (run s d limits packages w).1.tree := by
  obtain ⟨each, all⟩ := (turns_chain s d limits packages w).onward_all found
    fun turn member onward => alone.turn_onward member (item turn member onward)
  refine ⟨?_, run_onward all alone⟩
  intro turn member
  obtain ⟨before, after⟩ := each turn member
  have attempted := item turn member before
  have saved := alone.turn_onward member (.refl attempted.store places)
  exact ⟨before, run_onward (saved.trans after) alone⟩

/-- Where no links are and work areas can be made, a run leaves places alone if its checkpoint is
in a directory that is there, and not in one of them. -/
theorem runLeavesAlone_of_noLinks (limits : Limits) (packages : List String)
    (noLinks : w.tree.NoLinks)
    (found : w.tree.find d.directory d.store.folder = .ok (S, .directory))
    (scratch : w.tree.isDirectory d.directory d.temporary = true)
    (apart : ∀ t, w.tree.Evolves (fun _ => True) t →
      (t.makeDirectories d.directory (FileTree.parentOf d.checkpoint)).tree = t ∧
        ∀ q, t.locate d.directory d.checkpoint false = .ok q → ¬places q) :
    RunLeavesAlone s d S places limits packages w := by
  have there : ∀ t, w.tree.Evolves (fun _ => True) t →
      t.isDirectory d.directory d.temporary = true := by
    intro t evolution
    obtain ⟨p, located, entry⟩ := FileTree.isDirectory_eq_true_iff.mp scratch
    have found := evolution.find_directory noLinks (FileTree.find_eq_ok_iff.mpr ⟨located, entry⟩)
    exact FileTree.isDirectory_eq_true_iff.mpr ⟨p, FileTree.find_eq_ok_iff.mp found⟩
  have alone : ∀ t position accepts, w.tree.Evolves (fun _ => True) t →
      d.LeavesAlone S places t
        (Checkpoint.save t d.directory d.checkpoint position accepts).tree := by
    intro t position accepts evolution
    have saved : t.Evolves (fun _ => True)
        (Checkpoint.save t d.directory d.checkpoint position accepts).tree :=
      FileTree.replaceFile_evolves fun _ _ => trivial
    have after := evolution.trans saved
    obtain ⟨beside, elsewhere⟩ := apart t evolution
    refine ⟨after.find_directory noLinks found, (there _ after).trans (there t evolution).symm,
      fun q place => ?_⟩
    rcases FileTree.replaceFile_cases t d.directory d.checkpoint (Checkpoint.content position)
      accepts with ⟨_, _, alike⟩ | ⟨_, _, goal, located, noDirectory, alike⟩
    · rw [beside] at alike
      exact alike.get? q
    · rw [beside] at located noDirectory alike
      have other : q ≠ goal := by
        rintro rfl
        exact elsewhere q located place
      have entry := alike.get? q
      rwa [FileTree.get?_set _ _ _ _ (FileTree.ne_nil_of_get?_ne_directory noDirectory),
        if_neg other] at entry
  have same : ∀ t, w.tree.Evolves (fun _ => True) t → d.LeavesAlone S places t t :=
    fun t evolution => ⟨evolution.find_directory noLinks found, rfl, fun _ _ => rfl⟩
  obtain ⟨before, after⟩ := (turns_chain s d limits packages w).invariant
    (w.tree.Evolves fun _ => True) (.refl _ _) fun turn member evolution => by
      rw [eq_takeTurn_of_mem_turns member]
      exact evolution.trans (takeTurn_evolves s d _ _ _).2
  constructor
  · intro turn member
    have attempted := (before turn member).trans
      (takeTurn_evolves s d turn.package turn.position turn.before).1
    rw [eq_takeTurn_of_mem_turns member]
    exact alone _ _ _ attempted
  · rcases run_tree s d limits packages w with tree | ⟨accepted, tree⟩
    · rw [tree]
      exact same _ after
    · rw [tree]
      exact alone _ _ _ after

end Run

/-! ## Services and a desk to try things with -/

/-- Services that know a version of one package, and have no files of it. -/
def noFiles : Services Unit where
  now o := (0, o)
  resolve package o := (.answer (if package = "a" then some "1.2" else none), o)
  fetch _ _ area o := (.answer [], area, o)
  unpack _ area o := (.answer (.ok ()), area, o)
  accepts o := (true, o)

/-- What they do. -/
def noFilesBehaviour : Behaviour where
  resolve package := .answer (if package = "a" then some "1.2" else none)
  fetch _ _ := .answer []
  unpack _ _ := (.answer (.ok ()), WorkArea.new)

theorem noFiles_follows : noFiles.Follows noFilesBehaviour where
  resolve _ _ := rfl
  fetch _ _ _ := rfl
  unpack _ _ _ _ _ fetched least := by
    obtain rfl := Reply.answer.inj fetched
    cases least
  accepts _ := rfl

theorem isSortable_of_resolve_noFiles {package v : String} {o : Unit}
    (h : (noFiles.resolve package o).1 = .answer (some v)) : isSortable v = true := by
  have some : (if package = "a" then some "1.2" else none) = Option.some v := Reply.answer.inj h
  split at some
  · obtain rfl := Option.some.inj some
    decide
  · cases some

theorem version_tree_noFiles (d : Desk) (package v : String) (w : Progress Unit) :
    (Item.version noFiles d package v w).1.tree = w.tree := by
  unfold Item.version
  dsimp only
  split
  · simp
  · split
    · have nothing : (noFiles.fetch package v WorkArea.new
          (Item.noteUnsortable package v (versionToken v) w).outside).1 = .answer [] := rfl
      obtain ⟨w', tree, _, ends⟩ := Item.fetch_of_nothing (d := d) nothing
      rw [ends, tree, Item.tree_noteUnsortable]
    · simp

theorem attempt_tree_noFiles (d : Desk) (package : String) (w : Progress Unit) :
    (Item.attempt noFiles d package w).1.tree = w.tree := by
  rw [Item.attempt_tree]
  cases safe : isSafePart package with
  | false => rw [Item.process_of_unsafe safe]
  | true =>
      cases resolved : (noFiles.resolve package w.outside).1 with
      | breakdown message => cases resolved
      | answer version =>
          cases version with
          | none =>
              obtain ⟨w', tree, _, ends⟩ := Item.process_of_unresolved (d := d) safe resolved
              rw [ends, tree]
          | some v =>
              obtain ⟨w', tree, _, onward⟩ := Item.process_of_resolved (d := d) safe resolved
              rw [onward, version_tree_noFiles, tree]

/-- Runs with them complete every list from its start on, where checkpoints can be saved. -/
theorem run_noFiles (d : Desk) (packages : List String) {w : Progress Unit}
    (holds : FileTree → Prop) (saved : Nat → FileTree)
    (saves : ∀ t position, holds t →
      Checkpoint.save t d.directory d.checkpoint position true = ⟨saved position, .ok ()⟩)
    (after : ∀ position, holds (saved position)) (first : holds w.tree)
    (start : told d w.tree = 0) :
    ∃ summary, (run noFiles d ⟨packages.length, 1⟩ packages w).2 = .ok summary ∧
      summary.passCompleted = true ∧
      (run noFiles d ⟨packages.length, 1⟩ packages w).1.tree = saved 0 ∧
      ∀ turn ∈ turns noFiles d ⟨packages.length, 1⟩ packages w,
        turn.after.tree = saved (turn.position + 1) := by
  have step : ∀ package position (w : Progress Unit), holds w.tree →
      (takeTurn noFiles d package position w).saved = .ok () ∧
        (takeTurn noFiles d package position w).after.tree = saved (position + 1) := by
    intro package position w now
    have accepted : ∀ o, (noFiles.accepts o).1 = true := fun _ => rfl
    rw [takeTurn_saved, takeTurn_after_tree, attempt_tree_noFiles, accepted, saves _ _ now]
    exact ⟨rfl, rfl⟩
  have onward : ∀ package position (w : Progress Unit), holds w.tree →
      holds (takeTurn noFiles d package position w).after.tree := by
    intro package position w now
    rw [(step package position w now).2]
    exact after _
  obtain ⟨summary, back, completed⟩ :
      ∃ summary, (run noFiles d ⟨packages.length, 1⟩ packages w).2 = .ok summary ∧
        summary.passCompleted = true :=
    run_completes holds start (Nat.le_refl packages.length) (fun _ => Nat.one_pos) first
      (fun package position w now => ⟨(step package position w now).1, onward _ _ _ now⟩)
      fun t o now => congrArg Files.Attempt.result (saves t 0 now)
  obtain ⟨before, last⟩ :=
    (turns_chain noFiles d ⟨packages.length, 1⟩ packages w).invariant holds first
      fun turn member now => by
        rw [eq_takeTurn_of_mem_turns member]
        exact onward _ _ _ now
  refine ⟨summary, back, completed, ?_, ?_⟩
  · obtain ⟨_, _, _, _, ends⟩ := run_ok back
    rcases ends with ⟨_, inside, _⟩ | ⟨_, _, _, _, _, reset⟩
    · rw [completed] at inside
      cases inside
    · exact reset.trans (congrArg Files.Attempt.tree (saves _ 0 last))
  · intro turn member
    rw [eq_takeTurn_of_mem_turns member]
    exact (step _ _ _ (before turn member)).2

/-- A tree with a record of their package in its store, and one more entry. -/
def storeTree (name : String) (e : Entry) : FileTree :=
  ⟨[([name], e), (["db", "a_v000100020000.json"], .file (Text.encode "{}")),
    (["db"], .directory)], []⟩

def IsStoreTree (name : String) (t : FileTree) : Prop :=
  ∃ e, e ≠ .directory ∧ t = storeTree name e

theorem recordName_noFiles : recordName "a" (versionToken "1.2") = "a_v000100020000.json" := by
  cbv

/-- Checkpoints can be saved in the one more entry. -/
theorem run_storeTree (d : Desk) {name : String} (packages : List String) {w : Progress Unit}
    (saves : ∀ e position, e ≠ .directory →
      Checkpoint.save (storeTree name e) d.directory d.checkpoint position true =
        ⟨storeTree name (.file (Checkpoint.content position)), .ok ()⟩)
    (first : IsStoreTree name w.tree) (start : told d w.tree = 0) :
    ∃ summary, (run noFiles d ⟨packages.length, 1⟩ packages w).2 = .ok summary ∧
      summary.passCompleted = true ∧
      (run noFiles d ⟨packages.length, 1⟩ packages w).1.tree =
        storeTree name (.file (Checkpoint.content 0)) ∧
      ∀ turn ∈ turns noFiles d ⟨packages.length, 1⟩ packages w,
        turn.after.tree = storeTree name (.file (Checkpoint.content (turn.position + 1))) := by
  apply run_noFiles d packages (IsStoreTree name)
    (fun position => storeTree name (.file (Checkpoint.content position))) _ _ first start
  · rintro _ position ⟨e, noDirectory, rfl⟩
    exact saves e position noDirectory
  · intro position
    exact ⟨_, by simp, rfl⟩

theorem save_sampleDesk (e : Entry) (position : Nat) (noDirectory : e ≠ .directory) :
    Checkpoint.save (storeTree "at" e) [] "at" position true =
      ⟨storeTree "at" (.file (Checkpoint.content position)), .ok ()⟩ := by
  cases e with
  | directory => exact absurd rfl noDirectory
  | file content => cbv
  | link target => cbv

theorem noLinks_storeTree (name : String) (content : ByteArray) :
    (storeTree name (.file content)).NoLinks :=
  FileTree.noLinks_of_entries (by simp [storeTree])

/-- The checkpoint of the sample desk lies in one place. -/
theorem locate_sampleDesk {t : FileTree} {q : Place} (located : t.locate [] "at" false = .ok q) :
    q = ["at"] := by
  obtain ⟨_, leads⟩ := FileTree.locate_eq_ok_iff.mp located
  have steps : FileTree.pathSteps "at" = ["at"] := by cbv
  rw [steps] at leads
  have name : FileTree.IsName "at" := by simp [FileTree.IsName]
  exact (leads.of_last_name name).1

theorem leavesAlone_storeTree {content : ByteArray} {w : Progress Unit} {places : Place → Prop}
    (tree : w.tree = storeTree "at" (.file content)) (apart : ¬places ["at"]) (limits : Limits)
    (packages : List String) :
    RunLeavesAlone noFiles sampleDesk ["db"] places limits packages w := by
  have noLinks := noLinks_storeTree "at" content
  have found : (storeTree "at" (.file content)).find [] "db" = .ok (["db"], .directory) := by cbv
  have scratch : (storeTree "at" (.file content)).isDirectory [] "/" = true := by cbv
  have bare : FileTree.parentOf "at" = [] := by decide
  rw [← tree] at noLinks found scratch
  apply runLeavesAlone_of_noLinks limits packages noLinks found scratch
  intro t _
  refine ⟨?_, ?_⟩
  · rw [sampleDesk, bare, FileTree.makeDirectories, FileTree.makeDirectoriesAs, if_pos rfl]
  · rintro q located place
    rw [locate_sampleDesk located] at place
    exact apart place

/-- The start of a pass at the sample desk, with a record known. -/
def knownStart : Progress Unit := ⟨storeTree "at" (.file (Checkpoint.content 0)), (), []⟩

/-- A desk whose store is reached through a link in the place of its checkpoint. -/
def movedDesk : Desk := ⟨[], ⟨"k/db"⟩, "k", "/"⟩

/-- The start of a pass at that desk. -/
def linkedStart : Progress Unit := ⟨storeTree "k" (.link "."), (), []⟩

theorem save_movedDesk (e : Entry) (position : Nat) (noDirectory : e ≠ .directory) :
    Checkpoint.save (storeTree "k" e) [] "k" position true =
      ⟨storeTree "k" (.file (Checkpoint.content position)), .ok ()⟩ := by
  cases e with
  | directory => exact absurd rfl noDirectory
  | file content => cbv
  | link target => cbv

/-- At that desk the record is known as long as the link is there. -/
theorem ends_linkedStart {S : Place} {w : Progress Unit} (tree : w.tree = linkedStart.tree) :
    Item.Ends noFiles movedDesk S "a" w
      ⟨[.resolve "a"], .answer (.known (versionToken "1.2")), none⟩ := by
  have found : (storeTree "k" (.link ".")).find [] "k/db" = .ok (["db"], .directory) := by cbv
  have unlocked : (storeTree "k" (.link ".")).isLocked ["db"] = false := by cbv
  have known : movedDesk.store.has linkedStart.tree [] "a" (versionToken "1.2") = true := by
    refine RecordStore.has_of_get? found unlocked (?_ : _ = some (Entry.file (Text.encode "{}")))
    rw [recordName_noFiles]
    cbv
  rw [← tree] at known
  exact Item.ends_of_known (by decide) rfl known

/-- Once a checkpoint is there instead, it is not. -/
theorem ends_cutStore {S : Place} {w : Progress Unit} {content : ByteArray}
    (tree : w.tree = storeTree "k" (.file content)) :
    Item.Ends noFiles movedDesk S "a" w
      ⟨[.resolve "a", .fetch "a" "1.2"], .answer (.skipped .notDownloaded), none⟩ := by
  have unknown : movedDesk.store.has (storeTree "k" (.file content)) [] "a"
      (versionToken "1.2") = false := by
    rw [Bool.eq_false_iff]
    intro known
    obtain ⟨p, _, located, _⟩ := FileTree.isFile_eq_true_iff.mp known
    obtain ⟨_, leads⟩ := FileTree.locate_eq_ok_iff.mp located
    have steps : movedDesk.store.steps = ["k", "db"] := by cbv
    have base : FileTree.pathBase [] movedDesk.store.folder = [] := by cbv
    rw [RecordStore.pathSteps_path, RecordStore.pathBase_path, steps, recordName_noFiles, base]
      at leads
    have walk : (storeTree "k" (.file content)).walk true FileTree.linkLimit []
        ["k", "db", "a_v000100020000.json"] = .error .notDirectory := by cbv
    have walked := FileTree.walk_eq_ok_iff.mpr leads
    rw [List.cons_append, List.cons_append, List.nil_append, walk] at walked
    cases walked
  have scratch : (storeTree "k" (.file content)).isDirectory [] "/" = true := by cbv
  rw [← tree] at unknown scratch
  have seeks : Seeks noFiles movedDesk "a" w "1.2" := ⟨by decide, rfl, unknown, scratch⟩
  exact seeks.ends_of_nothing rfl

end ApiInventory.Batch
