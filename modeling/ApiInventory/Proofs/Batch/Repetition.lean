import ApiInventory.Proofs.Batch.Views

/-!
# A package that comes again

Time works for an item only in one way: the records that are known become more and never fewer,
while all else that an item looks at stays. So an item that gets as far as its download has got as
far whenever its package came before, and was skipped then (`Seeks.earlier`). If it could be
recorded now, it would have been recorded then (`Exit.gained_eq_none_of_later`).
-/

namespace ApiInventory.Batch

open Files (FileTree Place)

/-- No places. What leaves these alone leaves at least the store itself where it is, and the
directory for work areas. -/
def Nowhere (_ : Place) : Prop := False

/-! ## How far an item has got -/

/-- A service has work to do when it downloads or unpacks. -/
def Call.isWork : Call → Bool
  | .resolve _ => false
  | .fetch _ _ => true
  | .unpack _ => true

/-- There is no link in the place where the record of a package is expected. -/
def Behaviour.NotLinked (b : Behaviour) (S : Place) (package : String) (t : FileTree) : Prop :=
  ∀ v target, isSafePart package = true → b.resolve package = .answer (some v) →
    t.get? (S ++ [recordName package (versionToken v)]) ≠ some (.link target)

section Onward

variable {b : Behaviour} {d : Desk} {S : Place} {places : Place → Prop} {t t' : FileTree}
variable {package token : String}

theorem Desk.Onward.notLinked (h : d.Onward S places t t') (notLinked : b.NotLinked S package t) :
    b.NotLinked S package t' :=
  fun v target safe resolved link => notLinked v target safe resolved (h.evolves.link_before link)

/-- A record that is known stays known. -/
theorem Desk.Onward.has_mono (h : d.Onward S places t t')
    (noLink : ∀ target, t.get? (S ++ [recordName package token]) ≠ some (.link target))
    (known : d.store.has t d.directory package token = true) :
    d.store.has t' d.directory package token = true := by
  obtain ⟨unlocked, content, entry⟩ := (RecordStore.has_iff h.before noLink).mp known
  obtain ⟨content', entry'⟩ := h.evolves.file entry
  exact RecordStore.has_of_get? h.store (h.lock.trans unlocked) entry'

end Onward

section Exits

variable {σ : Type} {s : Services σ} {d : Desk} {S : Place} {package v : String} {w : Progress σ}
variable {b : Behaviour} {account : Account}

/-- Something is gained where something is recorded. -/
theorem Exit.isRecorded_eq (h : Exit s d S package w account) :
    account.reply.outcome.isRecorded = account.gained.isSome := by
  cases h <;> rfl

/-- Services have work with an item if it gets as far as its download. -/
theorem Exit.works_iff (h : Exit s d S package w account) :
    account.calls.any Call.isWork = true ↔ ∃ v, Seeks s d package w v := by
  constructor
  · intro works
    cases h with
    | fetchBroke seeks | notDownloaded seeks => exact ⟨_, seeks⟩
    | unpackBroke obtains | notUnpacked obtains => exact ⟨_, obtains.toSeeks⟩
    | nothingFound opens | unwritten opens | recorded opens => exact ⟨_, opens.toSeeks⟩
    | unsafeName | resolveBroke | unresolved | known | noScratch => cases works
  · rintro ⟨v, safe, resolved, unknown, scratch⟩
    cases h with
    | unsafeName bad =>
        rw [safe] at bad
        cases bad
    | resolveBroke _ broke =>
        rw [resolved] at broke
        cases broke
    | unresolved _ missing =>
        rw [resolved] at missing
        cases missing
    | known _ resolved' known =>
        obtain rfl := Option.some.inj (Reply.answer.inj (resolved.symm.trans resolved'))
        rw [unknown] at known
        cases known
    | noScratch _ _ _ missing =>
        rw [scratch] at missing
        cases missing
    | _ => rfl

variable (follows : s.FollowsFor b package)
variable (found : w.tree.find d.directory d.store.folder = .ok (S, .directory))
variable (notLinked : b.NotLinked S package w.tree)
include follows found notLinked

/-- Where its record is no link, an item goes on with the store. -/
theorem Item.onward_nowhere : d.Onward S Nowhere w.tree (process s d package w).1.tree := by
  apply Item.onward found s package
  intro v safe resolved
  exact ⟨id, fun target => notLinked v target safe ((follows.resolve _).symm.trans resolved)⟩

/-- What was not skipped is known afterwards. -/
theorem Exit.has_of_not_skipped (h : Exit s d S package w account)
    (done : account.reply.outcome.isSkipped = false) :
    ∃ v, isSafePart package = true ∧ b.resolve package = .answer (some v) ∧
      d.store.has (Item.process s d package w).1.tree d.directory package (versionToken v) =
        true := by
  have exit := h
  cases h with
  | @known v safe resolved known =>
      obtain ⟨w', tree, _, ends⟩ := Item.process_of_known_version safe resolved known
      refine ⟨v, safe, (follows.resolve _).symm.trans resolved, ?_⟩
      rw [ends, tree]
      exact known
  | @recorded v _ _ opens =>
      have answer := (follows.resolve _).symm.trans opens.resolved
      have noLink := fun target => notLinked v target opens.safe answer
      exact ⟨v, opens.safe, answer, exit.has_of_gained found rfl opens.resolved noLink⟩
  | _ => cases done

end Exits

/-! ## Before and after -/

section Later

variable {σ σ' : Type} {s : Services σ} {s' : Services σ'} {b : Behaviour} {d : Desk}
variable {S : Place} {package v : String} {w : Progress σ} {w' : Progress σ'}
variable {account account' : Account}
variable (follows : s.FollowsFor b package)
variable (found : w.tree.find d.directory d.store.folder = .ok (S, .directory))
variable (notLinked : b.NotLinked S package w.tree)
variable (onward : d.Onward S Nowhere (Item.process s d package w).1.tree w'.tree)
include follows found notLinked onward

/-- What was not skipped is known later on. -/
theorem Exit.has_later (h : Exit s d S package w account)
    (done : account.reply.outcome.isSkipped = false) :
    ∃ v, isSafePart package = true ∧ b.resolve package = .answer (some v) ∧
      d.store.has w'.tree d.directory package (versionToken v) = true := by
  obtain ⟨v, safe, resolved, known⟩ := h.has_of_not_skipped follows found notLinked done
  refine ⟨v, safe, resolved, onward.has_mono ?_ known⟩
  intro target
  exact (Item.onward_nowhere follows found notLinked).notLinked notLinked v target safe resolved

variable (follows' : s'.FollowsFor b package)
include follows'

/-- What gets as far as its download has got as far before, and was skipped then. -/
theorem Seeks.earlier (h' : Seeks s' d package w' v) :
    Seeks s d package w v ∧
      ∀ account, Exit s d S package w account → account.reply.outcome.isSkipped = true := by
  have through := (Item.onward_nowhere follows found notLinked).trans onward
  have answer := (follows'.resolve _).symm.trans h'.resolved
  constructor
  · apply h'.transfer follows' follows _ (through.scratch.symm.trans h'.scratch)
    by_contra known
    have later := through.has_mono (fun target => notLinked v target h'.safe answer)
      (Bool.of_not_eq_false known)
    rw [h'.unknown] at later
    cases later
  · intro account h
    by_contra done
    obtain ⟨v', _, answer', known⟩ :=
      h.has_later follows found notLinked onward (Bool.of_not_eq_true done)
    obtain rfl := Option.some.inj (Reply.answer.inj (answer'.symm.trans answer))
    rw [h'.unknown] at known
    cases known

/-- An item gains nothing any more when its package comes again. -/
theorem Exit.gained_eq_none_of_later (h' : Exit s' d S package w' account') :
    account'.gained = none := by
  cases h' with
  | @recorded v archive table opens' some noObstacle' =>
      obtain ⟨seeks, skipped⟩ :=
        opens'.toSeeks.earlier follows found notLinked onward follows'
      have through := (Item.onward_nowhere follows found notLinked).trans onward
      have opens := opens'.transfer follows' follows seeks
      obtain ⟨_, unlocked', noDirectory'⟩ := RecordStore.obstacle?_eq_none_iff.mp noObstacle'
      -- nothing was in the way of the record then, so it was not skipped
      have noObstacle : d.store.obstacle? w.tree S package (versionToken v)
          (s.accepts (s.opening package v archive w.outside).2.2).1 = none := by
        apply RecordStore.obstacle?_eq_none_iff.mpr
        exact ⟨follows.accepts _, through.lock.symm.trans unlocked',
          fun directory => noDirectory' (through.evolves.directory directory)⟩
      cases skipped _ (.recorded opens some noObstacle)
  | _ => rfl

/-- If services have work with a package again, then they had before, and it was skipped. -/
theorem Exit.works_of_later (h : Exit s d S package w account)
    (h' : Exit s' d S package w' account') (works : account'.calls.any Call.isWork = true) :
    account.calls.any Call.isWork = true ∧ account.reply.outcome.isSkipped = true := by
  obtain ⟨v, seeks'⟩ := h'.works_iff.mp works
  obtain ⟨seeks, skipped⟩ := seeks'.earlier follows found notLinked onward follows'
  exact ⟨h.works_iff.mpr ⟨v, seeks⟩, skipped account h⟩

/-- What was not skipped is found out to be known without any work. -/
theorem Exit.known_of_later (h : Exit s d S package w account)
    (done : account.reply.outcome.isSkipped = false) :
    ∃ token, Exit s' d S package w' ⟨[.resolve package], .answer (.known token), none⟩ := by
  obtain ⟨v, safe, answer, known⟩ := h.has_later follows found notLinked onward done
  exact ⟨versionToken v, .known safe ((follows'.resolve _).trans answer) known⟩

end Later

end ApiInventory.Batch
