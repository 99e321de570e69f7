import ApiInventory.Batch.Item

/-!
# Calls to services

Items know of what is outside only what services answer. So if services answer alike in two
outsides, the one seen through the other (`Services.Mirrors`), then items do the same in both
(`Item.process_seen`).

In particular services can be made to keep an account of the calls that items make to them. Items do
not notice (`Item.process_logged`), so that `Item.calls` tells what an item asks of any services, in
which order and with which arguments.
-/

namespace ApiInventory.Batch

variable {σ τ : Type}

/-! ## Outsides seen through others -/

/-- Services in one outside answer as others do in another, through which the one is seen. The
clock is left out, since items do not look at it. -/
structure Services.Mirrors (see : τ → σ) (t : Services τ) (s : Services σ) : Prop where
  resolve : ∀ package o, s.resolve package (see o) = Prod.map id see (t.resolve package o)
  fetch : ∀ package version area o, s.fetch package version area (see o) =
    Prod.map id (Prod.map id see) (t.fetch package version area o)
  unpack : ∀ archive area o, s.unpack archive area (see o) =
    Prod.map id (Prod.map id see) (t.unpack archive area o)
  accepts : ∀ o, s.accepts (see o) = Prod.map id see (t.accepts o)

/-- How things stand in an outside that is seen through another. -/
def Progress.seen (see : τ → σ) (w : Progress τ) : Progress σ := ⟨w.tree, see w.outside, w.events⟩

namespace Item

variable {see : τ → σ} {t : Services τ} {s : Services σ} (mirrors : t.Mirrors see s)
variable (d : Desk) (package token : String) (w : Progress τ)

theorem noteUnsortable_seen (see : τ → σ) (version : String) :
    noteUnsortable package version token (w.seen see) =
      (noteUnsortable package version token w).seen see := by
  unfold noteUnsortable
  split <;> rfl

include mirrors

theorem record_seen (table : SymbolTable) :
    record s d package token table (w.seen see) =
      Prod.map (Progress.seen see) id (record t d package token table w) := by
  unfold record
  split
  · rfl
  · rcases e : t.accepts w.outside with ⟨accepted, o⟩
    have e' : s.accepts (w.seen see).outside = (accepted, see o) := by
      have answers := mirrors.accepts w.outside
      rwa [e] at answers
    have tree : (w.seen see).tree = w.tree := rfl
    simp only [e', tree]
    cases (d.store.write w.tree d.directory package token table accepted).result <;> rfl

theorem unpack_seen (archive : String) (area : Files.FileTree) :
    unpack s d package token archive area (w.seen see) =
      Prod.map (Progress.seen see) id (unpack t d package token archive area w) := by
  rcases e : t.unpack archive area w.outside with ⟨reply, left, o⟩
  have e' : s.unpack archive area (w.seen see).outside = (reply, left, see o) := by
    have answers := mirrors.unpack archive area w.outside
    rwa [e] at answers
  simp only [unpack, Progress.outside_note, e, e']
  match reply with
  | .breakdown message => rfl
  | .answer (.error failure) => rfl
  | .answer (.ok ()) =>
      dsimp only
      generalize (Source.extractDirectory left [] WorkArea.unpacked).1 = table
      have recorded := record_seen mirrors d package token
        { w.note (.unpacking package archive) with outside := o } table
      exact congrArg (Prod.map id Reply.answer) recorded

theorem fetch_seen (version : String) :
    fetch s d package version token (w.seen see) =
      Prod.map (Progress.seen see) id (fetch t d package version token w) := by
  rcases e : t.fetch package version WorkArea.new w.outside with ⟨reply, area, o⟩
  have e' : s.fetch package version WorkArea.new (w.seen see).outside = (reply, area, see o) := by
    have answers := mirrors.fetch package version WorkArea.new w.outside
    rwa [e] at answers
  simp only [fetch, Progress.outside_note, e, e']
  cases reply with
  | breakdown message => rfl
  | answer files =>
      cases least : leastPath? files with
      | none =>
          simp only [least]
          rfl
      | some archive =>
          simp only [least]
          exact unpack_seen mirrors d package token
            { w.note (.fetching package version) with outside := o } archive area

theorem version_seen (v : String) :
    version s d package v (w.seen see) =
      Prod.map (Progress.seen see) id (version t d package v w) := by
  have fetched := fetch_seen mirrors d package (versionToken v)
    (noteUnsortable package v (versionToken v) w) v
  have tree : ((noteUnsortable package v (versionToken v) w).seen see).tree =
      (noteUnsortable package v (versionToken v) w).tree := rfl
  unfold version
  dsimp only
  rw [noteUnsortable_seen, tree]
  split
  · rfl
  · split
    · exact fetched
    · rfl

/-- An item does the same in an outside that is seen through another. -/
theorem process_seen :
    process s d package (w.seen see) =
      Prod.map (Progress.seen see) id (process t d package w) := by
  rcases e : t.resolve package w.outside with ⟨reply, o⟩
  have e' : s.resolve package (w.seen see).outside = (reply, see o) := by
    have answers := mirrors.resolve package w.outside
    rwa [e] at answers
  simp only [process, Progress.outside_note, e, e']
  split
  · rcases reply with (_ | v) | message
    · rfl
    · exact version_seen mirrors d package { w.note (.resolving package) with outside := o } v
    · rfl
  · rfl

theorem attempt_seen :
    attempt s d package (w.seen see) =
      Prod.map (Progress.seen see) id (attempt t d package w) := by
  unfold attempt
  rw [process_seen mirrors]
  rcases process t d package w with ⟨w', outcome | message⟩ <;> rfl

end Item

/-! ## An account of calls -/

/-- A service is asked on behalf of an item. -/
inductive Call where
  | resolve (package : String)
  | fetch (package version : String)
  | unpack (archive : String)
deriving DecidableEq, Repr

/-- The same services, which note each call behind the ones before. -/
def Services.logged (s : Services σ) : Services (σ × List Call) where
  now o := ((s.now o.1).1, (s.now o.1).2, o.2)
  resolve package o := ((s.resolve package o.1).1, (s.resolve package o.1).2,
    o.2 ++ [.resolve package])
  fetch package version area o := ((s.fetch package version area o.1).1,
    (s.fetch package version area o.1).2.1, (s.fetch package version area o.1).2.2,
    o.2 ++ [.fetch package version])
  unpack archive area o := ((s.unpack archive area o.1).1, (s.unpack archive area o.1).2.1,
    (s.unpack archive area o.1).2.2, o.2 ++ [.unpack archive])
  accepts o := ((s.accepts o.1).1, (s.accepts o.1).2, o.2)

theorem Services.mirrors_logged (s : Services σ) : s.logged.Mirrors Prod.fst s :=
  ⟨fun _ _ => rfl, fun _ _ _ _ => rfl, fun _ _ _ => rfl, fun _ => rfl⟩

namespace Progress

/-- How things stand when the account of calls is opened. -/
def logging (w : Progress σ) : Progress (σ × List Call) := ⟨w.tree, (w.outside, []), w.events⟩

def forget (w : Progress (σ × List Call)) : Progress σ := ⟨w.tree, w.outside.1, w.events⟩

end Progress

namespace Item

variable (s : Services σ) (d : Desk) (package : String)

/-- The calls that an item makes. -/
def calls (w : Progress σ) : List Call := (process s.logged d package w.logging).1.outside.2

/-- An item does not notice that its calls are noted. -/
theorem process_logged (w : Progress (σ × List Call)) :
    Prod.map Progress.forget id (process s.logged d package w) =
      process s d package w.forget :=
  (process_seen s.mirrors_logged d package w).symm

end Item

end ApiInventory.Batch
