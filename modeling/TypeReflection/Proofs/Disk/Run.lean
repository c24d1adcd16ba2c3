import Mathlib.Logic.Relation
import TypeReflection.Proofs.Disk.Operations

/-!
# Running computations on a memory disk

`MemoryDisk.runOn d x` runs a computation that may fail on the disk `d` and gives its result
with the disk it leaves. Its equations for `pure`, `throw`, binds and lifts let a proof follow a
`do` block one step at a time, and each capability of `MemoryRun` has the equation of what it
does to the disk.

Creating a directory tree only ever creates directories: `DirsAdded d d'` says that `d'` comes
from `d` by successful `createDir` steps. Such steps keep the id counter, keep every file, and
keep the disk's names canonical, so the same holds after `createDirAll`.
-/

set_option autoImplicit false

namespace TypeReflection

namespace MemoryDisk

variable {ε α β : Type}

/-- A computation over a memory disk that may fail, run from the disk `d`: its result and the
disk it leaves. -/
def runOn (d : MemoryDisk) (x : ExceptT ε MemoryRun α) : Except ε α × MemoryDisk :=
  x.run.run d

variable (d : MemoryDisk)

/-- A `pure` computation gives its value and leaves the disk. -/
@[simp] theorem runOn_pure (a : α) : d.runOn (pure a : ExceptT ε MemoryRun α) = (.ok a, d) := rfl

/-- A `throw` computation fails with its error and leaves the disk. -/
@[simp] theorem runOn_throw (e : ε) : d.runOn (throw e : ExceptT ε MemoryRun α) = (.error e, d) :=
  rfl

/-- A bind runs its first computation and, if that succeeds, the rest from the disk it left. -/
theorem runOn_bind (x : ExceptT ε MemoryRun α) (f : α → ExceptT ε MemoryRun β) :
    d.runOn (x >>= f) = match d.runOn x with
      | (.ok a, d') => d'.runOn (f a)
      | (.error e, d') => (.error e, d') := by
  unfold runOn
  rw [ExceptT.run_bind, StateT.run_bind]
  generalize x.run.run d = r
  rcases r with ⟨_ | a, d'⟩ <;> rfl

/-- A bind succeeds exactly when its first part succeeds and the rest succeeds after it. -/
theorem runOn_bind_eq_ok {d : MemoryDisk} {x : ExceptT ε MemoryRun α} {f : α → ExceptT ε MemoryRun β} {b : β}
    {d'' : MemoryDisk} :
    d.runOn (x >>= f) = (.ok b, d'') ↔ ∃ a d', d.runOn x = (.ok a, d') ∧ d'.runOn (f a) = (.ok b, d'') := by
  rw [runOn_bind]
  rcases hx : d.runOn x with ⟨_ | a, d'⟩
  · simp
  · refine ⟨fun h => ⟨a, d', rfl, h⟩, ?_⟩
    rintro ⟨a', d₁, he, h⟩
    cases he
    exact h

/-- A result known to succeed through `toOption`, whose equality is decidable where the
result's is not: this is how results on given disks are evaluated. -/
theorem eq_ok_of_toOption {e : Except ε α} {a : α} (h : e.toOption = some a) : e = .ok a := by
  cases e with
  | error => cases h
  | ok b => rw [Option.some.inj h]

/-- A run whose result is known to succeed, for evaluating runs on given disks. -/
theorem runOn_eq_of_toOption {x : ExceptT ε MemoryRun α} {a : α}
    (h : (d.runOn x).1.toOption = some a) : d.runOn x = (.ok a, (d.runOn x).2) := by
  rw [← eq_ok_of_toOption h]

/-- A computation given by its run on the disk runs as that. -/
theorem runOn_mk (x : MemoryRun (Except ε α)) : d.runOn (ExceptT.mk x) = x.run d := rfl

/-- A lifted step succeeds with its value and the disk it leaves. -/
@[simp] theorem runOn_lift (x : MemoryRun α) :
    d.runOn (liftM x : ExceptT ε MemoryRun α) = (.ok (x.run d).1, (x.run d).2) := rfl

/-! ### The capabilities of a memory disk -/

/-- A bind of disk steps runs the second from the disk the first left. -/
theorem stateRun_bind (x : MemoryRun α) (f : α → MemoryRun β) :
    (x >>= f).run d = (f (x.run d).1).run (x.run d).2 := rfl


/-- Creating a directory changes the disk when it succeeds and leaves it when it fails. -/
theorem run_createDir (p : Path) :
    (MonadDisk.createDir p : MemoryRun _).run d = match d.createDir p with
      | .ok d' => (.ok (), d')
      | .error e => (.error e, d) := rfl

/-- Writing a file changes the disk when it succeeds and leaves it when it fails. -/
theorem run_writeText (p : Path) (c : String) :
    (MonadDisk.writeText p c : MemoryRun _).run d = match d.writeText p c with
      | .ok d' => (.ok (), d')
      | .error e => (.error e, d) := rfl

/-- Canonicalizing a path reads the disk and leaves it. -/
@[simp] theorem run_canonicalize (p : Path) :
    (MonadDisk.canonicalize p : MemoryRun _).run d = (d.canonicalize p, d) := rfl

/-- Reading a path's metadata leaves the disk. -/
@[simp] theorem run_metadata (p : Path) :
    (MonadDisk.metadata p : MemoryRun _).run d = (d.metadata p, d) := rfl

/-- Listing a directory leaves the disk. -/
@[simp] theorem run_readDir (p : Path) :
    (MonadDisk.readDir p : MemoryRun _).run d = (d.readDir p, d) := rfl

/-- Drawing a fresh id gives the id of the counter and counts one more. -/
@[simp] theorem run_freshId :
    (MonadFileIds.freshId : MemoryRun FileId).run d = (idAt d.issued, { d with issued := d.issued + 1 }) :=
  rfl

/-- Reading a file leniently reads its text, decoded, and leaves the disk. -/
theorem run_readLossy (p : Path) :
    (Disk.readLossy p : MemoryRun _).run d =
      ((d.readText p).map fun c => Utf8.decodeLossy c.toUTF8, d) := by
  show (((d.readText p).map String.toUTF8).map Utf8.decodeLossy, d) = _
  cases d.readText p <;> rfl

/-- Asking whether a path exists reads its metadata and leaves the disk. -/
@[simp] theorem run_pathExists (p : Path) :
    (Disk.pathExists p : MemoryRun Bool).run d = (d.metadata p matches .ok _, d) := rfl

/-! ### Steps that only add directories -/

/-- `d'` comes from `d` by successful `createDir` steps. -/
def DirsAdded : MemoryDisk → MemoryDisk → Prop :=
  Relation.ReflTransGen fun d d' => ∃ p, d.createDir p = .ok d'

/-- Running `x` from any disk only adds directories. -/
def OnlyAddsDirs (x : MemoryRun α) : Prop := ∀ d, DirsAdded d (x.run d).2

/-- A `pure` step adds nothing. -/
theorem OnlyAddsDirs.pure (a : α) : OnlyAddsDirs (Pure.pure a : MemoryRun α) :=
  fun _ => .refl

/-- A bind of steps that only add directories only adds directories. -/
theorem OnlyAddsDirs.bind {x : MemoryRun α} {f : α → MemoryRun β} (hx : OnlyAddsDirs x)
    (hf : ∀ a, OnlyAddsDirs (f a)) : OnlyAddsDirs (x >>= f) :=
  fun d => (hx d).trans (hf _ _)

/-- Creating a directory only adds a directory, or nothing when it fails. -/
theorem OnlyAddsDirs.createDir (p : Path) : OnlyAddsDirs (MonadDisk.createDir p : MemoryRun _) := by
  intro d
  rw [run_createDir]
  cases h : d.createDir p with
  | error e => exact .refl
  | ok d' => exact .single ⟨p, h⟩

/-- Reading metadata adds nothing. -/
theorem OnlyAddsDirs.metadata (p : Path) : OnlyAddsDirs (MonadDisk.metadata p : MemoryRun _) :=
  fun _ => .refl

/-- Asking whether a path is a directory adds nothing. -/
theorem OnlyAddsDirs.isDirectory (p : Path) : OnlyAddsDirs (Disk.isDirectory p : MemoryRun Bool) :=
  (OnlyAddsDirs.metadata p).bind fun _ => .pure _

/-- Creating a tree of directories only adds directories, whatever the fuel. -/
theorem OnlyAddsDirs.createDirAllWith (fuel : Nat) (p : Path) :
    OnlyAddsDirs (Disk.createDirAllWith fuel p : MemoryRun _) := by
  induction fuel generalizing p with
  | zero => exact .pure _
  | succ fuel ih =>
    rw [Disk.createDirAllWith]
    split
    · exact .pure _
    refine (OnlyAddsDirs.createDir p).bind fun r => ?_
    -- the outcome of the first attempt decides between stopping, retrying after the parents,
    -- and asking whether the directory is there after all
    split
    · exact .pure _
    · split
      · exact .pure _
      · refine (ih _).bind fun r => ?_
        split
        · exact .pure _
        · refine (OnlyAddsDirs.createDir p).bind fun r => ?_
          split
          · exact .pure _
          · exact (OnlyAddsDirs.isDirectory p).bind fun _ => .pure _
    · exact (OnlyAddsDirs.isDirectory p).bind fun _ => .pure _

/-- Creating a directory tree only adds directories. -/
theorem OnlyAddsDirs.createDirAll (p : Path) : OnlyAddsDirs (Disk.createDirAll p : MemoryRun _) :=
  .createDirAllWith _ p

/-- Creating a directory that is already there changes nothing: the attempt fails, and the path is
found to be a directory. -/
theorem run_createDirAll_of_directory {d : MemoryDisk} {p : Path} (hp : p.isEmpty = false)
    (hdir : d.metadata p = .ok ⟨.directory, 0⟩) :
    (Disk.createDirAll p : MemoryRun _).run d = (.ok (), d) := by
  obtain ⟨names, he⟩ := existing_of_metadata_directory hdir
  obtain ⟨⟨w, hres⟩, hnode⟩ := existing_eq_ok he
  have hcreate : d.createDir p = .error .alreadyExists := by
    simp [createDir, hres, hnode, bind, Except.bind, throw, throwThe, MonadExceptOf.throw]
  have hisdir : (Disk.isDirectory p : MemoryRun Bool).run d = (true, d) := by
    unfold Disk.isDirectory
    rw [stateRun_bind, run_metadata, hdir]
    rfl
  unfold Disk.createDirAll
  rw [Disk.createDirAllWith]
  simp only [hp, Bool.false_eq_true, if_false]
  rw [stateRun_bind, run_createDir, hcreate]
  dsimp only
  rw [stateRun_bind, hisdir]
  rfl

namespace DirsAdded

variable {d} {d' : MemoryDisk}

/-- Adding directories keeps the id counter. -/
theorem issued (h : DirsAdded d d') : d'.issued = d.issued := by
  induction h with
  | refl => rfl
  | tail _ hstep ih =>
    obtain ⟨_, hc⟩ := hstep
    rw [issued_createDir hc, ih]

/-- Adding directories keeps the disk's names canonical. -/
theorem named (h : DirsAdded d d') (hd : d.Named) : d'.Named := by
  induction h with
  | refl => exact hd
  | tail _ hstep ih =>
    obtain ⟨_, hc⟩ := hstep
    exact ih.createDir hc

/-- Every file after the steps was there before them. -/
theorem node?_file (h : DirsAdded d d') {ks : List String} {c : String} {t : Int}
    (hks : d'.node? ks = some (.file c t)) : d.node? ks = some (.file c t) := by
  induction h with
  | refl => exact hks
  | tail _ hstep ih =>
    obtain ⟨_, hc⟩ := hstep
    obtain ⟨names, w, -, hnone, rfl⟩ := createDir_eq_ok hc
    by_cases hn : ks = names
    · subst hn
      rw [node?_put_self _ (fun hnil => by simp [hnil] at hnone)] at hks
      cases hks
    · exact ih (by rwa [node?_put_of_ne _ hn] at hks)

end DirsAdded

end MemoryDisk

end TypeReflection
