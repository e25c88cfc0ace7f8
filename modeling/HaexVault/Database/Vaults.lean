import HaexVault.Lib.Calls
import HaexVault.Lib.Disk
import HaexVault.PeerStorage.Handlers
/-!
# Opening and closing vaults (`database/mod.rs`, `database/vault_lock.rs`)

A process has one vault open: its connection is in `state.db`, the lock on the vault's lock file in
`state.vault_lock`. Each command is a list of steps, a mutex section or a file operation each; the
steps of all commands of all processes interleave, and every one that can fail may fail.
-/

namespace HaexVault.Database

open Lib Lib.FileTree

/-! ## The lock of a vault -/

structure VaultLock where
  handle : Nat
  file : Nat
  vaultPath : Loc
  deriving DecidableEq

def lockPathFor (vaultPath : Loc) : Loc := vaultPath.dropLast ++ [vaultPath.getLast?.getD "" ++ ".lock"]

structure Answer where
  /-- The step fails. -/
  fails : Bool := false
  /-- While the lock is compared with a path: the path itself, or its directory, cannot be resolved. -/
  noVault : Bool := false
  noParent : Bool := false

/-- The part of `normalize_vault_path` for a file that does not exist. -/
def normalizeParent (t : FileTree) (path : List Comp) : Option Loc :=
  match parent path, fileName path with
  | some dir, some n => match t.canonicalize dir with
    | .ok loc => some (loc ++ [n])
    | .error _ => none
  | _, _ => none

def normalizeVaultPath (t : FileTree) (path : List Comp) (a : Answer) : Option Loc :=
  match t.canonicalize path, a.noVault with
  | .ok loc, false => some loc
  | _, _ => if a.noParent then none else normalizeParent t path

def VaultLock.matches (lock : VaultLock) (t : FileTree) (path : List Comp) (a : Answer) : Bool :=
  normalizeVaultPath t path a = some lock.vaultPath

/-! ## The state -/

structure Conn where
  id : Nat
  file : Nat
  deriving DecidableEq

structure Content where
  schema : Bool := false
  triggers : Bool := false
  core : Bool := false
  identity : Bool := false
  deriving DecidableEq

/-- What `AppState` has of the open vault; `hlc` and `criticalSink` by the database file that they belong to. -/
structure AppState where
  vaultLock : Option VaultLock := none
  db : Option Conn := none
  hlc : Option Nat := none
  criticalSink : Option Nat := none
  deriving DecidableEq

structure World where
  disk : Disk
  content : Nat → Content
  /-- The handle that holds a lock file. -/
  locked : Nat → Option Nat := fun _ => none
  handles : Nat := 0
  conns : Nat := 0
  apps : Nat → AppState := fun _ => {}

namespace World

variable (w : World)

def setApp (p : Nat) (f : AppState → AppState) : World := { w with apps := Function.update w.apps p (f (w.apps p)) }

def acquire (file : Nat) : World :=
  { w with locked := Function.update w.locked file (some w.handles), handles := w.handles + 1 }

/-- A `VaultLock` is dropped. -/
def release (lock : VaultLock) : World :=
  if w.locked lock.file = some lock.handle then { w with locked := Function.update w.locked lock.file none } else w

def setContent (f : Nat) (g : Content → Content) : World :=
  { w with content := Function.update w.content f (g (w.content f)) }

end World

/-! ## Commands -/

inductive Command where
  | create
  | opens
  | close
  deriving DecidableEq

inductive Step where
  | makeDirectory | checkAbsent | readLock | readDb
  | checkMounted | checkPresent
  | canonicalize | canonicalizeParent | makeLockDirectory | openLockFile | tryLock | storeLock
  | createFile | setKey | queryCipher | removeFile | initFile
  | cloneHlc | cloneContext | openDb | ensureTriggers | initHlc | storeDb
  | migrate | openSink | storeSink | initSession | seedCore | ensureIdentity
  | takeSink | takeDb | resetHlc | resetContext | releaseLock
  deriving DecidableEq

/-- `acquire_vault_lock_or_error`. -/
def acquireVaultLock : List Step := [.canonicalize, .canonicalizeParent, .makeLockDirectory, .openLockFile, .tryLock, .storeLock]

/-- `create_encrypted_database_inner`. -/
def createInner : List Step :=
  [.createFile, .setKey, .queryCipher, .removeFile, .initFile, .cloneHlc, .cloneContext, .openDb, .storeDb, .migrate, .openSink,
    .storeSink, .initSession, .seedCore, .ensureIdentity]

/-- `initialize_session` and the rest of `open_encrypted_database`. -/
def openInner : List Step :=
  [.cloneHlc, .cloneContext, .openDb, .ensureTriggers, .initHlc, .storeDb, .migrate, .openSink, .storeSink, .ensureIdentity]

def closeDatabase : List Step := [.takeSink, .takeDb, .resetHlc, .resetContext, .releaseLock]

def Command.checks : Command → List Step
  | .create => [.makeDirectory, .checkAbsent, .readLock, .readDb] ++ acquireVaultLock
  | .opens => [.checkMounted, .checkPresent] ++ acquireVaultLock
  | .close => []

def Command.inner : Command → List Step
  | .create => createInner
  | .opens => openInner
  | .close => closeDatabase

inductive Phase where
  | checking
  /-- From the stored lock on. -/
  | mounting
  /-- `close_database` after an error. -/
  | tearing
  | closing
  | returned (ok : Bool)
  deriving DecidableEq

structure Call where
  proc : Nat
  command : Command
  path : List Comp
  phase : Phase
  todo : List Step
  /-- Whether `reject_if_vault_already_mounted` has seen a lock. -/
  existing : Bool := false
  /-- The normalised path. -/
  vault : Option Loc := none
  lockFile : Option Nat := none
  lock : Option VaultLock := none
  cipher : Bool := true
  /-- The connection it has opened. -/
  conn : Option Conn := none
  sink : Option Nat := none

inductive Verdict where
  | on
  | err
  | ok

namespace Step

variable (w : World) (c : Call) (a : Answer)

def orErr {α : Type} (k : α → World × Call × Verdict) : Option α → World × Call × Verdict
  | some x => k x
  | none => (w, c, .err)

/-- What a step does to the world and to the call's own variables. -/
def run : Step → World × Call × Verdict
  | .makeDirectory =>
    if a.fails then (w, c, .err)
    else ({ w with disk := (w.disk.makeParent c.path).1 }, c, if (w.disk.makeParent c.path).2 then .on else .err)
  | .checkAbsent => (w, c, if !a.fails && w.disk.tree.has c.path then .err else .on)
  | .readLock => if a.fails then (w, c, .err) else (w, { c with existing := (w.apps c.proc).vaultLock.isSome }, .on)
  | .readDb => (w, c, if a.fails || c.existing || (w.apps c.proc).db.isSome then .err else .on)
  | .checkMounted =>
    if a.fails then (w, c, .err)
    else match (w.apps c.proc).vaultLock with
      | none => (w, c, .on)
      | some lock => (w, c, if lock.matches w.disk.tree c.path a then .ok else .err)
  | .checkPresent => (w, c, if !a.fails && w.disk.tree.has c.path then .on else .err)
  | .canonicalize => (w, { c with vault := if a.fails then none else (w.disk.tree.canonicalize c.path).toOption }, .on)
  | .canonicalizeParent =>
    if c.vault.isSome then (w, c, .on)
    else if a.fails then (w, c, .err)
    else orErr w c (fun loc => (w, { c with vault := some loc }, .on)) (normalizeParent w.disk.tree c.path)
  | .makeLockDirectory => orErr w c (fun vault =>
      if a.fails then (w, c, .err)
      else
        let made := w.disk.makeParent ((lockPathFor vault).map .name)
        ({ w with disk := made.1 }, c, if made.2 then .on else .err)) c.vault
  | .openLockFile => orErr w c (fun vault =>
      if a.fails then (w, c, .err)
      else match w.disk.create ((lockPathFor vault).map .name) with
        | .error _ => (w, c, .err)
        | .ok (disk, loc) => ({ w with disk }, { c with lockFile := disk.file loc }, .on)) c.vault
  | .tryLock => match c.vault, c.lockFile with
    | some vaultPath, some file =>
      if a.fails ∨ w.locked file ≠ none then (w, c, .err)
      else (w.acquire file, { c with lock := some ⟨w.handles, file, vaultPath⟩ }, .on)
    | _, _ => (w, c, .err)
  | .storeLock => orErr w c (fun lock =>
      if a.fails then (w.release lock, { c with lock := none }, .err)
      else
        let freed := match (w.apps c.proc).vaultLock with
          | some old => w.release old
          | none => w
        (freed.setApp c.proc fun app => { app with vaultLock := some lock }, { c with lock := none, phase := .mounting }, .on)) c.lock
  | .createFile =>
    if a.fails then (w, c, .err)
    else match w.disk.create c.path with
      | .error _ => (w, c, .err)
      | .ok (disk, _) => ({ w with disk }, c, .on)
  | .queryCipher => (w, { c with cipher := !a.fails }, .on)
  | .removeFile =>
    if c.cipher then (w, c, .on)
    else (if a.fails then w else { w with disk := w.disk.remove c.path }, c, .err)
  | .setKey | .initFile | .cloneHlc | .cloneContext | .resetContext => (w, c, if a.fails then .err else .on)
  | .openDb =>
    if a.fails then (w, c, .err)
    else match w.disk.openFile c.path with
      | .error _ => (w, c, .err)
      | .ok loc => ({ w with conns := w.conns + 1 }, { c with conn := some ⟨w.conns, w.disk.inode loc⟩ }, .on)
  | .ensureTriggers => orErr w c (fun k =>
      if a.fails then (w, c, .err) else (w.setContent k.file fun x => { x with triggers := true }, c, .on)) c.conn
  | .initHlc => orErr w c (fun k =>
      if a.fails then (w, c, .err) else (w.setApp c.proc fun app => { app with hlc := some k.file }, c, .on)) c.conn
  | .storeDb => if a.fails then (w, c, .err) else (w.setApp c.proc fun app => { app with db := c.conn }, c, .on)
  | .migrate => orErr w c (fun k =>
      if a.fails then (w, c, .err) else (w.setContent k.file fun x => { x with schema := true }, c, .on)) (w.apps c.proc).db
  | .openSink =>
    if a.fails then (w, c, .err)
    else match w.disk.create c.path with
      | .error _ => (w, c, .err)
      | .ok (disk, loc) => ({ w with disk }, { c with sink := disk.file loc }, .on)
  | .storeSink =>
    if a.fails then (w, c, .err) else (w.setApp c.proc fun app => { app with criticalSink := c.sink }, c, .on)
  | .initSession => orErr w c (fun k =>
      if a.fails then (w, c, .err)
      else ((w.setContent k.file fun x => { x with triggers := true }).setApp c.proc fun app => { app with hlc := some k.file },
        c, .on)) (w.apps c.proc).db
  | .seedCore => orErr w c (fun k =>
      if a.fails then (w, c, .err) else (w.setContent k.file fun x => { x with core := true }, c, .on)) (w.apps c.proc).db
  | .ensureIdentity => orErr w c (fun k =>
      if a.fails then (w, c, .err) else (w.setContent k.file fun x => { x with identity := true }, c, .on)) (w.apps c.proc).db
  | .takeSink => (w.setApp c.proc fun app => { app with criticalSink := none }, c, .on)
  | .takeDb => if a.fails then (w, c, .err) else (w.setApp c.proc fun app => { app with db := none }, c, .on)
  | .resetHlc => if a.fails then (w, c, .err) else (w.setApp c.proc fun app => { app with hlc := none }, c, .on)
  | .releaseLock =>
    if a.fails then (w, c, .on)
    else match (w.apps c.proc).vaultLock with
      | none => (w, c, .on)
      | some lock => ((w.release lock).setApp c.proc fun app => { app with vaultLock := none }, c, .on)

end Step

/-! ## Calls -/

/-- The last error unwinds through `close_database` once the lock is stored. -/
def Call.fail (c : Call) : Call :=
  if c.phase = .mounting then { c with phase := .tearing, todo := closeDatabase } else { c with phase := .returned false }

def Call.goOn (c : Call) (rest : List Step) : Call :=
  { c with todo := rest, phase := if rest = [] then .returned (c.phase ≠ .tearing) else c.phase }

def settle (rest : List Step) : World × Call × Verdict → World × Call
  | (w, c, .on) => (w, c.goOn rest)
  | (w, c, .err) => (w, c.fail)
  | (w, c, .ok) => (w, { c with phase := .returned true })

def advance (w : World) (c : Call) (a : Answer) : World × Call :=
  match c.phase, c.todo with
  | .returned _, _ | _, [] => (w, c)
  | _, s :: rest => settle rest (s.run w c a)

def getVaultPath (vaults : List Comp) (vaultName : String) : List Comp :=
  let fileName := if ".db".toList <:+ vaultName.toList then vaultName else vaultName ++ ".db"
  vaults ++ (PeerStorage.components fileName).map fun n => if n = ".." then .up else .name n

inductive Request where
  | create (proc : Nat) (vaults : List Comp) (vaultName : String)
  | opens (proc : Nat) (vaultPath : List Comp)
  | close (proc : Nat)

def Request.start : Request → Call
  | .create proc vaults vaultName =>
    ⟨proc, .create, getVaultPath vaults vaultName, .checking, Command.create.checks ++ createInner, false, none, none, none, true, none,
      none⟩
  | .opens proc vaultPath =>
    ⟨proc, .opens, vaultPath, .checking, Command.opens.checks ++ openInner, false, none, none, none, true, none, none⟩
  | .close proc => ⟨proc, .close, [], .closing, closeDatabase, false, none, none, none, true, none, none⟩

def machine : Calls.Machine World Request Call Answer Empty where
  start := Request.start
  advance := advance
  outside w _ := w

abbrev Sys := Calls.Sys World Call

abbrev Event := Calls.Event Request Answer Empty

def Sys.boot (disk : Disk) (content : Nat → Content) : Sys := { shared := { disk, content } }

end HaexVault.Database
