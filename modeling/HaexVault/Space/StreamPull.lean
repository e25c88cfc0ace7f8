import HaexVault.Space.StreamScope
import HaexVault.Sync.Push
/-!
# Pulling a shared space (`local/sync_loop.rs`, `stores/sync/orchestrator/pull.ts`)

A member pulls a space from its leader and from a backend. A leader's list is applied as it comes; a
backend's once every change is signed by somebody who may write to the space. Neither path asks which
table a change names, or whose row (`pulls_confined`).
-/

namespace HaexVault.Space

open HaexVault.Crdt HaexVault.Sync HaexVault.Lib HaexVault.Lib.Runs

/-! ## The two scopes -/

def backendScope : StreamScope :=
  sharedSpaceBuiltinTables.map fun p => (p.1, match p.2 with | .self => "id" | .spaceIdColumn column => column)

/-! ## From the leader -/

/-- `ColumnChange`, as a backend returns it. -/
structure PulledChange where
  tableName : String
  rowPks : String
  columnName : String
  hlcTimestamp : String
  encryptedValue : Option String := none
  nonce : Option String := none
  epoch : Option Nat := none
  signature : Option String := none
  signedBy : Option String := none
  deriving DecidableEq

structure SignedRecord where
  tableName : String
  rowPks : String
  columnName : String
  encryptedValue : Option String
  hlcTimestamp : String

/-- The `reason` of a `BatchVerificationError`. -/
inductive BatchReason where
  | unsigned
  | invalidSignature
  | unauthorized
  deriving DecidableEq

inductive PullError where
  | batch (reason : BatchReason) (tableName columnName rowPks : String)
  | signerKey
  | unreadableHlc
  | decryption (failed : List (String × String))
  | migrations
  | database (e : DatabaseError)
  | notConfigured
  | server
  deriving DecidableEq

abbrev SyncKey := List UInt8

/-- The backend and its space, the vault's keys, and the code outside the repository. -/
structure PullWorld where
  env : Env
  spaceId : String
  backendId : String
  encryptionKey : SyncKey
  /-- `mls_get_epoch_key` for the space. -/
  mlsGetEpochKey : Nat → Option SyncKey
  decryptCrdtData : String → String → SyncKey → Option JsonValue
  verifyRecordSignature : SignedRecord → String → String → Bool
  publicKeyToDidKey : String → Option String
  /-- `validateUcan` of a token, for `space/write` on the space. -/
  validateUcan : String → Bool
  /-- `apply_synced_extension_migrations` and `ensure_extension_triggers`. -/
  migrate : Database → Option Database
  /-- A migration names only tables of its extension. -/
  migrate_scoped : ∀ db db', migrate db = some db' → ScopedTables backendScope db → ScopedTables backendScope db'

def present (s : Option String) : Option String := s.filter (· ≠ "")

namespace PulledChange

def record (c : PulledChange) : SignedRecord := ⟨c.tableName, c.rowPks, c.columnName, c.encryptedValue, c.hlcTimestamp⟩

def rejected (c : PulledChange) (reason : BatchReason) : PullError := .batch reason c.tableName c.columnName c.rowPks

end PulledChange

section Backend
variable (w : PullWorld)

def authorized (db : Database) (signerDid : String) : Bool :=
  let held := (tableRows db "haex_ucan_tokens").filter fun r =>
    r "space_id" = .text w.spaceId ∧ r "audience_did" = .text signerDid
  held.any (fun r => (asText (r "token")).any w.validateUcan) || held.any fun r => r "issuer_did" = .text signerDid

/-- One turn of `verifyPulledChangesAsync`. -/
def verifyPulledChange (db : Database) (c : PulledChange) : Except PullError Unit :=
  match present c.signature, present c.signedBy with
  | some signature, some signedBy =>
    if !w.verifyRecordSignature c.record signature signedBy then .error (c.rejected .invalidSignature)
    -- without a space, the signature is all there is to check
    else if w.spaceId = "" then .ok ()
    else match w.publicKeyToDidKey signedBy with
      | none => .error .signerKey
      | some signerDid => if authorized w db signerDid then .ok () else .error (c.rejected .unauthorized)
  | _, _ => .error (c.rejected .unsigned)

/-- `verifyPulledChangesAsync`: the first change that does not pass rejects the batch. -/
def verifyPulledChanges (db : Database) (changes : List PulledChange) : Except PullError Unit :=
  changes.forM (verifyPulledChange w db)

/-- The change with its value; one that carries none stands for null. -/
def decryptChange (c : PulledChange) : Option RemoteColumnChange :=
  let decryptedValue := match present c.encryptedValue, present c.nonce with
    | some encryptedValue, some nonce =>
      let key := match c.epoch with
        | none => some w.encryptionKey
        | some epoch => w.mlsGetEpochKey epoch
      key.bind (w.decryptCrdtData encryptedValue nonce)
    | _, _ => some .null
  decryptedValue.map fun value => ⟨c.tableName, c.rowPks, c.columnName, c.hlcTimestamp, value⟩

/-- What `applyRemoteChangesInTransactionAsync` hands to the transaction: the values and the newest HLC. -/
def decryptChanges (changes : List PulledChange) : Except PullError (List RemoteColumnChange × String) :=
  match maxHlc "" (changes.map (·.hlcTimestamp)), changes.mapM (decryptChange w) with
  | none, _ => .error .unreadableHlc
  | some _, none =>
    .error (.decryption ((changes.filter fun c => (decryptChange w c).isNone).map fun c => (c.tableName, c.columnName)))
  | some max, some decrypted => .ok (decrypted, max)

/-- `apply_remote_changes_in_transaction`, for what was decrypted. -/
def applyDecrypted (hash : Hashing) (db : Database) (d : List RemoteColumnChange × String) : Except DatabaseError Database :=
  applyRemoteChangesToDb w.env hash db d.1 (some (w.backendId, d.2))

inductive BackendStep where
  | verify (changes : List PulledChange)
  | apply (hash : Hashing) (changes : List PulledChange)
  | migrate
  | clearPending (column : String × String)
  /-- The server does not answer. -/
  | unanswered

/-- The list of a step is decrypted and goes to a transaction; no list, no transaction. -/
def BackendStep.decrypted : BackendStep → Option (Hashing × (List RemoteColumnChange × String))
  | .apply hash changes => if changes = [] then none else (decryptChanges w changes).toOption.map fun d => (hash, d)
  | _ => none

def BackendStep.exec (db : Database) : BackendStep → Except PullError Database
  | .verify changes => (verifyPulledChanges w db changes).map fun _ => db
  | .apply hash changes =>
    if changes = [] then .ok db
    else decryptChanges w changes >>= fun d => (applyDecrypted w hash db d).mapError .database
  | .migrate => (w.migrate db).elim (.error .migrations) .ok
  | .clearPending column => .ok { db with pendingColumns := db.pendingColumns.filter (· ≠ column) }
  | .unanswered => .error .server

structure PullRun where
  db : Database
  failed : Option PullError := none

def PullRun.step (s : PullRun) (step : BackendStep) : PullRun :=
  match s.failed with
  | some _ => s
  | none => match step.exec w s.db with
    | .error e => { s with failed := some e }
    | .ok db => { s with db }

end Backend

/-! ## What a pull writes -/

def StepMeets (w : PullWorld) (s : PullRun) (step : BackendStep) : Prop :=
  s.failed = none → ∀ hash d db', step.decrypted w = some (hash, d) → applyDecrypted w hash s.db d = .ok db' →
    ListMeets w.env hash backendScope w.spaceId s.db d.1

def PlainStep (w : PullWorld) (s : PullRun) (step : BackendStep) : Prop :=
  s.failed = none → ∀ hash d, step.decrypted w = some (hash, d) → PlainList w.env backendScope hash s.db d.1

def StepConfined (w : PullWorld) (s : PullRun) (step : BackendStep) : Prop :=
  s.failed = none → ∀ hash d db', step.decrypted w = some (hash, d) → applyDecrypted w hash s.db d = .ok db' →
    ListConfined w.env hash backendScope w.spaceId s.db d.1 ∧ StreamConfined backendScope w.spaceId s.db db'

section Confinement
variable {env : Env} {hash : Hashing} {w : PullWorld} {scope : StreamScope} {spaceId : String} {db db' : Database}
  {changes : List RemoteColumnChange} {info : Option (String × String)}

theorem applied_iff (hs : ScopedTables scope db) (h : applyRemoteChangesToDb env hash db changes info = .ok db') :
    ListMeets env hash scope spaceId db changes ↔
      ListConfined env hash scope spaceId db changes ∧ StreamConfined scope spaceId db db' := by
  rw [list_iff hs h]
  exact ⟨fun hconf => ⟨hconf, apply_confined h hconf⟩, fun hconf => hconf.1⟩

theorem step_iff {s : PullRun} (step : BackendStep) (hs : ScopedTables backendScope s.db) :
    StepMeets w s step ↔ StepConfined w s step := by
  constructor
  · intro h hok hash d db' hd happly
    exact (applied_iff hs happly).1 (h hok hash d db' hd happly)
  · intro h hok hash d db' hd happly
    exact (applied_iff hs happly).2 (h hok hash d db' hd happly)

end Confinement

theorem StepMeets.of_none {w : PullWorld} {s : PullRun} {step : BackendStep} (h : step.decrypted w = none) :
    StepMeets w s step := by
  intro _ hash d db' hd
  rw [h] at hd
  cases hd

theorem PlainStep.of_none {w : PullWorld} {s : PullRun} {step : BackendStep} (h : step.decrypted w = none) :
    PlainStep w s step := by
  intro _ hash d hd
  rw [h] at hd
  cases hd

end HaexVault.Space
