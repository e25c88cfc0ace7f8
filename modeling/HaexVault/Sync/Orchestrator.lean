import HaexVault.Lib.Runs
import HaexVault.Sync.Push
/-!
# Local writes, pulls and pushes side by side (`stores/sync/orchestrator`)

One device and one backend. A push is many steps, and local writes can commit between any two; the
mutex keeps pushes and pulls apart. The push cursor stands in the row of `haex_sync_backends`, which
the pull transaction writes, and in the copy the store has loaded, which the scans use.
-/

namespace HaexVault.Sync

open HaexVault.Crdt (Env Hashing Database Table Row SqlValue ColumnHlcs RemoteColumnChange DatabaseError localInsert
  localUpdate localDelete stampUpdate applyRemoteChangesToDb deletedRowsTable)
open HaexVault.Lib.Runs

structure Platform where
  vaultId : String
  env : Env
  /-- `JSON.parse` of a `haex_column_hlcs` text that is no object of HLC texts. -/
  parseJson : String → Option ColumnHlcs
  /-- SQLite's `json_object`. -/
  jsonObject : List (String × SqlValue) → String

inductive LocalWrite where
  | insert (pairs : List (String × SqlValue))
  | update (p : Row → Bool) (sets : Row → List (String × SqlValue))
  | delete (p : Row → Bool) (uuid : Row → String)

def LocalWrite.exec (pf : Platform) (db : Database) (tableName hlc : String) : LocalWrite → Except DatabaseError Database
  | .insert pairs => localInsert db tableName pairs hlc
  | .update p sets => localUpdate db tableName p sets hlc
  | .delete p uuid => localDelete pf.jsonObject uuid db tableName p hlc

/-- The table whose dirty entry the triggers of the statement upsert: an update counts
only if a tracked column changes, and a delete marks the delete log. -/
def LocalWrite.dirties (db : Database) (tableName hlc : String) (w : LocalWrite) : Option String :=
  match db.tables tableName with
  | none => none
  | some t =>
    if db.triggersFire t then
      match w with
      | .insert _ => some tableName
      | .update p sets =>
        if t.rows.any fun r => p r && t.colsToTrack.any fun c => stampUpdate sets hlc r c ≠ r c then some tableName
        else none
      | .delete p _ => if t.rows.any p then some deletedRowsTable else none
    else none

inductive Phase where
  | idle
  | scanning (ctx : ScanContext) (backend : Backend) (extensionTables : List String) (dirtyTables todo : List DirtyTable)
      (allChanges : List ColumnChange)
  | sending (dirtyTables : List DirtyTable) (todo : List (List ColumnChange))
  | clearing (dirtyTables todo : List DirtyTable)

/-- The device. The last three fields only record what happened: the local changes
that the tables still hold, the changes the server took, and the tables written since
they were last scanned. -/
structure Session where
  db : Database
  dirtyTables : List DirtyTable
  backend : Backend
  phase : Phase := .idle
  pending : List CellChange := []
  accepted : List CellChange := []
  unscanned : List String := []

namespace Session

def storedCursor (s : Session) : Option String := (s.db.lastPushHlcTimestamp s.backend.id).join

def loadedCursor (s : Session) : Option String := s.backend.lastPushHlcTimestamp

/-- `updateBackendAsync` of the cursor: the row if there is one, and then its copy. -/
def setCursor (s : Session) (hlc : String) : Session :=
  match s.db.lastPushHlcTimestamp s.backend.id with
  | none => s
  | some _ =>
    { s with
      db := { s.db with
        lastPushHlcTimestamp := Function.update s.db.lastPushHlcTimestamp s.backend.id (some (some hlc)) }
      backend := { s.backend with lastPushHlcTimestamp := some hlc } }

end Session

inductive Event where
  | write (tableName : String) (w : LocalWrite) (hlc now : String)
  /-- One call of `applyRemoteChangesInTransactionAsync`. -/
  | pullBatch (hash : Hashing) (changes : List RemoteColumnChange)
  /-- `loadBackendsAsync`. -/
  | reload
  | pushStart (ctx : ScanContext)
  | pushScan (fails : Bool)
  /-- The server takes the next chunk; the checkpoint is written or fails. -/
  | pushChunk (recorded : Bool)
  | pushClear
  /-- The push throws, or the app goes away. -/
  | pushStop

/-- The changes a statement makes: those the tables hold at its HLC and did not before. -/
def stampedChanges (pf : Platform) (db db' : Database) (tableName hlc : String) : List CellChange :=
  ([tableName, deletedRowsTable].flatMap (tableCells pf.parseJson db')).filter fun c =>
    c.hlcTimestamp = hlc && c ∉ tableCells pf.parseJson db c.tableName

def stillHeld (pf : Platform) (db : Database) (cs : List CellChange) : List CellChange :=
  cs.filter fun c => c ∈ tableCells pf.parseJson db c.tableName

def Session.write (pf : Platform) (s : Session) (tableName : String) (w : LocalWrite) (hlc now : String) : Session :=
  match w.exec pf s.db tableName hlc with
  | .error _ => s
  | .ok db =>
    let dirtied := (w.dirties s.db tableName hlc).toList
    { s with
      db
      dirtyTables := dirtied.foldl (fun dirty name => markDirty dirty name now) s.dirtyTables
      pending := stillHeld pf db (s.pending ++ stampedChanges pf s.db db tableName hlc)
      unscanned := dirtied ++ s.unscanned }

/-- The pull transaction moves the cursor to the batch's newest HLC. -/
def Session.pullBatch (pf : Platform) (s : Session) (hash : Hashing) (changes : List RemoteColumnChange) : Session :=
  match s.phase with
  | .idle =>
    if changes = [] then s
    else match maxHlc "" (changes.map (·.hlcTimestamp)) with
      | none => s
      | some max => match applyRemoteChangesToDb pf.env hash s.db changes (some (s.backend.id, max)) with
        | .error _ => s
        | .ok db => { s with db, pending := stillHeld pf db s.pending }
  -- a push holds the mutex
  | _ => s

def Session.reload (s : Session) : Session :=
  match s.db.lastPushHlcTimestamp s.backend.id with
  | none => s
  | some cursor => { s with backend := { s.backend with lastPushHlcTimestamp := cursor } }

def Session.pushStart (pf : Platform) (s : Session) (ctx : ScanContext) : Session :=
  match s.phase with
  | .idle =>
    let dirtyTables := getDirtyTables s.dirtyTables
    if s.backend.spaceId = "" ∨ dirtyTables = [] then s
    else match (if s.backend.spaceId = pf.vaultId then .ok [] else extensionTablesForSpace s.db s.backend.spaceId) with
      | .error _ => s
      | .ok extensionTables => { s with phase := .scanning ctx s.backend extensionTables dirtyTables dirtyTables [] }
  | _ => s

def afterScan (dirtyTables : List DirtyTable) (allChanges : List ColumnChange) : Phase :=
  if allChanges = [] then .clearing dirtyTables dirtyTables
  else .sending dirtyTables (chunkChangesByHlc allChanges pushChunkSoftLimit)

def tableChanges (pf : Platform) (db : Database) (ctx : ScanContext) (b : Backend) (extensionTables : List String)
    (fails : Bool) (tableName : String) : List ColumnChange :=
  if fails then [] else (scanForBackend ctx db pf.vaultId b extensionTables tableName).toOption.getD []

def Session.pushScan (pf : Platform) (s : Session) (fails : Bool) : Session :=
  match s.phase with
  | .scanning ctx b extensionTables dirtyTables (d :: todo) allChanges =>
    let allChanges := allChanges ++ tableChanges pf s.db ctx b extensionTables fails d.tableName
    { s with
      phase := if todo = [] then afterScan dirtyTables allChanges
        else .scanning ctx b extensionTables dirtyTables todo allChanges
      unscanned := s.unscanned.filter (· ≠ d.tableName) }
  | _ => s

def Session.pushChunk (s : Session) (recorded : Bool) : Session :=
  match s.phase with
  | .sending dirtyTables (chunk :: todo) => match chunkMaxHlc chunk with
    -- an HLC of the chunk cannot be read, and the push throws
    | none => { s with phase := .idle }
    | some max =>
      let s := { s with accepted := s.accepted ++ chunk.map ColumnChange.toCellChange }
      -- what the server took counts, whether or not the checkpoint is written
      if recorded then
        { s.setCursor max with phase := if todo = [] then .clearing dirtyTables dirtyTables else .sending dirtyTables todo }
      else { s with phase := .idle }
  | _ => s

def Session.pushClear (s : Session) : Session :=
  match s.phase with
  | .clearing dirtyTables (d :: todo) =>
    { s with
      dirtyTables := clearDirtyTable s.dirtyTables d.tableName (maxDirtyTimestamp dirtyTables)
      phase := if todo = [] then .idle else .clearing dirtyTables todo }
  | _ => s

def Session.step (pf : Platform) (s : Session) : Event → Session
  | .write tableName w hlc now => s.write pf tableName w hlc now
  | .pullBatch hash changes => s.pullBatch pf hash changes
  | .reload => s.reload
  | .pushStart ctx => s.pushStart pf ctx
  | .pushScan fails => s.pushScan pf fails
  | .pushChunk recorded => s.pushChunk recorded
  | .pushClear => s.pushClear
  | .pushStop => { s with phase := .idle }

/-! ## A push that nothing interrupts

Taken without another event in between, the steps of a push do what `pushToBackend`
does in one call: the loops of the one are matched by the steps of the other. -/

/-- The vault as `pushToBackend` has it. -/
def Session.vault (s : Session) : Vault := ⟨s.db, s.dirtyTables, [s.backend]⟩

def sendSteps (reply : Nat → Except String (Option String)) (clears : List Event) :
    Nat → List (List ColumnChange) → List Event
  | _, [] => clears
  | i, chunk :: chunks => match chunkMaxHlc chunk, reply i with
    | some _, .ok _ => .pushChunk true :: sendSteps reply clears (i + 1) chunks
    | _, _ => [.pushStop]

/-- The steps of one call of `pushToBackend`. -/
def pushSteps (pf : Platform) (s : Session) (call : PushCall) (reply : Nat → Except String (Option String)) : List Event :=
  match preparePush pf.vaultId s.vault call, call.context with
  | .ok (_, dirtyTables, allChanges), .ok ctx =>
    .pushStart ctx :: ((dirtyTables.map fun d => .pushScan (call.scanFails d.tableName)) ++
      sendSteps reply (dirtyTables.map fun _ => .pushClear) 0 (chunkChangesByHlc allChanges pushChunkSoftLimit))
  | _, _ => []

section
variable {pf : Platform} {s : Session}

theorem run_pushScan {ctx : ScanContext} {b : Backend} {extensionTables : List String} {dirtyTables todo : List DirtyTable}
    {allChanges : List ColumnChange} (scanFails : String → Bool)
    (h : s.phase = .scanning ctx b extensionTables dirtyTables todo allChanges) (hne : todo ≠ []) :
    ∃ unscanned, run (Session.step pf) s (todo.map fun d => .pushScan (scanFails d.tableName)) =
      { s with
        phase := afterScan dirtyTables (allChanges ++
          scanDirtyTables ctx s.db pf.vaultId b extensionTables scanFails todo)
        unscanned } := by
  induction todo generalizing s allChanges with
  | nil => exact absurd rfl hne
  | cons d todo ih =>
    have hstep : s.step pf (.pushScan (scanFails d.tableName)) =
        { s with
          phase := if todo = [] then
              afterScan dirtyTables (allChanges ++ tableChanges pf s.db ctx b extensionTables (scanFails d.tableName) d.tableName)
            else .scanning ctx b extensionTables dirtyTables todo
              (allChanges ++ tableChanges pf s.db ctx b extensionTables (scanFails d.tableName) d.tableName)
          unscanned := s.unscanned.filter (· ≠ d.tableName) } := by
      simp only [Session.step, Session.pushScan, h]
    have hscan : scanDirtyTables ctx s.db pf.vaultId b extensionTables scanFails (d :: todo) =
        tableChanges pf s.db ctx b extensionTables (scanFails d.tableName) d.tableName ++
          scanDirtyTables ctx s.db pf.vaultId b extensionTables scanFails todo := rfl
    rw [List.map_cons, run_cons, hstep, hscan, ← List.append_assoc]
    by_cases htodo : todo = []
    · subst htodo
      exact ⟨s.unscanned.filter (· ≠ d.tableName), by simp [scanDirtyTables]⟩
    · rw [if_neg htodo]
      exact ih rfl htodo

theorem run_pushClear {dirtyTables todo : List DirtyTable} (h : s.phase = .clearing dirtyTables todo) (hne : todo ≠ []) :
    run (Session.step pf) s (todo.map fun _ => .pushClear) =
      { s with
        dirtyTables := todo.foldl (fun l d => clearDirtyTable l d.tableName (maxDirtyTimestamp dirtyTables)) s.dirtyTables
        phase := .idle } := by
  induction todo generalizing s with
  | nil => exact absurd rfl hne
  | cons d todo ih =>
    have hstep : s.step pf .pushClear =
        { s with
          dirtyTables := clearDirtyTable s.dirtyTables d.tableName (maxDirtyTimestamp dirtyTables)
          phase := if todo = [] then .idle else .clearing dirtyTables todo } := by
      simp only [Session.step, Session.pushClear, h]
    rw [List.map_cons, run_cons, hstep, List.foldl_cons]
    by_cases htodo : todo = []
    · subst htodo
      rfl
    · rw [if_neg htodo]
      exact ih rfl htodo

/-- A session that sends, beside the loop that `pushToBackend` runs. -/
structure Tracks (s₀ s : Session) (x : Sending) : Prop where
  loaded : s.loadedCursor = x.lastPushHlcTimestamp
  stored : s.storedCursor = if x.pushed = [] then s₀.storedCursor else x.lastPushHlcTimestamp
  accepted : s.accepted = s₀.accepted ++ x.pushed.flatten.map ColumnChange.toCellChange
  dirty : s.dirtyTables = s₀.dirtyTables
  row : (s.db.lastPushHlcTimestamp s.backend.id).isSome

theorem Tracks.pushChunk {s₀ : Session} {x : Sending} (h : Tracks s₀ s x) (chunk : List ColumnChange) (max : String)
    (ts : Option String) (phase : Phase) :
    Tracks s₀ { { s with accepted := s.accepted ++ chunk.map ColumnChange.toCellChange }.setCursor max with phase }
      ⟨x.pushed ++ [chunk], some max, ts⟩ := by
  obtain ⟨cursor, hrow⟩ := Option.isSome_iff_exists.1 h.row
  unfold Session.setCursor
  simp only [hrow]
  refine ⟨rfl, ?_, ?_, h.dirty, by simp⟩
  · simp [Session.storedCursor]
  · simp [h.accepted, List.append_assoc]

theorem run_sendSteps {s₀ : Session} {x : Sending} {dirtyTables : List DirtyTable} {chunks : List (List ColumnChange)}
    (reply : Nat → Except String (Option String)) (i : Nat) (clears : List Event) (h : Tracks s₀ s x)
    (hphase : s.phase = .sending dirtyTables chunks) (hne : chunks ≠ []) :
    ∃ s', run (Session.step pf) s (sendSteps reply clears i chunks) =
        (if (sendChunks reply i x chunks).2.isSome then s' else run (Session.step pf) s' clears) ∧
      Tracks s₀ s' (sendChunks reply i x chunks).1 ∧
      s'.phase = if (sendChunks reply i x chunks).2.isSome then .idle else .clearing dirtyTables dirtyTables := by
  -- on the chunks; each step sends one and keeps `Tracks`
  induction chunks generalizing s x i with
  | nil => exact absurd rfl hne
  | cons chunk chunks ih =>
    have hstop : Tracks s₀ { s with phase := .idle } x := ⟨h.loaded, h.stored, h.accepted, h.dirty, h.row⟩
    unfold sendSteps sendChunks
    rcases hmax : chunkMaxHlc chunk with _ | max
    · exact ⟨{ s with phase := .idle }, rfl, hstop, rfl⟩
    · rcases hreply : reply i with e | ts
      · exact ⟨{ s with phase := .idle }, rfl, hstop, rfl⟩
      · have hstep : s.step pf (.pushChunk true) =
            { { s with accepted := s.accepted ++ chunk.map ColumnChange.toCellChange }.setCursor max with
              phase := if chunks = [] then .clearing dirtyTables dirtyTables else .sending dirtyTables chunks } := by
          simp only [Session.step, Session.pushChunk, hphase, hmax]
          rfl
        dsimp only
        rw [run_cons, hstep]
        have hnext := h.pushChunk chunk max (x.firstServerTimestamp.or (ts.filter (· ≠ "")))
          (if chunks = [] then .clearing dirtyTables dirtyTables else .sending dirtyTables chunks)
        by_cases hchunks : chunks = []
        · subst hchunks
          exact ⟨_, rfl, hnext, rfl⟩
        · rw [if_neg hchunks] at hnext ⊢
          exact ih (i + 1) hnext rfl hchunks

theorem backend_vault (s : Session) : s.vault.backend s.backend.id = some s.backend := by
  simp [Vault.backend, Lib.Keyed.get, Session.vault]

theorem loadedCursor_vault (s : Session) : s.vault.loadedCursor s.backend.id = s.loadedCursor := by
  rw [Vault.loadedCursor, backend_vault]
  rfl

theorem run_scanSteps {ctx : ScanContext} {extensionTables : List String} {dirtyTables : List DirtyTable}
    (scanFails : String → Bool) (hidle : s.phase = .idle) (hspace : s.backend.spaceId ≠ "")
    (hdirty : dirtyTables = getDirtyTables s.dirtyTables) (hne : dirtyTables ≠ [])
    (hext : (if s.backend.spaceId = pf.vaultId then .ok [] else extensionTablesForSpace s.db s.backend.spaceId) =
      .ok extensionTables) :
    ∃ unscanned, run (Session.step pf) s
        (.pushStart ctx :: dirtyTables.map fun d => .pushScan (scanFails d.tableName)) =
      { s with
        phase := afterScan dirtyTables (scanDirtyTables ctx s.db pf.vaultId s.backend extensionTables scanFails dirtyTables)
        unscanned } := by
  have hstart : s.step pf (.pushStart ctx) =
      { s with phase := .scanning ctx s.backend extensionTables dirtyTables dirtyTables [] } := by
    have hskip : ¬ (s.backend.spaceId = "" ∨ getDirtyTables s.dirtyTables = []) := by
      rw [← hdirty]
      exact not_or.2 ⟨hspace, hne⟩
    simp only [Session.step, Session.pushStart, hidle, if_neg hskip, hext, hdirty]
  rw [run_cons, hstart]
  have hscan := @run_pushScan pf { s with phase := .scanning ctx s.backend extensionTables dirtyTables dirtyTables [] }
    ctx s.backend extensionTables dirtyTables dirtyTables [] scanFails rfl hne
  exact hscan

theorem run_afterScan {dirtyTables : List DirtyTable} {changes : List ColumnChange}
    (hphase : s.phase = afterScan dirtyTables changes) (hne : dirtyTables ≠ [])
    (hrow : (s.db.lastPushHlcTimestamp s.backend.id).isSome) (reply : Nat → Except String (Option String)) :
    let sent := sendChunks reply 0 ⟨[], s.loadedCursor, none⟩ (chunkChangesByHlc changes pushChunkSoftLimit)
    let s' := run (Session.step pf) s
      (sendSteps reply (dirtyTables.map fun _ => .pushClear) 0 (chunkChangesByHlc changes pushChunkSoftLimit))
    s'.phase = .idle ∧
      s'.dirtyTables = (if sent.2.isSome then s.dirtyTables else clearDirtyTables s.dirtyTables dirtyTables) ∧
      s'.storedCursor = (if sent.1.pushed = [] then s.storedCursor else sent.1.lastPushHlcTimestamp) ∧
      s'.loadedCursor = sent.1.lastPushHlcTimestamp ∧
      s'.accepted = s.accepted ++ sent.1.pushed.flatten.map ColumnChange.toCellChange := by
  have hstart : Tracks s s ⟨[], s.loadedCursor, none⟩ := ⟨rfl, by simp, by simp, rfl, hrow⟩
  unfold afterScan at hphase
  by_cases hnone : changes = []
  · subst hnone
    have hclear := @run_pushClear pf s dirtyTables dirtyTables (by simpa using hphase) hne
    dsimp only
    rw [show chunkChangesByHlc [] pushChunkSoftLimit = [] from rfl, sendSteps, hclear]
    exact ⟨rfl, rfl, rfl, rfl, by simp [sendChunks]⟩
  · have hchunks : chunkChangesByHlc changes pushChunkSoftLimit ≠ [] := by
      intro e
      have hflat := flatten_chunkChangesByHlc changes pushChunkSoftLimit
      rw [e] at hflat
      exact hnone hflat.symm
    rw [if_neg hnone] at hphase
    obtain ⟨s', hrun, htracks, hend⟩ := @run_sendSteps pf s s _ dirtyTables _ reply 0
      (dirtyTables.map fun _ => .pushClear) hstart hphase hchunks
    dsimp only
    rw [hrun]
    split
    · rename_i herr
      rw [if_pos herr] at hend
      exact ⟨hend, htracks.dirty, htracks.stored, htracks.loaded, htracks.accepted⟩
    · rename_i herr
      rw [if_neg herr] at hend
      rw [run_pushClear hend hne]
      exact ⟨rfl, by rw [htracks.dirty]; rfl, htracks.stored, htracks.loaded, htracks.accepted⟩

/-- The steps of a push that nothing interrupts do what `pushToBackend` does. -/
theorem pushSteps_refine (hidle : s.phase = .idle) (hrow : (s.db.lastPushHlcTimestamp s.backend.id).isSome)
    {call : PushCall} (hid : call.backendId = s.backend.id) (reply : Nat → Except String (Option String)) :
    let r := pushToBackend pf.vaultId s.vault call reply
    let s' := run (Session.step pf) s (pushSteps pf s call reply)
    s'.phase = .idle ∧ s'.dirtyTables = r.vault.dirtyTables ∧ s'.storedCursor = r.vault.storedCursor s.backend.id ∧
      s'.loadedCursor = r.vault.loadedCursor s.backend.id ∧
      s'.accepted = s.accepted ++ r.pushed.flatten.map ColumnChange.toCellChange := by
  rcases hp : preparePush pf.vaultId s.vault call with e | ⟨b, dirtyTables, changes⟩
  · have hr : pushToBackend pf.vaultId s.vault call reply = ⟨s.vault, [], some e⟩ := by rw [pushToBackend, hp]
    have hs : pushSteps pf s call reply = [] := by rw [pushSteps, hp]
    rw [hr, hs]
    exact ⟨hidle, rfl, rfl, (loadedCursor_vault s).symm, by simp⟩
  obtain ⟨hb, hspace, hdirty, ctx, hctx, hcases⟩ := preparePush_inv hp
  obtain rfl : s.backend = b := by
    rw [hid, backend_vault] at hb
    exact Option.some.inj hb
  have hsteps : pushSteps pf s call reply = (.pushStart ctx :: dirtyTables.map fun d => .pushScan (call.scanFails d.tableName)) ++
      sendSteps reply (dirtyTables.map fun _ => .pushClear) 0 (chunkChangesByHlc changes pushChunkSoftLimit) := by
    rw [pushSteps, hp, hctx]
    rfl
  obtain ⟨hpushed, hstored, hloaded, hcleared⟩ := pushToBackend_sent hp reply
  obtain ⟨cursor, hcursor⟩ := Option.isSome_iff_exists.1 hrow
  have hrow' : s.vault.db.lastPushHlcTimestamp s.backend.id = some cursor := hcursor
  rw [hid, hrow', Option.bind_some] at hstored
  rw [hid, hrow', if_pos Option.isSome_some] at hloaded
  dsimp only
  rw [hpushed, hstored, hloaded, hcleared, hsteps, run_append]
  rcases hcases with ⟨rfl, rfl⟩ | ⟨hne, extensionTables, hext, rfl⟩
  · -- nothing is dirty, and the push ends before it starts
    have hskip : s.backend.spaceId = "" ∨ getDirtyTables s.dirtyTables = [] := .inr hdirty.symm
    have hstay : s.step pf (.pushStart ctx) = s := by
      simp only [Session.step, Session.pushStart, hidle, if_pos hskip]
    rw [List.map_nil, run_cons, hstay, run_nil]
    exact ⟨hidle, rfl, rfl, rfl, by simp [sendSteps, sendChunks, chunkChangesByHlc]⟩
  · obtain ⟨unscanned, hscans⟩ := run_scanSteps call.scanFails hidle hspace hdirty hne hext
    have hafter := @run_afterScan pf { s with
      phase := afterScan dirtyTables (scanDirtyTables ctx s.db pf.vaultId s.backend extensionTables call.scanFails dirtyTables)
      unscanned } dirtyTables _ rfl hne hrow reply
    rw [hscans]
    exact hafter

end

/-! ## A device with notes -/

def notesPlatform : Platform := ⟨"vault", Crdt.notesEnv, fun _ => none, fun _ => ""⟩

def notesSession : Session where
  db := { Crdt.notesDb (Crdt.emptyTable ["id"] ["title"]) with
    lastPushHlcTimestamp := fun id => if id = "home" then some none else none }
  dirtyTables := []
  backend := ⟨"home", "vault", true, none, none⟩

def noteInsert (id : String) : LocalWrite := .insert [("id", .text id), ("title", .text "x")]

theorem pushSteps_refine_note :
    let s : Session := notesSession.step notesPlatform (.write "notes" (noteInsert "a") "5/a" "2026-01-01 10:00:00")
    let call : PushCall := { backendId := "home", context := .ok plainContext }
    let r := pushToBackend "vault" s.vault call fun _ => .ok none
    let s' := run (Session.step notesPlatform) s (pushSteps notesPlatform s call fun _ => .ok none)
    s'.phase = .idle ∧ s'.dirtyTables = r.vault.dirtyTables ∧ s'.storedCursor = r.vault.storedCursor "home" ∧
      s'.loadedCursor = r.vault.loadedCursor "home" ∧
      s'.accepted = s.accepted ++ r.pushed.flatten.map ColumnChange.toCellChange :=
  pushSteps_refine rfl rfl rfl fun _ => .ok none

end HaexVault.Sync
