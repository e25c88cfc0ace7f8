import HaexVault.Lib.Chunks
import HaexVault.Sync.TableScanner
/-!
# Pushing to a backend (`stores/sync/orchestrator/push.ts`)

`pushToBackend` scans the dirty tables, cuts the concatenated changes into chunks at HLC boundaries,
sends chunk after chunk and moves the backend's cursor to each chunk's newest HLC. A failed chunk ends
the push (`push_checkpoint_safe_iff`).
-/

namespace HaexVault.Sync

open HaexVault.Crdt (Database Table Row SqlValue)
open HaexVault.Lib HaexVault.Lib.Chunks

def pushChunkSoftLimit : Nat := 2000

/-! ## Chunks -/

/-- The variables of `chunkChangesByHlc`; `group` is what stands between
`groupStart` and the loop index. -/
structure Chunking where
  chunks : List (List ColumnChange)
  currentChunk : List ColumnChange
  group : List ColumnChange

def flushGroup (softLimit : Nat) (s : Chunking) : Chunking :=
  if s.group = [] then s
  else if s.currentChunk ≠ [] ∧ softLimit < s.currentChunk.length + s.group.length then
    ⟨s.chunks ++ [s.currentChunk], s.group, []⟩
  else ⟨s.chunks, s.currentChunk ++ s.group, []⟩

def groupLoop (softLimit : Nat) : Chunking → ColumnChange → List ColumnChange → Chunking
  | s, _, [] => s
  | s, prev, c :: cs =>
    if c.hlcTimestamp ≠ prev.hlcTimestamp then groupLoop softLimit { flushGroup softLimit s with group := [c] } c cs
    else groupLoop softLimit { s with group := s.group ++ [c] } c cs

def Chunking.finish (s : Chunking) : List (List ColumnChange) :=
  if s.currentChunk = [] then s.chunks else s.chunks ++ [s.currentChunk]

def chunkChangesByHlc (changes : List ColumnChange) (softLimit : Nat) : List (List ColumnChange) :=
  match changes with
  | [] => []
  | c :: cs => (flushGroup softLimit (groupLoop softLimit ⟨[], [], [c]⟩ c cs)).finish

def hlcRuns (changes : List ColumnChange) : List (List ColumnChange) :=
  changes.splitBy fun a b => a.hlcTimestamp == b.hlcTimestamp

theorem finish_groupLoop {softLimit : Nat} {cs : List ColumnChange} {s : Chunking} {prev : ColumnChange}
    (hchain : s.group.IsChain fun a b => (a.hlcTimestamp == b.hlcTimestamp) = true) (hlast : s.group.getLast? = some prev) :
    (flushGroup softLimit (groupLoop softLimit s prev cs)).finish =
      s.chunks ++ pack softLimit s.currentChunk (hlcRuns (s.group ++ cs)) := by
  have hne : s.group ≠ [] := by
    intro e
    rw [e] at hlast
    cases hlast
  have hrun : hlcRuns s.group = [s.group] := List.splitBy_of_isChain hne hchain
  induction cs generalizing s prev with
  | nil =>
    rw [List.append_nil, hrun]
    unfold groupLoop flushGroup Chunking.finish pack
    rw [if_neg hne]
    split
    · simp [pack, hne]
    · simp [pack, hne]
  | cons c cs ih =>
    unfold groupLoop
    split
    · -- `c` starts another run: the one before it is flushed whole
      rename_i hdiff
      rw [ih (List.isChain_singleton _) rfl (by simp) (List.splitBy_of_isChain (by simp) (List.isChain_singleton _))]
      have hsplit : hlcRuns (s.group ++ c :: cs) = s.group :: hlcRuns ([c] ++ cs) := by
        have := List.splitBy_append_cons (r := fun a b : ColumnChange => a.hlcTimestamp == b.hlcTimestamp) (l := s.group)
          (a := c) cs (fun x hx => by
            rw [hlast] at hx
            obtain rfl := Option.some.inj hx
            simpa using fun e => hdiff e.symm)
        rw [hlcRuns, this]
        exact congrArg (· ++ _) hrun
      rw [hsplit, pack]
      unfold flushGroup
      rw [if_neg hne]
      split
      · simp
      · simp
    · rename_i hsame
      have hchain' : (s.group ++ [c]).IsChain fun a b => (a.hlcTimestamp == b.hlcTimestamp) = true := by
        refine hchain.append (List.isChain_singleton _) fun x hx y hy => ?_
        rw [hlast] at hx
        obtain rfl := Option.some.inj hx
        obtain rfl := Option.some.inj hy
        simpa using (not_not.1 hsame).symm
      rw [ih hchain' (by simp) (by simp) (List.splitBy_of_isChain (by simp) hchain')]
      simp

theorem chunkChangesByHlc_eq_pack (changes : List ColumnChange) (softLimit : Nat) :
    chunkChangesByHlc changes softLimit = pack softLimit [] (hlcRuns changes) := by
  unfold chunkChangesByHlc
  split
  · simp [hlcRuns, pack]
  · exact finish_groupLoop (List.isChain_singleton _) rfl

theorem flatten_chunkChangesByHlc (changes : List ColumnChange) (softLimit : Nat) :
    (chunkChangesByHlc changes softLimit).flatten = changes := by
  rw [chunkChangesByHlc_eq_pack, flatten_pack, List.nil_append, hlcRuns, List.flatten_splitBy]

theorem nil_not_mem_chunks (changes : List ColumnChange) (softLimit : Nat) : [] ∉ chunkChangesByHlc changes softLimit := by
  rw [chunkChangesByHlc_eq_pack]
  exact nil_not_mem_pack (List.nil_notMem_splitBy _ _)

/-! ## The push -/

inductive SharedSpaceScopePolicy where
  | self
  | spaceIdColumn (column : String)

def sharedSpaceBuiltinTables : List (String × SharedSpaceScopePolicy) :=
  [("haex_spaces", .self), ("haex_space_members", .spaceIdColumn "space_id"),
    ("haex_space_devices", .spaceIdColumn "space_id"), ("haex_peer_shares", .spaceIdColumn "space_id"),
    ("haex_mls_sync_keys", .spaceIdColumn "space_id"), ("haex_device_mls_enrollments", .spaceIdColumn "space_id"),
    ("haex_ucan_tokens", .spaceIdColumn "space_id"), ("haex_pending_invites", .spaceIdColumn "space_id"),
    ("haex_sync_rules", .spaceIdColumn "space_id"), ("haex_shared_space_sync", .spaceIdColumn "space_id")]

def isBuiltinSharedSpaceTable (tableName : String) : Bool := (sharedSpaceBuiltinTables.lookup tableName).isSome

/-- The store's copy of a row of `haex_sync_backends`; the push cursor of the row
itself is the database's. A space that is not configured is empty. -/
structure Backend where
  id : String
  spaceId : String
  enabled : Bool := true
  lastPushHlcTimestamp : Option String := none
  lastPullServerTimestamp : Option String := none

structure Vault where
  db : Database
  dirtyTables : List DirtyTable
  backends : List Backend

namespace Vault

def backend (v : Vault) (id : String) : Option Backend := Keyed.get Backend.id v.backends id

/-- `updateBackendAsync` takes the row it has written over into the store; without a
row it writes nothing. -/
def updateBackend (v : Vault) (id : String) (f : Backend → Backend) : Vault :=
  if (v.db.lastPushHlcTimestamp id).isSome then { v with backends := Keyed.modify Backend.id v.backends id f } else v

def setCursor (v : Vault) (id hlc : String) : Vault :=
  { v.updateBackend id fun row => { row with lastPushHlcTimestamp := some hlc } with
    db := { v.db with
      lastPushHlcTimestamp := Function.update v.db.lastPushHlcTimestamp id
        ((v.db.lastPushHlcTimestamp id).map fun _ => some hlc) } }

def storedCursor (v : Vault) (id : String) : Option String := (v.db.lastPushHlcTimestamp id).join

/-- The cursor that the scans of a push go by. -/
def loadedCursor (v : Vault) (id : String) : Option String := (v.backend id).bind (·.lastPushHlcTimestamp)

end Vault

/-- What one call of `pushToBackendAsync` meets: the keys it fetches, and the tables
whose scan fails in the database or while encrypting. -/
structure PushCall where
  backendId : String
  context : Except String ScanContext
  scanFails : String → Bool := fun _ => false

inductive PushError where
  | thrown (message : String)
  | scan (e : ScanError)
  /-- An HLC of the chunk cannot be read. -/
  | hlc
  | rejected (message : String)
  deriving DecidableEq

def extensionTablesForSpace (db : Database) (spaceId : String) : Except ScanError (List String) :=
  match db.tables "haex_shared_space_sync" with
  | none => .error .sql
  | some sync => .ok ((((sync.rows.filter fun a => a "space_id" = .text spaceId).filterMap fun a =>
      Crdt.asText (a "table_name")).dedup).filter fun name => !isBuiltinSharedSpaceTable name)

/-- The scan of one dirty table; a table outside the shared scope is skipped. -/
def scanForBackend (ctx : ScanContext) (db : Database) (vaultId : String) (b : Backend) (extensionTables : List String)
    (tableName : String) : Except ScanError (List ColumnChange) :=
  if b.spaceId = vaultId then scanTableForChanges ctx db tableName b.lastPushHlcTimestamp
  else match sharedSpaceBuiltinTables.lookup tableName with
    | some .self => scanTableForSpaceColumnChanges ctx db tableName b.spaceId "id" b.lastPushHlcTimestamp
    | some (.spaceIdColumn column) =>
      scanTableForSpaceColumnChanges ctx db tableName b.spaceId column b.lastPushHlcTimestamp
    | none =>
      if tableName ∈ extensionTables then scanTableForSpaceChanges ctx db tableName b.spaceId b.lastPushHlcTimestamp
      else .ok []

def scanDirtyTables (ctx : ScanContext) (db : Database) (vaultId : String) (b : Backend) (extensionTables : List String)
    (scanFails : String → Bool) (dirtyTables : List DirtyTable) : List ColumnChange :=
  dirtyTables.flatMap fun d =>
    if scanFails d.tableName then []
    else (scanForBackend ctx db vaultId b extensionTables d.tableName).toOption.getD []

/-- The push up to its first request: the backend, the dirty tables and `allChanges`. -/
def preparePush (vaultId : String) (v : Vault) (call : PushCall) :
    Except PushError (Backend × List DirtyTable × List ColumnChange) :=
  match v.backend call.backendId with
  | none => .error (.thrown "Backend spaceId not configured")
  | some b =>
    if b.spaceId = "" then .error (.thrown "Backend spaceId not configured")
    else match call.context with
    | .error message => .error (.thrown message)
    | .ok ctx =>
      let dirtyTables := getDirtyTables v.dirtyTables
      -- an early return, before the shared scope is read
      if dirtyTables = [] then .ok (b, [], [])
      else match (if b.spaceId = vaultId then .ok [] else extensionTablesForSpace v.db b.spaceId) with
        | .error e => .error (.scan e)
        | .ok extensionTables => .ok (b, dirtyTables,
            scanDirtyTables ctx v.db vaultId b extensionTables call.scanFails dirtyTables)

def maxDirtyTimestamp (dirtyTables : List DirtyTable) : String :=
  dirtyTables.foldl (fun max t => if codeUnits max.toList < codeUnits t.lastModified.toList then t.lastModified else max) ""

def chunkMaxHlc (chunk : List ColumnChange) : Option String :=
  chunk.head?.bind fun c => maxHlc c.hlcTimestamp (chunk.map (·.hlcTimestamp))

structure Sending where
  pushed : List (List ColumnChange) := []
  lastPushHlcTimestamp : Option String
  firstServerTimestamp : Option String := none

/-- The loop over the chunks from index `i`: send, then move the cursor. `reply` is
what `pushChangesToServerAsync` returns or throws for each index. -/
def sendChunks (reply : Nat → Except String (Option String)) :
    Nat → Sending → List (List ColumnChange) → Sending × Option PushError
  | _, s, [] => (s, none)
  | i, s, chunk :: chunks =>
    match chunkMaxHlc chunk with
    | none => (s, some .hlc)
    | some max => match reply i with
      -- the checkpoints of the chunks before it stay
      | .error message => (s, some (.rejected message))
      | .ok serverTimestamp =>
        sendChunks reply (i + 1)
          ⟨s.pushed ++ [chunk], some max, s.firstServerTimestamp.or (serverTimestamp.filter (· ≠ ""))⟩ chunks

def clearDirtyTables (dirty dirtyTables : List DirtyTable) : List DirtyTable :=
  dirtyTables.foldl (fun l d => clearDirtyTable l d.tableName (maxDirtyTimestamp dirtyTables)) dirty

structure PushRun where
  vault : Vault
  /-- The chunks the server took. -/
  pushed : List (List ColumnChange) := []
  error : Option PushError := none

/-- `pushToBackendAsync`. -/
def pushToBackend (vaultId : String) (v : Vault) (call : PushCall) (reply : Nat → Except String (Option String)) : PushRun :=
  match preparePush vaultId v call with
  | .error e => ⟨v, [], some e⟩
  | .ok (b, dirtyTables, allChanges) =>
    if allChanges = [] then ⟨{ v with dirtyTables := clearDirtyTables v.dirtyTables dirtyTables }, [], none⟩
    else
      let (s, error) := sendChunks reply 0 ⟨[], b.lastPushHlcTimestamp, none⟩
        (chunkChangesByHlc allChanges pushChunkSoftLimit)
      let v := if s.pushed = [] then v else v.setCursor call.backendId (s.lastPushHlcTimestamp.getD "")
      if error.isSome then ⟨v, s.pushed, error⟩
      else
        -- only a first push sets the pull cursor
        let v := if s.firstServerTimestamp.isSome ∧ b.lastPullServerTimestamp.getD "" = "" then
            v.updateBackend call.backendId fun row => { row with lastPullServerTimestamp := s.firstServerTimestamp }
          else v
        ⟨{ v with dirtyTables := clearDirtyTables v.dirtyTables dirtyTables }, s.pushed, none⟩

def scannedChanges (vaultId : String) (v : Vault) (call : PushCall) : List ColumnChange :=
  match preparePush vaultId v call with
  | .error _ => []
  | .ok (_, _, allChanges) => allChanges

/-! ## The loop over the chunks -/

theorem chunkMaxHlc_spec {chunk : List ColumnChange} {m : String} (h : chunkMaxHlc chunk = some m) :
    (∃ c ∈ chunk, c.hlcTimestamp = m) ∧ ∀ c ∈ chunk, (hlcRank c.hlcTimestamp).isSome ∧ ¬ Newer c.hlcTimestamp m := by
  rcases chunk with _ | ⟨c, cs⟩
  · cases h
  have h : maxHlc c.hlcTimestamp ((c :: cs).map (·.hlcTimestamp)) = some m := h
  -- the first change is compared with itself, so its HLC can be read
  have hc : (hlcRank c.hlcTimestamp).isSome := by
    rw [maxHlc, List.map_cons, List.foldlM_cons] at h
    obtain ⟨next, hnext, -⟩ := Option.bind_eq_some_iff.1 h
    obtain ⟨b, hb, -⟩ := Option.map_eq_some_iff.1 hnext
    exact (hlcIsNewer_isSome.1 (Option.isSome_iff_exists.2 ⟨b, hb⟩)).1
  obtain ⟨-, hmem, hall⟩ := maxHlc_spec hc h
  constructor
  · rcases List.mem_cons.1 hmem with rfl | hmem
    · exact ⟨c, List.mem_cons_self, rfl⟩
    · exact List.mem_map.1 hmem
  · intro x hx
    exact hall x.hlcTimestamp (List.mem_cons_of_mem _ (List.mem_map.2 ⟨x, hx, rfl⟩))

theorem chunkMaxHlc_isSome {chunk : List ColumnChange} (hne : chunk ≠ [])
    (h : ∀ c ∈ chunk, (hlcRank c.hlcTimestamp).isSome) : (chunkMaxHlc chunk).isSome := by
  obtain ⟨c, cs, rfl⟩ := List.exists_cons_of_ne_nil hne
  refine maxHlc_isSome (h c List.mem_cons_self) fun x hx => ?_
  obtain ⟨y, hy, rfl⟩ := List.mem_map.1 hx
  exact h y hy

theorem sendChunks_spec (reply : Nat → Except String (Option String)) (i : Nat) (s : Sending)
    (chunks : List (List ColumnChange)) :
    ∃ done todo, chunks = done ++ todo ∧ (sendChunks reply i s chunks).1.pushed = s.pushed ++ done ∧
      (∀ c ∈ done.flatten, (hlcRank c.hlcTimestamp).isSome) ∧
      ((done = [] ∧ (sendChunks reply i s chunks).1.lastPushHlcTimestamp = s.lastPushHlcTimestamp) ∨
        ∃ c ∈ done.flatten, (sendChunks reply i s chunks).1.lastPushHlcTimestamp = some c.hlcTimestamp) := by
  have hstop : ∀ todo : List (List ColumnChange), ∃ done todo', todo = done ++ todo' ∧ s.pushed = s.pushed ++ done ∧
      (∀ c ∈ done.flatten, (hlcRank c.hlcTimestamp).isSome) ∧
      ((done = [] ∧ s.lastPushHlcTimestamp = s.lastPushHlcTimestamp) ∨
        ∃ c ∈ done.flatten, s.lastPushHlcTimestamp = some c.hlcTimestamp) :=
    fun todo => ⟨[], todo, rfl, by simp, by simp, .inl ⟨rfl, rfl⟩⟩
  induction chunks generalizing i s with
  | nil => exact hstop []
  | cons chunk chunks ih =>
    unfold sendChunks
    split
    · exact hstop (chunk :: chunks)
    · rename_i max hmax
      obtain ⟨⟨c, hc, hcm⟩, hall⟩ := chunkMaxHlc_spec hmax
      split
      · exact hstop (chunk :: chunks)
      · rename_i serverTimestamp hreply
        obtain ⟨done, todo, hsplit, hpushed, hread, hcursor⟩ := ih (i + 1)
          ⟨s.pushed ++ [chunk], some max, s.firstServerTimestamp.or (serverTimestamp.filter (· ≠ ""))⟩
          (fun todo => ⟨[], todo, rfl, by simp, by simp, .inl ⟨rfl, rfl⟩⟩)
        refine ⟨chunk :: done, todo, by rw [hsplit]; rfl, by rw [hpushed]; simp, ?_, .inr ?_⟩
        · intro x hx
          rcases List.mem_append.1 (List.flatten_cons ▸ hx) with hx | hx
          · exact (hall x hx).1
          · exact hread x hx
        · rcases hcursor with ⟨-, hcursor⟩ | ⟨x, hx, hcursor⟩
          · exact ⟨c, by simp [hc], by rw [hcursor, hcm]⟩
          · exact ⟨x, List.mem_append_right _ hx, hcursor⟩

theorem sendChunks_rejected {reply : Nat → Except String (Option String)} {i : Nat} {message : String}
    (h : reply i = .error message) (s : Sending) (chunks : List (List ColumnChange)) :
    (sendChunks reply i s chunks).1 = s := by
  rcases chunks with _ | ⟨chunk, chunks⟩
  · rfl
  · unfold sendChunks
    split
    · rfl
    · rw [h]

def takesBelow (n i : Nat) : Except String (Option String) := if i < n then .ok none else .error "Failed to push changes"

theorem sendChunks_takesBelow {done : List (List ColumnChange)} {chunk : List ColumnChange}
    (todo : List (List ColumnChange)) (i : Nat) (s : Sending) (hdone : ∀ d ∈ done, (chunkMaxHlc d).isSome)
    {m : String} (hm : chunkMaxHlc chunk = some m) :
    (sendChunks (takesBelow (i + done.length + 1)) i s (done ++ chunk :: todo)).1.pushed = s.pushed ++ (done ++ [chunk]) ∧
      (sendChunks (takesBelow (i + done.length + 1)) i s (done ++ chunk :: todo)).1.lastPushHlcTimestamp = some m := by
  induction done generalizing i s with
  | nil =>
    have hreject : takesBelow (i + 1) (i + 1) = .error "Failed to push changes" := by simp [takesBelow]
    have htake : takesBelow (i + 1) i = .ok none := by simp [takesBelow]
    simp only [List.length_nil, Nat.add_zero, List.nil_append, sendChunks, hm, htake, sendChunks_rejected hreject, and_self]
  | cons d done ih =>
    obtain ⟨max, hmax⟩ := Option.isSome_iff_exists.1 (hdone d List.mem_cons_self)
    have hlen : i + (d :: done).length + 1 = (i + 1) + done.length + 1 := by simp; omega
    have htake : takesBelow ((i + 1) + done.length + 1) i = .ok none := by
      unfold takesBelow
      rw [if_pos (by omega)]
    rw [hlen]
    simp only [List.cons_append, sendChunks, hmax, htake]
    have hrest := ih (i + 1) ⟨s.pushed ++ [d], some max, s.firstServerTimestamp.or ((none : Option String).filter (· ≠ ""))⟩
      (fun x hx => hdone x (List.mem_cons_of_mem _ hx))
    exact ⟨by rw [hrest.1]; simp, hrest.2⟩

/-! ## What a push leaves -/

section
variable {vaultId : String} {v : Vault} {call : PushCall} {b : Backend} {dirtyTables : List DirtyTable}
  {changes : List ColumnChange}

@[simp] theorem Vault.updateBackend_db (v : Vault) (id : String) (f : Backend → Backend) : (v.updateBackend id f).db = v.db := by
  unfold Vault.updateBackend
  split
  · rfl
  · rfl

@[simp] theorem Vault.updateBackend_dirtyTables (v : Vault) (id : String) (f : Backend → Backend) :
    (v.updateBackend id f).dirtyTables = v.dirtyTables := by
  unfold Vault.updateBackend
  split
  · rfl
  · rfl

@[simp] theorem Vault.setCursor_dirtyTables (v : Vault) (id hlc : String) : (v.setCursor id hlc).dirtyTables = v.dirtyTables :=
  v.updateBackend_dirtyTables id _

theorem Vault.backend_updateBackend (v : Vault) (id : String) {f : Backend → Backend} (hf : ∀ b, (f b).id = b.id) :
    (v.updateBackend id f).backend id =
      if (v.db.lastPushHlcTimestamp id).isSome then (v.backend id).map f else v.backend id := by
  have hget := Keyed.get_modify v.backends id id f fun b hb => (hf b).trans hb
  rw [if_pos rfl] at hget
  unfold Vault.updateBackend
  split
  · exact hget
  · rfl

/-- An update of other columns leaves both cursors. -/
theorem Vault.cursors_updateBackend (v : Vault) (id : String) {f : Backend → Backend} (hf : ∀ b, (f b).id = b.id)
    (hcursor : ∀ b, (f b).lastPushHlcTimestamp = b.lastPushHlcTimestamp) :
    (v.updateBackend id f).storedCursor id = v.storedCursor id ∧ (v.updateBackend id f).loadedCursor id = v.loadedCursor id := by
  refine ⟨by rw [Vault.storedCursor, v.updateBackend_db]; rfl, ?_⟩
  unfold Vault.loadedCursor
  rw [v.backend_updateBackend id hf]
  split
  · rcases v.backend id with _ | b
    · rfl
    · exact hcursor b
  · rfl

theorem Vault.cursors_setCursor (v : Vault) {id : String} {b : Backend} (hb : v.backend id = some b) (hlc : String) :
    (v.setCursor id hlc).storedCursor id = ((v.db.lastPushHlcTimestamp id).map fun _ => hlc) ∧
      (v.setCursor id hlc).loadedCursor id =
        if (v.db.lastPushHlcTimestamp id).isSome then some hlc else v.loadedCursor id := by
  have hbackend : (v.setCursor id hlc).backend id =
      (v.updateBackend id fun row => { row with lastPushHlcTimestamp := some hlc }).backend id := rfl
  constructor
  · show (Function.update v.db.lastPushHlcTimestamp id _ id).join = _
    rw [Function.update_self]
    cases v.db.lastPushHlcTimestamp id with
    | none => rfl
    | some _ => rfl
  · unfold Vault.loadedCursor
    rw [hbackend, v.backend_updateBackend id (f := fun row => { row with lastPushHlcTimestamp := some hlc }) fun _ => rfl]
    split
    · rw [hb]
      rfl
    · rfl

theorem scanForBackend_mem {ctx : ScanContext} {db : Database} {extensionTables : List String} {tableName : String}
    {c : ColumnChange} (h : scanForBackend ctx db vaultId b extensionTables tableName = .ok changes) (hc : c ∈ changes) :
    c.hlcTimestamp ≠ "" ∧ Unpushed b.lastPushHlcTimestamp c.hlcTimestamp ∧ c.tableName = tableName := by
  unfold scanForBackend at h
  split at h
  · exact scanTableForChanges_mem h hc
  · split at h
    · exact scanTableForSpaceColumnChanges_mem h hc
    · exact scanTableForSpaceColumnChanges_mem h hc
    · split at h
      · exact scanTableForSpaceChanges_mem h hc
      · cases h
        cases hc

theorem scanDirtyTables_mem {ctx : ScanContext} {db : Database} {extensionTables : List String} {fails : String → Bool}
    {c : ColumnChange} (hc : c ∈ scanDirtyTables ctx db vaultId b extensionTables fails dirtyTables) :
    c.hlcTimestamp ≠ "" ∧ Unpushed b.lastPushHlcTimestamp c.hlcTimestamp := by
  obtain ⟨d, -, hc⟩ := List.mem_flatMap.1 hc
  split at hc
  · cases hc
  · rcases hscan : scanForBackend ctx db vaultId b extensionTables d.tableName with e | cs
    · rw [hscan] at hc
      cases hc
    · rw [hscan] at hc
      obtain ⟨hne, hunpushed, -⟩ := scanForBackend_mem hscan hc
      exact ⟨hne, hunpushed⟩

theorem preparePush_inv (h : preparePush vaultId v call = .ok (b, dirtyTables, changes)) :
    v.backend call.backendId = some b ∧ b.spaceId ≠ "" ∧ dirtyTables = getDirtyTables v.dirtyTables ∧
      ∃ ctx, call.context = .ok ctx ∧ ((dirtyTables = [] ∧ changes = []) ∨ (dirtyTables ≠ [] ∧ ∃ extensionTables,
        (if b.spaceId = vaultId then .ok [] else extensionTablesForSpace v.db b.spaceId) = .ok extensionTables ∧
          changes = scanDirtyTables ctx v.db vaultId b extensionTables call.scanFails dirtyTables)) := by
  unfold preparePush at h
  split at h
  · cases h
  rename_i b' hb
  split at h
  · cases h
  rename_i hspace
  split at h
  · cases h
  rename_i ctx hctx
  dsimp only at h
  split at h
  · rename_i hdirty
    cases h
    exact ⟨hb, hspace, hdirty.symm, ctx, hctx, .inl ⟨rfl, rfl⟩⟩
  rename_i hdirty
  split at h
  · cases h
  · rename_i extensionTables hext
    cases h
    exact ⟨hb, hspace, rfl, ctx, hctx, .inr ⟨hdirty, extensionTables, hext, rfl⟩⟩

theorem preparePush_ok (h : preparePush vaultId v call = .ok (b, dirtyTables, changes)) :
    v.backend call.backendId = some b ∧
      ∀ c ∈ changes, c.hlcTimestamp ≠ "" ∧ Unpushed b.lastPushHlcTimestamp c.hlcTimestamp := by
  obtain ⟨hb, -, -, ctx, -, ⟨-, rfl⟩ | ⟨-, extensionTables, -, rfl⟩⟩ := preparePush_inv h
  · exact ⟨hb, by simp⟩
  · exact ⟨hb, fun c hc => scanDirtyTables_mem hc⟩

/-- Once the server has taken a chunk, both cursors are the last checkpoint's, where the
backend has a row. -/
theorem pushToBackend_sent (h : preparePush vaultId v call = .ok (b, dirtyTables, changes))
    (reply : Nat → Except String (Option String)) :
    let sent := sendChunks reply 0 ⟨[], b.lastPushHlcTimestamp, none⟩ (chunkChangesByHlc changes pushChunkSoftLimit)
    let v' := (pushToBackend vaultId v call reply).vault
    (pushToBackend vaultId v call reply).pushed = sent.1.pushed ∧
      v'.storedCursor call.backendId = (if sent.1.pushed = [] then v.storedCursor call.backendId
        else (v.db.lastPushHlcTimestamp call.backendId).bind fun _ => sent.1.lastPushHlcTimestamp) ∧
      v'.loadedCursor call.backendId = (if (v.db.lastPushHlcTimestamp call.backendId).isSome
        then sent.1.lastPushHlcTimestamp else v.loadedCursor call.backendId) ∧
      v'.dirtyTables = if sent.2.isSome then v.dirtyTables else clearDirtyTables v.dirtyTables dirtyTables := by
  intro sent
  have hb := (preparePush_ok h).1
  have hloaded : v.loadedCursor call.backendId = b.lastPushHlcTimestamp := by
    rw [Vault.loadedCursor, hb]
    rfl
  let v₁ := if sent.1.pushed = [] then v else v.setCursor call.backendId (sent.1.lastPushHlcTimestamp.getD "")
  have hcursors : v₁.storedCursor call.backendId = (if sent.1.pushed = [] then v.storedCursor call.backendId
        else (v.db.lastPushHlcTimestamp call.backendId).bind fun _ => sent.1.lastPushHlcTimestamp) ∧
      v₁.loadedCursor call.backendId = (if (v.db.lastPushHlcTimestamp call.backendId).isSome
        then sent.1.lastPushHlcTimestamp else v.loadedCursor call.backendId) ∧ v₁.dirtyTables = v.dirtyTables := by
    obtain ⟨done, todo, -, hpushed, -, ⟨hnone, hlast⟩ | ⟨c, hc, hlast⟩⟩ := sendChunks_spec reply 0
      ⟨[], b.lastPushHlcTimestamp, none⟩ (chunkChangesByHlc changes pushChunkSoftLimit)
    · have hpushed : sent.1.pushed = [] := by rw [hpushed, hnone]; rfl
      have hlast : sent.1.lastPushHlcTimestamp = v.loadedCursor call.backendId := hlast.trans hloaded.symm
      simp only [v₁, if_pos hpushed, hlast, ite_self, and_self]
    · have hpushed : sent.1.pushed ≠ [] := by
        rw [show sent.1.pushed = _ from hpushed]
        intro e
        rw [List.append_eq_nil_iff.1 e |>.2] at hc
        cases hc
      have hlast : sent.1.lastPushHlcTimestamp = some c.hlcTimestamp := hlast
      obtain ⟨hstored, hloaded⟩ := v.cursors_setCursor hb c.hlcTimestamp
      simp only [v₁, if_neg hpushed, hlast, Option.getD_some, hstored, hloaded, Vault.setCursor_dirtyTables, and_true]
      cases v.db.lastPushHlcTimestamp call.backendId with
      | none => rfl
      | some _ => rfl
  unfold pushToBackend
  rw [h]
  dsimp only
  by_cases hne : changes = []
  · -- nothing is sent, and the clear follows at once
    subst hne
    rw [if_pos rfl]
    refine ⟨rfl, rfl, ?_, rfl⟩
    rw [show sent.1.lastPushHlcTimestamp = v.loadedCursor call.backendId from hloaded.symm, ite_self]
    rfl
  rw [if_neg hne]
  split
  · exact ⟨rfl, hcursors⟩
  · refine ⟨rfl, ?_⟩
    split
    · obtain ⟨hstored, hloaded⟩ := v₁.cursors_updateBackend call.backendId
        (f := fun row => { row with lastPullServerTimestamp := sent.1.firstServerTimestamp }) (fun _ => rfl) fun _ => rfl
      refine ⟨hstored.trans hcursors.1, hloaded.trans hcursors.2.1, ?_⟩
      exact congrArg (clearDirtyTables · dirtyTables) ((v₁.updateBackend_dirtyTables call.backendId _).trans hcursors.2.2)
    · exact ⟨hcursors.1, hcursors.2.1, congrArg (clearDirtyTables · dirtyTables) hcursors.2.2⟩

end

/-! ## Checkpoints -/

/-- A push can stop at any chunk: what was not sent is still above the stored cursor,
and no HLC stands in two chunks. -/
structure CheckpointSafe (vaultId : String) (v : Vault) (call : PushCall) : Prop where
  resumable : ∀ reply : Nat → Except String (Option String), ∀ c ∈ scannedChanges vaultId v call,
    c ∉ (pushToBackend vaultId v call reply).pushed.flatten →
      Unpushed ((pushToBackend vaultId v call reply).vault.storedCursor call.backendId) c.hlcTimestamp
  whole : ∀ done todo, chunkChangesByHlc (scannedChanges vaultId v call) pushChunkSoftLimit = done ++ todo →
    ∀ x ∈ done.flatten, ∀ y ∈ todo.flatten, x.hlcTimestamp ≠ y.hlcTimestamp

/-- Wherever a run of equal HLCs would take a request over the limit: no HLC text
stands on both sides, and if all before can be read, all after is newer than it. -/
def OrderedAtCuts (changes : List ColumnChange) : Prop :=
  ∀ n ∈ cuts pushChunkSoftLimit 0 0 ((hlcRuns changes).map List.length),
    (∀ x ∈ changes.take n, ∀ y ∈ changes.drop n, x.hlcTimestamp ≠ y.hlcTimestamp) ∧
      ((∀ x ∈ changes.take n, (hlcRank x.hlcTimestamp).isSome) →
        ∀ x ∈ changes.take n, ∀ y ∈ changes.drop n, Newer y.hlcTimestamp x.hlcTimestamp)

def WholeAtCuts (changes : List ColumnChange) : Prop :=
  ∀ n ∈ cuts pushChunkSoftLimit 0 0 ((hlcRuns changes).map List.length),
    ∀ x ∈ changes.take n, ∀ y ∈ changes.drop n, x.hlcTimestamp ≠ y.hlcTimestamp

/-- The scanned changes are above the backend's stored cursor to begin with, and in order
at the cuts; where the backend has no row, no cursor is stored that could pass them. -/
def Resumable (v : Vault) (id : String) (changes : List ColumnChange) : Prop :=
  if (v.db.lastPushHlcTimestamp id).isSome then
    (∀ c ∈ changes, Unpushed (v.storedCursor id) c.hlcTimestamp) ∧ OrderedAtCuts changes
  else WholeAtCuts changes

theorem forall_cuts_changes {changes : List ColumnChange} (R : List ColumnChange → List ColumnChange → Prop) :
    (∀ n ∈ cuts pushChunkSoftLimit 0 0 ((hlcRuns changes).map List.length), R (changes.take n) (changes.drop n)) ↔
      ∀ done todo, chunkChangesByHlc changes pushChunkSoftLimit = done ++ todo → done ≠ [] → todo ≠ [] →
        R done.flatten todo.flatten := by
  have hflat : (hlcRuns changes).flatten = changes := List.flatten_splitBy _ _
  have hcuts := @forall_cuts ColumnChange pushChunkSoftLimit (hlcRuns changes) (List.nil_notMem_splitBy _ _) R
  rwa [hflat, ← chunkChangesByHlc_eq_pack] at hcuts

theorem orderedAtCuts_iff {changes : List ColumnChange} :
    OrderedAtCuts changes ↔ ∀ done todo, chunkChangesByHlc changes pushChunkSoftLimit = done ++ todo → done ≠ [] →
      todo ≠ [] → (∀ x ∈ done.flatten, ∀ y ∈ todo.flatten, x.hlcTimestamp ≠ y.hlcTimestamp) ∧
        ((∀ x ∈ done.flatten, (hlcRank x.hlcTimestamp).isSome) →
          ∀ x ∈ done.flatten, ∀ y ∈ todo.flatten, Newer y.hlcTimestamp x.hlcTimestamp) :=
  forall_cuts_changes fun before after => (∀ x ∈ before, ∀ y ∈ after, x.hlcTimestamp ≠ y.hlcTimestamp) ∧
    ((∀ x ∈ before, (hlcRank x.hlcTimestamp).isSome) → ∀ x ∈ before, ∀ y ∈ after, Newer y.hlcTimestamp x.hlcTimestamp)

theorem wholeAtCuts_iff {changes : List ColumnChange} :
    WholeAtCuts changes ↔ ∀ done todo, chunkChangesByHlc changes pushChunkSoftLimit = done ++ todo → done ≠ [] →
      todo ≠ [] → ∀ x ∈ done.flatten, ∀ y ∈ todo.flatten, x.hlcTimestamp ≠ y.hlcTimestamp :=
  forall_cuts_changes fun before after => ∀ x ∈ before, ∀ y ∈ after, x.hlcTimestamp ≠ y.hlcTimestamp

theorem OrderedAtCuts.whole {changes : List ColumnChange} (h : OrderedAtCuts changes) : WholeAtCuts changes :=
  fun n hn => (h n hn).1

theorem Resumable.whole {v : Vault} {id : String} {changes : List ColumnChange} (h : Resumable v id changes) :
    WholeAtCuts changes := by
  unfold Resumable at h
  split at h
  · exact h.2.whole
  · exact h

section
variable {vaultId : String} {v : Vault} {call : PushCall} {b : Backend} {dirtyTables : List DirtyTable}
  {changes : List ColumnChange} {done todo : List (List ColumnChange)}

theorem ne_nil_of_mem_flatten {x : ColumnChange} (hx : x ∈ done.flatten) : done ≠ [] := by
  intro e
  rw [e] at hx
  cases hx

theorem CheckpointSafe.newer (hsafe : CheckpointSafe vaultId v call)
    (hrow : (v.db.lastPushHlcTimestamp call.backendId).isSome)
    (hp : preparePush vaultId v call = .ok (b, dirtyTables, changes))
    (hsplit : chunkChangesByHlc changes pushChunkSoftLimit = done ++ todo)
    (hread : ∀ x ∈ done.flatten, (hlcRank x.hlcTimestamp).isSome) {x y : ColumnChange} (hx : x ∈ done.flatten)
    (hy : y ∈ todo.flatten) : Newer y.hlcTimestamp x.hlcTimestamp := by
  have hscan : scannedChanges vaultId v call = changes := by rw [scannedChanges, hp]
  have hflat := flatten_chunkChangesByHlc changes pushChunkSoftLimit
  have hyc : y ∈ changes := by
    rw [← hflat, hsplit, List.flatten_append]
    exact List.mem_append_right _ hy
  obtain ⟨chunk, hchunk, hxc⟩ := List.mem_flatten.1 hx
  obtain ⟨pre, post, rfl⟩ := List.append_of_mem hchunk
  have hchunks : chunkChangesByHlc changes pushChunkSoftLimit = pre ++ chunk :: (post ++ todo) := by simp [hsplit]
  have hmax : ∀ d ∈ pre ++ chunk :: post, (chunkMaxHlc d).isSome := by
    intro d hd
    refine chunkMaxHlc_isSome (fun e => nil_not_mem_chunks changes pushChunkSoftLimit ?_) fun c hc =>
      hread c (List.mem_flatten.2 ⟨d, hd, hc⟩)
    rw [hsplit, ← e]
    exact List.mem_append_left _ hd
  obtain ⟨m, hm⟩ := Option.isSome_iff_exists.1 (hmax chunk hchunk)
  obtain ⟨⟨z, hz, hzm⟩, hall⟩ := chunkMaxHlc_spec hm
  have hmne : m ≠ "" := by
    rw [← hzm]
    refine ((preparePush_ok hp).2 z ?_).1
    rw [← hflat, hchunks]
    exact List.mem_flatten.2 ⟨chunk, by simp, hz⟩
  obtain ⟨row, hrow⟩ := Option.isSome_iff_exists.1 hrow
  obtain ⟨hpushed, hcursor, -, -⟩ := pushToBackend_sent hp (takesBelow (0 + pre.length + 1))
  rw [hchunks] at hpushed hcursor
  obtain ⟨h₁, h₂⟩ := sendChunks_takesBelow (post ++ todo) 0 ⟨[], b.lastPushHlcTimestamp, none⟩
    (fun d hd => hmax d (List.mem_append_left _ hd)) hm
  have hunsent : y ∉ (pushToBackend vaultId v call (takesBelow (0 + pre.length + 1))).pushed.flatten := by
    rw [hpushed, h₁]
    intro hmem
    refine hsafe.whole (pre ++ [chunk]) (post ++ todo) (by simp [hscan, hchunks]) y (by simpa using hmem) y ?_ rfl
    rw [List.flatten_append]
    exact List.mem_append_right _ hy
  have hnewer := hsafe.resumable (takesBelow (0 + pre.length + 1)) y (by rw [hscan]; exact hyc) hunsent
  rw [hcursor, h₁, h₂, if_neg (by simp), hrow, Option.bind_some, unpushed_some hmne] at hnewer
  exact hnewer.of_not_newer (hall x hxc).1 (hall x hxc).2

theorem unsent_unpushed (hres : Resumable v call.backendId changes)
    (hp : preparePush vaultId v call = .ok (b, dirtyTables, changes)) (reply : Nat → Except String (Option String))
    {c : ColumnChange} (hc : c ∈ changes) (hunsent : c ∉ (pushToBackend vaultId v call reply).pushed.flatten) :
    Unpushed ((pushToBackend vaultId v call reply).vault.storedCursor call.backendId) c.hlcTimestamp := by
  obtain ⟨hpushed, hcursor, -, -⟩ := pushToBackend_sent hp reply
  obtain ⟨done, todo, hsplit, hdone, hread, hend⟩ := sendChunks_spec reply 0 ⟨[], b.lastPushHlcTimestamp, none⟩
    (chunkChangesByHlc changes pushChunkSoftLimit)
  rw [hpushed, hdone, List.nil_append] at hunsent
  rw [hcursor, hdone, List.nil_append]
  rcases hrow : v.db.lastPushHlcTimestamp call.backendId with _ | row
  · -- without a row nothing is stored
    simp [Vault.storedCursor, hrow, Unpushed, passesCursor]
  rw [Resumable, hrow, if_pos (Option.isSome_some)] at hres
  obtain ⟨habove, hord⟩ := hres
  rcases hend with ⟨hnone, -⟩ | ⟨z, hz, hend⟩
  · rw [if_pos hnone]
    exact habove c hc
  · have hctodo : c ∈ todo.flatten := by
      rw [← flatten_chunkChangesByHlc changes pushChunkSoftLimit, hsplit, List.flatten_append] at hc
      exact (List.mem_append.1 hc).resolve_left hunsent
    have hsides := orderedAtCuts_iff.1 hord done todo hsplit (ne_nil_of_mem_flatten hz) (ne_nil_of_mem_flatten hctodo)
    rw [if_neg (ne_nil_of_mem_flatten hz), Option.bind_some, hend]
    exact (hsides.2 hread z hz c hctodo).unpushed

/-- A server that refuses the first chunk leaves the stored cursor as it was. -/
theorem CheckpointSafe.above (hsafe : CheckpointSafe vaultId v call)
    (hp : preparePush vaultId v call = .ok (b, dirtyTables, changes)) {c : ColumnChange} (hc : c ∈ changes) :
    Unpushed (v.storedCursor call.backendId) c.hlcTimestamp := by
  have hscan : scannedChanges vaultId v call = changes := by rw [scannedChanges, hp]
  obtain ⟨hpushed, hcursor, -, -⟩ := pushToBackend_sent hp fun _ => .error "Failed to push changes"
  have hnone : (sendChunks (fun _ => .error "Failed to push changes") 0 ⟨[], b.lastPushHlcTimestamp, none⟩
      (chunkChangesByHlc changes pushChunkSoftLimit)).1.pushed = [] := by rw [sendChunks_rejected rfl]
  rw [hnone] at hpushed
  rw [hnone, if_pos rfl] at hcursor
  have hunsent : c ∉ (pushToBackend vaultId v call fun _ => .error "Failed to push changes").pushed.flatten := by
    rw [hpushed]
    exact List.not_mem_nil
  exact hcursor ▸ hsafe.resumable (fun _ => .error "Failed to push changes") c (hscan ▸ hc) hunsent

end

/-- A push can stop at any chunk exactly when what it scanned is above the stored cursor
and ordered at its cuts. -/
theorem push_checkpoint_safe_iff (vaultId : String) (v : Vault) (call : PushCall) :
    CheckpointSafe vaultId v call ↔ Resumable v call.backendId (scannedChanges vaultId v call) := by
  rcases hp : preparePush vaultId v call with e | ⟨b, dirtyTables, changes⟩
  · have hscan : scannedChanges vaultId v call = [] := by rw [scannedChanges, hp]
    refine ⟨fun _ => ?_, fun _ => ⟨by simp [hscan], ?_⟩⟩
    · rw [hscan, Resumable]
      split
      · exact ⟨fun _ hc => (List.not_mem_nil hc).elim, fun _ hn => (List.not_mem_nil hn).elim⟩
      · exact fun _ hn => (List.not_mem_nil hn).elim
    · intro done todo h x hx
      rw [hscan] at h
      exact absurd (List.append_eq_nil_iff.1 h.symm).1 (ne_nil_of_mem_flatten hx)
  · have hscan : scannedChanges vaultId v call = changes := by rw [scannedChanges, hp]
    constructor
    · intro hsafe
      rw [hscan, Resumable]
      split
      · rename_i hrow
        refine ⟨fun c hc => hsafe.above hp hc, orderedAtCuts_iff.2 fun done todo hsplit _ _ => ?_⟩
        exact ⟨hsafe.whole done todo (by rw [hscan]; exact hsplit),
          fun hread x hx y hy => hsafe.newer hrow hp hsplit hread hx hy⟩
      · exact wholeAtCuts_iff.2 fun done todo hsplit _ _ => hsafe.whole done todo (by rw [hscan]; exact hsplit)
    · intro hres
      rw [hscan] at hres
      refine ⟨fun reply c hc hunsent => ?_, fun done todo hsplit x hx y hy => ?_⟩
      · exact unsent_unpushed hres hp reply (hscan ▸ hc) hunsent
      · rw [hscan] at hsplit
        exact wholeAtCuts_iff.1 hres.whole done todo hsplit (ne_nil_of_mem_flatten hx) (ne_nil_of_mem_flatten hy) x hx y hy

/-! ## Two tables out of order -/

def bulkRow (hlc : String) (id : Nat) : Row := fun c =>
  if c = "id" then .integer id
  else if c = "title" then .text "x"
  else if c = "haex_hlc" then .text hlc
  else if c = "haex_column_hlcs" then .hlcs (Crdt.insertedHlcs ["title"] hlc)
  else .null

def bulkTable (hlc : String) (n : Nat) : Table :=
  { Crdt.emptyTable ["id"] ["title"] with rows := (List.range n).map (bulkRow hlc) }

def bulkVault : Vault where
  db := {
    tables := fun name =>
      if name = "notes" then some (bulkTable "10/a" 2000) else if name = "tags" then some (bulkTable "5/a" 1) else none
    lastPushHlcTimestamp := fun id => if id = "home" then some none else none }
  dirtyTables := [⟨"notes", "2026-01-01 10:00:00"⟩, ⟨"tags", "2026-01-01 10:00:01"⟩]
  backends := [⟨"home", "vault", true, none, none⟩]

def plainContext : ScanContext where
  deviceId := "device"
  epoch := none
  encryptCrdtData := fun _ => ("", "")
  parseJson := fun _ => none
  jsonObject := fun _ => ""
  order := ⟨id, List.Perm.refl⟩

def bulkChange (tableName hlc : String) (id : Nat) : ColumnChange :=
  ⟨⟨tableName, [("id", .integer id)], "title", hlc⟩, "", "", "device", none⟩

theorem collect_map_singletons {α β γ : Type} {f : β → Except ScanError (List γ)} {r : α → β} {g : α → γ}
    (h : ∀ a, f (r a) = .ok [g a]) (l : List α) : collect f (l.map r) = .ok (l.map g) := by
  induction l with
  | nil => rfl
  | cons a l ih =>
    rw [List.map_cons, collect, h a, ih]
    rfl

theorem scanRows_bulk (tableName hlc : String) (n : Nat) (hne : hlc ≠ "") :
    scanRows plainContext (bulkTable hlc n) tableName none (bulkTable hlc n).rows =
      .ok ((List.range n).map (bulkChange tableName hlc)) := by
  have hrow : ∀ id, rowChanges plainContext (bulkTable hlc n) tableName none (bulkRow hlc id) =
      .ok [bulkChange tableName hlc id] := by
    intro id
    have hcols : dataColumns (bulkTable hlc n) = ["title"] := rfl
    have hmap : rowColumnHlcs plainContext.parseJson (bulkRow hlc id) = .ok (Crdt.insertedHlcs ["title"] hlc) := rfl
    have huse : hlcToUse (Crdt.insertedHlcs ["title"] hlc) (bulkRow hlc id) "title" = hlc := by
      simp [hlcToUse, Crdt.insertedHlcs_lookup, hne]
    have hchange : columnChange plainContext (bulkTable hlc n) tableName (Crdt.insertedHlcs ["title"] hlc)
        (bulkRow hlc id) "title" = bulkChange tableName hlc id := by
      unfold columnChange bulkChange
      rw [huse]
      rfl
    unfold rowChanges
    rw [hmap, hcols]
    simp only [bind, Except.bind, collect, huse, if_neg hne, passesCursor, hchange]
    rfl
  have hrows : (bulkTable hlc n).rows = (List.range n).map (bulkRow hlc) := rfl
  have hpk : (bulkTable hlc n).pkNames ≠ [] := by
    show ["id"] ≠ []
    simp
  have hfilter : ((bulkTable hlc n).rows.filter (aboveCursor none)) = (List.range n).map (bulkRow hlc) := by
    rw [hrows, List.filter_eq_self]
    intro r _
    rfl
  unfold scanRows
  rw [if_neg hpk, hfilter]
  exact collect_map_singletons hrow (List.range n)

theorem scanForBackend_bulk {db : Database} {tableName hlc : String} {n : Nat}
    (ht : db.tables tableName = some (bulkTable hlc n)) (hne : hlc ≠ "") :
    scanForBackend plainContext db "vault" ⟨"home", "vault", true, none, none⟩ [] tableName =
      .ok ((List.range n).map (bulkChange tableName hlc)) := by
  unfold scanForBackend scanTableForChanges
  rw [if_pos rfl, ht]
  exact scanRows_bulk tableName hlc n hne

theorem chunk_two_runs {xs : List ColumnChange} {y : ColumnChange} {hlc : String} {softLimit : Nat} (hne : xs ≠ [])
    (hxs : ∀ x ∈ xs, x.hlcTimestamp = hlc) (hy : y.hlcTimestamp ≠ hlc) (hlen : softLimit < xs.length + 1) :
    chunkChangesByHlc (xs ++ [y]) softLimit = [xs, [y]] := by
  have hchain : xs.IsChain fun a b => (a.hlcTimestamp == b.hlcTimestamp) = true := by
    refine (List.pairwise_of_forall_mem_list fun a ha b hb => ?_).isChain
    simp [hxs a ha, hxs b hb]
  have hruns : hlcRuns (xs ++ [y]) = [xs, [y]] := by
    have hsplit := List.splitBy_append_cons (r := fun a b : ColumnChange => a.hlcTimestamp == b.hlcTimestamp) (l := xs)
      (a := y) [] fun x hx => by
        have := hxs x (List.mem_of_getLast? hx)
        simpa [this] using fun e => hy e.symm
    rw [hlcRuns, hsplit, List.splitBy_of_isChain hne hchain,
      List.splitBy_of_isChain (l := [y]) (by simp) (List.isChain_singleton _)]
    rfl
  rw [chunkChangesByHlc_eq_pack, hruns]
  simp [pack, hne, hlen]

def bulkNotes : List ColumnChange := (List.range 2000).map (bulkChange "notes" "10/a")

theorem bulkNotes_hlc {x : ColumnChange} (hx : x ∈ bulkNotes) : x.hlcTimestamp = "10/a" := by
  obtain ⟨id, -, rfl⟩ := List.mem_map.1 hx
  rfl

theorem preparePush_bulk : preparePush "vault" bulkVault ⟨"home", .ok plainContext, fun _ => false⟩ =
    .ok (⟨"home", "vault", true, none, none⟩, bulkVault.dirtyTables, bulkNotes ++ [bulkChange "tags" "5/a" 0]) := by
  have hdirty : getDirtyTables bulkVault.dirtyTables = bulkVault.dirtyTables := by decide
  have hnotes : scanForBackend plainContext bulkVault.db "vault" ⟨"home", "vault", true, none, none⟩ [] "notes" =
      .ok bulkNotes := scanForBackend_bulk (by simp [bulkVault]) (by decide)
  have htags : scanForBackend plainContext bulkVault.db "vault" ⟨"home", "vault", true, none, none⟩ [] "tags" =
      .ok [bulkChange "tags" "5/a" 0] := scanForBackend_bulk (n := 1) (by simp [bulkVault]) (by decide)
  have hscan : scanDirtyTables plainContext bulkVault.db "vault" ⟨"home", "vault", true, none, none⟩ [] (fun _ => false)
      bulkVault.dirtyTables = bulkNotes ++ [bulkChange "tags" "5/a" 0] := by
    have hd : bulkVault.dirtyTables = [⟨"notes", "2026-01-01 10:00:00"⟩, ⟨"tags", "2026-01-01 10:00:01"⟩] := rfl
    unfold scanDirtyTables
    rw [hd, List.flatMap_cons, List.flatMap_cons, List.flatMap_nil]
    simp [hnotes, htags, Except.toOption]
  have hb : bulkVault.backend "home" = some ⟨"home", "vault", true, none, none⟩ := rfl
  have hne : bulkVault.dirtyTables ≠ [] := by simp [bulkVault]
  unfold preparePush
  simp [hb, hdirty, hne, hscan]

/-- The chunk of notes goes first and takes the cursor to 10; if the server then
fails, the tag of HLC 5 is below it and no later scan emits it. -/
theorem push_skips_older_tag : ¬ CheckpointSafe "vault" bulkVault ⟨"home", .ok plainContext, fun _ => false⟩ := by
  intro hsafe
  have hzero : bulkChange "notes" "10/a" 0 ∈ bulkNotes := List.mem_map.2 ⟨0, by simp, rfl⟩
  have hlen : pushChunkSoftLimit < bulkNotes.length + 1 := by simp [pushChunkSoftLimit, bulkNotes]
  have hchunks : chunkChangesByHlc (bulkNotes ++ [bulkChange "tags" "5/a" 0]) pushChunkSoftLimit =
      [bulkNotes] ++ [[bulkChange "tags" "5/a" 0]] :=
    chunk_two_runs (List.ne_nil_of_mem hzero) (fun x hx => bulkNotes_hlc hx) (by decide) hlen
  have hnewer := hsafe.newer (by decide) preparePush_bulk hchunks
    (fun x hx => by rw [List.flatten_singleton] at hx; rw [bulkNotes_hlc hx]; decide)
    (by rw [List.flatten_singleton]; exact hzero) (List.mem_singleton.2 rfl)
  exact absurd hnewer (by decide)

end HaexVault.Sync
