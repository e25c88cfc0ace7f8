import HaexVault.Lib.Runs
import HaexVault.Sync.Push
/-!
# Several backends, one dirty set

Push cursors are kept per backend, but there is one dirty-tables tracker: a push that succeeds clears
every table it read, whether its scan covered them or not, and whether or not another backend still
waits for them (`other_backends_stay_dirty`).
-/

namespace HaexVault.Sync

open HaexVault.Crdt (Database Table Row SqlValue ColumnHlcs)
open HaexVault.Lib HaexVault.Lib.Chunks HaexVault.Lib.Runs

structure Fleet where
  vault : Vault
  accepted : String → List CellChange

/-- A push and how the server answers it. -/
structure Push where
  call : PushCall
  reply : Nat → Except String (Option String)

section
variable (vaultId : String)

def Fleet.push (f : Fleet) (p : Push) : Fleet :=
  let r := pushToBackend vaultId f.vault p.call p.reply
  { vault := r.vault
    accepted := Function.update f.accepted p.call.backendId
      (f.accepted p.call.backendId ++ r.pushed.flatten.map ColumnChange.toCellChange) }

variable (parseJson : String → Option ColumnHlcs) (jsonObject : List (String × SqlValue) → String)

/-- The rows of a table that may travel to a backend: all to a personal one, those of
its space to a shared one. -/
def scopeRows (db : Database) (b : Backend) (tableName : String) (t : Table) : List Row :=
  if b.spaceId = vaultId then t.rows
  else match sharedSpaceBuiltinTables.lookup tableName with
    | some .self => spaceColumnRows t b.spaceId "id"
    | some (.spaceIdColumn column) => spaceColumnRows t b.spaceId column
    | none => match db.tables "haex_shared_space_sync" with
      | none => []
      | some sync => t.rows.filter fun r => (assignments sync tableName b.spaceId).any fun a =>
          a "row_pks" = .text (jsonObject (extractPrimaryKeys t r))

def InScope (db : Database) (b : Backend) (c : CellChange) : Prop :=
  c ∈ match db.tables c.tableName with
    | none => []
    | some t => (scopeRows vaultId jsonObject db b c.tableName t).flatMap (rowCells parseJson t c.tableName)

instance (db : Database) (b : Backend) (c : CellChange) : Decidable (InScope vaultId parseJson jsonObject db b c) :=
  inferInstanceAs (Decidable (_ ∈ _))

def Awaits (f : Fleet) (b : Backend) (c : CellChange) : Prop :=
  b ∈ f.vault.backends ∧ b.enabled = true ∧ InScope vaultId parseJson jsonObject f.vault.db b c ∧ c ∉ f.accepted b.id

def AllDirty (locals : List CellChange) (f : Fleet) : Prop :=
  ∀ c ∈ locals, ∀ b, Awaits vaultId parseJson jsonObject f b c → c.tableName ∈ f.vault.dirtyTables.map (·.tableName)

/-- A push that reaches its end: it can be prepared, the server takes every chunk, and
every HLC can be read. -/
def Completes (f : Fleet) (p : Push) : Prop :=
  (preparePush vaultId f.vault p.call).isOk = true ∧
    (∀ i < (chunkChangesByHlc (scannedChanges vaultId f.vault p.call) pushChunkSoftLimit).length, (p.reply i).isOk = true) ∧
    ∀ c ∈ scannedChanges vaultId f.vault p.call, (hlcRank c.hlcTimestamp).isSome

/-- The scan of a push comes to a change and lets it through: the change's table is
scanned without an error, and the change and its row are above the backend's cursor. -/
structure ScanReaches (db : Database) (call : PushCall) (ctx : ScanContext) (b : Backend) (c : CellChange) : Prop where
  scanned : call.scanFails c.tableName = false
  table : ∃ t, db.tables c.tableName = some t ∧ t.pkNames ≠ [] ∧
    (∀ r ∈ scopeRows vaultId ctx.jsonObject db b c.tableName t, aboveCursor b.lastPushHlcTimestamp r = true →
      RowReadable ctx.parseJson t b.lastPushHlcTimestamp r) ∧
    ∃ r ∈ scopeRows vaultId ctx.jsonObject db b c.tableName t,
      c ∈ rowCells ctx.parseJson t c.tableName r ∧ aboveCursor b.lastPushHlcTimestamp r = true
  unpushed : Unpushed b.lastPushHlcTimestamp c.hlcTimestamp

/-- When a push reaches its end, every local change that an enabled backend waits for is
one of the pushed backend's own that its scan reaches. -/
def PushMeets (locals : List CellChange) (f : Fleet) (p : Push) : Prop :=
  Completes vaultId f p → ∀ c ∈ locals, ∀ b, Awaits vaultId parseJson jsonObject f b c →
    f.vault.backend p.call.backendId = some b ∧
      ∀ ctx, p.call.context = .ok ctx → ScanReaches vaultId f.vault.db p.call ctx b c

end

/-! ## The scan -/

section
variable {vaultId : String} {ctx : ScanContext} {db : Database} {b : Backend} {extensionTables : List String}

theorem mem_extensionTables {tableName : String} {sync : Table} (hsync : db.tables "haex_shared_space_sync" = some sync)
    (h : extensionTablesForSpace db b.spaceId = .ok extensionTables) (hbuiltin : sharedSpaceBuiltinTables.lookup tableName = none)
    {a : Row} (ha : a ∈ assignments sync tableName b.spaceId) : tableName ∈ extensionTables := by
  unfold extensionTablesForSpace at h
  rw [hsync] at h
  cases h
  obtain ⟨ha, hnames⟩ := List.mem_filter.1 ha
  simp only [Bool.and_eq_true, decide_eq_true_eq] at hnames
  refine List.mem_filter.2 ⟨List.mem_dedup.2 (List.mem_filterMap.2 ⟨a, ?_, ?_⟩), ?_⟩
  · exact List.mem_filter.2 ⟨ha, by simpa using hnames.2⟩
  · rw [hnames.1]
    rfl
  · simp [isBuiltinSharedSpaceTable, hbuiltin]

theorem scanForBackend_eq {tableName : String} {t : Table} (ht : db.tables tableName = some t)
    (hext : (if b.spaceId = vaultId then .ok [] else extensionTablesForSpace db b.spaceId) = .ok extensionTables)
    {r : Row} (hr : r ∈ scopeRows vaultId ctx.jsonObject db b tableName t) :
    ∃ selected, scanForBackend ctx db vaultId b extensionTables tableName =
        scanRows ctx t tableName b.lastPushHlcTimestamp selected ∧
      ∀ x, x ∈ selected ↔ x ∈ scopeRows vaultId ctx.jsonObject db b tableName t := by
  unfold scopeRows at hr ⊢
  unfold scanForBackend
  by_cases hown : b.spaceId = vaultId
  · simp only [if_pos hown] at hr ⊢
    exact ⟨t.rows, by simp only [scanTableForChanges, ht], fun _ => Iff.rfl⟩
  · simp only [if_neg hown] at hr hext ⊢
    rcases hpolicy : sharedSpaceBuiltinTables.lookup tableName with _ | ⟨_ | column⟩
    · -- an extension table: the join gives the rows that some assignment names
      simp only [hpolicy] at hr ⊢
      rcases hsync : db.tables "haex_shared_space_sync" with _ | sync
      · rw [hsync] at hr
        cases hr
      · simp only [hsync] at hr
        obtain ⟨-, hnamed⟩ := List.mem_filter.1 hr
        obtain ⟨a, ha, -⟩ := List.any_eq_true.1 hnamed
        have hne : assignments sync tableName b.spaceId ≠ [] := List.ne_nil_of_mem ha
        rw [if_pos (mem_extensionTables hsync hext hpolicy ha)]
        refine ⟨assignedRows ctx t sync tableName b.spaceId, ?_, fun x => ?_⟩
        · simp only [scanTableForSpaceChanges, hsync, if_neg hne, ht]
        · simp [assignedRows, List.any_eq_true, and_comm]
    · dsimp only
      exact ⟨_, by simp only [scanTableForSpaceColumnChanges, ht], fun _ => Iff.rfl⟩
    · dsimp only
      exact ⟨_, by simp only [scanTableForSpaceColumnChanges, ht], fun _ => Iff.rfl⟩

theorem scanForBackend_complete {call : PushCall} {c : CellChange} (h : ScanReaches vaultId db call ctx b c)
    (hext : (if b.spaceId = vaultId then .ok [] else extensionTablesForSpace db b.spaceId) = .ok extensionTables) :
    ∃ cs, scanForBackend ctx db vaultId b extensionTables c.tableName = .ok cs ∧ c ∈ cs.map ColumnChange.toCellChange := by
  obtain ⟨t, ht, hpk, hread, r, hr, hc, habove⟩ := h.table
  obtain ⟨selected, hscan, hsel⟩ := scanForBackend_eq ht hext hr
  obtain ⟨cs, hcs, hall⟩ := scanRows_complete hpk fun x hx => hread x ((hsel x).1 hx)
  exact ⟨cs, hscan.trans hcs, hall r ((hsel r).2 hr) habove c hc h.unpushed⟩

theorem reached_scanned {v : Vault} {call : PushCall} {c : CellChange} (hprep : (preparePush vaultId v call).isOk = true)
    (hdirty : c.tableName ∈ v.dirtyTables.map (·.tableName)) (hb : v.backend call.backendId = some b)
    (h : ∀ ctx, call.context = .ok ctx → ScanReaches vaultId v.db call ctx b c) :
    c ∈ (scannedChanges vaultId v call).map ColumnChange.toCellChange := by
  obtain ⟨d, hd, hname⟩ := List.mem_map.1 hdirty
  have hd : d ∈ getDirtyTables v.dirtyTables := (List.perm_insertionSort _ _).mem_iff.2 hd
  unfold scannedChanges
  rcases hp : preparePush vaultId v call with e | ⟨b', dirtyTables, changes⟩
  · rw [hp] at hprep
    cases hprep
  obtain ⟨hb', -, rfl, ctx, hctx, ⟨hnil, -⟩ | ⟨-, extensionTables, hext, rfl⟩⟩ := preparePush_inv hp
  · exact absurd hnil (List.ne_nil_of_mem hd)
  · obtain rfl : b = b' := Option.some.inj (hb.symm.trans hb')
    obtain ⟨cs, hcs, hc⟩ := scanForBackend_complete (h ctx hctx) hext
    obtain ⟨x, hx, rfl⟩ := List.mem_map.1 hc
    refine List.mem_map.2 ⟨x, List.mem_flatMap.2 ⟨d, hd, ?_⟩, rfl⟩
    rw [hname, (h ctx hctx).scanned, hcs]
    exact hx

end

/-! ## One push -/

theorem sendChunks_none {reply : Nat → Except String (Option String)} {i : Nat} {s : Sending}
    {chunks : List (List ColumnChange)} (h : (sendChunks reply i s chunks).2 = none) :
    (sendChunks reply i s chunks).1.pushed = s.pushed ++ chunks ∧
      (∀ j < chunks.length, (reply (i + j)).isOk = true) ∧ ∀ c ∈ chunks.flatten, (hlcRank c.hlcTimestamp).isSome := by
  induction chunks generalizing i s with
  | nil => exact ⟨by simp [sendChunks], by simp, by simp⟩
  | cons chunk chunks ih =>
    unfold sendChunks at h ⊢
    split at h
    · cases h
    · rename_i max hmax
      split at h
      · cases h
      · rename_i ts hreply
        obtain ⟨hpushed, hok, hread⟩ := ih h
        refine ⟨by rw [hpushed]; simp, fun j hj => ?_, fun c hc => ?_⟩
        · rcases j with _ | j
          · rw [Nat.add_zero, hreply]
            rfl
          · have := hok j (by simpa using hj)
            rwa [Nat.add_right_comm, Nat.add_assoc] at this
        · rcases List.mem_append.1 (List.flatten_cons ▸ hc) with hc | hc
          · exact ((chunkMaxHlc_spec hmax).2 c hc).1
          · exact hread c hc

section
variable {vaultId : String} {parseJson : String → Option ColumnHlcs} {jsonObject : List (String × SqlValue) → String}
  {locals : List CellChange} {v : Vault}

def SameBackends (bs bs' : List Backend) : Prop :=
  ∀ b' ∈ bs', ∃ b ∈ bs, b.id = b'.id ∧ b.spaceId = b'.spaceId ∧ b.enabled = b'.enabled

theorem SameBackends.refl (bs : List Backend) : SameBackends bs bs := fun b hb => ⟨b, hb, rfl, rfl, rfl⟩

theorem updateBackend_same (v : Vault) (id : String) {f : Backend → Backend}
    (hf : ∀ b, (f b).id = b.id ∧ (f b).spaceId = b.spaceId ∧ (f b).enabled = b.enabled) {bs : List Backend}
    (h : SameBackends bs v.backends) : SameBackends bs (v.updateBackend id f).backends := by
  unfold Vault.updateBackend
  split
  · intro b' hb'
    obtain ⟨b, hb, rfl⟩ := List.mem_map.1 hb'
    obtain ⟨b₀, hb₀, hid, hspace, hen⟩ := h b hb
    split
    · exact ⟨b₀, hb₀, hid.trans (hf b).1.symm, hspace.trans (hf b).2.1.symm, hen.trans (hf b).2.2.symm⟩
    · exact ⟨b₀, hb₀, hid, hspace, hen⟩
  · exact h

theorem pushToBackend_frame (vaultId : String) (f : Fleet) (p : Push) :
    (pushToBackend vaultId f.vault p.call p.reply).vault.db.tables = f.vault.db.tables ∧
      SameBackends f.vault.backends (pushToBackend vaultId f.vault p.call p.reply).vault.backends ∧
      ((pushToBackend vaultId f.vault p.call p.reply).vault.dirtyTables = f.vault.dirtyTables ∨
        (Completes vaultId f p ∧
          (pushToBackend vaultId f.vault p.call p.reply).pushed.flatten = scannedChanges vaultId f.vault p.call)) := by
  unfold pushToBackend Completes scannedChanges
  rcases hp : preparePush vaultId f.vault p.call with e | ⟨b, dirtyTables, changes⟩
  · exact ⟨rfl, SameBackends.refl _, .inl rfl⟩
  · dsimp only
    split
    · rename_i hnil
      subst hnil
      exact ⟨rfl, SameBackends.refl _, .inr ⟨⟨rfl, by simp [chunkChangesByHlc], by simp⟩, rfl⟩⟩
    · generalize hs : sendChunks p.reply 0 ⟨[], b.lastPushHlcTimestamp, none⟩
        (chunkChangesByHlc changes pushChunkSoftLimit) = r
      obtain ⟨s, error⟩ := r
      obtain ⟨v, hv⟩ : ∃ v, v = if s.pushed = [] then f.vault
          else f.vault.setCursor p.call.backendId (s.lastPushHlcTimestamp.getD "") := ⟨_, rfl⟩
      have hframe : v.db.tables = f.vault.db.tables ∧ SameBackends f.vault.backends v.backends ∧
          v.dirtyTables = f.vault.dirtyTables := by
        rw [hv]
        split
        · exact ⟨rfl, SameBackends.refl _, rfl⟩
        · refine ⟨rfl, updateBackend_same f.vault _ ?_ (SameBackends.refl _), f.vault.setCursor_dirtyTables _ _⟩
          exact fun _ => ⟨rfl, rfl, rfl⟩
      dsimp only
      rw [← hv]
      obtain ⟨hdb, hsame, hdirty⟩ := hframe
      split
      · exact ⟨hdb, hsame, .inl hdirty⟩
      · rename_i herr
        have herr : error = none := by simpa using herr
        have hnone := @sendChunks_none p.reply 0 ⟨[], b.lastPushHlcTimestamp, none⟩
          (chunkChangesByHlc changes pushChunkSoftLimit) (by rw [hs]; exact herr)
        rw [hs, flatten_chunkChangesByHlc] at hnone
        obtain ⟨hpushed, hok, hread⟩ := hnone
        have hflat : s.pushed.flatten = changes := by
          rw [show s.pushed = _ from hpushed, List.nil_append, flatten_chunkChangesByHlc]
        refine ⟨?_, ?_, .inr ⟨⟨rfl, fun i hi => by simpa using hok i hi, hread⟩, hflat⟩⟩
        · split
          · rw [v.updateBackend_db, hdb]
          · exact hdb
        · split
          · refine updateBackend_same _ _ ?_ hsame
            exact fun _ => ⟨rfl, rfl, rfl⟩
          · exact hsame

theorem inScope_congr {db db' : Database} {b b' : Backend} {c : CellChange} (hdb : db'.tables = db.tables)
    (h : b.spaceId = b'.spaceId) :
    InScope vaultId parseJson jsonObject db b c ↔ InScope vaultId parseJson jsonObject db' b' c := by
  unfold InScope scopeRows
  rw [h, hdb]

theorem awaits_before {f : Fleet} {p : Push} {b : Backend} {c : CellChange}
    (h : Awaits vaultId parseJson jsonObject (f.push vaultId p) b c) :
    ∃ b₀, Awaits vaultId parseJson jsonObject f b₀ c ∧ (b₀.id = p.call.backendId →
      c ∉ (pushToBackend vaultId f.vault p.call p.reply).pushed.flatten.map ColumnChange.toCellChange) := by
  obtain ⟨hdb, hsame, -⟩ := pushToBackend_frame vaultId f p
  obtain ⟨hb, hen, hscope, hna⟩ := h
  obtain ⟨b₀, hb₀, hid, hspace, henabled⟩ := hsame b hb
  refine ⟨b₀, ⟨hb₀, henabled.trans hen, (inScope_congr hdb hspace).2 hscope, fun hacc => hna ?_⟩, fun hown hsent => hna ?_⟩
  · show c ∈ Function.update f.accepted _ _ b.id
    rw [← hid]
    by_cases hown : b₀.id = p.call.backendId
    · rw [hown, Function.update_self]
      exact List.mem_append_left _ (hown ▸ hacc)
    · rw [Function.update_of_ne hown]
      exact hacc
  · show c ∈ Function.update f.accepted _ _ b.id
    rw [← hid, hown, Function.update_self]
    exact List.mem_append_right _ hsent

theorem push_allDirty (f : Fleet) (p : Push) (h : AllDirty vaultId parseJson jsonObject locals f)
    (hm : PushMeets vaultId parseJson jsonObject locals f p) :
    AllDirty vaultId parseJson jsonObject locals (f.push vaultId p) := by
  intro c hc b hb
  obtain ⟨b₀, hwaits, hunsent⟩ := awaits_before hb
  rcases (pushToBackend_frame vaultId f p).2.2 with hkept | ⟨hend, hall⟩
  · show c.tableName ∈ (pushToBackend vaultId f.vault p.call p.reply).vault.dirtyTables.map _
    rw [hkept]
    exact h c hc b₀ hwaits
  · -- the push delivered the change to the only backend that waited for it
    obtain ⟨hown, hreach⟩ := hm hend c hc b₀ hwaits
    have hscanned := reached_scanned hend.1 (h c hc b₀ hwaits) hown hreach
    -- the backend row is found by its id
    have hid : b₀.id = p.call.backendId := Keyed.get_key hown
    exact absurd (hall ▸ hscanned) (hunsent hid)

/-- In every sequence of pushes that meet the condition, every local change that an
enabled backend waits for stays in a dirty table. -/
theorem other_backends_stay_dirty {f : Fleet} {ps : List Push} (h0 : AllDirty vaultId parseJson jsonObject locals f)
    (h : Guarded (Fleet.push vaultId) (PushMeets vaultId parseJson jsonObject locals) f ps) :
    AllDirty vaultId parseJson jsonObject locals (run (Fleet.push vaultId) f ps) :=
  h.inv push_allDirty h0

end

/-! ## A personal backend and a shared space -/

/-- One local note, which only the personal backend `home` may receive. -/
def notesFleet : Fleet where
  vault := {
    db := {
      tables := fun name =>
        if name = "notes" then some (bulkTable "5/a" 1)
        else if name = "haex_shared_space_sync" then some (Crdt.emptyTable ["id"] ["table_name", "space_id", "row_pks"])
        else none
      lastPushHlcTimestamp := fun id => if id = "home" ∨ id = "club" then some none else none }
    dirtyTables := [⟨"notes", "2026-01-01 10:00:00"⟩]
    backends := [⟨"home", "vault", true, none, none⟩, ⟨"club", "club-space", true, none, none⟩] }
  accepted := fun _ => []

def localNote : CellChange := ⟨"notes", [("id", .integer 0)], "title", "5/a"⟩

def pushTo (backendId : String) : Push := ⟨⟨backendId, .ok plainContext, fun _ => false⟩, fun _ => .ok none⟩

theorem other_backends_stay_dirty_notes :
    AllDirty "vault" (fun _ => none) (fun _ => "") [localNote] (run (Fleet.push "vault") notesFleet [pushTo "home"]) := by
  have hclub : ¬ InScope "vault" (fun _ => none) (fun _ => "") notesFleet.vault.db
      ⟨"club", "club-space", true, none, none⟩ localNote := by decide
  have hreach : ScanReaches "vault" notesFleet.vault.db (pushTo "home").call plainContext
      ⟨"home", "vault", true, none, none⟩ localNote := by
    refine ⟨rfl, ⟨bulkTable "5/a" 1, rfl, by decide, fun r hr _ => ?_, bulkRow "5/a" 0, List.mem_singleton.2 rfl, ?_, rfl⟩, rfl⟩
    · rw [List.mem_singleton.1 hr]
      exact ⟨Crdt.insertedHlcs ["title"] "5/a", rfl, fun _ _ _ => rfl⟩
    · decide
  refine other_backends_stay_dirty (fun c hc b _ => ?_) ⟨fun _ c hc b hb => ?_, trivial⟩
  · rw [List.mem_singleton.1 hc]
    decide
  · obtain rfl := List.mem_singleton.1 hc
    obtain ⟨hmem, -, hscope, -⟩ := hb
    -- only the personal backend waits for the note
    rcases List.mem_cons.1 hmem with rfl | hmem
    · refine ⟨rfl, fun ctx hctx => ?_⟩
      cases hctx
      exact hreach
    · obtain rfl := List.mem_singleton.1 hmem
      exact absurd hscope hclub

/-- A push to the shared space skips the private table, then clears it: nothing tells
the personal backend that a note waits for it. -/
theorem space_push_hides_private_table :
    ¬ AllDirty "vault" (fun _ => none) (fun _ => "") [localNote]
      (run (Fleet.push "vault") notesFleet [pushTo "club"]) := by
  intro h
  refine absurd (h localNote (List.mem_singleton.2 rfl) ⟨"home", "vault", true, none, none⟩ ⟨?_, rfl, ?_, ?_⟩) ?_
  · exact List.mem_cons_self
  · decide
  · decide
  · decide

end HaexVault.Sync
