import HaexVault.Crdt.RowClock
import HaexVault.Sync.Orchestrator
/-!
# Unpushed changes and the push cursor

A scan emits only what is above the push cursor, so a local change that the server has not taken must
stay above it. The checkpoints of a push and the pull transaction move the cursor, the latter to the
newest HLC it pulled (`unpushed_above_cursor`).
-/

namespace HaexVault.Sync

open HaexVault.Crdt (Database DatabaseError Row Table SqlValue RemoteColumnChange localInsert localUpdate localDelete logDelete
  applyRemoteChangesToDb setPushCursor apply_cursor)
open HaexVault.Lib.Runs HaexVault.Lib.Steps

def Session.unaccepted (s : Session) : List CellChange := s.pending.filter fun c => c ∉ s.accepted

def Phase.inFlight : Phase → List ColumnChange
  | .sending _ todo => todo.flatten
  | _ => []

/-- What each step must bring for the cursor to stay below every unaccepted change. -/
def CursorMeets (pf : Platform) (s : Session) : Event → Prop
  | .write _ _ hlc _ => Unpushed s.storedCursor hlc ∧ Unpushed s.loadedCursor hlc ∧
      ∀ x ∈ s.phase.inFlight, Newer hlc x.hlcTimestamp
  | .pullBatch hash changes => s.phase = .idle →
      ∀ max db, applyRemoteChangesToDb pf.env hash s.db changes (some (s.backend.id, max)) = .ok db →
        ∀ c ∈ s.unaccepted, ∀ ch ∈ changes, Newer c.hlcTimestamp ch.hlcTimestamp
  | .pushScan fails => ∀ ctx b extensionTables dirtyTables d scanned,
      s.phase = .scanning ctx b extensionTables dirtyTables [d] scanned →
        let allChanges := scanned ++ tableChanges pf s.db ctx b extensionTables fails d.tableName
        OrderedAtCuts allChanges ∧ ∀ c ∈ s.unaccepted,
          c ∈ allChanges.map ColumnChange.toCellChange ∨ ∀ x ∈ allChanges, Newer c.hlcTimestamp x.hlcTimestamp
  | _ => True

def AboveCursor (s : Session) : Prop :=
  ∀ c ∈ s.unaccepted, Unpushed s.storedCursor c.hlcTimestamp ∧ Unpushed s.loadedCursor c.hlcTimestamp

def Separated : List (List ColumnChange) → Prop
  | [] => True
  | chunk :: todo => (∀ x ∈ chunk, (hlcRank x.hlcTimestamp).isSome) →
      (∀ x ∈ chunk, ∀ y ∈ todo.flatten, Newer y.hlcTimestamp x.hlcTimestamp) ∧ Separated todo

/-- What holds of the chunks on their way: they are separated, and an unaccepted change
is among them or newer than all of them. -/
def SendingSafe (s : Session) : Prop :=
  ∀ dirtyTables todo, s.phase = .sending dirtyTables todo → Separated todo ∧
    ∀ c ∈ s.unaccepted, c ∈ todo.flatten.map ColumnChange.toCellChange ∨
      ∀ x ∈ todo.flatten, Newer c.hlcTimestamp x.hlcTimestamp

structure CursorSafe (s : Session) : Prop where
  above : AboveCursor s
  sending : SendingSafe s

/-! ## Chunks of an ordered stream -/

theorem separated_of_ordered {changes : List ColumnChange} (h : OrderedAtCuts changes) {todo done : List (List ColumnChange)}
    (hsplit : chunkChangesByHlc changes pushChunkSoftLimit = done ++ todo)
    (hread : ∀ x ∈ done.flatten, (hlcRank x.hlcTimestamp).isSome) : Separated todo := by
  induction todo generalizing done with
  | nil => trivial
  | cons chunk todo ih =>
    intro hchunk
    have hsplit' : chunkChangesByHlc changes pushChunkSoftLimit = (done ++ [chunk]) ++ todo := by simp [hsplit]
    have hread' : ∀ x ∈ (done ++ [chunk]).flatten, (hlcRank x.hlcTimestamp).isSome := by
      intro x hx
      rw [List.flatten_append, List.flatten_singleton] at hx
      exact (List.mem_append.1 hx).elim (hread x) (hchunk x)
    refine ⟨fun x hx y hy => ?_, ih hsplit' hread'⟩
    have hx' : x ∈ (done ++ [chunk]).flatten := by
      rw [List.flatten_append, List.flatten_singleton]
      exact List.mem_append_right _ hx
    exact (orderedAtCuts_iff.1 h _ todo hsplit' (ne_nil_of_mem_flatten hx') (ne_nil_of_mem_flatten hy)).2 hread' x hx' y hy

/-! ## The steps -/

theorem foldlM_logDelete_cursor {jsonObject : List (String × SqlValue) → String} {uuid : Row → String} {name hlc : String}
    {t : Table} {rows : List Row} {db db' : Database} (h : rows.foldlM (logDelete jsonObject uuid name t hlc) db = .ok db') :
    db'.lastPushHlcTimestamp = db.lastPushHlcTimestamp := by
  induction rows generalizing db with
  | nil =>
    cases h
    rfl
  | cons r rows ih =>
    rw [List.foldlM_cons] at h
    obtain ⟨db₁, h₁, h⟩ := bind_eq_ok.1 h
    refine (ih h).trans ?_
    unfold logDelete at h₁
    split at h₁
    · cases h₁
    · split at h₁
      · cases h₁
        rfl
      · cases h₁

theorem exec_cursor {pf : Platform} {db db' : Database} {tableName hlc : String} {w : LocalWrite}
    (h : w.exec pf db tableName hlc = .ok db') : db'.lastPushHlcTimestamp = db.lastPushHlcTimestamp := by
  rcases w with pairs | ⟨p, sets⟩ | ⟨p, uuid⟩
  · simp only [LocalWrite.exec, localInsert] at h
    split at h
    · cases h
    · split at h
      · cases h
      · cases h
        rfl
  · simp only [LocalWrite.exec, localUpdate] at h
    split at h
    · cases h
    · rename_i t _
      rcases hu : Crdt.updateRows t (db.triggersFire t) hlc p sets [] t.rows with e | rows
      · rw [hu] at h
        cases h
      · rw [hu] at h
        cases h
        rfl
  · simp only [LocalWrite.exec, localDelete] at h
    split at h
    · cases h
    · -- the trigger only adds to the delete log, and the delete takes rows
      obtain ⟨db₁, hlog, h⟩ : ∃ db₁ : Database, db₁.lastPushHlcTimestamp = db.lastPushHlcTimestamp ∧
          (db' = db₁ ∨ ∃ t', db' = db₁.setTable tableName t') := by
        split at h
        · obtain ⟨db₁, h₁, h⟩ := bind_eq_ok.1 h
          refine ⟨db₁, foldlM_logDelete_cursor h₁, ?_⟩
          split at h
          · exact .inl (Except.ok.inj h).symm
          · exact .inr ⟨_, (Except.ok.inj h).symm⟩
        · obtain ⟨db₁, h₁, h⟩ := bind_eq_ok.1 h
          refine ⟨db₁, congrArg Database.lastPushHlcTimestamp (Except.ok.inj h₁).symm, ?_⟩
          split at h
          · exact .inl (Except.ok.inj h).symm
          · exact .inr ⟨_, (Except.ok.inj h).symm⟩
      rcases h with rfl | ⟨t', rfl⟩
      · exact hlog
      · exact hlog

section
variable {pf : Platform} {s : Session}

theorem mem_unaccepted {c : CellChange} : c ∈ s.unaccepted ↔ c ∈ s.pending ∧ c ∉ s.accepted := by
  simp [Session.unaccepted]

theorem write_cases (pf : Platform) (s : Session) (tableName : String) (w : LocalWrite) (hlc now : String) :
    s.write pf tableName w hlc now = s ∨
      ((s.write pf tableName w hlc now).phase = s.phase ∧
        (s.write pf tableName w hlc now).storedCursor = s.storedCursor ∧
        (s.write pf tableName w hlc now).loadedCursor = s.loadedCursor ∧
        ∀ c ∈ (s.write pf tableName w hlc now).unaccepted, c ∈ s.unaccepted ∨ c.hlcTimestamp = hlc) := by
  unfold Session.write
  split
  · exact .inl rfl
  · rename_i db hexec
    refine .inr ⟨rfl, ?_, rfl, fun c hc => ?_⟩
    · show (db.lastPushHlcTimestamp s.backend.id).join = _
      rw [exec_cursor hexec]
      rfl
    · obtain ⟨hheld, hna⟩ := mem_unaccepted.1 hc
      rcases List.mem_append.1 (List.mem_filter.1 hheld).1 with hold | hnew
      · exact .inl (mem_unaccepted.2 ⟨hold, hna⟩)
      · have hstamp := (List.mem_filter.1 hnew).2
        simp only [Bool.and_eq_true, decide_eq_true_eq] at hstamp
        exact .inr hstamp.1

theorem write_cursorSafe (h : CursorSafe s) {tableName hlc now : String} {w : LocalWrite}
    (hm : CursorMeets pf s (.write tableName w hlc now)) : CursorSafe (s.write pf tableName w hlc now) := by
  rcases write_cases pf s tableName w hlc now with e | ⟨hphase, hstored, hloaded, hnew⟩
  · rw [e]
    exact h
  · obtain ⟨hms, hml, hmf⟩ := hm
    refine ⟨fun c hc => ?_, fun dirtyTables todo hsend => ?_⟩
    · rw [hstored, hloaded]
      rcases hnew c hc with hc | hc
      · exact h.above c hc
      · rw [hc]
        exact ⟨hms, hml⟩
    · rw [hphase] at hsend
      obtain ⟨hsep, hwait⟩ := h.sending dirtyTables todo hsend
      refine ⟨hsep, fun c hc => ?_⟩
      rcases hnew c hc with hc | hc
      · exact hwait c hc
      · rw [hc]
        rw [hsend] at hmf
        exact .inr hmf

theorem pull_cursorSafe (h : CursorSafe s) {hash : Crdt.Hashing} {changes : List RemoteColumnChange}
    (hm : CursorMeets pf s (.pullBatch hash changes)) : CursorSafe (s.pullBatch pf hash changes) := by
  unfold Session.pullBatch
  split
  · rename_i hidle
    split
    · exact h
    · split
      · exact h
      · rename_i max hmax
        split
        · exact h
        · rename_i db happly
          have hm := hm hidle max db happly
          refine ⟨fun c hc => ?_, fun dirtyTables todo hsend => ?_⟩
          · have hold : c ∈ s.unaccepted :=
              mem_unaccepted.2 ⟨(List.mem_filter.1 (mem_unaccepted.1 hc).1).1, (mem_unaccepted.1 hc).2⟩
            refine ⟨?_, (h.above c hold).2⟩
            -- the cursor is as it was or at the newest pulled HLC
            have hmaxBelow : Unpushed (some max) c.hlcTimestamp := by
              rcases List.mem_cons.1 (maxHlc_spec (by decide) hmax).2.1 with rfl | hmem
              · simp [Unpushed, passesCursor]
              · obtain ⟨ch, hch, rfl⟩ := List.mem_map.1 hmem
                exact (hm c hold ch hch).unpushed
            have hstored := (h.above c hold).1
            show Unpushed ((db.lastPushHlcTimestamp s.backend.id).join) c.hlcTimestamp
            rw [apply_cursor happly, setPushCursor]
            rcases hrow : s.db.lastPushHlcTimestamp s.backend.id with _ | row
            · simp only [hrow]
              rw [Session.storedCursor, hrow] at hstored
              exact hstored
            · simp only [Function.update_self, Option.join_some]
              exact hmaxBelow
          · cases hidle.symm.trans hsend
  · exact h

theorem reload_cursorSafe (h : CursorSafe s) : CursorSafe s.reload := by
  unfold Session.reload
  split
  · exact h
  · rename_i cursor hrow
    refine ⟨fun c hc => ?_, h.sending⟩
    have hstored := (h.above c hc).1
    refine ⟨hstored, ?_⟩
    rw [Session.storedCursor, hrow] at hstored
    exact hstored

theorem CursorSafe.of_phase (h : CursorSafe s) {q : Phase} (hq : ∀ dirtyTables todo, q ≠ .sending dirtyTables todo) :
    CursorSafe { s with phase := q } :=
  ⟨h.above, fun dirtyTables todo hsend => absurd hsend (hq dirtyTables todo)⟩

theorem pushStart_cursorSafe (h : CursorSafe s) (ctx : ScanContext) : CursorSafe (s.pushStart pf ctx) := by
  unfold Session.pushStart
  split
  · dsimp only
    split
    · exact h
    · split
      · exact h
      · exact h.of_phase fun _ _ e => by cases e
  · exact h

theorem pushScan_cursorSafe (h : CursorSafe s) {fails : Bool} (hm : CursorMeets pf s (.pushScan fails)) :
    CursorSafe (s.pushScan pf fails) := by
  unfold Session.pushScan
  split
  · rename_i ctx b extensionTables dirtyTables d todo scanned hphase
    refine ⟨h.above, fun dirty chunks hsend => ?_⟩
    dsimp only at hsend
    split at hsend
    · rename_i htodo
      rw [htodo] at hphase
      obtain ⟨hord, hwait⟩ := hm ctx b extensionTables dirtyTables d scanned hphase
      unfold afterScan at hsend
      split at hsend
      · cases hsend
      · cases hsend
        refine ⟨separated_of_ordered hord (List.nil_append _).symm (by simp), ?_⟩
        rw [flatten_chunkChangesByHlc]
        exact hwait
    · cases hsend
  · exact h

theorem setCursor_cases (s : Session) (hlc : String) :
    (s.setCursor hlc).pending = s.pending ∧ (s.setCursor hlc).accepted = s.accepted ∧
      (((s.setCursor hlc).storedCursor = s.storedCursor ∧ (s.setCursor hlc).loadedCursor = s.loadedCursor) ∨
        ((s.setCursor hlc).storedCursor = some hlc ∧ (s.setCursor hlc).loadedCursor = some hlc)) := by
  unfold Session.setCursor
  split
  · exact ⟨rfl, rfl, .inl ⟨rfl, rfl⟩⟩
  · refine ⟨rfl, rfl, .inr ⟨?_, rfl⟩⟩
    simp [Session.storedCursor]

theorem pushChunk_cursorSafe (h : CursorSafe s) (recorded : Bool) : CursorSafe (s.pushChunk recorded) := by
  unfold Session.pushChunk
  split
  · rename_i dirtyTables chunk todo hphase
    split
    · exact h.of_phase fun _ _ e => by cases e
    · rename_i max hmax
      obtain ⟨hsep, hwait⟩ := h.sending dirtyTables (chunk :: todo) hphase
      obtain ⟨⟨z, hz, hzm⟩, hall⟩ := chunkMaxHlc_spec hmax
      obtain ⟨hbehind, hsep⟩ := hsep fun x hx => (hall x hx).1
      -- what is unaccepted now was unaccepted before and is not in the chunk
      have hstill : ∀ s' : Session, s'.pending = s.pending →
          s'.accepted = s.accepted ++ chunk.map ColumnChange.toCellChange → ∀ c ∈ s'.unaccepted,
          c ∈ s.unaccepted ∧ (c ∈ todo.flatten.map ColumnChange.toCellChange ∨
            ∀ x ∈ todo.flatten, Newer c.hlcTimestamp x.hlcTimestamp) ∧ Newer c.hlcTimestamp max := by
        intro s' hp ha c hc
        obtain ⟨hc, hna⟩ := mem_unaccepted.1 hc
        rw [hp] at hc
        rw [ha, List.mem_append, not_or] at hna
        have hold : c ∈ s.unaccepted := mem_unaccepted.2 ⟨hc, hna.1⟩
        refine ⟨hold, ?_⟩
        rcases hwait c hold with hmem | hnewer
        · rw [List.flatten_cons, List.map_append] at hmem
          have hmem := (List.mem_append.1 hmem).resolve_left hna.2
          obtain ⟨y, hy, rfl⟩ := List.mem_map.1 hmem
          exact ⟨.inl hmem, hzm ▸ hbehind z hz y hy⟩
        · exact ⟨.inr fun x hx => hnewer x (List.mem_append_right _ hx), hzm ▸ hnewer z (List.mem_append_left _ hz)⟩
      dsimp only
      split
      · obtain ⟨hpending, haccepted, hcursor⟩ :=
          setCursor_cases { s with accepted := s.accepted ++ chunk.map ColumnChange.toCellChange } max
        refine ⟨fun c hc => ?_, fun dirty todo' hsend => ?_⟩
        · obtain ⟨hold, -, hnewer⟩ := hstill _ hpending haccepted c hc
          rcases hcursor with ⟨hstored, hloaded⟩ | ⟨hstored, hloaded⟩
          · exact ⟨hstored ▸ (h.above c hold).1, hloaded ▸ (h.above c hold).2⟩
          · exact ⟨hstored ▸ hnewer.unpushed, hloaded ▸ hnewer.unpushed⟩
        · dsimp only at hsend
          split at hsend
          · cases hsend
          · cases hsend
            exact ⟨hsep, fun c hc => (hstill _ hpending haccepted c hc).2.1⟩
      · refine ⟨fun c hc => ?_, fun _ _ hsend => by cases hsend⟩
        exact h.above c (hstill { s with accepted := s.accepted ++ chunk.map ColumnChange.toCellChange } rfl rfl c hc).1
  · exact h

theorem pushClear_cursorSafe (h : CursorSafe s) : CursorSafe s.pushClear := by
  unfold Session.pushClear
  split
  · refine ⟨h.above, fun dirtyTables todo hsend => ?_⟩
    dsimp only at hsend
    split at hsend
    · cases hsend
    · cases hsend
  · exact h

theorem step_cursorSafe (s : Session) (e : Event) (h : CursorSafe s) (hm : CursorMeets pf s e) :
    CursorSafe (s.step pf e) := by
  rcases e with ⟨tableName, w, hlc, now⟩ | ⟨hash, changes⟩ | _ | ctx | fails | recorded | _ | _
  · exact write_cursorSafe h hm
  · exact pull_cursorSafe h hm
  · exact reload_cursorSafe h
  · exact pushStart_cursorSafe h ctx
  · exact pushScan_cursorSafe h hm
  · exact pushChunk_cursorSafe h recorded
  · exact pushClear_cursorSafe h
  · exact h.of_phase fun _ _ e => by cases e

/-- In every run whose steps meet the condition, every local change that the server has
not taken is above the push cursor, in the backend's row and in the store. -/
theorem unpushed_above_cursor {es : List Event} (hidle : s.phase = .idle) (h0 : AboveCursor s)
    (h : Guarded (Session.step pf) (CursorMeets pf) s es) : AboveCursor (run (Session.step pf) s es) := by
  have hstart : CursorSafe s := ⟨h0, fun _ _ hsend => by cases hidle.symm.trans hsend⟩
  exact (h.inv step_cursorSafe hstart).above

end

def remoteNote (hlc : String) : RemoteColumnChange := ⟨"notes", "\x7b\"id\":\"d\"\x7d", "title", hlc, .string "y"⟩

def writePullPush (hlc : String) : List Event :=
  [.write "notes" (noteInsert "a") "5/a" "2026-01-01 10:00:00", .pullBatch Crdt.inOrder [remoteNote hlc], .reload,
    .pushStart plainContext, .pushScan false, .pushChunk true, .pushClear]

theorem unpushed_above_cursor_notes :
    AboveCursor (run (Session.step notesPlatform) notesSession (writePullPush "3/b")) := by
  have hscan : CursorMeets notesPlatform
      (run (Session.step notesPlatform) notesSession ((writePullPush "3/b").take 4)) (.pushScan false) := by
    intro ctx b extensionTables dirtyTables d scanned hphase
    change Phase.scanning plainContext ⟨"home", "vault", true, some "3/b", none⟩ []
      [⟨"notes", "2026-01-01 10:00:00"⟩] [⟨"notes", "2026-01-01 10:00:00"⟩] [] = _ at hphase
    cases hphase
    constructor
    · unfold OrderedAtCuts
      decide
    · decide
  refine unpushed_above_cursor rfl (by intro c hc; cases hc) ⟨⟨rfl, rfl, fun _ hx => ?_⟩, ?_, trivial, trivial, hscan,
    trivial, trivial, trivial⟩
  · cases hx
  · intro _ max db _
    decide

/-- Pulling a change of HLC 9 hides the note of HLC 5 that was never pushed: the push
that follows sends nothing and clears its table. -/
theorem pull_hides_local_write :
    ¬ AboveCursor (run (Session.step notesPlatform) notesSession (writePullPush "9/b")) := by
  intro h
  have hc : (⟨"notes", [("id", .text "a")], "title", "5/a"⟩ : CellChange) ∈
      (run (Session.step notesPlatform) notesSession (writePullPush "9/b")).unaccepted := by decide
  exact absurd (h _ hc).1 (by decide)

end HaexVault.Sync
