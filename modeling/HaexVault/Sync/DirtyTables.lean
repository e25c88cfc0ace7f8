import HaexVault.Sync.Orchestrator
/-!
# Writes that race with a push

A push clears the dirty entries it read at its start, up to the newest `last_modified` among them. A
write that commits after the scan of its table must keep a dirty entry; `datetime('now')` counts
seconds (`racing_write_stays_dirty`, `racing_write_cleared`).
-/

namespace HaexVault.Sync

open HaexVault.Crdt (DatabaseError Database)
open HaexVault.Lib.Runs

def Phase.isIdle : Phase → Bool
  | .idle => true
  | _ => false

def Phase.dirtyTables : Phase → List DirtyTable
  | .idle => []
  | .scanning _ _ _ dirtyTables _ _ => dirtyTables
  | .sending dirtyTables _ => dirtyTables
  | .clearing dirtyTables _ => dirtyTables

def Phase.toClear : Phase → List DirtyTable
  | .clearing _ todo => todo
  | phase => phase.dirtyTables

def Phase.toScan : Phase → List DirtyTable
  | .scanning _ _ _ _ todo _ => todo
  | _ => []

def Phase.Races (phase : Phase) (n : String) : Prop :=
  n ∈ phase.toClear.map (·.tableName) ∧ n ∉ phase.toScan.map (·.tableName)

/-- A write to a table between its scan and its clear comes in a later second than
every dirty entry the push read. -/
def WritesLater (s : Session) : Event → Prop
  | .write tableName w hlc now => ∀ n, w.dirties s.db tableName hlc = some n → s.phase.Races n →
      ¬ now ≤ maxDirtyTimestamp s.phase.dirtyTables
  | _ => True

/-- Every table written since it was last scanned has a dirty entry, one that the push
under way will not clear. -/
def Covered (s : Session) : Prop :=
  ∀ n ∈ s.unscanned, ∃ d ∈ s.dirtyTables, d.tableName = n ∧
    (s.phase.Races n → ¬ d.lastModified ≤ maxDirtyTimestamp s.phase.dirtyTables)

theorem mem_markDirty {dirty : List DirtyTable} {n now : String} {d : DirtyTable} :
    d ∈ markDirty dirty n now ↔ (d ∈ dirty ∧ d.tableName ≠ n) ∨ d = ⟨n, now⟩ := by
  simp [markDirty]

theorem mem_clearDirtyTable {dirty : List DirtyTable} {n ts : String} {d : DirtyTable} :
    d ∈ clearDirtyTable dirty n ts ↔ d ∈ dirty ∧ ¬ (d.tableName = n ∧ d.lastModified ≤ ts) := by
  simp only [clearDirtyTable, List.mem_filter, Bool.not_eq_true', Bool.and_eq_false_iff, decide_eq_false_iff_not, not_and_or]

theorem afterScan_phase (dirtyTables : List DirtyTable) (allChanges : List ColumnChange) :
    (afterScan dirtyTables allChanges).dirtyTables = dirtyTables ∧ (afterScan dirtyTables allChanges).toClear = dirtyTables ∧
      (afterScan dirtyTables allChanges).toScan = [] := by
  unfold afterScan
  split
  · exact ⟨rfl, rfl, rfl⟩
  · exact ⟨rfl, rfl, rfl⟩

section
variable {pf : Platform} {s : Session}

theorem Covered.of_phase {q : Phase} (h : Covered s) (hraces : ∀ n ∈ s.unscanned, q.Races n → s.phase.Races n)
    (hread : maxDirtyTimestamp q.dirtyTables = maxDirtyTimestamp s.phase.dirtyTables ∨ ∀ n, ¬ q.Races n) :
    ∀ n ∈ s.unscanned, ∃ d ∈ s.dirtyTables, d.tableName = n ∧
      (q.Races n → ¬ d.lastModified ≤ maxDirtyTimestamp q.dirtyTables) := by
  intro n hn
  obtain ⟨d, hd, hdn, hlate⟩ := h n hn
  refine ⟨d, hd, hdn, fun hr => ?_⟩
  rcases hread with e | hnone
  · rw [e]
    exact hlate (hraces n hn hr)
  · exact absurd hr (hnone n)

theorem write_covered (h : Covered s) {tableName hlc now : String} {w : LocalWrite}
    (hw : WritesLater s (.write tableName w hlc now)) : Covered (s.write pf tableName w hlc now) := by
  unfold Session.write
  split
  · exact h
  · rcases hdirt : w.dirties s.db tableName hlc with _ | n
    · exact h
    · intro m hm
      have hm : m ∈ n :: s.unscanned := hm
      show ∃ d ∈ markDirty s.dirtyTables n now, _
      -- the written table gets a new entry, the others keep theirs
      by_cases hmn : m = n
      · subst hmn
        exact ⟨⟨m, now⟩, mem_markDirty.2 (.inr rfl), rfl, fun hr => hw m hdirt hr⟩
      · obtain ⟨d, hd, hdm, hlate⟩ := h m ((List.mem_cons.1 hm).resolve_left hmn)
        have hdn : d.tableName ≠ n := fun e => hmn (hdm.symm.trans e)
        exact ⟨d, mem_markDirty.2 (.inl ⟨hd, hdn⟩), hdm, hlate⟩

theorem pushStart_covered (h : Covered s) (ctx : ScanContext) : Covered (s.pushStart pf ctx) := by
  unfold Session.pushStart
  split
  · dsimp only
    split
    · exact h
    · split
      · exact h
      · -- everything to clear is still to be scanned
        refine h.of_phase (fun n _ hr => absurd hr.1 hr.2) (.inr fun n hr => hr.2 hr.1)
  · exact h

theorem pushScan_covered (h : Covered s) (fails : Bool) : Covered (s.pushScan pf fails) := by
  unfold Session.pushScan
  split
  · rename_i ctx b extensionTables dirtyTables d todo allChanges hphase
    intro n hn
    obtain ⟨hn, hnd⟩ := List.mem_filter.1 hn
    have hnd : n ≠ d.tableName := by simpa using hnd
    -- the entry of any other table is as late as it was
    obtain ⟨e, he, hen, hlate⟩ := h n hn
    rw [hphase] at hlate
    have hraces : n ∈ dirtyTables.map (·.tableName) → n ∉ todo.map (·.tableName) →
        ¬ e.lastModified ≤ maxDirtyTimestamp dirtyTables := by
      intro hclear hscan
      refine hlate ⟨hclear, ?_⟩
      simp only [Phase.toScan, List.map_cons, List.mem_cons, not_or]
      exact ⟨hnd, hscan⟩
    refine ⟨e, he, hen, ?_⟩
    obtain ⟨hread, hclear, -⟩ := afterScan_phase dirtyTables
      (allChanges ++ tableChanges pf s.db ctx b extensionTables fails d.tableName)
    dsimp only
    split
    · rename_i htodo
      rintro ⟨hr, -⟩
      rw [hclear] at hr
      rw [hread]
      exact hraces hr (by simp [htodo])
    · rintro ⟨hr, hscan⟩
      exact hraces hr hscan
  · exact h

theorem setCursor_frame (s : Session) (hlc : String) :
    (s.setCursor hlc).dirtyTables = s.dirtyTables ∧ (s.setCursor hlc).unscanned = s.unscanned := by
  unfold Session.setCursor
  split
  · exact ⟨rfl, rfl⟩
  · exact ⟨rfl, rfl⟩

theorem idle_races (n : String) : ¬ Phase.idle.Races n := fun h => by cases h.1

theorem pushChunk_covered (h : Covered s) (recorded : Bool) : Covered (s.pushChunk recorded) := by
  unfold Session.pushChunk
  split
  · rename_i dirtyTables chunk todo hphase
    have hidle := h.of_phase (q := .idle) (fun n _ hr => absurd hr (idle_races n)) (.inr idle_races)
    split
    · exact hidle
    · rename_i max hmax
      dsimp only
      split
      · obtain ⟨hdirty, hunscanned⟩ :=
          setCursor_frame { s with accepted := s.accepted ++ chunk.map ColumnChange.toCellChange } max
        unfold Covered
        dsimp only
        rw [hdirty, hunscanned]
        split
        · exact h.of_phase (fun n _ hr => by rw [hphase]; exact ⟨hr.1, by simp [Phase.toScan]⟩) (.inl (by rw [hphase]; rfl))
        · exact h.of_phase (fun n _ hr => by rw [hphase]; exact ⟨hr.1, by simp [Phase.toScan]⟩) (.inl (by rw [hphase]; rfl))
      · exact hidle
  · exact h

theorem pushClear_covered (h : Covered s) : Covered s.pushClear := by
  unfold Session.pushClear
  split
  · rename_i dirtyTables d todo hphase
    intro n hn
    obtain ⟨e, he, hen, hlate⟩ := h n hn
    rw [hphase] at hlate
    -- an entry that is later than what the push captured survives its clear
    have hkept : e ∈ clearDirtyTable s.dirtyTables d.tableName (maxDirtyTimestamp dirtyTables) := by
      refine mem_clearDirtyTable.2 ⟨he, fun ⟨hed, hle⟩ => ?_⟩
      refine hlate ⟨?_, by simp [Phase.toScan]⟩ hle
      rw [← hen, hed]
      exact List.mem_map.2 ⟨d, List.mem_cons_self, rfl⟩
    refine ⟨e, hkept, hen, ?_⟩
    dsimp only
    split
    · exact fun hr => absurd hr (idle_races n)
    · rintro ⟨hr, -⟩
      obtain ⟨x, hx, hxn⟩ := List.mem_map.1 hr
      exact hlate ⟨List.mem_map.2 ⟨x, List.mem_cons_of_mem _ hx, hxn⟩, by simp [Phase.toScan]⟩
  · exact h

theorem step_covered (s : Session) (e : Event) (h : Covered s) (he : WritesLater s e) : Covered (s.step pf e) := by
  rcases e with ⟨tableName, w, hlc, now⟩ | ⟨hash, changes⟩ | _ | ctx | fails | recorded | _ | _
  · exact write_covered h he
  · show Covered (s.pullBatch pf hash changes)
    unfold Session.pullBatch
    split
    · split
      · exact h
      · split
        · exact h
        · split
          · exact h
          · exact h
    · exact h
  · show Covered s.reload
    unfold Session.reload
    split
    · exact h
    · exact h
  · exact pushStart_covered h ctx
  · exact pushScan_covered h fails
  · exact pushChunk_covered h recorded
  · exact pushClear_covered h
  · exact h.of_phase (fun n _ hr => absurd hr (idle_races n)) (.inr idle_races)

/-- In every run whose writes meet the condition, every table written since it was
last scanned has a dirty entry. -/
theorem racing_write_stays_dirty {es : List Event} (hidle : s.phase = .idle)
    (h0 : ∀ n ∈ s.unscanned, ∃ d ∈ s.dirtyTables, d.tableName = n) (h : Guarded (Session.step pf) WritesLater s es) :
    ∀ n ∈ (run (Session.step pf) s es).unscanned, ∃ d ∈ (run (Session.step pf) s es).dirtyTables, d.tableName = n := by
  have hstart : Covered s := by
    intro n hn
    obtain ⟨d, hd, hdn⟩ := h0 n hn
    refine ⟨d, hd, hdn, fun hr => ?_⟩
    rw [hidle] at hr
    exact absurd hr (idle_races n)
  intro n hn
  obtain ⟨d, hd, hdn, -⟩ := h.inv step_covered hstart n hn
  exact ⟨d, hd, hdn⟩

end

/-- A note is pushed, and another one is written at `now` while the first is on its way. -/
def racingNotes (now : String) : List Event :=
  [.write "notes" (noteInsert "a") "5/a" "2026-01-01 10:00:00", .pushStart plainContext, .pushScan false,
    .write "notes" (noteInsert "b") "6/a" now, .pushChunk true, .pushClear]

theorem racing_write_stays_dirty_notes :
    ∃ d ∈ (run (Session.step notesPlatform) notesSession (racingNotes "2026-01-01 10:00:01")).dirtyTables,
      d.tableName = "notes" := by
  refine racing_write_stays_dirty rfl (by simp [notesSession]) ?_ "notes" (by decide)
  exact ⟨fun _ _ _ => by decide, trivial, trivial, fun _ _ _ => by decide, trivial, trivial, trivial⟩

/-- In the same second the clear takes the entry of the second note, which nothing has
scanned. -/
theorem racing_write_cleared :
    let s := run (Session.step notesPlatform) notesSession (racingNotes "2026-01-01 10:00:00")
    s.phase.isIdle = true ∧ "notes" ∈ s.unscanned ∧ s.dirtyTables = [] ∧
      s.accepted.map (·.rowPks) = [[("id", .text "a")]] := by
  decide

end HaexVault.Sync
