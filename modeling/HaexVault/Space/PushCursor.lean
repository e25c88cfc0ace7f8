import HaexVault.Lib.Chunks
import HaexVault.Lib.Runs
import HaexVault.Space.Scanner
/-!
# The push cursor (`space_delivery/local/sync_loop`, `push_cursor`)

A device pushes what its scan finds above one cursor per space, chunk by chunk, and moves the cursor
to the newest HLC of each chunk the leader accepts. `push_cursor_behind` says when no unaccepted
change falls behind it.
-/

namespace HaexVault.Space

open HaexVault.Crdt HaexVault.Lib HaexVault.Lib.Chunks HaexVault.Lib.Steps HaexVault.Lib.Runs

def pushChunkSoftLimit : Nat := 2000

/-! ## What a push phase offers -/

structure PushDevice where
  env : Env
  scanner : Scanner
  spaceId : String
  deviceId : String
  ourEndpointId : String
  ourNode : Option Nat

def PushDevice.args (d : PushDevice) (lastPushHlc : Option String) : ScanArgs :=
  ⟨d.spaceId, lastPushHlc, d.deviceId, d.ourNode⟩

/-- The scan of `run_push_phase`. -/
def scanForPush (d : PushDevice) (canPushUserContent : Bool) (db : Database) (lastPushHlc : Option String) :
    Except DatabaseError (List LocalColumnChange) :=
  if canPushUserContent then scanSpaceScopedTablesForLocalChanges d.scanner db (d.args lastPushHlc)
  else scanMembershipTablesForLocalChanges d.scanner db (d.args lastPushHlc)

def extractPkId (env : Env) (rowPks : String) : Option String :=
  match (env.fromStr rowPks).bind fun m => m.lookup "id" with
  | some (.string s) => some s
  | _ => none

def queryOwnedRowIds (db : Database) (read : Bool) (table ownerCol spaceId ownerValue : String) : List String :=
  if read then ((tableRows db table).filter fun r => r "space_id" = .text spaceId && r ownerCol = .text ownerValue).filterMap
    fun r => asText (r "id")
  else []

structure OwnedReads where
  members : Bool := true
  devices : Bool := true

/-- The ownership test of `filter_foreign_membership_rows`: an unknown identity or key counts as ours. -/
def owned (d : PushDevice) (db : Database) (ourIdentityId : Option String) (reads : OwnedReads) (c : LocalColumnChange) : Bool :=
  if c.tableName = "haex_space_members" then
    ourIdentityId.all fun identityId => (extractPkId d.env c.rowPks).all fun id =>
      id ∈ queryOwnedRowIds db reads.members "haex_space_members" "identity_id" d.spaceId identityId
  else if c.tableName = "haex_space_devices" then
    (extractPkId d.env c.rowPks).all fun id =>
      id ∈ queryOwnedRowIds db reads.devices "haex_space_devices" "endpoint_id" d.spaceId d.ourEndpointId
  else true

def foreignMaxHlc (foreign : List LocalColumnChange) : Option String :=
  foreign.foldl (fun max c => if max.all fun cur => hlcIsNewer c.hlcTimestamp cur then some c.hlcTimestamp else max) none

def filterForeignMembershipRows (d : PushDevice) (db : Database) (ourIdentityId : Option String) (reads : OwnedReads)
    (changes : List LocalColumnChange) : List LocalColumnChange × Option String :=
  (changes.filter (owned d db ourIdentityId reads), foreignMaxHlc (changes.filter fun c => !owned d db ourIdentityId reads c))

/-- `chunk_changes_by_hlc`: its loop closes a group where the HLC text changes and puts it behind the open chunk, or
into another. -/
def chunkChangesByHlc (changes : List LocalColumnChange) (softLimit : Nat) : List (List LocalColumnChange) :=
  pack softLimit [] (changes.splitBy fun c c' => c.hlcTimestamp == c'.hlcTimestamp)

/-! ## The phases -/

inductive PushPhase where
  | idle
  /-- The chunks still to be sent, and where the cursor goes after them. -/
  | sending (chunks : List (List LocalColumnChange)) (foreignMaxHlc : Option String)

/-- The device's database with the stored cursor, the running session, and what the leaders have accepted. -/
structure PushState where
  space : SpaceDb
  storedHlc : Option String := none
  lastPushHlc : Option String := none
  canPushUserContent : Bool := false
  ourIdentityId : Option String := none
  phase : PushPhase := .idle
  accepted : List LocalColumnChange := []

inductive ChunkReply where
  | ok (saved : Bool)
  | lost
  | rejected

inductive PushEvent where
  /-- Whatever else writes to the device's database, with the changes it accepts as the leader itself. -/
  | edit (space : SpaceDb) (led : List LocalColumnChange)
  /-- `run_sync_loop` starts, after a stop or a crash. -/
  | start (canPushUserContent : Bool) (ourIdentityId : Option String) (loaded : Bool)
  | scan (reads : OwnedReads)
  | chunk (reply : ChunkReply)
  | finish (saved : Bool)

namespace PushState

/-- `save_last_push_hlc`, and the cursor of the session; a failed save is only logged. -/
def checkpoint (s : PushState) (hlc : String) (saved : Bool) : PushState :=
  { s with storedHlc := if saved then some hlc else s.storedHlc, lastPushHlc := some hlc }

/-- `run_push_phase` up to the loop over the chunks. -/
def scan (d : PushDevice) (s : PushState) (reads : OwnedReads) : PushState :=
  match s.phase, scanForPush d s.canPushUserContent s.space.db s.lastPushHlc with
  | .idle, .ok allChanges =>
    if allChanges = [] then s
    else
      let (changes, foreignMaxHlc) := filterForeignMembershipRows d s.space.db s.ourIdentityId reads allChanges
      { s with phase := .sending (chunkChangesByHlc changes pushChunkSoftLimit) foreignMaxHlc }
  | _, _ => s

/-- One turn of the loop over the chunks. -/
def chunk (s : PushState) (reply : ChunkReply) : PushState :=
  match s.phase with
  | .sending (chunk :: chunks) foreignMaxHlc =>
    match reply with
    | .rejected => { s with phase := .idle }
    | .lost => { s with accepted := s.accepted ++ chunk, phase := .idle }
    | .ok saved =>
      { s.checkpoint ((hlcMax (chunk.map (·.hlcTimestamp))).getD "") saved with
        accepted := s.accepted ++ chunk
        phase := .sending chunks foreignMaxHlc }
  | _ => s

def skipTo (s : PushState) : Option String :=
  match s.phase with
  | .sending [] (some skipHlc) => if s.lastPushHlc.all fun cur => hlcIsNewer skipHlc cur then some skipHlc else none
  | _ => none

/-- The end of `run_push_phase`. -/
def finish (s : PushState) (saved : Bool) : PushState :=
  match s.phase with
  | .sending [] _ =>
    match s.skipTo with
    | some skipHlc => { s.checkpoint skipHlc saved with phase := .idle }
    | none => { s with phase := .idle }
  | _ => s

def step (d : PushDevice) (s : PushState) : PushEvent → PushState
  | .edit space led => { s with space, accepted := s.accepted ++ led }
  | .start canPushUserContent ourIdentityId loaded =>
    { s with
      lastPushHlc := if loaded then s.storedHlc else none
      canPushUserContent, ourIdentityId
      phase := .idle }
  | .scan reads => s.scan d reads
  | .chunk reply => s.chunk reply
  | .finish saved => s.finish saved

def inFlight (s : PushState) : List LocalColumnChange :=
  match s.phase with
  | .idle => []
  | .sending chunks _ => chunks.flatten

end PushState

/-! ## What is still to be pushed -/

section
variable (d : PushDevice)

def Waiting (s : PushState) (c : LocalColumnChange) : Prop :=
  Emits d.scanner s.space.db (d.args none) c ∧ c ∉ s.accepted

def Above (db : Database) (h : String) (c : LocalColumnChange) : Prop := Emits d.scanner db (d.args (some h)) c

def LeftOut (s : PushState) (c : LocalColumnChange) : Prop := Waiting d s c ∧ c ∉ s.inFlight

/-- Every waiting change is newer than the stored cursor, and a scan of everything after it emits the change. -/
def Unstepped (s : PushState) : Prop :=
  ∀ c, Waiting d s c → ∀ h, s.storedHlc = some h → hlcIsNewer c.hlcTimestamp h = true ∧ Above d s.space.db h c

def PushState.marks (s : PushState) : List String :=
  s.storedHlc.toList ++ s.lastPushHlc.toList ++ s.inFlight.map (·.hlcTimestamp)

/-- What each step must bring for the cursor to stay behind. -/
def CursorMeets (s : PushState) : PushEvent → Prop
  -- a write stamps its changes above the marks, and leaves above a mark what was above it
  | .edit space led => ∀ h ∈ s.marks, ∀ c, Emits d.scanner space.db (d.args none) c → c ∉ s.accepted ++ led →
      (Emits d.scanner s.space.db (d.args none) c → Above d s.space.db h c) → Above d space.db h c
  -- HLCs of one rank have one text, and a row's clock is above whatever one of its columns is newer than
  | .scan reads => ∀ all, s.phase = .idle → scanForPush d s.canPushUserContent s.space.db s.lastPushHlc = .ok all →
      ∀ c ∈ (filterForeignMembershipRows d s.space.db s.ourIdentityId reads all).1,
      ∀ c' ∈ (filterForeignMembershipRows d s.space.db s.ourIdentityId reads all).1,
        (hlcKey c.hlcTimestamp = hlcKey c'.hlcTimestamp → c.hlcTimestamp = c'.hlcTimestamp) ∧
          (hlcIsNewer c'.hlcTimestamp c.hlcTimestamp = true → Above d s.space.db c.hlcTimestamp c')
  | .chunk (.ok _) => ∀ chunk chunks foreignMaxHlc, s.phase = .sending (chunk :: chunks) foreignMaxHlc →
      ∀ c, LeftOut d s c → ∀ sent ∈ chunk, Above d s.space.db sent.hlcTimestamp c
  | .finish _ => ∀ skipHlc, s.skipTo = some skipHlc → ∀ c, LeftOut d s c → Above d s.space.db skipHlc c
  | _ => True

/-- No waiting change is behind a cursor, and chunks on their way are behind those that follow them. -/
structure CursorSafe (s : PushState) : Prop where
  above : ∀ c, Waiting d s c → ∀ h, s.storedHlc = some h ∨ s.lastPushHlc = some h → Above d s.space.db h c
  nonempty : ∀ chunks foreignMaxHlc, s.phase = .sending chunks foreignMaxHlc → [] ∉ chunks
  ordered : ∀ chunks foreignMaxHlc, s.phase = .sending chunks foreignMaxHlc → chunks.Pairwise fun g g' =>
    ∀ c ∈ g, ∀ c' ∈ g', Waiting d s c' → Above d s.space.db c.hlcTimestamp c'

end

section Steps
variable {d : PushDevice} {s : PushState}

theorem Above.newer {db : Database} {h : String} {c : LocalColumnChange} (ha : Above d db h c) :
    hlcIsNewer c.hlcTimestamp h = true := by
  obtain ⟨table, -, t, -, r, -, -, hc⟩ := ha
  obtain ⟨column, -, hlc, -, hp, rfl⟩ := mem_rowChanges.1 hc
  simp only [ScanArgs.passes, PushDevice.args, Option.all_some, Bool.and_eq_true] at hp
  exact hp.1

theorem scanForPush_ok {canPush : Bool} {db : Database} {after : Option String} (hschema : SpaceSchema db)
    {all : List LocalColumnChange} (h : scanForPush d canPush db after = .ok all) :
    (all.Pairwise fun c c' => hlcKey c.hlcTimestamp ≤ hlcKey c'.hlcTimestamp) ∧
      ∀ c, c ∈ all ↔ Emits d.scanner db (d.args after) c ∧ (canPush = true ∨ c.tableName ∈ membershipSystemTables) := by
  unfold scanForPush at h
  cases canPush with
  | true => exact ⟨scan_sorted h, fun c => by rw [mem_scan hschema h]; simp⟩
  | false =>
    obtain ⟨changes, hscan, h⟩ := bind_eq_ok.1 h
    cases h
    refine ⟨(scan_sorted hscan).filter _, fun c => ?_⟩
    rw [List.mem_filter, mem_scan hschema hscan]
    simp

theorem exists_scanForPush (d : PushDevice) (canPush : Bool) {db : Database} (hschema : SpaceSchema db) (after : Option String) :
    ∃ all, scanForPush d canPush db after = .ok all := by
  obtain ⟨all, hscan, -⟩ := scan_ok d.scanner hschema (d.args after)
  unfold scanForPush
  split
  · exact ⟨all, hscan⟩
  · exact ⟨_, bind_eq_ok.2 ⟨all, hscan, rfl⟩⟩

theorem hlcMax_mem {chunk : List LocalColumnChange} (h : chunk ≠ []) :
    ∃ c ∈ chunk, (hlcMax (chunk.map (·.hlcTimestamp))).getD "" = c.hlcTimestamp := by
  have hfold : ∀ (hs : List String) (h₀ : String),
      hs.foldl (fun best t => if compareHlcStrings best t = .gt then best else t) h₀ ∈ h₀ :: hs := by
    intro hs
    induction hs with
    | nil => exact fun h₀ => List.mem_singleton_self _
    | cons t hs ih =>
      intro h₀
      rw [List.foldl_cons]
      split
      · rcases List.mem_cons.1 (ih h₀) with he | hm
        · rw [he]
          exact List.mem_cons_self
        · exact List.mem_cons_of_mem _ (List.mem_cons_of_mem _ hm)
      · exact List.mem_cons_of_mem _ (ih t)
  obtain ⟨c, cs, rfl⟩ := List.exists_cons_of_ne_nil h
  obtain ⟨c', hc', he⟩ := List.mem_map.1 (hfold (cs.map (·.hlcTimestamp)) c.hlcTimestamp : _ ∈ (c :: cs).map (·.hlcTimestamp))
  exact ⟨c', hc', he.symm⟩

theorem chunkChangesByHlc_ordered {changes : List LocalColumnChange} {softLimit : Nat}
    (hs : changes.Pairwise fun c c' => hlcKey c.hlcTimestamp ≤ hlcKey c'.hlcTimestamp)
    (htext : ∀ c ∈ changes, ∀ c' ∈ changes, hlcKey c.hlcTimestamp = hlcKey c'.hlcTimestamp →
      c.hlcTimestamp = c'.hlcTimestamp) :
    (chunkChangesByHlc changes softLimit).Pairwise fun g g' => ∀ c ∈ g, ∀ c' ∈ g',
      hlcKey c.hlcTimestamp < hlcKey c'.hlcTimestamp := by
  refine pack_pairwise (fun _ _ _ hx => (List.not_mem_nil hx).elim) ?_
  exact @splitBy_pairwise _ _ _ (fun c => hlcKey c.hlcTimestamp) _ _ hs
    fun c hc c' hc' he => beq_iff_eq.2 (htext c hc c' hc' he)

theorem edit_safe (h : CursorSafe d s) {space : SpaceDb} {led : List LocalColumnChange}
    (hm : CursorMeets d s (.edit space led)) : CursorSafe d (s.step d (.edit space led)) := by
  have hfewer : ∀ c, c ∉ s.accepted ++ led → c ∉ s.accepted := fun c hc hmem => hc (List.mem_append_left _ hmem)
  refine ⟨fun c hc h₀ hh => ?_, h.nonempty, fun chunks foreignMaxHlc hphase => ?_⟩
  · refine hm h₀ ?_ c hc.1 hc.2 fun hold => h.above c ⟨hold, hfewer c hc.2⟩ h₀ hh
    rcases hh with hh | hh
    · exact List.mem_append_left _ (List.mem_append_left _ (by simpa [PushState.step] using hh))
    · exact List.mem_append_left _ (List.mem_append_right _ (by simpa [PushState.step] using hh))
  · have hflight : s.inFlight = chunks.flatten := by
      rw [PushState.inFlight, show s.phase = .sending chunks foreignMaxHlc from hphase]
    refine (h.ordered chunks foreignMaxHlc hphase).imp_of_mem fun hg _ hpair c hc c' hc' hwait => ?_
    refine hm c.hlcTimestamp (List.mem_append_right _ ?_) c' hwait.1 hwait.2 fun hold =>
      hpair c hc c' hc' ⟨hold, hfewer c' hwait.2⟩
    rw [hflight]
    exact List.mem_map_of_mem (List.mem_flatten.2 ⟨_, hg, hc⟩)

theorem start_safe (h : CursorSafe d s) (canPush : Bool) (ourIdentityId : Option String) (loaded : Bool) :
    CursorSafe d (s.step d (.start canPush ourIdentityId loaded)) := by
  refine ⟨fun c hc h₀ hh => ?_, (by intro _ _ hp; cases hp), (by intro _ _ hp; cases hp)⟩
  refine h.above c hc h₀ (.inl ?_)
  rcases hh with hh | hh
  · exact hh
  · cases loaded with
    | true => exact hh
    | false => cases hh

theorem CursorSafe.idle (h : CursorSafe d s) : CursorSafe d { s with phase := .idle } :=
  ⟨h.above, (by intro _ _ hp; cases hp), (by intro _ _ hp; cases hp)⟩

theorem scan_safe (h : CursorSafe d s) {reads : OwnedReads} (hm : CursorMeets d s (.scan reads)) :
    CursorSafe d (s.step d (.scan reads)) := by
  show CursorSafe d (s.scan d reads)
  unfold PushState.scan
  split
  · rename_i all hphase hscan
    split
    · exact h
    · have hm := hm all hphase hscan
      have hsorted := (scanForPush_ok s.space.schema hscan).1.filter (owned d s.space.db s.ourIdentityId reads)
      refine ⟨h.above, fun chunks _ hsend => ?_, fun chunks _ hsend => ?_⟩
      · cases hsend
        exact nil_not_mem_pack (List.nil_notMem_splitBy _ _)
      · cases hsend
        have hord := @chunkChangesByHlc_ordered _ pushChunkSoftLimit hsorted fun c hc c' hc' => (hm c hc c' hc').1
        have hall : ∀ g ∈ chunkChangesByHlc (all.filter (owned d s.space.db s.ourIdentityId reads)) pushChunkSoftLimit,
            ∀ c ∈ g, c ∈ all.filter (owned d s.space.db s.ourIdentityId reads) := by
          intro g hg c hc
          have hflat : c ∈ (chunkChangesByHlc (all.filter (owned d s.space.db s.ourIdentityId reads)) pushChunkSoftLimit).flatten :=
            List.mem_flatten.2 ⟨g, hg, hc⟩
          rwa [chunkChangesByHlc, flatten_pack, List.nil_append, List.flatten_splitBy] at hflat
        exact hord.imp_of_mem fun hg hg' hlt c hc c' hc' _ =>
          (hm c (hall _ hg c hc) c' (hall _ hg' c' hc')).2 (hlcIsNewer_iff.2 (hlt c hc c' hc'))
  · exact h

theorem chunk_safe (h : CursorSafe d s) {reply : ChunkReply} (hm : CursorMeets d s (.chunk reply)) :
    CursorSafe d (s.step d (.chunk reply)) := by
  show CursorSafe d (s.chunk reply)
  unfold PushState.chunk
  split
  · rename_i chunk chunks foreignMaxHlc hphase
    have hfewer : ∀ c, c ∉ s.accepted ++ chunk → c ∉ s.accepted := fun c hc hmem => hc (List.mem_append_left _ hmem)
    split
    · exact h.idle
    · exact ⟨fun c hc => h.above c ⟨hc.1, hfewer c hc.2⟩, (by intro _ _ hp; cases hp), (by intro _ _ hp; cases hp)⟩
    · rename_i saved
      obtain ⟨hbefore, hord⟩ := List.pairwise_cons.1 (h.ordered _ _ hphase)
      have hne := h.nonempty _ _ hphase
      obtain ⟨last, hlast, hmax⟩ := hlcMax_mem fun he : chunk = [] => hne (he ▸ List.mem_cons_self)
      -- what still waits is offered by a later chunk, or left out
      have hstill : ∀ c, Emits d.scanner s.space.db (d.args none) c → c ∉ s.accepted ++ chunk →
          Above d s.space.db last.hlcTimestamp c := by
        intro c hc hna
        have hwait : Waiting d s c := ⟨hc, hfewer c hna⟩
        by_cases hoffered : c ∈ chunks.flatten
        · obtain ⟨g, hg, hcg⟩ := List.mem_flatten.1 hoffered
          exact hbefore g hg last hlast c hcg hwait
        · refine hm chunk chunks foreignMaxHlc hphase c ⟨hwait, ?_⟩ last hlast
          rw [PushState.inFlight, hphase]
          rintro hmem
          rcases List.mem_append.1 hmem with hmem | hmem
          · exact hna (List.mem_append_right _ hmem)
          · exact hoffered hmem
      refine ⟨fun c hc h₀ hh => ?_, fun chunks' _ hsend => ?_, fun chunks' _ hsend => ?_⟩
      · simp only [PushState.checkpoint, hmax] at hh
        rcases hh with hh | hh
        · cases saved with
          | true => exact Option.some.inj hh ▸ hstill c hc.1 hc.2
          | false => exact h.above c ⟨hc.1, hfewer c hc.2⟩ h₀ (.inl hh)
        · exact Option.some.inj hh ▸ hstill c hc.1 hc.2
      · cases hsend
        exact fun hmem => hne (List.mem_cons_of_mem _ hmem)
      · cases hsend
        exact hord.imp fun hpair c hc c' hc' hwait => hpair c hc c' hc' ⟨hwait.1, hfewer c' hwait.2⟩
  · exact h

theorem finish_safe (h : CursorSafe d s) {saved : Bool} (hm : CursorMeets d s (.finish saved)) :
    CursorSafe d (s.step d (.finish saved)) := by
  show CursorSafe d (s.finish saved)
  unfold PushState.finish
  split
  · rename_i foreignMaxHlc hphase
    split
    · rename_i skipHlc hskip
      have hleft : ∀ c, Waiting d s c → Above d s.space.db skipHlc c := by
        intro c hc
        refine hm skipHlc hskip c ⟨hc, ?_⟩
        rw [PushState.inFlight, hphase]
        exact List.not_mem_nil
      refine ⟨fun c hc h₀ hh => ?_, (by intro _ _ hp; cases hp), (by intro _ _ hp; cases hp)⟩
      simp only [PushState.checkpoint] at hh
      rcases hh with hh | hh
      · cases saved with
        | true => exact Option.some.inj hh ▸ hleft c hc
        | false => exact h.above c hc h₀ (.inl hh)
      · exact Option.some.inj hh ▸ hleft c hc
    · exact h.idle
  · exact h

theorem step_safe (s : PushState) (e : PushEvent) (h : CursorSafe d s) (he : CursorMeets d s e) :
    CursorSafe d (s.step d e) := by
  cases e with
  | edit space led => exact edit_safe h he
  | start canPush ourIdentityId loaded => exact start_safe h canPush ourIdentityId loaded
  | scan reads => exact scan_safe h he
  | chunk reply => exact chunk_safe h he
  | finish saved => exact finish_safe h he

theorem cursorSafe_fresh (hstored : s.storedHlc = none) (hlast : s.lastPushHlc = none) (hphase : s.phase = .idle) :
    CursorSafe d s := by
  refine ⟨fun c _ h₀ hh => ?_, fun _ _ hp => ?_, fun _ _ hp => ?_⟩
  · rw [hstored, hlast] at hh
    rcases hh with hh | hh <;> cases hh
  · rw [hphase] at hp
    cases hp
  · rw [hphase] at hp
    cases hp

/-- Of what waits, a phase offers all that its session may push and that counts as the device's own. -/
theorem scan_offers (h : CursorSafe d s) (hphase : s.phase = .idle) {reads : OwnedReads} {c : LocalColumnChange}
    (hc : Waiting d s c) (hcap : s.canPushUserContent = true ∨ c.tableName ∈ membershipSystemTables)
    (howned : owned d s.space.db s.ourIdentityId reads c = true) : c ∈ (s.scan d reads).inFlight := by
  have hdue : Emits d.scanner s.space.db (d.args s.lastPushHlc) c := by
    cases hlast : s.lastPushHlc with
    | none => exact hc.1
    | some h₀ => exact h.above c hc h₀ (.inr hlast)
  obtain ⟨all, hscan⟩ := exists_scanForPush d s.canPushUserContent s.space.schema s.lastPushHlc
  have hmem : c ∈ all := ((scanForPush_ok s.space.schema hscan).2 c).2 ⟨hdue, hcap⟩
  have hne : all ≠ [] := List.ne_nil_of_mem hmem
  simp only [PushState.scan, hphase, hscan, hne, if_false, PushState.inFlight, filterForeignMembershipRows]
  rw [chunkChangesByHlc, flatten_pack, List.nil_append, List.flatten_splitBy]
  exact List.mem_filter.2 ⟨hmem, howned⟩

/-- As long as each step brings what it must, no unaccepted change of the device falls behind the stored cursor. -/
theorem push_cursor_behind {s₀ : PushState} {events : List PushEvent} (hstored : s₀.storedHlc = none)
    (hlast : s₀.lastPushHlc = none) (hphase : s₀.phase = .idle)
    (hrun : Guarded (PushState.step d) (CursorMeets d) s₀ events) : Unstepped d (run (PushState.step d) s₀ events) := by
  have hsafe := hrun.inv step_safe (cursorSafe_fresh hstored hlast hphase)
  intro c hc h₀ hh
  have habove := hsafe.above c hc h₀ (.inl hh)
  exact ⟨habove.newer, habove⟩

end Steps

/-! ## A session without write capability -/

/-- A share, and a key package the device uploaded after it. -/
def sharingRows (name : String) : List Row :=
  if name = "haex_peer_shares" then
    [storedRow [("id", .text "p1"), ("space_id", .text "s"), ("device_id", .text "dev"), ("endpoint_id", .text "ep"),
      ("name", .text "photos"), ("local_path", .text "/photos"), (hlcTimestampColumn, .text "1/a")]]
  else if name = "haex_mls_sync_keys" then
    [storedRow [("id", .text "k1"), ("space_id", .text "s"), ("epoch", .text "0"), ("key_data", .text "kd"),
      (hlcTimestampColumn, .text "2/a")]]
  else []

theorem sharingRows_holds : ∀ p ∈ spaceSchema, Holds { p.2 with rows := sharingRows p.1 } := by
  intro p hp
  simp only [spaceSchema, List.mem_cons, List.not_mem_nil, or_false] at hp
  rcases hp with rfl | rfl | rfl | rfl | rfl
  · exact holds_empty _
  · exact holds_empty _
  · exact ⟨by decide, by decide⟩
  · exact ⟨by decide, by decide⟩
  · exact holds_empty _

def sharingState : PushState where
  space := ⟨spaceTablesOf sharingRows, spaceSchema_tablesOf sharingRows_holds⟩

def sharingDevice : PushDevice := ⟨pushEnv, pkScanner, "s", "dev", "ep", some 10⟩

def pushOnce (canPushUserContent : Bool) : List PushEvent :=
  [.start canPushUserContent none true, .scan {}, .chunk (.ok true), .finish true]

theorem emits_of_scan {x : Scanner} {space : SpaceDb} {a : ScanArgs} {c : LocalColumnChange}
    (h : (scanSpaceScopedTablesForLocalChanges x space.db a).toOption.any (c ∈ ·) = true) : Emits x space.db a c := by
  obtain ⟨changes, hscan, hmem⟩ := scan_ok x space.schema a
  rw [hscan] at h
  exact (hmem c).1 (of_decide_eq_true h)

theorem sharing_scan_meets :
    CursorMeets sharingDevice (run (PushState.step sharingDevice) sharingState [.start true none true]) (.scan {}) := by
  have hscan : (scanForPush sharingDevice true sharingState.space.db none).toOption.all (fun all => ∀ c ∈ all, ∀ c' ∈ all,
      (hlcKey c.hlcTimestamp = hlcKey c'.hlcTimestamp → c.hlcTimestamp = c'.hlcTimestamp) ∧
        (hlcIsNewer c'.hlcTimestamp c.hlcTimestamp = true → (scanSpaceScopedTablesForLocalChanges pkScanner
          sharingState.space.db (sharingDevice.args (some c.hlcTimestamp))).toOption.any (c' ∈ ·) = true)) = true := by
    decide +kernel
  intro all _ hall c hc c' hc'
  have hsub := (List.filter_sublist (p := owned sharingDevice sharingState.space.db none {}) (l := all)).subset
  rw [show scanForPush sharingDevice true sharingState.space.db none = .ok all from hall] at hscan
  obtain ⟨htext, habove⟩ := of_decide_eq_true (Option.all_some.symm.trans hscan) c (hsub hc) c' (hsub hc')
  exact ⟨htext, fun hn => emits_of_scan (habove hn)⟩

theorem sharing_chunk_meets :
    CursorMeets sharingDevice (run (PushState.step sharingDevice) sharingState [.start true none true, .scan {}])
      (.chunk (.ok true)) := by
  have hoffered : (scanSpaceScopedTablesForLocalChanges pkScanner sharingState.space.db
      (sharingDevice.args none)).toOption.all (fun all => ∀ c ∈ all,
        c ∈ (run (PushState.step sharingDevice) sharingState [.start true none true, .scan {}]).inFlight) = true := rfl
  intro _ _ _ _ c hc
  obtain ⟨all, hall, hmem⟩ := scan_ok pkScanner sharingState.space.schema (sharingDevice.args none)
  rw [hall] at hoffered
  exact absurd (of_decide_eq_true (Option.all_some.symm.trans hoffered) c ((hmem c).2 hc.1.1)) hc.2

theorem sharing_finish_meets :
    CursorMeets sharingDevice (run (PushState.step sharingDevice) sharingState [.start true none true, .scan {}, .chunk (.ok true)])
      (.finish true) := by
  have hnone : (run (PushState.step sharingDevice) sharingState [.start true none true, .scan {}, .chunk (.ok true)]).skipTo =
      none := rfl
  intro skipHlc hskip
  cases hnone.symm.trans hskip

/-- A session that may push everything sends the share with the rest. -/
theorem push_cursor_behind_write :
    Unstepped sharingDevice (run (PushState.step sharingDevice) sharingState (pushOnce true)) :=
  push_cursor_behind rfl rfl rfl ⟨trivial, sharing_scan_meets, sharing_chunk_meets, sharing_finish_meets, trivial⟩

def shareName : LocalColumnChange :=
  ⟨"haex_peer_shares", "\x7b\"id\":\"p1\"\x7d", "name", "1/a", .string "photos", "dev"⟩

theorem scan_offers_share :
    shareName ∈ ((sharingState.step sharingDevice (.start true none true)).scan sharingDevice {}).inFlight :=
  scan_offers (cursorSafe_fresh rfl rfl rfl) rfl ⟨emits_of_scan (by decide), List.not_mem_nil⟩ (.inl rfl) rfl

/-- A session without the capability sends the key package of `2/a` alone, and the cursor passes the share of `1/a`. -/
theorem read_session_steps_over :
    ¬ ∀ (d : PushDevice) (s₀ : PushState) (events : List PushEvent), s₀.storedHlc = none → s₀.lastPushHlc = none →
      s₀.phase = .idle → Unstepped d (run (PushState.step d) s₀ events) := by
  intro hall
  have hwait : (scanSpaceScopedTablesForLocalChanges pkScanner (run (PushState.step sharingDevice) sharingState
      (pushOnce false)).space.db (sharingDevice.args none)).toOption.any (shareName ∈ ·) = true := by decide
  have haccepted : shareName ∉ (run (PushState.step sharingDevice) sharingState (pushOnce false)).accepted := by
    decide
  have hcursor : (run (PushState.step sharingDevice) sharingState (pushOnce false)).storedHlc = some "2/a" := rfl
  have hnewer := (hall sharingDevice sharingState (pushOnce false) rfl rfl rfl shareName ⟨emits_of_scan hwait, haccepted⟩
    "2/a" hcursor).1
  revert hnewer
  decide

end HaexVault.Space
