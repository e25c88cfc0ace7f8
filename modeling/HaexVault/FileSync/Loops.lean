import Mathlib.Logic.Function.Basic
import HaexVault.FileSync.Diff
import HaexVault.Lib.Calls
/-!
# Sync loops (`file_sync/commands.rs`, `extension/filesystem/watcher.rs`)

`file_sync_start_rule` stops the loop of its rule, waits for its providers, enters a new loop with
the manager, hands its trigger to the file watchers and spawns it. While it waits other commands run
(`one_loop_per_rule`).
-/

namespace HaexVault.FileSync

open HaexVault.Lib HaexVault.Lib.Runs

inductive FileSyncCommandError where
  | invalidConfig (reason : String)
  | providerError (reason : String)
  | notRunning (ruleId : String)
  deriving DecidableEq

def FileSyncCommandError.display : FileSyncCommandError → String
  | invalidConfig reason => "Invalid config: " ++ reason
  | providerError reason => "Provider error: " ++ reason
  | notRunning ruleId => "Not running: " ++ ruleId

def parseDirection (direction : String) : Except FileSyncCommandError SyncDirection :=
  if direction = "one_way" then .ok .oneWay
  else if direction = "two_way" then .ok .twoWay
  else .error (.invalidConfig ("Unknown direction: " ++ direction))

def parseDeleteMode (deleteMode : String) : Except FileSyncCommandError DeleteMode :=
  if deleteMode = "trash" then .ok .trash
  else if deleteMode = "permanent" then .ok .permanent
  else if deleteMode = "ignore" then .ok .ignore
  else .error (.invalidConfig ("Unknown delete mode: " ++ deleteMode))

/-! ## The manager and the watchers -/

/-- A spawned `run_sync_loop`. -/
structure SyncLoop where
  ruleId : String
  /-- How many `file_sync_stop_all` had returned when its start began. -/
  since : Nat

/-- The loops spawned so far, by the order in which they were, and who can stop or trigger them. -/
structure LoopState where
  loops : List SyncLoop := []
  /-- `active_rules`: the loop whose token and sender an entry has. -/
  activeRules : String → Option Nat := fun _ => none
  /-- The loop whose sender a file watcher has. -/
  watchers : String → Option Nat := fun _ => none
  cancelled : Nat → Bool := fun _ => false
  ended : Nat → Bool := fun _ => false
  stopAlls : Nat := 0

namespace LoopState

/-- `SyncManager::stop`. -/
def stop (s : LoopState) (ruleId : String) : LoopState :=
  match s.activeRules ruleId with
  | some l => { s with
      activeRules := Function.update s.activeRules ruleId none
      cancelled := Function.update s.cancelled l true }
  | none => s

def isEntered (s : LoopState) (l : Nat) : Bool := (s.loops[l]?).any fun loop => s.activeRules loop.ruleId = some l

def stopAll (s : LoopState) : LoopState :=
  { s with activeRules := fun _ => none, cancelled := fun l => s.cancelled l || s.isEntered l }

def register (s : LoopState) (ruleId : String) (l : Nat) : LoopState :=
  { s with activeRules := Function.update s.activeRules ruleId (some l) }

/-- `FileWatcherManager::watch`: a key that is watched keeps its watcher. -/
def watch (s : LoopState) (key : String) (l : Nat) : LoopState :=
  match s.watchers key with
  | some _ => s
  | none => { s with watchers := Function.update s.watchers key (some l) }

def unwatch (s : LoopState) (key : String) : LoopState := { s with watchers := Function.update s.watchers key none }

def unwatchAll (s : LoopState) : LoopState := { s with watchers := fun _ => none }

def unwatchRule (s : LoopState) (ruleId : String) : LoopState := (s.unwatch ruleId).unwatch (ruleId ++ "_source")

def Triggerable (s : LoopState) (l : Nat) : Prop :=
  (∃ ruleId, s.activeRules ruleId = some l) ∨ ∃ key, s.watchers key = some l

structure Live (s : LoopState) (l : Nat) (loop : SyncLoop) : Prop where
  spawned : s.loops[l]? = some loop
  not_cancelled : s.cancelled l = false
  not_ended : s.ended l = false
  triggerable : s.Triggerable l

end LoopState

/-! ## Commands -/

/-- The arguments of `file_sync_start_rule`; a path is the `path` of a provider's config. -/
structure StartRule where
  ruleId : String
  sourceType : String
  sourcePath : Option String
  targetType : String
  targetPath : Option String
  direction : String
  deleteMode : String

inductive StartPhase where
  | called
  /-- It waits for the manager. -/
  | begun
  /-- The loop there was is stopped; it waits for its providers, and for the manager again. -/
  | stopped
  | returned (result : Except FileSyncCommandError Unit)

structure StartCall extends StartRule where
  since : Nat := 0
  phase : StartPhase := .called

structure StartWorld where
  providers : Except FileSyncCommandError Unit
  watchable : String → Bool

namespace StartCall

def watchLocal (s : LoopState) (c : StartCall) (world : StartWorld) (l : Nat) : LoopState :=
  let watchPath (s : LoopState) (providerType : String) (path : Option String) (key : String) :=
    if providerType = "local" ∧ path.any world.watchable = true then s.watch key l else s
  watchPath (watchPath s c.targetType c.targetPath c.ruleId) c.sourceType c.sourcePath (c.ruleId ++ "_source")

/-- The loop is entered, watched and spawned, with no wait in between. -/
def spawn (s : LoopState) (c : StartCall) (world : StartWorld) : LoopState :=
  let l := s.loops.length
  let s := c.watchLocal (s.register c.ruleId l) world l
  { s with loops := s.loops ++ [⟨c.ruleId, c.since⟩] }

/-- `file_sync_start_rule` from one wait to the next. -/
def advance (s : LoopState) (c : StartCall) (world : StartWorld) : LoopState × StartCall :=
  match c.phase with
  | .called => (s, { c with since := s.stopAlls, phase := .begun })
  | .begun =>
    match parseDirection c.direction, parseDeleteMode c.deleteMode with
    | .error e, _ => (s, { c with phase := .returned (.error e) })
    | _, .error e => (s, { c with phase := .returned (.error e) })
    | .ok _, .ok _ => (s.stop c.ruleId, { c with phase := .stopped })
  | .stopped => match world.providers with
    | .error e => (s, { c with phase := .returned (.error e) })
    | .ok _ => (c.spawn s world, { c with phase := .returned (.ok ()) })
  | .returned _ => (s, c)

end StartCall

/-- `file_sync_stop_rule`. -/
def LoopState.stopRule (s : LoopState) (ruleId : String) : LoopState × Except FileSyncCommandError Unit :=
  match s.activeRules ruleId with
  | none => (s, .error (.notRunning ruleId))
  | some _ => ((s.stop ruleId).unwatchRule ruleId, .ok ())

inductive SyncEvent where
  | stopRule (ruleId : String)
  /-- `file_sync_stop_all`. -/
  | stopAll
  /-- `auto_disable_rule`, by a loop that then ends; it gives up early on a poisoned clock. -/
  | autoDisable (l : Nat) (poisoned : Bool)
  /-- A loop ends: it is cancelled, or its trigger channel closed. -/
  | finish (l : Nat)

def LoopState.finish (s : LoopState) (l : Nat) : LoopState := { s with ended := Function.update s.ended l true }

def LoopState.apply (s : LoopState) : SyncEvent → LoopState
  | .stopRule ruleId => (s.stopRule ruleId).1
  | .stopAll => { s.stopAll.unwatchAll with stopAlls := s.stopAlls + 1 }
  | .autoDisable l poisoned => match s.loops[l]? with
    | none => s
    | some loop => (if poisoned then s else (s.stop loop.ruleId).unwatchRule loop.ruleId).finish l
  | .finish l => match s.loops[l]? with
    | none => s
    | some _ => s.finish l

abbrev Syncing := Calls.Sys LoopState StartCall

abbrev SyncingEvent := Calls.Event StartRule StartWorld SyncEvent

namespace Syncing

def machine : Calls.Machine LoopState StartRule StartCall StartWorld SyncEvent where
  start rule := { rule with }
  advance := StartCall.advance
  outside := LoopState.apply

abbrev step : Syncing → SyncingEvent → Syncing := machine.step

/-! ## One loop per rule -/

/-- A rule has at most one live loop, the one that is entered, and its start began after the last `file_sync_stop_all`. -/
structure OneLoop (s : LoopState) : Prop where
  unique : ∀ l l' loop loop', s.Live l loop → s.Live l' loop' → loop.ruleId = loop'.ruleId → l = l'
  entered : ∀ l loop, s.Live l loop → s.activeRules loop.ruleId = some l
  since : ∀ l loop, s.Live l loop → loop.since = s.stopAlls

/-- A start enters its loop when everything was stopped before it began, and not over a loop that is running and that a
watcher triggers. -/
def EntersAlone (σ : Syncing) : SyncingEvent → Prop
  | .resume i world => ∀ c, σ.calls[i]? = some c → c.phase = .stopped → world.providers = .ok () →
      c.since = σ.shared.stopAlls ∧
        ∀ l, σ.shared.activeRules c.ruleId = some l → σ.shared.ended l = true ∨ ∀ key, σ.shared.watchers key ≠ some l
  | _ => True

/-- The entries are loops of their rules that nobody cancelled, and a watcher triggers one of them or a loop that is over. -/
structure WellEntered (s : LoopState) : Prop where
  entries : ∀ ruleId l, s.activeRules ruleId = some l → s.cancelled l = false ∧
    ∃ loop, s.loops[l]? = some loop ∧ loop.ruleId = ruleId ∧ loop.since = s.stopAlls
  held : ∀ key l, s.watchers key = some l → l < s.loops.length ∧
    (s.cancelled l = true ∨ s.ended l = true ∨ ∃ ruleId, s.activeRules ruleId = some l)
  fresh : ∀ l, s.cancelled l = true → l < s.loops.length

section
variable {s : LoopState} {l : Nat} {ruleId : String}

theorem WellEntered.init : WellEntered {} where
  entries := by rintro ruleId l ⟨⟩
  held := by rintro key l ⟨⟩
  fresh := by rintro l ⟨⟩

theorem WellEntered.lt (h : WellEntered s) (he : s.activeRules ruleId = some l) : l < s.loops.length := by
  obtain ⟨-, loop, hloop, -⟩ := h.entries ruleId l he
  exact (List.getElem?_eq_some_iff.1 hloop).1

/-- A loop is entered under one rule. -/
theorem WellEntered.rule (h : WellEntered s) {ruleId' : String} (he : s.activeRules ruleId = some l)
    (he' : s.activeRules ruleId' = some l) : ruleId = ruleId' := by
  obtain ⟨-, loop, hloop, rfl, -⟩ := h.entries ruleId l he
  obtain ⟨-, loop', hloop', rfl, -⟩ := h.entries ruleId' l he'
  rw [Option.some.inj (hloop.symm.trans hloop')]

theorem WellEntered.oneLoop (h : WellEntered s) : OneLoop s := by
  have hentered : ∀ l loop, s.Live l loop → s.activeRules loop.ruleId = some l ∧ loop.since = s.stopAlls := by
    intro l loop hlive
    have hentry : ∃ ruleId, s.activeRules ruleId = some l := by
      rcases hlive.triggerable with hentry | ⟨key, hkey⟩
      · exact hentry
      · rcases (h.held key l hkey).2 with hcancelled | hended | hentry
        · rw [hlive.not_cancelled] at hcancelled
          cases hcancelled
        · rw [hlive.not_ended] at hended
          cases hended
        · exact hentry
    obtain ⟨ruleId, hentry⟩ := hentry
    obtain ⟨-, loop', hloop', rfl, hsince⟩ := h.entries ruleId l hentry
    obtain rfl := Option.some.inj (hlive.spawned.symm.trans hloop')
    exact ⟨hentry, hsince⟩
  refine ⟨fun l l' loop loop' hlive hlive' hrule => ?_, fun l loop hlive => (hentered l loop hlive).1,
    fun l loop hlive => (hentered l loop hlive).2⟩
  have hentry := (hentered l loop hlive).1
  rw [hrule, (hentered l' loop' hlive').1] at hentry
  exact (Option.some.inj hentry).symm

/-! ### What each operation keeps -/

theorem WellEntered.stop (h : WellEntered s) (ruleId : String) : WellEntered (s.stop ruleId) := by
  unfold LoopState.stop
  cases he : s.activeRules ruleId with
  | none => exact h
  | some l =>
    have hother : ∀ ruleId' l', Function.update s.activeRules ruleId none ruleId' = some l' →
        s.activeRules ruleId' = some l' ∧ ruleId' ≠ ruleId ∧ l' ≠ l := by
      intro ruleId' l' he'
      by_cases hrule : ruleId' = ruleId
      · simp [hrule] at he'
      · rw [Function.update_of_ne hrule] at he'
        refine ⟨he', hrule, ?_⟩
        rintro rfl
        exact hrule (h.rule he' he)
    refine ⟨fun ruleId' l' he' => ?_, fun key l' hkey => ?_, fun l' hcancelled => ?_⟩
    · obtain ⟨hold, -, hne⟩ := hother ruleId' l' he'
      obtain ⟨hcancelled, hloop⟩ := h.entries ruleId' l' hold
      exact ⟨by simpa [hne] using hcancelled, hloop⟩
    · obtain ⟨hlt, hstate⟩ := h.held key l' hkey
      refine ⟨hlt, ?_⟩
      by_cases hl : l' = l
      · exact .inl (by simp [hl])
      · rcases hstate with hcancelled | hended | ⟨ruleId', he'⟩
        · exact .inl (by simpa [hl] using hcancelled)
        · exact .inr (.inl hended)
        · have hrule : ruleId' ≠ ruleId := by
            rintro rfl
            exact hl (Option.some.inj (he'.symm.trans he))
          exact .inr (.inr ⟨ruleId', by simpa [hrule] using he'⟩)
    · by_cases hl : l' = l
      · rw [hl]
        exact h.lt he
      · exact h.fresh l' (by simpa [hl] using hcancelled)

theorem WellEntered.unwatch (h : WellEntered s) (key : String) : WellEntered (s.unwatch key) where
  entries := h.entries
  held key' l hkey := by
    refine h.held key' l ?_
    by_cases heq : key' = key
    · simp [LoopState.unwatch, heq] at hkey
    · simpa [LoopState.unwatch, heq] using hkey
  fresh := h.fresh

theorem WellEntered.unwatchRule (h : WellEntered s) (ruleId : String) : WellEntered (s.unwatchRule ruleId) :=
  (h.unwatch ruleId).unwatch _

theorem WellEntered.finish (h : WellEntered s) (l : Nat) : WellEntered (s.finish l) where
  entries := h.entries
  held key l' hkey := by
    obtain ⟨hlt, hstate⟩ := h.held key l' hkey
    refine ⟨hlt, ?_⟩
    by_cases hl : l' = l
    · exact .inr (.inl (by simp [LoopState.finish, hl]))
    · simpa [LoopState.finish, hl] using hstate
  fresh := h.fresh

theorem WellEntered.stopAll (h : WellEntered s) :
    WellEntered { s.stopAll.unwatchAll with stopAlls := s.stopAlls + 1 } where
  entries := by rintro ruleId l ⟨⟩
  held := by rintro key l ⟨⟩
  fresh l hcancelled := by
    rcases Bool.or_eq_true_iff.1 hcancelled with hcancelled | hentered
    · exact h.fresh l hcancelled
    · obtain ⟨loop, hloop, -⟩ := (Option.any_eq_true _ _).1 hentered
      exact (List.getElem?_eq_some_iff.1 hloop).1

theorem WellEntered.apply (h : WellEntered s) (e : SyncEvent) : WellEntered (s.apply e) := by
  cases e with
  | stopRule ruleId =>
    simp only [LoopState.apply, LoopState.stopRule]
    split
    · exact h
    · exact (h.stop ruleId).unwatchRule ruleId
  | stopAll => exact h.stopAll
  | autoDisable l poisoned =>
    simp only [LoopState.apply]
    split
    · exact h
    · split
      · exact h.finish l
      · exact ((h.stop _).unwatchRule _).finish l
  | finish l =>
    simp only [LoopState.apply]
    split
    · exact h
    · exact h.finish l

theorem watch_eq (s : LoopState) (key : String) (l : Nat) : ∃ watchers, s.watch key l = { s with watchers } ∧
    ∀ key' l', watchers key' = some l' → s.watchers key' = some l' ∨ l' = l := by
  unfold LoopState.watch
  cases hkey : s.watchers key with
  | some _ => exact ⟨s.watchers, rfl, fun _ _ h => .inl h⟩
  | none =>
    refine ⟨_, rfl, fun key' l' h => ?_⟩
    by_cases heq : key' = key
    · exact .inr (by simpa [heq] using h.symm)
    · exact .inl (by simpa [heq] using h)

theorem watchLocal_eq (s : LoopState) (c : StartCall) (world : StartWorld) (l : Nat) :
    ∃ watchers, c.watchLocal s world l = { s with watchers } ∧
      ∀ key l', watchers key = some l' → s.watchers key = some l' ∨ l' = l := by
  have hpath : ∀ (s : LoopState) (p : Prop) [Decidable p] (key : String), ∃ watchers,
      (if p then s.watch key l else s) = { s with watchers } ∧
        ∀ key' l', watchers key' = some l' → s.watchers key' = some l' ∨ l' = l := by
    intro s p _ key
    by_cases hp : p
    · rw [if_pos hp]
      exact watch_eq s key l
    · rw [if_neg hp]
      exact ⟨s.watchers, rfl, fun _ _ h => .inl h⟩
  obtain ⟨target, htarget, hkept⟩ := hpath s (c.targetType = "local" ∧ c.targetPath.any world.watchable = true) c.ruleId
  obtain ⟨source, hsource, hkept'⟩ := hpath { s with watchers := target }
    (c.sourceType = "local" ∧ c.sourcePath.any world.watchable = true) (c.ruleId ++ "_source")
  refine ⟨source, ?_, fun key l' hkey => ?_⟩
  · simp only [StartCall.watchLocal, htarget]
    exact hsource
  · rcases hkept' key l' hkey with htarget | hl
    · exact hkept key l' htarget
    · exact .inr hl

/-- A new loop is entered alone. -/
theorem WellEntered.spawn {c : StartCall} {world : StartWorld} (h : WellEntered s) (hsince : c.since = s.stopAlls)
    (halone : ∀ l, s.activeRules c.ruleId = some l → s.ended l = true ∨ ∀ key, s.watchers key ≠ some l) :
    WellEntered (c.spawn s world) := by
  obtain ⟨watchers, hwatch, hkept⟩ := watchLocal_eq (s.register c.ruleId s.loops.length) c world s.loops.length
  have hnew : (s.loops ++ [⟨c.ruleId, c.since⟩])[s.loops.length]? = some ⟨c.ruleId, c.since⟩ := by simp
  have hlength : (s.loops ++ [(⟨c.ruleId, c.since⟩ : SyncLoop)]).length = s.loops.length + 1 := by simp
  have hspawn : c.spawn s world = { s with
      loops := s.loops ++ [⟨c.ruleId, c.since⟩]
      activeRules := Function.update s.activeRules c.ruleId (some s.loops.length)
      watchers } := by
    simp only [StartCall.spawn, hwatch]
    rfl
  rw [hspawn]
  refine ⟨fun ruleId l he => ?_, fun key l hkey => ?_, fun l hcancelled => ?_⟩
  · by_cases hrule : ruleId = c.ruleId
    · subst hrule
      obtain rfl : s.loops.length = l := by simpa [LoopState.register] using he
      refine ⟨?_, _, hnew, rfl, hsince⟩
      by_contra hcancelled
      exact absurd (h.fresh _ (by simpa [LoopState.register] using hcancelled)) (Nat.lt_irrefl _)
    · have hold : s.activeRules ruleId = some l := by simpa [hrule] using he
      obtain ⟨hcancelled, loop, hloop, hrule', hsince'⟩ := h.entries ruleId l hold
      exact ⟨hcancelled, loop, (List.getElem?_append_left (h.lt hold)).trans hloop, hrule', hsince'⟩
  · rcases hkept key l hkey with hold | rfl
    · obtain ⟨hlt, hstate⟩ := h.held key l hold
      refine ⟨Nat.lt_of_lt_of_eq (Nat.lt_succ_of_lt hlt) hlength.symm, ?_⟩
      rcases hstate with hcancelled | hended | ⟨ruleId, he⟩
      · exact .inl hcancelled
      · exact .inr (.inl hended)
      · by_cases hrule : ruleId = c.ruleId
        · subst hrule
          rcases halone l he with hended | hnone
          · exact .inr (.inl hended)
          · exact absurd hold (hnone key)
        · exact .inr (.inr ⟨ruleId, by simpa [hrule] using he⟩)
    · exact ⟨Nat.lt_of_lt_of_eq (Nat.lt_succ_self _) hlength.symm, .inr (.inr ⟨c.ruleId, by simp⟩)⟩
  · exact Nat.lt_of_lt_of_eq (Nat.lt_succ_of_lt (h.fresh l hcancelled)) hlength.symm

end

theorem keeps : Calls.Keeps machine WellEntered (fun _ _ => True) EntersAlone where
  start _ _ _ _ := trivial
  own σ i world c h hG hi _ := by
    refine ⟨?_, trivial⟩
    show WellEntered (c.advance σ.shared world).1
    unfold StartCall.advance
    cases hphase : c.phase with
    | called => exact h.shared
    | begun =>
      dsimp only
      split
      · exact h.shared
      · exact h.shared
      · exact h.shared.stop c.ruleId
    | stopped =>
      cases hproviders : world.providers with
      | error e => exact h.shared
      | ok _ =>
        obtain ⟨hsince, halone⟩ := hG c hi hphase hproviders
        exact h.shared.spawn hsince halone
    | returned => exact h.shared
  other _ _ _ _ _ _ _ _ _ _ := trivial
  outside σ e h _ := ⟨h.shared.apply e, fun _ _ => trivial⟩

/-- A rule has one live loop in every state that starts, stops and failing loops lead to, as long as each start enters its
loop alone. -/
theorem one_loop_per_rule {es : List SyncingEvent} (h : Guarded step EntersAlone ⟨{}, []⟩ es) :
    OneLoop (run step ⟨{}, []⟩ es).shared := by
  have hinit : Calls.Each WellEntered (fun _ _ => True) (⟨{}, []⟩ : Syncing) := ⟨.init, fun _ _ => trivial⟩
  exact (keeps.run h hinit).shared.oneLoop

def localRule : StartRule where
  ruleId := "r"
  sourceType := "local"
  sourcePath := some "/home/ana/a"
  targetType := "local"
  targetPath := some "/home/ana/b"
  direction := "one_way"
  deleteMode := "trash"

def foldersThere : StartWorld := ⟨.ok (), fun _ => true⟩

def startedTwice : List SyncingEvent :=
  [.start localRule, .resume 0 foldersThere, .resume 0 foldersThere, .resume 0 foldersThere, .outside .stopAll,
    .start localRule, .resume 1 foldersThere, .resume 1 foldersThere, .resume 1 foldersThere]

theorem one_loop_per_rule_restarted :
    OneLoop (run step ⟨{}, []⟩ startedTwice).shared ∧
      (run step ⟨{}, []⟩ startedTwice).shared.Live 1 ⟨"r", 1⟩ := by
  refine ⟨one_loop_per_rule ⟨trivial, ?_, ?_, ?_, trivial, trivial, ?_, ?_, ?_, trivial⟩, rfl, rfl, rfl, .inl ⟨"r", rfl⟩⟩
  all_goals
    rintro c hc hphase -
    obtain rfl := Option.some.inj hc
    first
    | exact ⟨rfl, fun l hl => (Option.some_ne_none l (hl.symm.trans rfl)).elim⟩
    | cases hphase

/-- Two starts of the rule at once: each stops the loop there is, and then each enters its own. -/
def startedAtOnce : List SyncingEvent :=
  [.start localRule, .start localRule, .resume 0 foldersThere, .resume 1 foldersThere, .resume 0 foldersThere,
    .resume 1 foldersThere, .resume 0 foldersThere, .resume 1 foldersThere]

/-- Both have returned, and both loops live: the watchers trigger the first, the second is entered. -/
theorem two_loops : ∃ es, (∀ c ∈ (run step ⟨{}, []⟩ es).calls, c.phase = .returned (.ok ())) ∧
    ¬ OneLoop (run step ⟨{}, []⟩ es).shared := by
  refine ⟨startedAtOnce, ?_, fun h => ?_⟩
  · intro c hc
    have hphases : (run step ⟨{}, []⟩ startedAtOnce).calls.map (·.phase) = [.returned (.ok ()), .returned (.ok ())] := rfl
    have hphase := List.mem_map_of_mem (f := (·.phase)) hc
    rw [hphases] at hphase
    simpa using hphase
  · have hfirst : (run step ⟨{}, []⟩ startedAtOnce).shared.Live 0 ⟨"r", 0⟩ := ⟨rfl, rfl, rfl, .inr ⟨"r", rfl⟩⟩
    have hsecond : (run step ⟨{}, []⟩ startedAtOnce).shared.Live 1 ⟨"r", 0⟩ := ⟨rfl, rfl, rfl, .inl ⟨"r", rfl⟩⟩
    exact absurd (h.unique 0 1 _ _ hfirst hsecond rfl) (by decide)

end Syncing

end HaexVault.FileSync
