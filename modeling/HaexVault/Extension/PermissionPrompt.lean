import Mathlib.Data.Multiset.Range
import Mathlib.Algebra.Order.Group.Multiset
import Mathlib.Tactic.Abel
import HaexVault.Extension.Permissions
import HaexVault.Lib.Runs
/-!
# The permission dialog (`composables/usePermissionPrompt.ts`)

One dialog shows one prompt at a time; the others wait in a queue. `handleDecision` gives up control
while it saves, and the next prompt is shown one tick after the dialog has closed: both go on with
whatever is shown by then (`answered_one_by_one`).
-/

namespace HaexVault.Extension

open Lib.Runs

def ResourceType.asStr : ResourceType → String
  | .fs => "fs"
  | .web => "web"
  | .db => "db"
  | .shell => "shell"
  | .filesync => "filesync"
  | .spaces => "spaces"
  | .identities => "identities"
  | .passwords => "passwords"
  | .mail => "mail"

structure PermissionPromptData where
  extensionId : String
  extensionName : String
  resourceType : ResourceType
  action : String
  target : String
  deriving DecidableEq

inductive PermissionDecision where
  | granted | denied | ask
  deriving DecidableEq

def getPromptKey (data : PermissionPromptData) : String :=
  data.extensionId ++ ":" ++ data.resourceType.asStr ++ ":" ++ data.action ++ ":" ++ data.target

/-- A prompt and its number among all prompts; one from the backend has no promise to resolve. -/
structure Prompt where
  id : Nat
  data : PermissionPromptData
  hasPromise : Bool
  deriving DecidableEq

abbrev Prompt.key (p : Prompt) : String := getPromptKey p.data

structure Choice where
  decision : PermissionDecision
  applyToAll : Bool
  shown : Option String
  queued : List String
  deriving DecidableEq

def Choice.About (c : Choice) (p : Prompt) : Prop :=
  c.shown = some p.key ∨ c.applyToAll = true ∧ p.key ∈ c.queued

instance (c : Choice) (p : Prompt) : Decidable (c.About p) := inferInstanceAs (Decidable (_ ∨ _))

/-- The globals of the module and the calls that are under way. -/
structure Dialog where
  isOpen : Bool := false
  /-- `promptData` with `resolvePromise`: they are set and cleared together. -/
  promptData : Option Prompt := none
  promptQueue : List Prompt := []
  /-- `duplicateWaiters`, all keys in one list. -/
  duplicateWaiters : List Prompt := []
  /-- The `nextTick` callbacks that have not run. -/
  ticks : Nat := 0
  /-- The `handleDecision` calls that are saving: the data they captured and the decision. -/
  saving : List (PermissionPromptData × Choice) := []
  /-- The loops over `queueCopy`: what is left of each. -/
  applying : List (Choice × List Prompt) := []
  /-- How many prompts there have been. -/
  raised : Nat := 0
  /-- The prompts that got an answer, and the decision that gave it. -/
  answered : List (Prompt × Choice) := []
  deriving DecidableEq

namespace Dialog

/-! ## The functions -/

def isDuplicatePrompt (s : Dialog) (data : PermissionPromptData) : Bool :=
  s.promptData.any (fun p => p.key = getPromptKey data) || s.promptQueue.any (fun p => p.key = getPromptKey data)

def present (s : Dialog) (p : Prompt) : Dialog :=
  if s.isOpen then { s with promptQueue := s.promptQueue ++ [p], raised := s.raised + 1 }
  else { s with promptData := some p, isOpen := true, raised := s.raised + 1 }

def promptForPermission (s : Dialog) (data : PermissionPromptData) : Dialog :=
  if s.isDuplicatePrompt data then
    { s with duplicateWaiters := s.duplicateWaiters ++ [⟨s.raised, data, true⟩], raised := s.raised + 1 }
  else s.present ⟨s.raised, data, true⟩

def permissionListener (s : Dialog) (data : PermissionPromptData) : Dialog :=
  if s.isDuplicatePrompt data then s else s.present ⟨s.raised, data, false⟩

def resolveDuplicateWaiters (s : Dialog) (key : String) (c : Choice) : Dialog :=
  { s with
    answered := s.answered ++ (s.duplicateWaiters.filter (·.key = key)).map (·, c)
    duplicateWaiters := s.duplicateWaiters.filter (¬ ·.key = key) }

def showNextPrompt (s : Dialog) : Dialog :=
  match s.promptQueue with
  | [] => s
  | next :: rest => { s with promptQueue := rest, promptData := some next, isOpen := true }

def choice (s : Dialog) (decision : PermissionDecision) (applyToAll : Bool) : Choice :=
  ⟨decision, applyToAll, s.promptData.map (·.key), s.promptQueue.map (·.key)⟩

/-- `handleDecision` up to its first `await`. -/
def handleDecision (s : Dialog) (decision : PermissionDecision) (applyToAll : Bool) : Dialog :=
  match s.promptData with
  | none => s
  | some p => { s with saving := s.saving ++ [(p.data, s.choice decision applyToAll)] }

def closeWith (s : Dialog) (c : Choice) : Dialog :=
  { s with isOpen := false, answered := s.answered ++ s.promptData.toList.map (·, c), promptData := none }

def scheduleNext (s : Dialog) : Dialog := if s.promptQueue = [] then s else { s with ticks := s.ticks + 1 }

/-- `handleDecision` from the end of its save to its next `await`, for the `i`-th call that is saving. -/
def finishDecision (s : Dialog) (i : Nat) : Dialog :=
  match s.saving[i]? with
  | none => s
  | some (data, c) =>
    let s := { s with saving := s.saving.eraseIdx i }
    let s := (s.closeWith c).resolveDuplicateWaiters (getPromptKey data) c
    if c.applyToAll ∧ s.promptQueue ≠ [] then
      { s with promptQueue := [], applying := s.applying ++ [(c, s.promptQueue)] }
    else s.scheduleNext

/-- One round of the loop over `queueCopy`, for the `i`-th such loop, after its save. -/
def applyNext (s : Dialog) (i : Nat) : Dialog :=
  match s.applying[i]? with
  | some (c, p :: rest) =>
    let s := { s with applying := s.applying.set i (c, rest), answered := s.answered ++ [(p, c)] }
    s.resolveDuplicateWaiters p.key c
  | _ => s

def cancelPrompt (s : Dialog) : Dialog :=
  let c := s.choice .denied false
  let data := s.promptData
  let s := s.closeWith c
  let s := match data with
    | some p => s.resolveDuplicateWaiters p.key c
    | none => s
  s.scheduleNext

def nextTick (s : Dialog) : Dialog := if s.ticks = 0 then s else { s with ticks := s.ticks - 1 }.showNextPrompt

end Dialog

/-- What can happen between two `await`s. The saves and notifications themselves touch nothing of the dialog. -/
inductive DialogEvent where
  | prompt (data : PermissionPromptData)
  | backendPrompt (data : PermissionPromptData)
  | decision (decision : PermissionDecision) (applyToAll : Bool)
  | saved (call : Nat)
  | applied (loop : Nat)
  | cancel
  | tick
  deriving DecidableEq

namespace Dialog

def step (s : Dialog) : DialogEvent → Dialog
  | .prompt data => s.promptForPermission data
  | .backendPrompt data => s.permissionListener data
  | .decision decision applyToAll => s.handleDecision decision applyToAll
  | .saved i => s.finishDecision i
  | .applied i => s.applyNext i
  | .cancel => s.cancelPrompt
  | .tick => s.nextTick

/-! ## One by one -/

def beingApplied (s : Dialog) : List Prompt := s.applying.flatMap (·.2)

/-- Every prompt has at most one answer, from a decision about it; and with no dialog open and no tick pending, a
prompt without an answer is one an apply-to-all is about to answer, or waits for such a one. -/
structure OneByOne (s : Dialog) : Prop where
  once : (s.answered.map (·.1.id)).Nodup
  chosen : ∀ a ∈ s.answered, a.2.About a.1
  noneLeft : s.isOpen = false → s.ticks = 0 → s.promptData = none ∧ s.promptQueue = [] ∧
    ∀ n < s.raised, n ∈ s.answered.map (·.1.id) ∨ ∃ p ∈ s.beingApplied, p.id = n ∨
      ∃ w ∈ s.duplicateWaiters, w.id = n ∧ w.key = p.key

def InTurn (s : Dialog) : DialogEvent → Prop
  | .prompt data | .backendPrompt data => s.isDuplicatePrompt data = true ∨
      (s.isOpen = true ∨ s.ticks = 0) ∧ ∀ call ∈ s.saving, call.2.applyToAll = false
  | .decision _ _ => s.promptData = none ∨ s.saving = []
  | .cancel => s.saving = [] ∧ (s.isOpen = true ∨ s.promptQueue = [])
  | .saved _ | .applied _ | .tick => True

/-! ## What the dialog keeps -/

variable {s : Dialog} {c : Choice} {p : Prompt} {key : String} {data : PermissionPromptData}

/-- All prompts, wherever they are. -/
def prompts (s : Dialog) : Multiset Prompt :=
  s.answered.map (·.1) + s.promptData.toList + s.promptQueue + s.duplicateWaiters + s.beingApplied

def originals (s : Dialog) : List Prompt := s.promptData.toList ++ s.promptQueue ++ s.beingApplied

/-- The parts of the dialog that only the answers depend on. -/
structure Answers (s : Dialog) : Prop where
  conserved : s.prompts.map (·.id) = Multiset.range s.raised
  chosen : ∀ a ∈ s.answered, a.2.About a.1
  covered : ∀ w ∈ s.duplicateWaiters, ∃ p ∈ s.originals, p.key = w.key
  applies : ∀ call ∈ s.applying, call.1.applyToAll = true ∧ ∀ p ∈ call.2, p.key ∈ call.1.queued

/-- The dialog while it runs in turn. -/
structure Inv (s : Dialog) : Prop extends Answers s where
  isOpen : s.isOpen = s.promptData.isSome
  ticks : s.ticks ≤ 1
  closed : s.ticks = 1 → s.isOpen = false
  next : s.isOpen = false → s.ticks = 0 → s.promptQueue = []
  one : s.saving.length ≤ 1
  saves : ∀ call ∈ s.saving, (∃ p, s.promptData = some p ∧ p.data = call.1) ∧ call.2.shown = some (getPromptKey call.1) ∧
    (call.2.applyToAll = true → ∀ p ∈ s.promptQueue, p.key ∈ call.2.queued)

theorem Inv.notShown (h : s.Inv) (hclosed : s.isOpen = false) : s.promptData = none := by
  have hnone := h.isOpen.symm.trans hclosed
  rwa [Option.isSome_eq_false_iff, Option.isNone_iff_eq_none] at hnone

theorem Inv.ticks_of_open (h : s.Inv) (hopen : s.isOpen = true) : s.ticks = 0 := by
  have hle := h.ticks
  have hne : s.ticks ≠ 1 := fun h1 => Bool.false_ne_true ((h.closed h1).symm.trans hopen)
  omega

theorem Inv.oneByOne (h : s.Inv) : s.OneByOne := by
  have hnodup : (s.prompts.map (·.id)).Nodup := h.conserved ▸ Multiset.nodup_range _
  refine ⟨?_, h.chosen, fun hclosed hticks => ?_⟩
  · refine Multiset.coe_nodup.1 (Multiset.nodup_of_le ?_ hnodup)
    simp only [prompts, Multiset.map_add, Multiset.map_coe, List.map_map, add_assoc]
    exact Multiset.le_add_right _ _
  · have hnone := h.notShown hclosed
    have hqueue := h.next hclosed hticks
    refine ⟨hnone, hqueue, fun n hn => ?_⟩
    have hmem : n ∈ s.prompts.map (·.id) := h.conserved ▸ Multiset.mem_range.2 hn
    obtain ⟨q, hq, rfl⟩ := Multiset.mem_map.1 hmem
    simp only [prompts, hnone, hqueue, Option.toList_none, Multiset.mem_add, Multiset.mem_coe, List.not_mem_nil,
      or_false] at hq
    obtain (hq | hq) | hq := hq
    · obtain ⟨a, ha, rfl⟩ := List.mem_map.1 hq
      exact .inl (List.mem_map_of_mem ha)
    · -- a duplicate still waits: what it waits for can only be in an apply-to-all
      obtain ⟨p, hp, hkey⟩ := h.covered q hq
      simp only [originals, hnone, hqueue, Option.toList_none, List.nil_append] at hp
      exact .inr ⟨p, hp, .inr ⟨q, hq, rfl, hkey.symm⟩⟩
    · exact .inr ⟨q, hq, .inl rfl⟩

/-! ### Answers move prompts and lose none -/

theorem prompts_resolveDuplicateWaiters : (s.resolveDuplicateWaiters key c).prompts = s.prompts := by
  have hsplit : (↑(s.duplicateWaiters.filter (·.key = key)) : Multiset Prompt) +
      ↑(s.duplicateWaiters.filter (¬ ·.key = key)) = ↑s.duplicateWaiters := by
    have := Multiset.filter_add_not (·.key = key) (s.duplicateWaiters : Multiset Prompt)
    simpa only [Multiset.filter_coe] using this
  simp only [prompts, resolveDuplicateWaiters, beingApplied, List.map_append, List.map_map, Function.comp_def,
    List.map_id', ← Multiset.coe_add]
  rw [← hsplit]
  abel

theorem prompts_closeWith : (s.closeWith c).prompts = s.prompts := by
  simp only [prompts, closeWith, beingApplied, List.map_append, List.map_map, Function.comp_def, List.map_id',
    ← Multiset.coe_add, Option.toList_none, Multiset.coe_nil, add_zero]

theorem resolveDuplicateWaiters_chosen (h : ∀ a ∈ s.answered, a.2.About a.1)
    (hc : ∀ w ∈ s.duplicateWaiters, w.key = key → c.About w) :
    ∀ a ∈ (s.resolveDuplicateWaiters key c).answered, a.2.About a.1 := by
  intro a ha
  rcases List.mem_append.1 ha with ha | ha
  · exact h a ha
  · obtain ⟨w, hw, rfl⟩ := List.mem_map.1 ha
    obtain ⟨hw, hkey⟩ := List.mem_filter.1 hw
    exact hc w hw (of_decide_eq_true hkey)

theorem About_of_key {q : Prompt} (h : c.About p) (hkey : q.key = p.key) : c.About q := by
  unfold Choice.About at h ⊢
  rwa [hkey]

/-- The prompt that is shown gets the answer, and with it the duplicates that wait for it. -/
theorem Answers.close (h : s.Answers) (hp : s.promptData = some p) (hc : c.About p) :
    ((s.closeWith c).resolveDuplicateWaiters p.key c).Answers where
  conserved := by rw [prompts_resolveDuplicateWaiters, prompts_closeWith]; exact h.conserved
  chosen := by
    refine resolveDuplicateWaiters_chosen (fun a ha => ?_) fun w _ hkey => About_of_key hc hkey
    rcases List.mem_append.1 ha with ha | ha
    · exact h.chosen a ha
    · obtain ⟨q, hq, rfl⟩ := List.mem_map.1 ha
      rw [hp, Option.toList_some, List.mem_singleton] at hq
      exact hq ▸ hc
  covered w hw := by
    obtain ⟨hw, hkey⟩ := List.mem_filter.1 hw
    obtain ⟨q, hq, hqw⟩ := h.covered w hw
    refine ⟨q, ?_, hqw⟩
    simp only [originals, hp, Option.toList_some, List.cons_append, List.nil_append, List.mem_cons] at hq
    rcases hq with rfl | hq
    · simp [hqw] at hkey
    · exact hq
  applies := h.applies

theorem beingApplied_set {l : List (Choice × List Prompt)} {i : Nat} {rest : List Prompt} (hi : l[i]? = some (c, p :: rest)) :
    (l.flatMap (·.2)).Perm (p :: (l.set i (c, rest)).flatMap (·.2)) := by
  induction l generalizing i with
  | nil => simp at hi
  | cons a l ih =>
    cases i with
    | zero =>
      obtain rfl : a = (c, p :: rest) := Option.some.inj hi
      simp
    | succ i =>
      simp only [List.set_cons_succ, List.flatMap_cons]
      exact ((ih hi).append_left a.2).trans List.perm_middle

theorem Answers.applyNext (h : s.Answers) (i : Nat) : (s.applyNext i).Answers := by
  unfold Dialog.applyNext
  split
  case h_1 c p rest hi =>
    obtain ⟨hall, hkeys⟩ := h.applies _ (List.mem_of_getElem? hi)
    have hc : c.About p := .inr ⟨hall, hkeys p (.head _)⟩
    have hperm := beingApplied_set hi
    refine ⟨?_, ?_, ?_, ?_⟩
    · rw [prompts_resolveDuplicateWaiters]
      refine Eq.trans (congrArg _ ?_) h.conserved
      have hcoe := Multiset.coe_eq_coe.2 hperm
      rw [← Multiset.cons_coe, ← Multiset.singleton_add] at hcoe
      simp only [prompts, beingApplied, hcoe, List.map_append, List.map_cons, List.map_nil, ← Multiset.coe_add,
        Multiset.coe_singleton]
      abel
    · refine resolveDuplicateWaiters_chosen (fun a ha => ?_) fun w _ hkey => About_of_key hc hkey
      rcases List.mem_append.1 ha with ha | ha
      · exact h.chosen a ha
      · rw [List.mem_singleton.1 ha]
        exact hc
    · intro w hw
      obtain ⟨hw, hkey⟩ := List.mem_filter.1 hw
      obtain ⟨q, hq, hqw⟩ := h.covered w hw
      have hne : q ≠ p := by rintro rfl; simp [hqw] at hkey
      refine ⟨q, ?_, hqw⟩
      simpa only [originals, beingApplied, resolveDuplicateWaiters, List.mem_append, hperm.mem_iff, List.mem_cons, hne,
        false_or] using hq
    · intro call hcall
      rcases List.mem_or_eq_of_mem_set hcall with hcall | rfl
      · exact h.applies call hcall
      · exact ⟨hall, fun q hq => hkeys q (.tail _ hq)⟩
  case h_2 => exact h

theorem Answers.takeQueue (h : s.Answers) (hall : c.applyToAll = true) (hqueued : ∀ p ∈ s.promptQueue, p.key ∈ c.queued) :
    ({ s with promptQueue := [], applying := s.applying ++ [(c, s.promptQueue)] } : Dialog).Answers where
  conserved := by
    refine Eq.trans (congrArg _ ?_) h.conserved
    simp only [prompts, beingApplied, List.flatMap_append, List.flatMap_cons, List.flatMap_nil, List.append_nil,
      ← Multiset.coe_add, Multiset.coe_nil, add_zero]
    abel
  chosen := h.chosen
  covered w hw := by
    obtain ⟨q, hq, hkey⟩ := h.covered w hw
    refine ⟨q, ?_, hkey⟩
    simp only [originals, beingApplied, List.flatMap_append, List.flatMap_cons, List.flatMap_nil, List.append_nil,
      List.mem_append] at hq ⊢
    tauto
  applies call hcall := by
    rcases List.mem_append.1 hcall with hcall | hcall
    · exact h.applies call hcall
    · obtain rfl := List.mem_singleton.1 hcall
      exact ⟨hall, hqueued⟩

/-! ### Each event -/

theorem Inv.wait (h : s.Inv) (hdup : s.isDuplicatePrompt data = true) :
    ({ s with duplicateWaiters := s.duplicateWaiters ++ [⟨s.raised, data, true⟩], raised := s.raised + 1 } : Dialog).Inv := by
  refine { h with conserved := ?_, covered := ?_ }
  · rw [Multiset.range_succ, ← h.conserved]
    simp only [prompts, beingApplied, ← Multiset.coe_add, Multiset.coe_singleton, Multiset.map_add, Multiset.map_singleton,
      ← Multiset.singleton_add]
    abel
  · intro w hw
    rcases List.mem_append.1 hw with hw | hw
    · exact h.covered w hw
    · obtain rfl := List.mem_singleton.1 hw
      rcases Bool.or_eq_true_iff.1 hdup with hshown | hqueued
      · obtain ⟨q, hq, hkey⟩ := (Option.any_eq_true _ _).1 hshown
        exact ⟨q, by simp [originals, hq], of_decide_eq_true hkey⟩
      · obtain ⟨q, hq, hkey⟩ := List.any_eq_true.1 hqueued
        exact ⟨q, by simp [originals, hq], of_decide_eq_true hkey⟩

theorem Inv.present (h : s.Inv) (hp : p.id = s.raised) (hturn : s.isOpen = true ∨ s.ticks = 0)
    (hsaving : ∀ call ∈ s.saving, call.2.applyToAll = false) : (s.present p).Inv := by
  unfold Dialog.present
  split
  case isTrue hopen =>
    refine { h with conserved := ?_, covered := ?_, next := ?_, saves := ?_ }
    · rw [Multiset.range_succ, ← h.conserved, ← hp]
      simp only [prompts, beingApplied, ← Multiset.coe_add, Multiset.coe_singleton, Multiset.map_add,
        Multiset.map_singleton, ← Multiset.singleton_add]
      abel
    · intro w hw
      obtain ⟨q, hq, hkey⟩ := h.covered w hw
      refine ⟨q, ?_, hkey⟩
      simp only [originals, beingApplied, List.mem_append] at hq ⊢
      tauto
    · intro hclosed
      exact absurd (hclosed.symm.trans hopen) Bool.false_ne_true
    · intro call hcall
      obtain ⟨hshown, hkey, -⟩ := h.saves call hcall
      refine ⟨hshown, hkey, fun hall => ?_⟩
      exact absurd ((hsaving call hcall).symm.trans hall) Bool.false_ne_true
  case isFalse hopen =>
    have hclosed : s.isOpen = false := Bool.eq_false_iff.2 hopen
    have hnone := h.notShown hclosed
    have hticks : s.ticks = 0 := hturn.resolve_left hopen
    refine { h with conserved := ?_, covered := ?_, isOpen := rfl, closed := ?_, next := ?_, saves := ?_ }
    · rw [Multiset.range_succ, ← h.conserved, ← hp]
      simp only [prompts, beingApplied, hnone, Option.toList_none, Option.toList_some, Multiset.coe_nil, Multiset.coe_singleton,
        Multiset.map_add, Multiset.map_singleton, ← Multiset.singleton_add, add_zero]
      abel
    · intro w hw
      obtain ⟨q, hq, hkey⟩ := h.covered w hw
      refine ⟨q, ?_, hkey⟩
      simp only [originals, beingApplied, hnone, List.mem_append, Option.toList_none, List.not_mem_nil, false_or] at hq ⊢
      tauto
    · intro hone
      exact absurd (hticks.symm.trans hone) Nat.zero_ne_one
    · intro hclosed'
      exact absurd hclosed'.symm Bool.false_ne_true
    · intro call hcall
      obtain ⟨⟨q, hq, -⟩, -⟩ := h.saves call hcall
      exact absurd (hnone.symm.trans hq) (Option.some_ne_none q).symm

theorem Inv.handleDecision (h : s.Inv) (decision : PermissionDecision) (applyToAll : Bool)
    (hturn : s.promptData = none ∨ s.saving = []) : (s.handleDecision decision applyToAll).Inv := by
  unfold Dialog.handleDecision
  split
  case h_1 => exact h
  case h_2 p hp =>
    have hsaving : s.saving = [] := hturn.resolve_left fun hnone => Option.some_ne_none p (hp.symm.trans hnone)
    refine { h with one := by simp [hsaving], saves := ?_ }
    intro call hcall
    obtain rfl : call = (p.data, s.choice decision applyToAll) := by simpa [hsaving] using hcall
    refine ⟨⟨p, hp, rfl⟩, by simp [choice, hp], fun _ q hq => ?_⟩
    exact List.mem_map_of_mem hq

theorem Inv.scheduleNext (h : s.Answers) (hclosed : s.isOpen = false) (hnone : s.promptData = none) (hticks : s.ticks = 0)
    (hsaving : s.saving = []) : s.scheduleNext.Inv := by
  unfold Dialog.scheduleNext
  split
  case isTrue hqueue =>
    exact { h with
      isOpen := by simp [hclosed, hnone], ticks := by simp [hticks], closed := fun _ => hclosed, next := fun _ _ => hqueue
      one := by simp [hsaving], saves := by simp [hsaving] }
  case isFalse hqueue =>
    exact { conserved := h.conserved, chosen := h.chosen, covered := h.covered, applies := h.applies
            isOpen := by simp [hclosed, hnone], ticks := by simp [hticks], closed := fun _ => hclosed
            next := fun _ h0 => absurd h0 (by simp), one := by simp [hsaving], saves := by simp [hsaving] }

theorem Inv.applyNext (h : s.Inv) (i : Nat) : (s.applyNext i).Inv := by
  have hanswers := h.toAnswers.applyNext i
  unfold Dialog.applyNext at hanswers ⊢
  split at hanswers
  case h_1 => exact { h with toAnswers := hanswers }
  case h_2 => exact h

theorem Inv.finishDecision (h : s.Inv) (i : Nat) : (s.finishDecision i).Inv := by
  unfold Dialog.finishDecision
  split
  case h_1 => exact h
  case h_2 data c hi =>
    obtain ⟨⟨p, hp, hdata⟩, hshown, hqueued⟩ := h.saves _ (List.mem_of_getElem? hi)
    dsimp only at hdata hshown hqueued
    subst hdata
    obtain ⟨hlt, -⟩ := List.getElem?_eq_some_iff.1 hi
    have hsaving : s.saving.eraseIdx i = [] := by
      have := List.length_eraseIdx_of_lt hlt
      have := h.one
      exact List.length_eq_zero_iff.1 (by omega)
    have hopen : s.isOpen = true := by rw [h.isOpen, hp]; rfl
    have hclose := Answers.close (s := { s with saving := s.saving.eraseIdx i }) { h with } hp (.inl hshown : c.About p)
    dsimp only
    split
    case isTrue hall =>
      exact { hclose.takeQueue hall.1 (hqueued hall.1) with
        isOpen := rfl, ticks := h.ticks, closed := fun _ => rfl, next := fun _ _ => rfl
        one := by simp [resolveDuplicateWaiters, closeWith, hsaving]
        saves := by simp [resolveDuplicateWaiters, closeWith, hsaving] }
    case isFalse => exact .scheduleNext hclose rfl rfl (h.ticks_of_open hopen) hsaving

theorem Inv.cancelPrompt (h : s.Inv) (hsaving : s.saving = []) (hturn : s.isOpen = true ∨ s.promptQueue = []) :
    s.cancelPrompt.Inv := by
  unfold Dialog.cancelPrompt
  cases hp : s.promptData with
  | none =>
    have hclosed : s.isOpen = false := by rw [h.isOpen, hp]; rfl
    have hqueue : s.promptQueue = [] := hturn.resolve_left (by simp [hclosed])
    have hsame : s.closeWith (s.choice .denied false) = s := by
      simp only [closeWith, hp, Option.toList_none, List.map_nil, List.append_nil, ← hclosed]
      rw [← hp]
    simp only [hsame, Dialog.scheduleNext, hqueue, if_true]
    exact h
  | some p =>
    have hopen : s.isOpen = true := by rw [h.isOpen, hp]; rfl
    have hclose := Answers.close h.toAnswers hp (.inl (by simp [choice, hp]) : (s.choice .denied false).About p)
    exact .scheduleNext hclose rfl rfl (h.ticks_of_open hopen) hsaving

theorem Inv.nextTick (h : s.Inv) : s.nextTick.Inv := by
  unfold Dialog.nextTick
  split
  case isTrue => exact h
  case isFalse hticks =>
    have hone : s.ticks = 1 := by
      have := h.ticks
      omega
    have hclosed := h.closed hone
    have hnone := h.notShown hclosed
    unfold showNextPrompt
    dsimp only
    split
    case h_1 hqueue => exact { h with ticks := by simp [hone], closed := fun _ => hclosed, next := fun _ _ => hqueue }
    case h_2 next rest hqueue =>
      refine { h with
        conserved := ?_, covered := ?_, isOpen := rfl, ticks := by simp [hone], closed := by simp [hone]
        next := fun h' => absurd h'.symm Bool.false_ne_true, saves := ?_ }
      · refine Eq.trans (congrArg _ ?_) h.conserved
        simp only [prompts, beingApplied, hnone, hqueue, Option.toList_none, Option.toList_some, ← Multiset.cons_coe,
          ← Multiset.singleton_add, Multiset.coe_nil, add_zero]
        abel
      · intro w hw
        obtain ⟨q, hq, hkey⟩ := h.covered w hw
        refine ⟨q, ?_, hkey⟩
        simpa [originals, beingApplied, hnone, hqueue] using hq
      · intro call hcall
        obtain ⟨⟨q, hq, -⟩, -⟩ := h.saves call hcall
        exact absurd (hnone.symm.trans hq) (Option.some_ne_none q).symm

theorem Inv.step (h : s.Inv) {e : DialogEvent} (he : s.InTurn e) : (s.step e).Inv := by
  cases e with
  | prompt data =>
    simp only [Dialog.step, promptForPermission]
    split
    case isTrue hdup => exact h.wait hdup
    case isFalse hdup =>
      obtain ⟨hturn, hsaving⟩ := he.resolve_left hdup
      exact h.present rfl hturn hsaving
  | backendPrompt data =>
    simp only [Dialog.step, permissionListener]
    split
    case isTrue => exact h
    case isFalse hdup =>
      obtain ⟨hturn, hsaving⟩ := he.resolve_left hdup
      exact h.present rfl hturn hsaving
  | decision decision applyToAll => exact h.handleDecision decision applyToAll he
  | saved i => exact h.finishDecision i
  | applied i => exact h.applyNext i
  | cancel => exact h.cancelPrompt he.1 he.2
  | tick => exact h.nextTick

theorem Inv.start : Inv {} where
  conserved := rfl
  chosen := by simp
  covered := by simp
  applies := by simp
  isOpen := rfl
  ticks := Nat.zero_le _
  closed := by simp
  next _ _ := rfl
  one := Nat.zero_le _
  saves := by simp

/-- A run in turn answers one by one: at its end, and so in every state on the way. -/
theorem answered_one_by_one (es : List DialogEvent) (h : Guarded step InTurn {} es) : (run step {} es).OneByOne :=
  (Guarded.inv (fun _ _ hinv he => hinv.step he) h Inv.start).oneByOne

instance : DecidablePred s.InTurn
  | .prompt _ | .backendPrompt _ => inferInstanceAs (Decidable (_ ∨ _))
  | .decision _ _ => inferInstanceAs (Decidable (_ ∨ _))
  | .cancel => inferInstanceAs (Decidable (_ ∧ _))
  | .saved _ | .applied _ | .tick => .isTrue trivial

def readTable (table : String) : PermissionPromptData := ⟨"x", "notes", .db, "read", table⟩

def orderlyRun : List DialogEvent :=
  [.prompt (readTable "a"), .prompt (readTable "b"), .backendPrompt (readTable "c"), .decision .granted true,
    .prompt (readTable "a"), .saved 0, .applied 0, .applied 0]

theorem answered_one_by_one_orderly :
    Guarded step InTurn {} orderlyRun ∧ (run step {} orderlyRun).OneByOne := by
  have hturn : Guarded step InTurn {} orderlyRun := by
    refine ⟨?_, ?_, ?_, ?_, ?_, trivial, trivial, trivial, trivial⟩ <;> decide +kernel
  exact ⟨hturn, answered_one_by_one orderlyRun hturn⟩

example : (run step {} orderlyRun).answered.map (·.1.id) = [0, 3, 1, 2] := by decide +kernel

/-- Two clicks on the dialog for `a` also answer the prompt for `b`, which is shown after it; and a prompt that arrives
after the close and before the tick is overwritten and never answered. -/
theorem clicks_and_ticks_mix_prompts_up :
    ¬ (run step {} [.prompt (readTable "a"), .prompt (readTable "b"), .decision .granted false, .decision .granted false,
      .saved 0, .tick, .saved 0]).OneByOne ∧
    ¬ (run step {} [.prompt (readTable "a"), .prompt (readTable "b"), .decision .granted false, .saved 0,
      .prompt (readTable "c"), .tick, .decision .granted false, .saved 0]).OneByOne := by
  constructor
  · intro h
    have habout : Choice.About ⟨.granted, false, some "x:db:read:a", ["x:db:read:b"]⟩ ⟨1, readTable "b", true⟩ :=
      h.chosen (_, _) (by decide +kernel)
    exact absurd habout (by decide +kernel)
  · intro h
    obtain ⟨-, -, hall⟩ := h.noneLeft (by decide +kernel) (by decide +kernel)
    rcases hall 2 (by decide +kernel) with hanswered | ⟨p, hp, -⟩
    · exact absurd hanswered (by decide +kernel)
    · have hnone : beingApplied (run step {} [.prompt (readTable "a"), .prompt (readTable "b"), .decision .granted false,
          .saved 0, .prompt (readTable "c"), .tick, .decision .granted false, .saved 0]) = [] := by decide +kernel
      rw [hnone] at hp
      exact absurd hp List.not_mem_nil

end Dialog

end HaexVault.Extension
