import Mathlib.Data.Finmap
import HaexVault.Lib.Keyed
import HaexVault.Lib.Runs
/-!
# The windows of the desktop (`stores/desktop/windowManager.ts`)

A window has tabs and repeats what its active tab shows; one window is active, and a singleton source has
one tab at most. `step` is one call of the store, with the uuids that it draws.
-/

namespace HaexVault.Desktop

open HaexVault.Lib.Runs
open HaexVault.Lib

/-! ## Windows and tabs -/

inductive SourceType where
  | system
  | extension
  deriving DecidableEq

abbrev Params := Finmap fun _ : String => String

structure TabFields where
  type : SourceType
  sourceId : String
  title : String
  icon : Option String := none
  params : Option Params := none
  isNativeWebview : Bool := false
  deriving DecidableEq

def TabFields.Shows (t : TabFields) (type : SourceType) (sourceId : String) : Prop := t.type = type ∧ t.sourceId = sourceId

instance (t : TabFields) (type : SourceType) (sourceId : String) : Decidable (t.Shows type sourceId) :=
  inferInstanceAs (Decidable (_ ∧ _))

structure IWindowTab extends TabFields where
  id : String
  deriving DecidableEq

structure IWindow extends TabFields where
  id : String
  workspaceId : String
  tabs : List IWindowTab
  activeTabId : String
  isMinimized : Bool := false
  zIndex : Nat
  isClosing : Bool := false
  deriving DecidableEq

structure SystemWindowDefinition where
  name : String
  icon : String
  singleton : Bool

def systemWindows : List (String × SystemWindowDefinition) :=
  [("settings", ⟨"Settings", "i-mdi-cog", true⟩), ("files", ⟨"Files", "i-mdi-folder", false⟩),
    ("marketplace", ⟨"Marketplace", "i-mdi-store", false⟩), ("passwords", ⟨"Passwords", "i-mdi-key-variant", true⟩)]

def getSystemWindow (id : String) : Option SystemWindowDefinition := systemWindows.lookup id

inductive DisplayMode where
  | auto
  | window
  | iframe
  deriving DecidableEq

structure Extension where
  id : String
  name : String
  displayMode : Option DisplayMode := none
  singleInstance : Bool := false
  iconUrl : Option String := none
  icon : Option String := none

structure Env where
  isDesktop : Bool
  availableExtensions : List Extension

namespace Env

variable (env : Env)

def extension (id : String) : Option Extension := env.availableExtensions.find? fun e => e.id = id

def isNativeWindow (id : String) : Bool :=
  env.isDesktop &&
    match ((env.extension id).bind Extension.displayMode).getD .auto with
    | .window => true
    | .auto => env.isDesktop
    | .iframe => false

def isSourceSingleton (type : SourceType) (sourceId : String) : Bool :=
  match type with
  | .system => (getSystemWindow sourceId).any SystemWindowDefinition.singleton
  | .extension => (env.extension sourceId).any Extension.singleInstance

end Env

namespace IWindow

/-- `syncWindowFromActiveTab`. -/
def syncFromActiveTab (w : IWindow) : IWindow :=
  match Keyed.get IWindowTab.id w.tabs w.activeTabId with
  | none => w
  | some tab => { w with toTabFields := tab.toTabFields }

def setActiveTab (w : IWindow) (tabId : String) : IWindow := { w with activeTabId := tabId }.syncFromActiveTab

def pushTab (w : IWindow) (tab : IWindowTab) : IWindow := { w with tabs := w.tabs ++ [tab] }.setActiveTab tab.id

/-- `closeTab` on a window that has more tabs than the one at the index. -/
def removeTab (w : IWindow) (tabIndex : Nat) (tabId : String) : IWindow :=
  let rest := { w with tabs := w.tabs.eraseIdx tabIndex }
  if w.activeTabId = tabId then
    match rest.tabs[min tabIndex (rest.tabs.length - 1)]? with
    | none => rest
    | some next => rest.setActiveTab next.id
  else rest

end IWindow

/-! ## The store -/

/-- The store with the timers of `closeWindow` that have not fired yet. -/
structure State where
  windows : List IWindow := []
  activeWindowId : Option String := none
  nextZIndex : Nat := 100
  removals : List String := []

def truthy (o : Option String) : Option String := o.filter (· ≠ "")

structure Workspaces where
  ids : List String
  currentWorkspace : Option String

def Workspaces.find (ws : Workspaces) (id : String) : Option (String × Workspaces) :=
  if id ∈ ws.ids then some (id, ws) else none

/-- The arguments of `openWindowAsync`, what it meets outside the store and the uuids it draws. -/
structure OpenArgs where
  type : SourceType
  sourceId : String
  title : Option String := none
  icon : Option String := some ""
  params : Option Params := none
  workspaceId : Option String := none
  workspaces : Workspaces
  /-- The workspaces once `loadWorkspacesAsync` is through, unless it throws. -/
  loaded : Option Workspaces := none
  /-- The window that the backend has opened, unless it fails. -/
  backend : Option String := none
  windowId : String
  tabId : String

def OpenArgs.targetWorkspace (a : OpenArgs) : Option (String × Workspaces) :=
  match (truthy a.workspaceId).or (truthy a.workspaces.currentWorkspace) with
  | some id => a.workspaces.find id
  | none =>
    match a.loaded with
    | none => none
    | some loaded => (truthy loaded.currentWorkspace).bind loaded.find

def mergeParams (old : Option Params) (params : Params) : Option Params := some (params ∪ old.getD ∅)

def IWindow.mergeTabParams (w : IWindow) (tabId : String) (params : Params) : IWindow :=
  { w with tabs := Keyed.modify IWindowTab.id w.tabs tabId fun t => { t with params := mergeParams t.params params } }

/-- What `openWindowAsync` comes to. -/
inductive OpenAction where
  /-- It gives up or throws. -/
  | nothing
  | native (windowId : String) (fields : TabFields)
  | focus (win : IWindow) (tab : IWindowTab)
  /-- A new window, in place of a stale one. -/
  | create (stale : Option String) (workspaceId : String) (fields : TabFields)

/-- The window with the highest `zIndex`, the first of them. -/
def topWindow : List IWindow → Option IWindow
  | [] => none
  | w :: ws => some (ws.foldl (fun max w => if w.zIndex > max.zIndex then w else max) w)

namespace State

variable (env : Env) (s : State)

def window (id : String) : Option IWindow := Keyed.get IWindow.id s.windows id

def modifyWindow (id : String) (f : IWindow → IWindow) : State :=
  { s with windows := Keyed.modify IWindow.id s.windows id f }

def activateWindow (windowId : String) : State :=
  match s.window windowId with
  | none => s
  | some _ =>
    { s.modifyWindow windowId fun w => { w with zIndex := s.nextZIndex, isMinimized := false } with
      activeWindowId := some windowId
      nextZIndex := s.nextZIndex + 1 }

def restoreWindow (windowId : String) : State :=
  match s.window windowId with
  | none => s
  | some _ => (s.modifyWindow windowId fun w => { w with isMinimized := false }).activateWindow windowId

def moveWindowsToWorkspace (fromWorkspaceId toWorkspaceId : String) : State :=
  { s with
    windows := s.windows.map fun w => if w.workspaceId = fromWorkspaceId then { w with workspaceId := toWorkspaceId } else w }

def findSingletonTab (type : SourceType) (sourceId : String) : Option (IWindow × IWindowTab) :=
  s.windows.findSome? fun w =>
    if w.isClosing ∨ w.workspaceId = "" then none
    else (w.tabs.find? fun t => t.Shows type sourceId).map fun t => (w, t)

def activateSingletonTab (win : IWindow) (tab : IWindowTab) (params : Option Params) : State :=
  (s.modifyWindow win.id fun w =>
    match params with
    | none => w.setActiveTab tab.id
    | some params => (w.setActiveTab tab.id).mergeTabParams tab.id params).activateWindow win.id

/-- What the call finds in the store and outside it. -/
def openAction (a : OpenArgs) : OpenAction :=
  match a.type with
  | .extension =>
    let extension := env.extension a.sourceId
    let finalTitle := a.title.getD ((extension.map Extension.name).getD "Extension")
    if env.isNativeWindow a.sourceId then
      match a.backend with
      | none => .nothing
      | some windowId =>
        .native windowId
          { type := .extension, sourceId := a.sourceId, title := finalTitle, icon := a.icon, isNativeWebview := true }
    else
      match a.targetWorkspace with
      | none => .nothing
      | some (workspaceId, _) =>
        let icon := ((truthy a.icon).or (truthy (extension.bind Extension.iconUrl))).or (truthy (extension.bind Extension.icon))
        .create none workspaceId
          { type := .extension, sourceId := a.sourceId, title := finalTitle, icon := some (icon.getD ""), params := a.params }
  | .system =>
    match a.targetWorkspace with
    | none => .nothing
    | some (workspaceId, workspaces) =>
      match getSystemWindow a.sourceId with
      | none => .nothing
      | some definition =>
        let fields : TabFields :=
          { type := .system, sourceId := a.sourceId, title := a.title.getD definition.name
            icon := some ((truthy a.icon).getD definition.icon), params := a.params }
        match if definition.singleton then s.findSingletonTab .system a.sourceId else none with
        | none => .create none workspaceId fields
        | some (win, tab) =>
          if win.workspaceId ∈ workspaces.ids then .focus win tab else .create (some win.id) workspaceId fields

/-- The state after the call, and the id of the window it returns. -/
def openWindowAsync (a : OpenArgs) : State × Option String :=
  match s.openAction env a with
  | .nothing => (s, none)
  | .native windowId fields =>
    let newWindow : IWindow :=
      { fields with
        id := windowId, workspaceId := "", tabs := [{ fields with id := a.tabId }], activeTabId := a.tabId, zIndex := 0 }
    ({ s with windows := s.windows ++ [newWindow] }, some windowId)
  | .focus win tab => (s.activateSingletonTab win tab a.params, some win.id)
  | .create stale workspaceId fields =>
    let newWindow : IWindow :=
      { fields with
        id := a.windowId, workspaceId, tabs := [{ fields with id := a.tabId }], activeTabId := a.tabId, zIndex := s.nextZIndex }
    ({ s with
        windows := (s.windows.filter fun w => some w.id ≠ stale) ++ [newWindow]
        activeWindowId := some a.windowId
        nextZIndex := s.nextZIndex + 1 }, some a.windowId)

def closeWindow (windowId : String) : State :=
  match s.window windowId with
  | none => s
  | some w =>
    if w.type = .extension ∧ env.isNativeWindow w.sourceId then s -- left to the backend
    else
      { s.modifyWindow windowId fun w => { w with isClosing := true } with removals := s.removals ++ [windowId] }

/-- The timer of `closeWindow` fires. -/
def removeWindow (windowId : String) : State :=
  if windowId ∈ s.removals then
    match s.window windowId with
    | none => { s with removals := s.removals.erase windowId }
    | some _ =>
      let windows := s.windows.eraseP fun w => w.id = windowId
      { s with
        windows
        removals := s.removals.erase windowId
        activeWindowId := if s.activeWindowId = some windowId then (topWindow windows).map IWindow.id else s.activeWindowId }
  else s

def closeWindows (ids : List String) : State := ids.foldl (closeWindow env) s

def closeWindowsByExtensionIdAsync (extensionId : String) : State :=
  s.closeWindows env ((s.windows.filter fun w => w.Shows .extension extensionId).map IWindow.id)

def closeAllExtensionWindowsAsync : State :=
  s.closeWindows env ((s.windows.filter fun w => w.type = .extension).map IWindow.id)

def closeAllWindowsAsync : State := { s.closeAllExtensionWindowsAsync env with windows := [] }

/-- The state after the call, and the id of the tab it returns. -/
def addTab (windowId : String) (tab : TabFields) (tabId : String) : State × Option String :=
  match s.window windowId with
  | none => (s, none)
  | some _ =>
    match if env.isSourceSingleton tab.type tab.sourceId then s.findSingletonTab tab.type tab.sourceId else none with
    | some (win, found) => (s.activateSingletonTab win found none, some found.id)
    | none => (s.modifyWindow windowId fun w => w.pushTab { tab with id := tabId }, some tabId)

def addNewTabFromActive (windowId tabId : String) : State × Option String :=
  match s.window windowId with
  | none => (s, none)
  | some w =>
    match Keyed.get IWindowTab.id w.tabs w.activeTabId with
    | none => (s, none)
    | some activeTab =>
      if env.isSourceSingleton activeTab.type activeTab.sourceId then (s, none)
      else
        s.addTab env windowId
          { type := activeTab.type, sourceId := activeTab.sourceId, title := activeTab.title, icon := activeTab.icon } tabId

def switchTab (windowId tabId : String) : State :=
  match s.window windowId with
  | none => s
  | some w => if w.tabs.any fun t => t.id = tabId then s.modifyWindow windowId fun w => w.setActiveTab tabId else s

def closeTab (windowId tabId : String) : State :=
  match s.window windowId with
  | none => s
  | some w =>
    if w.tabs.length ≤ 1 then s.closeWindow env windowId
    else
      match w.tabs.findIdx? fun t => t.id = tabId with
      | none => s
      | some tabIndex => s.modifyWindow windowId fun w => w.removeTab tabIndex tabId

end State

/-- The calls of the store, with the uuids that they draw, and the timers of `closeWindow`. -/
inductive Call where
  | openWindow (a : OpenArgs)
  | addTab (windowId : String) (tab : TabFields) (tabId : String)
  | addNewTabFromActive (windowId tabId : String)
  | switchTab (windowId tabId : String)
  | closeTab (windowId tabId : String)
  | closeWindow (windowId : String)
  | removeWindow (windowId : String)
  | restoreWindow (windowId : String)
  | moveWindowsToWorkspace (fromWorkspaceId toWorkspaceId : String)
  | closeWindowsByExtensionId (extensionId : String)
  | closeAllWindows

def step (env : Env) (s : State) : Call → State
  | .openWindow a => (s.openWindowAsync env a).1
  | .addTab windowId tab tabId => (s.addTab env windowId tab tabId).1
  | .addNewTabFromActive windowId tabId => (s.addNewTabFromActive env windowId tabId).1
  | .switchTab windowId tabId => s.switchTab windowId tabId
  | .closeTab windowId tabId => s.closeTab env windowId tabId
  | .closeWindow windowId => s.closeWindow env windowId
  | .removeWindow windowId => s.removeWindow windowId
  | .restoreWindow windowId => s.restoreWindow windowId
  | .moveWindowsToWorkspace fromWorkspaceId toWorkspaceId => s.moveWindowsToWorkspace fromWorkspaceId toWorkspaceId
  | .closeWindowsByExtensionId extensionId => s.closeWindowsByExtensionIdAsync env extensionId
  | .closeAllWindows => s.closeAllWindowsAsync env

end HaexVault.Desktop
