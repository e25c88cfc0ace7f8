import Mathlib.Data.List.Perm.Basic
import HaexVault.Desktop.WindowManager
/-!
# What the window store promises

`Promised` is what a call is to leave behind and `Sparing` when it does. The promise rests on more than it says:
ids are unique, and the windows that close are those whose removal is under way (`Core`).
-/

namespace HaexVault.Desktop

open HaexVault.Lib.Runs
open HaexVault.Lib

/-! ## What the store promises -/

def IWindow.Mirrors (w : IWindow) : Prop :=
  ∃ t, Keyed.get IWindowTab.id w.tabs w.activeTabId = some t ∧ w.toTabFields = t.toTabFields

namespace State

variable (env : Env) (s : State)

def OpenTab (w : IWindow) (t : IWindowTab) : Prop := w ∈ s.windows ∧ w.isClosing = false ∧ t ∈ w.tabs

def Singletons : Prop :=
  ∀ type sourceId, env.isSourceSingleton type sourceId = true → ∀ w t w' t', s.OpenTab w t → s.OpenTab w' t' →
    t.Shows type sourceId → t'.Shows type sourceId → w.id = w'.id ∧ t.id = t'.id

structure WellFormed : Prop where
  mirrors : ∀ w ∈ s.windows, w.Mirrors
  activeWindow : ∀ id, s.activeWindowId = some id → id ∈ s.windows.map IWindow.id
  singletons : s.Singletons env

def Cleared (extensionId : String) : Prop :=
  ∀ ids : List String, ids.Perm s.removals → ∀ w ∈ (ids.foldl removeWindow s).windows, ∀ t ∈ w.tabs,
    ¬ t.Shows .extension extensionId

def Fresh (id : String) : Prop := (∀ w ∈ s.windows, w.id ≠ id ∧ ∀ t ∈ w.tabs, t.id ≠ id) ∧ id ∉ s.removals

end State

def Promised (env : Env) (s : State) (c : Call) : Prop :=
  (step env s c).WellFormed env ∧ ∀ x, c = .closeWindowsByExtensionId x → (step env s c).Cleared x

def Given (env : Env) (s : State) : Call → Prop
  | .openWindow a => (a.type = .extension → env.isNativeWindow a.sourceId = false) ∧ s.Fresh a.windowId
  | .addTab _ _ tabId => s.Fresh tabId
  | .addNewTabFromActive _ tabId => s.Fresh tabId
  | _ => True

/-- A tab that is focused has the params already, and a window that opens is the only one of a singleton. -/
def OpenSparing (env : Env) (s : State) (params : Option Params) : OpenAction → Prop
  | .focus _ tab => ∀ p, params = some p → mergeParams tab.params p = tab.params
  | .create stale _ fields =>
    env.isSourceSingleton fields.type fields.sourceId = true → ∀ w t, s.OpenTab w t → some w.id ≠ stale →
      ¬ t.Shows fields.type fields.sourceId
  | _ => True

/-- The calls that keep the promise. -/
def Sparing (env : Env) (s : State) : Call → Prop
  | .openWindow a => OpenSparing env s a.params (s.openAction env a)
  | .addTab windowId tab _ =>
    env.isSourceSingleton tab.type tab.sourceId = true → s.findSingletonTab tab.type tab.sourceId = none →
      ∀ win, s.window windowId = some win → win.isClosing = false → ∀ w t, s.OpenTab w t → ¬ t.Shows tab.type tab.sourceId
  | .closeWindowsByExtensionId x =>
    ∀ w ∈ s.windows, w.isClosing = false → (∃ t ∈ w.tabs, t.Shows .extension x) →
      w.Shows .extension x ∧ env.isNativeWindow x = false
  | .closeAllWindows => s.activeWindowId = none
  | _ => True

/-! ## One window -/

namespace IWindow

variable {w : IWindow}

theorem Mirrors.of_mem (hids : (w.tabs.map IWindowTab.id).Nodup) {t : IWindowTab} (ht : t ∈ w.tabs)
    (hid : t.id = w.activeTabId) (hfields : w.toTabFields = t.toTabFields) : w.Mirrors :=
  ⟨t, hid ▸ Keyed.get_of_mem hids ht, hfields⟩

theorem setActiveTab_of_mem (hids : (w.tabs.map IWindowTab.id).Nodup) {t : IWindowTab} (ht : t ∈ w.tabs) :
    w.setActiveTab t.id = { w with activeTabId := t.id, toTabFields := t.toTabFields } := by
  have hget : Keyed.get IWindowTab.id ({ w with activeTabId := t.id } : IWindow).tabs t.id = some t := Keyed.get_of_mem hids ht
  rw [setActiveTab, syncFromActiveTab, hget]

@[simp] theorem syncFromActiveTab_tabs : w.syncFromActiveTab.tabs = w.tabs := by unfold syncFromActiveTab; split <;> rfl
@[simp] theorem syncFromActiveTab_id : w.syncFromActiveTab.id = w.id := by unfold syncFromActiveTab; split <;> rfl
@[simp] theorem syncFromActiveTab_isClosing : w.syncFromActiveTab.isClosing = w.isClosing := by
  unfold syncFromActiveTab; split <;> rfl

/-- What a call may do to a window of the store: its tabs are those it had, and it still repeats the active one. -/
structure Keeps (w w' : IWindow) : Prop where
  id : w'.id = w.id
  isClosing : w'.isClosing = w.isClosing
  mirrors : w'.Mirrors
  tabIds : (w'.tabs.map IWindowTab.id).Nodup
  tabs : ∀ t' ∈ w'.tabs, ∃ t ∈ w.tabs, t.id = t'.id ∧ t.type = t'.type ∧ t.sourceId = t'.sourceId

theorem Keeps.rfl (hmirrors : w.Mirrors) (hids : (w.tabs.map IWindowTab.id).Nodup) : Keeps w w :=
  ⟨Eq.refl _, Eq.refl _, hmirrors, hids, fun t ht => ⟨t, ht, Eq.refl _, Eq.refl _, Eq.refl _⟩⟩

theorem Keeps.of_eq (hmirrors : w.Mirrors) (hids : (w.tabs.map IWindowTab.id).Nodup) {w' : IWindow} (hid : w'.id = w.id)
    (hclosing : w'.isClosing = w.isClosing) (htabs : w'.tabs = w.tabs) (hactive : w'.activeTabId = w.activeTabId)
    (hfields : w'.toTabFields = w.toTabFields) : Keeps w w' where
  id := hid
  isClosing := hclosing
  mirrors := by
    obtain ⟨t, ht, hshown⟩ := hmirrors
    exact ⟨t, by rw [htabs, hactive, ht], hfields.trans hshown⟩
  tabIds := htabs ▸ hids
  tabs t ht := ⟨t, htabs ▸ ht, Eq.refl _, Eq.refl _, Eq.refl _⟩

theorem Keeps.setActiveTab (hids : (w.tabs.map IWindowTab.id).Nodup) {t : IWindowTab} (ht : t ∈ w.tabs) :
    Keeps w (w.setActiveTab t.id) := by
  rw [setActiveTab_of_mem hids ht]
  exact ⟨Eq.refl _, Eq.refl _, .of_mem hids ht (Eq.refl _) (Eq.refl _), hids,
    fun t ht => ⟨t, ht, Eq.refl _, Eq.refl _, Eq.refl _⟩⟩

theorem Keeps.removeTab (hmirrors : w.Mirrors) (hids : (w.tabs.map IWindowTab.id).Nodup) {tabIndex : Nat} {tabId : String}
    (hlength : ¬ w.tabs.length ≤ 1) (hindex : w.tabs.findIdx? (fun t => t.id = tabId) = some tabIndex) :
    Keeps w (w.removeTab tabIndex tabId) := by
  obtain ⟨hlt, hat, -⟩ := List.findIdx?_eq_some_iff_getElem.1 hindex
  have hat' : (w.tabs[tabIndex]).id = tabId := of_decide_eq_true hat
  have hsub : (w.tabs.eraseIdx tabIndex).Sublist w.tabs := List.eraseIdx_sublist ..
  have hids' : ((w.tabs.eraseIdx tabIndex).map IWindowTab.id).Nodup := hids.sublist (hsub.map _)
  have htabs : ∀ t' ∈ w.tabs.eraseIdx tabIndex, ∃ t ∈ w.tabs, t.id = t'.id ∧ t.type = t'.type ∧ t.sourceId = t'.sourceId :=
    fun t ht => ⟨t, hsub.subset ht, Eq.refl _, Eq.refl _, Eq.refl _⟩
  unfold IWindow.removeTab
  split
  · -- the tab was active, and a tab beside it takes its place
    have hlength' : (w.tabs.eraseIdx tabIndex).length = w.tabs.length - 1 := List.length_eraseIdx_of_lt hlt
    have hnext : min tabIndex ((w.tabs.eraseIdx tabIndex).length - 1) < (w.tabs.eraseIdx tabIndex).length := by omega
    dsimp only
    rw [List.getElem?_eq_getElem hnext]
    dsimp only
    have hmem := List.getElem_mem hnext
    rw [setActiveTab_of_mem hids' hmem]
    exact ⟨Eq.refl _, Eq.refl _, .of_mem hids' hmem (Eq.refl _) (Eq.refl _), hids', htabs⟩
  · rename_i hother
    obtain ⟨t, ht, hshown⟩ := hmirrors
    obtain ⟨i, hi, rfl⟩ := List.getElem_of_mem (Keyed.get_mem ht)
    have hne : i ≠ tabIndex := fun he => hother ((Keyed.get_key ht).symm.trans (by subst he; exact hat'))
    have hmem : w.tabs[i] ∈ w.tabs.eraseIdx tabIndex := List.mem_eraseIdx_iff_getElem.2 ⟨i, hi, hne, Eq.refl _⟩
    exact ⟨Eq.refl _, Eq.refl _, .of_mem hids' hmem (Keyed.get_key ht) hshown, hids', htabs⟩

theorem mergeTabParams_get (params : Params) {t : IWindowTab} (ht : Keyed.get IWindowTab.id w.tabs t.id = some t) :
    Keyed.get IWindowTab.id (w.mergeTabParams t.id params).tabs t.id = some { t with params := mergeParams t.params params } := by
  have hmodified := Keyed.get_modify w.tabs t.id t.id (fun t => { t with params := mergeParams t.params params })
    (fun (a : IWindowTab) (ha : a.id = t.id) => ha)
  rw [if_pos (Eq.refl _), ht] at hmodified
  exact hmodified

theorem mergeTabParams_self (hids : (w.tabs.map IWindowTab.id).Nodup) {params : Params} {t : IWindowTab} (ht : t ∈ w.tabs)
    (hsame : mergeParams t.params params = t.params) : w.mergeTabParams t.id params = w := by
  have htabs : Keyed.modify IWindowTab.id w.tabs t.id (fun t => { t with params := mergeParams t.params params }) = w.tabs := by
    rw [Keyed.modify]
    refine (List.map_congr_left fun a ha => ?_).trans (List.map_id _)
    split
    · rename_i hid
      obtain rfl := List.inj_on_of_nodup_map hids ha ht hid
      rw [hsame]
      rfl
    · rfl
  rw [mergeTabParams, htabs]

end IWindow

/-! ## The invariant -/

namespace State

variable {env : Env} {s s' : State}

structure Core (env : Env) (s : State) : Prop where
  mirrors : ∀ w ∈ s.windows, w.Mirrors
  singletons : s.Singletons env
  tabIds : ∀ w ∈ s.windows, (w.tabs.map IWindowTab.id).Nodup
  windowIds : (s.windows.map IWindow.id).Nodup
  closing : ∀ w ∈ s.windows, (w.isClosing = true ↔ w.id ∈ s.removals)

structure Inv (env : Env) (s : State) : Prop extends Core env s where
  activeWindow : ∀ id, s.activeWindowId = some id → id ∈ s.windows.map IWindow.id

theorem Inv.wellFormed (h : Inv env s) : s.WellFormed env := ⟨h.mirrors, h.activeWindow, h.singletons⟩

theorem inv_init : Inv env {} where
  mirrors _ hw := by cases hw
  singletons _ _ _ _ _ _ _ ho := by cases ho.1
  tabIds _ hw := by cases hw
  windowIds := List.nodup_nil
  closing _ hw := by cases hw
  activeWindow _ hid := by cases hid

theorem Core.window_eq (h : Core env s) {w : IWindow} (hw : w ∈ s.windows) : s.window w.id = some w :=
  Keyed.get_of_mem h.windowIds hw

def Stays (s : State) (w' : IWindow) (t' : IWindowTab) : Prop :=
  ∃ w t, s.OpenTab w t ∧ w.id = w'.id ∧ t.id = t'.id ∧ t.type = t'.type ∧ t.sourceId = t'.sourceId

def Enters (env : Env) (s : State) (windowId tabId : String) (fields : TabFields) (w' : IWindow) (t' : IWindowTab) : Prop :=
  w'.id = windowId ∧ t'.id = tabId ∧ t'.toTabFields = fields ∧
    (env.isSourceSingleton fields.type fields.sourceId = true → ∀ w t, s.OpenTab w t → ¬ t.Shows fields.type fields.sourceId)

theorem Singletons.of_enters (h : s.Singletons env) (windowId tabId : String) (fields : TabFields)
    (hfrom : ∀ w' t', s'.OpenTab w' t' → s.Stays w' t' ∨ Enters env s windowId tabId fields w' t') : s'.Singletons env := by
  intro type sourceId hsingle w₁ t₁ w₂ t₂ h₁ h₂ hshows₁ hshows₂
  have hclash : ∀ {w t w' t'}, s.Stays w t → Enters env s windowId tabId fields w' t' → t.Shows type sourceId →
      t'.Shows type sourceId → False := by
    rintro w t w' t' ⟨w₀, t₀, ho, -, -, htype, hsource⟩ ⟨-, -, hfields, hnone⟩ hs hs'
    obtain ⟨rfl, rfl⟩ := hs'
    rw [hfields] at hsingle hs
    exact hnone hsingle w₀ t₀ ho ⟨htype.trans hs.1, hsource.trans hs.2⟩
  rcases hfrom w₁ t₁ h₁ with hs₁ | he₁ <;> rcases hfrom w₂ t₂ h₂ with hs₂ | he₂
  · obtain ⟨w, t, ho, hw, ht, htype, hsource⟩ := hs₁
    obtain ⟨w', t', ho', hw', ht', htype', hsource'⟩ := hs₂
    obtain ⟨hweq, hteq⟩ := h type sourceId hsingle w t w' t' ho ho' ⟨htype.trans hshows₁.1, hsource.trans hshows₁.2⟩
      ⟨htype'.trans hshows₂.1, hsource'.trans hshows₂.2⟩
    exact ⟨hw.symm.trans (hweq.trans hw'), ht.symm.trans (hteq.trans ht')⟩
  · exact (hclash hs₁ he₂ hshows₁ hshows₂).elim
  · exact (hclash hs₂ he₁ hshows₂ hshows₁).elim
  · exact ⟨he₁.1.trans he₂.1.symm, he₁.2.1.trans he₂.2.1.symm⟩

theorem Singletons.of_stays (h : s.Singletons env) (hfrom : ∀ w' t', s'.OpenTab w' t' → s.Stays w' t') : s'.Singletons env :=
  h.of_enters "" "" { type := .system, sourceId := "", title := "" } fun w' t' ho => .inl (hfrom w' t' ho)

theorem OpenTab.stays {w : IWindow} {t : IWindowTab} (h : s.OpenTab w t) : s.Stays w t := ⟨w, t, h, rfl, rfl, rfl, rfl⟩

end State

end HaexVault.Desktop
