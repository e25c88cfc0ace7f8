import HaexVault.Desktop.WindowCalls
/-!
# Consistent windows

Which calls keep the promise is `windows_consistent_iff`: no second tab is opened for a singleton, a singleton that is
focused keeps its params, windows are all closed while none is active, and an extension is closed that no tab in the
background shows and no native window should.
-/

namespace HaexVault.Desktop

open HaexVault.Lib.Runs
open HaexVault.Lib

/-! ## Each call -/

open State

variable {env : Env} {s : State}

theorem openAction_native {a : OpenArgs} {windowId : String} {fields : TabFields}
    (h : s.openAction env a = .native windowId fields) : a.type = .extension ∧ env.isNativeWindow a.sourceId = true := by
  unfold State.openAction at h
  split at h
  · rename_i htype
    dsimp only at h
    split at h
    · rename_i hnative
      exact ⟨htype, hnative⟩
    · split at h <;> cases h
  · split at h
    · cases h
    · split at h
      · cases h
      · dsimp only at h
        split at h
        · cases h
        · split at h <;> cases h

theorem openAction_focus {a : OpenArgs} {win : IWindow} {tab : IWindowTab} (h : s.openAction env a = .focus win tab) :
    s.OpenTab win tab := by
  unfold State.openAction at h
  split at h
  · dsimp only at h
    split at h
    · split at h <;> cases h
    · split at h <;> cases h
  · split at h
    · cases h
    · split at h
      · cases h
      · dsimp only at h
        split at h
        · cases h
        · rename_i hfound
          split at hfound
          · split at h
            · obtain ⟨rfl, rfl⟩ := OpenAction.focus.inj h
              exact (findSingletonTab_open hfound).1
            · cases h
          · cases hfound

namespace State

theorem Inv.openWindowAsync (h : Inv env s) {a : OpenArgs} (hgiven : Given env s (.openWindow a))
    (hsparing : Sparing env s (.openWindow a)) : Inv env (s.openWindowAsync env a).1 := by
  have hspared : OpenSparing env s a.params (s.openAction env a) := hsparing
  unfold State.openWindowAsync
  cases haction : s.openAction env a with
  | nothing => exact h
  | native windowId fields =>
    obtain ⟨htype, hnative⟩ := openAction_native haction
    exact absurd hnative (by simp [hgiven.1 htype])
  | focus win tab =>
    rw [haction] at hspared
    exact h.activateSingletonTab (openAction_focus haction) hspared
  | create stale workspaceId fields =>
    rw [haction] at hspared
    refine Inv.create (h.toCore.without stale) ⟨fun w hw => hgiven.2.1 w (List.mem_filter.1 hw).1, hgiven.2.2⟩ ?_
    rintro hsingle w t ⟨hw, hopen⟩
    obtain ⟨hmem, hstale⟩ := List.mem_filter.1 hw
    exact hspared hsingle w t ⟨hmem, hopen⟩ (of_decide_eq_true hstale)

theorem Inv.addTab (h : Inv env s) {windowId tabId : String} {tab : TabFields} (hfresh : s.Fresh tabId)
    (hsparing : Sparing env s (.addTab windowId tab tabId)) : Inv env (s.addTab env windowId tab tabId).1 := by
  unfold State.addTab
  split
  · exact h
  · split
    · rename_i win found hfound
      split at hfound
      · have hsame : ∀ p : Params, none = some p → mergeParams found.params p = found.params := fun p hp => by cases hp
        exact h.activateSingletonTab (findSingletonTab_open hfound).1 hsame
      · cases hfound
    · rename_i hnone
      refine h.pushTab hfresh fun hsingle => hsparing hsingle ?_
      rw [if_pos hsingle] at hnone
      exact hnone

theorem Inv.addNewTabFromActive (h : Inv env s) {windowId tabId : String} (hfresh : s.Fresh tabId) :
    Inv env (s.addNewTabFromActive env windowId tabId).1 := by
  unfold State.addNewTabFromActive
  split
  · exact h
  · split
    · exact h
    · split
      · exact h
      · rename_i hmany
        exact h.addTab hfresh fun hsingle => absurd hsingle hmany

end State

theorem step_inv (h : Inv env s) (c : Call) (hgiven : Given env s c) (hsparing : Sparing env s c) : Inv env (step env s c) := by
  cases c with
  | openWindow a => exact h.openWindowAsync hgiven hsparing
  | addTab windowId tab tabId => exact h.addTab hgiven hsparing
  | addNewTabFromActive windowId tabId => exact h.addNewTabFromActive hgiven
  | switchTab windowId tabId => exact h.switchTab windowId tabId
  | closeTab windowId tabId => exact h.closeTab windowId tabId
  | closeWindow windowId => exact h.closeWindow windowId
  | removeWindow windowId => exact h.removeWindow windowId
  | restoreWindow windowId => exact h.restoreWindow windowId
  | moveWindowsToWorkspace fromId toId => exact h.moveWindowsToWorkspace fromId toId
  | closeWindowsByExtensionId x => exact h.closeWindows _
  | closeAllWindows => exact Inv.closeAllWindowsAsync hsparing

theorem mem_activateSingletonTab (h : Core env s) {win : IWindow} {tab : IWindowTab} (hopen : s.OpenTab win tab)
    (params : Params) :
    ∃ w ∈ (s.activateSingletonTab win tab (some params)).windows, w.toTabFields = tab.toTabFields ∧
      Keyed.get IWindowTab.id w.tabs w.activeTabId = some { tab with params := mergeParams tab.params params } := by
  let v : IWindow := (win.setActiveTab tab.id).mergeTabParams tab.id params
  have hset := IWindow.setActiveTab_of_mem (h.tabIds win hopen.1) hopen.2.2
  have hget : Keyed.get IWindowTab.id (win.setActiveTab tab.id).tabs tab.id = some tab := by
    rw [hset]
    exact Keyed.get_of_mem (h.tabIds win hopen.1) hopen.2.2
  have hid : v.id = win.id := IWindow.syncFromActiveTab_id
  have hv : (s.modifyWindow win.id fun w => (w.setActiveTab tab.id).mergeTabParams tab.id params).window win.id = some v := by
    have hmodified := Keyed.get_modify s.windows win.id win.id
      (fun w => (w.setActiveTab tab.id).mergeTabParams tab.id params)
      (fun (w : IWindow) (hw : w.id = win.id) => IWindow.syncFromActiveTab_id.trans hw)
    have hwin : Keyed.get IWindow.id s.windows win.id = some win := h.window_eq hopen.1
    rw [if_pos rfl, hwin] at hmodified
    exact hmodified
  refine ⟨_, activateWindow_mem hv, ?_, ?_⟩
  · exact congrArg IWindow.toTabFields hset
  · have hactive : v.activeTabId = tab.id := congrArg IWindow.activeTabId hset
    exact (congrArg _ hactive).trans (IWindow.mergeTabParams_get params hget)

/-- A call keeps the promise exactly when it is a sparing one. -/
theorem promised_iff (h : Inv env s) (c : Call) (hgiven : Given env s c) : Promised env s c ↔ Sparing env s c := by
  constructor
  · rintro ⟨hwell, hcleared⟩
    cases c with
    | openWindow a =>
      have hnext : step env s (.openWindow a) = (s.openWindowAsync env a).1 := rfl
      rw [hnext, State.openWindowAsync] at hwell
      change OpenSparing env s a.params (s.openAction env a)
      cases haction : s.openAction env a with
      | nothing => trivial
      | native windowId fields => trivial
      | focus win tab =>
        rintro params hparams
        rw [haction] at hwell
        dsimp only at hwell
        rw [hparams] at hwell
        obtain ⟨w, hw, hshown, hget⟩ := mem_activateSingletonTab h.toCore (openAction_focus haction) params
        obtain ⟨t, ht, hmirror⟩ := hwell.mirrors w hw
        obtain rfl := Option.some.inj (hget.symm.trans ht)
        exact congrArg TabFields.params (hmirror.symm.trans hshown)
      | create stale workspaceId fields =>
        rintro hsingle w t ⟨hw, hopen, ht⟩ hstale hshows
        rw [haction] at hwell
        have hid := (hwell.singletons _ _ hsingle w t _ _
          ⟨List.mem_append_left _ (List.mem_filter.2 ⟨hw, decide_eq_true hstale⟩), hopen, ht⟩
          ⟨List.mem_append_right _ (List.mem_singleton_self _), rfl, List.mem_singleton_self _⟩ hshows ⟨rfl, rfl⟩).1
        exact (hgiven.2.1 w hw).1 hid
    | addTab windowId tab tabId =>
      rintro hsingle hnone win hwin hclosing w t ⟨hw, hopen, ht⟩ hshows
      have hnext : step env s (.addTab windowId tab tabId) = (s.addTab env windowId tab tabId).1 := rfl
      rw [hnext, State.addTab, hwin] at hwell
      dsimp only at hwell
      rw [if_pos hsingle, hnone] at hwell
      dsimp only at hwell
      have hpushed : (s.modifyWindow windowId fun w => w.pushTab { tab with id := tabId }).OpenTab
          (win.pushTab { tab with id := tabId }) { tab with id := tabId } := by
        refine ⟨List.mem_map.2 ⟨win, Keyed.get_mem hwin, if_pos (Keyed.get_key hwin)⟩, ?_, ?_⟩
        · exact IWindow.syncFromActiveTab_isClosing.trans hclosing
        · rw [IWindow.pushTab, IWindow.setActiveTab, IWindow.syncFromActiveTab_tabs]
          exact List.mem_append_right _ (List.mem_singleton_self _)
      have hstill : ∃ w', (s.modifyWindow windowId fun w => w.pushTab { tab with id := tabId }).OpenTab w' t := by
        by_cases hid : w.id = windowId
        · refine ⟨w.pushTab { tab with id := tabId }, List.mem_map.2 ⟨w, hw, if_pos hid⟩, ?_, ?_⟩
          · exact IWindow.syncFromActiveTab_isClosing.trans hopen
          · rw [IWindow.pushTab, IWindow.setActiveTab, IWindow.syncFromActiveTab_tabs]
            exact List.mem_append_left _ ht
        · exact ⟨w, List.mem_map.2 ⟨w, hw, if_neg hid⟩, hopen, ht⟩
      obtain ⟨w', hstill⟩ := hstill
      exact (hgiven.1 w hw).2 t ht (hwell.singletons _ _ hsingle w' t _ _ hstill hpushed hshows ⟨rfl, rfl⟩).2
    | closeWindowsByExtensionId x => exact (cleared_closeWindowsByExtensionId h x).1 (hcleared x rfl)
    | closeAllWindows =>
      cases hactive : s.activeWindowId with
      | none => exact hactive
      | some id =>
        have hmem := hwell.activeWindow id ((closeWindows_activeWindowId s _).trans hactive)
        cases hmem
    | addNewTabFromActive | switchTab | closeTab | closeWindow | removeWindow | restoreWindow | moveWindowsToWorkspace => trivial
  · intro hsparing
    refine ⟨(step_inv h c hgiven hsparing).wellFormed, ?_⟩
    rintro x rfl
    exact (cleared_closeWindowsByExtensionId h x).2 hsparing

/-- Along a run from an empty desktop every window has an active tab and repeats what it shows, the active window is there, no
singleton is open twice, and an extension that is closed leaves no tab, exactly when every call is a sparing one. -/
theorem windows_consistent_iff (env : Env) (calls : List Call) (hgiven : Guarded (step env) (Given env) {} calls) :
    Guarded (step env) (Promised env) {} calls ↔ Guarded (step env) (Sparing env) {} calls :=
  Guarded.iff_of_inv (fun _ c h hg hs => step_inv h c hg hs) (fun _ c h hg => promised_iff h c hg) hgiven inv_init

instance (s : State) (id : String) : Decidable (s.Fresh id) := inferInstanceAs (Decidable (_ ∧ _))

instance (env : Env) (s : State) (c : Call) : Decidable (Given env s c) :=
  match c with
  | .openWindow a =>
    inferInstanceAs (Decidable ((a.type = .extension → env.isNativeWindow a.sourceId = false) ∧ s.Fresh a.windowId))
  | .addTab _ _ tabId => inferInstanceAs (Decidable (s.Fresh tabId))
  | .addNewTabFromActive _ tabId => inferInstanceAs (Decidable (s.Fresh tabId))
  | .switchTab .. | .closeTab .. | .closeWindow .. | .removeWindow .. | .restoreWindow .. | .moveWindowsToWorkspace ..
  | .closeWindowsByExtensionId .. | .closeAllWindows => isTrue trivial

def desktop : Env :=
  { isDesktop := true
    availableExtensions :=
      [{ id := "mail", name := "Mail", displayMode := some .iframe, singleInstance := true },
        { id := "notes", name := "Notes" }] }

def opens (type : SourceType) (sourceId windowId tabId : String) (params : Option Params) : Call :=
  .openWindow { type, sourceId, params, workspaces := ⟨["home"], some "home"⟩, windowId, tabId }

def tabOf (sourceId title : String) : TabFields := { type := .extension, sourceId, title }

theorem windows_consistent_settings :
    Guarded (step desktop) (Promised desktop) {}
      [opens .system "settings" "w1" "t1" none, .addTab "w1" (tabOf "mail" "Mail") "t2", opens .system "settings" "w2" "t3" none,
        .closeTab "w1" "t2", .closeWindow "w1", .removeWindow "w1", .closeAllWindows] := by
  refine (windows_consistent_iff desktop _ (by decide)).2 ⟨?_, ?_, ?_, trivial, trivial, trivial, rfl, trivial⟩
  · rintro - w t ⟨hw, -⟩
    cases hw
  · rintro - - win - - w t ⟨hw, -, ht⟩ hshows
    obtain rfl := List.mem_singleton.1 hw
    obtain rfl := List.mem_singleton.1 ht
    exact absurd hshows (by decide)
  · intro p hp
    cases hp

theorem calls_leave_windows_inconsistent :
    [[opens .system "settings" "w1" "t1" none, opens .system "settings" "w2" "t2" (some ∅)],
      [opens .extension "mail" "w1" "t1" none, opens .extension "mail" "w2" "t2" none],
      [opens .system "files" "w1" "t1" none, .closeAllWindows],
      [opens .system "files" "w1" "t1" none, .addTab "w1" (tabOf "mail" "Mail") "t2", .switchTab "w1" "t1",
        .closeWindowsByExtensionId "mail"],
      [opens .system "files" "w1" "t1" none, .addTab "w1" (tabOf "notes" "Notes") "t2", .closeWindowsByExtensionId "notes"]].Forall
      fun calls => Guarded (step desktop) (Given desktop) {} calls ∧ ¬ Guarded (step desktop) (Promised desktop) {} calls := by
  refine List.forall_iff_forall_mem.2 (List.forall_mem_cons.2 ⟨⟨by decide, ?_⟩, List.forall_mem_cons.2 ⟨⟨by decide, ?_⟩,
    List.forall_mem_cons.2 ⟨⟨by decide, ?_⟩, List.forall_mem_cons.2 ⟨⟨by decide, ?_⟩,
    List.forall_mem_cons.2 ⟨⟨by decide, ?_⟩, fun _ hc => by cases hc⟩⟩⟩⟩⟩)
  · rintro ⟨-, ⟨hwell, -⟩, -⟩
    obtain ⟨t, ht, hfields⟩ := hwell.mirrors _ List.mem_cons_self
    obtain rfl := Option.some.inj ht
    cases congrArg TabFields.params hfields
  · rintro ⟨-, ⟨hwell, -⟩, -⟩
    have hsame := (hwell.singletons .extension "mail" rfl _ _ _ _ ⟨List.mem_cons_self, rfl, List.mem_cons_self⟩
      ⟨List.mem_cons_of_mem _ List.mem_cons_self, rfl, List.mem_cons_self⟩ ⟨rfl, rfl⟩ ⟨rfl, rfl⟩).1
    exact absurd hsame (by decide)
  · rintro ⟨-, ⟨hwell, -⟩, -⟩
    cases hwell.activeWindow "w1" rfl
  · rintro ⟨-, -, -, ⟨-, hcleared⟩, -⟩
    exact hcleared "mail" rfl [] (List.Perm.refl _) _ List.mem_cons_self _ (List.mem_cons_of_mem _ List.mem_cons_self) ⟨rfl, rfl⟩
  · rintro ⟨-, -, ⟨-, hcleared⟩, -⟩
    exact hcleared "notes" rfl [] (List.Perm.refl _) _ List.mem_cons_self _ (List.mem_cons_of_mem _ List.mem_cons_self) ⟨rfl, rfl⟩

end HaexVault.Desktop
