import HaexVault.Desktop.WindowInvariant
/-!
# The calls of the window store

The functions that the calls are made of keep the invariant: those that rewrite windows where they stand, those that
open and those that close.
-/

namespace HaexVault.Desktop

open HaexVault.Lib.Runs
open HaexVault.Lib

namespace State

variable {env : Env} {s s' : State}

/-! ## Calls that rewrite windows in place -/

theorem map_id_of_keeps {ws : List IWindow} {f : IWindow → IWindow} (hf : ∀ w ∈ ws, w.Keeps (f w)) :
    (ws.map f).map IWindow.id = ws.map IWindow.id := by
  rw [List.map_map]
  exact List.map_congr_left fun w hw => (hf w hw).id

theorem Core.map (h : Core env s) {f : IWindow → IWindow} (hf : ∀ w ∈ s.windows, w.Keeps (f w)) :
    Core env { s with windows := s.windows.map f } where
  mirrors w' hw' := by
    obtain ⟨w, hw, rfl⟩ := List.mem_map.1 hw'
    exact (hf w hw).mirrors
  singletons := by
    refine h.singletons.of_stays ?_
    rintro w' t' ⟨hw', hopen, ht'⟩
    obtain ⟨w, hw, rfl⟩ := List.mem_map.1 hw'
    obtain ⟨t, ht, hid, htype, hsource⟩ := (hf w hw).tabs t' ht'
    exact ⟨w, t, ⟨hw, (hf w hw).isClosing.symm.trans hopen, ht⟩, (hf w hw).id.symm, hid, htype, hsource⟩
  tabIds w' hw' := by
    obtain ⟨w, hw, rfl⟩ := List.mem_map.1 hw'
    exact (hf w hw).tabIds
  windowIds := by
    have hids := map_id_of_keeps hf
    exact hids ▸ h.windowIds
  closing w' hw' := by
    obtain ⟨w, hw, rfl⟩ := List.mem_map.1 hw'
    rw [(hf w hw).isClosing, (hf w hw).id]
    exact h.closing w hw

theorem Inv.map (h : Inv env s) {f : IWindow → IWindow} (hf : ∀ w ∈ s.windows, w.Keeps (f w)) :
    Inv env { s with windows := s.windows.map f } where
  toCore := h.toCore.map hf
  activeWindow id hid := (map_id_of_keeps hf).symm ▸ h.activeWindow id hid

theorem Core.keeps_rfl (h : Core env s) {w : IWindow} (hw : w ∈ s.windows) : w.Keeps w := .rfl (h.mirrors w hw) (h.tabIds w hw)

theorem Inv.modifyWindow (h : Inv env s) {k : String} {f : IWindow → IWindow} (hf : ∀ w ∈ s.windows, w.id = k → w.Keeps (f w)) :
    Inv env (s.modifyWindow k f) := by
  refine h.map fun w hw => ?_
  split
  · rename_i hid
    exact hf w hw hid
  · exact h.keeps_rfl hw

theorem activateWindow_mem {k : String} {w : IWindow} (h : s.window k = some w) :
    { w with zIndex := s.nextZIndex, isMinimized := false } ∈ (s.activateWindow k).windows := by
  rw [State.activateWindow, h]
  exact List.mem_map.2 ⟨w, Keyed.get_mem h, if_pos (Keyed.get_key h)⟩

theorem Inv.activateWindow (h : Inv env s) (k : String) : Inv env (s.activateWindow k) := by
  unfold State.activateWindow
  split
  · exact h
  · rename_i w hw
    have hkept : Inv env (s.modifyWindow k fun w => { w with zIndex := s.nextZIndex, isMinimized := false }) :=
      h.modifyWindow fun w hw _ => .of_eq (h.mirrors w hw) (h.tabIds w hw) rfl rfl rfl rfl rfl
    exact {
      mirrors := hkept.mirrors
      singletons := hkept.singletons
      tabIds := hkept.tabIds
      windowIds := hkept.windowIds
      closing := hkept.closing
      activeWindow := by
        rintro id ⟨⟩
        have hmem := activateWindow_mem hw
        rw [State.activateWindow, hw] at hmem
        have hid : w.id = k := Keyed.get_key hw
        exact List.mem_map.2 ⟨_, hmem, hid⟩ }

theorem Inv.restoreWindow (h : Inv env s) (k : String) : Inv env (s.restoreWindow k) := by
  unfold State.restoreWindow
  split
  · exact h
  · have hkept : Inv env (s.modifyWindow k fun w => { w with isMinimized := false }) :=
      h.modifyWindow fun w hw _ => .of_eq (h.mirrors w hw) (h.tabIds w hw) rfl rfl rfl rfl rfl
    exact hkept.activateWindow k

theorem Inv.moveWindowsToWorkspace (h : Inv env s) (fromId toId : String) : Inv env (s.moveWindowsToWorkspace fromId toId) := by
  refine h.map fun w hw => ?_
  split
  · exact .of_eq (h.mirrors w hw) (h.tabIds w hw) rfl rfl rfl rfl rfl
  · exact h.keeps_rfl hw

theorem Inv.switchTab (h : Inv env s) (windowId tabId : String) : Inv env (s.switchTab windowId tabId) := by
  unfold State.switchTab
  split
  · exact h
  · rename_i found hfound
    split
    · rename_i hany
      obtain ⟨t, ht, hid⟩ := List.any_eq_true.1 hany
      obtain rfl : t.id = tabId := of_decide_eq_true hid
      refine h.modifyWindow fun w hw hwid => ?_
      obtain rfl : found = w := Option.some.inj (hfound.symm.trans (hwid ▸ h.window_eq hw))
      exact .setActiveTab (h.tabIds found hw) ht
    · exact h

theorem findSingletonTab_open {type : SourceType} {sourceId : String} {win : IWindow} {tab : IWindowTab}
    (h : s.findSingletonTab type sourceId = some (win, tab)) : s.OpenTab win tab ∧ tab.Shows type sourceId := by
  obtain ⟨w, hw, hfound⟩ := List.exists_of_findSome?_eq_some h
  split at hfound
  · cases hfound
  · rename_i hopen
    obtain ⟨t, ht, hpair⟩ := Option.map_eq_some_iff.1 hfound
    obtain ⟨rfl, rfl⟩ := Prod.mk.inj hpair
    have hnot : w.isClosing = false := Bool.of_not_eq_true fun hc => hopen (.inl hc)
    exact ⟨⟨hw, hnot, List.mem_of_find?_eq_some ht⟩, of_decide_eq_true (List.find?_eq_some_iff_append.1 ht).1⟩

theorem Inv.activateSingletonTab (h : Inv env s) {win : IWindow} {tab : IWindowTab} (hopen : s.OpenTab win tab)
    {params : Option Params} (hsame : ∀ p, params = some p → mergeParams tab.params p = tab.params) :
    Inv env (s.activateSingletonTab win tab params) := by
  refine Inv.activateWindow (h.modifyWindow fun w hw hid => ?_) win.id
  obtain rfl := List.inj_on_of_nodup_map h.windowIds hw hopen.1 hid
  have hkeeps : w.Keeps (w.setActiveTab tab.id) := .setActiveTab (h.tabIds w hw) hopen.2.2
  cases params with
  | none => exact hkeeps
  | some p =>
    have htab : tab ∈ (w.setActiveTab tab.id).tabs := by
      rw [IWindow.setActiveTab_of_mem (h.tabIds w hw) hopen.2.2]
      exact hopen.2.2
    dsimp only
    rw [IWindow.mergeTabParams_self hkeeps.tabIds htab (hsame p rfl)]
    exact hkeeps

/-! ## Calls that open -/

/-- A tab of a source that is free enters a window. -/
theorem Inv.pushTab (h : Inv env s) {windowId : String} {tab : IWindowTab} (hfresh : s.Fresh tab.id)
    (hfree : env.isSourceSingleton tab.type tab.sourceId = true → ∀ win, s.window windowId = some win → win.isClosing = false →
      ∀ w t, s.OpenTab w t → ¬ t.Shows tab.type tab.sourceId) :
    Inv env (s.modifyWindow windowId fun w => w.pushTab tab) := by
  have hnodup : ∀ w ∈ s.windows, ((w.tabs ++ [tab]).map IWindowTab.id).Nodup := by
    intro w hw
    rw [List.map_append, List.nodup_append]
    refine ⟨h.tabIds w hw, List.nodup_singleton _, fun a ha b hb => ?_⟩
    obtain ⟨t, ht, rfl⟩ := List.mem_map.1 ha
    obtain rfl := List.mem_singleton.1 hb
    exact (hfresh.1 w hw).2 t ht
  have hpush : ∀ w ∈ s.windows,
      w.pushTab tab = { w with tabs := w.tabs ++ [tab], activeTabId := tab.id, toTabFields := tab.toTabFields } := fun w hw =>
    IWindow.setActiveTab_of_mem (w := { w with tabs := w.tabs ++ [tab] }) (hnodup w hw)
      (List.mem_append_right _ (List.mem_singleton_self _))
  have hmem : ∀ w' ∈ (s.modifyWindow windowId fun w => w.pushTab tab).windows, (∃ w ∈ s.windows, w.id = windowId ∧
      w' = { w with tabs := w.tabs ++ [tab], activeTabId := tab.id, toTabFields := tab.toTabFields }) ∨ w' ∈ s.windows := by
    intro w' hw'
    obtain ⟨w, hw, rfl⟩ := List.mem_map.1 hw'
    split
    · rename_i hid
      exact .inl ⟨w, hw, hid, hpush w hw⟩
    · exact .inr hw
  have hids : (s.modifyWindow windowId fun w => w.pushTab tab).windows.map IWindow.id = s.windows.map IWindow.id := by
    refine Keyed.map_key_modify _ _ _ fun w hid => ?_
    exact IWindow.syncFromActiveTab_id.trans hid
  exact {
    mirrors := fun w' hw' => by
      rcases hmem w' hw' with ⟨w, hw, -, rfl⟩ | hw
      · exact .of_mem (hnodup w hw) (List.mem_append_right _ (List.mem_singleton_self _)) rfl rfl
      · exact h.mirrors w' hw
    singletons := by
      refine h.singletons.of_enters windowId tab.id tab.toTabFields ?_
      rintro w' t' ⟨hw', hopen, ht'⟩
      rcases hmem w' hw' with ⟨w, hw, hid, rfl⟩ | hw
      · rcases List.mem_append.1 ht' with ht | ht
        · exact .inl ⟨w, t', ⟨hw, hopen, ht⟩, rfl, rfl, rfl, rfl⟩
        · obtain rfl := List.mem_singleton.1 ht
          exact .inr ⟨hid, rfl, rfl, fun hsingle => hfree hsingle w (hid ▸ h.window_eq hw) hopen⟩
      · exact .inl (OpenTab.stays ⟨hw, hopen, ht'⟩)
    tabIds := fun w' hw' => by
      rcases hmem w' hw' with ⟨w, hw, -, rfl⟩ | hw
      · exact hnodup w hw
      · exact h.tabIds w' hw
    windowIds := hids ▸ h.windowIds
    closing := fun w' hw' => by
      rcases hmem w' hw' with ⟨w, hw, -, rfl⟩ | hw
      · exact h.closing w hw
      · exact h.closing w' hw
    activeWindow := fun id hid => hids ▸ h.activeWindow id hid }

theorem Core.without (h : Core env s) (k : Option String) :
    Core env { s with windows := s.windows.filter fun w => some w.id ≠ k } where
  mirrors w hw := h.mirrors w (List.mem_filter.1 hw).1
  singletons := h.singletons.of_stays fun _ _ ho => OpenTab.stays ⟨(List.mem_filter.1 ho.1).1, ho.2⟩
  tabIds w hw := h.tabIds w (List.mem_filter.1 hw).1
  windowIds := h.windowIds.sublist (List.filter_sublist.map _)
  closing w hw := h.closing w (List.mem_filter.1 hw).1

theorem Inv.create (h : Core env s) {fields : TabFields} {windowId tabId workspaceId : String} {zIndex nextZIndex : Nat}
    (hfresh : s.Fresh windowId)
    (hfree : env.isSourceSingleton fields.type fields.sourceId = true → ∀ w t, s.OpenTab w t →
      ¬ t.Shows fields.type fields.sourceId) :
    Inv env { s with
      windows := s.windows ++
        [{ fields with id := windowId, workspaceId, tabs := [{ fields with id := tabId }], activeTabId := tabId, zIndex }]
      activeWindowId := some windowId
      nextZIndex } where
  mirrors w hw := by
    rcases List.mem_append.1 hw with hw | hw
    · exact h.mirrors w hw
    · obtain rfl := List.mem_singleton.1 hw
      exact .of_mem (List.nodup_singleton _) (List.mem_singleton_self _) rfl rfl
  singletons := by
    refine h.singletons.of_enters windowId tabId fields ?_
    rintro w t ⟨hw, hopen, ht⟩
    rcases List.mem_append.1 hw with hw | hw
    · exact .inl (OpenTab.stays ⟨hw, hopen, ht⟩)
    · obtain rfl := List.mem_singleton.1 hw
      obtain rfl := List.mem_singleton.1 ht
      exact .inr ⟨rfl, rfl, rfl, hfree⟩
  tabIds w hw := by
    rcases List.mem_append.1 hw with hw | hw
    · exact h.tabIds w hw
    · obtain rfl := List.mem_singleton.1 hw
      exact List.nodup_singleton _
  windowIds := by
    rw [List.map_append, List.nodup_append]
    refine ⟨h.windowIds, List.nodup_singleton _, fun a ha b hb => ?_⟩
    obtain ⟨w, hw, rfl⟩ := List.mem_map.1 ha
    obtain rfl := List.mem_singleton.1 hb
    exact (hfresh.1 w hw).1
  closing w hw := by
    rcases List.mem_append.1 hw with hw | hw
    · exact h.closing w hw
    · obtain rfl := List.mem_singleton.1 hw
      exact ⟨(fun hc => by cases hc), fun hpending => absurd hpending hfresh.2⟩
  activeWindow := by
    rintro id ⟨⟩
    exact List.mem_map.2 ⟨_, List.mem_append_right _ (List.mem_singleton_self _), rfl⟩

/-! ## Calls that close -/

theorem Inv.closeWindow (h : Inv env s) (k : String) : Inv env (s.closeWindow env k) := by
  unfold State.closeWindow
  split
  · exact h
  · split
    · exact h
    · have hmem : ∀ w' ∈ (s.modifyWindow k fun w => { w with isClosing := true }).windows,
          (∃ w ∈ s.windows, w.id = k ∧ w' = { w with isClosing := true }) ∨ (w' ∈ s.windows ∧ w'.id ≠ k) := by
        intro w' hw'
        obtain ⟨w, hw, rfl⟩ := List.mem_map.1 hw'
        split
        · rename_i hid
          exact .inl ⟨w, hw, hid, rfl⟩
        · rename_i hid
          exact .inr ⟨hw, hid⟩
      have hids : (s.modifyWindow k fun w => { w with isClosing := true }).windows.map IWindow.id = s.windows.map IWindow.id :=
        Keyed.map_key_modify _ _ _ fun _ hid => hid
      exact {
        mirrors := fun w' hw' => by
          rcases hmem w' hw' with ⟨w, hw, -, rfl⟩ | ⟨hw, -⟩
          · exact h.mirrors w hw
          · exact h.mirrors w' hw
        singletons := by
          refine h.singletons.of_stays ?_
          rintro w' t' ⟨hw', hopen, ht'⟩
          rcases hmem w' hw' with ⟨w, -, -, rfl⟩ | ⟨hw, -⟩
          · cases hopen
          · exact OpenTab.stays ⟨hw, hopen, ht'⟩
        tabIds := fun w' hw' => by
          rcases hmem w' hw' with ⟨w, hw, -, rfl⟩ | ⟨hw, -⟩
          · exact h.tabIds w hw
          · exact h.tabIds w' hw
        windowIds := hids ▸ h.windowIds
        closing := fun w' hw' => by
          rcases hmem w' hw' with ⟨w, hw, hid, rfl⟩ | ⟨hw, hid⟩
          · exact iff_of_true rfl (List.mem_append_right _ (List.mem_singleton.2 hid))
          · rw [h.closing w' hw]
            simp [hid]
        activeWindow := fun id hid => hids ▸ h.activeWindow id hid }

theorem Inv.closeWindows (h : Inv env s) (ids : List String) : Inv env (s.closeWindows env ids) := by
  induction ids generalizing s with
  | nil => exact h
  | cons id ids ih => exact ih (h.closeWindow id)

theorem topWindow_mem {ws : List IWindow} {w : IWindow} (h : topWindow ws = some w) : w ∈ ws := by
  have hfold : ∀ (ws : List IWindow) (w : IWindow),
      ws.foldl (fun max w => if w.zIndex > max.zIndex then w else max) w ∈ w :: ws := by
    intro ws
    induction ws with
    | nil => exact fun w => List.mem_singleton_self w
    | cons v ws ih =>
      intro w
      rw [List.foldl_cons]
      split
      · exact List.mem_cons_of_mem w (ih v)
      · rcases List.mem_cons.1 (ih w) with hw | hw
        · rw [hw]
          exact List.mem_cons_self
        · exact List.mem_cons_of_mem w (List.mem_cons_of_mem v hw)
  cases ws with
  | nil => cases h
  | cons v ws => exact Option.some.inj h ▸ hfold ws v

theorem eraseP_id {ws : List IWindow} (hids : (ws.map IWindow.id).Nodup) (k : String) :
    (ws.eraseP fun w => w.id = k) = ws.filter fun w => w.id ≠ k := by
  induction ws with
  | nil => rfl
  | cons w ws ih =>
    rw [List.map_cons, List.nodup_cons] at hids
    by_cases hw : w.id = k
    · have hrest : ∀ w' ∈ ws, decide (w'.id ≠ k) = true := fun w' hw' =>
        decide_eq_true fun he => hids.1 (hw.trans he.symm ▸ List.mem_map_of_mem hw')
      rw [List.filter_cons_of_neg (by simp [hw]), List.filter_eq_self.2 hrest]
      simp [hw]
    · rw [List.eraseP_cons_of_neg (by simp [hw]), ih hids.2]
      simp [hw]

theorem removeWindow_windows (hids : (s.windows.map IWindow.id).Nodup) {k : String} (hk : k ∈ s.removals) :
    (s.removeWindow k).windows = s.windows.filter fun w => w.id ≠ k := by
  unfold State.removeWindow
  rw [if_pos hk]
  split
  · rename_i hnone
    exact (List.filter_eq_self.2 fun w hw => decide_eq_true (Keyed.get_eq_none.1 hnone w hw)).symm
  · exact eraseP_id hids k

theorem removeWindow_removals {k : String} (hk : k ∈ s.removals) : (s.removeWindow k).removals = s.removals.erase k := by
  unfold State.removeWindow
  rw [if_pos hk]
  split <;> rfl

theorem Inv.removeWindow (h : Inv env s) (k : String) : Inv env (s.removeWindow k) := by
  by_cases hk : k ∈ s.removals
  · have hwindows := removeWindow_windows h.windowIds hk
    have hmem : ∀ w, w ∈ (s.removeWindow k).windows ↔ w ∈ s.windows ∧ w.id ≠ k := fun w => by
      rw [hwindows, List.mem_filter, decide_eq_true_iff]
    exact {
      mirrors := fun w hw => h.mirrors w ((hmem w).1 hw).1
      singletons := h.singletons.of_stays fun w t ho => OpenTab.stays ⟨((hmem w).1 ho.1).1, ho.2⟩
      tabIds := fun w hw => h.tabIds w ((hmem w).1 hw).1
      windowIds := hwindows ▸ h.windowIds.sublist (List.filter_sublist.map _)
      closing := fun w hw => by
        obtain ⟨hw, hne⟩ := (hmem w).1 hw
        rw [removeWindow_removals hk, List.mem_erase_of_ne hne]
        exact h.closing w hw
      activeWindow := fun id hid => by
        have hkeep : s.activeWindowId = some id → id ≠ k → id ∈ (s.removeWindow k).windows.map IWindow.id := by
          intro hactive hne
          obtain ⟨w, hw, rfl⟩ := List.mem_map.1 (h.activeWindow id hactive)
          exact List.mem_map_of_mem ((hmem w).2 ⟨hw, hne⟩)
        unfold State.removeWindow at hid
        rw [if_pos hk] at hid
        split at hid
        · rename_i hnone
          refine hkeep hid fun he => ?_
          obtain ⟨w, hw, hwid⟩ := List.mem_map.1 (h.activeWindow id hid)
          exact Keyed.get_eq_none.1 hnone w hw (hwid.trans he)
        · dsimp only at hid
          split at hid
          · obtain ⟨w, hw, rfl⟩ := Option.map_eq_some_iff.1 hid
            have hw' := topWindow_mem hw
            rw [eraseP_id h.windowIds] at hw'
            exact List.mem_map_of_mem (hwindows ▸ hw')
          · rename_i hne
            exact hkeep hid fun he => hne (he ▸ hid) }
  · rw [State.removeWindow, if_neg hk]
    exact h

theorem Inv.closeTab (h : Inv env s) (windowId tabId : String) : Inv env (s.closeTab env windowId tabId) := by
  unfold State.closeTab
  split
  · exact h
  · rename_i found hfound
    split
    · exact h.closeWindow windowId
    · rename_i hlength
      split
      · exact h
      · rename_i tabIndex hindex
        refine h.modifyWindow fun w hw hid => ?_
        obtain rfl : found = w := Option.some.inj (hfound.symm.trans (hid ▸ h.window_eq hw))
        exact .removeTab (h.mirrors found hw) (h.tabIds found hw) hlength hindex

@[simp] theorem closeWindow_activeWindowId (s : State) (k : String) :
    (s.closeWindow env k).activeWindowId = s.activeWindowId := by
  unfold State.closeWindow
  split
  · rfl
  · split <;> rfl

@[simp] theorem closeWindows_activeWindowId (s : State) (ids : List String) :
    (s.closeWindows env ids).activeWindowId = s.activeWindowId := by
  induction ids generalizing s with
  | nil => rfl
  | cons id ids ih => exact (ih (s.closeWindow env id)).trans (closeWindow_activeWindowId s id)

theorem Inv.closeAllWindowsAsync (hactive : s.activeWindowId = none) : Inv env (s.closeAllWindowsAsync env) where
  mirrors _ hw := by cases hw
  singletons _ _ _ _ _ _ _ ho := by cases ho.1
  tabIds _ hw := by cases hw
  windowIds := List.nodup_nil
  closing _ hw := by cases hw
  activeWindow id hid := by cases ((closeWindows_activeWindowId s _).trans hactive).symm.trans hid

/-! ## Closing an extension -/

/-- What a call to close it makes of a window. -/
def closed (env : Env) (ids : List String) (w : IWindow) : IWindow :=
  if w.id ∈ ids ∧ ¬ (w.type = .extension ∧ env.isNativeWindow w.sourceId = true) then { w with isClosing := true } else w

theorem closed_closed (k : String) (ids : List String) (w : IWindow) :
    closed env ids (closed env [k] w) = closed env (k :: ids) w := by
  by_cases hnative : w.type = .extension ∧ env.isNativeWindow w.sourceId = true
  · have hstays : ∀ ids, closed env ids w = w := fun ids => if_neg fun hc => hc.2 hnative
    rw [hstays, hstays, hstays]
  · by_cases hk : w.id = k
    · have hone : closed env [k] w = { w with isClosing := true } := if_pos ⟨List.mem_singleton.2 hk, hnative⟩
      have hall : closed env (k :: ids) w = { w with isClosing := true } := if_pos ⟨hk ▸ List.mem_cons_self, hnative⟩
      rw [hone, hall]
      unfold closed
      split <;> rfl
    · have hone : closed env [k] w = w := if_neg fun hc => hk (List.mem_singleton.1 hc.1)
      rw [hone]
      unfold closed
      simp [hk]

theorem closeWindow_windows (hids : (s.windows.map IWindow.id).Nodup) (k : String) :
    (s.closeWindow env k).windows = s.windows.map (closed env [k]) := by
  unfold State.closeWindow
  split
  · rename_i hnone
    refine ((List.map_congr_left fun w hw => ?_).trans (List.map_id _)).symm
    exact if_neg fun hc => Keyed.get_eq_none.1 hnone w hw (List.mem_singleton.1 hc.1)
  · rename_i found hfound
    have hself : ∀ w ∈ s.windows, w.id = k → w = found := fun w hw hid =>
      List.inj_on_of_nodup_map hids hw (Keyed.get_mem hfound) (hid.trans (Keyed.get_key hfound).symm)
    split
    · rename_i hnative
      refine ((List.map_congr_left fun w hw => ?_).trans (List.map_id _)).symm
      exact if_neg fun hc => hc.2 (hself w hw (List.mem_singleton.1 hc.1) ▸ hnative)
    · rename_i hnative
      refine List.map_congr_left fun w hw => ?_
      by_cases hid : w.id = k
      · rw [if_pos hid]
        exact (if_pos ⟨List.mem_singleton.2 hid, hself w hw hid ▸ hnative⟩).symm
      · rw [if_neg hid]
        exact (if_neg fun hc => hid (List.mem_singleton.1 hc.1)).symm

theorem closeWindows_windows (h : Inv env s) (ids : List String) :
    (s.closeWindows env ids).windows = s.windows.map (closed env ids) := by
  induction ids generalizing s with
  | nil =>
    refine ((List.map_congr_left fun w _ => ?_).trans (List.map_id _)).symm
    exact if_neg fun hc => by cases hc.1
  | cons k ids ih =>
    have hrest := ih (h.closeWindow k)
    rw [closeWindow_windows h.windowIds, List.map_map] at hrest
    exact hrest.trans (List.map_congr_left fun w _ => closed_closed k ids w)

theorem mem_closeWindowsByExtensionId (h : Inv env s) {x : String} {w' : IWindow} :
    w' ∈ (s.closeWindowsByExtensionIdAsync env x).windows ↔ ∃ w ∈ s.windows,
      (if w.Shows .extension x ∧ env.isNativeWindow x = false then { w with isClosing := true } else w) = w' := by
  rw [closeWindowsByExtensionIdAsync, closeWindows_windows h, List.mem_map]
  refine exists_congr fun w => and_congr_right fun hw => ?_
  have hmem : w.id ∈ (s.windows.filter fun w => w.Shows .extension x).map IWindow.id ↔ w.Shows .extension x := by
    constructor
    · intro hid
      obtain ⟨v, hv, hvw⟩ := List.mem_map.1 hid
      obtain ⟨hvmem, hshows⟩ := List.mem_filter.1 hv
      exact List.inj_on_of_nodup_map h.windowIds hvmem hw hvw ▸ of_decide_eq_true hshows
    · exact fun hshows => List.mem_map_of_mem (List.mem_filter.2 ⟨hw, decide_eq_true hshows⟩)
  unfold closed
  by_cases hshows : w.Shows .extension x
  · simp [hmem, hshows, hshows.1, hshows.2]
  · simp [hmem, hshows]

theorem removals_windows (hids : (s.windows.map IWindow.id).Nodup) {ids : List String} (hperm : ids.Perm s.removals) :
    (ids.foldl State.removeWindow s).windows = s.windows.filter fun w => w.id ∉ s.removals := by
  induction ids generalizing s with
  | nil =>
    rw [List.nil_perm.1 hperm]
    exact (List.filter_eq_self.2 fun w _ => by simp).symm
  | cons k ids ih =>
    obtain ⟨hk, hrest⟩ := List.cons_perm_iff_perm_erase.1 hperm
    have hwindows := removeWindow_windows hids hk
    have hids' : ((s.removeWindow k).windows.map IWindow.id).Nodup := hwindows ▸ hids.sublist (List.filter_sublist.map _)
    rw [List.foldl_cons, ih hids' (removeWindow_removals hk ▸ hrest), removeWindow_removals hk, hwindows, List.filter_filter]
    refine List.filter_congr fun w _ => ?_
    by_cases hid : w.id = k
    · simp [hid, hk]
    · simp [hid, List.mem_erase_of_ne hid]

theorem cleared_iff (h : Inv env s) (x : String) :
    s.Cleared x ↔ ∀ w ∈ s.windows, w.isClosing = false → ∀ t ∈ w.tabs, ¬ t.Shows .extension x := by
  have hopen : ∀ w ∈ s.windows, (w.isClosing = false ↔ w.id ∉ s.removals) := fun w hw => by
    rw [← h.closing w hw, Bool.not_eq_true]
  constructor
  · intro hall w hw hc
    refine hall s.removals (List.Perm.refl _) w ?_
    rw [removals_windows h.windowIds (List.Perm.refl _)]
    exact List.mem_filter.2 ⟨hw, decide_eq_true ((hopen w hw).1 hc)⟩
  · intro hall ids hperm w hw
    rw [removals_windows h.windowIds hperm] at hw
    obtain ⟨hmem, hpending⟩ := List.mem_filter.1 hw
    exact hall w hmem ((hopen w hmem).2 (of_decide_eq_true hpending))

theorem cleared_closeWindowsByExtensionId (h : Inv env s) (x : String) :
    (s.closeWindowsByExtensionIdAsync env x).Cleared x ↔ ∀ w ∈ s.windows, w.isClosing = false →
      (∃ t ∈ w.tabs, t.Shows .extension x) → w.Shows .extension x ∧ env.isNativeWindow x = false := by
  refine (cleared_iff (h.closeWindows _) x).trans ?_
  constructor
  · rintro hall w hw hc ⟨t, ht, hshows⟩
    by_contra hno
    exact hall w ((mem_closeWindowsByExtensionId h).2 ⟨w, hw, if_neg hno⟩) hc t ht hshows
  · intro hall w' hw' hc t ht hshows
    obtain ⟨w, hw, rfl⟩ := (mem_closeWindowsByExtensionId h).1 hw'
    split at hc
    · cases hc
    · rename_i hno
      rw [if_neg hno] at ht
      exact hno (hall w hw hc ⟨t, ht, hshows⟩)

end State

end HaexVault.Desktop
