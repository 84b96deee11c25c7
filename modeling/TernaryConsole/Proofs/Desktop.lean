import TernaryConsole.Desktop

/-!
# Proofs.Desktop — the apps of a desktop

Bundles are registered in order, so the apps of a desktop are its bundles, each with the slot of its
position as the icon (`apps_ofBundles`). A name belongs to the first bundle that bears it.
-/

namespace TernaryConsole

/-- The bundle that an app was registered from. -/
def App.bundle (app : App) : Bundle :=
  ⟨app.name, app.path⟩

namespace Desktop

theorem foldl_register (bundles : List Bundle) (desktop : Desktop) :
    bundles.foldl register desktop =
      { desktop with
        apps := desktop.apps ++ bundles.mapIdx fun slot bundle =>
          ⟨bundle.name, bundle.path, desktop.grid.icon (desktop.apps.length + slot)⟩ } := by
  induction bundles generalizing desktop with
  | nil => simp
  | cons bundle rest ih =>
    rw [List.foldl_cons, ih, List.mapIdx_cons]
    simp [register, place, Nat.add_assoc, Nat.add_comm 1]

/-- Each bundle takes the slot of its position. -/
theorem apps_ofBundles (grid : IconGrid) (bundles : List Bundle) :
    (ofBundles grid bundles).apps =
      bundles.mapIdx fun slot bundle => ⟨bundle.name, bundle.path, grid.icon slot⟩ := by
  simp [ofBundles, foldl_register, empty]

theorem map_bundle_apps (grid : IconGrid) (bundles : List Bundle) :
    (ofBundles grid bundles).apps.map App.bundle = bundles := by
  rw [apps_ofBundles]
  refine List.ext_getElem (by simp) fun slot hslot hbundle => ?_
  rw [List.getElem_map, List.getElem_mapIdx]
  rfl

/-- A name stands for the first bundle that bears it. -/
theorem named?_ofBundles (grid : IconGrid) (bundles : List Bundle) (name : String) :
    ((ofBundles grid bundles).named? name).map App.bundle =
      bundles.find? fun bundle => bundle.name = name := by
  have hfind := List.find?_map (p := fun bundle : Bundle => bundle.name = name) (f := App.bundle)
    (l := (ofBundles grid bundles).apps)
  rw [map_bundle_apps] at hfind
  exact hfind.symm

/-! ## Apps under points -/

theorem appAt?_eq_none {desktop : Desktop} {x y : Coordinate}
    (h : ∀ app ∈ desktop.apps, app.icon.contains x y = false) : desktop.appAt? x y = none := by
  rw [appAt?, List.find?_eq_none]
  intro app happ
  simp [h app happ]

/-! ## Apps of programs -/

theorem named?_ofPrograms (grid : IconGrid) (programs : List String) (name : String) :
    ((ofBundles grid (programs.map Bundle.ofPath)).named? name).map App.path =
      programs.find? fun path => Path.title path = name := by
  let desktop := ofBundles grid (programs.map Bundle.ofPath)
  calc (desktop.named? name).map App.path
      = ((desktop.named? name).map App.bundle).map Bundle.path := by
        rw [Option.map_map]
        rfl
    _ = ((programs.map Bundle.ofPath).find? fun bundle => bundle.name = name).map Bundle.path := by
        rw [named?_ofBundles]
    _ = programs.find? fun path => Path.title path = name := by
        rw [List.find?_map, Option.map_map]
        exact Option.map_id'

theorem mem_ofPrograms {grid : IconGrid} {programs : List String} {app : App}
    (h : app ∈ (ofBundles grid (programs.map Bundle.ofPath)).apps) :
    app.path ∈ programs ∧ app.name = Path.title app.path := by
  have hbundle := List.mem_map_of_mem (f := App.bundle) h
  rw [map_bundle_apps, List.mem_map] at hbundle
  obtain ⟨path, hpath, hsame⟩ := hbundle
  have hname : Path.title path = app.name := congrArg Bundle.name hsame
  obtain rfl : path = app.path := congrArg Bundle.path hsame
  exact ⟨hpath, hname.symm⟩

end Desktop

end TernaryConsole
