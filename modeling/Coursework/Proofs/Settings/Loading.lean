import Mathlib
import Coursework.Settings.Files
import Coursework.Proofs.FileTree.Writing
import Coursework.Proofs.Json.Names

namespace Coursework

namespace Settings

variable {s : Surroundings} {t u : FileTree} {p project : Path}
  {overrides user own low : Fields Json} {k : Key}

def isGiven : Json → Bool
  | .null => false
  | _ => true

/-- The value for a key from the highest layer that has one: an override that is given, the file of
the project, the part of the user's file for this program, or what holds by default. -/
def chosen (overrides own low : Fields Json) (k : Key) : Json :=
  (((Keyed.get? overrides k.name).filter isGiven).or
    ((Keyed.get? own k.name).or (Keyed.get? low k.name))).getD k.default

theorem ofFields_stack (hover : (Keyed.keys overrides).Nodup) (hown : (Keyed.keys own).Nodup)
    (hlow : (Keyed.keys low).Nodup) :
    Values.ofFields (stack [low, own, overrideLayer overrides]) = chosen overrides own low := by
  have hlayer : overrideLayer overrides = overrides.filter fun f => isGiven f.2 := by
    rw [overrideLayer]
    congr 1
  have hkeys : (Keyed.keys (overrideLayer overrides)).Nodup := by
    rw [hlayer]
    exact hover.sublist (List.filter_sublist.map _)
  funext k
  have hstack : stack [low, own, overrideLayer overrides] =
      Keyed.update (Keyed.update (Keyed.update [] low) own) (overrideLayer overrides) := rfl
  rw [Values.ofFields, chosen, hstack, Keyed.get?_update hkeys, Keyed.get?_update hown,
    Keyed.get?_update hlow, hlayer, Keyed.get?_filter_value hover, Keyed.get?, Option.or_none]

def Holds (t : FileTree) (p : Path) (fs : Fields Json) : Prop :=
  (∃ s, t.readText p = .ok s ∧ Json.read s = .ok (.object fs)) ∨ t.hasPath p = false ∧ fs = []

theorem hasPath_of_readBytes {content : Utf8.Bytes} (h : t.readBytes p = .ok content) :
    t.hasPath p = true := by
  obtain ⟨-, l, τ, hl, hg⟩ := FileTree.readBytes_iff.mp h
  rw [FileTree.hasPath, FileTree.entry_eq_some_iff.mpr ⟨l, hl, hg⟩]
  rfl

theorem hasPath_of_readText {w : Text} (h : t.readText p = .ok w) : t.hasPath p = true := by
  rw [FileTree.readText] at h
  cases hb : t.readBytes p with
  | error e =>
    rw [hb] at h
    cases h
  | ok content => exact hasPath_of_readBytes hb

theorem Holds.readObject {fs : Fields Json} (h : Holds t p fs) : readObject t p = .ok fs := by
  rw [Settings.readObject]
  rcases h with ⟨w, hw, hread⟩ | ⟨hnone, rfl⟩
  · rw [if_pos (hasPath_of_readText hw), hw]
    simp only [hread, Json.object?, Option.getD_some]
  · rw [hnone, if_neg Bool.false_ne_true]

theorem Holds.distinct {fs : Fields Json} (h : Holds t p fs) : (Json.object fs).Distinct := by
  rcases h with ⟨w, -, hread⟩ | ⟨-, rfl⟩
  · exact Json.distinct_of_read hread
  · exact .object List.nodup_nil (by simp)

def builderPart (user : Fields Json) : Fields Json :=
  ((Keyed.get? user "builder").bind Json.object?).getD []

theorem userLayer_eq (h : ∀ j, Keyed.get? user "builder" = some j → ∃ fs, j = .object fs) :
    userLayer user = .ok (builderPart user) := by
  rw [userLayer, builderPart]
  cases hj : Keyed.get? user "builder" with
  | none => rfl
  | some j =>
    obtain ⟨fs, rfl⟩ := h j hj
    rfl

theorem nodup_builderPart (h : (Json.object user).Distinct) :
    (Keyed.keys (builderPart user)).Nodup := by
  rw [builderPart]
  cases hj : Keyed.get? user "builder" with
  | none => exact List.nodup_nil
  | some j =>
    cases j with
    | object fs => exact (h.get? hj).nodup
    | _ => exact List.nodup_nil

theorem loadUser_eq (hdir : t.ensureDirectories (userDirectory s) = (u, none))
    (huser : readObject u (userFile s) = .ok user) : loadUser s t = (u, .ok user) := by
  rw [loadUser, withUserFile, hdir]
  simp only [huser]

def otherEngine (s : Surroundings) (user : Fields Json) : Json :=
  (((s.engine.filter (· ≠ [])).map Json.text).or (Keyed.get? user "godot_executable")).getD .null

theorem engineOf_eq (hdir : u.hasDirectory (userDirectory s) = true)
    (huser : readObject u (userFile s) = .ok user) :
    engineOf s u = (u, .ok (otherEngine s user)) := by
  have hload := loadUser_eq (FileTree.ensureDirectories_present hdir) huser
  rw [engineOf, otherEngine]
  rcases s.engine with _ | _ | ⟨c, cs⟩
  · simp only [getUser, hload]
    rfl
  · simp only [getUser, hload]
    rfl
  · rfl

def engineFor (chosen other : Json) : Json := if isGiven chosen then chosen else other

theorem loadWith_eq (hdir : t.ensureDirectories (userDirectory s) = (u, none))
    (huser : Holds u (userFile s) user) (hown : Holds u (projectSettings project) own)
    (hbuilder : ∀ j, Keyed.get? user "builder" = some j → ∃ fs, j = .object fs)
    (hover : (Keyed.keys overrides).Nodup) :
    ∃ v, loadWith s t project overrides = (u, .ok v) ∧
      (∀ k, k ≠ .executable → v k = chosen overrides own (builderPart user) k) ∧
      v .executable = engineFor (chosen overrides own (builderPart user) .executable)
        (otherEngine s user) := by
  have hvalues := ofFields_stack hover hown.distinct.nodup (nodup_builderPart huser.distinct)
  have hengine := engineOf_eq (FileTree.hasDirectory_of_ensureDirectories hdir) huser.readObject
  rw [loadWith, loadUser_eq hdir huser.readObject]
  simp only [userLayer_eq hbuilder, hown.readObject, hvalues]
  cases hx : chosen overrides own (builderPart user) .executable with
  | null =>
    simp only [hengine]
    exact ⟨_, rfl, fun k hk => if_neg hk, if_pos rfl⟩
  | _ => exact ⟨_, rfl, fun k _ => rfl, hx⟩

theorem load_eq (hnames : ∀ f ∈ overrides, f.1 ∉ reservedNames) :
    load s t project overrides = loadWith s t project overrides := by
  have hallowed : (overrides.any fun f => reservedNames.contains f.1) = false := by
    simpa using hnames
  rw [load, hallowed, if_neg Bool.false_ne_true]

/-- Where both files hold objects, all values are those of the highest layer that has one. For the
engine a null there counts as none; only then the name in the environment counts, and after it the
one in the user's file outside of the part for this program. The user's directory is made if it is
not there. -/
theorem load_layered (s : Surroundings) (t : FileTree) (project : Path)
    (hdir : t.hasPath (userFile s) = true ∨ (t.ensureDirectories (userDirectory s)).2 = none)
    (huser : Holds (t.ensureDirectories (userDirectory s)).1 (userFile s) user)
    (hown : Holds (t.ensureDirectories (userDirectory s)).1 (projectSettings project) own)
    (hbuilder : ∀ j, Keyed.get? user "builder" = some j → ∃ fs, j = .object fs)
    (hnames : ∀ f ∈ overrides, f.1 ∉ reservedNames) (hover : (Keyed.keys overrides).Nodup) :
    ∃ u v, load s t project overrides = (u, .ok v) ∧
      (t.hasPath (userFile s) = true → u = t) ∧
      (∀ k, k ≠ .executable → v k = chosen overrides own (builderPart user) k) ∧
      v .executable = engineFor (chosen overrides own (builderPart user) .executable)
        (otherEngine s user) := by
  have hthere : t.hasPath (userFile s) = true →
      t.ensureDirectories (userDirectory s) = (t, none) := fun h =>
    FileTree.ensureDirectories_present (FileTree.hasDirectory_of_hasPath_child h)
  have hmade : t.ensureDirectories (userDirectory s) =
      ((t.ensureDirectories (userDirectory s)).1, none) := by
    rcases hdir with h | h
    · rw [hthere h]
    · exact Prod.ext rfl h
  obtain ⟨v, hload, hv⟩ := loadWith_eq hmade huser hown hbuilder hover
  exact ⟨(t.ensureDirectories (userDirectory s)).1, v, (load_eq hnames).trans hload,
    fun h => by rw [hthere h], hv⟩

def layeredTree (user own : Text) : FileTree where
  entries := [
    (["h"], .directory),
    (["h", ".practicegen"], .directory),
    (["h", ".practicegen", "config.json"], .file (Utf8.encode user) 5),
    (["w"], .directory),
    (["w", "practicegen.json"], .file (Utf8.encode own) 5)]

def layeredSurroundings : Surroundings := ⟨Path.ofText "/h", some "y"⟩

def layeredUser : Fields Json := [
  ("builder", .object [("practices_dir", .text "u"), ("excludes", .null)]),
  ("godot_executable", .text "g")]

def layeredUserText : Text :=
  "\x7b\"builder\": \x7b\"practices_dir\": \"u\", \"excludes\": null\x7d, \"godot_executable\": \"g\"\x7d"

def layeredOwn : Fields Json := [
  ("practices_dir", .text "p"), ("godot_executable", .null), ("x", .number (.whole 1))]

def layeredOwnText : Text :=
  "\x7b\"practices_dir\": \"p\", \"godot_executable\": null, \"x\": 1\x7d"

def layeredOverrides : Fields Json := [("indent_unit", .text "  "), ("practices_dir", .null)]

theorem load_layered_values :
    ∃ v, load layeredSurroundings (layeredTree layeredUserText layeredOwnText) (Path.ofText "/w")
      layeredOverrides = (layeredTree layeredUserText layeredOwnText, .ok v) ∧
    v .indentUnit = .text "  " ∧ v .practicesDirectory = .text "p" ∧ v .excludes = .null ∧
    v .solutionsDirectory = .text "solutions" ∧ v .executable = .text "y" := by
  have hpath : (layeredTree layeredUserText layeredOwnText).hasPath
      (userFile layeredSurroundings) = true := by decide +kernel
  have hdir : (layeredTree layeredUserText layeredOwnText).ensureDirectories
      (userDirectory layeredSurroundings) = (layeredTree layeredUserText layeredOwnText, none) := by
    decide +kernel
  have huser : Holds ((layeredTree layeredUserText layeredOwnText).ensureDirectories
      (userDirectory layeredSurroundings)).1 (userFile layeredSurroundings) layeredUser := by
    rw [hdir]
    exact .inl ⟨layeredUserText, by decide +kernel, by cbv⟩
  have hown : Holds ((layeredTree layeredUserText layeredOwnText).ensureDirectories
      (userDirectory layeredSurroundings)).1 (projectSettings (Path.ofText "/w")) layeredOwn := by
    rw [hdir]
    exact .inl ⟨layeredOwnText, by decide +kernel, by cbv⟩
  have hbuilder : ∀ j, Keyed.get? layeredUser "builder" = some j → ∃ fs, j = .object fs :=
    fun j hj => ⟨_, (Option.some.inj hj).symm⟩
  obtain ⟨u, v, hload, hsame, hvalues, hengine⟩ :=
    load_layered layeredSurroundings (layeredTree layeredUserText layeredOwnText)
      (Path.ofText "/w") (.inl hpath) huser hown hbuilder
      (show ∀ f ∈ layeredOverrides, f.1 ∉ reservedNames by decide) (by decide)
  rw [hsame hpath] at hload
  refine ⟨v, hload, ?_, ?_, ?_, ?_, ?_⟩
  · exact hvalues .indentUnit (by decide)
  · exact hvalues .practicesDirectory (by decide)
  · exact hvalues .excludes (by decide)
  · exact hvalues .solutionsDirectory (by decide)
  · exact hengine

def emptyObject : Text := "\x7b\x7d"

def engineText : Text := "\x7b\"godot_executable\": \"x\"\x7d"

theorem environment_overruled : layeredSurroundings.engine = some "y".toList ∧
    ∃ v, load layeredSurroundings (layeredTree emptyObject engineText) (Path.ofText "/w") [] =
        (layeredTree emptyObject engineText, .ok v) ∧ v .executable = .text "x" := by
  have hdir : (layeredTree emptyObject engineText).ensureDirectories
      (userDirectory layeredSurroundings) = (layeredTree emptyObject engineText, none) := by
    decide +kernel
  have huser : Holds (layeredTree emptyObject engineText) (userFile layeredSurroundings) [] :=
    .inl ⟨emptyObject, by decide +kernel, by cbv⟩
  have hown : Holds (layeredTree emptyObject engineText) (projectSettings (Path.ofText "/w"))
      [("godot_executable", .text "x")] :=
    .inl ⟨engineText, by decide +kernel, by cbv⟩
  have hover : (Keyed.keys ([] : Fields Json)).Nodup := List.nodup_nil
  obtain ⟨v, hload, -, hengine⟩ := loadWith_eq hdir huser hown (fun j hj => by cases hj) hover
  exact ⟨rfl, v, (load_eq (by simp)).trans hload, hengine⟩

end Settings

end Coursework
