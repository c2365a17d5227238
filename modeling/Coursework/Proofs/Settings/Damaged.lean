import Coursework.Proofs.Json.Reading
import Coursework.Proofs.Settings.Loading
import Coursework.Proofs.Text.Pieces

/-!
Settings files with any content: what they count as, and where the settings cannot be loaded.

Bytes that are no text, values that stand too deep in each other, a whole number that is too long,
and a part for this program of which no layer can be made stop the loading. All other damage makes
a file count as an empty one.
-/

namespace Coursework.Settings

variable {s : Surroundings} {t u : FileTree} {p project : Path}
  {overrides fs gs user low : Fields Json} {j : Json} {w : Text}

/-- Whether a settings file can be read. It may be missing, and it need not hold JSON. -/
structure Accepted (t : FileTree) (p : Path) : Prop where
  decodes : ∀ e, t.readText p ≠ .error (.decoding e)
  shallow : ∀ w, t.readText p = .ok w → Json.read w ≠ .error .tooDeep
  short : ∀ w n, t.readText p = .ok w → Json.read w ≠ .error (.tooLong n)

theorem Accepted.of_readText (hw : t.readText p = .ok w) (hdeep : Json.read w ≠ .error .tooDeep)
    (hlong : ∀ n, Json.read w ≠ .error (.tooLong n)) : Accepted t p := by
  refine ⟨by simp [hw], fun v hv => ?_, fun v n hv => ?_⟩
  · rwa [← Except.ok.inj (hw.symm.trans hv)]
  · rw [← Except.ok.inj (hw.symm.trans hv)]
    exact hlong n

def CountsAs (t : FileTree) (p : Path) (fs : Fields Json) : Prop :=
  Holds t p fs ∨ (∀ gs, ¬ Holds t p gs) ∧ fs = []

theorem countsAs_nil (h : ∀ w fs, t.readText p = .ok w → Json.read w ≠ .ok (.object fs)) :
    CountsAs t p [] := by
  by_cases hpath : t.hasPath p = true
  · refine .inr ⟨?_, rfl⟩
    rintro gs (⟨w, hw, hread⟩ | ⟨hnone, -⟩)
    · exact h w gs hw hread
    · rw [hpath] at hnone
      cases hnone
  · exact .inl (.inr ⟨by simpa using hpath, rfl⟩)

theorem countsAs_read (hw : t.readText p = .ok w) (hj : Json.read w = .ok j) :
    CountsAs t p (j.object?.getD []) := by
  cases j with
  | object fs => exact .inl (.inl ⟨w, hw, hj⟩)
  | _ =>
    apply countsAs_nil
    intro v fs hv hread
    rw [← Except.ok.inj (hw.symm.trans hv), hj] at hread
    cases hread

theorem hasPath_of_decoding {e : Utf8.Fault} (h : t.readText p = .error (.decoding e)) :
    t.hasPath p = true := by
  rw [FileTree.readText] at h
  cases hb : t.readBytes p with
  | error e =>
    rw [hb] at h
    cases h
  | ok content => exact hasPath_of_readBytes hb

theorem readObject_cases (t : FileTree) (p : Path) :
    (¬ Accepted t p ∧ ∃ e, readObject t p = .error e) ∨
      Accepted t p ∧ ∃ fs, readObject t p = .ok fs ∧ CountsAs t p fs := by
  rw [readObject]
  rcases hw : t.readText p with (e | e) | w
  · refine .inr ⟨⟨by simp [hw], by simp [hw], by simp [hw]⟩, [], by simp, countsAs_nil ?_⟩
    intro w fs hw'
    rw [hw] at hw'
    cases hw'
  · rw [if_pos (hasPath_of_decoding hw)]
    exact .inl ⟨fun h => h.decodes e hw, _, rfl⟩
  · rw [if_pos (hasPath_of_readText hw)]
    rcases hj : Json.read w with (_ | _ | n) | j
    · refine .inr ⟨.of_readText hw (by simp [hj]) (by simp [hj]), [], by simp only [hj],
        countsAs_nil ?_⟩
      intro v fs hv
      rw [← Except.ok.inj (hw.symm.trans hv), hj]
      simp
    · exact .inl ⟨fun h => h.shallow w hw hj, .tooDeep, by simp only [hj]⟩
    · exact .inl ⟨fun h => h.short w n hw hj, .tooLong n, by simp only [hj]⟩
    · exact .inr ⟨.of_readText hw (by simp [hj]) (by simp [hj]), _, by simp only [hj],
        countsAs_read hw hj⟩

theorem readObject_eq_ok_iff :
    readObject t p = .ok fs ↔ Accepted t p ∧ CountsAs t p fs := by
  rcases readObject_cases t p with ⟨hno, e, he⟩ | ⟨hyes, gs, hgs, hcounts⟩
  · constructor
    · intro h
      rw [he] at h
      cases h
    · exact fun h => absurd h.1 hno
  · constructor
    · intro h
      obtain rfl := Except.ok.inj (hgs.symm.trans h)
      exact ⟨hyes, hcounts⟩
    · rintro ⟨-, h | ⟨hnone, rfl⟩⟩
      · exact h.readObject
      · rcases hcounts with hheld | ⟨-, rfl⟩
        · exact absurd hheld (hnone gs)
        · exact hgs

theorem Accepted.exists_readObject (h : Accepted t p) : ∃ fs, readObject t p = .ok fs := by
  rcases readObject_cases t p with ⟨hno, -⟩ | ⟨-, fs, hfs, -⟩
  · exact absurd h hno
  · exact ⟨fs, hfs⟩

theorem accepted_of_unread {e : FileFault} (hb : t.readBytes p = .error e) : Accepted t p := by
  have hread : t.readText p = .error (.file e) := by rw [FileTree.readText, hb]
  exact ⟨by simp [hread], by simp [hread], by simp [hread]⟩

theorem openings_unifyLineEnds (w : Text) :
    Json.openings (Text.unifyLineEnds w) = Json.openings w :=
  Text.countP_unifyLineEnds (by decide) (by decide) w

theorem overlong_of_unifyLineEnds (h : Json.Overlong (Text.unifyLineEnds w)) :
    Json.Overlong w := by
  obtain ⟨ds, hds, hdigits, hlong⟩ := h
  have hn : '\n' ∉ ds := fun hn => absurd (hdigits _ hn) (by decide)
  exact ⟨ds, Text.isInfix_of_unifyLineEnds hn hds, hdigits, hlong⟩

theorem accepted_of_openings {content : Utf8.Bytes} (hb : t.readBytes p = .ok content)
    (hd : Utf8.decode content = .ok w) (hw : Json.openings w ≤ Json.maxDepth)
    (hshort : ¬ Json.Overlong w) : Accepted t p := by
  have hread : t.readText p = .ok (Text.unifyLineEnds w) := by
    rw [FileTree.readText, hb]
    simp only [hd]
  have hfaults := Json.read_faults (Text.unifyLineEnds w)
  refine .of_readText hread (fun hdeep => ?_) fun n hlong => ?_
  · have hlt := hfaults.1 hdeep
    rw [openings_unifyLineEnds] at hlt
    omega
  · exact hshort (overlong_of_unifyLineEnds (hfaults.2 n hlong))

def IsPair (j : Json) : Prop :=
  ∃ k v, j.parts? = some [k, v] ∧ k.list? = none ∧ k.object? = none

def IsLayer : Json → Prop
  | .object _ => True
  | .list xs => ∀ x ∈ xs, IsPair x
  | .text s => s = []
  | _ => False

theorem pairOf_ok_iff (i : Nat) (j : Json) : (∃ ps, pairOf i j = .ok ps) ↔ IsPair j := by
  rw [pairOf, IsPair]
  split <;> simp_all [Json.list?, Json.object?]

theorem pairsFrom_ok_iff (i : Nat) (js : List Json) :
    (∃ ps, pairsFrom i js = .ok ps) ↔ ∀ j ∈ js, IsPair j := by
  induction js generalizing i with
  | nil => simp [pairsFrom]
  | cons j js ih =>
    rw [List.forall_mem_cons, ← pairOf_ok_iff i j, ← ih (i + 1), pairsFrom]
    cases pairOf i j with
    | error e => simp [bind, Except.bind]
    | ok p => cases pairsFrom (i + 1) js <;> simp [bind, Except.bind, pure, Except.pure]

theorem layerOf_ok_iff (j : Json) : (∃ fs, layerOf j = .ok fs) ↔ IsLayer j := by
  cases j with
  | object fs => exact ⟨fun _ => trivial, fun _ => ⟨fs, rfl⟩⟩
  | list xs => exact pairsFrom_ok_iff 0 xs
  | text w =>
    -- Each part is a text of one character, so that none of them is a pair.
    refine (pairsFrom_ok_iff 0 (w.map fun c => .text [c])).trans ?_
    cases w with
    | nil => simp [IsLayer]
    | cons c w => simp [IsLayer, IsPair, Json.parts?]
  | _ => simp [layerOf, IsLayer, Json.parts?]

def builderValue (user : Fields Json) : Json := (Keyed.get? user "builder").getD (.object [])

theorem userLayer_ok_iff : (∃ fs, userLayer user = .ok fs) ↔ IsLayer (builderValue user) := by
  rw [← layerOf_ok_iff, userLayer, ← builderValue]
  cases layerOf (builderValue user) <;> simp

theorem loadUser_ok_iff : (loadUser s t).2 = .ok fs ↔
    (t.ensureDirectories (userDirectory s)).2 = none ∧
      readObject (t.ensureDirectories (userDirectory s)).1 (userFile s) = .ok fs := by
  rw [loadUser, withUserFile]
  rcases t.ensureDirectories (userDirectory s) with ⟨u, _ | e⟩
  · simp
  · simp

structure Loadable (s : Surroundings) (t : FileTree) (project : Path) : Prop where
  made : (t.ensureDirectories (userDirectory s)).2 = none
  user : Accepted (t.ensureDirectories (userDirectory s)).1 (userFile s)
  layer : ∀ fs, CountsAs (t.ensureDirectories (userDirectory s)).1 (userFile s) fs →
    IsLayer (builderValue fs)
  own : Accepted (t.ensureDirectories (userDirectory s)).1 (projectSettings project)

theorem Loadable.of_loadWith {v : Values} (h : (loadWith s t project overrides).2 = .ok v) :
    Loadable s t project := by
  rcases hm : t.ensureDirectories (userDirectory s) with ⟨u, _ | e⟩
  · cases hr : readObject u (userFile s) with
    | error e =>
      have hload : loadUser s t = (u, .error e) := by
        rw [loadUser, withUserFile, hm]
        simp only [hr]
      rw [Settings.loadWith, hload] at h
      cases h
    | ok user =>
      rw [Settings.loadWith, loadUser_eq hm hr] at h
      cases hl : userLayer user with
      | error e =>
        simp only [hl] at h
        cases h
      | ok low =>
        cases ho : readObject u (projectSettings project) with
        | error e =>
          simp only [hl, ho] at h
          cases h
        | ok own =>
          refine ⟨by rw [hm], ?_, fun fs hfs => ?_, ?_⟩
          · rw [hm]
            exact (readObject_eq_ok_iff.mp hr).1
          · rw [hm] at hfs
            have hsame := readObject_eq_ok_iff.mpr ⟨(readObject_eq_ok_iff.mp hr).1, hfs⟩
            obtain rfl := Except.ok.inj (hr.symm.trans hsame)
            exact userLayer_ok_iff.mp ⟨low, hl⟩
          · rw [hm]
            exact (readObject_eq_ok_iff.mp ho).1
  · have hload : loadUser s t = (u, .error (.file e)) := by rw [loadUser, withUserFile, hm]
    rw [Settings.loadWith, hload] at h
    cases h

theorem Loadable.loadWith (h : Loadable s t project) (overrides : Fields Json) :
    ∃ v, (loadWith s t project overrides).2 = .ok v := by
  rcases hm : t.ensureDirectories (userDirectory s) with ⟨u, e⟩
  obtain ⟨hmade, haccepted, hlayer, hown⟩ := h
  rw [hm] at hmade haccepted hlayer hown
  obtain rfl : e = none := hmade
  obtain ⟨user, huser⟩ := haccepted.exists_readObject
  obtain ⟨low, hlow⟩ := userLayer_ok_iff.mpr (hlayer user (readObject_eq_ok_iff.mp huser).2)
  obtain ⟨own, hown⟩ := hown.exists_readObject
  have hengine := engineOf_eq (FileTree.hasDirectory_of_ensureDirectories hm) huser
  rw [Settings.loadWith, loadUser_eq hm huser]
  simp only [hlow, hown]
  split
  · simp only [hengine]
    exact ⟨_, rfl⟩
  · exact ⟨_, rfl⟩

theorem load_ok_iff : (∃ v, (load s t project overrides).2 = .ok v) ↔
    (∀ f ∈ overrides, f.1 ∉ reservedNames) ∧ Loadable s t project := by
  by_cases hnames : ∀ f ∈ overrides, f.1 ∉ reservedNames
  · rw [load_eq hnames]
    constructor
    · rintro ⟨v, hv⟩
      exact ⟨hnames, .of_loadWith hv⟩
    · exact fun h => h.2.loadWith overrides
  · have hreserved : (overrides.any fun f => reservedNames.contains f.1) = true := by
      simpa using hnames
    rw [load, if_pos hreserved]
    constructor
    · rintro ⟨v, hv⟩
      cases hv
    · exact fun h => absurd h.1 hnames

/-- Whatever the two files hold: each counts as the object in it, or as an empty one, exactly if it
is accepted, and the settings are there exactly if both are and a layer can be made of the part for
this program. A file that cannot be opened is accepted, and so is any text in which no more brackets
open than values may stand in each other and no more digits follow each other than a whole number
may have. -/
theorem load_returns_iff (s : Surroundings) (t : FileTree) (project : Path)
    (overrides : Fields Json) :
    (∀ fs, (loadUser s t).2 = .ok fs ↔
      (t.ensureDirectories (userDirectory s)).2 = none ∧
        Accepted (t.ensureDirectories (userDirectory s)).1 (userFile s) ∧
        CountsAs (t.ensureDirectories (userDirectory s)).1 (userFile s) fs) ∧
    (∀ fs, readObject t (projectSettings project) = .ok fs ↔
      Accepted t (projectSettings project) ∧ CountsAs t (projectSettings project) fs) ∧
    ((∃ v, (load s t project overrides).2 = .ok v) ↔
      (∀ f ∈ overrides, f.1 ∉ reservedNames) ∧ Loadable s t project) ∧
    ∀ u p, ((∃ e, u.readBytes p = .error e) ∨ ∃ content w, u.readBytes p = .ok content ∧
      Utf8.decode content = .ok w ∧ Json.openings w ≤ Json.maxDepth ∧ ¬ Json.Overlong w) →
      Accepted u p := by
  refine ⟨fun fs => ?_, fun fs => readObject_eq_ok_iff, load_ok_iff, ?_⟩
  · rw [loadUser_ok_iff, readObject_eq_ok_iff]
  · rintro u p (⟨e, hb⟩ | ⟨content, w, hb, hd, hw, hshort⟩)
    · exact accepted_of_unread hb
    · exact accepted_of_openings hb hd hw hshort

def pairsText : Text :=
  "\x7b\"builder\": [[\"practices_dir\", \"p\"], \"ab\"]\x7d"

def pairsLayer : Json := .list [.list [.text "practices_dir", .text "p"], .text "ab"]

def brokenText : Text := "\x7bnot json"

def pairsTree : FileTree := layeredTree pairsText brokenText

theorem not_overlong (h : w.length ≤ Json.maxDigits) : ¬ Json.Overlong w := by
  rintro ⟨ds, hds, -, hlong⟩
  have hle := hds.length_le
  omega

theorem load_returns_iff_broken :
    CountsAs pairsTree (projectSettings (Path.ofText "/w")) [] ∧
    ∃ v, (load layeredSurroundings pairsTree (Path.ofText "/w") []).2 = .ok v := by
  obtain ⟨-, hobject, hload, haccepted⟩ :=
    load_returns_iff layeredSurroundings pairsTree (Path.ofText "/w") []
  have hmade : pairsTree.ensureDirectories (userDirectory layeredSurroundings) =
      (pairsTree, none) := by decide +kernel
  have huser : Accepted pairsTree (userFile layeredSurroundings) :=
    haccepted _ _ (.inr ⟨_, pairsText, rfl, by decide +kernel, by decide +kernel,
      not_overlong (by decide +kernel)⟩)
  have hown : Accepted pairsTree (projectSettings (Path.ofText "/w")) :=
    haccepted _ _ (.inr ⟨_, brokenText, rfl, by decide +kernel, by decide +kernel,
      not_overlong (by decide +kernel)⟩)
  have hheld : Holds pairsTree (userFile layeredSurroundings) [("builder", pairsLayer)] :=
    .inl ⟨pairsText, by decide +kernel, by cbv⟩
  have hbroken : readObject pairsTree (projectSettings (Path.ofText "/w")) = .ok [] := by cbv
  refine ⟨((hobject []).mp hbroken).2, hload.mpr ⟨by simp, ?_⟩⟩
  refine ⟨by rw [hmade], by rwa [hmade], fun fs hfs => ?_, by rwa [hmade]⟩
  rw [hmade] at hfs
  have hsame := readObject_eq_ok_iff.mpr ⟨huser, hfs⟩
  obtain rfl := Except.ok.inj (hheld.readObject.symm.trans hsame)
  intro x hx
  simp only [List.mem_cons, List.not_mem_nil, or_false] at hx
  rcases hx with rfl | rfl
  · exact ⟨_, _, rfl, rfl, rfl⟩
  · exact ⟨_, _, rfl, rfl, rfl⟩

def garbledTree : FileTree :=
  (layeredTree emptyObject []).put ["w", "practicegen.json"] (.file [0xff] 5)

def nullText : Text := "\x7b\"builder\": null\x7d"

theorem damaged_files_stop :
    readObject garbledTree (projectSettings (Path.ofText "/w")) =
      .error (.decoding ⟨0xff, 0, 1, .invalidStart⟩) ∧
    (load layeredSurroundings garbledTree (Path.ofText "/w") []).2 =
      .error (.decoding ⟨0xff, 0, 1, .invalidStart⟩) ∧
    (load layeredSurroundings (layeredTree nullText emptyObject) (Path.ofText "/w") []).2 =
      .error (.layer .notIterable) := by
  refine ⟨by cbv, by cbv, by cbv⟩

end Coursework.Settings
