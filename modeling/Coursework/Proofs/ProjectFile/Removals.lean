import Coursework.Proofs.ProjectFile.Values
import Coursework.Proofs.Text.Trimming

namespace Coursework.ProjectFile

variable {p q : ProjectFile} {blocks : List Block} {name key key' tag v : Text}
  {new ls ls' : List Text} {change : Block → Block}

def names (p : ProjectFile) : List Text := p.blocks.map Block.name

def mainScenes (p : ProjectFile) : List (List Text) :=
  (p.blocks.filter (·.name == "application".toList)).map fun b =>
    b.lines.filter (hasKey "run/main_scene")

def SceneFree (p : ProjectFile) : Prop :=
  ∀ b ∈ p.blocks, b.name = "application" → ∀ l ∈ b.lines, hasKey "run/main_scene" l = false

theorem hasBlock_eq_false_iff : p.hasBlock name = false ↔ name ∉ p.names := by
  rw [hasBlock, Option.isSome_eq_false_iff, Option.isNone_iff_eq_none, block?, List.find?_eq_none,
    names, List.mem_map]
  simp only [beq_iff_eq, not_exists, not_and]

theorem sceneFree_iff : SceneFree p ↔ ∀ ls ∈ mainScenes p, ls = [] := by
  simp only [SceneFree, mainScenes, List.forall_mem_map, List.mem_filter, beq_iff_eq, and_imp,
    List.filter_eq_nil_iff, Bool.not_eq_true]

def Block.view (b : Block) : Text × List Text := (b.name, b.lines.filter (hasKey "run/main_scene"))

theorem names_eq_of_view (h : q.blocks.map Block.view = p.blocks.map Block.view) :
    q.names = p.names := by
  have hnames : ∀ p : ProjectFile, p.names = (p.blocks.map Block.view).map Prod.fst := fun p => by
    rw [List.map_map]
    rfl
  rw [hnames, hnames, h]

theorem mainScenes_eq_of_view (h : q.blocks.map Block.view = p.blocks.map Block.view) :
    mainScenes q = mainScenes p := by
  have hscenes : ∀ p : ProjectFile, mainScenes p =
      ((p.blocks.map Block.view).filter (·.1 == "application".toList)).map Prod.snd := fun p => by
    rw [List.filter_map, List.map_map]
    rfl
  rw [hscenes, hscenes, h]

theorem Legible.view_reread (h : p.Legible) :
    (read p.text).blocks.map Block.view = p.blocks.map Block.view := by
  refine h.map_reread fun b => ?_
  rw [Block.view, Block.view, Block.filled, List.filter_filter]
  congr 1
  refine List.filter_congr fun l _ => ?_
  cases l with
  | nil => rfl
  | cons c l => simp

theorem map_changeBlock {α : Type} {f : Block → α} (h : ∀ b, f (change b) = f b) :
    (changeBlock name change blocks).map f = blocks.map f := by
  induction blocks with
  | nil => rfl
  | cons b bs ih =>
    rw [changeBlock]
    split
    · rw [List.map_cons, List.map_cons, h]
    · rw [List.map_cons, List.map_cons, ih]

theorem Exchange.filter_of_ne (h : Exchange key new ls ls') (hne : key' ≠ key)
    (hnew : ∀ l ∈ new, hasKey key l = true) :
    ls'.filter (hasKey key') = ls.filter (hasKey key') := by
  have hnone : ∀ ms : List Text, (∀ l ∈ ms, hasKey key l = true) → ms.filter (hasKey key') = [] :=
    fun ms hms => List.filter_eq_nil_iff.mpr fun l hl => Bool.eq_false_iff.mp
      (valueAt?_eq_none_iff.mp (valueAt?_of_hasKey (hms l hl) hne))
  obtain ⟨front, gone, back, rfl, rfl, -, hgone, -⟩ := h
  simp only [List.filter_append, hnone gone hgone, hnone new hnew]

theorem settable_name : Settable "config/name" := ⟨isKey_name, by decide, by decide⟩

theorem isTitle_application : IsTitle "application" := ⟨by decide, by decide⟩

theorem mem_of_mem_plainName {c : Char} (h : c ∈ plainName v) : c ∈ v := by
  rw [plainName] at h
  split at h
  · exact Text.mem_of_mem_trim (List.mem_of_mem_drop (List.mem_of_mem_dropLast h))
  · exact Text.mem_of_mem_trim h

theorem Legible.unbroken_value (h : p.Legible) (hk : IsKey key) (hv : p.value? name key = some v) :
    Text.Unbroken v := by
  obtain ⟨b, i, l, hb, -, hl, hkey⟩ := value?_eq_some hv
  have hline : Text.Unbroken l := h.unbroken l (mem_lines_of_block? hb (List.mem_of_getElem? hl))
  have hafter := (keyValue?_iff_after? hk hline.not_mem_lineFeed).mp hkey
  refine hline.sub fun c hc => ?_
  rw [Text.after?_eq_some_iff.mp hafter]
  exact List.mem_append_right _ hc

theorem tagName_cases (h : p.Legible) (ht : Text.Unbroken tag) : (p.tagName tag).1 = p ∨
    ∃ v, Text.Unbroken v ∧ p.withBlock "application" = p ∧
      (p.tagName tag).1 = p.setValue "application" "config/name" v := by
  rw [tagName]
  cases hv : p.value? "application" "config/name" with
  | none => exact .inl rfl
  | some v =>
    obtain ⟨b, -, -, hb, -⟩ := value?_eq_some hv
    have hblock : p.hasBlock "application" = true := by rw [hasBlock, hb, Option.isSome_some]
    have hplain : Text.Unbroken (plainName v) :=
      (h.unbroken_value isKey_name hv).sub fun c => mem_of_mem_plainName
    have hmarks : Text.isLineBreak '\x22' = false ∧ Text.isLineBreak ' ' = false ∧
        Text.isLineBreak '(' = false ∧ Text.isLineBreak ')' = false := by decide
    refine .inr ⟨_, ?_, by rw [withBlock, if_pos hblock], rfl⟩
    simp [hplain, ht, hmarks]

theorem Legible.tagName (h : p.Legible) (ht : Text.Unbroken tag) : (p.tagName tag).1.Legible := by
  rcases tagName_cases h ht with he | ⟨v, hv, -, he⟩
  · rwa [he]
  · rw [he]
    exact h.setValue p _ settable_name hv isTitle_application

theorem Legible.view_tagName (h : p.Legible) (ht : Text.Unbroken tag) :
    (p.tagName tag).1.blocks.map Block.view = p.blocks.map Block.view := by
  rcases tagName_cases h ht with he | ⟨v, hv, hblock, he⟩
  · rw [he]
  · rw [he, setValue_blocks, hblock, map_changeBlock fun b => ?_]
    rw [Block.view, Block.view, b.name_setValue,
      (Exchange.setValue b "config/name" v).filter_of_ne (by decide) fun l hl => ?_]
    rw [List.mem_singleton.mp hl, hasKey_entryText isKey_name hv]

theorem Legible.stripPlugins (h : p.Legible) : p.stripPlugins.1.Legible where
  cut := h.cut.stripPlugins
  unbroken l hl := by
    obtain ⟨b, hb, hl⟩ := List.mem_flatMap.mp hl
    rw [stripPlugins_blocks] at hb
    exact h.unbroken l (List.mem_flatMap.mpr ⟨b, List.eraseP_subset (List.eraseP_subset hb), hl⟩)

theorem names_stripPlugins (p : ProjectFile) :
    p.stripPlugins.1.names = (p.names.erase "editor_plugins".toList).erase "autoload".toList := by
  rw [names, names, stripPlugins_blocks, List.erase_eq_eraseP', List.erase_eq_eraseP',
    List.eraseP_map, List.eraseP_map]
  rfl

theorem filter_eraseP_of_disjoint {α : Type} {xs : List α} {gone kept : α → Bool}
    (h : ∀ x, gone x = true → kept x = false) : (xs.eraseP gone).filter kept = xs.filter kept := by
  induction xs with
  | nil => rfl
  | cons x xs ih =>
    cases hx : gone x with
    | true => simp [hx, h x hx]
    | false => simp [hx, List.filter_cons, ih]

theorem mainScenes_stripPlugins (p : ProjectFile) :
    mainScenes p.stripPlugins.1 = mainScenes p := by
  have happ : ∀ name, name ≠ "application".toList → ∀ b : Block, (b.name == name) = true →
      (b.name == "application".toList) = false := fun name hne b hb => by
    rw [beq_eq_false_iff_ne, beq_iff_eq.mp hb]
    exact hne
  rw [mainScenes, mainScenes, stripPlugins_blocks, filter_eraseP_of_disjoint (happ _ (by decide)),
    filter_eraseP_of_disjoint (happ _ (by decide))]

theorem filter_changeBlock (h : ∀ b, (change b).name = b.name) :
    (changeBlock name change blocks).filter (·.name == name) =
      (blocks.filter (·.name == name)).modifyHead change := by
  induction blocks with
  | nil => rfl
  | cons b bs ih =>
    rw [changeBlock]
    by_cases hb : b.name = name
    · simp [hb, h]
    · simp [hb, ih]

theorem names_removeMainScene (p : ProjectFile) : p.removeMainScene.1.names = p.names := by
  have hname : ∀ b, (onLines (List.eraseP (hasKey "run/main_scene")) b).name = b.name :=
    fun _ => rfl
  rw [names, removeMainScene, removeKey_eraseP, map_changeBlock hname, names]

theorem mainScenes_removeMainScene (p : ProjectFile) :
    mainScenes p.removeMainScene.1 = (mainScenes p).modifyHead List.tail := by
  have hname : ∀ b, (onLines (List.eraseP (hasKey "run/main_scene")) b).name = b.name :=
    fun _ => rfl
  rw [mainScenes, removeMainScene, removeKey_eraseP, filter_changeBlock hname, mainScenes]
  cases p.blocks.filter (·.name == "application".toList) with
  | nil => rfl
  | cons b bs =>
    rw [List.modifyHead_cons, List.map_cons, List.map_cons, List.modifyHead_cons, onLines,
      filter_eraseP]

theorem reread_edit (s : Text) (plugins scene : Bool) {tag : Option Text}
    (ht : ∀ w ∈ tag, Text.Unbroken w) :
    let p := read s
    let q := read (edit plugins tag scene p).text
    q.names = (if plugins then
      (p.names.erase "editor_plugins".toList).erase "autoload".toList else p.names) ∧
    mainScenes q = if scene then (mainScenes p).modifyHead List.tail else mainScenes p := by
  intro p q
  let stripped := if plugins then p.stripPlugins.1 else p
  have hstripped : stripped.Legible ∧ stripped.names = (if plugins then
      (p.names.erase "editor_plugins".toList).erase "autoload".toList else p.names) ∧
      mainScenes stripped = mainScenes p := by
    cases plugins with
    | true => exact ⟨(legible_read s).stripPlugins, names_stripPlugins p, mainScenes_stripPlugins p⟩
    | false => exact ⟨legible_read s, rfl, rfl⟩
  obtain ⟨hlegible, hnames, hscenes⟩ := hstripped
  obtain ⟨tagged, hedit, htagged, hview⟩ : ∃ tagged : ProjectFile,
      edit plugins tag scene p = (if scene then tagged.removeMainScene.1 else tagged) ∧
      tagged.Legible ∧ tagged.blocks.map Block.view = stripped.blocks.map Block.view := by
    cases tag with
    | some tag =>
      exact ⟨_, rfl, hlegible.tagName (ht tag rfl), hlegible.view_tagName (ht tag rfl)⟩
    | none => exact ⟨_, rfl, hlegible, rfl⟩
  have hq : q = read (if scene then tagged.removeMainScene.1 else tagged).text :=
    congrArg (fun r => read r.text) hedit
  rw [hq, ← hnames, ← hscenes, ← names_eq_of_view hview, ← mainScenes_eq_of_view hview]
  cases scene with
  | false =>
    have hreread := htagged.view_reread
    exact ⟨names_eq_of_view hreread, mainScenes_eq_of_view hreread⟩
  | true =>
    have hremoved : tagged.removeMainScene.1.Legible := htagged.removeKey (by decide) _
    have hreread := hremoved.view_reread
    exact ⟨(names_eq_of_view hreread).trans (names_removeMainScene tagged),
      (mainScenes_eq_of_view hreread).trans (mainScenes_removeMainScene tagged)⟩

theorem modifyHead_tail_eq_nil_iff {lss : List (List Text)} :
    (∀ ls ∈ lss.modifyHead List.tail, ls = []) ↔
      (∀ ls ∈ lss.head?, ls.length ≤ 1) ∧ ∀ ls ∈ lss.tail, ls = [] := by
  cases lss with
  | nil => simp
  | cons ls lss =>
    rw [List.modifyHead_cons, List.forall_mem_cons, ← List.length_eq_zero_iff, List.length_tail,
      Nat.sub_eq_zero_iff_le]
    simp

/-- After the plugins are taken out, whatever else is edited, a block of theirs is still read if and
only if there were two with its name. After the main scene is taken out, a line with it is still
read in a block of the application if and only if the first such block had two of them or another
one had one. -/
theorem removals_complete_iff (s : Text) (plugins scene : Bool) {tag : Option Text}
    (ht : ∀ w ∈ tag, Text.Unbroken w) :
    let p := read s
    (∀ name ∈ pluginBlocks,
      ((read (edit true tag scene p).text).hasBlock name = false ↔ p.names.count name ≤ 1)) ∧
    (SceneFree (read (edit plugins tag true p).text) ↔
      (∀ ls ∈ (mainScenes p).head?, ls.length ≤ 1) ∧ ∀ ls ∈ (mainScenes p).tail, ls = []) := by
  intro p
  constructor
  · intro name hname
    have hnames := (reread_edit s true scene ht).1
    rw [if_pos rfl] at hnames
    rw [hasBlock_eq_false_iff, hnames, ← List.count_eq_zero]
    have hname : name = "editor_plugins" ∨ name = "autoload" := by simpa [pluginBlocks] using hname
    rcases hname with rfl | rfl
    · rw [List.count_erase_of_ne (by decide), List.count_erase_self, Nat.sub_eq_zero_iff_le]
    · rw [List.count_erase_self, List.count_erase_of_ne (by decide), Nat.sub_eq_zero_iff_le]
  · rw [sceneFree_iff, (reread_edit s plugins true ht).2, if_pos rfl, modifyHead_tail_eq_nil_iff]

def crowdedText : Text :=
  "[editor_plugins]\nx=1\n[autoload]\na=1\n[application]\nconfig/name=\"D\"\nrun/main_scene=m\n" ++
    "[autoload]\nb=2\n[application]\nrun/main_scene=n\n"

theorem removals_complete_iff_crowded :
    let q := read (edit true (some "Workbook") true (read crowdedText)).text
    (∀ w ∈ some "Workbook".toList, Text.Unbroken w) ∧ q.hasBlock "editor_plugins" = false ∧
      q.hasBlock "autoload" ≠ false ∧ ¬SceneFree q := by
  have ht : ∀ w ∈ some "Workbook".toList, Text.Unbroken w := by decide
  obtain ⟨hplugins, hscene⟩ := removals_complete_iff crowdedText true true ht
  refine ⟨ht, (hplugins "editor_plugins" (by decide)).mpr (by decide), ?_, ?_⟩
  · exact mt (hplugins "autoload" (by decide)).mp (by decide)
  · exact mt hscene.mp (by decide)

theorem removals_incomplete :
    (read (read "[autoload]\na=1\n[autoload]\nb=2\n").stripPlugins.1.text).hasBlock "autoload" =
      true ∧
    (read (read "[application]\nrun/main_scene=1\nrun/main_scene=2\n").removeMainScene.1.text).value?
      "application" "run/main_scene" = some "2" := by
  decide

end Coursework.ProjectFile
