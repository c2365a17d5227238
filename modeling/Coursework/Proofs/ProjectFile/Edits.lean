import Coursework.Export
import Coursework.Proofs.ProjectFile.Blocks

namespace Coursework.ProjectFile

variable {p : ProjectFile} {b : Block} {name key value v tag line : Text} {ls : List Text}
  {f : Text → Text} {tag? : Option Text}

def taggedLine (tag value : Text) : Text :=
  entryText "config/name" (['\x22'] ++ plainName value ++ [' ', '('] ++ tag ++ [')', '\x22'])

def tagLine? (tag line : Text) : Option Text :=
  (Text.after? "config/name=" line).map (taggedLine tag)

def namesScene (line : Text) : Bool := (Text.after? "run/main_scene=" line).isSome

def editLines (plugins : Bool) (tag : Option Text) (scene : Bool) (ls : List Text) : List Text :=
  let ls := if plugins then
      changeLines "autoload" (fun _ => []) (changeLines "editor_plugins" (fun _ => []) ls)
    else ls
  let ls := match tag with
    | some tag => changeLines "application" (List.replaceF (tagLine? tag)) ls
    | none => ls
  if scene then changeLines "application" (List.eraseP namesScene) ls else ls

def edit (plugins : Bool) (tag : Option Text) (scene : Bool) (p : ProjectFile) : ProjectFile :=
  let p := if plugins then p.stripPlugins.1 else p
  let p := match tag with
    | some tag => (p.tagName tag).1
    | none => p
  if scene then p.removeMainScene.1 else p

theorem editProject_eq (v : Export.Variant) (plugins : Bool) (p : ProjectFile) :
    (Export.editProject v plugins p).1 = edit plugins (some v.tag) (!v.keepsMainScene) p := by
  rw [Export.editProject, edit]
  cases plugins <;> cases v.keepsMainScene <;> rfl

theorem stripPlugins_blocks (p : ProjectFile) : p.stripPlugins.1.blocks =
    (p.blocks.eraseP (·.name == "editor_plugins".toList)).eraseP
      (·.name == "autoload".toList) := by
  simp only [stripPlugins, pluginBlocks, List.foldl_cons, List.foldl_nil, removeBlock]
  cases p.hasBlock "editor_plugins" <;> simp only <;> split
  all_goals next h => rw [← (Prod.mk.inj h).1]

theorem Cut.stripPlugins (h : Cut p.blocks) : Cut p.stripPlugins.1.blocks := by
  rw [stripPlugins_blocks]
  exact (h.eraseP (by decide)).eraseP (by decide)

theorem Cut.lines_stripPlugins (h : Cut p.blocks) : p.stripPlugins.1.lines =
    changeLines "autoload" (fun _ => []) (changeLines "editor_plugins" (fun _ => []) p.lines) := by
  have hcut : Cut (p.blocks.eraseP (·.name == "editor_plugins".toList)) := h.eraseP (by decide)
  rw [lines, stripPlugins_blocks, hcut.lines_eraseP (by decide), h.lines_eraseP (by decide)]
  rfl

theorem findIdx?_congr {α : Type} {xs : List α} {q r : α → Bool} (h : ∀ x ∈ xs, q x = r x) :
    xs.findIdx? q = xs.findIdx? r := by
  induction xs with
  | nil => rfl
  | cons x xs ih =>
    rw [List.forall_mem_cons] at h
    rw [List.findIdx?_cons, List.findIdx?_cons, h.1, ih h.2]

theorem replaceF_eq_set {α : Type} {xs : List α} {g : α → Option α} {q : α → Bool} {i : Nat}
    {x y : α} (hi : xs.findIdx? q = some i) (hx : xs[i]? = some x)
    (hg : ∀ x ∈ xs, (g x).isSome = q x) (hy : g x = some y) : xs.replaceF g = xs.set i y := by
  induction xs generalizing i with
  | nil => cases hi
  | cons a xs ih =>
    rw [List.forall_mem_cons] at hg
    rw [List.findIdx?_cons] at hi
    split at hi
    · obtain rfl := Option.some.inj hi
      obtain rfl := Option.some.inj hx
      rw [List.replaceF_cons_of_some _ hy, List.set_cons_zero]
    · next hq =>
      obtain ⟨j, hj, rfl⟩ := Option.map_eq_some_iff.mp hi
      have hnone : g a = none := by
        rw [← Option.not_isSome_iff_eq_none, hg.1]
        exact hq
      rw [List.replaceF_cons_of_none _ hnone, List.set_cons_succ, ih hj hx hg.2]

theorem mem_replaceF {α : Type} {xs : List α} {g : α → Option α} {y : α}
    (h : y ∈ xs.replaceF g) : y ∈ xs ∨ ∃ x ∈ xs, g x = some y := by
  induction xs with
  | nil => cases h
  | cons x xs ih =>
    cases hx : g x with
    | some z =>
      rw [List.replaceF_cons_of_some _ hx] at h
      rcases List.mem_cons.mp h with rfl | h
      · exact .inr ⟨x, List.mem_cons_self, hx⟩
      · exact .inl (List.mem_cons_of_mem x h)
    | none =>
      rw [List.replaceF_cons_of_none _ hx] at h
      rcases List.mem_cons.mp h with rfl | h
      · exact .inl List.mem_cons_self
      · rcases ih h with h | ⟨z, hz, h⟩
        · exact .inl (List.mem_cons_of_mem x h)
        · exact .inr ⟨z, List.mem_cons_of_mem x hz, h⟩

def atKey (key : Text) (f : Text → Text) (line : Text) : Option Text :=
  (Text.after? (key ++ ['=']) line).map f

theorem atKey_isSome (hk : IsKey key) (h : '\n' ∉ line) :
    (atKey key f line).isSome = hasKey key line := by
  rw [atKey, Option.isSome_map, hasKey_eq hk h]

theorem changeBlock_eq_self {change : Block → Block}
    (h : ∀ b, p.block? name = some b → change b = b) :
    changeBlock name change p.blocks = p.blocks :=
  (changeBlock_congr h).trans (changeBlock_id name p.blocks)

theorem mem_lines_of_block? (h : p.block? name = some b) (hl : line ∈ b.lines) : line ∈ p.lines :=
  List.mem_flatMap.mpr ⟨b, List.mem_of_find?_eq_some h, hl⟩

theorem value?_eq_none (h : p.value? name key = none) (hb : p.block? name = some b) :
    ∀ l ∈ b.lines, hasKey key l = false := by
  rw [value?, hb, Option.bind_some, Block.value?] at h
  cases hi : b.keyIndex? key with
  | none => exact List.findIdx?_eq_none_iff.mp hi
  | some i =>
    obtain ⟨hlt, hkey, -⟩ := List.findIdx?_eq_some_iff_getElem.mp hi
    obtain ⟨v, hv⟩ := hasKey_iff.mp hkey
    simp [hi, hlt, hv] at h

theorem value?_eq_some (h : p.value? name key = some v) : ∃ b i l, p.block? name = some b ∧
    b.keyIndex? key = some i ∧ b.lines[i]? = some l ∧ keyValue? l = some (key, v) := by
  obtain ⟨b, hb, h⟩ := Option.bind_eq_some_iff.mp h
  obtain ⟨i, hi, h⟩ := Option.bind_eq_some_iff.mp h
  obtain ⟨l, hl, h⟩ := Option.bind_eq_some_iff.mp h
  obtain ⟨e, he, h⟩ := Option.bind_eq_some_iff.mp h
  obtain ⟨hlt, hkey, -⟩ := List.findIdx?_eq_some_iff_getElem.mp hi
  rw [List.getElem?_eq_getElem hlt] at hl
  obtain ⟨w, hw⟩ := hasKey_iff.mp hkey
  obtain rfl := Option.some.inj hl
  obtain rfl := Option.some.inj (hw.symm.trans he)
  obtain rfl : w = v := Option.some.inj h
  exact ⟨b, i, _, hb, hi, List.getElem?_eq_getElem hlt, hw⟩

section

variable (hk : IsKey key) (h : ∀ l ∈ p.lines, '\n' ∉ l)

include hk h

theorem replaceF_atKey_of_none (hv : p.value? name key = none) :
    changeBlock name (onLines (List.replaceF (atKey key f))) p.blocks = p.blocks := by
  refine changeBlock_eq_self fun b hb => ?_
  rw [onLines, List.replaceF_of_forall_none fun l hl => ?_]
  rw [← Option.not_isSome_iff_eq_none, atKey_isSome hk (h l (mem_lines_of_block? hb hl)),
    value?_eq_none hv hb l hl]
  exact Bool.false_ne_true

theorem replaceF_atKey_of_some (hv : p.value? name key = some v) (hf : f v = entryText key value) :
    changeBlock name (onLines (List.replaceF (atKey key f))) p.blocks =
      (p.setValue name key value).blocks := by
  obtain ⟨b, i, l, hb, hi, hl, hkey⟩ := value?_eq_some hv
  have hhas : p.hasBlock name = true := by
    rw [hasBlock, hb]
    rfl
  rw [setValue, if_pos hhas]
  refine changeBlock_congr fun c hc => ?_
  obtain rfl := Option.some.inj (hb.symm.trans hc)
  have hplain : '\n' ∉ l := h l (mem_lines_of_block? hb (List.mem_of_getElem? hl))
  have hat : atKey key f l = some (entryText key value) := by
    rw [atKey, (keyValue?_iff_after? hk hplain).mp hkey, Option.map_some, hf]
  rw [onLines, Block.setValue, hi, replaceF_eq_set hi hl (fun m hm => ?_) hat]
  exact atKey_isSome hk (h m (mem_lines_of_block? hb hm))

end

theorem removeKey_blocks {gone : Text → Bool} (h : ∀ l ∈ p.lines, hasKey key l = gone l) :
    (p.removeKey name key).1.blocks = changeBlock name (onLines (List.eraseP gone)) p.blocks := by
  have hgone : ∀ b, p.block? name = some b → b.lines.findIdx? gone = b.keyIndex? key := fun b hb =>
    findIdx?_congr fun l hl => (h l (mem_lines_of_block? hb hl)).symm
  rw [removeKey]
  cases hi : p.keyIndex? name key with
  | none =>
    refine (changeBlock_eq_self fun b hb => ?_).symm
    rw [keyIndex?, hb, Option.bind_some] at hi
    rw [onLines, List.eraseP_eq_eraseIdx, hgone b hb, hi]
  | some i =>
    refine changeBlock_congr fun b hb => ?_
    have hb' : p.block? name = some b := hb
    rw [keyIndex?, hb', Option.bind_some] at hi
    rw [onLines, List.eraseP_eq_eraseIdx, hgone b hb', hi]

theorem isKey_name : IsKey "config/name" := ⟨⟨'c', _, rfl, by decide⟩, by decide⟩

theorem isKey_scene : IsKey "run/main_scene" := ⟨⟨'r', _, rfl, by decide⟩, by decide⟩

theorem tagLine?_eq (tag : Text) : tagLine? tag = atKey "config/name" (taggedLine tag) := by
  funext l
  have hkey : ("config/name" : Text) ++ ['='] = "config/name=" := by decide
  rw [tagLine?, atKey, hkey]

theorem taggedLine_eq (tag value : Text) : taggedLine tag value =
    entryText "config/name" (['\x22'] ++ (plainName value ++ [' ', '('] ++ tag ++ [')']) ++
      ['\x22']) := by
  rw [taggedLine]
  simp only [List.append_assoc, List.cons_append, List.nil_append]

theorem tagName_blocks (h : ∀ l ∈ p.lines, '\n' ∉ l) (tag : Text) : (p.tagName tag).1.blocks =
    changeBlock "application" (onLines (List.replaceF (tagLine? tag))) p.blocks := by
  rw [tagLine?_eq, tagName]
  cases hv : p.value? "application" "config/name" with
  | none => exact (replaceF_atKey_of_none isKey_name h hv).symm
  | some v => exact (replaceF_atKey_of_some isKey_name h hv (taggedLine_eq tag v)).symm

theorem head?_taggedLine (tag v : Text) : (taggedLine tag v).head? = some 'c' := by
  rw [taggedLine, entryText, List.append_assoc]
  rfl

theorem getLast?_taggedLine (tag v : Text) : (taggedLine tag v).getLast? = some '\x22' := by
  rw [taggedLine, entryText, List.getLast?_append_of_ne_nil _ (by simp),
    List.getLast?_append_of_ne_nil _ (by simp)]
  rfl

theorem header?_eq_none {c : Char} (h : line.head? = some c) (hc : c ≠ '[') :
    header? line = none := by
  rw [header?.eq_def]
  split
  · exact absurd (Option.some.inj h).symm hc
  · rfl

theorem mem_replaceF_tagLine? (h : line ∈ ls.replaceF (tagLine? tag)) :
    line ∈ ls ∨ ∃ v, line = taggedLine tag v := by
  refine (mem_replaceF h).imp_right fun ⟨l, _, hl⟩ => ?_
  obtain ⟨v, -, hv⟩ := Option.map_eq_some_iff.mp hl
  exact ⟨v, hv.symm⟩

theorem Block.Headed.replaceF (h : b.Headed) (tag : Text) :
    (onLines (List.replaceF (tagLine? tag)) b).Headed := by
  obtain ⟨l, ls, hb, hl, hls⟩ := h
  -- a header starts with a bracket, the line with the name does not
  have hnone : tagLine? tag l = none := by
    cases ht : tagLine? tag l with
    | none => rfl
    | some m =>
      obtain ⟨v, hv, -⟩ := Option.map_eq_some_iff.mp ht
      rw [Text.after?_eq_some_iff.mp hv, header?_eq_none rfl (by decide)] at hl
      cases hl
  refine ⟨l, ls.replaceF (tagLine? tag), ?_, hl, fun m hm => ?_⟩
  · rw [onLines, hb, List.replaceF_cons_of_none _ hnone]
  · rcases mem_replaceF_tagLine? hm with hm | ⟨v, rfl⟩
    · exact hls m hm
    · exact header?_eq_none (head?_taggedLine tag v) (by decide)

def Written (tag? : Option Text) (line : Text) : Prop :=
  '\n' ∉ line ∨ ∃ tag ∈ tag?, ∃ v, line = taggedLine tag v

theorem Written.getLast? (h : Written tag? line) :
    line.getLast? ≠ some '\n' := by
  rcases h with h | ⟨tag, -, v, rfl⟩
  · exact fun hl => h (List.mem_of_getLast? hl)
  · rw [getLast?_taggedLine]
    decide

theorem Written.hasKey_scene (h : Written tag? line) :
    hasKey "run/main_scene" line = namesScene line := by
  have hkey : ("run/main_scene" : Text) ++ ['='] = "run/main_scene=" := by decide
  rw [namesScene, ← hkey]
  rcases h with h | ⟨tag, -, v, rfl⟩
  · exact hasKey_eq isKey_scene h
  · have hno : ∀ s, taggedLine tag v ≠ "run/main_scene" ++ s := fun s hs => by
      have hhead := head?_taggedLine tag v
      rw [hs] at hhead
      exact absurd (Option.some.inj hhead) (by decide)
    rw [Bool.eq_iff_iff, hasKey_iff, Option.isSome_iff_exists]
    constructor
    · rintro ⟨w, hw⟩
      obtain ⟨s, hs, -⟩ := (keyValue?_eq_some_iff isKey_scene).mp hw
      exact absurd hs (hno _)
    · rintro ⟨w, hw⟩
      have hs := Text.after?_eq_some_iff.mp hw
      rw [List.append_assoc] at hs
      exact absurd hs (hno _)

structure Holds (tag? : Option Text) (p : ProjectFile) (ls : List Text) : Prop where
  cut : Cut p.blocks
  lines : p.lines = ls
  written : ∀ l ∈ ls, Written tag? l

theorem holds_read (s : Text) : Holds none (read s) (Text.lines s) where
  cut := cut_read s
  lines := lines_read s
  written _ hl := .inl (Text.unbroken_of_mem_lines hl).not_mem_lineFeed

theorem Holds.plain (h : Holds none p ls) : ∀ l ∈ p.lines, '\n' ∉ l := fun l hl =>
  (h.written l (h.lines ▸ hl)).resolve_right fun ⟨_, ht, _⟩ => nomatch ht

theorem Holds.stripPlugins (h : Holds none p ls) : Holds none p.stripPlugins.1
    (changeLines "autoload" (fun _ => []) (changeLines "editor_plugins" (fun _ => []) ls)) where
  cut := h.cut.stripPlugins
  lines := by rw [h.cut.lines_stripPlugins, h.lines]
  written := changeLines_forall (changeLines_forall h.written (by simp)) (by simp)

theorem Holds.tagName (h : Holds none p ls) (tag : Text) : Holds (some tag) (p.tagName tag).1
    (changeLines "application" (List.replaceF (tagLine? tag)) ls) where
  cut := by
    rw [tagName_blocks h.plain]
    exact h.cut.changeBlock (fun _ => rfl) (fun hn => absurd hn (by decide))
      fun b hb => hb.replaceF tag
  lines := by
    rw [ProjectFile.lines, tagName_blocks h.plain, h.cut.lines_changeBlock (by decide), ← h.lines]
    rfl
  written := by
    refine changeLines_forall (fun l hl => ?_) fun ms hms l hl => ?_
    · exact .inl (h.plain l (h.lines ▸ hl))
    · rcases mem_replaceF_tagLine? hl with hl | hl
      · exact hms l hl
      · exact .inr ⟨tag, rfl, hl⟩

theorem Holds.lines_removeMainScene (h : Holds tag? p ls) :
    p.removeMainScene.1.lines = changeLines "application" (List.eraseP namesScene) ls := by
  have hkey : ∀ l ∈ p.lines, hasKey "run/main_scene" l = namesScene l := fun l hl =>
    (h.written l (h.lines ▸ hl)).hasKey_scene
  rw [removeMainScene, ProjectFile.lines, removeKey_blocks hkey,
    h.cut.lines_changeBlock (by decide), ← h.lines]
  rfl

theorem written_eraseP (h : ∀ l ∈ ls, Written tag? l) :
    ∀ l ∈ changeLines "application" (List.eraseP namesScene) ls, Written tag? l :=
  changeLines_forall h fun _ hms l hl => hms l (List.mem_of_mem_eraseP hl)

theorem lines_edit (s : Text) (plugins : Bool) (tag : Option Text) (scene : Bool) :
    (edit plugins tag scene (read s)).lines = editLines plugins tag scene (Text.lines s) ∧
      ∀ l ∈ editLines plugins tag scene (Text.lines s), Written tag l := by
  have hplugins : ∃ p ls, Holds none p ls ∧
      p = (if plugins then (read s).stripPlugins.1 else read s) ∧
      ls = if plugins then changeLines "autoload" (fun _ => [])
        (changeLines "editor_plugins" (fun _ => []) (Text.lines s)) else Text.lines s := by
    cases plugins with
    | true => exact ⟨_, _, (holds_read s).stripPlugins, rfl, rfl⟩
    | false => exact ⟨_, _, holds_read s, rfl, rfl⟩
  obtain ⟨p, ls, hp, hpeq, hlseq⟩ := hplugins
  rw [edit.eq_def, editLines.eq_def, ← hpeq, ← hlseq]
  have htag : Holds tag (match tag with | some tag => (p.tagName tag).1 | none => p)
      (match tag with
        | some tag => changeLines "application" (List.replaceF (tagLine? tag)) ls
        | none => ls) := by
    cases tag with
    | some tag => exact hp.tagName tag
    | none => exact hp
  cases scene with
  | true => exact ⟨htag.lines_removeMainScene, written_eraseP htag.written⟩
  | false => exact ⟨htag.lines, htag.written⟩

theorem plainName_quoted {u : Text} (h : Text.trim value = '\x22' :: u ++ ['\x22']) :
    plainName value = u := by
  have hlast : ('\x22' :: u ++ ['\x22']).getLast? = some '\x22' := List.getLast?_concat
  rw [plainName, h, if_pos ⟨by simp, rfl, hlast⟩]
  simp

theorem plainName_plain (h : ∀ u, Text.trim value ≠ '\x22' :: u ++ ['\x22']) :
    plainName value = Text.trim value := by
  rw [plainName, if_neg]
  rintro ⟨hlen, hhead, hlast⟩
  obtain ⟨r, hr⟩ := List.getLast?_eq_some_iff.mp hlast
  rw [hr] at hlen hhead
  cases r with
  | nil => exact absurd hlen (by decide)
  | cons c r =>
    obtain rfl := Option.some.inj hhead
    exact h r hr

/-- The text of a project file after some of the edits of a release is made of the lines that it
had, but for those that the edits are about. Empty lines at the end are left out. -/
theorem text_edit (s : Text) (plugins : Bool) (tag : Option Text) (scene : Bool) :
    (edit plugins tag scene (read s)).text =
        Text.join ['\n'] ((editLines plugins tag scene (Text.lines s)).rdropWhile List.isEmpty) ++
          ['\n'] ∧
      (∀ value,
        (∀ u, Text.trim value = '\x22' :: u ++ ['\x22'] → plainName value = u) ∧
        ((∀ u, Text.trim value ≠ '\x22' :: u ++ ['\x22']) → plainName value = Text.trim value)) ∧
      ∀ (v : Export.Variant) (p : ProjectFile),
        (Export.editProject v plugins p).1 = edit plugins (some v.tag) (!v.keepsMainScene) p := by
  refine ⟨?_, fun _ => ⟨fun _ => plainName_quoted, plainName_plain⟩,
    fun v p => editProject_eq v plugins p⟩
  obtain ⟨hlines, hend⟩ := lines_edit s plugins tag scene
  rw [text_eq fun l hl => (hend l (hlines ▸ hl)).getLast?, hlines]

example : (edit true (some "W") true (read
    "[autoload]\na=1\n[application]\nconfig/name=Demo\nrun/main_scene=m\nb=2\n\n")).text =
    "[application]\nconfig/name=\"Demo (W)\"\nb=2\n" := by decide

end Coursework.ProjectFile
