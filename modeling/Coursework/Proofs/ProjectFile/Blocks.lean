import Mathlib.Data.List.DropRight
import Coursework.ProjectFile
import Coursework.Proofs.Text.Pieces

namespace Coursework

namespace Text

theorem rdropWhile_join {ls : List Text} (h : ∀ l ∈ ls, l.getLast? ≠ some '\n') :
    dropEndWhile (· == '\n') (join ['\n'] ls) = join ['\n'] (ls.rdropWhile List.isEmpty) := by
  induction ls using List.reverseRecOn with
  | nil => rfl
  | append_singleton ls l ih =>
    have hls : ∀ m ∈ ls, m.getLast? ≠ some '\n' := fun m hm => h m (List.mem_append_left _ hm)
    have hjoin : ∃ u, join ['\n'] (ls ++ [l]) = u ++ l ∧ (l = [] → dropEndWhile (· == '\n') u =
        dropEndWhile (· == '\n') (join ['\n'] ls)) := by
      by_cases hnil : ls = []
      · exact ⟨[], by simp [hnil, join], fun _ => by simp [hnil, join]⟩
      · refine ⟨join ['\n'] ls ++ ['\n'], by simp [join_append _ hnil, join], fun _ => ?_⟩
        exact List.rdropWhile_concat_pos _ _ _ rfl
    obtain ⟨u, hu, hdrop⟩ := hjoin
    rw [hu]
    by_cases hl : l = []
    · rw [List.rdropWhile_concat_pos _ _ _ (by simp [hl]), hl, List.append_nil, hdrop hl, ih hls]
    · rw [List.rdropWhile_concat_neg _ _ _ (by simp [hl]), hu]
      refine List.rdropWhile_eq_self_iff.mpr fun hne => ?_
      have hlast := h l List.mem_concat_self
      rw [List.getLast?_eq_some_getLast hl] at hlast
      rw [List.getLast_append_of_ne_nil hne hl]
      simpa using hlast

end Text

namespace ProjectFile

variable {p : ProjectFile} {b : Block} {bs blocks : List Block} {name key v line : Text}
  {ls as rest : List Text} {change : List Text → List Text}

def lines (p : ProjectFile) : List Text := p.blocks.flatMap Block.lines

theorem text_eq (h : ∀ l ∈ p.lines, l.getLast? ≠ some '\n') :
    p.text = Text.join ['\n'] (p.lines.rdropWhile List.isEmpty) ++ ['\n'] := by
  rw [text, ← Text.rdropWhile_join h]
  rfl

def Block.Headed (b : Block) : Prop :=
  ∃ l ls, b.lines = l :: ls ∧ header? l = some b.name ∧ ∀ m ∈ ls, header? m = none

def Cut (blocks : List Block) : Prop :=
  ∃ ls bs, blocks = ⟨[], ls⟩ :: bs ∧ (∀ l ∈ ls, header? l = none) ∧ ∀ b ∈ bs, b.Headed

theorem lines_addLine (blocks : List Block) (line : Text) :
    (addLine blocks line).flatMap Block.lines = blocks.flatMap Block.lines ++ [line] := by
  rw [addLine]
  cases header? line with
  | some name => simp
  | none =>
    rcases List.eq_nil_or_concat blocks with rfl | ⟨bs, b, rfl⟩
    · rfl
    · simp

theorem Cut.addLine (h : Cut blocks) (line : Text) : Cut (addLine blocks line) := by
  obtain ⟨ls, bs, rfl, hls, hbs⟩ := h
  rw [ProjectFile.addLine]
  cases hl : header? line with
  | some name =>
    refine ⟨ls, bs ++ [⟨name, [line]⟩], rfl, hls, fun b hb => ?_⟩
    rcases List.mem_append.mp hb with hb | hb
    · exact hbs b hb
    · rw [List.mem_singleton.mp hb]
      exact ⟨line, [], rfl, hl, fun m hm => absurd hm List.not_mem_nil⟩
  | none =>
    rcases List.eq_nil_or_concat bs with rfl | ⟨cs, b, rfl⟩
    · refine ⟨ls ++ [line], [], rfl, fun m hm => ?_, fun b hb => absurd hb List.not_mem_nil⟩
      rcases List.mem_append.mp hm with hm | hm
      · exact hls m hm
      · rw [List.mem_singleton.mp hm, hl]
    · simp only [List.concat_eq_append] at hbs ⊢
      rw [← List.cons_append, List.getLast?_concat, List.dropLast_concat]
      refine ⟨ls, cs ++ [⟨b.name, b.lines ++ [line]⟩], rfl, hls, fun c hc => ?_⟩
      rcases List.mem_append.mp hc with hc | hc
      · exact hbs c (List.mem_append_left _ hc)
      · rw [List.mem_singleton.mp hc]
        obtain ⟨l, ms, hms, hname, hno⟩ := hbs b List.mem_concat_self
        refine ⟨l, ms ++ [line], by simp [hms], hname, fun m hm => ?_⟩
        rcases List.mem_append.mp hm with hm | hm
        · exact hno m hm
        · rw [List.mem_singleton.mp hm, hl]

theorem cut_read (s : Text) : Cut (read s).blocks := by
  have hfold : ∀ (ls : List Text) blocks, Cut blocks → Cut (ls.foldl addLine blocks) := by
    intro ls
    induction ls with
    | nil => exact fun blocks h => h
    | cons l ls ih => exact fun blocks h => ih _ (h.addLine l)
  exact hfold _ _ ⟨[], [], rfl, by simp, by simp⟩

theorem lines_read (s : Text) : (read s).lines = Text.lines s := by
  have hfold : ∀ (ls : List Text) (blocks : List Block),
      (ls.foldl addLine blocks).flatMap Block.lines = blocks.flatMap Block.lines ++ ls := by
    intro ls
    induction ls with
    | nil => simp
    | cons l ls ih =>
      intro blocks
      rw [List.foldl_cons, ih, lines_addLine]
      simp
  exact hfold _ _

def changeLines (name : Text) (change : List Text → List Text) : List Text → List Text
  | [] => []
  | l :: ls =>
    if header? l = some name then
      change (l :: ls.takeWhile fun m => (header? m).isNone) ++
        ls.dropWhile fun m => (header? m).isNone
    else l :: changeLines name change ls

theorem changeLines_append (h : ∀ l ∈ as, header? l ≠ some name) (ls : List Text) :
    changeLines name change (as ++ ls) = as ++ changeLines name change ls := by
  induction as with
  | nil => rfl
  | cons a as ih =>
    rw [List.cons_append, changeLines, if_neg (h a List.mem_cons_self),
      ih fun l hl => h l (List.mem_cons_of_mem _ hl)]
    rfl

theorem changeLines_block (h : header? line = some name) (hls : ∀ l ∈ ls, header? l = none)
    (hrest : ∀ l ∈ rest.head?, header? l ≠ none) :
    changeLines name change (line :: ls ++ rest) = change (line :: ls) ++ rest := by
  have hall : ∀ l ∈ ls, (header? l).isNone = true := fun l hl => by rw [hls l hl]; rfl
  have hstop : rest.takeWhile (fun m => (header? m).isNone) = [] ∧
      rest.dropWhile (fun m => (header? m).isNone) = rest := by
    cases rest with
    | nil => exact ⟨rfl, rfl⟩
    | cons r rest =>
      have hr : ¬(header? r).isNone = true := by simpa using hrest r rfl
      exact ⟨List.takeWhile_cons_of_neg hr, List.dropWhile_cons_of_neg hr⟩
  rw [List.cons_append, changeLines, if_pos h, List.takeWhile_append_of_pos hall,
    List.dropWhile_append_of_pos hall, hstop.1, hstop.2, List.append_nil]

theorem changeLines_forall {P : Text → Prop} (h : ∀ l ∈ ls, P l)
    (hc : ∀ ms, (∀ m ∈ ms, P m) → ∀ m ∈ change ms, P m) :
    ∀ l ∈ changeLines name change ls, P l := by
  induction ls with
  | nil => exact fun l hl => absurd hl List.not_mem_nil
  | cons a ls ih =>
    have hls := fun l hl => h l (List.mem_cons_of_mem a hl)
    intro l hl
    rw [changeLines] at hl
    split at hl
    · rcases List.mem_append.mp hl with hl | hl
      · refine hc _ (fun m hm => ?_) l hl
        rcases List.mem_cons.mp hm with rfl | hm
        · exact h m List.mem_cons_self
        · exact hls m ((List.takeWhile_sublist _).subset hm)
      · exact hls l ((List.dropWhile_sublist _).subset hl)
    · rcases List.mem_cons.mp hl with rfl | hl
      · exact h l List.mem_cons_self
      · exact ih hls l hl

def onLines (change : List Text → List Text) (b : Block) : Block := ⟨b.name, change b.lines⟩

theorem Block.Headed.head (h : b.Headed) : ∀ l ∈ (b.lines ++ rest).head?, header? l ≠ none := by
  obtain ⟨l, ls, hb, hl, -⟩ := h
  simp [hb, hl]

theorem head_flatMap_lines (h : ∀ b ∈ bs, b.Headed) :
    ∀ l ∈ (bs.flatMap Block.lines).head?, header? l ≠ none := by
  cases bs with
  | nil => simp
  | cons b bs => exact (h b List.mem_cons_self).head

theorem changeLines_flatMap (h : ∀ b ∈ bs, b.Headed) :
    changeLines name change (bs.flatMap Block.lines) =
      (changeBlock name (onLines change) bs).flatMap Block.lines := by
  induction bs with
  | nil => rfl
  | cons b bs ih =>
    obtain ⟨l, ls, hb, hl, hls⟩ := h b List.mem_cons_self
    have hbs : ∀ c ∈ bs, c.Headed := fun c hc => h c (List.mem_cons_of_mem _ hc)
    rw [List.flatMap_cons, changeBlock]
    by_cases hn : b.name = name
    · rw [if_pos hn, List.flatMap_cons, hb,
        changeLines_block (hn ▸ hl) hls (head_flatMap_lines hbs), onLines, hb]
    · have hno : ∀ m ∈ b.lines, header? m ≠ some name := by
        rw [hb, List.forall_mem_cons]
        refine ⟨by simpa [hl] using hn, fun m hm => by simp [hls m hm]⟩
      rw [if_neg hn, List.flatMap_cons, changeLines_append hno, ih hbs]

theorem Cut.lines_changeBlock (h : Cut blocks) (hn : name ≠ []) :
    (changeBlock name (onLines change) blocks).flatMap Block.lines =
      changeLines name change (blocks.flatMap Block.lines) := by
  obtain ⟨ls, bs, rfl, hls, hbs⟩ := h
  rw [changeBlock, if_neg (Ne.symm hn), List.flatMap_cons, List.flatMap_cons,
    changeLines_append fun l hl => by simp [hls l hl], changeLines_flatMap hbs]

theorem forall_changeBlock {P : Block → Prop} {f : Block → Block} (h : ∀ b ∈ blocks, P b)
    (hf : ∀ b, P b → P (f b)) : ∀ b ∈ changeBlock name f blocks, P b := by
  induction blocks with
  | nil => exact h
  | cons b bs ih =>
    rw [List.forall_mem_cons] at h
    rw [changeBlock]
    split
    · exact List.forall_mem_cons.mpr ⟨hf b h.1, h.2⟩
    · exact List.forall_mem_cons.mpr ⟨h.1, ih h.2⟩

theorem Cut.changeBlock {f : Block → Block} (h : Cut blocks) (hname : ∀ b, (f b).name = b.name)
    (hglobal : name = [] → ∀ ls, (∀ l ∈ ls, header? l = none) →
      ∀ l ∈ (f ⟨[], ls⟩).lines, header? l = none)
    (hf : ∀ b, b.Headed → (f b).Headed) : Cut (changeBlock name f blocks) := by
  obtain ⟨ls, bs, rfl, hls, hbs⟩ := h
  rw [ProjectFile.changeBlock]
  split
  · next hn =>
    have heq : f ⟨[], ls⟩ = ⟨[], (f ⟨[], ls⟩).lines⟩ := by
      rw [Block.mk.injEq]
      exact ⟨hname _, rfl⟩
    exact ⟨_, bs, heq ▸ rfl, hglobal hn.symm ls hls, hbs⟩
  · exact ⟨ls, _, rfl, hls, forall_changeBlock hbs hf⟩

theorem changeBlock_congr {f g : Block → Block}
    (h : ∀ b, blocks.find? (·.name == name) = some b → f b = g b) :
    changeBlock name f blocks = changeBlock name g blocks := by
  induction blocks with
  | nil => rfl
  | cons b bs ih =>
    rw [changeBlock, changeBlock]
    by_cases hn : b.name = name
    · rw [if_pos hn, if_pos hn, h b (by simp [hn])]
    · rw [List.find?_cons_of_neg (by simpa using hn)] at h
      rw [if_neg hn, if_neg hn, ih h]

theorem changeBlock_id (name : Text) (blocks : List Block) :
    changeBlock name id blocks = blocks := by
  induction blocks with
  | nil => rfl
  | cons b bs ih => simp [changeBlock, ih]

theorem Cut.eraseP (h : Cut blocks) (hn : name ≠ []) : Cut (blocks.eraseP (·.name == name)) := by
  obtain ⟨ls, bs, rfl, hls, hbs⟩ := h
  rw [List.eraseP_cons_of_neg (by simpa using Ne.symm hn)]
  exact ⟨ls, _, rfl, hls, fun b hb => hbs b (List.eraseP_subset hb)⟩

theorem flatMap_eraseP (name : Text) (blocks : List Block) :
    (blocks.eraseP (·.name == name)).flatMap Block.lines =
      (changeBlock name (onLines fun _ => []) blocks).flatMap Block.lines := by
  induction blocks with
  | nil => rfl
  | cons b bs ih =>
    rw [changeBlock]
    by_cases hn : b.name = name
    · simp [hn, onLines]
    · simp [hn, ih]

theorem Cut.lines_eraseP (h : Cut blocks) (hn : name ≠ []) :
    (blocks.eraseP (·.name == name)).flatMap Block.lines =
      changeLines name (fun _ => []) (blocks.flatMap Block.lines) := by
  rw [flatMap_eraseP, h.lines_changeBlock hn]

structure IsKey (key : Text) : Prop where
  head : ∃ c r, key = c :: r ∧ (Text.isBlank c || c == '=' || c == ';') = false
  plain : '=' ∉ key

theorem keyValue?_eq_some_iff (hk : IsKey key) : keyValue? line = some (key, v) ↔
    ∃ w, line = key ++ '=' :: w ∧ Text.oneLine? w = some v := by
  obtain ⟨⟨c, r, rfl, hc⟩, hplain⟩ := hk
  have hkey : ∀ d ∈ c :: r, (d != '=') = true := fun d hd => by
    simpa using fun he : d = '=' => hplain (he ▸ hd)
  constructor
  · intro h
    rw [keyValue?.eq_def] at h
    split at h
    · cases h
    · next d s =>
      split at h
      · cases h
      · split at h
        · cases h
        · next e w hw =>
          obtain ⟨v', hv, he⟩ := Option.map_eq_some_iff.mp h
          obtain ⟨htake, rfl⟩ := Prod.mk.inj he
          have hsep : e = '=' := by
            have hhead := List.head?_dropWhile_not (· != '=') (d :: s)
            rw [hw] at hhead
            simpa using hhead
          refine ⟨w, ?_, hv⟩
          rw [hsep] at hw
          rw [← htake, ← hw, List.takeWhile_append_dropWhile]
  · rintro ⟨w, rfl, hw⟩
    rw [List.cons_append, keyValue?]
    rw [if_neg (by simpa using hc), ← List.cons_append, List.takeWhile_append_of_pos hkey,
      List.dropWhile_append_of_pos hkey]
    simp [hw]

theorem keyValue?_iff_after? (hk : IsKey key) (hl : '\n' ∉ line) :
    keyValue? line = some (key, v) ↔ Text.after? (key ++ ['=']) line = some v := by
  rw [keyValue?_eq_some_iff hk, Text.after?_eq_some_iff, List.append_assoc, List.singleton_append]
  constructor
  · rintro ⟨w, rfl, hw⟩
    rw [Text.oneLine?_of_not_mem fun hm => hl (by simp [hm])] at hw
    rw [Option.some.inj hw]
  · rintro rfl
    exact ⟨v, rfl, Text.oneLine?_of_not_mem fun hm => hl (by simp [hm])⟩

theorem hasKey_iff : hasKey key line = true ↔ ∃ v, keyValue? line = some (key, v) := by
  rw [hasKey]
  cases h : keyValue? line with
  | none => simp
  | some e =>
    obtain ⟨k, w⟩ := e
    simp

theorem hasKey_eq (hk : IsKey key) (hl : '\n' ∉ line) :
    hasKey key line = (Text.after? (key ++ ['=']) line).isSome := by
  rw [Bool.eq_iff_iff, hasKey_iff, Option.isSome_iff_exists]
  simp only [keyValue?_iff_after? hk hl]

end ProjectFile

end Coursework
