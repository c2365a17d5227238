import Coursework.Proofs.ProjectFile.Blocks

/-!
Reading a project file that was written. The blocks are those that were there, and so are their
lines, but for empty ones.
-/

namespace Coursework.ProjectFile

variable {p : ProjectFile} {b : Block} {bs cs blocks : List Block} {ls : List Text}

def ofLines (ls : List Text) : List Block := ls.foldl addLine [⟨[], []⟩]

theorem addLine_concat (bs : List Block) (b : Block) {line : Text} (h : header? line = none) :
    addLine (bs ++ [b]) line = bs ++ [⟨b.name, b.lines ++ [line]⟩] := by
  rw [addLine, h]
  simp only [List.getLast?_concat, List.dropLast_concat]

theorem foldl_addLine_concat (bs : List Block) (b : Block) (h : ∀ l ∈ ls, header? l = none) :
    ls.foldl addLine (bs ++ [b]) = bs ++ [⟨b.name, b.lines ++ ls⟩] := by
  induction ls generalizing b with
  | nil => rw [List.foldl_nil, List.append_nil]
  | cons l ls ih =>
    rw [List.forall_mem_cons] at h
    rw [List.foldl_cons, addLine_concat bs b h.1, ih _ h.2, List.append_assoc,
      List.singleton_append]

theorem foldl_addLine_headed (bs : List Block) (h : ∀ c ∈ cs, c.Headed) :
    (cs.flatMap Block.lines).foldl addLine bs = bs ++ cs := by
  induction cs generalizing bs with
  | nil => exact (List.append_nil bs).symm
  | cons c cs ih =>
    rw [List.forall_mem_cons] at h
    obtain ⟨l, ls, hc, hl, hls⟩ := h.1
    have hstart : addLine bs l = bs ++ [⟨c.name, [l]⟩] := by rw [addLine, hl]
    have hblock : c.lines.foldl addLine bs = bs ++ [c] := by
      rw [hc, List.foldl_cons, hstart, foldl_addLine_concat bs _ hls, List.singleton_append, ← hc]
    rw [List.flatMap_cons, List.foldl_append, hblock, ih _ h.2, List.append_assoc,
      List.singleton_append]

theorem Cut.ofLines_lines (h : Cut blocks) : ofLines (blocks.flatMap Block.lines) = blocks := by
  obtain ⟨ls, bs, rfl, hls, hbs⟩ := h
  have hglobal : ofLines ls = [⟨[], ls⟩] := foldl_addLine_concat [] ⟨[], []⟩ hls
  rw [ofLines, List.flatMap_cons, List.foldl_append, ← ofLines, hglobal,
    foldl_addLine_headed _ hbs, List.singleton_append]

def Block.filled (b : Block) : Block := ⟨b.name, b.lines.filter (· != [])⟩

theorem addLine_ne_nil (blocks : List Block) (line : Text) : addLine blocks line ≠ [] := by
  rw [addLine]
  cases header? line with
  | some name => simp
  | none => cases blocks.getLast? <;> simp

theorem map_filled_addLine (h : blocks ≠ []) (line : Text) :
    (addLine blocks line).map Block.filled =
      if line = [] then blocks.map Block.filled else addLine (blocks.map Block.filled) line := by
  obtain ⟨bs, b, rfl⟩ := (List.eq_nil_or_concat blocks).resolve_left h
  rw [List.concat_eq_append]
  cases hl : header? line with
  | some name =>
    have hline : line ≠ [] := by
      rintro rfl
      cases hl
    rw [if_neg hline, addLine, addLine, hl]
    simp [Block.filled, hline]
  | none =>
    rw [addLine_concat bs b hl]
    simp only [List.map_append, List.map_cons, List.map_nil]
    split
    · next hline => simp [Block.filled, hline]
    · next hline =>
      rw [addLine_concat _ _ hl]
      simp [Block.filled, hline]

theorem map_filled_foldl (h : blocks ≠ []) : (ls.foldl addLine blocks).map Block.filled =
    (ls.filter (· != [])).foldl addLine (blocks.map Block.filled) := by
  induction ls generalizing blocks with
  | nil => rfl
  | cons l ls ih =>
    rw [List.foldl_cons, ih (addLine_ne_nil blocks l), map_filled_addLine h]
    by_cases hl : l = []
    · simp [hl]
    · simp [hl]

theorem map_filled_ofLines (ls : List Text) :
    (ofLines ls).map Block.filled = ofLines (ls.filter (· != [])) :=
  map_filled_foldl (by simp)

structure Legible (p : ProjectFile) : Prop where
  cut : Cut p.blocks
  unbroken : ∀ l ∈ p.lines, Text.Unbroken l

theorem legible_read (s : Text) : (read s).Legible where
  cut := cut_read s
  unbroken _ hl := Text.unbroken_of_mem_lines (lines_read s ▸ hl)

theorem filter_rdropWhile_isEmpty (ls : List Text) :
    (ls.rdropWhile List.isEmpty).filter (· != []) = ls.filter (· != []) := by
  induction ls using List.reverseRecOn with
  | nil => rfl
  | append_singleton ls l ih =>
    by_cases hl : l = []
    · rw [List.rdropWhile_concat_pos _ _ _ (by simp [hl]), ih]
      simp [hl]
    · rw [List.rdropWhile_concat_neg _ _ _ (by simp [hl])]

theorem filter_lines_text (h : ∀ l ∈ p.lines, Text.Unbroken l) :
    (Text.lines p.text).filter (· != []) = p.lines.filter (· != []) := by
  have hends : ∀ l ∈ p.lines, l.getLast? ≠ some '\n' := fun l hl hlast =>
    (h l hl).not_mem_lineFeed (List.mem_of_getLast? hlast)
  have hkept : ∀ l ∈ p.lines.rdropWhile List.isEmpty, Text.Unbroken l := fun l hl =>
    h l ((List.rdropWhile_prefix _ _).subset hl)
  rw [text_eq hends, Text.lines_append (Text.feedsOnly_join hkept), Text.lines, List.append_nil,
    ← filter_rdropWhile_isEmpty p.lines]
  by_cases hnil : p.lines.rdropWhile List.isEmpty = []
  · rw [hnil]
    rfl
  · rw [Text.splitOn_join hnil fun l hl => (hkept l hl).not_mem_lineFeed]

theorem Legible.reread (h : p.Legible) :
    (read p.text).blocks.map Block.filled = p.blocks.map Block.filled :=
  calc (read p.text).blocks.map Block.filled
      = ofLines ((Text.lines p.text).filter (· != [])) := map_filled_ofLines _
    _ = ofLines (p.lines.filter (· != [])) := by rw [filter_lines_text h.unbroken]
    _ = (ofLines p.lines).map Block.filled := (map_filled_ofLines _).symm
    _ = p.blocks.map Block.filled := by rw [lines, h.cut.ofLines_lines]

theorem Legible.map_reread (h : p.Legible) {α : Type} {f : Block → α}
    (hf : ∀ b, f b.filled = f b) : (read p.text).blocks.map f = p.blocks.map f := by
  have heq : f = f ∘ Block.filled := funext fun b => (hf b).symm
  rw [heq, ← List.map_map, ← List.map_map, h.reread]

end Coursework.ProjectFile
