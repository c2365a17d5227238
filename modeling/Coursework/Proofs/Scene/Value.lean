import Coursework.Proofs.Text.Replacing
import Coursework.Scene.Value

namespace Coursework.Scene

open Text

def escapeChar (c : Char) : Text :=
  if c = '\\' then ['\\', '\\'] else if c = '\x22' then ['\\', '\x22'] else [c]

def escape (s : Text) : Text := s.flatMap escapeChar

@[simp] theorem escape_nil : escape [] = [] := rfl

@[simp] theorem escape_cons (c : Char) (s : Text) : escape (c :: s) = escapeChar c ++ escape s := by
  simp [escape]

theorem quote_eq (s : Text) : quote s = '\x22' :: escape s ++ ['\x22'] := by
  have h : replace ['\x22'] ['\\', '\x22'] (replace ['\\'] ['\\', '\\'] s) = escape s := by
    simp only [replace_single]
    induction s with
    | nil => rfl
    | cons c s ih =>
      rw [List.flatMap_cons, List.flatMap_append, ih, escape_cons]
      by_cases hb : c = '\\'
      · simp [hb, escapeChar]
      · by_cases hq : c = '\x22' <;> simp [hb, hq, escapeChar]
  simp [quote, h]

def doubled (s : Text) : Text := s.flatMap fun c => if c = '\\' then ['\\', '\\'] else [c]

theorem head?_escape_ne (s : Text) : (escape s).head? ≠ some '\x22' := by
  cases s with
  | nil => simp
  | cons c s =>
    by_cases hb : c = '\\'
    · simp [hb, escapeChar]
    · by_cases hq : c = '\x22' <;> simp [hb, hq, escapeChar]

theorem replace_escape (s : Text) : replace ['\\', '\x22'] ['\x22'] (escape s) = doubled s := by
  induction s with
  | nil => rfl
  | cons c s ih =>
    by_cases hb : c = '\\'
    · subst hb
      have h1 : replace ['\\', '\x22'] ['\x22'] ('\\' :: '\\' :: escape s) =
          '\\' :: replace ['\\', '\x22'] ['\x22'] ('\\' :: escape s) :=
        replace_pair_ne _ _ _ _ _ (.inr (by simp))
      have h2 : replace ['\\', '\x22'] ['\x22'] ('\\' :: escape s) =
          '\\' :: replace ['\\', '\x22'] ['\x22'] (escape s) :=
        replace_pair_ne _ _ _ _ _ (.inr (head?_escape_ne s))
      simp [escapeChar, doubled, h1, h2, ih]
    · by_cases hq : c = '\x22'
      · subst hq
        simp [escapeChar, doubled, replace_pair_match, ih]
      · simp only [escape_cons, escapeChar, hb, hq, if_false, List.singleton_append]
        rw [replace_pair_ne _ _ _ _ _ (.inl hb), ih]
        simp [doubled, hb]

theorem replace_doubled (s : Text) : replace ['\\', '\\'] ['\\'] (doubled s) = s := by
  induction s with
  | nil => rfl
  | cons c s ih =>
    by_cases hb : c = '\\'
    · subst hb
      simpa [doubled, replace_pair_match] using ih
    · have h : replace ['\\', '\\'] ['\\'] (c :: doubled s) =
          c :: replace ['\\', '\\'] ['\\'] (doubled s) := replace_pair_ne _ _ _ _ _ (.inl hb)
      rw [ih] at h
      simpa [doubled, hb] using h

theorem unquote_escape (s : Text) : unquote ('\x22' :: escape s ++ ['\x22']) = s := by
  have hl : ('\x22' :: escape s ++ ['\x22']).getLast? = some '\x22' := List.getLast?_concat
  simp only [unquote, hl]
  simp [replace_escape, replace_doubled]

@[simp] theorem unquote_quote (s : Text) : unquote (quote s) = s := by
  rw [quote_eq, unquote_escape]

theorem mem_escape {s : Text} {c : Char} (h : c ∈ escape s) : c ∈ s ∨ c = '\\' := by
  obtain ⟨d, hd, hc⟩ := List.mem_flatMap.mp h
  by_cases hb : d = '\\'
  · simp_all [escapeChar]
  · by_cases hq : d = '\x22'
    · simp only [escapeChar, hq] at hc
      simp only [hq] at hd
      simp at hc
      rcases hc with rfl | rfl
      · exact .inr rfl
      · exact .inl hd
    · simp_all [escapeChar]

theorem unbroken_quote {s : Text} (h : Unbroken s) : Unbroken (quote s) := by
  rw [quote_eq]
  intro c hc
  simp only [List.cons_append, List.mem_cons, List.mem_append, List.not_mem_nil, or_false] at hc
  rcases hc with rfl | hc | rfl
  · rfl
  · rcases mem_escape hc with hc | rfl
    · exact h c hc
    · rfl
  · rfl

theorem unbroken_unquote {s : Text} (h : Unbroken s) : Unbroken (unquote s) := by
  unfold unquote
  split
  · intro c hc
    rcases mem_of_mem_replace hc with hc | hc
    · rcases mem_of_mem_replace hc with hc | hc
      · exact h c (List.mem_of_mem_drop (List.mem_of_mem_dropLast hc))
      · obtain rfl : c = '\x22' := by simpa using hc
        rfl
    · obtain rfl : c = '\\' := by simpa using hc
      rfl
  · exact h

theorem stringInside?_close (r : Text) : stringInside? ('\x22' :: r) = some [] := by
  rw [stringInside?.eq_def]
  simp

theorem stringInside?_plain {c : Char} (s : Text) (hq : c ≠ '\x22') (hb : c ≠ '\\') :
    stringInside? (c :: s) = (stringInside? s).map (c :: ·) := by
  rw [stringInside?.eq_def]
  simp [hq, hb]

theorem stringInside?_escape (s r : Text) :
    stringInside? (escape s ++ '\x22' :: r) = some (escape s) := by
  induction s with
  | nil => exact stringInside?_close r
  | cons c s ih =>
    by_cases hb : c = '\\'
    · simp [hb, escapeChar, stringInside?, ih]
    · by_cases hq : c = '\x22'
      · simp [hq, escapeChar, stringInside?, ih]
      · simp [hb, hq, escapeChar, stringInside?_plain, ih]

theorem stringsFrom_length (s r : Text) : stringsFrom s.length (s ++ r) = stringsFrom 0 r := by
  induction s with
  | nil => rfl
  | cons c s ih => simpa [stringsFrom] using ih

theorem stringsFrom_quote (s r : Text) :
    stringsFrom 0 (quote s ++ r) = escape s :: stringsFrom 0 r := by
  have h := stringsFrom_length (escape s ++ ['\x22']) r
  simp only [List.length_append, List.length_singleton, List.append_assoc,
    List.singleton_append] at h
  simp [quote_eq, stringsFrom, stringInside?_escape, h]

theorem stringsFrom_skip {c : Char} (r : Text) (h : c ≠ '\x22') :
    stringsFrom 0 (c :: r) = stringsFrom 0 r := by
  simp [stringsFrom, h]

theorem stringsFrom_join (ws : List Text) (r : Text) :
    stringsFrom 0 (join [',', ' '] (ws.map quote) ++ r) = ws.map escape ++ stringsFrom 0 r := by
  induction ws with
  | nil => rfl
  | cons w ws ih =>
    by_cases hw : ws = []
    · subst hw
      simpa [join] using stringsFrom_quote w r
    · rw [List.map_cons, join_cons _ _ (by simpa using hw)]
      simp only [List.append_assoc, List.cons_append, List.nil_append]
      rw [stringsFrom_quote, stringsFrom_skip _ (by decide), stringsFrom_skip _ (by decide), ih]
      simp

@[simp] theorem readStrings_writeStrings (ws : List Text) : readStrings (writeStrings ws) = ws := by
  have h : stringsFrom 0 (writeStrings ws) = ws.map escape := by
    unfold writeStrings
    rw [List.append_assoc, List.singleton_append, stringsFrom_skip _ (by decide),
      stringsFrom_join, stringsFrom_skip _ (by decide)]
    simp [stringsFrom]
  simp only [readStrings, h, List.map_map]
  conv_rhs => rw [← List.map_id ws]
  apply List.map_congr_left
  intro w _
  simpa using unquote_escape w

theorem unbroken_writeStrings {ws : List Text} (h : ∀ w ∈ ws, Unbroken w) :
    Unbroken (writeStrings ws) := by
  simp only [writeStrings, unbroken_append, unbroken_cons, unbroken_nil, and_true]
  refine ⟨⟨by decide, unbroken_join ?_ ?_⟩, by decide⟩
  · simp [isLineBreak]
  · rintro v hv
    obtain ⟨w, hw, rfl⟩ := List.mem_map.mp hv
    exact unbroken_quote (h w hw)

theorem stringInside?_sub {s w : Text} (h : stringInside? s = some w) : ∀ c ∈ w, c ∈ s := by
  fun_induction stringInside? s generalizing w with
  | case1 => simp at h
  | case2 s => simp_all
  | case3 hq => simp at h
  | case4 r hq => simp at h
  | case5 d r hn hq ih =>
    obtain ⟨v, hv, rfl⟩ := Option.map_eq_some_iff.mp h
    intro c hc
    have := ih hv c
    simp_all only [List.mem_cons]
    tauto
  | case6 c s hq hb ih =>
    obtain ⟨v, hv, rfl⟩ := Option.map_eq_some_iff.mp h
    intro d hd
    have := ih hv d
    simp_all only [List.mem_cons]
    tauto

theorem stringsFrom_sub {n : Nat} {s w : Text} (h : w ∈ stringsFrom n s) : ∀ c ∈ w, c ∈ s := by
  fun_induction stringsFrom n s with
  | case1 => simp at h
  | case2 n d s ih => exact fun c hc => List.mem_cons_of_mem _ (ih h c hc)
  | case3 s v hv ih =>
    intro c hc
    rcases List.mem_cons.mp h with rfl | h
    · exact List.mem_cons_of_mem _ (stringInside?_sub hv c hc)
    · exact List.mem_cons_of_mem _ (ih h c hc)
  | case4 s hv ih => exact fun c hc => List.mem_cons_of_mem _ (ih h c hc)
  | case5 d s hq ih => exact fun c hc => List.mem_cons_of_mem _ (ih h c hc)

theorem unbroken_of_mem_readStrings {s w : Text} (hs : Unbroken s) (h : w ∈ readStrings s) :
    Unbroken w := by
  obtain ⟨v, hv, rfl⟩ := List.mem_map.mp h
  apply unbroken_unquote
  simp only [unbroken_append, unbroken_cons, unbroken_nil, and_true]
  exact ⟨⟨by decide, hs.sub (stringsFrom_sub hv)⟩, by decide⟩

namespace Nesting

@[simp] theorem after_nil (n : Nesting) : n.after [] = n := rfl

@[simp] theorem after_cons (n : Nesting) (c : Char) (s : Text) :
    n.after (c :: s) = (n.step c).after s := rfl

@[simp] theorem after_append (n : Nesting) (s t : Text) :
    n.after (s ++ t) = (n.after s).after t := List.foldl_append

def Uncut (n : Nesting) (w : Text) : Prop :=
  ∀ u c v, w = u ++ c :: v → isBlank c = true → (n.after u).closed = false

theorem Uncut.cons {n : Nesting} {c : Char} {w : Text} :
    n.Uncut (c :: w) ↔
      (isBlank c = true → n.closed = false) ∧ (n.step c).Uncut w := by
  constructor
  · intro h
    refine ⟨fun hc => h [] c w rfl hc, fun u d v hw hd => ?_⟩
    simpa using h (c :: u) d v (by simp [hw]) hd
  · rintro ⟨hc, h⟩ u d v hw hd
    cases u with
    | nil =>
      obtain ⟨rfl, rfl⟩ : c = d ∧ w = v := by simpa using hw
      exact hc hd
    | cons e u =>
      obtain ⟨rfl, rfl⟩ : c = e ∧ w = u ++ d :: v := by simpa using hw
      simpa using h u d v rfl hd

theorem uncut_nil (n : Nesting) : n.Uncut [] := by
  intro u c v h
  simp at h

theorem Uncut.append {n : Nesting} {w r : Text} :
    n.Uncut (w ++ r) ↔ n.Uncut w ∧ (n.after w).Uncut r := by
  induction w generalizing n with
  | nil => simp [uncut_nil]
  | cons c w ih => simp [Uncut.cons, ih, and_assoc]

end Nesting

open Nesting

theorem cutValueFrom_of_uncut {n : Nesting} {w : Text} (h : n.Uncut w) (r : Text) :
    cutValueFrom n (w ++ r) =
      (w ++ (cutValueFrom (n.after w) r).1, (cutValueFrom (n.after w) r).2) := by
  induction w generalizing n with
  | nil => simp
  | cons c w ih =>
    obtain ⟨hc, hw⟩ := Uncut.cons.mp h
    have hn : (isBlank c && n.closed) = false := by
      by_cases hb : isBlank c = true <;> simp [hb, hc]
    simp [cutValueFrom, hn, ih hw]

theorem uncut_cutValueFrom (n : Nesting) (s : Text) : n.Uncut (cutValueFrom n s).1 := by
  induction s generalizing n with
  | nil => exact uncut_nil n
  | cons c s ih =>
    by_cases h : (isBlank c && n.closed) = true
    · simpa [cutValueFrom, h] using uncut_nil n
    · simp only [cutValueFrom, h, if_false, Uncut.cons, Bool.false_eq_true]
      exact ⟨fun hc => by simpa [hc] using h, ih _⟩

/-- A value that ends in the open and nowhere before: the header of a section gives it back
whole. -/
structure Whole (w : Text) : Prop where
  balanced : balanced w = true
  uncut : ∀ u c v, w = u ++ c :: v → isBlank c = true → Scene.balanced u = false

instance : DecidablePred Whole := fun w =>
  decidable_of_iff (balanced w = true ∧
      ∀ i, (h : i < w.length) → isBlank w[i] = true → balanced (w.take i) = false)
    ⟨fun h => ⟨h.1, (forall_split_iff w isBlank (balanced · = false)).mpr h.2⟩,
      fun h => ⟨h.balanced, (forall_split_iff w isBlank (balanced · = false)).mp h.uncut⟩⟩

theorem Whole.uncut' {w : Text} (h : Whole w) : Nesting.Uncut {} w := h.uncut

def StartsBlank (r : Text) : Prop := ∀ c s, r = c :: s → isBlank c = true

theorem cutValue_whole {w r : Text} (hw : Whole w) (hr : StartsBlank r) :
    cutValue (w ++ r) = (w, r) := by
  rw [cutValue, cutValueFrom_of_uncut hw.uncut']
  cases r with
  | nil => simp [cutValueFrom]
  | cons c r =>
    have hc : isBlank c = true := hr c r rfl
    have hb : (Nesting.after {} w).closed = true := hw.balanced
    simp [cutValueFrom, hc, hb]

theorem after_escape (d : Int) (s : Text) : Nesting.after ⟨d, .quoted⟩ (escape s) = ⟨d, .quoted⟩ := by
  induction s with
  | nil => rfl
  | cons c s ih =>
    by_cases hb : c = '\\'
    · simp [hb, escapeChar, Nesting.step, ih]
    · by_cases hq : c = '\x22' <;> simp [hb, hq, escapeChar, Nesting.step, ih]

theorem after_quote (d : Int) (s : Text) : Nesting.after ⟨d, .plain⟩ (quote s) = ⟨d, .plain⟩ := by
  simp [quote_eq, after_escape, Nesting.step]

theorem uncut_escape (d : Int) (s : Text) : Nesting.Uncut ⟨d, .quoted⟩ (escape s) := by
  induction s with
  | nil => exact uncut_nil _
  | cons c s ih =>
    by_cases hb : c = '\\'
    · simp [hb, escapeChar, Uncut.cons, Nesting.step, Nesting.closed, ih]
    · by_cases hq : c = '\x22' <;>
        simp [hb, hq, escapeChar, Uncut.cons, Nesting.step, Nesting.closed, ih]

theorem uncut_quote (d : Int) (s : Text) : Nesting.Uncut ⟨d, .plain⟩ (quote s) := by
  have hq : isBlank '\x22' = false := by decide
  simp [quote_eq, Uncut.cons, Uncut.append, Nesting.step, after_escape, uncut_escape, hq, uncut_nil]

theorem whole_quote (s : Text) : Whole (quote s) where
  balanced := by simp [balanced, after_quote, Nesting.closed]
  uncut := uncut_quote 0 s

theorem join_quote (d : Int) (hd : 0 < d) (ws : List Text) :
    Nesting.Uncut ⟨d, .plain⟩ (join [',', ' '] (ws.map quote)) ∧
      Nesting.after ⟨d, .plain⟩ (join [',', ' '] (ws.map quote)) = ⟨d, .plain⟩ := by
  have ho : (Nesting.mk d .plain).closed = false := by simp [Nesting.closed, hd]
  induction ws with
  | nil => exact ⟨uncut_nil _, rfl⟩
  | cons w ws ih =>
    by_cases hw : ws = []
    · subst hw
      exact ⟨by simpa [join] using uncut_quote d w, by simpa [join] using after_quote d w⟩
    · rw [List.map_cons, join_cons _ _ (by simpa using hw)]
      have hc : Nesting.step ⟨d, .plain⟩ ',' = ⟨d, .plain⟩ := by
        simp [Nesting.step, isOpening, isClosing]
      have hs : Nesting.step ⟨d, .plain⟩ ' ' = ⟨d, .plain⟩ := by
        simp [Nesting.step, isOpening, isClosing]
      constructor
      · simp [Uncut.append, Uncut.cons, after_quote, uncut_quote, ho, hc, hs, ih.1]
      · simp [after_quote, hc, hs, ih.2]

theorem whole_writeStrings (ws : List Text) : Whole (writeStrings ws) := by
  have ho : isBlank '[' = false := by decide
  have hc : isBlank ']' = false := by decide
  have h := join_quote 1 (by decide) ws
  constructor
  · simp [balanced, writeStrings, Nesting.step, isOpening, isClosing, Nesting.closed, h.2]
  · change Nesting.Uncut {} (writeStrings ws)
    simp [writeStrings, Uncut.cons, Uncut.append, Nesting.step, isOpening, ho, hc, h.1, uncut_nil]

end Coursework.Scene
