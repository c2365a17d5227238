import Coursework.Proofs.ProjectFile.Edits
import Coursework.Proofs.ProjectFile.Rereading

namespace Coursework.ProjectFile

variable {p : ProjectFile} {b : Block} {blocks : List Block} {name key key' v line : Text}
  {ls ls' new : List Text} {change : Block → Block}

/-! ### The value of a line -/

def valueAt? (key line : Text) : Option Text :=
  (keyValue? line).bind fun e => if e.1 = key then some e.2 else none

theorem valueAt?_eq_some_iff : valueAt? key line = some v ↔ keyValue? line = some (key, v) := by
  rw [valueAt?]
  cases keyValue? line with
  | none => simp
  | some e =>
    obtain ⟨k, w⟩ := e
    by_cases hk : k = key <;> simp [hk]

theorem hasKey_eq_isSome : hasKey key line = (valueAt? key line).isSome := by
  rw [Bool.eq_iff_iff, hasKey_iff, Option.isSome_iff_exists]
  simp only [valueAt?_eq_some_iff]

theorem valueAt?_eq_none_iff : valueAt? key line = none ↔ hasKey key line = false := by
  rw [hasKey_eq_isSome, Option.isSome_eq_false_iff, Option.isNone_iff_eq_none]

theorem valueAt?_of_hasKey (h : hasKey key line = true) (hne : key' ≠ key) :
    valueAt? key' line = none := by
  obtain ⟨v, hv⟩ := hasKey_iff.mp h
  simp [valueAt?, hv, Ne.symm hne]

theorem head?_of_hasKey (h : hasKey key line = true) : key.head? = line.head? := by
  obtain ⟨v, hv⟩ := hasKey_iff.mp h
  rw [keyValue?.eq_def] at hv
  split at hv
  · cases hv
  · next c s =>
    split at hv
    · cases hv
    · next hc =>
      have hplain : (c != '=') = true := by
        simp only [Bool.or_eq_true, not_or] at hc
        simpa using hc.1.2
      split at hv
      · cases hv
      · obtain ⟨w, -, he⟩ := Option.map_eq_some_iff.mp hv
        rw [← (Prod.mk.inj he).1, List.takeWhile_cons, if_pos hplain]
        rfl

theorem hasKey_header (hk : key.head? ≠ some '[') (h : header? line = some name) :
    hasKey key line = false := by
  rw [← Bool.not_eq_true]
  intro hkey
  rw [header?.eq_def] at h
  split at h
  · exact hk (head?_of_hasKey hkey)
  · cases h

theorem valueAt?_entryText (hk : IsKey key) (hv : Text.Unbroken v) :
    valueAt? key (entryText key v) = some v := by
  rw [valueAt?_eq_some_iff, keyValue?_eq_some_iff hk, entryText]
  exact ⟨v, by simp, Text.oneLine?_of_not_mem hv.not_mem_lineFeed⟩

theorem Block.value?_eq (b : Block) (key : Text) :
    b.value? key = b.lines.findSome? (valueAt? key) := by
  rw [Block.value?, keyIndex?]
  induction b.lines with
  | nil => rfl
  | cons l ls ih =>
    rw [List.findIdx?_cons, List.findSome?_cons]
    cases hv : valueAt? key l with
    | none =>
      rw [valueAt?_eq_none_iff.mp hv, ← ih]
      cases ls.findIdx? (hasKey key) <;> rfl
    | some v =>
      have hkey : hasKey key l = true := by rw [hasKey_eq_isSome, hv, Option.isSome_some]
      simp [hkey, valueAt?_eq_some_iff.mp hv]

/-! ### The value of a block -/

theorem value?_eq_find? (p : ProjectFile) (name key : Text) : p.value? name key =
    ((p.blocks.map fun b => (b.name, b.value? key)).find? (·.1 == name)).bind Prod.snd := by
  rw [List.find?_map, value?, block?]
  change _ = (Option.map _ (p.blocks.find? (·.name == name))).bind _
  cases p.blocks.find? (·.name == name) <;> rfl

theorem findSome?_filter_ne_nil (key : Text) (ls : List Text) :
    (ls.filter (· != [])).findSome? (valueAt? key) = ls.findSome? (valueAt? key) := by
  induction ls with
  | nil => rfl
  | cons l ls ih =>
    by_cases hl : l = []
    · have hnone : valueAt? key [] = none := rfl
      simpa [hl, hnone] using ih
    · simp [hl, List.findSome?_cons, ih]

theorem Legible.value?_reread (h : p.Legible) (name key : Text) :
    (read p.text).value? name key = p.value? name key := by
  rw [value?_eq_find?, value?_eq_find?, h.map_reread fun b => ?_]
  rw [Block.value?_eq, Block.value?_eq, Block.filled, findSome?_filter_ne_nil]

/-! ### A changed block -/

section

variable {q : ProjectFile} (hq : q.blocks = changeBlock name change p.blocks)
  (hname : ∀ b, (change b).name = b.name)

include hq hname

theorem block?_changed : q.block? name = (p.block? name).map change := by
  rw [block?, block?, hq]
  induction p.blocks with
  | nil => rfl
  | cons b bs ih =>
    rw [changeBlock]
    by_cases hb : b.name = name
    · simp [hb, hname]
    · simp [hb, ih]

theorem block?_unchanged {name' : Text} (hne : name' ≠ name) : q.block? name' = p.block? name' := by
  rw [block?, block?, hq]
  induction p.blocks with
  | nil => rfl
  | cons b bs ih =>
    rw [changeBlock]
    by_cases hb : b.name = name
    · simp [hb, hname, Ne.symm hne]
    · simp only [hb, if_false, List.find?_cons, ih]

theorem value?_changed (key : Text) :
    q.value? name key = (p.block? name).bind fun b => (change b).value? key := by
  rw [value?, block?_changed hq hname, Option.bind_map]
  rfl

theorem value?_unchanged {name' key' : Text}
    (h : name' = name → ∀ b, (change b).value? key' = b.value? key') :
    q.value? name' key' = p.value? name' key' := by
  by_cases hne : name' = name
  · rw [hne, value?_changed hq hname, value?]
    exact congrArg _ (funext (h hne))
  · rw [value?, block?_unchanged hq hname hne, value?]

end

/-! ### Lines with a key -/

inductive Exchange (key : Text) (new ls ls' : List Text) : Prop
  | intro (front gone back : List Text) (hls : ls = front ++ gone ++ back)
      (hls' : ls' = front ++ new ++ back) (hfront : ∀ l ∈ front, hasKey key l = false)
      (hgone : ∀ l ∈ gone, hasKey key l = true) (hfirst : front ++ gone = [] → ls = [])

namespace Exchange

theorem eraseP (key : Text) (ls : List Text) : Exchange key [] ls (ls.eraseP (hasKey key)) := by
  by_cases h : ∃ l ∈ ls, hasKey key l = true
  · obtain ⟨l, hl, hkey⟩ := h
    obtain ⟨gone, front, back, hfront, hgone, hls, herase⟩ := List.exists_of_eraseP hl hkey
    refine .intro front [gone] back (by simpa using hls) (by simpa using herase) (fun m hm => ?_)
      (by simpa using hgone) (by simp)
    exact Bool.eq_false_iff.mpr (hfront m hm)
  · have hnone : ∀ l ∈ ls, ¬hasKey key l = true := fun l hl hkey => h ⟨l, hl, hkey⟩
    rw [List.eraseP_of_forall_not hnone]
    refine .intro ls [] [] (by simp) (by simp) (fun m hm => ?_) (by simp) (by simp)
    exact Bool.eq_false_iff.mpr (hnone m hm)

theorem setValue (b : Block) (key v : Text) :
    Exchange key [entryText key v] b.lines (b.setValue key v).lines := by
  rw [Block.setValue]
  cases hi : b.keyIndex? key with
  | none =>
    have hnone := List.findIdx?_eq_none_iff.mp hi
    let i := Block.insertionPoint b.lines
    refine .intro (b.lines.take i) [] (b.lines.drop i) (by simp) (by simp [i])
      (fun l hl => hnone l (List.mem_of_mem_take hl)) (by simp) fun hnil => ?_
    cases hls : b.lines with
    | nil => rfl
    | cons l ls => simp [i, hls, Block.insertionPoint] at hnil
  | some i =>
    obtain ⟨hlt, hkey, hbefore⟩ := List.findIdx?_eq_some_iff_getElem.mp hi
    refine .intro (b.lines.take i) [b.lines[i]] (b.lines.drop (i + 1)) (by simp) ?_ (fun l hl => ?_)
      (by simpa using hkey) (by simp)
    · simp only [List.set_eq_take_append_cons_drop, if_pos hlt, List.append_assoc,
        List.singleton_append]
    · obtain ⟨j, hj, rfl⟩ := List.mem_take_iff_getElem.mp hl
      exact Bool.eq_false_iff.mpr (hbefore j (by omega))

variable (h : Exchange key new ls ls')

include h

theorem mem (hl : line ∈ ls') : line ∈ ls ∨ line ∈ new := by
  obtain ⟨front, gone, back, rfl, rfl, -, -, -⟩ := h
  simp only [List.mem_append] at hl ⊢
  tauto

theorem findSome?_of_ne (hne : key' ≠ key) (hnew : ∀ l ∈ new, hasKey key l = true) :
    ls'.findSome? (valueAt? key') = ls.findSome? (valueAt? key') := by
  have hnone : ∀ ms : List Text, (∀ l ∈ ms, hasKey key l = true) →
      ms.findSome? (valueAt? key') = none := fun ms hms =>
    List.findSome?_eq_none_iff.mpr fun l hl => valueAt?_of_hasKey (hms l hl) hne
  obtain ⟨front, gone, back, rfl, rfl, -, hgone, -⟩ := h
  simp only [List.findSome?_append, hnone gone hgone, hnone new hnew]

theorem findSome?_self (hnew : new = [line]) (hv : valueAt? key line = some v) :
    ls'.findSome? (valueAt? key) = some v := by
  obtain ⟨front, gone, back, -, rfl, hfront, -, -⟩ := h
  have hnone : front.findSome? (valueAt? key) = none :=
    List.findSome?_eq_none_iff.mpr fun l hl => valueAt?_eq_none_iff.mpr (hfront l hl)
  simp [hnone, hnew, hv]

theorem headed {b : Block} (hb : b.Headed) (hls : b.lines = ls) (hk : key.head? ≠ some '[')
    (hnew : ∀ l ∈ new, header? l = none) : Block.Headed ⟨b.name, ls'⟩ := by
  obtain ⟨head, rest, hlines, hhead, hrest⟩ := hb
  obtain ⟨front, gone, back, rfl, rfl, -, hgone, hfirst⟩ := h
  rw [hlines] at hls
  cases front with
  | nil =>
    exfalso
    cases gone with
    | nil => exact List.cons_ne_nil _ _ (hls.trans (hfirst rfl))
    | cons l gone =>
      obtain rfl : head = l := (List.cons.inj hls).1
      exact Bool.false_ne_true ((hasKey_header hk hhead).symm.trans (hgone head (by simp)))
  | cons l front =>
    obtain ⟨rfl, rfl⟩ := List.cons.inj hls
    refine ⟨head, front ++ new ++ back, rfl, hhead, fun m hm => ?_⟩
    simp only [List.append_eq, List.mem_append] at hm hrest
    rcases hm with (hm | hm) | hm
    · exact hrest m (.inl (.inl hm))
    · exact hnew m hm
    · exact hrest m (.inr hm)

end Exchange

/-! ### Edits -/

theorem Legible.changed {q : ProjectFile} (h : p.Legible)
    (hq : q.blocks = changeBlock name change p.blocks) (hname : ∀ b, (change b).name = b.name)
    (hx : ∀ b, Exchange key new b.lines (change b).lines) (hk : key.head? ≠ some '[')
    (hnew : ∀ l ∈ new, header? l = none ∧ Text.Unbroken l) : q.Legible where
  cut := by
    rw [hq]
    refine h.cut.changeBlock hname (fun _ ls hls l hl => ?_) fun b hb => ?_
    · exact ((hx _).mem hl).elim (hls l) fun hl => (hnew l hl).1
    · have hheaded := (hx b).headed hb rfl hk fun l hl => (hnew l hl).1
      rwa [← hname b] at hheaded
  unbroken l hl := by
    obtain ⟨b, hb, hl⟩ := List.mem_flatMap.mp hl
    have hlines : ∀ b ∈ p.blocks, ∀ l ∈ b.lines, Text.Unbroken l := fun b hb l hl =>
      h.unbroken l (List.mem_flatMap.mpr ⟨b, hb, hl⟩)
    refine forall_changeBlock hlines (fun b hb l hl => ?_) b (hq ▸ hb) l hl
    exact ((hx b).mem hl).elim (hb l) fun hl => (hnew l hl).2

structure IsTitle (name : Text) : Prop where
  closed : ']' ∉ name
  unbroken : Text.Unbroken name

structure Settable (key : Text) : Prop extends IsKey key where
  bare : key.head? ≠ some '['
  unbroken : Text.Unbroken key

theorem header?_of_isTitle (h : IsTitle name) (hne : name ≠ []) :
    header? ('[' :: name ++ [']']) = some name := by
  have hall : ∀ c ∈ name, (c != ']') = true := fun c hc => by
    simpa using fun he : c = ']' => h.closed (he ▸ hc)
  have hblank : Text.blank [] = true := rfl
  rw [List.cons_append, header?, List.takeWhile_append_of_pos hall,
    List.dropWhile_append_of_pos hall]
  simp [hne, hblank]

theorem header?_entryText (hk : Settable key) (v : Text) : header? (entryText key v) = none := by
  obtain ⟨c, r, rfl, -⟩ := hk.head
  exact header?_eq_none rfl fun hc => hk.bare (congrArg some hc)

def withBlock (p : ProjectFile) (name : Text) : ProjectFile :=
  if p.hasBlock name then p else ⟨p.blocks ++ [⟨name, ['[' :: name ++ [']']]⟩]⟩

theorem setValue_blocks (p : ProjectFile) (name key v : Text) : (p.setValue name key v).blocks =
    changeBlock name (·.setValue key v) (p.withBlock name).blocks := by
  rw [setValue, withBlock]
  split <;> rfl

theorem value?_withBlock (hk : key.head? ≠ some '[') (p : ProjectFile) (name name' : Text) :
    (p.withBlock name).value? name' key = p.value? name' key := by
  rw [withBlock]
  split
  · rfl
  · next hno =>
    have hheader : valueAt? key ('[' :: name ++ [']']) = none := by
      rw [valueAt?_eq_none_iff, ← Bool.not_eq_true]
      exact fun hkey => hk (head?_of_hasKey hkey)
    rw [value?, value?, block?, block?, List.find?_append]
    cases hb : p.blocks.find? (·.name == name') with
    | some b => rfl
    | none =>
      by_cases hn : name = name'
      · rw [← hn]
        simpa [Block.value?_eq] using hheader
      · simp [hn]

theorem exists_block?_withBlock (p : ProjectFile) (name : Text) :
    ∃ b, (p.withBlock name).block? name = some b := by
  rw [withBlock]
  split
  · next h => exact Option.isSome_iff_exists.mp h
  · next h =>
    rw [hasBlock, Bool.not_eq_true, Option.isSome_eq_false_iff, Option.isNone_iff_eq_none] at h
    rw [block?] at h
    exact ⟨⟨name, ['[' :: name ++ [']']]⟩, by simp [block?, h]⟩

theorem Legible.withBlock (h : p.Legible) (ht : IsTitle name) : (p.withBlock name).Legible := by
  rw [ProjectFile.withBlock]
  split
  · exact h
  · next hno =>
    obtain ⟨ls, bs, hp, hls, hbs⟩ := h.cut
    have hne : name ≠ [] := by
      rintro rfl
      simp [hasBlock, block?, hp] at hno
    refine ⟨⟨ls, bs ++ [⟨name, ['[' :: name ++ [']']]⟩], ?_, hls, ?_⟩, fun l hl => ?_⟩
    · rw [hp, List.cons_append]
    · intro b hb
      rcases List.mem_append.mp hb with hb | hb
      · exact hbs b hb
      · rw [List.mem_singleton.mp hb]
        exact ⟨_, [], rfl, header?_of_isTitle ht hne, by simp⟩
    · rw [lines, List.flatMap_append] at hl
      rcases List.mem_append.mp hl with hl | hl
      · exact h.unbroken l hl
      · have hopen : Text.isLineBreak '[' = false ∧ Text.isLineBreak ']' = false := by decide
        have hl : l = '[' :: name ++ [']'] := by simpa using hl
        rw [hl]
        simpa [hopen] using ht.unbroken

theorem Block.name_setValue (b : Block) (key v : Text) : (b.setValue key v).name = b.name := by
  rw [Block.setValue]
  split <;> rfl

theorem hasKey_entryText (hk : IsKey key) (hv : Text.Unbroken v) :
    hasKey key (entryText key v) = true := by
  rw [hasKey_eq_isSome, valueAt?_entryText hk hv, Option.isSome_some]

section

variable (p name) (hk : Settable key) (hv : Text.Unbroken v)

include hk hv

theorem Legible.setValue (h : p.Legible) (ht : IsTitle name) :
    (p.setValue name key v).Legible := by
  refine (h.withBlock ht).changed (setValue_blocks p name key v)
    (fun b => b.name_setValue key v) (fun b => .setValue b key v) hk.bare fun l hl => ?_
  have heq : Text.isLineBreak '=' = false := by decide
  rw [List.mem_singleton.mp hl]
  exact ⟨header?_entryText hk v, by simpa [entryText, heq] using ⟨hk.unbroken, hv⟩⟩

theorem value?_setValue : (p.setValue name key v).value? name key = some v := by
  obtain ⟨b, hb⟩ := exists_block?_withBlock p name
  rw [value?_changed (setValue_blocks p name key v) fun b => b.name_setValue key v, hb,
    Option.bind_some, Block.value?_eq]
  exact (Exchange.setValue b key v).findSome?_self rfl (valueAt?_entryText hk.toIsKey hv)

theorem value?_setValue_of_ne {name' : Text} (hk' : key'.head? ≠ some '[')
    (hne : (name', key') ≠ (name, key)) :
    (p.setValue name key v).value? name' key' = p.value? name' key' := by
  rw [← value?_withBlock hk' p name name']
  refine value?_unchanged (setValue_blocks p name key v) (fun b => b.name_setValue key v)
    fun hn b => ?_
  have hkey : key' ≠ key := fun he => hne (by rw [hn, he])
  rw [Block.value?_eq, Block.value?_eq]
  refine (Exchange.setValue b key v).findSome?_of_ne hkey fun l hl => ?_
  rw [List.mem_singleton.mp hl, hasKey_entryText hk.toIsKey hv]

end

theorem filter_eraseP (q : Text → Bool) (ls : List Text) :
    (ls.eraseP q).filter q = (ls.filter q).tail := by
  have herase : (ls.filter q).eraseP q = (ls.eraseP q).filter q := by
    rw [List.eraseP_filter]
    simp only [Bool.and_self]
  rw [← herase]
  cases hls : ls.filter q with
  | nil => rfl
  | cons l ms =>
    have hl : q l = true := (List.mem_filter.mp (hls ▸ List.mem_cons_self)).2
    rw [List.eraseP_cons_of_pos hl, List.tail_cons]

theorem removeKey_eraseP (p : ProjectFile) (name key : Text) : (p.removeKey name key).1.blocks =
    changeBlock name (onLines (List.eraseP (hasKey key))) p.blocks :=
  removeKey_blocks fun _ _ => rfl

theorem Legible.removeKey (h : p.Legible) (hk : key.head? ≠ some '[') (name : Text) :
    (p.removeKey name key).1.Legible :=
  h.changed (removeKey_eraseP p name key) (fun _ => rfl) (fun b => .eraseP key b.lines) hk (by simp)

theorem value?_removeKey (h : ∀ b, p.block? name = some b → b.lines.countP (hasKey key) ≤ 1) :
    (p.removeKey name key).1.value? name key = none := by
  rw [value?_changed (removeKey_eraseP p name key) fun _ => rfl]
  cases hb : p.block? name with
  | none => rfl
  | some b =>
    have hnone : (b.lines.eraseP (hasKey key)).filter (hasKey key) = [] := by
      have hcount := h b hb
      rw [List.countP_eq_length_filter] at hcount
      rw [filter_eraseP, ← List.length_eq_zero_iff, List.length_tail]
      omega
    rw [Option.bind_some, Block.value?_eq, onLines]
    refine List.findSome?_eq_none_iff.mpr fun l hl => valueAt?_eq_none_iff.mpr ?_
    exact Bool.eq_false_iff.mpr (List.filter_eq_nil_iff.mp hnone l hl)

theorem value?_removeKey_of_ne (p : ProjectFile) {name' : Text}
    (hne : (name', key') ≠ (name, key)) :
    (p.removeKey name key).1.value? name' key' = p.value? name' key' := by
  refine value?_unchanged (removeKey_eraseP p name key) (fun _ => rfl) fun hn b => ?_
  have hkey : key' ≠ key := fun he => hne (by rw [hn, he])
  rw [Block.value?_eq, Block.value?_eq, onLines]
  exact (Exchange.eraseP key b.lines).findSome?_of_ne hkey (by simp)

def AgreeBut (name key : Text) (p q : ProjectFile) : Prop :=
  ∀ name' key', Settable key' → (name', key') ≠ (name, key) →
    q.value? name' key' = p.value? name' key'

/-- A value that is set is the one that is found, and one that is removed is found no more if its
key was there once. No other value changes. All this is so before and after the project file is
written and read again. -/
theorem values_after_edit (s : Text) (ht : IsTitle name) (hk : Settable key)
    (hv : Text.Unbroken v) :
    let p := read s
    let set := p.setValue name key v
    let removed := (p.removeKey name key).1
    (∀ q, q = set ∨ q = read set.text → q.value? name key = some v ∧ AgreeBut name key p q) ∧
    ((∀ b, p.block? name = some b → b.lines.countP (hasKey key) ≤ 1) →
      ∀ q, q = removed ∨ q = read removed.text →
        q.value? name key = none ∧ AgreeBut name key p q) := by
  intro p set removed
  -- legible files have the same values after they are read again
  have hset : set.Legible := (legible_read s).setValue p name hk hv ht
  have hremoved : removed.Legible := (legible_read s).removeKey hk.bare name
  have hvalue : set.value? name key = some v := value?_setValue p name hk hv
  have hagree : AgreeBut name key p set := fun _ _ hk' =>
    value?_setValue_of_ne p name hk hv hk'.bare
  have hagree' : AgreeBut name key p removed := fun _ _ _ => value?_removeKey_of_ne p
  constructor
  · rintro q (rfl | rfl)
    · exact ⟨hvalue, hagree⟩
    · refine ⟨by rw [hset.value?_reread, hvalue], fun name' key' hk' hne => ?_⟩
      rw [hset.value?_reread, hagree name' key' hk' hne]
  · intro hcount q hq
    have hnone : removed.value? name key = none := value?_removeKey hcount
    rcases hq with rfl | rfl
    · exact ⟨hnone, hagree'⟩
    · refine ⟨by rw [hremoved.value?_reread, hnone], fun name' key' hk' hne => ?_⟩
      rw [hremoved.value?_reread, hagree' name' key' hk' hne]

def repeatingText : Text := "a=1\n; k=0\n[s]\n k=1\nk=2\n\n[s]\nk=3\nk=4\n[t=]\nk=5\n\n"

theorem values_after_edit_repeating :
    let p := read repeatingText
    let set := p.setValue "s" "k" "x=9"
    let removed := (p.removeKey "s" "k").1
    IsTitle "s" ∧ Settable "k" ∧ Text.Unbroken "x=9" ∧ Settable "a" ∧
    (∀ b, p.block? "s" = some b → b.lines.countP (hasKey "k") ≤ 1) ∧
    (read set.text).value? "s" "k" = some "x=9" ∧ (read set.text).value? "t=" "k" = some "5" ∧
    (read removed.text).value? "s" "k" = none ∧ (read removed.text).value? [] "a" = some "1" := by
  intro p set removed
  have ht : IsTitle "s" := ⟨by decide, by decide⟩
  have hk : Settable "k" := ⟨⟨⟨'k', [], rfl, by decide⟩, by decide⟩, by decide, by decide⟩
  have ha : Settable "a" := ⟨⟨⟨'a', [], rfl, by decide⟩, by decide⟩, by decide, by decide⟩
  have hv : Text.Unbroken "x=9" := by decide
  have hcount : ∀ b, p.block? "s" = some b → b.lines.countP (hasKey "k") ≤ 1 := fun b hb => by
    have hone : (p.block? "s").map (fun b => b.lines.countP (hasKey "k")) = some 1 := by decide
    rw [hb] at hone
    exact (Option.some.inj hone).le
  obtain ⟨hset, hremoved⟩ := values_after_edit repeatingText ht hk hv
  have hother : p.value? "t=" "k" = some "5" ∧ p.value? [] "a" = some "1" := by decide
  refine ⟨ht, hk, hv, ha, hcount, (hset _ (.inr rfl)).1, ?_, (hremoved hcount _ (.inr rfl)).1, ?_⟩
  · exact ((hset _ (.inr rfl)).2 "t=" "k" hk (by decide)).trans hother.1
  · exact ((hremoved hcount _ (.inr rfl)).2 [] "a" ha (by decide)).trans hother.2

end Coursework.ProjectFile
