import Coursework.Proofs.FileTree.Places

namespace Coursework.FileTree

variable {t u v : FileTree} {p q : Path} {l m : Location} {content : Utf8.Bytes} {time : Int}
  {D D' S S' E F : Location → Prop}

structure Alters (t u : FileTree) (D S : Location → Prop) : Prop where
  wellFormed : u.WellFormed
  place : u.place = t.place
  get? : ∀ l, u.get? l = t.get? l ∨ (D l ∧ t.get? l = none ∧ u.get? l = some .directory) ∨
    (S l ∧ t.get? l ≠ some .directory ∧ ∃ c τ, u.get? l = some (.file c τ))

namespace Alters

theorem refl (h : t.WellFormed) (D S : Location → Prop) : t.Alters t D S :=
  ⟨h, rfl, fun _ => .inl rfl⟩

theorem mono (h : t.Alters u D S) (hd : ∀ l, D l → D' l) (hs : ∀ l, S l → S' l) :
    t.Alters u D' S' where
  wellFormed := h.wellFormed
  place := h.place
  get? l := (h.get? l).imp_right (Or.imp (And.imp_left (hd l)) (And.imp_left (hs l)))

theorem directory (h : t.Alters u D S) (hd : t.get? l = some .directory) :
    u.get? l = some .directory := by
  rcases h.get? l with hg | ⟨-, hg, -⟩ | ⟨-, hg, -⟩
  · rw [hg, hd]
  · rw [hg] at hd
    cases hd
  · exact absurd hd hg

theorem trans (h : t.Alters u D S) (k : u.Alters v D S) : t.Alters v D S where
  wellFormed := k.wellFormed
  place := k.place.trans h.place
  get? l := by
    rcases k.get? l with hk | ⟨hl, hk, hd⟩ | ⟨hl, hk, hf⟩
    · rw [hk]
      exact h.get? l
    · rcases h.get? l with hh | ⟨-, -, hh⟩ | ⟨-, -, c, τ, hh⟩
      · exact .inr (.inl ⟨hl, hh ▸ hk, hd⟩)
      · rw [hh] at hk
        cases hk
      · rw [hh] at hk
        cases hk
    · exact .inr (.inr ⟨hl, fun hd => hk (h.directory hd), hf⟩)

theorem get?_of_not (h : t.Alters u D S) (hd : ¬D l) (hs : ¬S l) : u.get? l = t.get? l := by
  rcases h.get? l with hg | ⟨hl, -⟩ | ⟨hl, -⟩
  · exact hg
  · exact absurd hl hd
  · exact absurd hl hs

theorem file_iff (h : t.Alters u D S) (hs : ¬S l) :
    u.get? l = some (.file content time) ↔ t.get? l = some (.file content time) := by
  rcases h.get? l with hg | ⟨-, hg, hd⟩ | ⟨hl, -⟩
  · rw [hg]
  · simp [hg, hd]
  · exact absurd hl hs

theorem present (h : t.Alters u D S) (hg : ∃ e, t.get? l = some e) : ∃ e, u.get? l = some e := by
  rcases h.get? l with hl | ⟨-, -, hl⟩ | ⟨-, -, c, τ, hl⟩
  · rwa [hl]
  · exact ⟨_, hl⟩
  · exact ⟨_, hl⟩

theorem confined (h : t.Alters u D S) : t.Confined u S where
  wellFormed := h.wellFormed
  place := h.place
  directory _ hd := h.directory hd
  outside l hl := by
    rcases h.get? l with hg | ⟨-, hg⟩ | ⟨hs, -⟩
    · exact .inl hg
    · exact .inr hg
    · exact absurd hs hl

end Alters

theorem Extends.alters (h : t.Extends u m) (hd : ∀ l, l <+: m → D l) : t.Alters u D S where
  wellFormed := h.wellFormed
  place := h.place
  get? l := by
    rcases h.get? l with hg | ⟨hg, hu, hl⟩
    · exact .inl hg
    · exact .inr (.inl ⟨hd l hl, hg, hu⟩)

theorem WellFormed.writeBytes_alters (h : t.WellFormed) (hp : p.Descends)
    (hw : t.writeBytes p content time = .ok u) (hs : S (t.landing p)) : t.Alters u D S := by
  have hu := h.writeBytes hp hw
  obtain ⟨-, -, hne, rfl⟩ := (h.writeBytes_eq_ok_iff hp).mp hw
  refine ⟨hu, rfl, fun m => ?_⟩
  rw [get?_put _ _ (landing_ne_nil hne)]
  split
  · next hm =>
    right
    right
    rw [hm]
    exact ⟨hs, hne, content, time, rfl⟩
  · exact .inl rfl

theorem WellFormed.follow_blocked (h : t.WellFormed) {here names k : List Text} {c : Utf8.Bytes}
    {τ : Int} (hn : ['.', '.'] ∉ names) (hk : k <+: names) (hne : k ≠ names)
    (hf : t.get? (here ++ k) = some (.file c τ)) :
    t.follow here names = .error .notDirectory := by
  induction names generalizing here k with
  | nil => exact absurd (List.prefix_nil.mp hk) hne
  | cons name names ih =>
    rw [List.mem_cons, not_or] at hn
    rw [FileTree.follow]
    cases k with
    | nil =>
      rw [List.append_nil] at hf
      rw [hf]
    | cons x k =>
      obtain ⟨rfl, hpre⟩ := List.cons_prefix_cons.mp hk
      rw [h.above (by simp) hf]
      simp only [if_neg (Ne.symm hn.1)]
      apply ih hn.2 hpre
      · exact fun he => hne (by rw [he])
      · simpa using hf

theorem WellFormed.locate_blocked (h : t.WellFormed) (hp : p.Descends) {c : Utf8.Bytes} {τ : Int}
    (hm : m <+: t.landing p) (hne : m ≠ t.landing p) (hf : t.get? m = some (.file c τ)) :
    t.locate p = .error .notDirectory := by
  rw [landing] at hm hne
  have hbase : t.get? (t.base p.anchor) = some .directory := by
    rw [FileTree.base]
    split
    · exact h.here
    · rfl
  rcases List.prefix_or_prefix_of_prefix hm (List.prefix_append _ _) with hb | ⟨k, rfl⟩
  · obtain ⟨k, hk⟩ := hb
    by_cases hnil : k = []
    · rw [← hk, hnil, List.append_nil, hf] at hbase
      cases hbase
    · rw [← hk] at hbase
      rw [h.above hnil hbase] at hf
      cases hf
  · rw [List.prefix_append_right_inj] at hm
    exact h.follow_blocked hp hm (fun he => hne (by rw [he])) hf

def blocked (t : FileTree) (p : Path) (m : Location) : FileFault :=
  if m = t.landing p then .present p else .notDirectory p

theorem blocked_congr (h : u.place = t.place) (p : Path) : u.blocked p m = t.blocked p m := by
  rw [blocked, blocked, landing_congr h]

theorem WellFormed.ensureDirectories_blocked (h : t.WellFormed) (hp : p.Descends)
    (hn : p.hasNull = false) {c : Utf8.Bytes} {τ : Int} (hm : m <+: t.landing p)
    (hf : t.get? m = some (.file c τ)) : t.ensureDirectories p = (t, some (t.blocked p m)) := by
  have hdir : t.hasDirectory p ≠ true := by
    rw [Ne, hasDirectory_iff h hp]
    intro hd
    obtain ⟨k, hk⟩ := hm
    by_cases hnil : k = []
    · rw [← hk, hnil, List.append_nil, hf] at hd
      cases hd
    · rw [← hk] at hd
      rw [h.above hnil hd] at hf
      cases hf
  rw [FileTree.ensureDirectories, FileTree.ensureDirectoriesWithin, FileTree.makeDirectory,
    if_neg (by simp [hn]), blocked]
  by_cases he : m = t.landing p
  · rw [he] at hf
    rw [h.locate_of_get? hp hf]
    simp [hf, he, hdir]
  · rw [h.locate_blocked hp hm he hf]
    simp [Obstacle.fault, he, hdir]

def turns : Location → List Text → List Location
  | _, [] => []
  | here, name :: names =>
    if name = ['.', '.'] then here :: turns here.dropLast names else turns (here ++ [name]) names

def turnsOf (t : FileTree) (p : Path) : List Location := turns (t.base p.anchor) p.parts

theorem turns_eq_nil {here names : List Text} (hn : ['.', '.'] ∉ names) :
    turns here names = [] := by
  induction names generalizing here with
  | nil => rfl
  | cons name names ih =>
    rw [List.mem_cons, not_or] at hn
    rw [turns, if_neg (Ne.symm hn.1)]
    exact ih hn.2

theorem WellFormed.follow_of_turns (hu : u.WellFormed) {here names : List Text} {e : Entry}
    (hm : ∀ m ∈ turns here names, t.get? m = some .directory → u.get? m = some .directory)
    (hl : t.follow here names = .ok l) (he : u.get? l = some e) :
    u.follow here names = .ok l ∧ (names ≠ [] → u.get? here = some .directory) := by
  -- a directory that a name leads up from is given, and any other one lies above what is found
  induction names generalizing here with
  | nil => exact ⟨hl, fun hne => absurd rfl hne⟩
  | cons name names ih =>
    rw [FileTree.follow] at hl ⊢
    rw [turns] at hm
    split at hl
    · cases hl
    · cases hl
    · next hd =>
      have hhere : u.get? here = some .directory := by
        by_cases hup : name = ['.', '.']
        · rw [if_pos hup] at hm
          exact hm here List.mem_cons_self hd
        · rw [if_neg hup] at hm hl
          obtain ⟨hf, hnext⟩ := ih hm hl
          by_cases hnil : names = []
          · rw [hnil, FileTree.follow] at hl
            rw [← Except.ok.inj hl] at he
            exact hu.parents _ _ _ he
          · exact hu.parents _ _ _ (hnext hnil)
      rw [hhere]
      refine ⟨?_, fun _ => rfl⟩
      simp only
      apply (ih _ hl).1
      intro m hmem
      split at hmem
      · next hup =>
        rw [if_pos hup] at hm
        exact hm m (List.mem_cons_of_mem _ hmem)
      · next hup =>
        rw [if_neg hup] at hm
        exact hm m hmem

theorem entry_of_turns (ht : t.WellFormed) (hu : u.WellFormed) (hplace : u.place = t.place)
    {e : Entry}
    (hm : ∀ m ∈ t.turnsOf p, t.get? m = some .directory → u.get? m = some .directory)
    (hk : t.get? (t.site p) = some e → u.get? (t.site p) = some e) (he : t.entry p = some e) :
    u.entry p = some e := by
  obtain ⟨l, hl, hg⟩ := entry_eq_some_iff.mp he
  obtain rfl := ht.locate_eq_site hl
  have hg' := hk hg
  refine entry_eq_some_iff.mpr ⟨_, ?_, hg'⟩
  rw [locate, hplace]
  exact (hu.follow_of_turns hm hl hg').1

structure Alike (t u : FileTree) (E F : Location → Prop) : Prop where
  left : t.WellFormed
  right : u.WellFormed
  place : u.place = t.place
  entry : ∀ l, E l → u.get? l = t.get? l
  file : ∀ l, F l → ∀ c τ, u.get? l = some (.file c τ) ↔ t.get? l = some (.file c τ)

theorem Alters.alike (k : t.Alters u D S) (h : t.WellFormed) (he : ∀ l, E l → ¬D l ∧ ¬S l)
    (hf : ∀ l, F l → ¬S l) : t.Alike u E F where
  left := h
  right := k.wellFormed
  place := k.place
  entry l hl := k.get?_of_not (he l hl).1 (he l hl).2
  file l hl _ _ := k.file_iff (hf l hl)

inductive Paired {ε α : Type} (R : α → α → Prop) : Except ε α → Except ε α → Prop
  | error (e : ε) : Paired R (.error e) (.error e)
  | ok {a a' : α} (h : R a a') : Paired R (.ok a) (.ok a')

namespace Alike

theorem landing (h : t.Alike u E F) (p : Path) : u.landing p = t.landing p :=
  landing_congr h.place p

theorem file_iff (h : t.Alike u E F) (hl : E l ∨ F l) :
    u.get? l = some (.file content time) ↔ t.get? l = some (.file content time) := by
  rcases hl with he | hf
  · rw [h.entry l he]
  · exact h.file l hf content time

theorem entry_eq (h : t.Alike u E F) (hp : p.Descends) (he : E (t.landing p)) :
    u.entry p = t.entry p := by
  rw [h.left.entry_eq hp, h.right.entry_eq hp, h.landing]
  exact h.entry _ he

theorem readBytes (h : t.Alike u E F) (hp : p.Descends) (he : E (t.landing p)) {e : Entry}
    (hg : t.get? (t.landing p) = some e) : u.readBytes p = t.readBytes p := by
  have hu : u.get? (u.landing p) = some e := by
    rw [h.landing, h.entry _ he, hg]
  rw [FileTree.readBytes, FileTree.readBytes, h.left.locate_of_get? hp hg,
    h.right.locate_of_get? hp hu]
  simp only [hg, hu]

theorem put (h : t.Alike u E F) (hl : l ≠ []) {e : Entry} (ht : (t.put l e).WellFormed)
    (hu : (u.put l e).WellFormed) : (t.put l e).Alike (u.put l e) E F where
  left := ht
  right := hu
  place := h.place
  entry m hm := by
    rw [get?_put _ _ hl, get?_put _ _ hl, h.entry m hm]
  file m hm c τ := by
    rw [get?_put _ _ hl, get?_put _ _ hl]
    split
    · exact Iff.rfl
    · exact h.file m hm c τ

theorem writeBytes (h : t.Alike u E F) (hp : p.Descends) (he : E (t.landing p))
    (ht : t.get? (t.landing p.parent) = some .directory)
    (hu : u.get? (u.landing p.parent) = some .directory) (content : Utf8.Bytes) (time : Int) :
    Paired (fun t' u' => t'.Alike u' E F) (t.writeBytes p content time)
      (u.writeBytes p content time) := by
  have hlt : t.locate p = .ok (t.landing p) := (h.left.locate_eq_ok_iff hp).mpr ⟨rfl, fun _ => ht⟩
  have hlu : u.locate p = .ok (t.landing p) :=
    (h.right.locate_eq_ok_iff hp).mpr ⟨(h.landing p).symm, fun _ => hu⟩
  cases hw : t.writeBytes p content time with
  | error e =>
    have hwu : u.writeBytes p content time = .error e := by
      rw [FileTree.writeBytes] at hw ⊢
      simp only [hlt] at hw
      simp only [hlu, h.entry _ he]
      split at hw
      · next hn => rw [if_pos hn, hw]
      · next hn =>
        rw [if_neg hn]
        split at hw
        · exact hw
        · cases hw
    rw [hwu]
    exact .error e
  | ok t' =>
    have hwf := h.left.writeBytes hp hw
    obtain ⟨hn, -, hne, rfl⟩ := (h.left.writeBytes_eq_ok_iff hp).mp hw
    have hwu : u.writeBytes p content time = .ok (u.put (t.landing p) (.file content time)) := by
      refine (h.right.writeBytes_eq_ok_iff hp).mpr ⟨hn, fun _ => hu, ?_, ?_⟩
      · rw [h.landing, h.entry _ he]
        exact hne
      · rw [h.landing]
    rw [hwu]
    exact .ok (h.put (landing_ne_nil hne) hwf (h.right.writeBytes hp hwu))

theorem ensureDirectories_made (h : t.Alike u E F) (hp : p.Descends)
    (ht : (t.ensureDirectories p).2 = none) (hu : (u.ensureDirectories p).2 = none) :
    (t.ensureDirectories p).1.Alike (u.ensureDirectories p).1 E F := by
  obtain ⟨hx, hd⟩ := h.left.ensureDirectories hp
  obtain ⟨hy, hd'⟩ := h.right.ensureDirectories hp
  rw [h.landing] at hy hd'
  have hon : ∀ {v : FileTree}, v.WellFormed → v.get? (t.landing p) = some .directory →
      ∀ {m}, m <+: t.landing p → v.get? m = some .directory := by
    rintro v hv hg m ⟨k, hk⟩
    by_cases hnil : k = []
    · rwa [← hk, hnil, List.append_nil] at hg
    · exact hv.above hnil (hk ▸ hg)
  have hoff : ∀ {v w : FileTree}, v.Extends w (t.landing p) → ∀ {m}, ¬m <+: t.landing p →
      w.get? m = v.get? m := fun hx _ hm =>
    (hx.get? _).resolve_right fun hg => hm hg.2.2
  refine ⟨hx.wellFormed, hy.wellFormed, ?_, fun m hm => ?_, fun m hm c τ => ?_⟩
  · rw [hy.place, hx.place, h.place]
  · by_cases hpre : m <+: t.landing p
    · rw [hon hx.wellFormed (hd ht) hpre, hon hy.wellFormed (hd' hu) hpre]
    · rw [hoff hx hpre, hoff hy hpre, h.entry m hm]
  · by_cases hpre : m <+: t.landing p
    · rw [hon hx.wellFormed (hd ht) hpre, hon hy.wellFormed (hd' hu) hpre]
    · rw [hoff hx hpre, hoff hy hpre, h.file m hm]

theorem ensureDirectories (h : t.Alike u E F) (hp : p.Descends)
    (hw : ∀ m, m <+: t.landing p → E m ∨ F m) (he : p.hasNull = true → E (t.landing p)) :
    (u.ensureDirectories p).2 = (t.ensureDirectories p).2 ∧
      (t.ensureDirectories p).1.Alike (u.ensureDirectories p).1 E F := by
  by_cases hn : p.hasNull = true
  · rw [ensureDirectories_of_hasNull hn, ensureDirectories_of_hasNull hn, hasDirectory,
      hasDirectory, h.entry_eq hp (he hn)]
    exact ⟨rfl, h⟩
  · rw [Bool.not_eq_true] at hn
    by_cases hfile : ∃ m, m <+: t.landing p ∧ ∃ c τ, t.get? m = some (.file c τ)
    · obtain ⟨m, hm, c, τ, hg⟩ := hfile
      have hg' := (h.file_iff (hw m hm)).mpr hg
      rw [h.left.ensureDirectories_blocked hp hn hm hg,
        h.right.ensureDirectories_blocked hp hn (h.landing p ▸ hm) hg', blocked_congr h.place]
      exact ⟨rfl, h⟩
    · have ht : (t.ensureDirectories p).2 = none := by
        apply h.left.ensureDirectories_free hp hn
        exact fun m hm c τ hg => hfile ⟨m, hm, c, τ, hg⟩
      have hu : (u.ensureDirectories p).2 = none := by
        apply h.right.ensureDirectories_free hp hn
        rw [h.landing]
        exact fun m hm c τ hg => hfile ⟨m, hm, c, τ, (h.file_iff (hw m hm)).mp hg⟩
      exact ⟨hu.trans ht.symm, h.ensureDirectories_made hp ht hu⟩

end Alike

end Coursework.FileTree
