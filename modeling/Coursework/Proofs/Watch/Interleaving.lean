import Mathlib
import Coursework.Proofs.Keyed
import Coursework.Watch.Session

/-!
Changes, timers and rebuilds in any order, each rebuild with a start and an end. Until the timers
are cancelled, a change that counts is followed by a rebuild or has one coming.
-/

namespace Coursework.Watch

variable {τ : Type}

def Change.exercise? (root : Path) (place : Location) (c : Change) : Option Path :=
  if c.counts then
    match exerciseFor root ((Path.ofText c.path).absolute place) with
    | .ok d => d
    | .error _ => none
  else none

structure Timer (τ : Type) where
  directory : Path
  started : τ
  delay : τ
  deriving DecidableEq

def Timer.due [Add τ] (t : Timer τ) : τ := t.started + t.delay

/-- What goes on at a moment. Rebuilds run one at a time; those that were asked for and did not
start yet wait. -/
structure Watcher (τ : Type) where
  clock : τ
  state : State τ := {}
  timers : List (Timer τ) := []
  waiting : List Path := []
  running : Option Path := none

namespace Watcher

def schedule (w : Watcher τ) (d : Path) (delay : τ) : Watcher τ :=
  if d ∈ w.state.pending then w
  else { w with state := w.state.schedule d, timers := w.timers ++ [⟨d, w.clock, delay⟩] }

def ask (w : Watcher τ) (d : Path) : Watcher τ := { w with waiting := w.waiting ++ [d] }

def Expects (w : Watcher τ) (d : Path) : Prop := d ∈ w.timers.map Timer.directory ∨ d ∈ w.waiting

end Watcher

inductive Action
  | pass
  | change (c : Change)
  | expire (d : Path)
  | start (d : Path)
  | finish (d : Path)
  | cancel
  deriving DecidableEq

section Steps

variable [Zero τ] [Add τ] [Sub τ] [LinearOrder τ]

inductive Step (window : τ) (root : Path) (place : Location) :
    Watcher τ → Action → Watcher τ → Prop
  | pass {w later} (h : w.clock ≤ later) : Step window root place w .pass { w with clock := later }
  | ignore {w c} (h : c.exercise? root place = none) : Step window root place w (.change c) w
  | defer {w c d delay} (h : c.exercise? root place = some d)
      (hr : w.state.react window w.clock d = .wait delay) :
      Step window root place w (.change c) (w.schedule d delay)
  | request {w c d} (h : c.exercise? root place = some d)
      (hr : w.state.react window w.clock d = .rebuild) :
      Step window root place w (.change c) (w.ask d)
  | expire {w t} (ht : t ∈ w.timers) (hd : t.due ≤ w.clock) :
      Step window root place w (.expire t.directory) (Watcher.ask { w with
        state := w.state.expire t.directory
        timers := w.timers.erase t } t.directory)
  | start {w d} (hd : d ∈ w.waiting) (hr : w.running = none) :
      Step window root place w (.start d) { w with
        state := w.state.start
        waiting := w.waiting.erase d
        running := some d }
  | finish {w d} (hr : w.running = some d) :
      Step window root place w (.finish d) { w with
        state := w.state.finish d w.clock
        running := none }
  | cancel {w timers} (hs : timers.Sublist w.timers) (hd : ∀ t ∈ timers, t.due ≤ w.clock) :
      Step window root place w .cancel { w with
        state := w.state.cancelAll
        timers := timers }

inductive Run (window : τ) (root : Path) (place : Location) (w : Watcher τ) :
    List Action → Watcher τ → Prop
  | nil : Run window root place w [] w
  | snoc {acts a u v} (h : Run window root place w acts u) (hs : Step window root place u a v) :
      Run window root place w (acts ++ [a]) v

end Steps

variable [AddCommGroup τ] [LinearOrder τ] {window now : τ} {root : Path} {place : Location}
  {w u v : Watcher τ} {a : Action} {acts : List Action} {d e : Path} {s : State τ} {delay : τ}

theorem delay_of_react [IsOrderedAddMonoid τ] (hw : 0 < window) (hb : s.builtAt d ≤ now)
    (h : s.react window now d = .wait delay) : 0 < delay ∧ delay ≤ window := by
  simp only [State.react] at h
  split at h
  · rw [← Reaction.wait.inj h]
    exact ⟨hw, le_refl _⟩
  · split at h
    · next hpos =>
      rw [← Reaction.wait.inj h]
      exact ⟨hpos, (sub_le_self_iff _).mpr (sub_nonneg.mpr hb)⟩
    · cases h

omit [LinearOrder τ] in
theorem builtAt_finish (s : State τ) (d e : Path) (now : τ) :
    (s.finish d now).builtAt e = if e = d then now else s.builtAt e := by
  rw [State.builtAt, State.finish, Keyed.get?_set]
  split <;> rfl

/-- The timers that run are those of the exercises noted as pending, one for each, with delays of
at most the window, and no rebuild has ended later than now. -/
structure Watcher.Orderly (window : τ) (w : Watcher τ) : Prop where
  timers : w.timers.map Timer.directory = w.state.pending
  nodup : w.state.pending.Nodup
  delays : ∀ t ∈ w.timers, 0 < t.delay ∧ t.delay ≤ window
  built : ∀ d, w.state.builtAt d ≤ w.clock

omit [AddCommGroup τ] in
theorem map_directory_erase {timers : List (Timer τ)} {t : Timer τ} (ht : t ∈ timers)
    (hn : (timers.map Timer.directory).Nodup) :
    (timers.erase t).map Timer.directory = (timers.map Timer.directory).erase t.directory := by
  induction timers with
  | nil => cases ht
  | cons x xs ih =>
    rw [List.map_cons, List.nodup_cons] at hn
    by_cases hx : x = t
    · rw [hx, List.erase_cons_head, List.map_cons, List.erase_cons_head]
    · have ht := (List.mem_cons.mp ht).resolve_left (Ne.symm hx)
      have hd : x.directory ≠ t.directory := fun he => hn.1 (he ▸ List.mem_map_of_mem ht)
      rw [List.erase_cons_tail (by simpa using hx), List.map_cons, List.map_cons,
        List.erase_cons_tail (by simpa using hd), ih ht hn.2]

theorem Watcher.Orderly.schedule (h : w.Orderly window) (hd : 0 < delay ∧ delay ≤ window) :
    (w.schedule d delay).Orderly window := by
  rw [Watcher.schedule]
  split
  · exact h
  · next hnew =>
    constructor
    · simp [State.schedule, hnew, h.timers]
    · simp only [State.schedule, hnew, if_false]
      exact List.nodup_append.mpr ⟨h.nodup, List.nodup_singleton _, by
        rintro x hx y hy rfl
        exact hnew (List.mem_singleton.mp hy ▸ hx)⟩
    · intro t ht
      rcases List.mem_append.mp ht with ht | ht
      · exact h.delays t ht
      · rw [List.mem_singleton.mp ht]
        exact hd
    · simp only [State.schedule, hnew, if_false]
      exact h.built

theorem Step.orderly [IsOrderedAddMonoid τ] (hw : 0 < window)
    (hs : Step window root place w a v) (ha : a ≠ .cancel) (h : w.Orderly window) :
    v.Orderly window := by
  cases hs with
  | pass hl => exact ⟨h.timers, h.nodup, h.delays, fun d => (h.built d).trans hl⟩
  | ignore hc => exact h
  | defer hc hr => exact h.schedule (delay_of_react hw (h.built _) hr)
  | request hc hr => exact ⟨h.timers, h.nodup, h.delays, h.built⟩
  | expire ht hd =>
    refine ⟨?_, h.nodup.erase _, fun t ht => h.delays t (List.mem_of_mem_erase ht), h.built⟩
    simp only [Watcher.ask, State.expire]
    rw [map_directory_erase ht (h.timers ▸ h.nodup), h.timers]
  | start hd hr => exact ⟨h.timers, h.nodup, h.delays, h.built⟩
  | finish hr =>
    refine ⟨h.timers, h.nodup, h.delays, fun e => ?_⟩
    rw [builtAt_finish]
    split
    · exact le_refl _
    · exact h.built e
  | cancel hs hd => exact absurd rfl ha

theorem Run.orderly [IsOrderedAddMonoid τ] (hw : 0 < window) (hrun : Run window root place w acts v)
    (hc : .cancel ∉ acts) (h : w.Orderly window) : v.Orderly window := by
  induction hrun with
  | nil => exact h
  | snoc _ hs ih =>
    rw [List.mem_append, not_or] at hc
    exact hs.orderly hw (fun ha => hc.2 (by simp [ha])) (ih hc.1)

theorem Step.expects_of_change (h : w.Orderly window) {c : Change}
    (hs : Step window root place w (.change c) v) (hd : c.exercise? root place = some d) :
    v.Expects d := by
  cases hs with
  | ignore hc =>
    rw [hc] at hd
    cases hd
  | defer hc hr =>
    obtain rfl := Option.some.inj (hc.symm.trans hd)
    left
    rw [Watcher.schedule]
    split
    · next hm => exact h.timers ▸ hm
    · simp
  | request hc hr =>
    obtain rfl := Option.some.inj (hc.symm.trans hd)
    exact .inr (by simp [Watcher.ask])

theorem Step.expects (hs : Step window root place w a v) (hc : a ≠ .cancel) (hd : a ≠ .start d)
    (h : w.Expects d) : v.Expects d := by
  cases hs with
  | pass | ignore | finish => exact h
  | defer hc hr =>
    rw [Watcher.schedule]
    split
    · exact h
    · exact h.imp_left fun hm => by simp [hm]
  | request hc hr => exact h.imp_right fun hm => by simp [Watcher.ask, hm]
  | @expire t ht _ =>
    rcases h with hm | hm
    · obtain ⟨x, hx, rfl⟩ := List.mem_map.mp hm
      by_cases hxt : x = t
      · exact .inr (by simp [Watcher.ask, hxt])
      · exact .inl (List.mem_map_of_mem ((List.mem_erase_of_ne hxt).mpr hx))
    · exact .inr (by simp [Watcher.ask, hm])
  | start hw hr =>
    have hne : d ≠ _ := fun he => hd (congrArg Action.start he.symm)
    exact h.imp_right fun hm => (List.mem_erase_of_ne hne).mpr hm
  | cancel => exact absurd rfl hc

theorem Run.expects (hrun : Run window root place w acts v) (hc : .cancel ∉ acts)
    (hd : .start d ∉ acts) (h : w.Expects d) : v.Expects d := by
  induction hrun with
  | nil => exact h
  | snoc _ hs ih =>
    rw [List.mem_append, not_or] at hc hd
    exact hs.expects (fun ha => hc.2 (by simp [ha])) (fun ha => hd.2 (by simp [ha])) (ih hc.1 hd.1)

omit [AddCommGroup τ] in
theorem Run.split [Zero τ] [Add τ] [Sub τ] {before after : List Action}
    (hrun : Run window root place w acts v) (h : acts = before ++ a :: after) :
    ∃ x y, Run window root place w before x ∧ Step window root place x a y ∧
      Run window root place y after v := by
  induction hrun generalizing after with
  | nil => simp at h
  | @snoc acts b u v hrun hs ih =>
    rcases List.eq_nil_or_concat after with rfl | ⟨after, c, rfl⟩
    · obtain ⟨rfl, hb⟩ := List.append_inj' h rfl
      obtain rfl := List.singleton_inj.mp hb
      exact ⟨u, v, hrun, hs, .nil⟩
    · rw [List.concat_eq_append, ← List.cons_append, ← List.append_assoc] at h
      obtain ⟨hacts, hb⟩ := List.append_inj' h rfl
      obtain rfl := List.singleton_inj.mp hb
      obtain ⟨x, y, hx, hstep, hy⟩ := ih hacts
      rw [List.concat_eq_append]
      exact ⟨x, y, hx, hstep, hy.snoc hs⟩

theorem orderly_start (hn : 0 ≤ now) : Watcher.Orderly window { clock := now } :=
  ⟨rfl, List.nodup_nil, fun _ ht => absurd ht List.not_mem_nil, fun _ => hn⟩

/-- Until the timers are cancelled, those that run are those of the exercises noted as pending, at
most one for each and with delays of at most the window, and after a change that counts a timer
for its exercise runs or a rebuild of it waits, unless one has started since. -/
theorem no_change_lost [IsOrderedAddMonoid τ] (hw : 0 < window) (hn : 0 ≤ now)
    (hrun : Run window root place { clock := now } acts w) (hc : .cancel ∉ acts) :
    (w.timers.map Timer.directory = w.state.pending ∧ w.state.pending.Nodup) ∧
    (∀ t ∈ w.timers, 0 < t.delay ∧ t.delay ≤ window) ∧
    ∀ d c before after, acts = before ++ .change c :: after → c.exercise? root place = some d →
      .start d ∉ after → (∃ t ∈ w.timers, t.directory = d) ∨ d ∈ w.waiting := by
  have h := hrun.orderly hw hc (orderly_start hn)
  refine ⟨⟨h.timers, h.nodup⟩, h.delays, fun d c before after hacts hd hstart => ?_⟩
  obtain ⟨x, y, hx, hstep, hy⟩ := hrun.split hacts
  rw [hacts, List.mem_append, List.mem_cons, not_or, not_or] at hc
  have hexpects := hstep.expects_of_change (hx.orderly hw hc.1 (orderly_start hn)) hd
  rcases hy.expects hc.2.2 hstart hexpects with hm | hm
  · exact .inl (List.mem_map.mp hm)
  · exact .inr hm

def exampleRoot : Path := Path.ofText "/w/s"

def exampleSave : Change := { kind := "modified", source := "/w/s/l/a.gd" }

def exampleActs : List Action :=
  [.change exampleSave, .start (exampleRoot.child "l"), .change exampleSave,
    .finish (exampleRoot.child "l")]

theorem no_change_lost_example :
    ∃ w, Run (1000 : Int) exampleRoot [] { clock := 5000 } exampleActs w ∧
      ((∃ t ∈ w.timers, t.directory = exampleRoot.child "l") ∨
        exampleRoot.child "l" ∈ w.waiting) := by
  have hd : exampleSave.exercise? exampleRoot [] = some (exampleRoot.child "l") := by decide +kernel
  have h₀ : Run (1000 : Int) exampleRoot [] { clock := 5000 } [] { clock := 5000 } := .nil
  have h₁ := h₀.snoc (.request hd (by decide +kernel))
  have h₂ := h₁.snoc (.start (d := exampleRoot.child "l") (by decide +kernel) rfl)
  have hr : State.react (1000 : Int) 5000 (State.start {}) (exampleRoot.child "l") =
      .wait 1000 := by decide +kernel
  have h₃ := h₂.snoc (.defer hd hr)
  have h₄ := h₃.snoc (.finish rfl)
  have hlost := no_change_lost (by decide) (by decide) h₄ (by decide +kernel)
  exact ⟨_, h₄, hlost.2.2 (exampleRoot.child "l") exampleSave
    [.change exampleSave, .start (exampleRoot.child "l")] [.finish (exampleRoot.child "l")] rfl hd
    (by decide +kernel)⟩

end Coursework.Watch
