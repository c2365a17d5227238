import Mathlib
import Coursework.Proofs.Watch.Interleaving

namespace Coursework.Watch

variable {τ : Type} [AddCommGroup τ] [LinearOrder τ] {window now moment : τ} {root : Path}
  {place : Location} {w u v x : Watcher τ} {a : Action} {acts : List Action} {d : Path}

structure Watcher.Rests (w : Watcher τ) (d : Path) (moment : τ) : Prop where
  timers : ∀ t ∈ w.timers, t.directory = d → moment ≤ t.due
  waiting : d ∈ w.waiting → moment ≤ w.clock

structure Watcher.Closed (window : τ) (w : Watcher τ) (d : Path) (moment : τ) : Prop where
  built : ∀ e, w.state.builtAt e ≤ w.clock
  recent : moment ≤ w.state.builtAt d + window

omit [LinearOrder τ] in
theorem builtAt_schedule (s : State τ) (d e : Path) : (s.schedule d).builtAt e = s.builtAt e := by
  rw [State.schedule]
  split <;> rfl

omit [LinearOrder τ] in
theorem Watcher.builtAt_schedule (w : Watcher τ) (d : Path) (delay : τ) (e : Path) :
    (w.schedule d delay).state.builtAt e = w.state.builtAt e := by
  rw [Watcher.schedule]
  split
  · rfl
  · exact Watch.builtAt_schedule _ _ _

omit [AddCommGroup τ] [LinearOrder τ] in
theorem Watcher.clock_schedule (w : Watcher τ) (d : Path) (delay : τ) :
    (w.schedule d delay).clock = w.clock := by
  rw [Watcher.schedule]
  split <;> rfl

theorem Step.built (hs : Step window root place w a v) (h : ∀ e, w.state.builtAt e ≤ w.clock) :
    ∀ e, v.state.builtAt e ≤ v.clock := by
  intro e
  cases hs with
  | pass hl => exact (h e).trans hl
  | defer hc hr =>
    rw [Watcher.builtAt_schedule, Watcher.clock_schedule]
    exact h e
  | finish hr =>
    rw [builtAt_finish]
    split
    · exact le_refl _
    · exact h e
  | ignore | request | expire | start | cancel => exact h e

theorem Run.built (hrun : Run window root place w acts v) (h : ∀ e, w.state.builtAt e ≤ w.clock) :
    ∀ e, v.state.builtAt e ≤ v.clock := by
  induction hrun with
  | nil => exact h
  | snoc _ hs ih => exact hs.built ih

theorem Step.closed (hs : Step window root place w a v) [IsOrderedAddMonoid τ]
    (h : w.Closed window d moment) : v.Closed window d moment := by
  refine ⟨hs.built h.built, ?_⟩
  cases hs with
  | defer hc hr =>
    rw [Watcher.builtAt_schedule]
    exact h.recent
  | finish hr =>
    rw [builtAt_finish]
    split
    · next he => exact h.recent.trans (add_le_add_left (he ▸ h.built d) window)
    · exact h.recent
  | pass | ignore | request | expire | start | cancel => exact h.recent

theorem due_of_react [IsOrderedAddMonoid τ] {s : State τ} {delay : τ} (hb : s.builtAt d ≤ now)
    (h : s.react window now d = .wait delay) : s.builtAt d + window ≤ now + delay := by
  simp only [State.react] at h
  split at h
  · rw [← Reaction.wait.inj h]
    exact add_le_add_left hb window
  · split at h
    · rw [← Reaction.wait.inj h]
      exact le_of_eq (by abel)
    · cases h

theorem rebuild_of_react [IsOrderedAddMonoid τ] {s : State τ}
    (h : s.react window now d = .rebuild) : s.builtAt d + window ≤ now := by
  simp only [State.react] at h
  split at h
  · cases h
  · split at h
    · cases h
    · next hrest =>
      have hle : window ≤ now - s.builtAt d := sub_nonpos.mp (not_lt.mp hrest)
      rw [add_comm]
      exact le_sub_iff_add_le.mp hle

theorem Step.rests [IsOrderedAddMonoid τ] (hs : Step window root place w a v)
    (hc : w.Closed window d moment) (h : w.Rests d moment) : v.Rests d moment := by
  cases hs with
  | pass hl => exact ⟨h.timers, fun hd => (h.waiting hd).trans hl⟩
  | ignore => exact h
  | @defer c e delay _ hr =>
    rw [Watcher.schedule]
    split
    · exact h
    · refine ⟨fun t ht hd => ?_, h.waiting⟩
      rcases List.mem_append.mp ht with ht | ht
      · exact h.timers t ht hd
      · obtain rfl := List.mem_singleton.mp ht
        obtain rfl : e = d := hd
        exact hc.recent.trans (due_of_react (hc.built e) hr)
  | @request c e _ hr =>
    refine ⟨h.timers, fun hd => ?_⟩
    rcases List.mem_append.mp hd with hd | hd
    · exact h.waiting hd
    · obtain rfl := List.mem_singleton.mp hd
      exact hc.recent.trans (rebuild_of_react hr)
  | @expire t ht hdue =>
    refine ⟨fun t' ht' => h.timers t' (List.mem_of_mem_erase ht'), fun hd => ?_⟩
    rcases List.mem_append.mp hd with hd | hd
    · exact h.waiting hd
    · exact (h.timers t ht (List.mem_singleton.mp hd).symm).trans hdue
  | start => exact ⟨h.timers, fun hd => h.waiting (List.mem_of_mem_erase hd)⟩
  | finish => exact ⟨h.timers, h.waiting⟩
  | cancel hsub _ => exact ⟨fun t ht => h.timers t (hsub.subset ht), h.waiting⟩

theorem Run.rests [IsOrderedAddMonoid τ] (hrun : Run window root place w acts v)
    (hc : w.Closed window d moment) (h : w.Rests d moment) :
    v.Closed window d moment ∧ v.Rests d moment := by
  induction hrun with
  | nil => exact ⟨hc, h⟩
  | snoc _ hs ih => exact ⟨hs.closed ih.1, hs.rests ih.1 ih.2⟩

theorem Step.closed_of_finish (hs : Step window root place u (.finish d) x)
    (h : ∀ e, u.state.builtAt e ≤ u.clock) : x.Closed window d (x.clock + window) := by
  refine ⟨hs.built h, ?_⟩
  cases hs with
  | finish =>
    rw [builtAt_finish, if_pos rfl]

theorem exists_early_start (window : τ) (root : Path) (place : Location) {t : Timer τ}
    (ht : t ∈ x.timers) (hr : x.running = none) (hclock : x.clock < moment) (hdue : t.due < moment) :
    ∃ more y z, Run window root place x more y ∧ Step window root place y (.start t.directory) z ∧
      y.clock < moment := by
  let late : Watcher τ := { x with clock := max x.clock t.due }
  have hpass : Step window root place x .pass late := .pass (le_max_left _ _)
  have hexpire : Step window root place late (.expire t.directory) _ :=
    .expire ht (le_max_right _ _)
  refine ⟨_, _, _, (Run.nil.snoc hpass).snoc hexpire, .start (List.mem_append_right _ ?_) hr,
    max_lt hclock hdue⟩
  exact List.mem_singleton_self _

/-- When a rebuild has ended, the window is kept by all that follow of the same exercise if and only
if none waits and no timer for it runs that is due within the window. -/
theorem rebuilds_spaced_iff [IsOrderedAddMonoid τ] (hw : 0 < window) (hn : 0 ≤ now)
    (hrun : Run window root place { clock := now } acts u)
    (hend : Step window root place u (.finish d) x) :
    (∀ more y z, Run window root place x more y → Step window root place y (.start d) z →
      x.clock + window ≤ y.clock) ↔
    d ∉ x.waiting ∧ ∀ t ∈ x.timers, t.directory = d → x.clock + window ≤ t.due := by
  have hidle : x.running = none := by
    cases hend
    rfl
  have hlater : x.clock < x.clock + window := lt_add_of_pos_right _ hw
  constructor
  · intro h
    refine ⟨fun hd => ?_, fun t ht hd => ?_⟩
    · exact absurd (h [] x _ .nil (.start hd hidle)) (not_le.mpr hlater)
    · -- a timer that is due within the window could run out at once
      by_contra hdue
      obtain ⟨more, y, z, hmore, hstart, hsoon⟩ :=
        exists_early_start window root place ht hidle hlater (not_le.mp hdue)
      rw [hd] at hstart
      exact absurd (h more y z hmore hstart) (not_le.mpr hsoon)
  · rintro ⟨hwaiting, htimers⟩ more y z hmore hstart
    have hclosed := hend.closed_of_finish (hrun.built fun _ => hn)
    have hrests : x.Rests d (x.clock + window) := ⟨htimers, fun hd => absurd hd hwaiting⟩
    cases hstart with
    | start hd _ => exact (hmore.rests hclosed hrests).2.waiting hd

def otherSave : Change := { kind := "modified", source := "/w/s/k/a.gd" }

theorem otherSave_exercise : otherSave.exercise? exampleRoot [] = some (exampleRoot.child "k") := by
  decide +kernel

theorem exampleSave_exercise :
    exampleSave.exercise? exampleRoot [] = some (exampleRoot.child "l") := by
  decide +kernel

theorem rebuilds_spaced_iff_other :
    ∃ u x : Watcher Int,
      Run (1000 : Int) exampleRoot [] { clock := 5000 }
        [.change exampleSave, .start (exampleRoot.child "l"), .change otherSave] u ∧
      Step (1000 : Int) exampleRoot [] u (.finish (exampleRoot.child "l")) x ∧
      x.timers.length = 1 ∧
      ∀ more y z, Run (1000 : Int) exampleRoot [] x more y →
        Step (1000 : Int) exampleRoot [] y (.start (exampleRoot.child "l")) z →
          x.clock + 1000 ≤ y.clock := by
  have h₀ : Run (1000 : Int) exampleRoot [] { clock := 5000 } [] { clock := 5000 } := .nil
  have h₁ := h₀.snoc (.request exampleSave_exercise (by decide +kernel))
  have h₂ := h₁.snoc (.start (d := exampleRoot.child "l") (by decide +kernel) rfl)
  have hr : State.react (1000 : Int) 5000 (State.start {}) (exampleRoot.child "k") =
      .wait 1000 := by decide +kernel
  have h₃ := h₂.snoc (.defer otherSave_exercise hr)
  have hspaced := fun x => rebuilds_spaced_iff (x := x) (d := exampleRoot.child "l") (by decide)
    (by decide) h₃
  refine ⟨_, _, h₃, .finish (by decide +kernel), by decide +kernel, ?_⟩
  exact (hspaced _ (.finish (by decide +kernel))).mpr ⟨by decide +kernel, by decide +kernel⟩

def crossedWatcher (clock : Int) (waiting : List Path) (running : Option Path) : Watcher Int where
  clock := clock
  state := {
    lastBuilt := [(exampleRoot.child "k", 5000)]
    pending := [exampleRoot.child "l"]
    building := running.isSome }
  timers := [⟨exampleRoot.child "l", 5000, 1000⟩]
  waiting := waiting
  running := running

theorem crossed_run : Run (1000 : Int) exampleRoot [] { clock := 5000 }
    [.change otherSave, .start (exampleRoot.child "k"), .change exampleSave,
      .finish (exampleRoot.child "k")] (crossedWatcher 5000 [] none) := by
  have h₀ : Run (1000 : Int) exampleRoot [] { clock := 5000 } [] { clock := 5000 } := .nil
  have h₁ := h₀.snoc (.request otherSave_exercise (by decide +kernel))
  have h₂ := h₁.snoc (.start (d := exampleRoot.child "k") (by decide +kernel) rfl)
  have hr : State.react (1000 : Int) 5000 (State.start {}) (exampleRoot.child "l") =
      .wait 1000 := by decide +kernel
  have h₃ := h₂.snoc (.defer exampleSave_exercise hr)
  exact h₃.snoc (.finish (d := exampleRoot.child "k") (by decide +kernel))

theorem rebuilt_within_window :
    ∃ acts u x y z, Run (1000 : Int) exampleRoot [] { clock := 5000 } acts u ∧
      Step (1000 : Int) exampleRoot [] u (.finish (exampleRoot.child "l")) x ∧ x.clock = 5500 ∧
      Run (1000 : Int) exampleRoot [] x [.pass, .expire (exampleRoot.child "l")] y ∧
      Step (1000 : Int) exampleRoot [] y (.start (exampleRoot.child "l")) z ∧ y.clock = 6000 := by
  let built : Watcher Int := { crossedWatcher 5500 [] none with
    state := {
      lastBuilt := [(exampleRoot.child "k", 5000), (exampleRoot.child "l", 5500)]
      pending := [exampleRoot.child "l"] } }
  have h₅ : Run (1000 : Int) exampleRoot [] { clock := 5000 } _ (crossedWatcher 5500 [] none) :=
    crossed_run.snoc (.pass (by decide +kernel))
  have h₆ : Run (1000 : Int) exampleRoot [] { clock := 5000 } _
      (crossedWatcher 5500 [exampleRoot.child "l"] none) :=
    h₅.snoc (.request exampleSave_exercise (by decide +kernel))
  have h₇ : Run (1000 : Int) exampleRoot [] { clock := 5000 } _
      (crossedWatcher 5500 [] (some (exampleRoot.child "l"))) :=
    h₆.snoc (.start (d := exampleRoot.child "l") (by decide +kernel) rfl)
  have h₈ : Step (1000 : Int) exampleRoot [] (crossedWatcher 5500 [] (some (exampleRoot.child "l")))
      (.finish (exampleRoot.child "l")) built := .finish rfl
  have h₉ : Run (1000 : Int) exampleRoot [] built [.pass] { built with clock := 6000 } :=
    Run.nil.snoc (.pass (by decide +kernel))
  have h₁₀ := h₉.snoc (.expire (t := ⟨exampleRoot.child "l", 5000, 1000⟩) (by decide +kernel)
    (by decide +kernel))
  exact ⟨_, _, _, _, _, h₇, h₈, rfl, h₁₀, .start (by decide +kernel) rfl, rfl⟩

end Coursework.Watch
