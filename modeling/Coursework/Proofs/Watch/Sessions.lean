import Coursework.Proofs.Watch.Exercises
import Coursework.Proofs.Watch.Interleaving

/-!
A session takes the steps of a watcher. Its rebuilds end before the next thing happens, and the
changes that come in during one leave timers.
-/

namespace Coursework.Watch

open Build FileTree

section Runs

variable {τ : Type} [Zero τ] [Add τ] [Sub τ] [LinearOrder τ] {window : τ} {root : Path}
  {place : Location} {w u v : Watcher τ} {a : Action} {acts more : List Action}

theorem Run.append (h : Run window root place w acts u) (k : Run window root place u more v) :
    Run window root place w (acts ++ more) v := by
  induction k with
  | nil => rwa [List.append_nil]
  | snoc _ hs ih =>
    rw [← List.append_assoc]
    exact ih.snoc hs

theorem Run.cons (hs : Step window root place w a u) (h : Run window root place u acts v) :
    Run window root place w (a :: acts) v :=
  (Run.nil.snoc hs).append h

end Runs

variable {τ : Type} [AddCommGroup τ] [LinearOrder τ] {g : Setting τ} {s s' : Session τ}
  {w u v : Watcher τ} {running : Option Path} {waiting : List Path} {c : Change} {cs : List Change}
  {d e : Path} {interlude : Option Interlude} {time : Int}

/-- The watcher is what a session has come to. -/
structure Session.At (g : Setting τ) (s : Session τ) (running : Option Path)
    (waiting : List Path) (w : Watcher τ) : Prop where
  clock : w.clock = s.now g
  state : w.state = s.state
  running : w.running = running
  waiting : w.waiting = waiting

omit [AddCommGroup τ] [LinearOrder τ] in
theorem Session.At.schedule (h : s.At g running waiting w) (d : Path) (delay : τ) :
    (s.schedule d delay).At g running waiting (w.schedule d delay) := by
  rw [Session.schedule, Watcher.schedule]
  by_cases hd : d ∈ s.state.pending
  · rw [if_pos hd, if_pos (h.state ▸ hd)]
    exact h
  · rw [if_neg hd, if_neg (h.state ▸ hd)]
    exact ⟨h.clock, congrArg (State.schedule · d) h.state, h.running, h.waiting⟩

theorem Session.At.observe (h : s.At g running waiting w)
    (hc : ∀ d, (s.observe g c).2 ≠ .ok (some d)) :
    ∃ v, Step g.timing.window g.root s.tree.place w (.change c) v ∧
      (s.observe g c).1.At g running waiting v := by
  rw [Session.observe] at hc ⊢
  by_cases hcounts : c.counts = true
  · rw [if_pos hcounts] at hc ⊢
    cases hx : exerciseFor g.root ((Path.ofText c.path).absolute s.tree.place) with
    | error e =>
      exact ⟨w, .ignore (by rw [Change.exercise?, if_pos hcounts, hx]), h⟩
    | ok x =>
      cases x with
      | none => exact ⟨w, .ignore (by rw [Change.exercise?, if_pos hcounts, hx]), h⟩
      | some d =>
        have hd : c.exercise? g.root s.tree.place = some d := by
          rw [Change.exercise?, if_pos hcounts, hx]
        simp only [hx] at hc ⊢
        cases hr : s.state.react g.timing.window (s.now g) d with
        | rebuild => simp [hr] at hc
        | wait delay => exact ⟨_, .defer hd (h.clock ▸ h.state ▸ hr), h.schedule d delay⟩
  · rw [if_neg hcounts] at hc ⊢
    exact ⟨w, .ignore (by rw [Change.exercise?, if_neg hcounts]), h⟩

theorem Session.At.request (h : s.At g running waiting w)
    (hc : s.observe g c = (s', .ok (some d))) : s' = s ∧
      Step g.timing.window g.root s.tree.place w (.change c) (w.ask d) := by
  rw [Session.observe] at hc
  split at hc
  · next hcounts =>
    split at hc
    · simp at hc
    · simp at hc
    · next x hx =>
      split at hc
      · simp at hc
      · next hr =>
        simp only [Prod.mk.injEq, Except.ok.injEq, Option.some.injEq] at hc
        obtain ⟨rfl, rfl⟩ := hc
        have hd : c.exercise? g.root s.tree.place = some x := by
          rw [Change.exercise?, if_pos hcounts, hx]
        exact ⟨rfl, .request hd (by rw [h.clock, h.state, hr])⟩
  · simp at hc

omit [AddCommGroup τ] in
theorem observe_of_building [Zero τ] [Sub τ] (hb : s.state.building = true) (c : Change) :
    (∀ d, (s.observe g c).2 ≠ .ok (some d)) ∧ (s.observe g c).1.state.building = true := by
  rw [Session.observe]
  split
  · split
    · exact ⟨by simp, hb⟩
    · exact ⟨by simp, hb⟩
    · next d _ =>
      have hr : s.state.react g.timing.window (s.now g) d = .wait g.timing.window := by
        rw [State.react, if_pos hb]
      rw [hr]
      refine ⟨by simp, ?_⟩
      simp only [Session.schedule]
      split
      · exact hb
      · simp only [State.schedule]
        split <;> exact hb
  · exact ⟨by simp, hb⟩

theorem Session.At.observeAll (h : s.At g running waiting w) (hb : s.state.building = true)
    (cs : List Change) : ∃ taken v,
      Run g.timing.window g.root s.tree.place w (taken.map .change) v ∧ taken <+: cs ∧
      ((s.observeAll g cs).2 = none → taken = cs) ∧
      (s.observeAll g cs).1.At g running waiting v := by
  -- the session keeps building, so that every change ends as a timer or as nothing
  induction cs generalizing s w with
  | nil => exact ⟨[], w, .nil, List.nil_prefix, fun _ => rfl, h⟩
  | cons c cs ih =>
    obtain ⟨hnone, hbuilding⟩ := observe_of_building (g := g) hb c
    obtain ⟨u, hstep, hu⟩ := h.observe hnone
    have htree := observe_tree g s c
    rw [Session.observeAll]
    cases ho : s.observe g c with
    | mk s₁ x =>
      rw [ho] at hu htree hbuilding
      cases x with
      | error e =>
        refine ⟨[c], u, Run.nil.snoc hstep, ?_, fun hf => by simp at hf, hu⟩
        exact List.cons_prefix_cons.mpr ⟨rfl, List.nil_prefix⟩
      | ok x =>
        obtain ⟨taken, v, hrun, hpre, hall, hv⟩ := ih hu hbuilding
        rw [htree] at hrun
        refine ⟨c :: taken, v, .cons hstep hrun, ?_, fun hf => ?_, hv⟩
        · exact List.cons_prefix_cons.mpr ⟨rfl, hpre⟩
        · rw [hall hf]

theorem Session.At.start (h : s.At g none [d] w) : ∃ v,
    Step g.timing.window g.root s.tree.place w (.start d) v ∧
      Session.At g { s with state := s.state.start } (some d) [] v := by
  refine ⟨_, .start (d := d) (h.waiting ▸ List.mem_singleton_self d) h.running, h.clock, ?_, rfl, ?_⟩
  · exact congrArg State.start h.state
  · simp [h.waiting]

theorem Session.At.finish (h : s.At g (some d) [] w) (place : Location) : ∃ v,
    Step g.timing.window g.root place w (.finish d) v ∧ (s.finish g d).At g none [] v := by
  refine ⟨_, .finish h.running, h.clock, ?_, rfl, h.waiting⟩
  rw [h.state, h.clock]
  rfl

theorem Session.At.advance (h : s.At g running waiting w) (hm : Monotone g.timing.instant)
    {elapsed : Int} (he : 0 ≤ elapsed) (place : Location) : ∃ v,
    Step g.timing.window g.root place w .pass v ∧ (s.advance elapsed).At g running waiting v := by
  have hlater : w.clock ≤ (s.advance elapsed).now g := by
    rw [h.clock]
    exact hm (le_add_of_nonneg_right he)
  exact ⟨_, .pass hlater, rfl, h.state, h.running, h.waiting⟩

def Session.written (g : Setting τ) (s : Session τ) (d : Path) (time : Int) : Session τ :=
  let run := buildDirectory g.plan s.tree false none time d
  { s with
    state := s.state.start
    tree := run.tree
    console := s.console ++
      [.line (['\n'] ++ Console.styled "cyan" ("Rebuilding " ++ d.name ++ "..."))] ++
      run.result.lines g.plan.roots.project g.plan.verbose }

def Session.interrupt (g : Setting τ) (s : Session τ) : Option Interlude → Session τ × Option Fault
  | none => (s, none)
  | some i => (s.advance i.elapsed).observeAll g i.changes

theorem rebuild_cases (g : Setting τ) (s : Session τ) (d : Path) (interlude : Option Interlude)
    (time : Int) :
    (∃ a, s.rebuild g d interlude time = ((s.written g d time).finish g d, some (.abort a))) ∨
    (∃ met e, (s.written g d time).interrupt g interlude = (met, some e) ∧
      s.rebuild g d interlude time = (met.finish g d, some e)) ∨
    ∃ met message, (s.written g d time).interrupt g interlude = (met, none) ∧
      s.rebuild g d interlude time = ((met.print message).finish g d, none) := by
  unfold Session.rebuild
  simp only
  split
  · next a _ => exact .inl ⟨a, rfl⟩
  · right
    cases interlude with
    | none =>
      right
      simp only
      split
      · exact ⟨_, _, rfl, rfl⟩
      · exact ⟨_, _, rfl, rfl⟩
    | some i =>
      simp only
      split
      · next e he => exact .inl ⟨_, e, Prod.ext rfl he, rfl⟩
      · next he =>
        right
        split
        · exact ⟨_, _, Prod.ext rfl he, rfl⟩
        · exact ⟨_, _, Prod.ext rfl he, rfl⟩

theorem Session.At.interrupt (h : s.At g running waiting w) (hb : s.state.building = true)
    (hm : Monotone g.timing.instant) (hi : ∀ i, interlude = some i → 0 ≤ i.elapsed) :
    ∃ during v, Run g.timing.window g.root s.tree.place w during v ∧
      (∀ a ∈ during, a = .pass ∨ ∃ c, a = .change c) ∧
      ((s.interrupt g interlude).2 = none → ∀ i, interlude = some i →
        during = .pass :: i.changes.map .change) ∧
      (s.interrupt g interlude).1.At g running waiting v := by
  cases interlude with
  | none => exact ⟨[], w, .nil, by simp, by simp, h⟩
  | some i =>
    obtain ⟨u, hpass, hu⟩ := h.advance hm (hi i rfl) s.tree.place
    obtain ⟨taken, v, hrun, -, hall, hv⟩ := hu.observeAll hb i.changes
    refine ⟨.pass :: taken.map .change, v, .cons hpass hrun, fun a ha => ?_, ?_, hv⟩
    · rcases List.mem_cons.mp ha with rfl | ha
      · exact .inl rfl
      · obtain ⟨c, -, rfl⟩ := List.mem_map.mp ha
        exact .inr ⟨c, rfl⟩
    · rintro hf _ ⟨⟩
      rw [hall hf]

theorem Session.At.rebuild (h : s.At g none [d] w) (ht : s.tree.WellFormed)
    (hm : Monotone g.timing.instant) (hi : ∀ i, interlude = some i → 0 ≤ i.elapsed) (time : Int) :
    ∃ during v, Run g.timing.window g.root s.tree.place w
        (.start d :: (during ++ [.finish d])) v ∧
      (∀ a ∈ during, a = .pass ∨ ∃ c, a = .change c) ∧
      ((s.rebuild g d interlude time).2 = none → ∀ i, interlude = some i →
        during = .pass :: i.changes.map .change) ∧
      (s.rebuild g d interlude time).1.At g none [] v := by
  obtain ⟨u, hstart, hu⟩ := h.start
  have hplace : (s.written g d time).tree.place = s.tree.place :=
    (buildDirectory_place ht g.plan false none time d).2
  have hwritten : (s.written g d time).At g (some d) [] u :=
    ⟨hu.clock, hu.state, hu.running, hu.waiting⟩
  obtain ⟨during, x, hrun, hacts, hall, hx⟩ :=
    hwritten.interrupt rfl hm hi
  rw [hplace] at hrun
  rcases rebuild_cases g s d interlude time with ⟨a, hr⟩ | ⟨met, e, hmet, hr⟩ | ⟨met, m, hmet, hr⟩
  · obtain ⟨v, hfinish, hv⟩ := hwritten.finish s.tree.place
    rw [hr]
    exact ⟨[], v, .cons hstart (Run.nil.snoc hfinish), by simp, by simp, hv⟩
  · rw [hmet] at hx
    obtain ⟨v, hfinish, hv⟩ := hx.finish s.tree.place
    rw [hr]
    exact ⟨during, v, .cons hstart (hrun.snoc hfinish), hacts, by simp, hv⟩
  · rw [hmet] at hx hall
    have hprinted : (met.print m).At g (some d) [] x := ⟨hx.clock, hx.state, hx.running, hx.waiting⟩
    obtain ⟨v, hfinish, hv⟩ := hprinted.finish s.tree.place
    rw [hr]
    exact ⟨during, v, .cons hstart (hrun.snoc hfinish), hacts, hall, hv⟩

omit [AddCommGroup τ] [LinearOrder τ] in
theorem not_mem_of_passes {during : List Action} {a : Action}
    (h : ∀ a ∈ during, a = .pass ∨ ∃ c, a = .change c) (hp : a ≠ .pass)
    (hc : ∀ c, a ≠ .change c) : a ∉ during := fun ha => by
  rcases h a ha with rfl | ⟨c, rfl⟩
  · exact hp rfl
  · exact hc c rfl

theorem Session.At.change (h : s.At g none [] w) (ht : s.tree.WellFormed)
    (hm : Monotone g.timing.instant) (hi : ∀ i, interlude = some i → 0 ≤ i.elapsed) (c : Change) :
    ∃ acts v, Run g.timing.window g.root s.tree.place w (.change c :: acts) v ∧
      .cancel ∉ acts ∧ (s.change g c interlude time).1.At g none [] v := by
  rw [Session.change]
  by_cases hc : ∀ d, (s.observe g c).2 ≠ .ok (some d)
  · obtain ⟨v, hstep, hv⟩ := h.observe hc
    refine ⟨[], v, Run.nil.snoc hstep, List.not_mem_nil, ?_⟩
    cases ho : s.observe g c with
    | mk s₁ x =>
      rw [ho] at hc hv
      rcases x with e | _ | d
      · exact hv
      · exact hv
      · exact absurd rfl (hc d)
  · simp only [ne_eq, not_forall, not_not] at hc
    obtain ⟨d, hd⟩ := hc
    obtain ⟨hsame, hstep⟩ := h.request (Prod.ext rfl hd)
    have hasked : s.At g none [d] (w.ask d) :=
      ⟨h.clock, h.state, h.running, congrArg (· ++ [d]) h.waiting⟩
    obtain ⟨during, v, hrun, hacts, -, hv⟩ := hasked.rebuild ht hm hi time
    have hcancel := not_mem_of_passes hacts (a := .cancel) (by simp) (by simp)
    refine ⟨_, v, .cons hstep hrun, by simp [hcancel], ?_⟩
    rw [show s.observe g c = (s, .ok (some d)) from Prod.ext hsame hd]
    exact hv

theorem Session.At.fire (h : s.At g none [] w) (ht : s.tree.WellFormed)
    (hm : Monotone g.timing.instant) (hi : ∀ i, interlude = some i → 0 ≤ i.elapsed)
    {t : Timer τ} (hmem : t ∈ w.timers) (hdue : t.due ≤ w.clock) :
    ∃ acts v, Run g.timing.window g.root s.tree.place w (.expire t.directory :: acts) v ∧
      .cancel ∉ acts ∧ (s.fire g t.directory interlude time).1.At g none [] v := by
  have hasked : Session.At g { s with state := s.state.expire t.directory } none [t.directory]
      (Watcher.ask { w with
        state := w.state.expire t.directory
        timers := w.timers.erase t } t.directory) :=
    ⟨h.clock, congrArg (State.expire · t.directory) h.state, h.running,
      congrArg (· ++ [t.directory]) h.waiting⟩
  obtain ⟨during, v, hrun, hacts, -, hv⟩ := hasked.rebuild ht hm hi time
  have hcancel := not_mem_of_passes hacts (a := .cancel) (by simp) (by simp)
  exact ⟨_, v, .cons (.expire hmem hdue) hrun, by simp [hcancel], hv⟩

end Coursework.Watch
