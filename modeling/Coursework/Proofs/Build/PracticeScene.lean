import Coursework.Build.Script
import Coursework.Proofs.Scene.Groups

namespace Coursework

namespace Scene

open Text

variable {group : Option Text} {f : Text → Text} {n : Node} {s : Scene} {r : NodeId}

def Node.published (group : Option Text) (f : Text → Text) (n : Node) : Node :=
  (n.without group).map f

theorem withoutGroup_eq (hroot : s.root = some r) (hn : (s.forest.walk r).Nodup)
    (hall : ∀ x < s.forest.size, x ∈ s.forest.walk r) (group : Option Text) :
    Build.withoutGroup group s = { s with forest := s.forest.mapNodes (Node.without group) } := by
  cases group with
  | some k => simp only [Build.withoutGroup, hroot, Forest.stripGroup_eq hn hall]
  | none =>
    have hid : Node.without none = id := rfl
    simp [Build.withoutGroup, Forest.mapNodes, hid]

theorem Printable.without (h : s.Printable r) (group : Option Text) :
    { s with forest := s.forest.mapNodes (Node.without group) }.Printable r := by
  have hu := Node.still_without group
  constructor
  · exact h.root
  · exact h.tree.mapNodes hu
  · exact h.resolves.mapNodes hu
  · intro x hx
    rw [Forest.node_mapNodes hu]
    exact (h.nodes x ((Forest.reaches_mapNodes hu).mp hx)).without group
  · exact h.others

theorem Fixed.without (h : s.Fixed f r) (group : Option Text) :
    { s with forest := s.forest.mapNodes (Node.without group) }.Fixed f r := by
  have hu := Node.still_without group
  constructor
  · exact h.words
  · intro x hx
    rw [Forest.node_mapNodes hu]
    exact h.name x ((Forest.reaches_mapNodes hu).mp hx)
  · intro x hx
    rw [Forest.parentPath_mapNodes hu]
    exact h.parent x ((Forest.reaches_mapNodes hu).mp hx)
  · intro x hx
    rw [Forest.node_mapNodes hu]
    exact h.attributes x ((Forest.reaches_mapNodes hu).mp hx)
  · intro x hx
    rw [Forest.node_mapNodes hu]
    exact h.properties x ((Forest.reaches_mapNodes hu).mp hx)
  · exact h.others

theorem Printable.pruneConnections_eq (h : s.Printable r)
    (hd : ∀ p ∈ s.declared, ∃ x, s.forest.Reaches r x ∧ s.forest.path x = p) :
    s.pruneConnections = .ok s := by
  have hn : s.nodes = .ok (s.forest.walk r) := by
    rw [Scene.nodes, h.root]
    simp only [h.tree.subtree_eq]
  have hcurrent : ∀ p, s.declared.contains p = true →
      ((s.forest.walk r).map s.forest.path).contains p = true := by
    intro p hp
    rw [List.contains_iff_mem] at hp ⊢
    obtain ⟨x, hx, rfl⟩ := hd p hp
    exact List.mem_map_of_mem (h.tree.mem_walk.mpr hx)
  have hlost : ∀ target, lost s.declared ((s.forest.walk r).map s.forest.path) target = false := by
    intro target
    rw [lost, List.any_eq_false]
    intro i hi
    rw [Bool.and_eq_true, Bool.not_eq_true']
    rintro ⟨hp, hnot⟩
    rw [hcurrent _ hp] at hnot
    cases hnot
  have hdangling : ∀ t, dangling s.declared ((s.forest.walk r).map s.forest.path) t = false := by
    intro t
    rw [dangling, Bool.and_eq_false_iff]
    right
    rw [List.any_eq_false]
    intro key _
    cases Keyed.get? t.attributes key.toList with
    | none => simp
    | some target => simp [hlost]
  rw [pruneConnections, hn]
  simp [Except.map, hdangling]

theorem Printable.exists_body (h : s.Printable r) : ∃ body, FeedsOnly body ∧
    s.text = .ok (body ++ ['\n']) ∧ sectionsText (s.sectionsOf (s.forest.walk r)) = body ++ ['\n'] := by
  refine ⟨_, ?_, h.text_eq, rfl⟩
  intro c hc hb
  rcases mem_join hc with hc | ⟨w, hw, hc⟩
  · simpa using hc
  · obtain ⟨t, ht, rfl⟩ := List.mem_map.mp hw
    exact Section.feedsOnly_text (h.wellFormed t ht) c hc hb

structure Clear (t : Text) (sections : List Section) (s : Scene) : Prop where
  split : Section.readAll t = .ok sections
  read : Scene.read t = .ok s
  plain : ∀ u ∈ sections, u.tag = "node".toList → u.Plain
  balanced : ∀ u ∈ sections, ∀ a ∈ u.attributes, Scene.balanced a.2 = true

theorem Clear.published {t : Text} {sections : List Section} (h : Clear t sections s)
    (hf : Tame f) (hx : s.Fixed f 0) (group : Option Text) :
    (Build.withoutGroup group s).pruneConnections = .ok (Build.withoutGroup group s) ∧
    ∃ body practice, FeedsOnly body ∧ (Build.withoutGroup group s).text = .ok (body ++ ['\n']) ∧
      Scene.read (f (body ++ ['\n'])) = .ok practice ∧ practice.root = some 0 ∧
      (∀ p, p ∈ practice.declared ↔ p ∈ s.declared) ∧
      (s.forest.mapNodes (Node.published group f)).SameTree Eq 0 practice.forest 0 := by
  obtain ⟨p, hp, hroot, rfl⟩ := Progress.of_read h.split h.read
  have hsound : p.Sound := Progress.sound_foldlM Progress.sound_start
    (fun u hu => Section.wellFormed_of_readAll h.split hu (h.balanced u hu)) h.plain hp
  have hsize : 0 < p.scene.forest.size := by
    apply Nat.pos_of_ne_zero
    intro h0
    exact hroot (by rw [hsound.root, if_pos h0])
  have hprint := hsound.printable_of_recent hsize (Progress.follows_foldlM hp).recent
    (Keyed.keys p.paths)
  have hreaches : ∀ x, p.scene.forest.Reaches 0 x ↔ x < p.scene.forest.size := fun x =>
    hsound.nested.reaches_iff hsize
  have hu := Node.still_without group
  have hm := Node.still_map hf
  rw [withoutGroup_eq hprint.root (hprint.tree.nodup_walk .refl)
    fun x hx => hprint.tree.mem_walk.mpr ((hreaches x).mpr hx)]
  have hstart := hprint.without group
  have hfixed := hx.without group
  have hpractice := hstart.map hf
  obtain ⟨body, hbody, htext, hwritten⟩ := hstart.exists_body
  have hread := hstart.read_map hf hfixed
  rw [hwritten] at hread
  refine ⟨hstart.pruneConnections_eq fun key hkey => ?_, body, _, hbody, htext, hread, rfl,
    fun key => ?_, ?_⟩
  · obtain ⟨x, hlt, hpath⟩ := hsound.mem_keys_paths.mp hkey
    refine ⟨x, (Forest.reaches_mapNodes hu).mpr ((hreaches x).mpr hlt), ?_⟩
    rw [Forest.path_mapNodes hu]
    exact hpath
  · rw [hpractice.mem_declared_reread, hsound.mem_keys_paths]
    simp only [Scene.map, Forest.reaches_mapNodes hm, Forest.reaches_mapNodes hu,
      Forest.path_mapNodes hm, Forest.path_mapNodes hu, hreaches]
  · have hforest : (p.scene.forest.mapNodes (Node.without group)).mapNodes (Node.map f) =
        p.scene.forest.mapNodes (Node.published group f) := Forest.mapNodes_comp _ _ _
    rw [← hforest]
    apply hpractice.tree.sameTree_copy
    intro x hx
    have hlt : x < p.scene.forest.size := by
      rw [← hreaches]
      exact (Forest.reaches_mapNodes hu).mp ((Forest.reaches_mapNodes hm).mp hx)
    have hnode : (Scene.map f { p.scene with
        forest := p.scene.forest.mapNodes (Node.without group),
        declared := Keyed.keys p.paths }).forest.node x =
        ((p.scene.forest.node x).without group).map f := by
      rw [Scene.map, Forest.node_mapNodes hm, Forest.node_mapNodes hu]
    rw [hnode]
    have horder := (hsound.legible x hlt).inOrder
    have hwithout : ((p.scene.forest.node x).without group).InOrder := ⟨horder.nodup, horder.keys⟩
    exact (hwithout.map f).reread_attributes

end Scene

end Coursework
