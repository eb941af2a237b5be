import Mathlib.Data.List.Flatten
import Mathlib.Data.List.Nodup
import Mathlib.Data.List.Pairwise
import Mathlib.Data.List.Perm.Basic
import RecordCodec.Proofs.Naming.Order
import RecordCodec.Proofs.References.Reach

/-!
Cycles among references. The strongly connected components of a graph are the classes of nodes that
reach each other. `IsComponents` says that some lists are these components, in whatever order; the
components that are cycles, put in order, are the same however the components are listed. A record
is in a group exactly when it reaches itself, and a direct field is boxed exactly when its target
reaches the record back.
-/

namespace RecordCodec

namespace ReferenceGraph

open Relation (ReflTransGen TransGen)

theorem sorted_perm (names : List QualifiedName) : (sorted names).Perm names :=
  List.mergeSort_perm _ _

/-! ### Components -/

/-- Each is reached from the other, or they are one. -/
def Connected (g : ReferenceGraph) (a b : QualifiedName) : Prop :=
  ReflTransGen g.Refers a b ∧ ReflTransGen g.Refers b a

/-- The lists are the strongly connected components of the graph, in any order. -/
structure IsComponents (g : ReferenceGraph) (cs : List (List QualifiedName)) : Prop where
  nonempty : ∀ c ∈ cs, c ≠ []
  covered : ∀ n ∈ g.nodes, ∃ c ∈ cs, n ∈ c
  mem_iff : ∀ c ∈ cs, ∀ a ∈ c, ∀ b, b ∈ c ↔ b ∈ g.nodes ∧ g.Connected a b
  nodup : cs.flatten.Nodup

variable {g : ReferenceGraph} {a b : QualifiedName}

namespace Connected

theorem refl (g : ReferenceGraph) (a : QualifiedName) : g.Connected a a := ⟨.refl, .refl⟩

theorem symm (h : g.Connected a b) : g.Connected b a := ⟨h.2, h.1⟩

theorem trans {c : QualifiedName} (h : g.Connected a b) (h' : g.Connected b c) :
    g.Connected a c := ⟨h.1.trans h'.1, h'.2.trans h.2⟩

theorem iff_eq_or_cycle : g.Connected a b ↔
    b = a ∨ TransGen g.Refers a b ∧ TransGen g.Refers b a := by
  constructor
  · rintro ⟨h, h'⟩
    obtain rfl | hab := Relation.reflTransGen_iff_eq_or_transGen.1 h
    · exact .inl rfl
    · obtain rfl | hba := Relation.reflTransGen_iff_eq_or_transGen.1 h'
      · exact .inl rfl
      · exact .inr ⟨hab, hba⟩
  · rintro (rfl | ⟨hab, hba⟩)
    · exact .refl g _
    · exact ⟨hab.to_reflTransGen, hba.to_reflTransGen⟩

/-- With one record of a class all of them reach themselves. -/
theorem cycle (h : g.Connected a b) (ha : TransGen g.Refers a a) : TransGen g.Refers b b :=
  (TransGen.trans_right h.2 ha).trans_left h.1

end Connected

/-! ### The components that are computed -/

/-- The class of a node, as it is computed. -/
def nodeClass (g : ReferenceGraph) (n : QualifiedName) : List QualifiedName :=
  classOf g.reaches (n, g.reachable n)

theorem components_eq : g.components =
    (g.nodes.filter fun n => (g.nodeClass n).head? = some n).map g.nodeClass := by
  simp only [components, reaches, List.filter_map, List.map_map]
  rfl

section

variable (hg : g.WellFormed)

include hg

theorem mem_nodeClass_iff : b ∈ g.nodeClass a ↔ b ∈ g.nodes ∧ g.Connected a b := by
  simp [nodeClass, classOf, reaches, Connected.iff_eq_or_cycle, hg.mem_reachable_iff]

theorem nodeClass_congr (h : g.Connected a b) : g.nodeClass a = g.nodeClass b := by
  have hclass : ∀ n, g.nodeClass n = g.nodes.filter fun m =>
      m = n || ((g.reachable n).contains m && (g.reachable m).contains n) := by
    intro n
    simp only [nodeClass, classOf, reaches, List.filter_map, List.map_map]
    exact List.map_id' _
  rw [hclass, hclass]
  refine List.filter_congr fun m _ => Bool.eq_iff_iff.2 ?_
  have hiff : g.Connected a m ↔ g.Connected b m := ⟨h.symm.trans, h.trans⟩
  simpa [Connected.iff_eq_or_cycle, hg.mem_reachable_iff] using hiff

theorem isComponents_components : g.IsComponents g.components := by
  rw [components_eq]
  constructor
  case nonempty =>
    intro c hc hnil
    obtain ⟨n, hn, rfl⟩ := List.mem_map.1 hc
    simp [hnil] at hn
  case covered =>
    intro n hn
    have hself : n ∈ g.nodeClass n := (mem_nodeClass_iff hg).2 ⟨hn, .refl g n⟩
    obtain ⟨k, rest, hclass⟩ := List.exists_cons_of_ne_nil (List.ne_nil_of_mem hself)
    obtain ⟨hk, hconn⟩ := (mem_nodeClass_iff hg).1 (hclass ▸ List.mem_cons_self : k ∈ g.nodeClass n)
    -- the class is listed at its first node
    refine ⟨g.nodeClass n, List.mem_map.2 ⟨k, ?_, (nodeClass_congr hg hconn).symm⟩, hself⟩
    simp [hk, ← nodeClass_congr hg hconn, hclass]
  case mem_iff =>
    intro c hc a ha b
    obtain ⟨n, _, rfl⟩ := List.mem_map.1 hc
    obtain ⟨_, hna⟩ := (mem_nodeClass_iff hg).1 ha
    rw [nodeClass_congr hg hna, mem_nodeClass_iff hg]
  case nodup =>
    refine List.nodup_flatten.2 ⟨fun c hc => ?_, ?_⟩
    · obtain ⟨n, _, rfl⟩ := List.mem_map.1 hc
      simp only [nodeClass, classOf, reaches, List.filter_map, List.map_map]
      exact (hg.nodup.filter _).map Function.injective_id
    · rw [List.pairwise_map]
      refine (hg.nodup.filter _).imp_of_mem fun {m n} hm hn hne => ?_
      rw [List.disjoint_left]
      intro k hkm hkn
      -- classes with a common node are one class, which has one first node
      obtain ⟨_, hmk⟩ := (mem_nodeClass_iff hg).1 hkm
      obtain ⟨_, hnk⟩ := (mem_nodeClass_iff hg).1 hkn
      have hm := (List.mem_filter.1 hm).2
      have hn := (List.mem_filter.1 hn).2
      rw [nodeClass_congr hg (hmk.trans hnk.symm)] at hm
      exact hne (Option.some.inj ((of_decide_eq_true hm).symm.trans (of_decide_eq_true hn)))

end

/-! ### Components that are cycles -/

section

variable {cs cs' : List (List QualifiedName)} {c c' : List QualifiedName}

theorem isCycle_perm (h : c.Perm c') : g.isCycle c = g.isCycle c' := by
  simp only [isCycle, h.length_eq, h.any_eq]

namespace IsComponents

theorem nodup_component (h : g.IsComponents cs) (hc : c ∈ cs) : c.Nodup :=
  (List.nodup_flatten.1 h.nodup).1 c hc

theorem perm (h : g.IsComponents cs) (h' : g.IsComponents cs') (hc : c ∈ cs) (hc' : c' ∈ cs')
    (ha : a ∈ c) (ha' : a ∈ c') : c.Perm c' := by
  refine (List.perm_ext_iff_of_nodup (h.nodup_component hc) (h'.nodup_component hc')).2 fun b => ?_
  rw [h.mem_iff c hc a ha, h'.mem_iff c' hc' a ha']

/-- Components with a common node are one. -/
theorem eq_of_mem (h : g.IsComponents cs) (hc : c ∈ cs) (hc' : c' ∈ cs) (ha : a ∈ c)
    (ha' : a ∈ c') : c = c' := by
  by_contra hne
  have hdisjoint := (List.nodup_flatten.1 h.nodup).2
  have : Std.Symm (List.Disjoint (α := QualifiedName)) := ⟨fun _ _ => List.disjoint_symm⟩
  exact List.disjoint_left.1 (hdisjoint.forall hc hc' hne) ha ha'

/-- A component with several nodes has one other than the given one. -/
theorem several_iff (h : g.IsComponents cs) (hc : c ∈ cs) (ha : a ∈ c) :
    1 < c.length ↔ ∃ b ∈ c, b ≠ a := by
  have hone := (h.nodup_component hc).ne_singleton_iff a
  simp only [List.ne_nil_of_mem ha, false_or] at hone
  rw [← hone]
  have hpositive := List.length_pos_of_mem ha
  refine ⟨fun hlength heq => by simp [heq] at hlength, fun hne => ?_⟩
  by_contra hle
  obtain ⟨b, rfl⟩ := List.length_eq_one_iff.1 (show c.length = 1 by omega)
  exact hne (by rw [List.mem_singleton.1 ha])

/-- A component is a cycle exactly when one of its nodes, and so each of them, reaches itself. -/
theorem isCycle_iff (h : g.IsComponents cs) (hg : g.WellFormed) (hc : c ∈ cs) (ha : a ∈ c) :
    g.isCycle c = true ↔ TransGen g.Refers a a := by
  simp only [isCycle, Bool.or_eq_true, decide_eq_true_eq, List.any_eq_true, List.contains_iff_mem,
    h.several_iff hc ha]
  constructor
  · rintro (⟨b, hb, hne⟩ | ⟨n, hn, hself⟩)
    · obtain ⟨_, hconn⟩ := (h.mem_iff c hc a ha b).1 hb
      obtain heq | ⟨hab, hba⟩ := Connected.iff_eq_or_cycle.1 hconn
      · exact absurd heq hne
      · exact hab.trans hba
    · have hconn := ((h.mem_iff c hc n hn a).1 ha).2
      exact hconn.cycle (.single hself)
  · intro hcycle
    obtain ⟨b, hab, hba⟩ := TransGen.head'_iff.1 hcycle
    have hb : b ∈ c := (h.mem_iff c hc a ha b).2 ⟨hg.mem_nodes hab, .single hab, hba⟩
    by_cases heq : b = a
    · exact .inr ⟨a, ha, heq ▸ hab⟩
    · exact .inl ⟨b, hb, heq⟩

theorem nodup_list (h : g.IsComponents cs) : cs.Nodup := by
  refine (List.nodup_flatten.1 h.nodup).2.imp_of_mem fun {c c'} hc _ hdisjoint heq => ?_
  obtain ⟨a, ha⟩ := List.exists_mem_of_ne_nil c (h.nonempty c hc)
  exact List.disjoint_left.1 hdisjoint ha (heq ▸ ha)

/-- Sorting keeps components apart. -/
theorem nodup_sorted (h : g.IsComponents cs) : ((cs.filter g.isCycle).map sorted).Nodup := by
  refine List.Nodup.map_on (fun c hc c' hc' heq => ?_) (h.nodup_list.filter _)
  obtain ⟨hc, _⟩ := List.mem_filter.1 hc
  obtain ⟨hc', _⟩ := List.mem_filter.1 hc'
  obtain ⟨a, ha⟩ := List.exists_mem_of_ne_nil c (h.nonempty c hc)
  have ha' : a ∈ c' := (sorted_perm c').mem_iff.1 (heq ▸ (sorted_perm c).mem_iff.2 ha)
  exact h.eq_of_mem hc hc' ha ha'

/-- What one listing has, sorted, the other has too. -/
theorem mem_sorted_of_mem (h : g.IsComponents cs) (h' : g.IsComponents cs')
    (hmem : c ∈ (cs.filter g.isCycle).map sorted) : c ∈ (cs'.filter g.isCycle).map sorted := by
  obtain ⟨d, hd, rfl⟩ := List.mem_map.1 hmem
  obtain ⟨hd, hcycle⟩ := List.mem_filter.1 hd
  obtain ⟨a, ha⟩ := List.exists_mem_of_ne_nil d (h.nonempty d hd)
  obtain ⟨d', hd', ha'⟩ := h'.covered a ((h.mem_iff d hd a ha a).1 ha).1
  have hperm := h.perm h' hd hd' ha ha'
  refine List.mem_map.2 ⟨d', List.mem_filter.2 ⟨hd', isCycle_perm hperm ▸ hcycle⟩, ?_⟩
  exact (mergeSort_eq_of_perm hperm).symm

/-- However the components are listed, the groups are the same. -/
theorem groupsOf_eq (h : g.IsComponents cs) (h' : g.IsComponents cs') :
    g.groupsOf cs = g.groupsOf cs' := by
  have hperm : ((cs.filter g.isCycle).map sorted).Perm ((cs'.filter g.isCycle).map sorted) :=
    (List.perm_ext_iff_of_nodup h.nodup_sorted h'.nodup_sorted).2 fun c =>
      ⟨h.mem_sorted_of_mem h', h'.mem_sorted_of_mem h⟩
  rw [groupsOf, groupsOf, mergeSort_eq_of_perm hperm]

end IsComponents

/-! ### Groups -/

/-- The groups are the classes of names that lead to each other and to themselves, each once. -/
structure ListsCycles (R : QualifiedName → QualifiedName → Prop) (groups : List CycleGroup) :
    Prop where
  nonempty : ∀ group ∈ groups, group.members ≠ []
  mem_iff : ∀ group ∈ groups, ∀ a ∈ group.members, ∀ b,
    b ∈ group.members ↔ ReflTransGen R a b ∧ ReflTransGen R b a
  cycle_iff : ∀ n, (∃ group ∈ groups, n ∈ group.members) ↔ TransGen R n n
  nodup : (groups.flatMap CycleGroup.members).Nodup

theorem mem_groupsOf_iff {group : CycleGroup} :
    group ∈ g.groupsOf cs ↔ ∃ c ∈ cs, g.isCycle c = true ∧ group = g.group (sorted c) := by
  simp only [groupsOf, List.mem_map, List.mem_mergeSort, List.mem_filter]
  constructor
  · rintro ⟨_, ⟨c, ⟨hc, hcycle⟩, rfl⟩, rfl⟩
    exact ⟨c, hc, hcycle, rfl⟩
  · rintro ⟨c, hc, hcycle, rfl⟩
    exact ⟨sorted c, ⟨c, ⟨hc, hcycle⟩, rfl⟩, rfl⟩

theorem nodup_members (h : g.IsComponents cs) :
    ((g.groupsOf cs).flatMap CycleGroup.members).Nodup := by
  have hmembers : ((g.groupsOf cs).flatMap CycleGroup.members).Perm
      ((cs.filter g.isCycle).flatMap sorted) := by
    have hperm := (List.mergeSort_perm ((cs.filter g.isCycle).map sorted)
      fun a b => a.compareLex QualifiedName.compare b != .gt).flatMap_right id
    rw [List.flatMap_map] at hperm
    rw [groupsOf, List.flatMap_map]
    exact hperm
  have hsorted : ((cs.filter g.isCycle).flatMap sorted).Perm ((cs.filter g.isCycle).flatMap id) :=
    List.Perm.flatMap_left _ fun c _ => sorted_perm c
  rw [(hmembers.trans hsorted).nodup_iff, List.flatMap_id]
  exact h.nodup.sublist List.filter_sublist.flatten

theorem listsCycles_groupsOf (hg : g.WellFormed) (h : g.IsComponents cs) :
    ListsCycles g.Refers (g.groupsOf cs) := by
  have hmem {c : List QualifiedName} {n : QualifiedName} :
      n ∈ (g.group (sorted c)).members ↔ n ∈ c := (sorted_perm c).mem_iff
  constructor
  case nonempty =>
    intro group hgroup hnil
    obtain ⟨c, hc, _, rfl⟩ := mem_groupsOf_iff.1 hgroup
    obtain ⟨a, ha⟩ := List.exists_mem_of_ne_nil c (h.nonempty c hc)
    exact List.ne_nil_of_mem (hmem.2 ha) hnil
  case mem_iff =>
    intro group hgroup a ha b
    obtain ⟨c, hc, hcycle, rfl⟩ := mem_groupsOf_iff.1 hgroup
    rw [hmem] at ha ⊢
    rw [h.mem_iff c hc a ha]
    refine and_iff_right_of_imp fun (hconn : g.Connected a b) => ?_
    have hb := hconn.cycle ((h.isCycle_iff hg hc ha).1 hcycle)
    obtain ⟨_, _, hlast⟩ := TransGen.tail'_iff.1 hb
    exact hg.mem_nodes hlast
  case cycle_iff =>
    intro n
    constructor
    · rintro ⟨group, hgroup, hn⟩
      obtain ⟨c, hc, hcycle, rfl⟩ := mem_groupsOf_iff.1 hgroup
      exact (h.isCycle_iff hg hc (hmem.1 hn)).1 hcycle
    · intro hcycle
      obtain ⟨_, _, hlast⟩ := TransGen.tail'_iff.1 hcycle
      obtain ⟨c, hc, hn⟩ := h.covered n (hg.mem_nodes hlast)
      exact ⟨g.group (sorted c),
        mem_groupsOf_iff.2 ⟨c, hc, (h.isCycle_iff hg hc hn).2 hcycle, rfl⟩, hmem.2 hn⟩
  case nodup => exact nodup_members h

theorem listsCycles_cycleGroups (hg : g.WellFormed) : ListsCycles g.Refers g.cycleGroups :=
  listsCycles_groupsOf hg (isComponents_components hg)

end

/-! ### Asking about one record -/

theorem mem_of_groupOf? {groups : List CycleGroup} {n : QualifiedName} {p : Nat × CycleGroup}
    (h : groupOf? groups n = some p) : p.2 ∈ groups ∧ n ∈ p.2.members := by
  obtain ⟨q, hfind, rfl⟩ := Option.map_eq_some_iff.1 h
  exact ⟨List.fst_mem_of_mem_zipIdx (List.mem_of_find?_eq_some hfind),
    List.contains_iff_mem.1 (List.find?_some hfind :)⟩

theorem isRecursive_iff {groups : List CycleGroup} {n : QualifiedName} :
    isRecursive groups n = true ↔ ∃ group ∈ groups, n ∈ group.members := by
  simp only [isRecursive, groupOf?, Option.isSome_map, List.find?_isSome, List.contains_iff_mem]
  constructor
  · rintro ⟨q, hq, hn⟩
    exact ⟨q.1, List.fst_mem_of_mem_zipIdx hq, hn⟩
  · rintro ⟨group, hgroup, hn⟩
    obtain ⟨i, hi⟩ := List.mem_iff_getElem?.1 hgroup
    exact ⟨(group, i), List.mem_zipIdx_iff_getElem?.2 hi, hn⟩

theorem mem_boxedFields_iff {members : List QualifiedName} {n : QualifiedName} {field : String} :
    field ∈ (g.group members).boxedFields n ↔ ∃ r ∈ g.references,
      (r.source = n ∧ r.field = field ∧ r.depth = 0) ∧ n ∈ members ∧ r.target ∈ members := by
  simp only [CycleGroup.boxedFields, group, boxedIn, List.mem_map, List.mem_filter,
    List.mem_mergeSort, List.mem_reverse, inside, Bool.and_eq_true, List.contains_iff_mem,
    beq_iff_eq, decide_eq_true_eq]
  constructor
  · rintro ⟨_, ⟨⟨r, ⟨hr, ⟨hsource, htarget⟩, hdepth⟩, rfl⟩, rfl⟩, rfl⟩
    exact ⟨r, hr, ⟨rfl, rfl, hdepth⟩, hsource, htarget⟩
  · rintro ⟨r, hr, ⟨rfl, rfl, hdepth⟩, hsource, htarget⟩
    exact ⟨_, ⟨⟨r, ⟨hr, ⟨hsource, htarget⟩, hdepth⟩, rfl⟩, rfl⟩, rfl⟩

/-- A record is recursive exactly when references lead from it back to it. -/
theorem isRecursive_cycleGroups_iff (hg : g.WellFormed) {n : QualifiedName} :
    isRecursive g.cycleGroups n = true ↔ TransGen g.Refers n n :=
  isRecursive_iff.trans ((listsCycles_cycleGroups hg).cycle_iff n)

/-- A field needs a box exactly when a direct reference of it reaches its record again. -/
theorem needsBox_cycleGroups_iff (hg : g.WellFormed) {n : QualifiedName} {field : String} :
    needsBox g.cycleGroups n field = true ↔ ∃ r ∈ g.references,
      (r.source = n ∧ r.field = field ∧ r.depth = 0) ∧ ReflTransGen g.Refers r.target n := by
  have hcycles := listsCycles_cycleGroups hg
  rw [needsBox]
  constructor
  · intro hbox
    split at hbox
    case h_1 i group hgroupOf =>
        obtain ⟨hgroup, hn⟩ := mem_of_groupOf? hgroupOf
        obtain ⟨c, _, _, rfl⟩ := mem_groupsOf_iff.1 hgroup
        obtain ⟨r, hr, hfield, _, htarget⟩ := mem_boxedFields_iff.1 (List.contains_iff_mem.1 hbox)
        exact ⟨r, hr, hfield, ((hcycles.mem_iff _ hgroup n hn _).1 htarget).2⟩
    case h_2 => exact absurd hbox Bool.false_ne_true
  · rintro ⟨r, hr, hfield, hback⟩
    have hrefers : g.Refers n r.target := refers_iff.2 ⟨r, hr, hfield.1, rfl⟩
    have hcycle : isRecursive g.cycleGroups n = true :=
      (isRecursive_cycleGroups_iff hg).2 (.head' hrefers hback)
    obtain ⟨⟨i, group⟩, hgroupOf⟩ := Option.isSome_iff_exists.1 hcycle
    obtain ⟨hgroup, hn⟩ := mem_of_groupOf? hgroupOf
    have htarget : r.target ∈ group.members :=
      (hcycles.mem_iff _ hgroup n hn _).2 ⟨.single hrefers, hback⟩
    obtain ⟨c, _, _, rfl⟩ := mem_groupsOf_iff.1 hgroup
    simp only [hgroupOf]
    exact List.contains_iff_mem.2 (mem_boxedFields_iff.2 ⟨r, hr, hfield, hn, htarget⟩)

end ReferenceGraph
end RecordCodec
