import Mathlib.Logic.Relation
import RecordCodec.References.Cycles

/-!
What is reached. The search takes the front out of the names that are unseen, so it finds each name
once; it finds exactly the names to which references lead from the front through names that were
unseen when it began. In a graph whose targets are all nodes, these are the names that are reached
by one or more references.
-/

namespace RecordCodec

namespace ReferenceGraph

open Relation (ReflTransGen TransGen)

/-! ### The search -/

/-- The second name follows the first and is unseen. -/
def FollowsIn (next : QualifiedName → List QualifiedName) (unseen : List QualifiedName)
    (a b : QualifiedName) : Prop :=
  b ∈ next a ∧ b ∈ unseen

section

variable {next : QualifiedName → List QualifiedName} {unseen front : List QualifiedName}
  {m n : QualifiedName}

theorem mem_outside_iff : n ∈ outside front unseen ↔ n ∈ unseen ∧ n ∉ front := by
  simp [outside]

theorem mem_fresh_iff : n ∈ unseen.filter front.contains ↔ n ∈ unseen ∧ n ∈ front := by
  simp

theorem FollowsIn.of_outside (h : FollowsIn next (outside front unseen) m n) :
    FollowsIn next unseen m n :=
  ⟨h.1, (mem_outside_iff.1 h.2).1⟩

/-- A way from the front that leaves it for good stays in what is unseen then. -/
theorem leaves_front {fresh : List QualifiedName} (hfresh : unseen.filter front.contains = fresh)
    (hm : m ∈ front) (hu : m ∈ unseen) (h : ReflTransGen (FollowsIn next unseen) m n) :
    n ∈ fresh ∨ ∃ k ∈ fresh.flatMap next, k ∈ outside front unseen ∧
      ReflTransGen (FollowsIn next (outside front unseen)) k n := by
  subst hfresh
  induction h with
  | refl => exact .inl (mem_fresh_iff.2 ⟨hu, hm⟩)
  | @tail b c _ hstep ih =>
      obtain ⟨hnext, hunseen⟩ := hstep
      by_cases hc : c ∈ front
      · exact .inl (mem_fresh_iff.2 ⟨hunseen, hc⟩)
      · have hout : c ∈ outside front unseen := mem_outside_iff.2 ⟨hunseen, hc⟩
        obtain hb | ⟨k, hk, hkout, hway⟩ := ih
        · exact .inr ⟨c, List.mem_flatMap.2 ⟨b, hb, hnext⟩, hout, .refl⟩
        · exact .inr ⟨k, hk, hkout, hway.tail ⟨hnext, hout⟩⟩

theorem mem_reach_iff : n ∈ reach next unseen front ↔
    ∃ m ∈ front, m ∈ unseen ∧ ReflTransGen (FollowsIn next unseen) m n := by
  fun_induction reach next unseen front with
  | case1 unseen front hfresh =>
      refine ⟨fun h => absurd h List.not_mem_nil, ?_⟩
      rintro ⟨m, hm, hu, _⟩
      exact absurd (hfresh ▸ mem_fresh_iff.2 ⟨hu, hm⟩) List.not_mem_nil
  | case2 unseen front q fresh hfresh ih =>
      rw [List.mem_append, ih]
      constructor
      · rintro (hn | ⟨k, hk, hkout, hway⟩)
        · obtain ⟨hu, hm⟩ := mem_fresh_iff.1 (hfresh ▸ hn)
          exact ⟨n, hm, hu, .refl⟩
        · obtain ⟨b, hb, hnext⟩ := List.mem_flatMap.1 hk
          obtain ⟨hu, hm⟩ := mem_fresh_iff.1 (hfresh ▸ hb)
          have hstep : FollowsIn next unseen b k := ⟨hnext, (mem_outside_iff.1 hkout).1⟩
          exact ⟨b, hm, hu, .head hstep (ReflTransGen.mono (fun _ _ h => h.of_outside) _ _ hway)⟩
      · rintro ⟨m, hm, hu, hway⟩
        exact leaves_front hfresh hm hu hway

end

/-! ### Graphs -/

/-- A field of the first record refers to the second. -/
def Refers (g : ReferenceGraph) (a b : QualifiedName) : Prop := b ∈ g.targets a

/-- Every target is a node, and no node is listed twice. -/
structure WellFormed (g : ReferenceGraph) : Prop where
  targets : ∀ r ∈ g.references, r.target ∈ g.nodes
  nodup : g.nodes.Nodup

variable {g : ReferenceGraph} {a b : QualifiedName}

theorem refers_iff : g.Refers a b ↔ ∃ r ∈ g.references, r.source = a ∧ r.target = b := by
  simp [Refers, targets, and_assoc]

theorem WellFormed.mem_nodes (h : g.WellFormed) (hr : g.Refers a b) : b ∈ g.nodes := by
  obtain ⟨r, hmem, _, rfl⟩ := refers_iff.1 hr
  exact h.targets r hmem

/-- The records reached from a record are those to which one or more references lead. -/
theorem WellFormed.mem_reachable_iff (h : g.WellFormed) :
    b ∈ g.reachable a ↔ TransGen g.Refers a b := by
  have hfollows : ∀ {a b}, FollowsIn g.targets g.nodes a b ↔ g.Refers a b :=
    ⟨And.left, fun hr => ⟨hr, h.mem_nodes hr⟩⟩
  rw [reachable, mem_reach_iff, TransGen.head'_iff]
  constructor
  · rintro ⟨m, hm, _, hway⟩
    exact ⟨m, hm, ReflTransGen.mono (fun _ _ => hfollows.1) _ _ hway⟩
  · rintro ⟨m, hm, hway⟩
    exact ⟨m, hm, h.mem_nodes hm, ReflTransGen.mono (fun _ _ => hfollows.2) _ _ hway⟩

/-! ### Graphs of records -/

theorem nodup_eraseDups (names : List QualifiedName) : names.eraseDups.Nodup := by
  cases names with
  | nil => exact List.nodup_nil
  | cons n names =>
      rw [List.eraseDups_cons, List.nodup_cons]
      refine ⟨?_, nodup_eraseDups _⟩
      simp [List.mem_eraseDups]
termination_by names.length
decreasing_by exact Nat.lt_succ_of_le (List.length_filter_le _ _)

theorem wellFormed_ofRecords (records : List RecordDefinition) :
    (ofRecords records).WellFormed where
  targets := by
    intro r hr
    refine List.mem_eraseDups.2 (List.mem_append_right _ ?_)
    exact List.mem_map_of_mem hr
  nodup := nodup_eraseDups _

end ReferenceGraph
end RecordCodec
