import Mathlib.Tactic.SplitIfs
import SourceText.Pattern.Node

/-!
# The groups of a tree

Trees are put together in a plain form: literals are joined, sequences and alternatives flattened,
and what alternatives begin with in common is taken out in front. None of this gains or loses a
group: a sequence has the groups of its parts in order (`groups_sequence`), and alternatives have
the groups of all of them (`mem_groups_alternatives`), where those of parts that are taken out stand
once instead of many times. Only a body that is never matched loses its groups (`groups_repeated`).

What a tree says about its groups, their count and the index of a name, depends on nothing but which
groups it has, if no two have the same name (`groupIndex?_eq_some_iff`).
-/

namespace SourceText.Pattern.Node

/-! ## Sequences -/

/-- The groups of a node are those of its parts. -/
theorem groups_parts (n : Node) : n.parts.flatMap groups = n.groups := by
  induction n with
  | empty => rfl
  | seq a b _ ihb => rw [parts, List.flatMap_cons, ihb, groups]
  | literal _ | set _ | assertion _ | group _ _ _ _ | alt _ _ _ _ | rep _ _ _ _ _ =>
    simp [parts, groups]

/-- Joining literals changes no group: they have none. -/
theorem groups_joinLiterals (nodes : List Node) :
    (joinLiterals nodes).flatMap groups = nodes.flatMap groups := by
  induction nodes with
  | nil => rfl
  | cons n rest ih =>
    unfold joinLiterals
    split
    · -- Two literals become one.
      rename_i s t rest' heq
      rw [heq] at ih
      exact ih
    · rw [List.flatMap_cons, List.flatMap_cons, ih]

/-- Nodes that are chained have the groups of each, in order. -/
theorem groups_chain (nodes : List Node) : (chain nodes).groups = nodes.flatMap groups := by
  induction nodes with
  | nil => rfl
  | cons a rest ih =>
    cases rest with
    | nil => simp [chain]
    | cons b rest => rw [chain, groups, ih, List.flatMap_cons (x := a)]

/-- A sequence has the groups of its parts. -/
@[simp] theorem groups_sequence (nodes : List Node) :
    (sequence nodes).groups = nodes.flatMap groups := by
  rw [sequence, groups_chain, groups_joinLiterals, List.flatMap_assoc]
  simp only [groups_parts]

/-! ## Alternatives -/

/-- The groups of a node are those of its alternatives. -/
theorem groups_choices (n : Node) : n.choices.flatMap groups = n.groups := by
  induction n with
  | alt a b _ ihb => rw [choices, List.flatMap_cons, ihb, groups]
  | empty | literal _ | set _ | assertion _ | group _ _ _ _ | seq _ _ _ _ | rep _ _ _ _ _ =>
    simp [choices, groups]

/-- So have nodes that are chosen from. -/
theorem groups_choose (nodes : List Node) : (choose nodes).groups = nodes.flatMap groups := by
  induction nodes with
  | nil => rfl
  | cons a rest ih =>
    cases rest with
    | nil => simp [choose]
    | cons b rest => rw [choose, groups, ih, List.flatMap_cons (x := a)]

/-- A set has no groups, whether or not it is kept as a character. -/
@[simp] theorem groups_ofSet (s : CharSet) : (ofSet s).groups = [] := by
  unfold ofSet
  split
  · split_ifs <;> rfl
  · rfl

/-- A single character has no groups. -/
theorem groups_of_char? {n : Node} {c : Char} (h : n.char? = some c) : n.groups = [] := by
  unfold char? at h
  split at h
  · rfl
  · cases h

/-- A set has no groups. -/
theorem groups_of_set? {n : Node} {s : CharSet} (h : n.set? = some s) : n.groups = [] := by
  unfold set? at h
  split at h
  · rfl
  · cases h

/-- Nodes that all read as something without groups have none. -/
theorem groups_eq_nil_of_mapM {α : Type} {f : Node → Option α}
    (hf : ∀ n a, f n = some a → n.groups = []) {nodes : List Node} {as : List α}
    (h : nodes.mapM f = some as) : nodes.flatMap groups = [] := by
  induction nodes generalizing as with
  | nil => rfl
  | cons n rest ih =>
    rw [List.mapM_cons] at h
    obtain ⟨a, ha, h⟩ := Option.bind_eq_some_iff.mp h
    obtain ⟨as', has, -⟩ := Option.bind_eq_some_iff.mp h
    rw [List.flatMap_cons, hf n a ha, ih has, List.append_nil]

/-- Any of some nodes has the groups of all of them. -/
theorem groups_anyOf (nodes : List Node) : (anyOf nodes).groups = nodes.flatMap groups := by
  unfold anyOf
  split
  · simp
  · -- All are characters, or all are sets.
    rename_i chars _ hchars
    rw [groups_ofSet, groups_eq_nil_of_mapM (fun _ _ => groups_of_char?) hchars]
  · rename_i sets _ _ hsets
    rw [groups_ofSet, groups_eq_nil_of_mapM (fun _ _ => groups_of_set?) hsets]
  · exact groups_choose _

/-- Two lists of parts both begin with what they have in common. -/
theorem commonParts_prefix_both (as bs : List Node) :
    commonParts as bs <+: as ∧ commonParts as bs <+: bs := by
  induction as generalizing bs with
  | nil => simp [commonParts]
  | cons a as ih =>
    cases bs with
    | nil => simp [commonParts]
    | cons b bs =>
      unfold commonParts
      split_ifs with hab
      · obtain ⟨hleft, hright⟩ := ih bs
        rw [← hab]
        exact ⟨(List.prefix_cons_inj a).mpr hleft, (List.prefix_cons_inj a).mpr hright⟩
      · exact ⟨List.nil_prefix, List.nil_prefix⟩

/-- All of the nodes begin with the parts that they share. -/
theorem sharedParts_prefix {nodes : List Node} {n : Node} (hn : n ∈ nodes) :
    sharedParts nodes <+: n.parts := by
  have hfold : ∀ (rest : List Node) (shared : List Node),
      (rest.foldl (fun shared m => commonParts shared m.parts) shared) <+: shared ∧
        ∀ m ∈ rest,
          (rest.foldl (fun shared m => commonParts shared m.parts) shared) <+: m.parts := by
    -- What is shared gets shorter from node to node, so it stays a prefix of those before.
    intro rest
    induction rest with
    | nil => exact fun shared => ⟨List.prefix_refl _, by simp⟩
    | cons m rest ih =>
      intro shared
      obtain ⟨hshared, hrest⟩ := ih (commonParts shared m.parts)
      refine ⟨hshared.trans (commonParts_prefix_both _ _).1, ?_⟩
      intro k hk
      rcases List.mem_cons.mp hk with rfl | hk
      · exact hshared.trans (commonParts_prefix_both _ _).2
      · exact hrest k hk
  cases nodes with
  | nil => simp at hn
  | cons a rest =>
    rw [sharedParts]
    split_ifs
    · rcases List.mem_cons.mp hn with rfl | hn
      · exact (hfold rest n.parts).1
      · exact (hfold rest a.parts).2 n hn
    · exact List.nil_prefix

/-- What nodes share has groups of each of them, and what is left of a node has its others. -/
theorem groups_eq_shared_append {nodes : List Node} {n : Node} (hn : n ∈ nodes) :
    n.groups = (sharedParts nodes).flatMap groups ++
      (n.parts.drop (sharedParts nodes).length).flatMap groups := by
  obtain ⟨rest, hrest⟩ := sharedParts_prefix hn
  rw [← groups_parts n, ← hrest, List.drop_left, List.flatMap_append]

/-- Alternatives have the groups of all of them. -/
theorem mem_groups_alternatives {nodes : List Node} {g : Nat × Option Text} :
    g ∈ (alternatives nodes).groups ↔ ∃ n ∈ nodes, g ∈ n.groups := by
  have hflat : g ∈ (nodes.flatMap choices).flatMap groups ↔ ∃ n ∈ nodes, g ∈ n.groups := by
    rw [List.flatMap_assoc]
    simp only [groups_choices, List.mem_flatMap]
  rw [← hflat]
  unfold alternatives
  simp only
  generalize nodes.flatMap choices = nodes
  split
  · simp
  · rw [groups_anyOf]
  · -- The nodes share some parts, so there is a node that has them.
    rename_i nodes _ _ _ hshared
    have hsome : nodes ≠ [] := fun hnil => hshared (by rw [hnil]; rfl)
    simp only [groups_sequence, List.flatMap_append, List.flatMap_singleton, groups_anyOf,
      List.flatMap_assoc, groups_choices, List.flatMap_map, List.mem_append, List.mem_flatMap]
    constructor
    · -- A group of the shared parts is one of any of the nodes.
      rintro (⟨m, hm, hg⟩ | ⟨n, hn, m, hm, hg⟩)
      · obtain ⟨n, rest, rfl⟩ := List.exists_cons_of_ne_nil hsome
        refine ⟨n, .head _, ?_⟩
        rw [groups_eq_shared_append (.head rest)]
        exact List.mem_append_left _ (List.mem_flatMap.mpr ⟨m, hm, hg⟩)
      · refine ⟨n, hn, ?_⟩
        rw [groups_eq_shared_append hn]
        exact List.mem_append_right _ (List.mem_flatMap.mpr ⟨m, hm, hg⟩)
    · rintro ⟨n, hn, hg⟩
      rw [groups_eq_shared_append hn, List.mem_append] at hg
      rcases hg with hg | hg
      · exact .inl (List.mem_flatMap.mp hg)
      · exact .inr ⟨n, hn, List.mem_flatMap.mp hg⟩

/-! ## Repetitions -/

/-- A repetition has the groups of its body, unless the body is never matched. -/
theorem groups_repeated (body : Node) (least : Nat) (most : Option Nat) (greedy : Bool) :
    (repeated body least most greedy).groups = if most = some 0 then [] else body.groups := by
  -- That the body need not be matched twice leaves a greatest count of none as it is.
  have hmost : (if body.isZeroWidth then some ((most.map (Nat.min 1)).getD 1) else most) = some 0 ↔
      most = some 0 := by
    cases most with
    | none => cases body.isZeroWidth <;> simp
    | some n =>
      cases body.isZeroWidth with
      | false => rfl
      | true =>
        change some (min 1 n) = some 0 ↔ some n = some 0
        rw [Option.some.injEq, Option.some.injEq]
        omega
  unfold repeated
  simp only [hmost]
  split_ifs <;> rfl

/-! ## Counts and names -/

/-- The count of the groups is the least number that no index exceeds. -/
theorem groupCount_le_iff {n : Node} {k : Nat} : n.groupCount ≤ k ↔ ∀ g ∈ n.groups, g.1 ≤ k := by
  have hfold : ∀ (l : List Nat) (m : Nat), l.foldl max m ≤ k ↔ m ≤ k ∧ ∀ i ∈ l, i ≤ k := by
    intro l
    induction l with
    | nil => simp
    | cons i l ih =>
      intro m
      rw [List.foldl_cons, ih, List.forall_mem_cons, Nat.max_le, and_assoc]
  rw [groupCount, hfold, List.forall_mem_map]
  simp

/-- No two groups have the same name. -/
def NamesApart (n : Node) : Prop :=
  ∀ i j name, (i, some name) ∈ n.groups → (j, some name) ∈ n.groups → i = j

/-- Then a name is looked up to the group that has it. -/
theorem groupIndex?_eq_some_iff {n : Node} (hn : n.NamesApart) {name : Text} {i : Nat} :
    n.groupIndex? name = some i ↔ (i, some name) ∈ n.groups := by
  unfold groupIndex?
  rw [Option.map_eq_some_iff]
  constructor
  · rintro ⟨⟨j, name'⟩, hfind, rfl⟩
    obtain rfl : name' = some name := by simpa using List.find?_some hfind
    exact List.mem_of_find?_eq_some hfind
  · intro hi
    cases hfind : n.groups.find? fun g => g.2 == some name with
    | none => exact absurd (List.find?_eq_none.mp hfind _ hi) (by simp)
    | some g =>
      obtain ⟨j, name'⟩ := g
      obtain rfl : name' = some name := by simpa using List.find?_some hfind
      exact ⟨_, rfl, hn j i name (List.mem_of_find?_eq_some hfind) hi⟩

section SameGroups

variable {n n' : Node} (h : ∀ g, g ∈ n'.groups ↔ g ∈ n.groups)
include h

/-- Trees with the same groups have as many of them. -/
theorem groupCount_eq_of_same : n'.groupCount = n.groupCount := by
  refine Nat.le_antisymm (groupCount_le_iff.mpr fun g hg => ?_)
    (groupCount_le_iff.mpr fun g hg => ?_)
  · exact groupCount_le_iff.mp (Nat.le_refl _) g ((h g).mp hg)
  · exact groupCount_le_iff.mp (Nat.le_refl _) g ((h g).mpr hg)

/-- In trees with the same groups a name stands for the same group, since no two have that name. -/
theorem groupIndex?_eq_of_same (hn : n.NamesApart) (name : Text) :
    n'.groupIndex? name = n.groupIndex? name := by
  have hn' : n'.NamesApart := fun i j name hi hj => hn i j name ((h _).mp hi) ((h _).mp hj)
  ext i
  rw [groupIndex?_eq_some_iff hn, groupIndex?_eq_some_iff hn', h]

end SameGroups

end SourceText.Pattern.Node
