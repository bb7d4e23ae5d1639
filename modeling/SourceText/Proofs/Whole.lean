import Mathlib.Data.List.Forall2
import SourceText.Proofs.Bracket
import SourceText.Proofs.Groups

/-!
# Reading the pattern that matches whole texts only

The text of a pattern is read twice when a matcher needs the pattern that matches whole texts only:
once alone, under the flags that were given with it, and once in a group with `wholeSuffix` behind,
under no flags. `State.Alike` relates the two readings. Both are inside the same groups, apart from
the one around the second, which lies on a level of its own below all others. What has been read
holds the same groups, and is the same altogether if the flags are (`Part.Alike`). One sign keeps
the two in step (`readSign_inStep`), and so do all of them (`readSigns_inStep`), which gives what
the two make of the pattern (`read_whole`).

That needs one thing of the flags: they have to leave out blanks and comments alike. The groups that
have been opened so far are kept along, since each name stands for one of them.
-/

namespace SourceText.Pattern.Reader

open Node (groups_sequence mem_groups_alternatives groups_repeated)

/-! ## Parts -/

/-- The groups of a part. -/
def Part.groups (a : Part) : List (Nat × Option Text) := a.node.toList.flatMap Node.groups

/-- Two readings of a part hold the same groups, which are among those that are known, and are the
same if `same` holds. -/
structure Part.Alike (known : List (Nat × Option Text)) (same : Prop) (a a' : Part) : Prop where
  /-- Both are directives, or neither is. -/
  isSome : a'.node.isSome = a.node.isSome
  /-- They hold the same groups. -/
  groups : ∀ g, g ∈ a'.groups ↔ g ∈ a.groups
  /-- The groups are known. -/
  known : ∀ g ∈ a.groups, g ∈ known
  /-- They may be the same altogether. -/
  eq : same → a' = a

/-- Parts that are alike one by one. -/
abbrev Parts.Alike (known : List (Nat × Option Text)) (same : Prop) :
    List Part → List Part → Prop :=
  List.Forall₂ (Part.Alike known same)

variable {known : List (Nat × Option Text)} {same : Prop}

/-- The nodes of some parts have the groups of the parts. -/
theorem Part.exists_node_iff {items : List Part} {g : Nat × Option Text} :
    (∃ n ∈ items.reverse.filterMap Part.node, g ∈ n.groups) ↔ ∃ a ∈ items, g ∈ a.groups := by
  simp only [List.mem_filterMap, List.mem_reverse, Part.groups, List.mem_flatMap,
    Option.mem_toList]
  constructor
  · rintro ⟨n, ⟨a, ha, hn⟩, hg⟩
    exact ⟨a, ha, n, hn, hg⟩
  · rintro ⟨a, ha, n, hn, hg⟩
    exact ⟨n, ⟨a, ha, hn⟩, hg⟩

/-- A sequence has the groups of its items. -/
theorem Part.mem_groups_sequence {items : List Part} {g : Nat × Option Text} :
    g ∈ (Part.sequence items).groups ↔ ∃ a ∈ items, g ∈ a.groups := by
  rw [← Part.exists_node_iff]
  simp [Part.sequence, Part.groups]

/-- Alternatives have the groups of each. -/
theorem Part.mem_groups_alternatives {items : List Part} {g : Nat × Option Text} :
    g ∈ (Part.alternatives items).groups ↔ ∃ a ∈ items, g ∈ a.groups := by
  rw [← Part.exists_node_iff]
  simp only [Part.alternatives, Part.groups, Option.toList_some, List.flatMap_singleton,
    Node.mem_groups_alternatives]

namespace Parts.Alike

variable {items items' : List Part}

/-- Parts that are alike have the same groups between them. -/
theorem groups (h : Parts.Alike known same items items') (g : Nat × Option Text) :
    (∃ a ∈ items', g ∈ a.groups) ↔ ∃ a ∈ items, g ∈ a.groups := by
  induction h with
  | nil => exact Iff.rfl
  | cons ha _ ih => simp only [List.exists_mem_cons_iff, ih, ha.groups]

/-- Each group of one of them is known. -/
theorem known_of_mem (h : Parts.Alike known same items items') {a : Part}
    (ha : a ∈ items) : ∀ g ∈ a.groups, g ∈ known := by
  induction h with
  | nil => simp at ha
  | cons hb _ ih =>
    rcases List.mem_cons.mp ha with rfl | ha
    · exact hb.known
    · exact ih ha

/-- Parts that are the same one by one are the same. -/
theorem eq (h : Parts.Alike known same items items') (hs : same) : items' = items := by
  induction h with
  | nil => rfl
  | cons ha _ ih => rw [ha.eq hs, ih]

/-- Put one behind the other, parts that are alike are alike still. -/
theorem sequence (h : Parts.Alike known same items items') :
    (Part.sequence items).Alike known same (.sequence items') where
  isSome := rfl
  groups g := by
    rw [Part.mem_groups_sequence, Part.mem_groups_sequence, h.groups]
  known g hg := by
    obtain ⟨a, ha, hg⟩ := Part.mem_groups_sequence.mp hg
    exact h.known_of_mem ha g hg
  eq hs := by rw [h.eq hs]

/-- Parts that are alike are alike as alternatives. -/
theorem alternatives (h : Parts.Alike known same items items') :
    (Part.alternatives items).Alike known same (.alternatives items') where
  isSome := rfl
  groups g := by
    rw [Part.mem_groups_alternatives, Part.mem_groups_alternatives, h.groups]
  known g hg := by
    obtain ⟨a, ha, hg⟩ := Part.mem_groups_alternatives.mp hg
    exact h.known_of_mem ha g hg
  eq hs := by rw [h.eq hs]

end Parts.Alike

/-- Two signs are alike if neither holds a group. -/
theorem Part.sign_alike {n n' : Node} (hn : n.groups = []) (hn' : n'.groups = [])
    (heq : same → n' = n) (depth : Nat) :
    Part.Alike known same ⟨some n, depth⟩ ⟨some n', depth⟩ where
  isSome := rfl
  groups g := by simp [Part.groups, hn, hn']
  known g hg := by simp [Part.groups, hn] at hg
  eq hs := by rw [heq hs]

/-- A directive holds no group. -/
theorem Part.directive_alike : Part.Alike known same .directive .directive where
  isSome := rfl
  groups _ := Iff.rfl
  known g hg := by simp [Part.groups, Part.directive] at hg
  eq _ := rfl

/-- Knowing more groups changes nothing. -/
theorem Part.Alike.mono {known' : List (Nat × Option Text)} {a a' : Part}
    (h : a.Alike known same a') (hk : ∀ g ∈ known, g ∈ known') : a.Alike known' same a' :=
  ⟨h.isSome, h.groups, fun g hg => hk g (h.known g hg), h.eq⟩

/-! ## Levels -/

/-- Two readings are inside the same group, and what they have read of it is alike. -/
structure Level.Alike (known : List (Nat × Option Text)) (same : Prop) (l l' : Level) : Prop where
  /-- The group is the same. -/
  capture : l'.capture = l.capture
  /-- It is known. -/
  captureKnown : ∀ g, l.capture = some g → g ∈ known
  /-- The flags after it are alike. -/
  flagsAfter : l.flagsAfter.Alike same l'.flagsAfter
  /-- The complete alternatives are alike. -/
  alternatives : Parts.Alike known same l.alternatives l'.alternatives
  /-- The items of the alternative being read are alike. -/
  items : Parts.Alike known same l.items l'.items

namespace Level.Alike

variable {l l' : Level}

/-- Two levels whose fields are the same are the same level. -/
theorem eq (h : l.Alike known same l') (hs : same) : l' = l := by
  obtain ⟨capture, flagsAfter, alternatives, items⟩ := l'
  obtain ⟨hc, -, hf, ha, hi⟩ := h
  obtain rfl := hc
  obtain rfl := hf.eq hs
  obtain rfl := Parts.Alike.eq ha hs
  obtain rfl := Parts.Alike.eq hi hs
  rfl

/-- Knowing more groups does not set two levels apart. -/
theorem mono {known' : List (Nat × Option Text)} (h : l.Alike known same l')
    (hk : ∀ g ∈ known, g ∈ known') : l.Alike known' same l' :=
  ⟨h.capture, fun g hg => hk g (h.captureKnown g hg), h.flagsAfter,
    h.alternatives.imp fun _ _ ha => ha.mono hk, h.items.imp fun _ _ ha => ha.mono hk⟩

/-- One item more on both levels keeps them alike. -/
theorem push (h : l.Alike known same l') {a a' : Part} (ha : a.Alike known same a') :
    (l.push a).Alike known same (l'.push a') :=
  ⟨h.capture, h.captureKnown, h.flagsAfter, h.alternatives, .cons ha h.items⟩

/-- Both levels end an alternative at once. -/
theorem nextAlternative (h : l.Alike known same l') :
    l.nextAlternative.Alike known same l'.nextAlternative :=
  ⟨h.capture, h.captureKnown, h.flagsAfter,
    .cons (Parts.Alike.sequence h.items) h.alternatives, .nil⟩

/-- What two levels hold together is alike. -/
theorem body (h : l.Alike known same l') : l.body.Alike known same l'.body := by
  obtain ⟨capture, flagsAfter, alternatives, items⟩ := l
  obtain ⟨capture', flagsAfter', alternatives', items'⟩ := l'
  -- Both have complete alternatives, or neither has.
  cases h.alternatives with
  | nil => exact Parts.Alike.sequence h.items
  | cons ha hrest =>
    exact Parts.Alike.alternatives (.cons (Parts.Alike.sequence h.items) (.cons ha hrest))

/-- So is what they give to the level around them, with the group that they are inside. -/
theorem close (h : l.Alike known same l') : l.close.Alike known same l'.close := by
  have hbody := h.body
  have heq : same → l'.close = l.close := fun hs => by rw [h.eq hs]
  unfold Level.close at heq ⊢
  rw [h.capture] at heq ⊢
  generalize l.body = b at hbody heq ⊢
  generalize l'.body = b' at hbody heq ⊢
  -- A group that records adds itself to the groups of its body.
  cases hc : l.capture with
  | none => exact ⟨hbody.isSome, hbody.groups, hbody.known, by simpa only [hc] using heq⟩
  | some capture =>
    obtain ⟨index, name⟩ := capture
    simp only [hc] at heq ⊢
    obtain ⟨node, depth⟩ := b
    obtain ⟨node', depth'⟩ := b'
    cases node with
    | none =>
      obtain rfl : node' = none := by simpa using hbody.isSome
      exact ⟨rfl, fun g => Iff.rfl, by simp [Part.groups], heq⟩
    | some n =>
      obtain ⟨n', rfl⟩ := Option.isSome_iff_exists.mp hbody.isSome
      have hgroups : ∀ (n : Node) d g, g ∈ (⟨some (.group index name n), d⟩ : Part).groups ↔
          g = (index, name) ∨ g ∈ n.groups := by
        intro n d g
        simp [Part.groups, Node.groups]
      have hsome : ∀ (n : Node) d, (⟨some n, d⟩ : Part).groups = n.groups := by
        intro n d
        simp [Part.groups]
      refine ⟨rfl, fun g => ?_, fun g hg => ?_, heq⟩
      · have hg := hbody.groups g
        rw [hsome, hsome] at hg
        exact (hgroups n' _ g).trans ((or_congr_right hg).trans (hgroups n _ g).symm)
      · rcases (hgroups n _ g).mp hg with rfl | hg
        · exact h.captureKnown _ hc
        · exact hbody.known g (by rwa [hsome])

end Level.Alike

/-! ## States -/

/-- Two readings of a pattern that are in step. The second has one level more, below all others. -/
structure State.Alike (known : List (Nat × Option Text)) (same : Prop) (base : Level)
    (s s' : State) : Prop where
  /-- The flags are alike. -/
  flags : s.flags.Alike same s'.flags
  /-- As many groups have been opened. -/
  captures : s'.captures = s.captures
  /-- They have the same names. -/
  names : s'.names = s.names
  /-- What has been read of the innermost group is alike. -/
  level : s.level.Alike known same s'.level
  /-- So is what has been read around it, apart from the level below all others. -/
  outer : ∃ outer', s'.outer = outer' ++ [base] ∧
    List.Forall₂ (Level.Alike known same) s.outer outer'
  /-- The outermost level of the first is no group that records. -/
  bottom : (s.level.capture :: s.outer.map Level.capture).getLast? = some none
  /-- The names of known groups are taken. -/
  taken : ∀ i n, (i, some n) ∈ known → n ∈ s.names
  /-- Each of them is the name of one group. -/
  single : ∀ i j n, (i, some n) ∈ known → (j, some n) ∈ known → i = j

namespace State.Alike

variable {base : Level} {s s' : State}

/-- One item more in both readings keeps them in step. -/
theorem push (h : s.Alike known same base s') {a a' : Part} (ha : a.Alike known same a') :
    (s.push a).Alike known same base (s'.push a') :=
  ⟨h.flags, h.captures, h.names, h.level.push ha, h.outer, h.bottom, h.taken, h.single⟩

/-- A group is entered by both. -/
theorem enter (h : s.Alike known same base s') {capture : Option (Nat × Option Text)}
    (hc : ∀ g, capture = some g → g ∈ known) {inside inside' : Flags}
    (hf : inside.Alike same inside') :
    (s.enter capture inside).Alike known same base (s'.enter capture inside') := by
  obtain ⟨outer', houter, halike⟩ := h.outer
  refine ⟨hf, h.captures, h.names, ⟨rfl, hc, h.flags, .nil, .nil⟩,
    ⟨s'.level :: outer', ?_, .cons h.level halike⟩, ?_, h.taken, h.single⟩
  · change s'.level :: s'.outer = _
    rw [houter, List.cons_append]
  · change (capture :: s.level.capture :: s.outer.map Level.capture).getLast? = some none
    rw [List.getLast?_cons_cons]
    exact h.bottom

/-- A group that records is known from then on. -/
theorem enterCapture (h : s.Alike known same base s') {name : Option Text}
    (hname : ∀ n, name = some n → n ∉ s.names) :
    (s.enterCapture name).Alike ((s.captures + 1, name) :: known) same base
      (s'.enterCapture name) := by
  have hk : ∀ g ∈ known, g ∈ (s.captures + 1, name) :: known := fun _ => List.mem_cons_of_mem _
  obtain ⟨outer', houter, halike⟩ := h.outer
  have hmono : State.Alike ((s.captures + 1, name) :: known) same base
      { s with captures := s.captures + 1, names := name.toList ++ s.names }
      { s' with captures := s'.captures + 1, names := name.toList ++ s'.names } := by
    refine ⟨h.flags, by rw [h.captures], by rw [h.names], h.level.mono hk,
      ⟨outer', houter, halike.imp fun _ _ ha => ha.mono hk⟩, h.bottom, ?_, ?_⟩
    · -- The name of the new group is taken too.
      intro i n hn
      rcases List.mem_cons.mp hn with hn | hn
      · obtain ⟨-, hn⟩ := Prod.mk.inj hn
        simp [← hn]
      · exact List.mem_append_right _ (h.taken i n hn)
    · -- No known group has it, since it was not taken before.
      intro i j n hi hj
      rcases List.mem_cons.mp hi with hi | hi
      · obtain ⟨rfl, hn⟩ := Prod.mk.inj hi
        rcases List.mem_cons.mp hj with hj | hj
        · exact (Prod.mk.inj hj).1.symm
        · exact absurd (h.taken j n hj) (hname n hn.symm)
      · rcases List.mem_cons.mp hj with hj | hj
        · obtain ⟨rfl, hn⟩ := Prod.mk.inj hj
          exact absurd (h.taken i n hi) (hname n hn.symm)
        · exact h.single i j n hi hj
  unfold State.enterCapture
  simp only
  rw [h.captures] at hmono ⊢
  refine hmono.enter ?_ h.flags
  intro g hg
  obtain rfl := Option.some.inj hg
  exact List.mem_cons_self

/-- A group is left by both. The first is inside one, so the second does not come to the level below
all others. -/
theorem leave (h : s.Alike known same base s') {t t' : State} (ht : s.leave = .ok t)
    (ht' : s'.leave = .ok t') : t.Alike known same base t' := by
  obtain ⟨outer', houter, halike⟩ := h.outer
  unfold State.leave at ht ht'
  cases hs : s.outer with
  | nil => simp [hs] at ht
  | cons parent outer =>
    -- The second has the like of `parent` around it, above the level below all others.
    rw [hs] at halike ht
    obtain ⟨parent', rest', hp, hrest, rfl⟩ := List.forall₂_cons_left_iff.mp halike
    rw [houter] at ht'
    obtain rfl := Except.ok.inj ht
    obtain rfl := Except.ok.inj ht'
    refine ⟨h.level.flagsAfter, h.captures, h.names, hp.push h.level.close,
      ⟨rest', rfl, hrest⟩, ?_, h.taken, h.single⟩
    have hbottom := h.bottom
    rw [hs, List.map_cons, List.getLast?_cons_cons] at hbottom
    exact hbottom

/-- The last item is repeated by both. -/
theorem repeatLast (h : s.Alike known same base s') {least : Nat} {most : Option Nat}
    {isLazy : Bool} {t t' : State} (ht : s.repeatLast least most isLazy = .ok t)
    (ht' : s'.repeatLast least most isLazy = .ok t') : t.Alike known same base t' := by
  have hitems := h.level.items
  unfold State.repeatLast at ht ht'
  generalize hi : s.level.items = items at hitems ht
  generalize hi' : s'.level.items = items' at hitems ht'
  -- Both have a last item, and it is no directive in either.
  cases hitems with
  | nil => simp at ht
  | cons ha hrest =>
    rename_i a a' rest rest'
    obtain ⟨node, depth⟩ := a
    obtain ⟨node', depth'⟩ := a'
    cases node with
    | none => simp at ht
    | some body =>
      obtain ⟨body', rfl⟩ := Option.isSome_iff_exists.mp ha.isSome
      obtain rfl := Except.ok.inj ht
      obtain rfl := Except.ok.inj ht'
      have hrepeated : Part.Alike known same
          ⟨some (.repeated body least most (isLazy == s.flags.swapGreed)), depth + 1⟩
          ⟨some (.repeated body' least most (isLazy == s'.flags.swapGreed)), depth' + 1⟩ := by
        have hgroups := ha.groups
        have hknown := ha.known
        simp only [Part.groups, Option.toList_some, List.flatMap_singleton] at hgroups hknown
        -- What is never matched loses its groups in both.
        refine ⟨rfl, fun g => ?_, fun g hg => ?_, fun hs => ?_⟩
        · simp only [Part.groups, Option.toList_some, List.flatMap_singleton, groups_repeated]
          split_ifs
          · exact Iff.rfl
          · exact hgroups g
        · simp only [Part.groups, Option.toList_some, List.flatMap_singleton,
            groups_repeated] at hg
          split_ifs at hg
          · simp at hg
          · exact hknown g hg
        · have heq := ha.eq hs
          rw [h.flags.eq hs]
          cases heq
          rfl
      exact ⟨h.flags, h.captures, h.names, ⟨h.level.capture, h.level.captureKnown,
        h.level.flagsAfter, h.level.alternatives, .cons hrepeated hrest⟩, h.outer, h.bottom,
        h.taken, h.single⟩

end State.Alike

/-- Two readings are in step, whichever groups are known. -/
def State.InStep (same : Prop) (base : Level) (s s' : State) : Prop :=
  ∃ known, s.Alike known same base s'

/-! ## Steps -/

variable {base : Level} {s s' u u' : State} {t t' r r' : Text}

/-- A group that is opened with a name is opened in both, under the same number. -/
theorem openNamed_inStep (h : s.InStep same base s') (ht : Behind t t')
    (hs : openNamed s t = .ok (u, r)) (hs' : openNamed s' t' = .ok (u', r')) :
    u.InStep same base u' ∧ Behind r r' := by
  obtain ⟨known, h⟩ := h
  unfold openNamed at hs hs'
  cases hn : readName true t with
  | error e => simp [hn] at hs
  | ok p =>
    cases hn' : readName true t' with
    | error e => simp [hn'] at hs'
    | ok p' =>
      obtain ⟨name, v⟩ := p
      obtain ⟨name', v'⟩ := p'
      obtain ⟨rfl, hv⟩ := blind_readName true ht hn hn'
      simp only [hn] at hs
      simp only [hn'] at hs'
      split_ifs at hs hs' with hfresh
      obtain ⟨rfl, rfl⟩ := Prod.mk.inj (Except.ok.inj hs)
      obtain ⟨rfl, rfl⟩ := Prod.mk.inj (Except.ok.inj hs')
      refine ⟨⟨_, h.enterCapture ?_⟩, hv⟩
      intro n hname
      obtain rfl := Option.some.inj hname
      exact hfresh

/-- Flags after an opening parenthesis open a group, or hold from there on, in both. -/
theorem openFlagged_inStep (h : s.InStep same base s') (ht : Behind t t')
    (hs : openFlagged s t = .ok (u, r)) (hs' : openFlagged s' t' = .ok (u', r')) :
    u.InStep same base u' ∧ Behind r r' := by
  obtain ⟨known, h⟩ := h
  unfold openFlagged at hs hs'
  cases hf : s.flags.read false [] t with
  | error e => simp [hf] at hs
  | ok p =>
    cases hf' : s'.flags.read false [] t' with
    | error e => simp [hf'] at hs'
    | ok p' =>
      obtain ⟨flags, ending, v⟩ := p
      obtain ⟨flags', ending', v'⟩ := p'
      obtain ⟨hflags, rfl, hv⟩ := h.flags.read ht hf hf'
      simp only [hf] at hs
      simp only [hf'] at hs'
      -- Both lists of flags have the same end, which says what they are for.
      cases ending' with
      | body =>
        obtain ⟨rfl, rfl⟩ := Prod.mk.inj (Except.ok.inj hs)
        obtain ⟨rfl, rfl⟩ := Prod.mk.inj (Except.ok.inj hs')
        exact ⟨⟨known, h.enter (by simp) hflags⟩, hv⟩
      | directive =>
        obtain ⟨rfl, rfl⟩ := Prod.mk.inj (Except.ok.inj hs)
        obtain ⟨rfl, rfl⟩ := Prod.mk.inj (Except.ok.inj hs')
        have hpush := h.push Part.directive_alike
        exact ⟨⟨known, hflags, hpush.captures, hpush.names, hpush.level, hpush.outer, hpush.bottom,
          hpush.taken, hpush.single⟩, hv⟩

/-- A parenthesis opens a named group, a group that does not record or a directive, or a group
without a name. -/
theorem openGroup_eq_ok (h : openGroup s t = .ok (u, r)) :
    (∃ v, (skipSpace s.flags.extended t = '?' :: 'P' :: '<' :: v ∨
        skipSpace s.flags.extended t = '?' :: '<' :: v) ∧ openNamed s v = .ok (u, r)) ∨
      (∃ v, skipSpace s.flags.extended t = '?' :: v ∧ (∀ w, v ≠ 'P' :: '<' :: w) ∧
        (∀ w, v ≠ '<' :: w) ∧ openFlagged s v = .ok (u, r)) ∨
      (∀ v, skipSpace s.flags.extended t ≠ '?' :: v) ∧ u = s.enterCapture none ∧
        r = skipSpace s.flags.extended t := by
  unfold openGroup at h
  split at h
  · rename_i v hv
    exact .inl ⟨v, .inl hv, h⟩
  · cases h
  · cases h
  · cases h
  · cases h
  · rename_i v _ _ hv
    exact .inl ⟨v, .inr hv, h⟩
  · rename_i v hnamed _ _ _ _ hangle hv
    refine .inr (.inl ⟨v, hv, fun w hw => ?_, fun w hw => ?_, h⟩)
    · exact hnamed w (by rw [hw])
    · exact hangle w (by rw [hw])
  · rename_i hnone
    obtain ⟨rfl, rfl⟩ := Prod.mk.inj (Except.ok.inj h)
    exact .inr (.inr ⟨fun v hv => hnone v hv, rfl, rfl⟩)

/-- Any group is opened in both readings: one that captures, one with a name, or one with flags. -/
theorem openGroup_inStep (h : s.InStep same base s') (ht : Behind t t')
    (hs : openGroup s t = .ok (u, r)) (hs' : openGroup s' t' = .ok (u', r')) :
    u.InStep same base u' ∧ Behind r r' := by
  have hskip : Behind (skipSpace s.flags.extended t) (skipSpace s'.flags.extended t') := by
    obtain ⟨known, h⟩ := h
    rw [h.flags.extended]
    exact ht.skipSpace _
  have hs := openGroup_eq_ok hs
  have hs' := openGroup_eq_ok hs'
  generalize skipSpace s.flags.extended t = x at hs hskip
  generalize skipSpace s'.flags.extended t' = x' at hs' hskip
  rcases hs with ⟨v, hv, hs⟩ | ⟨v, rfl, hnamed, hangle, hs⟩ | ⟨hne, rfl, rfl⟩
  · -- The first opens a named group, and the second has the same signs before the name.
    obtain ⟨v', hv', hbehind⟩ : ∃ v', (x' = '?' :: 'P' :: '<' :: v' ∨ x' = '?' :: '<' :: v') ∧
        Behind v v' := by
      rcases hv with rfl | rfl
      · obtain ⟨x, rfl, hx⟩ := hskip.cons
        obtain ⟨y, rfl, hy⟩ := hx.cons
        obtain ⟨z, rfl, hz⟩ := hy.cons
        exact ⟨z, .inl rfl, hz⟩
      · obtain ⟨x, rfl, hx⟩ := hskip.cons
        obtain ⟨y, rfl, hy⟩ := hx.cons
        exact ⟨y, .inr rfl, hy⟩
    rcases hs' with ⟨w', hw', hs'⟩ | ⟨w', rfl, hnamed', hangle', -⟩ | ⟨hne', -⟩
    · obtain rfl : w' = v' := by
        rcases hv' with rfl | rfl <;> rcases hw' with hw' | hw' <;> cases hw' <;> rfl
      exact openNamed_inStep h hbehind hs hs'
    · rcases hv' with hv' | hv'
      · exact absurd (List.cons.inj hv').2 (hnamed' _)
      · exact absurd (List.cons.inj hv').2 (hangle' _)
    · rcases hv' with hv' | hv'
      · exact absurd hv' (hne' _)
      · exact absurd hv' (hne' _)
  · -- The first reads flags, so the second does not have the signs of a name.
    obtain ⟨v', rfl, hbehind⟩ := hskip.cons
    rcases hs' with ⟨w', hw', -⟩ | ⟨w', hw', -, -, hs'⟩ | ⟨hne', -⟩
    · rcases hw' with hw' | hw'
      · rw [(List.cons.inj hw').2] at hbehind
        obtain ⟨y, rfl, hy⟩ := hbehind.of_cons (by decide)
        obtain ⟨z, rfl, -⟩ := hy.of_cons (by decide)
        exact absurd rfl (hnamed z)
      · rw [(List.cons.inj hw').2] at hbehind
        obtain ⟨y, rfl, -⟩ := hbehind.of_cons (by decide)
        exact absurd rfl (hangle y)
    · obtain rfl := (List.cons.inj hw').2
      exact openFlagged_inStep h hbehind hs hs'
    · exact absurd rfl (hne' v')
  · -- No question mark follows in the first, nor in the second: the suffix has none.
    rcases hs' with ⟨w', hw', -⟩ | ⟨w', rfl, -⟩ | ⟨-, rfl, rfl⟩
    · rcases hw' with rfl | rfl
      · obtain ⟨y, rfl, -⟩ := hskip.of_cons (by decide)
        exact absurd rfl (hne y)
      · obtain ⟨y, rfl, -⟩ := hskip.of_cons (by decide)
        exact absurd rfl (hne y)
    · obtain ⟨y, rfl, -⟩ := hskip.of_cons (by decide)
      exact absurd rfl (hne y)
    · obtain ⟨known, h⟩ := h
      exact ⟨⟨_, h.enterCapture (by simp)⟩, hskip⟩

/-- A repetition sign is lazy if a question mark follows. -/
theorem readUncounted_eq_ok {least : Nat} {most : Option Nat}
    (h : readUncounted s least most t = .ok (u, r)) :
    t = '?' :: r ∧ s.repeatLast least most true = .ok u ∨
      (∀ v, t ≠ '?' :: v) ∧ t = r ∧ s.repeatLast least most false = .ok u := by
  unfold readUncounted at h
  split at h
  · cases hu : s.repeatLast least most true with
    | error e => simp [hu, bind, Except.bind] at h
    | ok v =>
      simp only [hu, bind, Except.bind, pure, Except.pure] at h
      obtain ⟨rfl, rfl⟩ := Prod.mk.inj (Except.ok.inj h)
      exact .inl ⟨rfl, rfl⟩
  · rename_i hne
    cases hu : s.repeatLast least most false with
    | error e => simp [hu, bind, Except.bind] at h
    | ok v =>
      simp only [hu, bind, Except.bind, pure, Except.pure] at h
      obtain ⟨rfl, rfl⟩ := Prod.mk.inj (Except.ok.inj h)
      exact .inr ⟨fun v hv => hne v hv, rfl, rfl⟩

/-- A repetition by a single sign repeats the last item of both readings. -/
theorem readUncounted_inStep (h : s.InStep same base s') {least : Nat} {most : Option Nat}
    (ht : Behind t t') (hs : readUncounted s least most t = .ok (u, r))
    (hs' : readUncounted s' least most t' = .ok (u', r')) :
    u.InStep same base u' ∧ Behind r r' := by
  obtain ⟨known, h⟩ := h
  rcases readUncounted_eq_ok hs with ⟨rfl, hu⟩ | ⟨hne, rfl, hu⟩
  · obtain ⟨v, rfl, hv⟩ := ht.cons
    rcases readUncounted_eq_ok hs' with ⟨heq, hu'⟩ | ⟨hne', -⟩
    · obtain rfl := List.tail_eq_of_cons_eq heq
      exact ⟨⟨known, h.repeatLast hu hu'⟩, hv⟩
    · exact absurd rfl (hne' v)
  · rcases readUncounted_eq_ok hs' with ⟨rfl, hu'⟩ | ⟨-, rfl, hu'⟩
    · -- The question mark would be in the suffix.
      obtain ⟨v, rfl, -⟩ := ht.of_cons (by decide)
      exact absurd rfl (hne v)
    · exact ⟨⟨known, h.repeatLast hu hu'⟩, ht⟩

/-- After its counts a counted repetition is read as any other. -/
theorem readCounted_eq_ok (h : readCounted s t = .ok (u, r)) :
    ∃ least most v, readCounts s.flags.extended t = .ok ((least, most), v) ∧
      readUncounted s least most (skipSpace s.flags.extended v) = .ok (u, r) := by
  unfold readCounted at h
  cases hc : readCounts s.flags.extended t with
  | error e => simp [hc, bind, Except.bind] at h
  | ok p =>
    obtain ⟨⟨least, most⟩, v⟩ := p
    rw [hc] at h
    exact ⟨least, most, v, rfl, h⟩

/-- A repetition by a count repeats the last item of both readings. -/
theorem readCounted_inStep (h : s.InStep same base s') (ht : Behind t t')
    (hs : readCounted s t = .ok (u, r)) (hs' : readCounted s' t' = .ok (u', r')) :
    u.InStep same base u' ∧ Behind r r' := by
  have hextended : s'.flags.extended = s.flags.extended := by
    obtain ⟨known, h⟩ := h
    exact h.flags.extended
  obtain ⟨least, most, v, hc, hs⟩ := readCounted_eq_ok hs
  obtain ⟨least', most', v', hc', hs'⟩ := readCounted_eq_ok hs'
  rw [hextended] at hc' hs'
  obtain ⟨hcounts, hv⟩ := blind_readCounts s.flags.extended ht hc hc'
  obtain ⟨rfl, rfl⟩ := Prod.mk.inj hcounts
  exact readUncounted_inStep h (hv.skipSpace _) hs hs'

/-- The node of one sign holds no group. -/
theorem groups_nodeOfAtom (f : Flags) (a : Atom) : (nodeOfAtom f a).groups = [] := by
  cases a with
  | char c => exact Node.groups_ofSet _
  | set s => exact Node.groups_ofSet _
  | assertion a => rfl

/-- One sign keeps two readings in step. -/
theorem readSign_inStep (h : s.InStep same base s') {c : Char} (ht : Behind t t')
    (hs : readSign s c t = .ok (u, r)) (hs' : readSign s' c t' = .ok (u', r')) :
    u.InStep same base u' ∧ Behind r r' := by
  have hsign : ∀ {n n' : Node}, n.groups = [] → n'.groups = [] → (same → n' = n) →
      Except.ok (s.push (.sign n), t) = (.ok (u, r) : Except SyntaxError (State × Text)) →
      Except.ok (s'.push (.sign n'), t') = (.ok (u', r') : Except SyntaxError (State × Text)) →
      u.InStep same base u' ∧ Behind r r' := by
    intro n n' hn hn' heq hs hs'
    obtain ⟨rfl, rfl⟩ := Prod.mk.inj (Except.ok.inj hs)
    obtain ⟨rfl, rfl⟩ := Prod.mk.inj (Except.ok.inj hs')
    obtain ⟨known, h⟩ := h
    exact ⟨⟨known, h.push (Part.sign_alike hn hn' heq 0)⟩, ht⟩
  have hflags : s.flags.Alike same s'.flags := by
    obtain ⟨known, h⟩ := h
    exact h.flags
  -- One case for each sign, in the order in which the reader asks for them.
  unfold readSign at hs hs'
  by_cases hc : c = '('
  · rw [if_pos hc] at hs hs'
    exact openGroup_inStep h ht hs hs'
  rw [if_neg hc] at hs hs'
  by_cases hc : c = ')'
  · rw [if_pos hc] at hs hs'
    obtain ⟨v, hv, heq⟩ := map_eq_ok.mp hs
    obtain ⟨v', hv', heq'⟩ := map_eq_ok.mp hs'
    obtain ⟨rfl, rfl⟩ := Prod.mk.inj heq
    obtain ⟨rfl, rfl⟩ := Prod.mk.inj heq'
    obtain ⟨known, h⟩ := h
    exact ⟨⟨known, h.leave hv hv'⟩, ht⟩
  rw [if_neg hc] at hs hs'
  by_cases hc : c = '|'
  · rw [if_pos hc] at hs hs'
    obtain ⟨rfl, rfl⟩ := Prod.mk.inj (Except.ok.inj hs)
    obtain ⟨rfl, rfl⟩ := Prod.mk.inj (Except.ok.inj hs')
    obtain ⟨known, h⟩ := h
    exact ⟨⟨known, h.flags, h.captures, h.names, h.level.nextAlternative, h.outer, h.bottom,
      h.taken, h.single⟩, ht⟩
  rw [if_neg hc] at hs hs'
  by_cases hc : c = '['
  · rw [if_pos hc] at hs hs'
    obtain ⟨⟨a, v⟩, hv, heq⟩ := map_eq_ok.mp hs
    obtain ⟨⟨a', v'⟩, hv', heq'⟩ := map_eq_ok.mp hs'
    obtain ⟨rfl, rfl⟩ := Prod.mk.inj heq
    obtain ⟨rfl, rfl⟩ := Prod.mk.inj heq'
    -- The two sets may differ, and neither holds a group.
    obtain ⟨ha, hr⟩ := Bracket.read_behind hflags ht hv hv'
    obtain ⟨known, h⟩ := h
    refine ⟨⟨known, h.push ⟨rfl, fun g => ?_, fun g hg => ?_, fun hsame => by rw [ha hsame]⟩⟩, hr⟩
    · simp [Part.groups]
    · simp [Part.groups] at hg
  rw [if_neg hc] at hs hs'
  by_cases hc : c = '*'
  · rw [if_pos hc] at hs hs'
    exact readUncounted_inStep h ht hs hs'
  rw [if_neg hc] at hs hs'
  by_cases hc : c = '+'
  · rw [if_pos hc] at hs hs'
    exact readUncounted_inStep h ht hs hs'
  rw [if_neg hc] at hs hs'
  by_cases hc : c = '?'
  · rw [if_pos hc] at hs hs'
    exact readUncounted_inStep h ht hs hs'
  rw [if_neg hc] at hs hs'
  by_cases hc : c = '\x7b'
  · rw [if_pos hc] at hs hs'
    exact readCounted_inStep h ht hs hs'
  rw [if_neg hc] at hs hs'
  by_cases hc : c = '.'
  · rw [if_pos hc] at hs hs'
    exact hsign rfl rfl (fun hsame => by rw [hflags.eq hsame]) hs hs'
  rw [if_neg hc] at hs hs'
  by_cases hc : c = '^'
  · rw [if_pos hc] at hs hs'
    exact hsign rfl rfl (fun hsame => by rw [hflags.eq hsame]) hs hs'
  rw [if_neg hc] at hs hs'
  by_cases hc : c = '$'
  · rw [if_pos hc] at hs hs'
    exact hsign rfl rfl (fun hsame => by rw [hflags.eq hsame]) hs hs'
  rw [if_neg hc] at hs hs'
  by_cases hc : c = '\\'
  · rw [if_pos hc] at hs hs'
    obtain ⟨⟨a, v⟩, hv, heq⟩ := map_eq_ok.mp hs
    obtain ⟨⟨a', v'⟩, hv', heq'⟩ := map_eq_ok.mp hs'
    rw [hflags.extended] at hv'
    obtain ⟨rfl, hr⟩ := blind_readEscape s.flags.extended ht hv hv'
    obtain ⟨rfl, rfl⟩ := Prod.mk.inj heq
    obtain ⟨rfl, rfl⟩ := Prod.mk.inj heq'
    obtain ⟨known, h⟩ := h
    exact ⟨⟨known, h.push (Part.sign_alike (groups_nodeOfAtom _ _) (groups_nodeOfAtom _ _)
      (fun hsame => by rw [hflags.eq hsame]) 0)⟩, hr⟩
  rw [if_neg hc] at hs hs'
  exact hsign (groups_nodeOfAtom _ _) (groups_nodeOfAtom _ _)
    (fun hsame => by rw [hflags.eq hsame]) hs hs'

/-! ## Whole patterns -/

/-- A reading goes on with one sign, or ends outside all groups. -/
theorem readSigns_eq_ok {n : Nat} {a : Part} (h : readSigns n s t = .ok a) :
    (skipSpace s.flags.extended t = [] ∧ s.outer = [] ∧ a = s.level.body) ∨
      ∃ m c v u r, n = m + 1 ∧ skipSpace s.flags.extended t = c :: v ∧
        readSign s c v = .ok (u, r) ∧ readSigns m u r = .ok a := by
  unfold readSigns at h
  split at h
  · rename_i hskip
    split_ifs at h with houter
    exact .inl ⟨hskip, List.isEmpty_iff.mp houter, (Except.ok.inj h).symm⟩
  · cases h
  · rename_i m c v hskip
    split at h
    · cases h
    · rename_i u r hsign
      exact .inr ⟨m, c, v, u, r, rfl, hskip, hsign, h⟩

/-- No blank stands before the suffix. -/
theorem skipSpace_wholeSuffix (extended : Bool) : skipSpace extended wholeSuffix = wholeSuffix := by
  cases extended <;> rfl

/-- Two readings stay in step until the first comes to its end, and there the second goes on with
the suffix. -/
theorem readSigns_inStep (h : s.InStep same base s') (ht : Behind t t') {n n' : Nat} {a a' : Part}
    (hs : readSigns n s t = .ok a) (hs' : readSigns n' s' t' = .ok a') :
    ∃ (u u' : State) (m : Nat), u.InStep same base u' ∧ u.outer = [] ∧ a = u.level.body ∧
      readSigns m u' wholeSuffix = .ok a' := by
  induction n using Nat.strongRecOn generalizing s s' t t' n' with
  | ind n ih =>
    obtain ⟨known, halike⟩ := h
    obtain ⟨outer', houter', -⟩ := halike.outer
    have hskip : Behind (skipSpace s.flags.extended t) (skipSpace s'.flags.extended t') := by
      rw [halike.flags.extended]
      exact ht.skipSpace _
    rcases readSigns_eq_ok hs with ⟨hend, houter, rfl⟩ | ⟨m, c, v, u, r, rfl, hc, hsign, hrest⟩
    · -- The first is at its end: nothing is left of the second but the suffix.
      rw [hend] at hskip
      rcases hskip.nil with hend' | hend'
      · refine ⟨s, s', n', ⟨known, halike⟩, houter, rfl, ?_⟩
        unfold readSigns at hs' ⊢
        rw [skipSpace_wholeSuffix]
        rwa [hend'] at hs'
      · -- A comment has taken the suffix, and the second does not end inside a group.
        rcases readSigns_eq_ok hs' with ⟨-, hnone, -⟩ | ⟨_, c, v, _, _, -, hc, -⟩
        · rw [houter'] at hnone
          exact absurd hnone (by simp)
        · rw [hend'] at hc
          cases hc
    · rw [hc] at hskip
      obtain ⟨v', hc', hv⟩ := hskip.cons
      rcases readSigns_eq_ok hs' with ⟨hend', -⟩ | ⟨m', d, w, u', r', rfl, hd, hsign', hrest'⟩
      · rw [hc'] at hend'
        cases hend'
      · rw [hc'] at hd
        obtain ⟨rfl, rfl⟩ := List.cons.inj hd
        obtain ⟨hu, hr⟩ := readSign_inStep ⟨known, halike⟩ hv hsign hsign'
        exact ih m (Nat.lt_succ_self m) hu hr hrest hrest'

/-- What is read of the pattern for whole texts before the other pattern begins. -/
def wholeBase : Level := ⟨none, {}, [], [.sign (.assertion .textStart)]⟩

/-- The group around the other pattern is open when that pattern begins. -/
theorem readSigns_prefix {n : Nat} {a : Part}
    (h : readSigns n (.start {}) ("\\A(?:".toList ++ t) = .ok a) :
    ∃ m, readSigns m ⟨{}, ⟨none, {}, [], []⟩, [wholeBase], 0, []⟩ t = .ok a := by
  match n, h with
  | 0, h => cases h
  | 1, h => cases h
  | n + 2, h => exact ⟨n, h⟩

/-- The suffix closes that group, and asks for the end of the text. -/
theorem readSigns_suffix {n : Nat} {a : Part} (houter : s.outer = [wholeBase])
    (h : readSigns n s wholeSuffix = .ok a) :
    a = .sequence [.sign (.assertion .textEnd), s.level.close, .sign (.assertion .textStart)] := by
  -- The parenthesis leaves the group for the level below all others.
  rcases readSigns_eq_ok h with ⟨hend, -⟩ | ⟨m, c, v, u, r, rfl, hc, hsign, h⟩
  · rw [skipSpace_wholeSuffix] at hend
    cases hend
  rw [skipSpace_wholeSuffix] at hc
  obtain ⟨rfl, rfl⟩ := List.cons.inj hc
  obtain ⟨u, hu, heq⟩ := map_eq_ok.mp hsign
  obtain ⟨rfl, rfl⟩ := Prod.mk.inj heq
  unfold State.leave at hu
  rw [houter] at hu
  obtain rfl := Except.ok.inj hu
  have hkeep : ∀ extended, skipSpace extended ['\\', 'z'] = ['\\', 'z'] := by
    intro extended
    cases extended <;> rfl
  -- Then comes the assertion, and the end.
  rcases readSigns_eq_ok h with ⟨hend, -⟩ | ⟨k, d, v, u, r, rfl, hd, hsign, h⟩
  · rw [hkeep] at hend
    cases hend
  rw [hkeep] at hd
  obtain ⟨rfl, rfl⟩ := List.cons.inj hd
  obtain ⟨rfl, rfl⟩ := Prod.mk.inj (Except.ok.inj hsign)
  have hnil : ∀ extended, skipSpace extended [] = [] := by
    intro extended
    cases extended <;> rfl
  rcases readSigns_eq_ok h with ⟨-, -, rfl⟩ | ⟨_, _, _, _, _, -, hc, -⟩
  · rfl
  · rw [hnil] at hc
    cases hc

/-- What is read inside a group is no directive. -/
theorem Level.exists_node_body (l : Level) : ∃ n, l.body.node = some n := by
  unfold Level.body
  split <;> exact ⟨_, rfl⟩

/-- Reading a pattern alone is reading all of its signs. -/
theorem read_eq_ok {f : Flags} {n : Node} (h : read f t = .ok n) :
    ∃ p, readSigns t.length (.start f) t = .ok p ∧ p.node.getD .empty = n := by
  unfold read at h
  split at h
  · cases h
  · rename_i p hp
    simp only at h
    split_ifs at h
    exact ⟨p, hp, Except.ok.inj h⟩

/-- The pattern for whole texts has the groups of the other, and those have names of their own. If
no flags are given with the other, it is the other between two assertions. -/
theorem read_whole {f : Flags} (hf : f.extended = false) {n n' : Node} (h : read f t = .ok n)
    (h' : read {} ("\\A(?:".toList ++ t ++ ")\\z".toList) = .ok n') :
    (∀ g, g ∈ n'.groups ↔ g ∈ n.groups) ∧ n.NamesApart ∧
      (f = {} → n' = .sequence [.assertion .textStart, n, .assertion .textEnd]) := by
  obtain ⟨a, ha, hn⟩ := read_eq_ok h
  obtain ⟨a', ha', hn'⟩ := read_eq_ok h'
  -- The second reading has opened its group when the first begins.
  rw [List.append_assoc] at ha'
  obtain ⟨m, ha'⟩ := readSigns_prefix ha'
  have hstart : (State.start f).InStep (f = {}) wholeBase
      ⟨{}, ⟨none, {}, [], []⟩, [wholeBase], 0, []⟩ := by
    have hflags : f.Alike (f = {}) {} := ⟨hf.symm, fun h => h.symm⟩
    exact ⟨[], hflags, rfl, rfl, ⟨rfl, (fun g hg => by cases hg), hflags, .nil, .nil⟩,
      ⟨[], rfl, .nil⟩, rfl, by simp, by simp⟩
  obtain ⟨u, u', k, ⟨known, hu⟩, houter, rfl, hend⟩ :=
    readSigns_inStep hstart (.inl rfl : Behind t (t ++ ")\\z".toList)) ha ha'
  obtain ⟨outer', houter', hothers⟩ := hu.outer
  obtain rfl : outer' = [] := by
    rw [houter] at hothers
    exact List.forall₂_nil_left_iff.mp hothers
  obtain rfl := readSigns_suffix houter' hend
  -- Outside all groups the level is no group that records, so closing it adds none.
  have hcapture : u.level.capture = none := by
    have hbottom := hu.bottom
    rw [houter] at hbottom
    exact Option.some.inj hbottom
  have hclose : u'.level.close = ⟨u'.level.body.node, 1 + u'.level.body.depth⟩ := by
    unfold Level.close
    rw [hu.level.capture, hcapture]
  have hbody := hu.level.body
  have heq := hu.level.eq
  obtain ⟨b, hb⟩ := u.level.exists_node_body
  obtain ⟨b', hb'⟩ := u'.level.exists_node_body
  have hgroups := hbody.groups
  have hknown := hbody.known
  simp only [Part.groups, hb, hb', Option.toList_some, List.flatMap_singleton] at hgroups hknown
  obtain rfl : b = n := by simpa [hb] using hn
  obtain rfl : Node.sequence [.assertion .textStart, b', .assertion .textEnd] = n' := by
    simpa [Part.sequence, Part.sign, hclose, hb'] using hn'
  refine ⟨fun g => ?_, fun i j name hi hj => hu.single i j name (hknown _ hi) (hknown _ hj),
    fun hsame => ?_⟩
  · rw [groups_sequence]
    simpa [Node.groups] using hgroups g
  · rw [heq hsame, hb] at hb'
    rw [Option.some.inj hb']

end SourceText.Pattern.Reader
