import SourceText.Location.Json
import SourceText.Proofs.Json.Value

/-!
# Locations are read back

A location is read from every text of JSON that describes it (`Location.readBack`): from the object
that it is written as, from any object with the three members in any order, each once, and any
other members among them, and from the array of the three values. Blanks may stand between all
tokens, and the strings may be spelled in any way.

The members of an object are read one after the other, and what has been read so far says which
names have come up (`Partial.seen`): a field is known when its name has come up and not otherwise.
So a member of a name that is new adds what it tells (`readField_seen`), and when all three names
have come up the location is complete.
-/

namespace SourceText

open Json

/-! ## Objects -/

namespace Json

/-- A member of an object, with blanks around its tokens. -/
inductive IsMember (name value : Text) : Text → Prop
  | mk {b key b₁ b₂ b₃ : Text} (hb : Blanks b) (hkey : Spells key name) (hb₁ : Blanks b₁)
      (hb₂ : Blanks b₂) (hb₃ : Blanks b₃) :
      IsMember name value (b ++ '"' :: (key ++ '"' :: (b₁ ++ ':' :: (b₂ ++ (value ++ b₃)))))

/-- A member takes up some characters, so reading members one by one comes to an end. -/
theorem IsMember.length_pos {name value text : Text} (h : IsMember name value text) :
    0 < text.length := by
  obtain ⟨-, -, -, -, -⟩ := h
  simp

/-- Members with commas between them, one at least. -/
inductive AreMembers : List (Text × Text) → Text → Prop
  | last {name value text : Text} (h : IsMember name value text) : AreMembers [(name, value)] text
  | more {name value text rest : Text} {members : List (Text × Text)}
      (h : IsMember name value text) (hrest : AreMembers members rest) :
      AreMembers ((name, value) :: members) (text ++ ',' :: rest)

/-- An object of JSON with its members, each a name and the text of a value. -/
inductive IsObject (members : List (Text × Text)) : Text → Prop
  | mk {b text b' : Text} (hb : Blanks b) (h : AreMembers members text) (hb' : Blanks b') :
      IsObject members (b ++ '\x7b' :: (text ++ '\x7d' :: b'))

/-- A value between blanks. -/
inductive IsPadded (value : Text) : Text → Prop
  | mk {b b' : Text} (hb : Blanks b) (hb' : Blanks b') : IsPadded value (b ++ (value ++ b'))

/-- An array of three values. -/
inductive IsTriple (first second third : Text) : Text → Prop
  | mk {b text₁ text₂ text₃ b' : Text} (hb : Blanks b) (h₁ : IsPadded first text₁)
      (h₂ : IsPadded second text₂) (h₃ : IsPadded third text₃) (hb' : Blanks b') :
      IsTriple first second third
        (b ++ '[' :: (text₁ ++ ',' :: (text₂ ++ ',' :: (text₃ ++ ']' :: b'))))

/-- A string of JSON that spells a text. -/
inductive IsString (text : Text) : Text → Prop
  | mk {body : Text} (h : Spells body text) : IsString text ('"' :: (body ++ ['"']))

/-- A text in quotes, with its escapes, is a string that spells it. -/
theorem isString_quote (text : Text) : IsString text (quote text) :=
  .mk (spells_flatMap_escape text)

end Json

namespace Location

/-! ## What describes a location -/

/-- The names of the members that a location is read from. -/
def fieldNames : List Text := ["source".toList, "line".toList, "column".toList]

/-- What a member may be of an object that a location is read from: a member of one of the three
names tells the field of that name, any other may have any value. -/
inductive Tells (l : Location) : Text → Text → Prop
  | source {value : Text} (h : IsString l.source value) : l.Tells "source".toList value
  | line : l.Tells "line".toList (Text.ofNat l.line)
  | column : l.Tells "column".toList (Text.ofNat l.column)
  | other {name value : Text} (hname : name ∉ fieldNames) (hvalue : IsValue value) :
      l.Tells name value

/-- The members of an object that describes a location: each of the three names comes up once, in
any order and with any other names among them. -/
structure DescribedBy (l : Location) (members : List (Text × Text)) : Prop where
  tells : ∀ member ∈ members, l.Tells member.1 member.2
  fields : ((members.map Prod.fst).filter (· ∈ fieldNames)).Perm fieldNames

/-- A location is read back from whatever describes it. -/
structure ReadBack (l : Location) : Prop where
  /-- The object that it is written as is read as the location, -/
  written : ofJson l.toJson = .ok l
  /-- and so is any object with its three members, in any order, and others among them, -/
  object : ∀ members text, l.DescribedBy members → IsObject members text → ofJson text = .ok l
  /-- and the array of its three values. -/
  array : ∀ source text, IsString l.source source →
    IsTriple source (Text.ofNat l.line) (Text.ofNat l.column) text → ofJson text = .ok l

/-! ## Values -/

section Values

variable {b rest : Text}

/-- A string behind blanks is read as the text that it spells. -/
theorem readSource_append {value source : Text} (hb : Blanks b) (h : IsString source value)
    (rest : Text) : readSource (b ++ (value ++ rest)) = .ok (source, rest) := by
  obtain ⟨hbody⟩ := h
  simp only [readSource, skipBlanks_append hb, List.cons_append, List.append_assoc,
    List.nil_append, skipBlanks_cons (c := '"') rfl, readString_of_spells hbody]

/-- A number in decimal digits is a value. -/
theorem isValue_ofNat (n : Nat) : IsValue (Text.ofNat n) := by
  have h : IsNumber ([] ++ (Text.ofNat n ++ ([] ++ []))) :=
    .mk (.inl rfl) (isWhole_ofNat n) .absent .absent
  rw [List.nil_append, List.nil_append, List.append_nil] at h
  exact .scalar (.number h)

/-- The blanks in front of a value go no further than to the value. -/
theorem skipBlanks_value {value : Text} (hb : Blanks b) (h : IsValue value) (rest : Text) :
    skipBlanks (b ++ (value ++ rest)) = value ++ rest := by
  obtain ⟨c, tail, rfl, hblank, -⟩ := h.exists_cons
  rw [skipBlanks_append hb, List.cons_append, skipBlanks_cons hblank]

/-- A number behind blanks is read as what it is, up to the greatest count. -/
theorem readCount_append {n : Nat} (hb : Blanks b) (hn : n ≤ maxCount) (hrest : Delimited rest) :
    readCount (b ++ (Text.ofNat n ++ rest)) = .ok (n, rest) := by
  simp only [readCount, skipBlanks_value hb (isValue_ofNat n), readNumber_ofNat _ n hrest,
    count?_ofNat hn]

/-- A colon behind blanks is passed. -/
theorem readColon_append (hb : Blanks b) (rest : Text) :
    readColon (b ++ ':' :: rest) = .ok rest := by
  simp only [readColon, skipBlanks_append hb, skipBlanks_cons (c := ':') rfl]

/-- A comma in front of a value between blanks leads to the value. -/
theorem readComma_append {value text : Text} (hb : Blanks b) (h : IsPadded value text)
    (hvalue : IsValue value) (rest : Text) :
    ∃ b', Blanks b' ∧ readComma (b ++ ',' :: (text ++ rest)) = .ok (value ++ (b' ++ rest)) := by
  obtain ⟨hbefore, hbehind⟩ := h
  rename_i before behind
  refine ⟨behind, hbehind, ?_⟩
  have hskip := skipBlanks_value hbefore hvalue (behind ++ rest)
  obtain ⟨c, tail, rfl, -, hc⟩ := hvalue.exists_cons
  rw [List.cons_append] at hskip ⊢
  simp only [List.append_assoc, List.cons_append, readComma, skipBlanks_append hb,
    skipBlanks_cons (c := ',') rfl, hskip, if_neg hc]
  rfl

end Values

/-! ## Objects -/

/-- What has been read of a location when certain names have come up. -/
def Partial.seen (l : Location) (names : List Text) : Partial where
  source := if names.contains "source".toList then some l.source else none
  line := if names.contains "line".toList then some l.line else none
  column := if names.contains "column".toList then some l.column else none

namespace Partial

variable {l : Location} {names : List Text} {name other : Text}

/-- A name that has just come up has come up. -/
theorem contains_concat_self : (names ++ [name]).contains name = true :=
  List.contains_iff_mem.mpr (List.mem_append_right names (List.mem_singleton_self name))

/-- It makes no difference to the other names. -/
theorem contains_concat_of_ne (h : other ≠ name) :
    (names ++ [name]).contains other = names.contains other := by
  rw [List.contains_append, List.contains_cons, beq_false_of_ne h, List.contains_nil,
    Bool.or_false, Bool.or_false]

/-- When all three names have come up, the location is complete. -/
theorem complete_seen (h : ∀ name ∈ fieldNames, name ∈ names) :
    (seen l names).complete = .ok l := by
  have hcontains : ∀ name ∈ fieldNames, names.contains name = true := fun name hname =>
    List.contains_iff_mem.mpr (h name hname)
  simp only [complete, seen, if_pos (hcontains "source".toList (by decide)),
    if_pos (hcontains "line".toList (by decide)), if_pos (hcontains "column".toList (by decide))]

/-- The source is known when its name comes up. -/
theorem seen_source : seen l (names ++ ["source".toList]) =
    { seen l names with source := some l.source } := by
  simp only [seen, if_pos contains_concat_self,
    contains_concat_of_ne (by decide : "line".toList ≠ "source".toList),
    contains_concat_of_ne (by decide : "column".toList ≠ "source".toList)]

/-- The line is known when its name comes up. -/
theorem seen_line : seen l (names ++ ["line".toList]) =
    { seen l names with line := some l.line } := by
  simp only [seen, if_pos contains_concat_self,
    contains_concat_of_ne (by decide : "source".toList ≠ "line".toList),
    contains_concat_of_ne (by decide : "column".toList ≠ "line".toList)]

/-- The column is known when its name comes up. -/
theorem seen_column : seen l (names ++ ["column".toList]) =
    { seen l names with column := some l.column } := by
  simp only [seen, if_pos contains_concat_self,
    contains_concat_of_ne (by decide : "source".toList ≠ "column".toList),
    contains_concat_of_ne (by decide : "line".toList ≠ "column".toList)]

/-- A member of any other name tells nothing. -/
theorem seen_other (h : name ∉ fieldNames) : seen l (names ++ [name]) = seen l names := by
  simp only [fieldNames, List.mem_cons, List.not_mem_nil, or_false, not_or] at h
  obtain ⟨hsource, hline, hcolumn⟩ := h
  simp only [seen, contains_concat_of_ne (Ne.symm hsource), contains_concat_of_ne (Ne.symm hline),
    contains_concat_of_ne (Ne.symm hcolumn)]

end Partial

/-- A name among the three that is still to come has not come up. -/
theorem not_mem_of_fields {names later : List Text} {name : Text}
    (h : ((names ++ name :: later).filter (· ∈ fieldNames)).Perm fieldNames)
    (hname : name ∈ fieldNames) : name ∉ names := by
  have hnodup : (names.filter (· ∈ fieldNames) ++
      (name :: later).filter (· ∈ fieldNames)).Nodup := by
    rw [← List.filter_append]
    exact h.nodup_iff.mpr (by decide)
  intro hmem
  exact List.disjoint_of_nodup_append hnodup
    (List.mem_filter.mpr ⟨hmem, decide_eq_true hname⟩)
    (List.mem_filter.mpr ⟨List.mem_cons_self, decide_eq_true hname⟩)

section Members

variable {l : Location} (hline : l.line ≤ maxCount) (hcolumn : l.column ≤ maxCount)
include hline hcolumn

/-- A member of a new name adds what it tells. -/
theorem readField_seen {names : List Text} {name value b b' rest : Text}
    (htells : l.Tells name value) (hnew : name ∈ fieldNames → name ∉ names) (hb : Blanks b)
    (hb' : Blanks b') (hrest : Delimited rest) :
    readField (.seen l names) name (b ++ ':' :: (b' ++ (value ++ rest))) =
      .ok (.seen l (names ++ [name]), rest) := by
  have hcolon := readColon_append hb (b' ++ (value ++ rest))
  have hmissing : name ∈ fieldNames → ¬ names.contains name = true := fun hname hcontains =>
    hnew hname (List.contains_iff_mem.mp hcontains)
  -- A name that tells a field has not come up yet, so the field is still empty.
  cases htells with
  | source h =>
    have hnone : (Partial.seen l names).source = none := if_neg (hmissing (by decide))
    rw [Partial.seen_source, readField, if_pos rfl, hnone, hcolon]
    simp only [ok_bind, readSource_append hb' h]
    rfl
  | line =>
    have hnone : (Partial.seen l names).line = none := if_neg (hmissing (by decide))
    rw [Partial.seen_line, readField, if_neg (by decide), if_pos rfl, hnone, hcolon]
    simp only [ok_bind, readCount_append hb' hline hrest]
    rfl
  | column =>
    have hnone : (Partial.seen l names).column = none := if_neg (hmissing (by decide))
    rw [Partial.seen_column, readField, if_neg (by decide), if_neg (by decide), if_pos rfl, hnone,
      hcolon]
    simp only [ok_bind, readCount_append hb' hcolumn hrest]
    rfl
  | other hname hvalue =>
    rw [Partial.seen_other hname]
    simp only [fieldNames, List.mem_cons, List.not_mem_nil, or_false, not_or] at hname
    obtain ⟨hsource, hline, hcolumn⟩ := hname
    rw [readField, if_neg hsource, if_neg hline, if_neg hcolumn, hcolon, ok_bind,
      skipValue_append hb' hvalue hrest]
    rfl

/-- What stands in front of the next member: nothing if it is the first one, otherwise a comma. -/
def separator : Bool → Text
  | true => []
  | false => [',']

omit hline hcolumn in
/-- Blanks between the tokens of an object are passed. -/
theorem readItems_blanks {n : Nat} {isFirst : Bool} {p : Partial} {b : Text} (hb : Blanks b)
    (rest : Text) : readItems n isFirst p (b ++ rest) = readItems n isFirst p rest := by
  unfold readItems
  rw [skipBlanks_append hb]

/-- A member is read in one step. -/
theorem readItems_member {names : List Text} {name value text rest : Text}
    (hmember : IsMember name value text) (htells : l.Tells name value)
    (hnew : name ∈ fieldNames → name ∉ names) (hrest : Delimited rest) (n : Nat)
    (isFirst : Bool) :
    readItems (n + 1) isFirst (.seen l names) (separator isFirst ++ (text ++ rest)) =
      readItems n false (.seen l (names ++ [name])) rest := by
  obtain ⟨hb, hkey, hb₁, hb₂, hb₃⟩ := hmember
  rename_i b key b₁ b₂ b₃
  have hfield := readField_seen hline hcolumn htells hnew hb₁ hb₂ (hrest.append hb₃)
  have hstring := readString_of_spells hkey (b₁ ++ ':' :: (b₂ ++ (value ++ (b₃ ++ rest))))
  cases isFirst with
  | true =>
    simp only [separator, List.nil_append, List.append_assoc, List.cons_append]
    rw [readItems_blanks hb, readItems.eq_def]
    simp only [skipBlanks_cons (c := '"') rfl, Char.reduceEq, if_false, not_true_eq_false,
      false_and, if_true, hstring, ok_bind, hfield]
    exact readItems_blanks hb₃ rest
  | false =>
    simp only [separator, List.cons_append, List.nil_append, List.append_assoc]
    rw [readItems.eq_def]
    simp only [skipBlanks_cons (c := ',') rfl, Char.reduceEq, if_false, ne_eq, not_true_eq_false,
      and_false, Bool.false_eq_true, skipBlanks_append hb, skipBlanks_cons (c := '"') rfl, hstring,
      ok_bind, hfield]
    exact readItems_blanks hb₃ rest

omit hline hcolumn in
/-- Behind the last member the closing brace completes the location. -/
theorem readItems_closing {names : List Text} (hall : ∀ name ∈ fieldNames, name ∈ names) (n : Nat)
    (rest : Text) : readItems (n + 1) false (.seen l names) ('\x7d' :: rest) = .ok (l, rest) := by
  rw [readItems.eq_def]
  simp only [skipBlanks_cons (c := '\x7d') rfl, if_true, Partial.complete_seen hall]
  rfl

/-- The members that are left are read one after the other, and the location is complete when each
of the three names has come up, in front of them or among them, and none of them twice. -/
theorem readItems_members {members : List (Text × Text)} {text : Text}
    (h : AreMembers members text) (htells : ∀ member ∈ members, l.Tells member.1 member.2)
    (names : List Text)
    (hfields : ((names ++ members.map Prod.fst).filter (· ∈ fieldNames)).Perm fieldNames)
    {n : Nat} (hn : text.length < n) (isFirst : Bool) (rest : Text) :
    readItems n isFirst (.seen l names) (separator isFirst ++ (text ++ '\x7d' :: rest)) =
      .ok (l, rest) := by
  induction h generalizing names n isFirst with
  | @last name value text hmember =>
    -- One step reads the member, and another one the brace.
    have hlength := hmember.length_pos
    obtain ⟨k, rfl⟩ : ∃ k, n = k + 1 + 1 := ⟨n - 2, by omega⟩
    have hall : ∀ field ∈ fieldNames, field ∈ names ++ [name] := fun field hfield =>
      (List.mem_filter.mp (hfields.mem_iff.mpr hfield)).1
    rw [readItems_member hline hcolumn hmember (htells (name, value) List.mem_cons_self)
      (not_mem_of_fields hfields) (delimited_cons rfl rest)]
    exact readItems_closing hall k rest
  | @more name value text items members hmember hitems ih =>
    rw [List.length_append, List.length_cons] at hn
    obtain ⟨k, rfl⟩ := Nat.exists_eq_add_one_of_ne_zero (by omega : n ≠ 0)
    -- The name goes over to those that have come up, and the names are the same in all.
    have hlater : (((names ++ [name]) ++ members.map Prod.fst).filter (· ∈ fieldNames)).Perm
        fieldNames := by
      rw [List.append_assoc]
      exact hfields
    have hrest := ih (fun member hmem => htells member (List.mem_cons_of_mem _ hmem)) _ hlater
      (n := k) (by omega) false
    rw [List.append_assoc, List.cons_append,
      readItems_member hline hcolumn hmember (htells (name, value) List.mem_cons_self)
        (not_mem_of_fields hfields) (delimited_cons rfl _)]
    exact hrest

/-- An object that describes a location is read as the location. -/
theorem ofJson_of_isObject {members : List (Text × Text)} {text : Text}
    (hdescribed : l.DescribedBy members) (h : IsObject members text) : ofJson text = .ok l := by
  obtain ⟨hb, hmembers, hb'⟩ := h
  rename_i b items b'
  have hstart : Partial.seen l [] = {} := by simp [Partial.seen]
  have hread := readItems_members hline hcolumn hmembers hdescribed.tells []
    hdescribed.fields (n := (items ++ '\x7d' :: b').length + 1)
    (by simp only [List.length_append, List.length_cons]; omega) true b'
  rw [hstart, separator, List.nil_append] at hread
  simp only [ofJson, skipBlanks_append hb, skipBlanks_cons (c := '\x7b') rfl, hread, ok_bind,
    skipBlanks_blanks hb']
  rfl

/-- Three values between blanks are read as the location that they tell. -/
theorem readArray_append {source text₁ text₂ text₃ : Text} (hsource : IsString l.source source)
    (h₁ : IsPadded source text₁) (h₂ : IsPadded (Text.ofNat l.line) text₂)
    (h₃ : IsPadded (Text.ofNat l.column) text₃) (rest : Text) :
    readArray (text₁ ++ ',' :: (text₂ ++ ',' :: (text₃ ++ ']' :: rest))) = .ok (l, rest) := by
  obtain ⟨hb, hb₁⟩ := h₁
  rename_i b b₁
  obtain ⟨b₂, hb₂, hcomma₁⟩ := readComma_append hb₁ h₂ (isValue_ofNat l.line)
    (',' :: (text₃ ++ ']' :: rest))
  obtain ⟨b₃, hb₃, hcomma₂⟩ := readComma_append hb₂ h₃ (isValue_ofNat l.column) (']' :: rest)
  have hread₁ := readSource_append blanks_nil hsource
    (b₁ ++ ',' :: (text₂ ++ ',' :: (text₃ ++ ']' :: rest)))
  have hread₂ := readCount_append blanks_nil hline
    (.append hb₂ (delimited_cons rfl (text₃ ++ ']' :: rest) : Delimited (',' :: _)))
  have hread₃ := readCount_append blanks_nil hcolumn
    (.append hb₃ (delimited_cons rfl rest : Delimited (']' :: rest)))
  -- The array is seen not to be empty by the quote that its first value starts with.
  obtain ⟨tail, rfl⟩ : ∃ tail, source = '"' :: tail := by
    cases hsource
    exact ⟨_, rfl⟩
  rw [List.nil_append] at hread₁ hread₂ hread₃
  rw [List.cons_append] at hread₁
  simp only [readArray, List.append_assoc, skipBlanks_append hb, List.cons_append,
    skipBlanks_cons (c := '"') rfl, Char.reduceEq, if_false, hread₁, ok_bind, hcomma₁, hread₂,
    hcomma₂, hread₃, skipBlanks_append hb₃, skipBlanks_cons (c := ']') rfl]
  rfl

/-- So is the array of its values. -/
theorem ofJson_of_isTriple {source text : Text} (hsource : IsString l.source source)
    (h : IsTriple source (Text.ofNat l.line) (Text.ofNat l.column) text) :
    ofJson text = .ok l := by
  obtain ⟨hb, h₁, h₂, h₃, hb'⟩ := h
  simp only [ofJson, skipBlanks_append hb, skipBlanks_cons (c := '[') rfl,
    readArray_append hline hcolumn hsource h₁ h₂ h₃, ok_bind, skipBlanks_blanks hb']
  rfl

end Members

/-! ## Locations as they are written -/

/-- A name that needs no escapes is the key that spells it. -/
theorem isMember_of_escape_eq {name : Text} (value : Text) (h : name.flatMap escape = name) :
    IsMember name value ('"' :: (name ++ '"' :: ':' :: value)) := by
  have hkey := spells_flatMap_escape name
  rw [h] at hkey
  have hmember : IsMember name value
      ([] ++ '"' :: (name ++ '"' :: ([] ++ ':' :: ([] ++ (value ++ []))))) :=
    .mk blanks_nil hkey blanks_nil blanks_nil blanks_nil
  rwa [List.append_nil] at hmember

/-- A location as it is written is the object of its three members, in the order of its fields. -/
theorem isObject_toJson (l : Location) :
    IsObject [("source".toList, quote l.source), ("line".toList, Text.ofNat l.line),
      ("column".toList, Text.ofNat l.column)] l.toJson := by
  have hname : ∀ name ∈ fieldNames, name.flatMap escape = name := by decide
  have hobject := IsObject.mk blanks_nil
    (.more (isMember_of_escape_eq (quote l.source) (hname "source".toList (by decide)))
      (.more (isMember_of_escape_eq (Text.ofNat l.line) (hname "line".toList (by decide)))
        (.last (isMember_of_escape_eq (Text.ofNat l.column) (hname "column".toList (by decide))))))
    blanks_nil
  have hsource : "\x7b\"source\":".toList = '\x7b' :: '"' :: ("source".toList ++ ['"', ':']) := by
    decide
  have hline : ",\"line\":".toList = ',' :: '"' :: ("line".toList ++ ['"', ':']) := by decide
  have hcolumn : ",\"column\":".toList = ',' :: '"' :: ("column".toList ++ ['"', ':']) := by decide
  -- `rw [toJson]` would be led to evaluate the literals.
  unfold toJson
  simpa only [hsource, hline, hcolumn, List.append_assoc, List.cons_append, List.nil_append]
    using hobject

/-- The members that a location is written with describe it. -/
theorem describedBy_fields (l : Location) :
    l.DescribedBy [("source".toList, quote l.source), ("line".toList, Text.ofNat l.line),
      ("column".toList, Text.ofNat l.column)] where
  tells := by
    simp only [List.forall_mem_cons, List.not_mem_nil, false_implies, implies_true, and_true]
    exact ⟨.source (isString_quote l.source), .line, .column⟩
  fields := by
    have hfilter : fieldNames.filter (· ∈ fieldNames) = fieldNames := by decide
    exact .of_eq hfilter

/-- Every location is read back, whatever its source is called and as far as its numbers go. -/
theorem readBack (l : Location) (hline : l.line ≤ maxCount) (hcolumn : l.column ≤ maxCount) :
    l.ReadBack where
  written := ofJson_of_isObject hline hcolumn l.describedBy_fields l.isObject_toJson
  object _ _ hdescribed h := ofJson_of_isObject hline hcolumn hdescribed h
  array _ _ hsource h := ofJson_of_isTriple hline hcolumn hsource h

/-- A location whose source has to be escaped, with the greatest column there is. -/
def escaped : Location := ⟨['"', '\\', '😀', '\n'], 7, maxCount⟩

/-- A value for a member that no location has. -/
def nested : Text := "[null,\x7b\"k\":-1.5e+3\x7d]".toList

/-- The value of the member that tells nothing is one of JSON. -/
theorem isValue_nested : IsValue nested := by
  have hnumber : IsNumber (['-'] ++ (['1'] ++ ('.' :: ['5'] ++ ['e', '+', '3']))) :=
    .mk (.inr rfl) ⟨by decide, by decide, by decide⟩ (.present (by decide) (by decide))
      (.present ⟨'e', .plus, ['3'], .inr rfl, by decide, by decide⟩)
  have hlabel : IsLabel .object ([] ++ '"' :: (['k'] ++ '"' :: ([] ++ [':']))) :=
    .object blanks_nil (.plain (by decide) (by decide) (by decide) .nil) blanks_nil
  have hobject := IsPhrase.container
    (.last hlabel blanks_nil (.scalar (.number hnumber)) blanks_nil)
  have hnull : IsScalar "null".toList := .word (by decide)
  have hitems := IsPhrase.more .array blanks_nil (.scalar hnull) blanks_nil
    (.last .array blanks_nil hobject blanks_nil)
  exact IsPhrase.container hitems

/-- The source, with its characters spelled in another way than they are written. -/
def respelled : Text := "\"\\u0022\\\\\\ud83d\\ude00\\n\"".toList

/-- With two of its characters escaped, the source is spelled still. -/
theorem isString_respelled : IsString escaped.source respelled := by
  have hquote : IsUnitText "0022".toList := by decide
  have hhigh : IsUnitText "d83d".toList := by decide
  have hlow : IsUnitText "de00".toList := by decide
  have hunit : SpellsChar "\\u0022".toList '"' := .unit hquote rfl
  have hpair : SpellsChar "\\ud83d\\ude00".toList '😀' :=
    .pair hhigh hlow (by decide) (by decide) rfl
  exact .mk (.cons hunit (.cons (.letter (a := '\\') rfl) (.cons hpair
    (.cons (.letter (a := 'n') rfl) .nil))))

/-- The members of the location in another order, behind one that it does not have. -/
def reordered : List (Text × Text) :=
  [("note".toList, nested), ("column".toList, Text.ofNat maxCount), ("line".toList, Text.ofNat 7),
    ("source".toList, respelled)]

/-- Members in another order, with others among them, describe it too. -/
theorem describedBy_reordered : escaped.DescribedBy reordered where
  tells := by
    simp only [reordered, List.forall_mem_cons, List.not_mem_nil, false_implies, implies_true,
      and_true]
    exact ⟨.other (by decide) isValue_nested, .column, .line, .source isString_respelled⟩
  fields := by decide

/-- The location is read back from its members in another order, with another value among them, and
from an array with blanks in it. -/
theorem readBack_escaped : escaped.line ≤ maxCount ∧ escaped.column ≤ maxCount ∧
    ofJson escaped.toJson = .ok escaped ∧
    ofJson ("\x7b\"note\":".toList ++ nested ++ ",\"column\":".toList ++ Text.ofNat maxCount ++
      ",\"line\":7,\"source\":".toList ++ respelled ++ ['\x7d']) = .ok escaped ∧
    ofJson ("[ ".toList ++ respelled ++ ", 7, ".toList ++ Text.ofNat maxCount ++ " ]".toList) =
      .ok escaped := by
  have hline : escaped.line ≤ maxCount := by decide
  have hcolumn : escaped.column ≤ maxCount := by decide
  have hread := readBack escaped hline hcolumn
  have hname : ∀ name ∈ "note".toList :: fieldNames, name.flatMap escape = name := by decide
  have hobject := IsObject.mk blanks_nil
    (.more (isMember_of_escape_eq nested (hname "note".toList (by decide)))
      (.more (isMember_of_escape_eq (Text.ofNat maxCount) (hname "column".toList (by decide)))
        (.more (isMember_of_escape_eq (Text.ofNat 7) (hname "line".toList (by decide)))
          (.last (isMember_of_escape_eq respelled (hname "source".toList (by decide)))))))
    blanks_nil
  have hblank : Blanks [' '] := by decide
  have harray : IsTriple respelled (Text.ofNat 7) (Text.ofNat maxCount) _ :=
    .mk blanks_nil (.mk hblank blanks_nil) (.mk hblank blanks_nil) (.mk hblank hblank) blanks_nil
  exact ⟨hline, hcolumn, hread.written, hread.object _ _ describedBy_reordered hobject,
    hread.array _ _ isString_respelled harray⟩

end Location

end SourceText
