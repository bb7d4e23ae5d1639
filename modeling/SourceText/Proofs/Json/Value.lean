import SourceText.Json.Skip
import SourceText.Proofs.Json.Token

/-!
# What may be passed over

The grammar of the values of JSON (`IsValue`), and that a value which nothing is read from is passed
over to its end, whatever it is and however deep (`skipValue_append`).

The grammar has two kinds of phrases, values and the items of an array or object, and one rule for
both containers: an item of an object has a key in front of its value, an item of an array has none.
The machine that passes over values has a stack of open containers. A value moves it from the place
where a value is expected to the place behind one, with the same containers open, and the items of a
container move it to where the container has been closed (`IsPhrase.passes`, by induction on the
phrase). Both take fewer than two steps for each character, so the steps that are given suffice.
-/

namespace SourceText.Json

open Numeral (ne_of_kind)

/-! ## The grammar -/

/-- A value that is neither array nor object. -/
inductive IsScalar : Text → Prop
  | word {text : Text} (h : text ∈ ["null".toList, "true".toList, "false".toList]) : IsScalar text
  | number {text : Text} (h : IsNumber text) : IsScalar text
  | string {body : Text} (h : IsBody body) : IsScalar ('"' :: (body ++ ['"']))

/-- The sign that opens a container. -/
def Container.opening : Container → Char
  | array => '['
  | object => '\x7b'

/-- What stands in front of the value of an item: nothing in an array, and in an object a key and a
colon. -/
inductive IsLabel : Container → Text → Prop
  | array : IsLabel .array []
  | object {b body b' : Text} (hb : Blanks b) (hbody : IsBody body) (hb' : Blanks b') :
      IsLabel .object (b ++ '"' :: (body ++ '"' :: (b' ++ [':'])))

/-- The kinds of phrases. -/
inductive Phrase where
  /-- A value. -/
  | value
  /-- The items of a container, one at least. -/
  | items (container : Container)

/-- The texts of each kind. -/
inductive IsPhrase : Phrase → Text → Prop
  | scalar {text : Text} (h : IsScalar text) : IsPhrase .value text
  | empty (container : Container) {b : Text} (hb : Blanks b) :
      IsPhrase .value (container.opening :: (b ++ [container.closing]))
  | container {container : Container} {items : Text} (hitems : IsPhrase (.items container) items) :
      IsPhrase .value (container.opening :: (items ++ [container.closing]))
  | last {container : Container} {label b value b' : Text} (hlabel : IsLabel container label)
      (hb : Blanks b) (hvalue : IsPhrase .value value) (hb' : Blanks b') :
      IsPhrase (.items container) (label ++ (b ++ (value ++ b')))
  | more {container : Container} {label b value b' items : Text} (hlabel : IsLabel container label)
      (hb : Blanks b) (hvalue : IsPhrase .value value) (hb' : Blanks b')
      (hitems : IsPhrase (.items container) items) :
      IsPhrase (.items container) (label ++ (b ++ (value ++ (b' ++ ',' :: items))))

/-- A value of JSON. -/
abbrev IsValue (text : Text) : Prop := IsPhrase .value text

/-! ## How values start -/

/-- Whether a value that is neither array nor object starts with a character. -/
def startsScalar (c : Char) : Bool :=
  c == 'n' || c == 't' || c == 'f' || c == '"' || c == '-' || c.isDigit

/-- A number begins with a minus or a digit. -/
theorem IsNumber.exists_cons {text : Text} (h : IsNumber text) :
    ∃ c rest, text = c :: rest ∧ (c = '-' ∨ c.isDigit = true) := by
  obtain ⟨hsign, hwhole, -, -⟩ := h
  obtain ⟨c, digits, rfl, hc⟩ := hwhole.exists_cons
  rcases hsign with rfl | rfl
  · exact ⟨c, _, rfl, .inr hc⟩
  · exact ⟨'-', _, rfl, .inl rfl⟩

/-- A value that is neither array nor object begins with a character that says which it is. -/
theorem IsScalar.exists_cons {text : Text} (h : IsScalar text) :
    ∃ c rest, text = c :: rest ∧ startsScalar c = true := by
  cases h with
  | word h =>
    simp only [List.mem_cons, List.not_mem_nil, or_false] at h
    rcases h with rfl | rfl | rfl <;> exact ⟨_, _, rfl, rfl⟩
  | number h =>
    obtain ⟨c, rest, rfl, hc⟩ := h.exists_cons
    refine ⟨c, rest, rfl, ?_⟩
    rcases hc with rfl | hc
    · rfl
    · simp [startsScalar, hc]
  | string => exact ⟨_, _, rfl, rfl⟩

/-- That character is no blank. -/
theorem not_isBlank_of_startsScalar {c : Char} (h : startsScalar c = true) :
    isBlank c = false := by
  simp [isBlank, ne_of_kind (x := ' ') h rfl, ne_of_kind (x := '\n') h rfl,
    ne_of_kind (x := '\t') h rfl, ne_of_kind (x := '\r') h rfl]

/-- A value starts with no blank, and not as an array ends. -/
theorem IsPhrase.exists_cons {text : Text} (h : IsValue text) :
    ∃ c rest, text = c :: rest ∧ isBlank c = false ∧ c ≠ ']' := by
  cases h with
  | scalar h =>
    obtain ⟨c, rest, rfl, hc⟩ := h.exists_cons
    exact ⟨c, rest, rfl, not_isBlank_of_startsScalar hc, ne_of_kind hc rfl⟩
  | empty container => exact ⟨_, _, rfl, by cases container <;> decide⟩
  | @container container => exact ⟨_, _, rfl, by cases container <;> decide⟩

/-! ## One step -/

section Steps

variable {rest : Text} {inside outer : List Container} {container : Container} {n : Nat}

/-- Such a value is passed over up to the delimiter behind it. -/
theorem skipScalar_append {text : Text} (h : IsScalar text) (hrest : Delimited rest) :
    skipScalar (text ++ rest) = .ok rest := by
  cases h with
  | word h =>
    simp only [List.mem_cons, List.not_mem_nil, or_false] at h
    rcases h with rfl | rfl | rfl <;> rfl
  | number h =>
    obtain ⟨number, hread⟩ := readNumber_append .malformed h hrest
    obtain ⟨c, digits, rfl, hc⟩ := h.exists_cons
    have hne : c ≠ 'n' ∧ c ≠ 't' ∧ c ≠ 'f' ∧ c ≠ '"' := by
      rcases hc with rfl | hc
      · decide
      · exact ⟨ne_of_kind hc rfl, ne_of_kind hc rfl, ne_of_kind hc rfl, ne_of_kind hc rfl⟩
    rw [List.cons_append] at hread ⊢
    rw [skipScalar, if_neg hne.1, if_neg hne.2.1, if_neg hne.2.2.1, if_neg hne.2.2.2, if_pos hc,
      hread]
    rfl
  | string h =>
    rw [List.cons_append, List.append_assoc]
    exact skipString_of_isBody h rest

/-- In an object a name and its colon are passed over, and in an array there are none. -/
theorem skipKey_append {label : Text} (h : IsLabel container label) (rest : Text) :
    skipKey container (label ++ rest) = .ok rest := by
  cases h with
  | array => rfl
  | object hb hbody hb' =>
    simp only [List.append_assoc, List.cons_append, List.nil_append, skipKey,
      skipBlanks_append hb, skipBlanks_append hb', skipBlanks_cons (c := '"') rfl,
      skipBlanks_cons (c := ':') rfl, skipString_of_isBody hbody]

/-- Blanks in front of a value are passed over. -/
theorem skipOpen_value_blanks {b : Text} (hb : Blanks b) (rest : Text) :
    skipOpen n inside .value (b ++ rest) = skipOpen n inside .value rest := by
  cases n with
  | zero => rfl
  | succ n => simp only [skipOpen, skipBlanks_append hb]

/-- Blanks inside of an array or an object are passed over. -/
theorem skipOpen_container_blanks {expected : Expected} (he : expected ≠ .value) {b : Text}
    (hb : Blanks b) (rest : Text) :
    skipOpen n (container :: outer) expected (b ++ rest) =
      skipOpen n (container :: outer) expected rest := by
  cases n with
  | zero => rfl
  | succ n =>
    cases expected with
    | value => exact absurd rfl he
    | firstItem | nextItem => simp only [skipOpen, skipBlanks_append hb]

/-- A scalar takes one step. -/
theorem skipOpen_scalar {text : Text} (h : IsScalar text) (hrest : Delimited rest) :
    skipOpen (n + 1) inside .value (text ++ rest) = skipOpen n inside .nextItem rest := by
  obtain ⟨c, tail, htext, hc⟩ := h.exists_cons
  have hskip := skipScalar_append h hrest
  rw [htext, List.cons_append] at hskip ⊢
  rw [skipOpen, skipBlanks_cons (not_isBlank_of_startsScalar hc)]
  split
  · contradiction
  · next heq => exact absurd (List.cons.inj heq).1 (ne_of_kind hc rfl)
  · next heq => exact absurd (List.cons.inj heq).1 (ne_of_kind hc rfl)
  · rw [hskip]

/-- Opening a container takes one step. -/
theorem skipOpen_opening (container : Container) (rest : Text) :
    skipOpen (n + 1) inside .value (container.opening :: rest) =
      skipOpen n (container :: inside) .firstItem rest := by
  cases container <;> rfl

/-- So does closing it, behind blanks or none. -/
theorem skipOpen_closing {expected : Expected} (he : expected ≠ .value) {b : Text} (hb : Blanks b)
    (rest : Text) :
    skipOpen (n + 1) (container :: outer) expected (b ++ container.closing :: rest) =
      skipOpen n outer .nextItem rest := by
  have hclosing : isBlank container.closing = false := by cases container <;> rfl
  rw [skipOpen_container_blanks he hb]
  cases expected with
  | value => exact absurd rfl he
  | firstItem | nextItem => simp only [skipOpen, skipBlanks_cons hclosing, if_true]

/-- What an item of a container comes behind: nothing if it is the first one, and a comma if it is
another. -/
inductive ComesBehind : Expected → Text → Prop
  | first : ComesBehind .firstItem []
  | next : ComesBehind .nextItem [',']

/-- Behind blanks an item starts with no closing sign, and what comes in front of its value is
passed over, up to blanks. -/
theorem exists_firstItem {label b value : Text} (hlabel : IsLabel container label) (hb : Blanks b)
    (hvalue : IsValue value) (rest : Text) :
    ∃ c tail b', skipBlanks (label ++ (b ++ (value ++ rest))) = c :: tail ∧
      c ≠ container.closing ∧ skipKey container (c :: tail) = .ok (b' ++ (value ++ rest)) ∧
      Blanks b' := by
  cases hlabel with
  | array =>
    obtain ⟨c, tail, rfl, hblank, hclosing⟩ := hvalue.exists_cons
    exact ⟨c, tail ++ rest, [], by rw [List.nil_append, skipBlanks_append hb, List.cons_append,
      skipBlanks_cons hblank], hclosing, rfl, blanks_nil⟩
  | @object b₀ body b₁ hb₀ hbody hb₁ =>
    have hlabel : IsLabel .object ('"' :: (body ++ '"' :: (b₁ ++ [':']))) :=
      .object blanks_nil hbody hb₁
    exact ⟨'"', body ++ '"' :: (b₁ ++ [':']) ++ (b ++ (value ++ rest)), b, by
      rw [List.append_assoc, skipBlanks_append hb₀, List.cons_append, skipBlanks_cons rfl],
      by decide, skipKey_append hlabel _, hb⟩

/-- What comes in front of the value of an item takes one step. -/
theorem skipOpen_label {expected : Expected} {comma label b value : Text}
    (he : ComesBehind expected comma) (hlabel : IsLabel container label) (hb : Blanks b)
    (hvalue : IsValue value) (rest : Text) :
    skipOpen (n + 1) (container :: outer) expected (comma ++ (label ++ (b ++ (value ++ rest)))) =
      skipOpen n (container :: outer) .value (value ++ rest) := by
  cases he with
  | first =>
    obtain ⟨c, tail, b', hskip, hclosing, hkey, hb'⟩ := exists_firstItem hlabel hb hvalue rest
    simp only [List.nil_append, skipOpen, hskip, if_neg hclosing, reduceCtorEq, false_and, if_false,
      hkey]
    exact skipOpen_value_blanks hb' _
  | next =>
    have hclosing : ',' ≠ container.closing := by cases container <;> decide
    simp only [List.cons_append, List.nil_append, skipOpen, skipBlanks_cons (c := ',') rfl,
      if_neg hclosing, ne_eq, not_true_eq_false, and_false, if_false, if_true,
      skipKey_append hlabel]
    exact skipOpen_value_blanks hb _

end Steps

/-! ## Whole phrases -/

/-- What passing over a phrase takes and where it leads, whatever comes behind it. -/
def Passes : Phrase → Text → Prop
  | .value, text => ∀ inside rest, Delimited rest → ∃ steps, steps < 2 * text.length ∧
      ∀ n, skipOpen (n + steps) inside .value (text ++ rest) = skipOpen n inside .nextItem rest
  | .items container, text => ∀ outer rest expected comma, ComesBehind expected comma →
      ∃ steps, steps < 2 * text.length + 2 ∧ ∀ n,
        skipOpen (n + steps) (container :: outer) expected
            (comma ++ (text ++ container.closing :: rest)) =
          skipOpen n outer .nextItem rest

/-- Every phrase is passed over. -/
theorem IsPhrase.passes {phrase : Phrase} {text : Text} (h : IsPhrase phrase text) :
    Passes phrase text := by
  have hdelimiter : ∀ container : Container, isDelimiter container.closing = true := by
    intro container
    cases container <;> rfl
  induction h with
  | @scalar text h =>
    intro inside rest hrest
    obtain ⟨c, tail, rfl, -⟩ := h.exists_cons
    refine ⟨1, by simp only [List.length_cons]; omega, fun n => skipOpen_scalar h hrest⟩
  | @empty container b hb =>
    intro inside rest hrest
    refine ⟨2, by simp only [List.length_cons, List.length_append]; omega, fun n => ?_⟩
    rw [List.cons_append, List.append_assoc, skipOpen_opening]
    exact skipOpen_closing (by simp) hb rest
  | @container container items hitems ih =>
    intro inside rest hrest
    obtain ⟨steps, hsteps, hpass⟩ := ih inside rest .firstItem [] .first
    refine ⟨steps + 1, by
      simp only [List.length_cons, List.length_append, List.length_nil]; omega, fun n => ?_⟩
    rw [List.cons_append, List.append_assoc, ← Nat.add_assoc, skipOpen_opening]
    exact hpass n
  | @last container label b value b' hlabel hb hvalue hb' ih =>
    intro outer rest expected comma he
    -- A step for the label, the steps of the value, and one for the closing sign.
    obtain ⟨steps, hsteps, hpass⟩ := ih (container :: outer) (b' ++ container.closing :: rest)
      (.append hb' (delimited_cons (hdelimiter container) rest))
    refine ⟨1 + steps + 1, by simp only [List.length_append]; omega, fun n => ?_⟩
    calc skipOpen (n + (1 + steps + 1)) (container :: outer) expected
          (comma ++ (label ++ (b ++ (value ++ b')) ++ container.closing :: rest))
        = skipOpen (n + 1 + steps) (container :: outer) .value
            (value ++ (b' ++ container.closing :: rest)) := by
          rw [show n + (1 + steps + 1) = n + 1 + steps + 1 by omega]
          simpa only [List.append_assoc] using skipOpen_label he hlabel hb hvalue _
      _ = skipOpen (n + 1) (container :: outer) .nextItem (b' ++ container.closing :: rest) :=
          hpass (n + 1)
      _ = skipOpen n outer .nextItem rest := skipOpen_closing (by simp) hb' rest
  | @more container label b value b' items hlabel hb hvalue hb' hitems ih ihitems =>
    intro outer rest expected comma he
    -- The comma behind the value is what the items that are left come behind.
    obtain ⟨steps, hsteps, hpass⟩ := ih (container :: outer)
      (b' ++ ',' :: (items ++ container.closing :: rest)) (.append hb' (delimited_cons rfl _))
    obtain ⟨steps', hsteps', hpass'⟩ := ihitems outer rest .nextItem [','] .next
    refine ⟨steps' + steps + 1, by
      simp only [List.length_cons, List.length_append]; omega, fun n => ?_⟩
    calc skipOpen (n + (steps' + steps + 1)) (container :: outer) expected
          (comma ++ (label ++ (b ++ (value ++ (b' ++ ',' :: items))) ++ container.closing :: rest))
        = skipOpen (n + steps' + steps) (container :: outer) .value
            (value ++ (b' ++ ',' :: (items ++ container.closing :: rest))) := by
          rw [show n + (steps' + steps + 1) = n + steps' + steps + 1 by omega]
          simpa only [List.append_assoc, List.cons_append] using
            skipOpen_label he hlabel hb hvalue _
      _ = skipOpen (n + steps') (container :: outer) .nextItem
            (b' ++ ',' :: (items ++ container.closing :: rest)) := hpass (n + steps')
      _ = skipOpen (n + steps') (container :: outer) .nextItem
            (',' :: (items ++ container.closing :: rest)) :=
          skipOpen_container_blanks (by simp) hb' _
      _ = skipOpen n outer .nextItem rest := hpass' n

/-- A value is passed over to its end, together with the blanks in front of it. -/
theorem skipValue_append {b text rest : Text} (hb : Blanks b) (h : IsValue text)
    (hrest : Delimited rest) : skipValue (b ++ (text ++ rest)) = .ok rest := by
  obtain ⟨steps, hsteps, hpass⟩ := h.passes [] rest hrest
  obtain ⟨n, hn⟩ : ∃ n, 2 * (b ++ (text ++ rest)).length + 2 = n + 1 + steps :=
    ⟨2 * (b ++ (text ++ rest)).length + 1 - steps, by simp only [List.length_append]; omega⟩
  rw [skipValue, hn, skipOpen_value_blanks hb, hpass]
  simp [skipOpen]

end SourceText.Json
