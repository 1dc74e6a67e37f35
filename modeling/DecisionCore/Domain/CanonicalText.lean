import DecisionCore.Lib.Separated
import DecisionCore.Domain.JsonText

/-!
# Canonical texts determine their values

The canonical JSON text of a value can be read in one way only, so that two values with the same
text are the same up to the order of the members of their objects.  A value ends where the first
delimiter behind it stands: literals and numbers are made of other characters, texts end at their
closing quote, and lists and objects are joins of such parts.
-/

namespace DecisionCore

/-- Equality of values up to the order of the members of objects. -/
inductive Json.Alike : Json → Json → Prop
  | refl (value : Json) : Alike value value
  | list {items others : List Json} (hitems : List.Forall₂ Alike items others) :
      Alike (.list items) (.list others)
  | dict {fields ordered ordered' fields' : List (String × Json)} (horder : fields.Perm ordered)
      (hkeys : ordered.map Prod.fst = ordered'.map Prod.fst)
      (hvalues : List.Forall₂ Alike (ordered.map Prod.snd) (ordered'.map Prod.snd))
      (horder' : ordered'.Perm fields') : Alike (.dict fields) (.dict fields')

/-- Induction over a value with the hypothesis for every item and every member. -/
theorem Json.induction {P : Json → Prop} (null : P .null) (bool : ∀ b, P (.bool b))
    (int : ∀ n, P (.int n)) (float : ∀ x, P (.float x)) (str : ∀ text, P (.str text))
    (list : ∀ items : List Json, (∀ item ∈ items, P item) → P (.list items))
    (dict : ∀ fields : List (String × Json), (∀ field ∈ fields, P field.2) → P (.dict fields)) :
    ∀ value, P value := by
  refine @Json.rec P (fun items ↦ ∀ item ∈ items, P item) (fun fields ↦ ∀ field ∈ fields, P field.2)
    (fun field ↦ P field.2) null bool int float str list dict nofun ?_ nofun ?_ ?_
  · intro item items hitem hitems
    exact List.forall_mem_cons.mpr ⟨hitem, hitems⟩
  · intro field fields hfield hfields
    exact List.forall_mem_cons.mpr ⟨hfield, hfields⟩
  · intro key value hvalue
    exact hvalue

namespace JsonText

open Separated

/-- The characters that end a value inside a list or an object. -/
def delimiter (c : Char) : Prop := c = ',' ∨ c = ']' ∨ c = '}'

/-! ## Quoted texts -/

/-- Reading back one escaped character. -/
def unescape : List Char → Option (Char × List Char)
  | '\\' :: 'u' :: _ :: _ :: high :: low :: rest => do
    let high ← hexValue high
    let low ← hexValue low
    return (Char.ofNat (16 * high + low), rest)
  | '\\' :: 'n' :: rest => some ('\n', rest)
  | '\\' :: 'r' :: rest => some ('\r', rest)
  | '\\' :: 't' :: rest => some ('\t', rest)
  | '\\' :: 'f' :: rest => some ('\x0c', rest)
  | '\\' :: 'b' :: rest => some ('\x08', rest)
  | '\\' :: c :: rest => some (c, rest)
  | c :: rest => some (c, rest)
  | [] => none

theorem unescape_hex4 {c : Char} (hc : c.toNat < 32) (rest : List Char) :
    unescape ('\\' :: 'u' :: hex4 c.toNat ++ rest) = some (c, rest) := by
  have hhigh : hexValue (Nat.digitChar (c.toNat / 16 % 16)) = some (c.toNat / 16) := by
    rw [hexValue_digitChar (Nat.mod_lt _ (by decide)), Nat.mod_eq_of_lt (by omega)]
  have hlow : hexValue (Nat.digitChar (c.toNat % 16)) = some (c.toNat % 16) :=
    hexValue_digitChar (Nat.mod_lt _ (by decide))
  have hchar : Char.ofNat (16 * (c.toNat / 16) + c.toNat % 16) = c := by
    rw [Nat.div_add_mod, Char.ofNat_toNat]
  simp [unescape, hex4, hhigh, hlow, hchar]

theorem unescape_escapeChar (c : Char) (rest : List Char) :
    unescape (escapeChar c ++ rest) = some (c, rest) := by
  unfold escapeChar
  split_ifs with hquote hslash hn hr ht hf hb hcontrol
  · subst hquote; rfl
  · subst hslash; rfl
  · subst hn; rfl
  · subst hr; rfl
  · subst ht; rfl
  · subst hf; rfl
  · subst hb; rfl
  · exact unescape_hex4 hcontrol rest
  · simp [unescape, hslash]

theorem escapeChar_head (c : Char) : ∃ first text, escapeChar c = first :: text ∧ first ≠ '"' := by
  unfold escapeChar
  split_ifs with hquote
  all_goals first | exact ⟨_, _, rfl, by decide⟩ | exact ⟨_, _, rfl, hquote⟩

/-- The characters of a quoted text up to its closing quote. -/
theorem escaped_append_inj {chars others rest rest' : List Char}
    (h : chars.flatMap escapeChar ++ '"' :: rest = others.flatMap escapeChar ++ '"' :: rest') :
    chars = others ∧ rest = rest' := by
  induction chars generalizing others with
  | nil =>
      cases others with
      | nil => exact ⟨rfl, by simpa using h⟩
      | cons d others =>
          obtain ⟨first, text, hescape, hfirst⟩ := escapeChar_head d
          rw [List.flatMap_cons, hescape] at h
          have hhead : '"' = first := by simpa using congrArg List.head? h
          exact absurd hhead.symm hfirst
  | cons c chars ih =>
      cases others with
      | nil =>
          obtain ⟨first, text, hescape, hfirst⟩ := escapeChar_head c
          rw [List.flatMap_cons, hescape] at h
          have hhead : first = '"' := by simpa using congrArg List.head? h
          exact absurd hhead hfirst
      | cons d others =>
          rw [List.flatMap_cons, List.flatMap_cons, List.append_assoc, List.append_assoc] at h
          have hread := congrArg unescape h
          rw [unescape_escapeChar, unescape_escapeChar, Option.some.injEq, Prod.mk.injEq] at hread
          obtain ⟨rfl, htail⟩ := hread
          obtain ⟨rfl, hrest⟩ := ih htail
          exact ⟨rfl, hrest⟩

theorem quote_append_inj {text other : String} {rest rest' : List Char}
    (h : quote text ++ rest = quote other ++ rest') : text = other ∧ rest = rest' := by
  simp only [quote, List.cons_append, List.append_assoc, List.cons.injEq, true_and,
    List.nil_append] at h
  obtain ⟨hchars, hrest⟩ := escaped_append_inj h
  exact ⟨String.toList_inj.mp hchars, hrest⟩

/-! ## Literals and numbers -/

/-- The character a text, a list or an object opens with; `none` for literals and numbers. -/
def opening : Json → Option Char
  | .str _ => some '"'
  | .list _ => some '['
  | .dict _ => some '{'
  | _ => none

/-- The characters of literals and numbers. -/
def isAtomChar (c : Char) : Bool := c.isAlphanum || c ∈ ['+', '-', '.']

/-- The value a literal stands for. -/
def readLiteral (text : List Char) : Option Json :=
  if text = "null".toList then some .null
  else if text = "true".toList then some (.bool true)
  else if text = "false".toList then some (.bool false)
  else if text = "NaN".toList then some (.float .nan)
  else if text = "Infinity".toList then some (.float .posInf)
  else if text = "-Infinity".toList then some (.float .negInf)
  else none

theorem isDigit_of_mem_repr {n : ℕ} {c : Char} (hc : c ∈ n.repr.toList) : c.isDigit = true := by
  rw [Nat.toList_repr] at hc
  exact Nat.isDigit_of_mem_toDigits (by decide) (by decide) hc

theorem natRepr_injective : Function.Injective Nat.repr := by
  intro n m h
  have hread := congrArg (fun text : String ↦ Nat.ofDigitChars 10 text.toList 0) h
  simpa using hread

theorem mem_intText {n : ℤ} {c : Char} (hc : c ∈ (toString n).toList) :
    c.isDigit = true ∨ c = '-' := by
  rw [Int.toString_eq_repr] at hc
  cases n with
  | ofNat n => exact .inl (isDigit_of_mem_repr hc)
  | negSucc n =>
      simp only [Int.repr, String.toList_append, List.mem_append] at hc
      obtain hsign | hdigit := hc
      · exact .inr (by simpa using hsign)
      · exact .inl (isDigit_of_mem_repr hdigit)

theorem intText_injective {n m : ℤ} (h : toString n = toString m) : n = m := by
  rw [Int.toString_eq_repr, Int.toString_eq_repr] at h
  cases n with
  | ofNat n =>
    cases m with
    | ofNat m => rw [natRepr_injective h]
    | negSucc m =>
        have hsign : '-' ∈ n.repr.toList := by
          rw [show n.repr = "-" ++ (m + 1).repr from h]
          simp
        exact absurd (isDigit_of_mem_repr hsign) (by decide)
  | negSucc n =>
    cases m with
    | ofNat m =>
        have hsign : '-' ∈ m.repr.toList := by
          rw [show m.repr = "-" ++ (n + 1).repr from h.symm]
          simp
        exact absurd (isDigit_of_mem_repr hsign) (by decide)
    | negSucc m =>
        have hdigits : (n + 1).repr = (m + 1).repr := by
          simpa [Int.repr] using h
        have hsucc := natRepr_injective hdigits
        rw [show n = m by omega]

theorem readLiteral_numeral {text : List Char} (h : ∀ c ∈ text, isNumeralChar c = true) :
    readLiteral text = none := by
  have hne : ∀ (literal : List Char) (c : Char), c ∈ literal → isNumeralChar c = false →
      text ≠ literal := by
    rintro literal c hmem hc rfl
    simp [h c hmem] at hc
  rw [readLiteral, if_neg (hne _ 'n' (by decide) (by decide)),
    if_neg (hne _ 't' (by decide) (by decide)), if_neg (hne _ 'f' (by decide) (by decide)),
    if_neg (hne _ 'N' (by decide) (by decide)), if_neg (hne _ 'I' (by decide) (by decide)),
    if_neg (hne _ 'I' (by decide) (by decide))]

variable {env : Env}

theorem intText_numeral (n : ℤ) : ∀ c ∈ (toString n).toList, isNumeralChar c = true := by
  intro c hc
  obtain hdigit | rfl := mem_intText hc
  · simp [isNumeralChar, hdigit]
  · decide

theorem readLiteral_int (n : ℤ) : readLiteral (dumpsChars env (.int n)) = none :=
  readLiteral_numeral (intText_numeral n)

theorem readLiteral_fin (henv : env.FloatTexts) (q : ℚ) :
    readLiteral (dumpsChars env (.float (.fin q))) = none :=
  readLiteral_numeral (henv.numeral q)

/-- A value without an opening character is a literal or a number. -/
theorem atom_cases (env : Env) {value : Json} (hvalue : opening value = none) :
    readLiteral (dumpsChars env value) = some value ∨ (∃ n, value = .int n) ∨
      ∃ q, value = .float (.fin q) := by
  cases value with
  | null => exact .inl rfl
  | bool b =>
      cases b with
      | true => exact .inl rfl
      | false => exact .inl rfl
  | int n => exact .inr (.inl ⟨n, rfl⟩)
  | float x =>
      cases x with
      | nan => exact .inl rfl
      | posInf => exact .inl rfl
      | negInf => exact .inl rfl
      | fin q => exact .inr (.inr ⟨q, rfl⟩)
  | str text => cases hvalue
  | list items => cases hvalue
  | dict fields => cases hvalue

/-- The texts of integers have neither point nor exponent mark. -/
theorem intText_ne_floatRepr (henv : env.FloatTexts) (n : ℤ) (q : ℚ) :
    (toString n).toList ≠ (env.floatRepr q).toList := by
  intro h
  have hmark := henv.marked q
  rw [← h] at hmark
  obtain hpoint | hexponent := hmark
  · obtain hdigit | hsign := mem_intText hpoint
    · exact absurd hdigit (by decide)
    · exact absurd hsign (by decide)
  · obtain hdigit | hsign := mem_intText hexponent
    · exact absurd hdigit (by decide)
    · exact absurd hsign (by decide)

theorem atom_inj (henv : env.FloatTexts) {value other : Json} (hvalue : opening value = none)
    (hother : opening other = none) (h : dumpsChars env value = dumpsChars env other) :
    value = other := by
  obtain hliteral | ⟨n, rfl⟩ | ⟨q, rfl⟩ := atom_cases env hvalue
  · obtain hliteral' | ⟨m, rfl⟩ | ⟨q', rfl⟩ := atom_cases env hother
    · rw [h, hliteral', Option.some.injEq] at hliteral
      exact hliteral.symm
    · rw [h, readLiteral_int] at hliteral
      cases hliteral
    · rw [h, readLiteral_fin henv] at hliteral
      cases hliteral
  · obtain hliteral' | ⟨m, rfl⟩ | ⟨q', rfl⟩ := atom_cases env hother
    · rw [← h, readLiteral_int] at hliteral'
      cases hliteral'
    · rw [intText_injective (String.toList_inj.mp h)]
    · exact absurd h (intText_ne_floatRepr henv n q')
  · obtain hliteral' | ⟨m, rfl⟩ | ⟨q', rfl⟩ := atom_cases env hother
    · rw [← h, readLiteral_fin henv] at hliteral'
      cases hliteral'
    · exact absurd h.symm (intText_ne_floatRepr henv m q)
    · rw [henv.injective (String.toList_inj.mp h)]

theorem isAtomChar_of_isNumeralChar {c : Char} (hc : isNumeralChar c = true) :
    isAtomChar c = true := by
  simp only [isNumeralChar, Bool.or_eq_true, decide_eq_true_eq] at hc
  obtain hdigit | hmark := hc
  · simp [isAtomChar, Char.isAlphanum, hdigit]
  · simp only [List.mem_cons, List.not_mem_nil, or_false] at hmark
    obtain rfl | rfl | rfl | rfl := hmark <;> decide

theorem intText_ne_nil (n : ℤ) : (toString n).toList ≠ [] := by
  rw [Int.toString_eq_repr]
  cases n with
  | ofNat n =>
      change n.repr.toList ≠ []
      rw [Nat.toList_repr]
      exact Nat.toDigits_ne_nil
  | negSucc n => simp [Int.repr]

theorem literal_chars {text : List Char} {value : Json} (h : readLiteral text = some value) :
    text ≠ [] ∧ ∀ c ∈ text, isAtomChar c = true := by
  unfold readLiteral at h
  split_ifs at h with hnull htrue hfalse hnan hinf hneg
  · exact hnull ▸ ⟨by decide, List.all_eq_true.mp (by decide)⟩
  · exact htrue ▸ ⟨by decide, List.all_eq_true.mp (by decide)⟩
  · exact hfalse ▸ ⟨by decide, List.all_eq_true.mp (by decide)⟩
  · exact hnan ▸ ⟨by decide, List.all_eq_true.mp (by decide)⟩
  · exact hinf ▸ ⟨by decide, List.all_eq_true.mp (by decide)⟩
  · exact hneg ▸ ⟨by decide, List.all_eq_true.mp (by decide)⟩

theorem floatRepr_ne_nil (henv : env.FloatTexts) (q : ℚ) : (env.floatRepr q).toList ≠ [] := by
  obtain hpoint | hexponent := henv.marked q
  · exact List.ne_nil_of_mem hpoint
  · exact List.ne_nil_of_mem hexponent

theorem atom_chars (henv : env.FloatTexts) {value : Json} (hvalue : opening value = none) :
    dumpsChars env value ≠ [] ∧ ∀ c ∈ dumpsChars env value, isAtomChar c = true := by
  obtain hliteral | ⟨n, rfl⟩ | ⟨q, rfl⟩ := atom_cases env hvalue
  · exact literal_chars hliteral
  · exact ⟨intText_ne_nil n, fun c hc ↦ isAtomChar_of_isNumeralChar (intText_numeral n c hc)⟩
  · exact ⟨floatRepr_ne_nil henv q, fun c hc ↦ isAtomChar_of_isNumeralChar (henv.numeral q c hc)⟩

theorem not_delimiter_of_isAtomChar {c : Char} (hc : isAtomChar c = true) : ¬ delimiter c := by
  rintro (rfl | rfl | rfl) <;> exact absurd hc (by decide)

/-- The first character tells what kind of value a text holds. -/
theorem opening_eq (henv : env.FloatTexts) (value : Json) (rest : List Char) :
    ((dumpsChars env value ++ rest).head?).filter (fun c ↦ !isAtomChar c) = opening value := by
  cases hopening : opening value with
  | none =>
      obtain ⟨hne, hchars⟩ := atom_chars henv hopening
      obtain ⟨c, text, htext⟩ := List.exists_cons_of_ne_nil hne
      rw [htext] at hchars
      simp [htext, hchars c List.mem_cons_self]
  | some c =>
      cases value <;> simp only [opening, Option.some.injEq, reduceCtorEq] at hopening
      all_goals subst hopening; rfl

theorem opening_congr (henv : env.FloatTexts) {value other : Json} {rest rest' : List Char}
    (h : dumpsChars env value ++ rest = dumpsChars env other ++ rest') :
    opening value = opening other := by
  rw [← opening_eq henv value rest, h, opening_eq henv other rest']

theorem atom_readable (henv : env.FloatTexts) {value : Json} (hvalue : opening value = none) :
    Readable delimiter (dumpsChars env) Json.Alike value := by
  intro other rest rest' hrest hrest' h
  have hother : opening other = none := by rw [← opening_congr henv h, hvalue]
  obtain ⟨htext, hrests⟩ := append_inj_of_stops
    (fun c hc ↦ not_delimiter_of_isAtomChar ((atom_chars henv hvalue).2 c hc))
    (fun c hc ↦ not_delimiter_of_isAtomChar ((atom_chars henv hother).2 c hc)) hrest hrest' h
  obtain rfl := atom_inj henv hvalue hother htext
  exact ⟨.refl value, hrests⟩

/-! ## Lists and objects -/

theorem dumpsItems_eq_map (items : List Json) : dumpsItems env items = items.map (dumpsChars env) := by
  induction items with
  | nil => rfl
  | cons item items ih => rw [dumpsItems, ih, List.map_cons]

/-- The text of one member. -/
def dumpsMember (env : Env) (field : String × Json) : List Char :=
  member (field.1, dumpsChars env field.2)

/-- The members of an object in the order of their keys. -/
def sortFields (fields : List (String × Json)) : List (String × Json) :=
  fields.insertionSort fun first second ↦ first.1 ≤ second.1

theorem dumpsFields_eq_map (fields : List (String × Json)) :
    dumpsFields env fields = fields.map fun field ↦ (field.1, dumpsChars env field.2) := by
  induction fields with
  | nil => rfl
  | cons field fields ih => rw [dumpsFields, ih, List.map_cons]

/-- Sorting the texts of the members sorts the members. -/
theorem sortedMembers_eq_map (fields : List (String × Json)) :
    (sortMembers (dumpsFields env fields)).map member = (sortFields fields).map (dumpsMember env) := by
  have hsort : sortMembers (dumpsFields env fields) =
      (sortFields fields).map fun field ↦ (field.1, dumpsChars env field.2) := by
    rw [dumpsFields_eq_map]
    apply Eq.symm
    apply List.map_insertionSort
    intro first _ second _
    rfl
  rw [hsort, List.map_map]
  rfl

theorem dumps_head (henv : env.FloatTexts) (value : Json) :
    ∃ c text, dumpsChars env value = c :: text ∧ c ≠ ']' := by
  cases hopening : opening value with
  | none =>
      obtain ⟨hne, hchars⟩ := atom_chars henv hopening
      obtain ⟨c, text, htext⟩ := List.exists_cons_of_ne_nil hne
      refine ⟨c, text, htext, ?_⟩
      rintro rfl
      exact absurd (hchars ']' (htext ▸ List.mem_cons_self)) (by decide)
  | some c =>
      cases value <;> simp only [opening, reduceCtorEq] at hopening
      all_goals exact ⟨_, _, rfl, by decide⟩

/-- Members that agree in their keys and, up to order inside, in their values. -/
def MembersAlike (field other : String × Json) : Prop := field.1 = other.1 ∧ field.2.Alike other.2

theorem member_readable {field : String × Json}
    (hvalue : Readable delimiter (dumpsChars env) Json.Alike field.2) :
    Readable delimiter (dumpsMember env) MembersAlike field := by
  intro other rest rest' hrest hrest' h
  simp only [dumpsMember, member, List.append_assoc, List.cons_append] at h
  obtain ⟨hkey, htail⟩ := quote_append_inj h
  rw [List.cons.injEq] at htail
  obtain ⟨halike, hrests⟩ := hvalue hrest hrest' htail.2
  exact ⟨⟨hkey, halike⟩, hrests⟩

theorem str_readable (henv : env.FloatTexts) (text : String) :
    Readable delimiter (dumpsChars env) Json.Alike (.str text) := by
  intro other rest rest' _ _ h
  have hopening := opening_congr henv h
  cases other with
  | str other =>
      obtain ⟨rfl, hrests⟩ := quote_append_inj h
      exact ⟨.refl _, hrests⟩
  | _ => simp [opening] at hopening

theorem list_readable (henv : env.FloatTexts) {items : List Json}
    (hitems : ∀ item ∈ items, Readable delimiter (dumpsChars env) Json.Alike item) :
    Readable delimiter (dumpsChars env) Json.Alike (.list items) := by
  intro other rest rest' _ _ h
  have hopening := opening_congr henv h
  cases other with
  | list others =>
      simp only [dumpsChars, dumpsItems_eq_map, commaJoin, List.cons_append, List.append_assoc,
        List.cons.injEq, true_and, List.nil_append] at h
      obtain ⟨halike, hrests⟩ := intercalate_append_inj (.inl rfl) (.inr (.inl rfl)) (by decide)
        (dumps_head henv) hitems h
      exact ⟨.list halike, hrests⟩
  | _ => simp [opening] at hopening

/-- Objects agree when their sorted members do. -/
theorem alike_of_sorted {fields others : List (String × Json)}
    (h : List.Forall₂ MembersAlike (sortFields fields) (sortFields others)) :
    Json.Alike (.dict fields) (.dict others) := by
  have hkeys : List.Forall₂ Eq ((sortFields fields).map Prod.fst) ((sortFields others).map Prod.fst) := by
    rw [List.forall₂_map_left_iff, List.forall₂_map_right_iff]
    exact h.imp fun _ _ hmember ↦ hmember.1
  have hvalues : List.Forall₂ Json.Alike ((sortFields fields).map Prod.snd)
      ((sortFields others).map Prod.snd) := by
    rw [List.forall₂_map_left_iff, List.forall₂_map_right_iff]
    exact h.imp fun _ _ hmember ↦ hmember.2
  rw [List.forall₂_eq_eq_eq] at hkeys
  exact .dict (List.perm_insertionSort _ _).symm hkeys hvalues (List.perm_insertionSort _ _)

theorem dict_readable (henv : env.FloatTexts) {fields : List (String × Json)}
    (hfields : ∀ field ∈ fields, Readable delimiter (dumpsChars env) Json.Alike field.2) :
    Readable delimiter (dumpsChars env) Json.Alike (.dict fields) := by
  intro other rest rest' _ _ h
  have hopening := opening_congr henv h
  cases other with
  | dict others =>
      simp only [dumpsChars, sortedMembers_eq_map, commaJoin, List.cons_append, List.append_assoc,
        List.cons.injEq, true_and, List.nil_append] at h
      have hmembers : ∀ field ∈ sortFields fields,
          Readable delimiter (dumpsMember env) MembersAlike field := by
        intro field hfield
        exact member_readable (hfields field ((List.perm_insertionSort _ _).mem_iff.mp hfield))
      have hhead : ∀ field, ∃ c text, dumpsMember env field = c :: text ∧ c ≠ '}' :=
        fun field ↦ ⟨_, _, rfl, by decide⟩
      obtain ⟨halike, hrests⟩ := intercalate_append_inj (.inl rfl) (.inr (.inr rfl)) (by decide)
        hhead hmembers h
      exact ⟨alike_of_sorted halike, hrests⟩
  | _ => simp [opening] at hopening

/-- The text of every value ends where the first delimiter behind it stands. -/
theorem dumps_readable (henv : env.FloatTexts) (value : Json) :
    Readable delimiter (dumpsChars env) Json.Alike value := by
  induction value using Json.induction with
  | null => exact atom_readable henv rfl
  | bool b => exact atom_readable henv rfl
  | int n => exact atom_readable henv rfl
  | float x => exact atom_readable henv rfl
  | str text => exact str_readable henv text
  | list items ih => exact list_readable henv ih
  | dict fields ih => exact dict_readable henv ih

end JsonText

/-- Values with one canonical text are equal up to the order of the members of objects. -/
theorem canonicalJson_inj {env : Env} (henv : env.FloatTexts) {value other : Json}
    (h : canonicalJson env value = canonicalJson env other) : value.Alike other := by
  have hchars : JsonText.dumpsChars env value ++ [] = JsonText.dumpsChars env other ++ [] := by
    rw [String.ofList_injective h]
  exact (JsonText.dumps_readable henv value (Separated.stops_nil _) (Separated.stops_nil _) hchars).1

end DecisionCore
