import DecisionCore.Domain.CanonicalText
import DecisionCore.Infrastructure.LocalEnv
import DecisionCore.Application.Merkle

/-!
# Which leaf preimages are unambiguous

`compute_leaf_hash` joins six caller-controlled texts with bars, and the evidence references among
them with commas, and escapes neither.  The preimage of a tuple therefore belongs to that tuple alone
exactly when no boundary between two fields can be moved: no text holds a bar, there is one evidence
reference that cannot be read as two or as none, and no piece of the value's text between two bars is
itself the text of a value.
-/

namespace DecisionCore

/-- The arguments of `compute_leaf_hash`. -/
structure LeafFields where
  decisionId : String
  metricName : String
  value : Json
  timestampIso : String
  evidenceRefs : List String
  idempotencyKey : String

namespace LeafFields

/-- The text behind the leaf hash. -/
def text (env : Env) (fields : LeafFields) : String :=
  leafPreimage env fields.decisionId fields.metricName fields.value fields.timestampIso
    fields.evidenceRefs fields.idempotencyKey

/-- The byte string that is hashed. -/
def preimage (env : Env) (fields : LeafFields) : Bytes := encodeUtf8 (fields.text env)

def leafHash (env : Env) (fields : LeafFields) : Bytes :=
  computeLeafHash env fields.decisionId fields.metricName fields.value fields.timestampIso
    fields.evidenceRefs fields.idempotencyKey

/-- The same commit: equal texts, equal values up to the order of object members, and the same set
of evidence references. -/
structure Agree (fields other : LeafFields) : Prop where
  decisionId : fields.decisionId = other.decisionId
  metricName : fields.metricName = other.metricName
  value : fields.value.Alike other.value
  timestampIso : fields.timestampIso = other.timestampIso
  evidenceRefs : ∀ ref, ref ∈ fields.evidenceRefs ↔ ref ∈ other.evidenceRefs
  idempotencyKey : fields.idempotencyKey = other.idempotencyKey

/-- Only tuples that agree with this one have its preimage. -/
def Unambiguous (env : Env) (fields : LeafFields) : Prop :=
  ∀ other : LeafFields, fields.preimage env = other.preimage env → fields.Agree other

end LeafFields

/-! ## The condition -/

/-- The text holds no field separator. -/
def Unbarred (text : String) : Prop := '|' ∉ text.toList

instance (text : String) : Decidable (Unbarred text) :=
  inferInstanceAs (Decidable ('|' ∉ text.toList))

/-- There is one evidence reference, it is not empty, holds no field separator, and no comma in it
can be one between two references in their order. -/
def SoleReference (refs : List String) : Prop :=
  ∃ ref, (∀ other, other ∈ refs ↔ other = ref) ∧ ref ≠ "" ∧ Unbarred ref ∧
    ∀ first second, ref = first ++ "," ++ second → ¬ first < second

/-- One or both ends of the text can be cut off at a bar so that `piece` remains. -/
def BarPiece (piece text : String) : Prop :=
  (∃ before behind, text = before ++ "|" ++ piece ++ "|" ++ behind) ∨
    (∃ before, text = before ++ "|" ++ piece) ∨ ∃ behind, text = piece ++ "|" ++ behind

/-- What cutting the text of the value at bars leaves is not the text of a value. -/
def SealedValue (env : Env) (value : Json) : Prop :=
  ∀ other, ¬ BarPiece (canonicalJson env other) (canonicalJson env value)

/-- No boundary between the fields can be moved. -/
structure LeafFields.Plain (env : Env) (fields : LeafFields) : Prop where
  decisionId : Unbarred fields.decisionId
  metricName : Unbarred fields.metricName
  value : SealedValue env fields.value
  timestampIso : Unbarred fields.timestampIso
  evidenceRefs : SoleReference fields.evidenceRefs
  idempotencyKey : Unbarred fields.idempotencyKey

/-! ## Texts and their pieces -/

/-- The pieces of a text between bars. -/
noncomputable def pieces (text : String) : List (List Char) := text.toList.splitOn '|'

theorem pieces_ne_nil (text : String) : pieces text ≠ [] := List.splitOn_ne_nil _ _

theorem pieces_inj {text other : String} (h : pieces text = pieces other) : text = other :=
  String.toList_inj.mp (Separated.splitOn_injective '|' h)

theorem pieces_of_unbarred {text : String} (h : Unbarred text) : pieces text = [text.toList] :=
  List.splitOn_eq_singleton h

theorem pieces_bar (text other : String) : pieces (text ++ "|" ++ other) = pieces text ++ pieces other := by
  have hlist : (text ++ "|" ++ other).toList = text.toList ++ '|' :: other.toList := by simp
  rw [pieces, hlist, List.splitOn_append_cons_self]
  rfl

variable {env : Env} {fields other : LeafFields}

/-- The evidence references as one text. -/
def joinedRefs (refs : List String) : String := ",".intercalate (sortedSet refs)

theorem text_eq (env : Env) (fields : LeafFields) : fields.text env =
    fields.decisionId ++ "|" ++ fields.metricName ++ "|" ++ canonicalJson env fields.value ++ "|" ++
      fields.timestampIso ++ "|" ++ joinedRefs fields.evidenceRefs ++ "|" ++ fields.idempotencyKey := by
  simp [LeafFields.text, leafPreimage, joinedRefs, String.append_assoc]

theorem pieces_text (env : Env) (fields : LeafFields) : pieces (fields.text env) =
    pieces fields.decisionId ++ pieces fields.metricName ++ pieces (canonicalJson env fields.value) ++
      (pieces fields.timestampIso ++ pieces (joinedRefs fields.evidenceRefs) ++
        pieces fields.idempotencyKey) := by
  rw [text_eq]
  simp only [pieces_bar, List.append_assoc]

theorem pieces_length_pos (text : String) : 0 < (pieces text).length :=
  List.length_pos_iff.mpr (pieces_ne_nil text)

theorem preimage_congr (h : fields.text env = other.text env) :
    fields.preimage env = other.preimage env := by
  rw [LeafFields.preimage, h, LeafFields.preimage]

/-! ## Evidence references -/

theorem sortedSet_pairwise_lt (refs : List String) : (sortedSet refs).Pairwise (· < ·) := by
  have hle : (sortedSet refs).Pairwise (· ≤ ·) := List.pairwise_insertionSort _ _
  have hne : (sortedSet refs).Nodup :=
    (List.perm_insertionSort _ _).nodup_iff.mpr (List.nodup_dedup refs)
  exact hle.imp₂ (fun _ _ ↦ lt_of_le_of_ne) hne

theorem sortedSet_of_single {refs : List String} {ref : String} (h : ∀ x, x ∈ refs ↔ x = ref) :
    sortedSet refs = [ref] := by
  have hsame : sortedSet refs = sortedSet [ref] := by
    apply sortedSet_congr
    intro x
    rw [h, List.mem_singleton]
  rw [hsame]
  rfl

theorem joinedRefs_of_single {refs : List String} {ref : String} (h : ∀ x, x ∈ refs ↔ x = ref) :
    joinedRefs refs = ref := by
  rw [joinedRefs, sortedSet_of_single h, String.intercalate_singleton]

theorem joinedRefs_pair {first second : String} (h : first < second) :
    joinedRefs [first, second] = first ++ "," ++ second := by
  have hdedup : [first, second].dedup = [first, second] := by
    rw [List.dedup_eq_self]
    simpa using h.ne
  have hsorted : sorted [first, second] = [first, second] :=
    List.Pairwise.insertionSort_eq (by simpa using h.le)
  rw [joinedRefs, sortedSet, hdedup, hsorted, String.intercalate_cons_cons, String.intercalate_singleton]

theorem lt_append_of_lt {first second : String} (h : first < second) (rest : String) :
    first < second ++ rest := by
  rw [String.lt_iff_toList_lt] at h ⊢
  rw [String.toList_append]
  exact List.Lex.append_right _ _ h

/-- A text that cannot be two references in order is joined from itself only. -/
theorem refs_of_joinedRefs {refs : List String} {ref : String} (hne : ref ≠ "")
    (hwhole : ∀ first second, ref = first ++ "," ++ second → ¬ first < second)
    (h : joinedRefs refs = ref) : ∀ x, x ∈ refs ↔ x = ref := by
  intro x
  rw [joinedRefs] at h
  rw [← mem_sortedSet]
  match hset : sortedSet refs with
  | [] =>
      rw [hset, String.intercalate_nil] at h
      exact absurd h.symm hne
  | [single] =>
      rw [hset, String.intercalate_singleton] at h
      rw [h, List.mem_singleton]
  | first :: second :: rest =>
      rw [hset, String.intercalate_cons_cons] at h
      have hlt : first < second := by
        have hpairwise := sortedSet_pairwise_lt refs
        rw [hset] at hpairwise
        exact List.rel_of_pairwise_cons hpairwise List.mem_cons_self
      have hjoin : first < ",".intercalate (second :: rest) := by
        cases rest with
        | nil => rwa [String.intercalate_singleton]
        | cons third rest =>
            rw [String.intercalate_cons_cons, String.append_assoc]
            exact lt_append_of_lt hlt _
      exact absurd hjoin (hwhole _ _ h.symm)

/-! ## Plain tuples are unambiguous -/

theorem text_of_pieces {text : String} {parts : List (List Char)} (h : pieces text = parts) :
    text = String.ofList (['|'].intercalate parts) := by
  rw [← h, pieces, List.intercalate_splitOn, String.ofList_toList]

theorem ofList_bar {parts others : List (List Char)} (hparts : parts ≠ []) (hothers : others ≠ []) :
    String.ofList (['|'].intercalate (parts ++ others)) =
      String.ofList (['|'].intercalate parts) ++ "|" ++ String.ofList (['|'].intercalate others) := by
  rw [Separated.intercalate_append hparts hothers, ← String.toList_inj]
  simp

/-- The bars of a sealed value's text are not those between the fields. -/
theorem SealedValue.pieces_whole {value inner : Json} (hsealed : SealedValue env value)
    {before behind : List (List Char)}
    (h : pieces (canonicalJson env value) = before ++ pieces (canonicalJson env inner) ++ behind) :
    before = [] ∧ behind = [] := by
  have hinner : canonicalJson env inner =
      String.ofList (['|'].intercalate (pieces (canonicalJson env inner))) := text_of_pieces rfl
  have hne := pieces_ne_nil (canonicalJson env inner)
  have hvalue := text_of_pieces h
  by_contra hproper
  rw [not_and_or] at hproper
  apply hsealed inner
  by_cases hbefore : before = []
  · have hbehind : behind ≠ [] := hproper.resolve_left (not_not_intro hbefore)
    refine .inr (.inr ⟨String.ofList (['|'].intercalate behind), ?_⟩)
    rw [hvalue, hbefore, List.nil_append, ofList_bar hne hbehind, ← hinner]
  · by_cases hbehind : behind = []
    · refine .inr (.inl ⟨String.ofList (['|'].intercalate before), ?_⟩)
      rw [hvalue, hbehind, List.append_nil, ofList_bar hbefore hne, ← hinner]
    · refine .inl ⟨String.ofList (['|'].intercalate before), String.ofList (['|'].intercalate behind), ?_⟩
      rw [hvalue, ofList_bar (List.append_ne_nil_of_left_ne_nil hbefore _) hbehind,
        ofList_bar hbefore hne, ← hinner]

theorem eq_of_pieces_singleton {text other : String} (h : pieces other = [text.toList]) :
    text = other := by
  rw [text_of_pieces h, List.intercalate_singleton, String.ofList_toList]

theorem LeafFields.Plain.unambiguous (henv : env.FloatTexts) (hplain : fields.Plain env) :
    fields.Unambiguous env := by
  intro other h
  obtain ⟨ref, hrefs, hne, hbar, hwhole⟩ := hplain.evidenceRefs
  have hpieces : pieces (fields.text env) = pieces (other.text env) := by
    rw [encodeUtf8_injective h]
  rw [pieces_text, pieces_text, joinedRefs_of_single hrefs, pieces_of_unbarred hplain.decisionId,
    pieces_of_unbarred hplain.metricName, pieces_of_unbarred hplain.timestampIso,
    pieces_of_unbarred hbar, pieces_of_unbarred hplain.idempotencyKey] at hpieces
  have hdecision := pieces_length_pos other.decisionId
  have hmetric := pieces_length_pos other.metricName
  have htimestamp := pieces_length_pos other.timestampIso
  have hreferences := pieces_length_pos (joinedRefs other.evidenceRefs)
  have hkey := pieces_length_pos other.idempotencyKey
  obtain ⟨before, behind, hfirst, hmiddle, hlast⟩ := Separated.runs_nested hpieces
    (by simp; omega) (by simp; omega)
  obtain ⟨rfl, rfl⟩ := hplain.value.pieces_whole hmiddle
  -- Now every run of the other tuple is one piece, the field of this tuple at its place.
  simp only [List.append_nil, List.nil_append, List.append_assoc, List.cons_append] at hfirst hmiddle hlast
  obtain ⟨hdecisionId, hmetricName⟩ := Separated.run_eq_singleton (pieces_ne_nil _) (by simp; omega) hfirst
  obtain ⟨htimestampIso, hlast⟩ := Separated.run_eq_singleton (pieces_ne_nil _) (by simp; omega) hlast
  obtain ⟨hjoined, hidempotencyKey⟩ := Separated.run_eq_singleton (pieces_ne_nil _) (by simp; omega) hlast
  have hothers := refs_of_joinedRefs hne hwhole (eq_of_pieces_singleton hjoined).symm
  constructor
  · exact eq_of_pieces_singleton hdecisionId
  · exact eq_of_pieces_singleton hmetricName
  · exact canonicalJson_inj henv (pieces_inj hmiddle)
  · exact eq_of_pieces_singleton htimestampIso
  · intro x
    rw [hrefs, hothers]
  · exact eq_of_pieces_singleton hidempotencyKey

/-! ## Unambiguous tuples are plain -/

theorem bar_of_not_unbarred {text : String} (h : ¬ Unbarred text) :
    ∃ before behind, text = before ++ "|" ++ behind := by
  rw [Unbarred, not_not] at h
  obtain ⟨before, behind, hsplit⟩ := List.append_of_mem h
  refine ⟨String.ofList before, String.ofList behind, ?_⟩
  rw [← String.toList_inj, hsplit]
  simp

theorem ne_append_sep {sep : String} (hsep : 0 < sep.length) (before behind : String) :
    before ≠ before ++ sep ++ behind := by
  intro h
  have hlength := congrArg String.length h
  rw [String.length_append, String.length_append] at hlength
  omega

theorem ne_sep_append {sep : String} (hsep : 0 < sep.length) (before behind : String) :
    behind ≠ before ++ sep ++ behind := by
  intro h
  have hlength := congrArg String.length h
  rw [String.length_append, String.length_append] at hlength
  omega

namespace LeafFields.Unambiguous

/-- A tuple with the same text agrees. -/
theorem agree (h : fields.Unambiguous env) {other : LeafFields}
    (htext : fields.text env = other.text env) : fields.Agree other :=
  h other (preimage_congr htext)

theorem decisionId (h : fields.Unambiguous env) : Unbarred fields.decisionId := by
  by_contra hbar
  obtain ⟨before, behind, hsplit⟩ := bar_of_not_unbarred hbar
  let other : LeafFields :=
    { fields with decisionId := before, metricName := behind ++ "|" ++ fields.metricName }
  have htext : fields.text env = other.text env := by
    simp [text_eq, hsplit, other, String.append_assoc]
  exact ne_append_sep (by decide) before behind ((h.agree htext).decisionId.symm.trans hsplit)

theorem metricName (h : fields.Unambiguous env) : Unbarred fields.metricName := by
  by_contra hbar
  obtain ⟨before, behind, hsplit⟩ := bar_of_not_unbarred hbar
  let other : LeafFields :=
    { fields with decisionId := fields.decisionId ++ "|" ++ before, metricName := behind }
  have htext : fields.text env = other.text env := by
    simp [text_eq, hsplit, other, String.append_assoc]
  exact ne_sep_append (by decide) before behind ((h.agree htext).metricName.symm.trans hsplit)

theorem joinedRefs_self (text : String) : joinedRefs [text] = text :=
  joinedRefs_of_single fun _ ↦ List.mem_singleton

theorem timestampIso (h : fields.Unambiguous env) : Unbarred fields.timestampIso := by
  by_contra hbar
  obtain ⟨before, behind, hsplit⟩ := bar_of_not_unbarred hbar
  let other : LeafFields :=
    { fields with
      timestampIso := before
      evidenceRefs := [behind ++ "|" ++ joinedRefs fields.evidenceRefs] }
  have htext : fields.text env = other.text env := by
    simp [text_eq, hsplit, other, joinedRefs_self, String.append_assoc]
  exact ne_append_sep (by decide) before behind ((h.agree htext).timestampIso.symm.trans hsplit)

theorem idempotencyKey (h : fields.Unambiguous env) : Unbarred fields.idempotencyKey := by
  by_contra hbar
  obtain ⟨before, behind, hsplit⟩ := bar_of_not_unbarred hbar
  let other : LeafFields :=
    { fields with
      evidenceRefs := [joinedRefs fields.evidenceRefs ++ "|" ++ before]
      idempotencyKey := behind }
  have htext : fields.text env = other.text env := by
    simp [text_eq, hsplit, other, joinedRefs_self, String.append_assoc]
  exact ne_sep_append (by decide) before behind ((h.agree htext).idempotencyKey.symm.trans hsplit)

/-- The references of another tuple with the same joined text are the same. -/
theorem refs_eq (h : fields.Unambiguous env) {refs : List String}
    (hrefs : joinedRefs fields.evidenceRefs = joinedRefs refs) (ref : String) :
    ref ∈ fields.evidenceRefs ↔ ref ∈ refs := by
  let other : LeafFields := { fields with evidenceRefs := refs }
  have htext : fields.text env = other.text env := by
    rw [text_eq, text_eq, hrefs]
  exact (h.agree htext).evidenceRefs ref

theorem evidenceRefs (h : fields.Unambiguous env) : SoleReference fields.evidenceRefs := by
  have hsole : ∀ ref, ref ∈ fields.evidenceRefs ↔ ref = joinedRefs fields.evidenceRefs := by
    intro ref
    rw [h.refs_eq (joinedRefs_self _).symm, List.mem_singleton]
  have hmem : joinedRefs fields.evidenceRefs ∈ fields.evidenceRefs := (hsole _).mpr rfl
  refine ⟨joinedRefs fields.evidenceRefs, hsole, ?_, ?_, ?_⟩
  · intro hempty
    have hnone : joinedRefs fields.evidenceRefs = joinedRefs [] := hempty
    exact absurd ((h.refs_eq hnone _).mp hmem) List.not_mem_nil
  · by_contra hbar
    obtain ⟨before, behind, hsplit⟩ := bar_of_not_unbarred hbar
    let other : LeafFields :=
      { fields with
        timestampIso := fields.timestampIso ++ "|" ++ before
        evidenceRefs := [behind] }
    have htext : fields.text env = other.text env := by
      simp [text_eq, hsplit, other, joinedRefs_self, String.append_assoc]
    exact ne_append_sep (by decide) _ before (h.agree htext).timestampIso
  · intro first second hsplit hlt
    have hpair : joinedRefs fields.evidenceRefs = joinedRefs [first, second] := by
      rw [hsplit, joinedRefs_pair hlt]
    have hfirst : first = joinedRefs fields.evidenceRefs :=
      (hsole first).mp ((h.refs_eq hpair first).mpr List.mem_cons_self)
    exact ne_append_sep (by decide) first second (hfirst.trans hsplit)

theorem value (h : fields.Unambiguous env) : SealedValue env fields.value := by
  rintro inner (⟨before, behind, hsplit⟩ | ⟨before, hsplit⟩ | ⟨behind, hsplit⟩)
  · let other : LeafFields :=
      { fields with
        metricName := fields.metricName ++ "|" ++ before
        value := inner
        timestampIso := behind ++ "|" ++ fields.timestampIso }
    have htext : fields.text env = other.text env := by
      simp [text_eq, hsplit, other, String.append_assoc]
    exact ne_append_sep (by decide) _ before (h.agree htext).metricName
  · let other : LeafFields :=
      { fields with metricName := fields.metricName ++ "|" ++ before, value := inner }
    have htext : fields.text env = other.text env := by
      simp [text_eq, hsplit, other, String.append_assoc]
    exact ne_append_sep (by decide) _ before (h.agree htext).metricName
  · let other : LeafFields :=
      { fields with value := inner, timestampIso := behind ++ "|" ++ fields.timestampIso }
    have htext : fields.text env = other.text env := by
      simp [text_eq, hsplit, other, String.append_assoc]
    exact ne_sep_append (by decide) behind _ (h.agree htext).timestampIso

theorem plain (h : fields.Unambiguous env) : fields.Plain env :=
  ⟨h.decisionId, h.metricName, h.value, h.timestampIso, h.evidenceRefs, h.idempotencyKey⟩

end LeafFields.Unambiguous

theorem sealedValue_of_unbarred {value : Json} (h : Unbarred (canonicalJson env value)) :
    SealedValue env value := by
  intro inner hpiece
  apply h
  obtain ⟨before, behind, hsplit⟩ | ⟨before, hsplit⟩ | ⟨behind, hsplit⟩ := hpiece
  all_goals rw [hsplit]; simp

theorem soleReference_of_plain {ref : String} (hne : ref ≠ "") (hbar : Unbarred ref)
    (hcomma : ',' ∉ ref.toList) : SoleReference [ref] := by
  refine ⟨ref, fun _ ↦ List.mem_singleton, hne, hbar, ?_⟩
  intro first second hsplit
  exact absurd (by rw [hsplit]; simp) hcomma

/-- A commit of one number with one reference. -/
def plainLeaf : LeafFields := ⟨"d1", "roi", .int 1, LocalEnv.epochText, ["e1"], "k1"⟩

/-- A bar at the end of the decision's name. -/
def barredDecision : LeafFields := ⟨"a|b", "c", .int 1, LocalEnv.epochText, ["e1"], "k1"⟩

/-- The same bar at the beginning of the metric's name. -/
def barredMetric : LeafFields := ⟨"a", "b|c", .int 1, LocalEnv.epochText, ["e1"], "k1"⟩

end DecisionCore
