import DecisionCore.Domain.JsonRoundTrip
import DecisionCore.ReadModel.Scoring
import DecisionCore.Transport.Scoreboard

/-!
# Configured requirements

The variable `CORE_REQUIRED_METRICS` lists the metrics that a decision requires.  A text that is not a JSON object
requires nothing of any decision, and neither does an entry that is not a list of texts of its own decision; a
decision of which nothing is required is scored whatever it has committed.
-/

namespace DecisionCore

open ScoreboardProjector MetricsRegistry JsonText

/-! ## Loading -/

/-- The blanks that `str.strip()` removes. -/
def PyText.isBlank (c : Char) : Bool :=
  decide (c.toNat ∈ [9, 10, 11, 12, 13, 28, 29, 30, 31, 32, 0x85, 0xa0, 0x1680, 0x2028, 0x2029, 0x202f, 0x205f,
    0x3000]) || decide (0x2000 ≤ c.toNat ∧ c.toNat ≤ 0x200a)

/-- The entries whose value is a list of texts. -/
def requiredMetricsOf (parsed : List (String × Json)) : Dict String (List String) :=
  parsed.foldl (fun result entry ↦
    match entry.2.asStrList? with
    | some metrics => result.set entry.1 metrics
    | none => result) .empty

/-- `_load_required_metrics()` on the text of the variable, empty when it is not set.  Only `JSONDecodeError` is
caught. -/
def loadRequiredMetrics (float : String → PyFloat) (raw : String) : Except LoadError (Dict String (List String)) :=
  if raw.toList.all PyText.isBlank then .ok .empty
  else
    match jsonLoads float raw with
    | .error .malformed => .ok .empty
    | .error error => .error error
    | .ok (.dict parsed) => .ok (requiredMetricsOf parsed)
    | .ok _ => .ok .empty

/-- The metrics that the text lists for the decision. -/
def listedMetrics? (float : String → PyFloat) (raw decisionId : String) : Option (List String) :=
  match jsonLoads float raw with
  | .ok (.dict parsed) => (parsed.lookup decisionId).bind Json.asStrList?
  | _ => none

/-! ## What is loaded -/

theorem get?_foldl_required {parsed : List (String × Json)} (hnodup : (parsed.map Prod.fst).Nodup)
    (result : Dict String (List String)) (decisionId : String) :
    (parsed.foldl (fun result entry ↦
      match entry.2.asStrList? with
      | some metrics => result.set entry.1 metrics
      | none => result) result).get? decisionId =
      ((parsed.lookup decisionId).bind Json.asStrList?).or (result.get? decisionId) := by
  induction parsed generalizing result with
  | nil => rfl
  | cons entry rest ih =>
    obtain ⟨key, value⟩ := entry
    obtain ⟨hnew, hrest⟩ := List.nodup_cons.mp hnodup
    have hlookup := Dict.get?_cons key value rest decisionId
    simp only [Dict.get?] at hlookup
    rw [List.foldl_cons, ih hrest, hlookup]
    by_cases hkey : key = decisionId
    · subst hkey
      have hnone : rest.lookup key = none := by
        rw [List.lookup_eq_none_iff]
        intro other hother
        rw [bne_iff_ne]
        rintro rfl
        exact hnew (List.mem_map.mpr ⟨other, hother, rfl⟩)
      rw [hnone, if_pos rfl, Option.bind_none, Option.none_or, Option.bind_some]
      cases value.asStrList? with
      | none => rfl
      | some metrics => rw [Dict.get?_set, if_pos rfl, Option.some_or]
    · rw [if_neg hkey]
      cases value.asStrList? with
      | none => rfl
      | some metrics => rw [Dict.get?_set, if_neg hkey]

/-- A dict is read with every key once. -/
theorem nodup_keys_ofMembers (members : List (String × Json)) :
    (members.foldl (fun (dict : PyDict) field ↦ dict.set field.1 field.2) .empty).keys.Nodup := by
  have hkeeps (dict : PyDict) (hdict : dict.keys.Nodup) :
      (members.foldl (fun (dict : PyDict) field ↦ dict.set field.1 field.2) dict).keys.Nodup := by
    induction members generalizing dict with
    | nil => exact hdict
    | cons field rest ih => exact ih _ (Dict.nodup_keys_set hdict field.1 field.2)
  exact hkeeps .empty List.nodup_nil

theorem scanAtom_ne_dict {float : String → PyFloat} {text rest : List Char} {parsed : List (String × Json)} :
    scanAtom float text ≠ .ok (.dict parsed, rest) := by
  intro h
  unfold scanAtom at h
  split at h
  · rename_i found hfound
    obtain ⟨literal, hliteral, rfl⟩ := Option.map_eq_some_iff.mp hfound
    have hmem := List.mem_of_find?_eq_some hliteral
    have hvalue : literal.2 = .dict parsed := congrArg Prod.fst (Except.ok.inj h)
    simp only [literals, List.mem_cons, List.not_mem_nil, or_false] at hmem
    obtain rfl | rfl | rfl | rfl | rfl | rfl := hmem <;> cases hvalue
  · simp only [scanNumber] at h
    split at h
    · cases h
    · split at h
      · split at h <;> cases h
      · cases h

/-- A text that is read as a dict opens with a brace, behind blanks. -/
theorem jsonLoads_dict {float : String → PyFloat} {text : String} {parsed : List (String × Json)}
    (h : jsonLoads float text = .ok (.dict parsed)) :
    (∃ more, skipSpace text.toList = '{' :: more) ∧ (parsed.map Prod.fst).Nodup := by
  have hscan : ∃ rest, scanOnce float (text.toList.length + 1) (skipSpace text.toList) = .ok (.dict parsed, rest) := by
    unfold jsonLoads at h
    split at h
    · cases h
    · rename_i value rest hscan
      split at h
      · rw [Except.ok.inj h] at hscan
        exact ⟨rest, hscan⟩
      · cases h
  obtain ⟨rest, hscan⟩ := hscan
  unfold scanOnce at hscan
  split at hscan
  · cases hscan
  · rename_i c more htext
    split at hscan
    · cases hstring : scanString more <;> rw [hstring] at hscan <;> cases hscan
    · split at hscan
      · obtain ⟨found, -, hvalue⟩ := map_eq_ok.mp hscan
        cases hvalue
      · split at hscan
        · rename_i hbrace
          obtain ⟨found, -, hvalue⟩ := map_eq_ok.mp hscan
          have hdict : ofMembers found.1 = .dict parsed := congrArg Prod.fst hvalue
          obtain rfl := Json.dict.inj hdict
          exact ⟨⟨more, by rw [htext, hbrace]⟩, nodup_keys_ofMembers found.1⟩
        · exact absurd hscan scanAtom_ne_dict

/-- A blank text is no dict. -/
theorem listedMetrics?_of_blank (float : String → PyFloat) {raw : String}
    (h : raw.toList.all PyText.isBlank = true) (decisionId : String) : listedMetrics? float raw decisionId = none := by
  unfold listedMetrics?
  split
  · rename_i parsed hparsed
    obtain ⟨⟨more, hopens⟩, -⟩ := jsonLoads_dict hparsed
    have hmem : '{' ∈ raw.toList := by
      apply (List.dropWhile_suffix _).mem
      change '{' ∈ skipSpace raw.toList
      rw [hopens]
      exact List.mem_cons_self
    have hblank : PyText.isBlank '{' = true := List.all_eq_true.mp h '{' hmem
    cases hblank
  · rfl

/-- Of every text that does not raise, the metrics are loaded that it lists, and no others. -/
theorem loadRequiredMetrics_get? {float : String → PyFloat} {raw : String} {config : Dict String (List String)}
    (h : loadRequiredMetrics float raw = .ok config) (decisionId : String) :
    config.get? decisionId = listedMetrics? float raw decisionId := by
  unfold loadRequiredMetrics at h
  split at h
  · rename_i hblank
    obtain rfl := Except.ok.inj h
    exact (listedMetrics?_of_blank float hblank decisionId).symm
  · unfold listedMetrics?
    split at h
    · rename_i hparsed
      obtain rfl := Except.ok.inj h
      rw [hparsed]
      rfl
    · cases h
    · rename_i parsed hparsed
      obtain rfl := Except.ok.inj h
      rw [hparsed, requiredMetricsOf, get?_foldl_required (jsonLoads_dict hparsed).2]
      exact Option.or_none
    · rename_i value hnot hparsed
      obtain rfl := Except.ok.inj h
      rw [hparsed]
      cases value with
      | dict parsed => exact absurd rfl (hnot parsed)
      | _ => rfl

/-- A configuration that is written as JSON is loaded as it was. -/
theorem loadRequiredMetrics_jsonDumps {env : Env} (float : String → PyFloat) (config : Dict String (List String))
    (hnodup : config.keys.Nodup) :
    loadRequiredMetrics float
      (jsonDumps env (.dict (config.entries.map fun binding ↦ (binding.1, .ofStrs binding.2)))) = .ok config := by
  let fields : List (String × Json) := config.entries.map fun binding ↦ (binding.1, .ofStrs binding.2)
  have hkeys : (fields.map Prod.fst).Nodup := by
    rw [List.map_map]
    exact hnodup
  have hentries : ∀ field ∈ fields, field.2.WellFormed env float ∧ field.2.intsFit = true := by
    intro field hfield
    obtain ⟨binding, -, rfl⟩ := List.mem_map.mp hfield
    refine ⟨.list ?_, (Json.itemsFit_iff _).mpr ?_⟩
    · intro item hitem
      obtain ⟨text, -, rfl⟩ := List.mem_map.mp hitem
      exact .str text
    · intro item hitem
      obtain ⟨text, -, rfl⟩ := List.mem_map.mp hitem
      rfl
  have hread : jsonLoads float (jsonDumps env (.dict fields)) = .ok (.dict fields) := by
    apply jsonLoads_jsonDumps (.dict hkeys fun field hfield ↦ (hentries field hfield).1)
    have hfits : (Json.dict fields).intsFit = true :=
      (Json.fieldsFit_iff fields).mpr fun field hfield ↦ (hentries field hfield).2
    rw [jsonDumps?, if_pos hfits]
  have hopens : (jsonDumps env (.dict fields)).toList.all PyText.isBlank = false := by
    by_contra hblank
    obtain ⟨⟨more, hmore⟩, -⟩ := jsonLoads_dict hread
    have hmem : '{' ∈ (jsonDumps env (.dict fields)).toList := by
      apply (List.dropWhile_suffix _).mem
      change '{' ∈ skipSpace (jsonDumps env (.dict fields)).toList
      rw [hmore]
      exact List.mem_cons_self
    have hall : (jsonDumps env (.dict fields)).toList.all PyText.isBlank = true := by simpa using hblank
    cases (List.all_eq_true.mp hall '{' hmem : PyText.isBlank '{' = true)
  have hcollect : requiredMetricsOf fields = config := by
    obtain ⟨entries⟩ := config
    simp only [requiredMetricsOf, fields, List.foldl_map, Json.asStrList?_ofStrs]
    exact congrArg Dict.mk (Dict.foldl_set (fun _ _ ↦ rfl) hnodup)
  rw [loadRequiredMetrics, if_neg (by simp [hopens, fields]), hread, ← hcollect]

section Runs

variable {env : Env} {float : String → PyFloat} {maxLeaves : ℤ} {maxSeconds : ℚ} {trace : List (System × Label)}
  {last : System}

/-- In every conforming run, under every text of the variable with which the service starts: a board that is served
has no score exactly when the text lists metrics for its decision that are not all live in the replayed part of its
stream.  So every decision is scored that the text does not list, or not as a list of texts. -/
theorem configuration_decides_scores
    (run : Run (System.step env) (System.initial maxLeaves maxSeconds) trace last)
    (conforms : Along (fun _ label ↦ label.Starts (Call.Conforms env)) trace) (hdigest : env.DigestSized)
    {raw : String} {config : Dict String (List String)} (hconfig : loadRequiredMetrics float raw = .ok config)
    {now : Instant} {decisionId : String} {response : Api.GetScoreboardResponse}
    (hserved : (Api.getScoreboard env config last.state now decisionId).2 = .ok response) :
    response.trustScore = .inr "INSUFFICIENT_DATA" ↔
      ∃ metrics, listedMetrics? float raw decisionId = some metrics ∧
        ¬ AllLive metrics (replayed [] (last.state.auditTrail.readRange decisionId 0)) := by
  have hrequired := loadRequiredMetrics_get? hconfig decisionId
  have hresult : (rebuild env last.state now decisionId ((config.get? decisionId).getD [])).2 = _ :=
    rebuild_result last.state now decisionId ((config.get? decisionId).getD [])
  simp only [Api.getScoreboard] at hserved
  obtain ⟨board, hboard, rfl⟩ : ∃ board, project env decisionId ((config.get? decisionId).getD []) now
      (last.state.auditTrail.readRange decisionId 0) = .ok board ∧ Api.scoreboardResponseOf board = response := by
    rw [← hresult]
    split at hserved
    · cases hserved
    · rename_i next board hrebuild
      split at hserved
      · cases hserved
      · cases hserved
        exact ⟨board, congrArg Prod.snd hrebuild, rfl⟩
  obtain ⟨hlive, hnot⟩ := (run.readable conforms hdigest decisionId).project_cases
    ((config.get? decisionId).getD []) now
  have hscore : (Api.scoreboardResponseOf board).trustScore = .inr "INSUFFICIENT_DATA" ↔ board.trustScore = none := by
    simp only [Api.scoreboardResponseOf]
    cases board.trustScore <;> simp
  have hlacks : board.trustScore = none ↔
      ¬ AllLive ((config.get? decisionId).getD []) (replayed [] (last.state.auditTrail.readRange decisionId 0)) := by
    constructor
    · intro hnone hall
      obtain ⟨found, score, hfound, hsome, -⟩ :=
        (scored_or_insufficient hboard).resolve_right (hlive hall).2
      obtain rfl := Except.ok.inj (hboard.symm.trans hfound)
      rw [hnone] at hsome
      cases hsome
    · intro hmissing
      obtain ⟨found, hfound, hnone, -⟩ := (hnot hmissing).1
      obtain rfl := Except.ok.inj (hboard.symm.trans hfound)
      exact hnone
  rw [hscore, hlacks, hrequired]
  cases listedMetrics? float raw decisionId with
  | none => simp [AllLive]
  | some metrics => simp

/-- Two metrics are listed for one decision, and a number for another one. -/
def sampleConfiguration : String := "\x7b\"d1\": [\"roi\", \"cost\"], \"d2\": 5\x7d"

/-- One of the two metrics is committed. -/
theorem configured_decision_is_insufficient : ∃ config last response,
    loadRequiredMetrics (fun _ ↦ .nan) sampleConfiguration = .ok config ∧
      follow (System.step .local) (System.initial 100 60) (uninterrupted (.updateMetric sampleCommand) 2) = some last ∧
      (Api.getScoreboard .local config last.state 0 "d1").2 = .ok response ∧
      response.trustScore = .inr "INSUFFICIENT_DATA" := by
  have hsome : ((loadRequiredMetrics (fun _ ↦ .nan) sampleConfiguration).toOption.bind fun config ↦
      (follow (System.step .local) (System.initial 100 60) (uninterrupted (.updateMetric sampleCommand) 2)).bind
        fun last ↦ (Api.getScoreboard .local config last.state 0 "d1").2.message?.bind fun response ↦
          (listedMetrics? (fun _ ↦ .nan) sampleConfiguration "d1").map fun metrics ↦
            decide (¬ AllLive metrics (replayed [] (last.state.auditTrail.readRange "d1" 0)))) = some true := by
    decide +kernel
  obtain ⟨config, hconfig, hsome⟩ := Option.bind_eq_some_iff.mp hsome
  obtain ⟨last, hlast, hsome⟩ := Option.bind_eq_some_iff.mp hsome
  obtain ⟨response, hresponse, hsome⟩ := Option.bind_eq_some_iff.mp hsome
  obtain ⟨metrics, hmetrics, hmissing⟩ := Option.map_eq_some_iff.mp hsome
  have hloaded : loadRequiredMetrics (fun _ ↦ .nan) sampleConfiguration = .ok config := by
    cases hload : loadRequiredMetrics (fun _ ↦ .nan) sampleConfiguration with
    | error error =>
      rw [hload] at hconfig
      cases hconfig
    | ok found =>
      rw [hload] at hconfig
      rw [Option.some.inj hconfig]
  have hserved := Reply.eq_ok_of_message? hresponse
  have hiff := configuration_decides_scores (Run.of_follow hlast)
    (along_traceOf (by simp [uninterrupted, Label.Starts, Call.Conforms])) Env.local_digestSized hloaded hserved
  exact ⟨config, last, response, hloaded, hlast, hserved,
    hiff.mpr ⟨metrics, hmetrics, of_decide_eq_true hmissing⟩⟩

end Runs

end DecisionCore
